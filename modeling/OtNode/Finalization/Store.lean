import OtNode.Finalization.Machine

/-! What the finalisation stores: when it is validated first.

    The validation command reports a mismatch and goes on: nothing is returned after its `handleError`.
    Only an error thrown while the size is computed ends the sequence, so that a dataset is never
    stored unvalidated exactly when it is valid or its size cannot be computed. -/

namespace OtNode

open Pool

variable {α : Type}

namespace FinalizationContext

variable (ctx : FinalizationContext α)

/-- The cached dataset is the one of the event: same root, same size. -/
def Validated : Prop :=
  ctx.cached.merkleRoot = ctx.event.merkleRoot ∧
    ctx.calculateAssertionSize ctx.cached.assertion = .ok ctx.event.byteSize

/-- The size of the cached assertion can be computed. -/
def Measurable : Prop := ∃ size, ctx.calculateAssertionSize ctx.cached.assertion = .ok size

/-- The commands of a finalisation: the validation carries the cached assertion, and nothing after
    it is reached unless the size can be computed. -/
def Follows : FinalizationCommand α → Prop
  | .readCachedPublishData sequence => sequence = [.validateAssertionMetadata, .storeAssertion]
  | .stage .validateAssertionMetadata data sequence =>
    data.assertion = ctx.cached.assertion ∧ sequence = [.storeAssertion]
  | .stage _ _ sequence => ctx.Measurable ∧ .validateAssertionMetadata ∉ sequence

/-- The steps of a finalisation: a `try` block is left, and a command is added, as `Follows` says. -/
def Allows : FinalizationEffect α → Prop
  | .leave => ctx.Measurable
  | .finish children => ∀ c ∈ children, ctx.Follows c
  | _ => True

end FinalizationContext

open FinalizationContext FinalizationCommand

variable {ctx : FinalizationContext α} {c : FinalizationCommand α}

theorem follows_continueSequence {data : FinalizationData α} {sequence : List FinalizationStage}
    (hsize : ctx.Measurable) (hlater : .validateAssertionMetadata ∉ sequence) :
    ∀ c ∈ continueSequence data sequence, ctx.Follows c := by
  cases sequence with
  | nil => simp [continueSequence]
  | cons name sequence =>
    intro c hc
    obtain rfl := List.mem_singleton.mp hc
    obtain ⟨hname, hrest⟩ := List.ne_and_not_mem_of_not_mem_cons hlater
    cases name with
    | validateAssertionMetadata => exact absurd rfl hname
    | _ => exact ⟨hsize, hrest⟩

theorem allows_execute (hc : ctx.Follows c) : ∀ e ∈ c.execute, ctx.Allows e := by
  cases c with
  | readCachedPublishData sequence => simp [execute, Allows]
  | stage name data sequence =>
    cases name with
    | findPublisherNode =>
      simpa [execute, Allows] using follows_continueSequence hc.1 hc.2
    | _ => simp [execute, Allows]

theorem allows_tryBlock (hc : ctx.Follows c) : ∀ e ∈ c.tryBlock ctx, ctx.Allows e := by
  cases c with
  | readCachedPublishData sequence => simp [tryBlock]
  | stage name data sequence =>
    cases name with
    | validateAssertionMetadata =>
      obtain ⟨hassertion, -⟩ := hc
      intro e he
      rw [tryBlock, hassertion] at he
      rcases List.mem_append.mp he with he | he
      · rw [checkMerkleRoot] at he
        split at he
        · exact List.mem_singleton.mp he ▸ trivial
        · cases he
      · split at he
        · exact List.mem_singleton.mp he ▸ trivial
        · next size hsize =>
          rcases List.mem_append.mp he with he | he
          · rw [checkAssertionSize] at he
            split at he
            · exact List.mem_singleton.mp he ▸ trivial
            · cases he
          · exact List.mem_singleton.mp he ▸ ⟨size, hsize⟩
    | storeAssertion =>
      have hsize : ctx.Measurable := hc.1
      intro e he
      simp only [tryBlock] at he
      split at he <;> simp at he <;> rcases he with rfl | rfl | he
      all_goals first | trivial | skip
      · rcases he with rfl | rfl
        · trivial
        · exact hsize
      · exact he ▸ hsize
    | _ => simp [tryBlock]

theorem allows_closing (hc : ctx.Follows c) (hsize : ctx.Measurable) :
    ∀ e ∈ c.closing ctx, ctx.Allows e := by
  cases c with
  | readCachedPublishData sequence => simp [closing]
  | stage name data sequence =>
    cases name with
    | validateAssertionMetadata =>
      obtain ⟨-, rfl⟩ := hc
      simpa [closing, Allows] using follows_continueSequence hsize (by simp)
    | storeAssertion =>
      have hlater : FinalizationStage.validateAssertionMetadata ∉ sequence := hc.2
      simp only [closing, List.mem_singleton, forall_eq, Allows]
      split
      · exact follows_continueSequence hsize hlater
      · exact follows_continueSequence hsize (by simp [hlater])
    | _ => simp [closing]

/-- What an error starts follows the same command. -/
theorem each_onFinalizationThrow {h : FinalizationHandler α} (hc : ctx.Follows h.command)
    (message : String) (lost : Bool) :
    Each (fun h => ctx.Follows h.command) (fun _ e => ctx.Allows e)
      (onFinalizationThrow h message lost) := by
  rw [onFinalizationThrow]
  split
  · cases hcommand : h.command <;> simp_all [Each, caught, Allows, handleError]
  · split
    · simp [Each]
    · split
      · simp [Each, queue, Allows, hc]
      · cases hcommand : h.command <;> simp_all [Each, recover, Allows, handleError]
  · simp [Each]
  · simp [Each]

/-- STEP: what is executed and under way follows from the sequence of the event. -/
theorem follows_perform {s : Finalization α} {h : FinalizationHandler α} {e : FinalizationEffect α}
    {i : FinalizationChoice}
    {o : Outcome (Finalization α) (FinalizationHandler α) (FinalizationEffect α)}
    (hI : ∀ c ∈ s.executed, ctx.Follows c) (hc : ctx.Follows h.command) (he : ctx.Allows e)
    (hp : finalizationPerform ctx h e i s = some o) :
    (∀ c ∈ o.shared.executed, ctx.Follows c) ∧
      o.Each (fun h => ctx.Follows h.command) (fun _ e => ctx.Allows e) h := by
  cases i with
  | throws message lost =>
    have hthrow := each_onFinalizationThrow hc message lost
    cases e with
    | enter | leave | raised => simp [finalizationPerform] at hp
    | readFile operationId =>
      simp only [finalizationPerform, Option.some.injEq] at hp
      subst hp
      exact ⟨hI, by simp [Allows], by simp [Each]⟩
    | _ =>
      simp only [finalizationPerform, Option.some.injEq] at hp
      subst hp
      exact ⟨hI, hthrow⟩
  | ok =>
    cases e with
    | execute =>
      simp only [finalizationPerform, Option.some.injEq] at hp
      subst hp
      refine ⟨?_, allows_execute hc, by simp [Each]⟩
      intro c hmem
      rcases List.mem_append.mp hmem with hmem | hmem
      · exact hI c hmem
      · exact List.mem_singleton.mp hmem ▸ hc
    | readFile operationId =>
      simp only [finalizationPerform] at hp
      split at hp
      · next sequence hcommand =>
        rw [hcommand] at hc
        obtain rfl : sequence = _ := hc
        obtain rfl := Option.some.inj hp
        refine ⟨hI, ?_, by simp [Each]⟩
        simp [Allows, continueSequence, Follows, FinalizationContext.readData]
      · cases hp
    | enter =>
      obtain rfl := Option.some.inj hp
      exact ⟨hI, by simp, by simpa [Each, hc] using allows_tryBlock hc⟩
    | leave =>
      obtain rfl := Option.some.inj hp
      exact ⟨hI, by simp, by simpa [Each, hc] using allows_closing hc he⟩
    | raised message =>
      obtain rfl := Option.some.inj hp
      exact ⟨hI, each_onFinalizationThrow hc message false⟩
    | retry =>
      obtain rfl := Option.some.inj hp
      refine ⟨hI, by simp, ?_⟩
      split <;> simp [Each, queue, Allows, hc]
    | finish children =>
      obtain rfl := Option.some.inj hp
      refine ⟨hI, by simp, ?_⟩
      intro t ht
      obtain ⟨c, hmem, rfl⟩ := List.mem_map.mp ht
      exact ⟨he c hmem, by simp [add, queue, Allows]⟩
    | _ =>
      obtain rfl := Option.some.inj hp
      exact ⟨hI, by simp [Allows], by simp [Each]⟩

/-- RUN: every command executed follows from the sequence of the event. -/
theorem FinalizationRun.follows
    {c : Config (Finalization α) (FinalizationHandler α) (FinalizationEffect α)}
    (h : FinalizationRun ctx c) : ∀ command ∈ c.shared.executed, ctx.Follows command := by
  refine (h.each (I := fun s => ∀ c ∈ s.executed, ctx.Follows c)
    (Q := fun h => ctx.Follows h.command) (R := fun _ e => ctx.Allows e)
    follows_perform (by simp [handleKnowledgeCollectionCreatedEvent]) ?_).1
  simp [handleKnowledgeCollectionCreatedEvent, Each, add, queue, Follows, Allows]

/-! ### The run in which every call succeeds -/

/-- A configuration with a single task. -/
abbrev only (s : Finalization α) (t : FinalizationJob α) :
    Config (Finalization α) (FinalizationHandler α) (FinalizationEffect α) := ⟨s, [t]⟩

/-- Steps of a finalisation. -/
abbrev Goes (ctx : FinalizationContext α)
    (c c' : Config (Finalization α) (FinalizationHandler α) (FinalizationEffect α)) : Prop :=
  (finalizationMachine ctx).Steps (fun _ _ _ => True) c c'

/-- A successful step of the only task. -/
theorem goes_step {s s' : Finalization α} {h : FinalizationHandler α} {e : FinalizationEffect α}
    {es todo : List (FinalizationEffect α)} {spawned : List (FinalizationJob α)}
    {c' : Config (Finalization α) (FinalizationHandler α) (FinalizationEffect α)}
    (hp : finalizationPerform ctx h e .ok s = some (.next s' todo spawned))
    (hc' : ⟨s', resume h (todo ++ es) ++ spawned⟩ = c') : Goes ctx (only s ⟨h, e :: es⟩) c' :=
  hc' ▸ Machine.Steps.alone (M := finalizationMachine ctx) FinalizationChoice.ok hp

/-- The read hands the cached dataset on. -/
theorem goes_read (ctx : FinalizationContext α) (s : Finalization α) (name : FinalizationStage)
    (sequence : List FinalizationStage) :
    ∃ s' operationId, Goes ctx (only s (add (.readCachedPublishData (name :: sequence))))
      (only s' (add (.stage name (ctx.readData operationId) sequence))) := by
  let h : FinalizationHandler α := ⟨.readCachedPublishData (name :: sequence), 10, .outside⟩
  let s₁ : Finalization α := { s with executed := s.executed ++ [h.command] }
  let s₂ : Finalization α := { s₁ with records := s₁.records ++ [⟨.publishFinalizationStart, none⟩] }
  have hexecute : Goes ctx (only s ⟨h, [.execute]⟩) (only s₁ ⟨h, [.generateOperationId]⟩) :=
    goes_step rfl rfl
  have hgenerate : Goes ctx (only s₁ ⟨h, [.generateOperationId]⟩)
      (only s₂ ⟨h, [.readFile s.records.length]⟩) := goes_step rfl rfl
  have hread : Goes ctx (only s₂ ⟨h, [.readFile s.records.length]⟩) (only s₂ ⟨h, [.finish
      [.stage name (ctx.readData s.records.length) sequence]]⟩) := goes_step rfl rfl
  have hfinish : Goes ctx (only s₂ ⟨h, [.finish
      [.stage name (ctx.readData s.records.length) sequence]]⟩)
      (only s₂ (add (.stage name (ctx.readData s.records.length) sequence))) := goes_step rfl rfl
  exact ⟨s₂, _, ((hexecute.trans hgenerate).trans hread).trans hfinish⟩

/-- Updates in front of a script leave the rest of it. -/
theorem goes_updates (ctx : FinalizationContext α) (h : FinalizationHandler α)
    (rest : List (FinalizationEffect α)) {es : List (FinalizationEffect α)}
    {e : FinalizationEffect α}
    (hes : ∀ e ∈ es, ∃ operationId status failure,
      e = .updateOperationIdStatus operationId status failure) (s : Finalization α) :
    ∃ s', Goes ctx (only s ⟨h, es ++ e :: rest⟩) (only s' ⟨h, e :: rest⟩) := by
  induction es generalizing s with
  | nil => exact ⟨s, .refl _⟩
  | cons e' es ih =>
    obtain ⟨operationId, status, failure, rfl⟩ := hes e' List.mem_cons_self
    obtain ⟨s', hgoes⟩ := ih (fun e he => hes e (List.mem_cons_of_mem _ he))
      (s.updateOperationIdStatus operationId status failure)
    have hfirst : Goes ctx
        (only s ⟨h, .updateOperationIdStatus operationId status failure :: (es ++ e :: rest)⟩)
        ⟨s.updateOperationIdStatus operationId status failure, resume h (es ++ e :: rest) ++ []⟩ :=
      goes_step rfl rfl
    refine ⟨s', .trans ?_ hgoes⟩
    cases es <;> exact hfirst

/-- The validation goes on to the next command, whatever it finds, if the size can be computed. -/
theorem goes_validate (operationId : ℕ) (hsize : ctx.Measurable) (s : Finalization α) :
    ∃ s', Goes ctx
      (only s (add (.stage .validateAssertionMetadata (ctx.readData operationId)
        [.storeAssertion])))
      (only s' (add (.stage .storeAssertion (ctx.readData operationId) []))) := by
  obtain ⟨size, hsize⟩ := hsize
  let data := ctx.readData operationId
  let command : FinalizationCommand α := .stage .validateAssertionMetadata data [.storeAssertion]
  let h : FinalizationHandler α := ⟨command, 0, .outside⟩
  let checks := checkMerkleRoot data ++ checkAssertionSize data size
  have hblock : command.tryBlock ctx = checks ++ [.leave] := by
    have : ctx.calculateAssertionSize data.assertion = .ok size := hsize
    simp [command, checks, tryBlock, this]
  have hchecks : ∀ e ∈ checks, ∃ operationId status failure,
      e = .updateOperationIdStatus operationId status failure := by
    intro e he
    rcases List.mem_append.mp he with he | he
    · rw [checkMerkleRoot] at he
      split at he
      · exact ⟨_, _, _, List.mem_singleton.mp he⟩
      · cases he
    · rw [checkAssertionSize] at he
      split at he
      · exact ⟨_, _, _, List.mem_singleton.mp he⟩
      · cases he
  let s₁ : Finalization α := { s with executed := s.executed ++ [command] }
  let s₂ := s₁.updateOperationIdStatus operationId none none
  have hexecute : Goes ctx (only s ⟨h, [.execute]⟩) (only s₁ ⟨h, command.execute⟩) :=
    goes_step rfl rfl
  have hstart : Goes ctx (only s₁ ⟨h, command.execute⟩) (only s₂ ⟨h, [.enter]⟩) :=
    goes_step rfl rfl
  have henter : Goes ctx (only s₂ ⟨h, [.enter]⟩)
      (only s₂ ⟨{ h with mode := .inside }, checks ++ [.leave]⟩) := by
    rw [← hblock]
    exact goes_step rfl rfl
  obtain ⟨s₃, hchecked⟩ := goes_updates ctx { h with mode := .inside } [] hchecks s₂
  have hleave : Goes ctx (only s₃ ⟨{ h with mode := .inside }, [.leave]⟩)
      (only s₃ ⟨h, command.closing ctx⟩) := goes_step rfl rfl
  let s₄ := s₃.updateOperationIdStatus operationId none none
  have hend : Goes ctx (only s₃ ⟨h, command.closing ctx⟩)
      (only s₄ ⟨h, [.finish [.stage .storeAssertion data []]]⟩) :=
    goes_step rfl rfl
  have hfinish : Goes ctx (only s₄ ⟨h, [.finish [.stage .storeAssertion data []]]⟩)
      (only s₄ (add (.stage .storeAssertion data []))) := goes_step rfl rfl
  exact ⟨s₄, hexecute.trans (hstart.trans (henter.trans
    (hchecked.trans (hleave.trans (hend.trans hfinish)))))⟩

/-- RUN: if the size can be computed, some run executes the store command. -/
theorem storeAssertion_executed (ctx : FinalizationContext α) (hsize : ctx.Measurable) :
    ∃ c data sequence, FinalizationRun ctx c ∧
      .stage .storeAssertion data sequence ∈ c.shared.executed := by
  obtain ⟨s₁, operationId, hread⟩ :=
    goes_read ctx ⟨[], [], [], []⟩ .validateAssertionMetadata [.storeAssertion]
  obtain ⟨s₂, hvalidate⟩ := goes_validate operationId hsize s₁
  let command : FinalizationCommand α := .stage .storeAssertion (ctx.readData operationId) []
  have hexecute : Goes ctx (only s₂ (add command))
      (only { s₂ with executed := s₂.executed ++ [command] }
        ⟨⟨command, 0, .outside⟩, command.execute⟩) := goes_step rfl rfl
  exact ⟨_, ctx.readData operationId, [], hread.trans (hvalidate.trans hexecute),
    List.mem_append_right _ (List.mem_singleton.mpr rfl)⟩

/-- CORRECT (only validated assertions are stored): whatever fails and whenever, the store command
    is executed for a valid dataset only, exactly if the dataset is valid or the computation of its
    size throws. -/
theorem storeAssertion_validated (ctx : FinalizationContext α) :
    (∀ c data sequence, FinalizationRun ctx c →
      .stage .storeAssertion data sequence ∈ c.shared.executed → ctx.Validated) ↔
    (ctx.Validated ∨
      ∃ message, ctx.calculateAssertionSize ctx.cached.assertion = .error message) := by
  constructor
  · intro hall
    cases hsize : ctx.calculateAssertionSize ctx.cached.assertion with
    | error message => exact Or.inr ⟨message, rfl⟩
    | ok size =>
      obtain ⟨c, data, sequence, hrun, hmem⟩ := storeAssertion_executed ctx ⟨size, hsize⟩
      exact Or.inl (hall c data sequence hrun hmem)
  · rintro (hvalid | ⟨message, herror⟩) c data sequence hrun hmem
    · exact hvalid
    · obtain ⟨⟨size, hsize⟩, -⟩ := hrun.follows _ hmem
      simp [herror] at hsize

/-- An event whose root is not the cached one: the dataset is stored all the same. -/
theorem storeAssertion_unvalidated :
    ∃ (ctx : FinalizationContext (List String)) (c : _) (data : _) (sequence : _),
      FinalizationRun ctx c ∧ .stage .storeAssertion data sequence ∈ c.shared.executed ∧
        ctx.cached.merkleRoot ≠ ctx.event.merkleRoot := by
  let ctx : FinalizationContext (List String) :=
    { event := ⟨"otp:2043", "0xab", "1", "publish-1", "0x02", 32⟩
      cached := ⟨"0x01", ["<a> <b> <c> ."], none⟩
      peerId := "peer-0"
      publicPart := fun _ => .ok none
      calculateNumberOfChunks := fun assertion _ => .ok assertion.length }
  obtain ⟨c, data, sequence, hrun, hmem⟩ := storeAssertion_executed ctx ⟨32, rfl⟩
  exact ⟨ctx, c, data, sequence, hrun, hmem, by decide⟩

end OtNode
