import OtNode.Operation.Polling

/-! Every step of a publish or get operation is a step of its poll, or leaves the poll where it was.

    `Polls` is what is assumed of the operation. The relation of `Polling` is kept in five ways: work
    is replaced by work of the same role (`Rel.replace`), a verdict is written (`Rel.write`), the
    command sequence ends and the poll starts (`Rel.begin`), a batch is sent (`Rel.send`), and an
    answer is counted (`Rel.answer`) or left out (`Rel.skip`). -/

namespace OtNode

open Pool Poll

variable {π : Type}

/-- A publish or get operation with its batch size and its minimum resolved. -/
structure Polls (ctx : Context π) (d : CommandData π) (b m : ℕ) : Prop where
  operation : ctx.operationName = .publish ∨ ctx.operationName = .get
  batchSize : getBatchSize ctx.operationName d.batchSize = some b
  minimum : getMinAckResponses ctx.operationName d.minimumNumberOfNodeReplications = some m

variable {ctx : Context π} {d : CommandData π} {b m asked : ℕ} {q : State} {s s' : Operation π}
  {k : Handler π} {e : Effect π} {rest W : Multiset (Handler π × Effect π)}

theorem Polls.publish (hop : ctx.operationName = .publish) (d : CommandData π) :
    Polls ctx d (PublishService.getBatchSize d.batchSize)
      (PublishService.getMinAckResponses d.minimumNumberOfNodeReplications) :=
  ⟨Or.inl hop, by rw [hop]; rfl, by rw [hop]; rfl⟩

theorem Polls.get (hop : ctx.operationName = .get) (d : CommandData π) :
    Polls ctx d (GetService.getBatchSize d.batchSize)
      (GetService.getMinAckResponses d.minimumNumberOfNodeReplications) :=
  ⟨Or.inr hop, by rw [hop]; rfl, by rw [hop]; rfl⟩

theorem Polls.publish_batchSize (h : Polls ctx d b m) (hop : ctx.operationName = .publish) :
    PublishService.getBatchSize d.batchSize = b := by
  have hb := h.batchSize
  rw [hop] at hb
  exact Option.some.inj hb

theorem Polls.publish_minimum (h : Polls ctx d b m) (hop : ctx.operationName = .publish) :
    PublishService.getMinAckResponses d.minimumNumberOfNodeReplications = m := by
  have hm := h.minimum
  rw [hop] at hm
  exact Option.some.inj hm

/-! ### Commands taken from the queue -/

variable [DecidableEq π]

/-- Data resolved from what the find-shard command hands on fits a poll that has asked no one. -/
theorem foundData_fits (ctx : Context π) (d : CommandData π) (b m : ℕ) :
    Fits ctx b m 0 ((foundData ctx d).toMessage b m) :=
  ⟨rfl, rfl, rfl, rfl⟩

/-- The local store command leads up to the poll: it ends with the local response. -/
theorem localStore_script (h : Polls ctx d b m) (hlocal : storesLocally ctx d = true)
    (hm : m ≤ numberOfFoundNodes ctx) (hk : k.command.number? = none) :
    Script ctx d b m 0 (localStore (foundData ctx d)) k .stage := by
  obtain ⟨hop, hV0⟩ : ctx.operationName = .publish ∧ d.isOperationV0 = false := by
    simpa [storesLocally] using hlocal
  have hresponse : Script ctx d b m 0
      [.processResponse ((foundData ctx d).toMessage b m)
        (if nodePartOfShard ctx then .completed else .failed), .finish []] k .stage := by
    have hcarries : Carries ctx d b m 0 (k, .processResponse ((foundData ctx d).toMessage b m)
        (if nodePartOfShard ctx then .completed else .failed)) :=
      ⟨foundData_fits ctx d b m, fun _ => ⟨hlocal, hm, rfl⟩⟩
    have hscript := Script.finish.cons (by simp [role, hk]) (by simp) hcarries
    simpa [role, hk] using hscript
  have hpublisher : Script ctx d b m 0
      ([Effect.access, .addSignatureToStorage .publisher] ++ _) k .stage :=
    hresponse.append_idle (by simp [role, Carries])
  have hsigned : Script ctx d b m 0
      ((if nodePartOfShard ctx then [Effect.access, .addSignatureToStorage .network] else []) ++ _)
      k .stage := hpublisher.append_idle (by split <;> simp [role, Carries])
  have hbody : Script ctx d b m 0
      ([Effect.updateOperationIdStatus .localStoreStart none, .access, .access,
        .updateOperationIdStatus .localStoreEnd none, .access] ++ _) k .stage :=
    hsigned.append_idle (by simp [role, Carries])
  simpa [localStore, foundData, hV0, h.publish_batchSize hop, h.publish_minimum hop] using hbody

/-- A stage of the sequence, taken from the queue, leads up to the poll. -/
theorem start_stage (h : Polls ctx d b m) (hm : m ≤ numberOfFoundNodes ctx) {name : Stage}
    {sequence : List Stage}
    (hseq : name :: sequence <:+ getOperationCommandSequence ctx.operationName d) :
    Bears ctx d b m 0 (workOf [start ctx (.stage name (foundData ctx d) sequence)]) .stage := by
  refine Script.job ?_
  rcases h.operation with hop | hop
  · cases hV0 : d.isOperationV0
    · have hlocal : storesLocally ctx d = true := by simp [storesLocally, hop, hV0]
      simp only [getOperationCommandSequence, hop, hV0, Bool.false_eq_true, if_false,
        List.suffix_cons_iff, List.cons.injEq, List.suffix_nil, reduceCtorEq, or_false] at hseq
      rcases hseq with ⟨rfl, rfl⟩ | ⟨rfl, rfl⟩
      · have hcarries : Carries ctx d b m 0 (⟨.stage .validateAsset (foundData ctx d) [.localStore],
            0, .execute⟩, .finish (continueSequence (foundData ctx d) [.localStore])) :=
          Or.inr ⟨hm, .localStore, [], rfl, by
            simp [getOperationCommandSequence, hop, hV0]⟩
        have hlast := Script.nil.cons (by simp [role, continueSequence]) (by simp) hcarries
        have hbody : Script ctx d b m 0
            ([Effect.updateOperationIdStatus .publishValidateAssetStart none, .access, .access,
              .updateOperationIdStatus .publishValidateAssetEnd none,
              .updateOperationIdStatus .publishValidateAssetEnd none] ++ _) _ _ :=
          hlast.append_idle (by simp [role, Carries])
        simpa [start, execute, validateAsset, hop, validateAssetEvents, initialRetries,
          continueSequence, role] using hbody
      · exact localStore_script h hlocal hm rfl
    · have hlocal : storesLocally ctx d = false := by simp [storesLocally, hV0]
      simp only [getOperationCommandSequence, hop, hV0, if_true, List.suffix_cons_iff,
        List.cons.injEq, List.suffix_nil, reduceCtorEq, or_false] at hseq
      obtain ⟨rfl, rfl⟩ := hseq
      exact Script.nil.cons (by simp [role]) (by simp) ⟨hlocal, hm, rfl⟩
  · have hlocal : storesLocally ctx d = false := by simp [storesLocally, hop]
    simp only [getOperationCommandSequence, hop, List.suffix_cons_iff, List.cons.injEq,
      List.suffix_nil, reduceCtorEq, or_false] at hseq
    rcases hseq with ⟨rfl, rfl⟩ | ⟨rfl, rfl⟩
    · exact (Script.nil.cons (e := .localGet (foundData ctx d) [.networkProtocol]) (by simp [role])
        (by simp) ⟨hop, hm, rfl, rfl⟩).cons_idle
        (e := .updateOperationIdStatus .getLocalStart none) rfl trivial
    · exact Script.nil.cons (by simp [role]) (by simp) ⟨hlocal, hm, rfl⟩

/-- A schedule command, taken from the queue, is the batch due. -/
theorem start_scheduleMessages {data : MessageData π} (h : Fits ctx b m asked data) :
    Bears ctx d b m asked (workOf [start ctx (.scheduleMessages data)]) .token :=
  Script.job (((Script.finish.cons_idle (e := .updateOperationIdStatus _ none) rfl trivial).cons
    (e := .addRequests data) (by simp [role]) (by simp) h).cons_idle
    (e := .updateOperationIdStatus _ none) rfl trivial)

/-- A request command, taken from the queue for the first time or again, is an answer outstanding. -/
theorem request_script (h : Polls ctx d b m) {data : MessageData π} (hfits : Fits ctx b m asked data)
    {number : ℕ} {node : π} (hk : k.command = .request number node data)
    (hmode : k.mode = .execute) : Script ctx d b m asked (execute ctx k.command) k .answer := by
  rw [hk]
  rcases h.operation with hop | hop
  · have hscript : Script ctx d b m asked [.sendMessage] k .answer :=
      Script.nil.cons (by simp [role]) (by simp) ⟨hmode, number, node, data, hk, hfits⟩
    simpa [execute, hop] using hscript.cons_idle (e := .access) rfl trivial
  · have hscript : Script ctx d b m asked [.shouldSendMessage] k .answer :=
      Script.nil.cons (by simp [role]) (by simp) ⟨hop, hmode, number, node, data, hk, hfits⟩
    simpa [execute, hop] using hscript

theorem start_request (h : Polls ctx d b m) {data : MessageData π} (hfits : Fits ctx b m asked data)
    (number : ℕ) (node : π) :
    Bears ctx d b m asked (workOf [start ctx (.request number node data)]) .answer :=
  Script.job (request_script (k := ⟨.request number node data, 3, .execute⟩) h hfits rfl rfl)

/-- The answer recorded for a request. -/
theorem response_script {data : MessageData π} (hfits : Fits ctx b m asked data)
    (hk : k.command.number? ≠ none) (status : ResponseStatus) {es : List (Effect π)}
    (hes : Script ctx d b m asked es k .idle) :
    Script ctx d b m asked (.processResponse data status :: es) k .answer := by
  have hscript := hes.cons (e := .processResponse data status) (by simp [role, hk]) (by simp)
    ⟨hfits, fun hnone => absurd hnone hk⟩
  simpa [role, hk] using hscript

/-! ### How the relation is kept -/

/-- The fields of an operation the relation speaks of. -/
structure Alike (s s' : Operation π) : Prop where
  status : s'.operationStatus = s.operationStatus
  verdicts : s'.verdicts = s.verdicts
  responses : s'.responses = s.responses
  batches : s'.batches = s.batches

/-- What is carried does not depend on how many are asked, but in batches due and answers. -/
theorem Carries.shift {asked' : ℕ} {w : Handler π × Effect π} (h : Carries ctx d b m asked w)
    (hstage : role w ≠ .stage) (htoken : role w ≠ .token) (hanswer : role w ≠ .answer) :
    Carries ctx d b m asked' w := by
  obtain ⟨k, e⟩ := w
  cases e with
  | add | addRequests => simp [role] at htoken
  | shouldSendMessage | sendMessage | retry => simp [role] at hanswer
  | processResponse =>
    by_cases hk : k.command.number? = none
    · simp [role, hk] at hstage
    · simp [role, hk] at hanswer
  | _ => exact h

theorem Rel.mono {k' : Handler π × Effect π} (hR : Rel ctx d b m q s (k' ::ₘ rest)) :
    ∀ w ∈ rest, Carries ctx d b m q.asked w :=
  fun w hw => hR.carries w (Multiset.mem_cons_of_mem hw)

theorem Rel.due (hR : Rel ctx d b m q s ((k, e) ::ₘ rest)) (he : role (k, e) = .token) :
    0 < q.due := by
  have htokens := hR.tokens
  rw [count_cons, if_pos he] at htokens
  omega

theorem Rel.busy (hR : Rel ctx d b m q s ((k, e) ::ₘ rest)) (he : role (k, e) = .answer) :
    0 < q.inFlight := by
  have hanswers := hR.answers
  rw [count_cons, if_pos he] at hanswers
  omega

/-- Work replaced by work of the same role leaves the poll where it was. -/
theorem Rel.replace (hR : Rel ctx d b m q s ((k, e) ::ₘ rest))
    (hW : Bears ctx d b m q.asked W (role (k, e))) (hs : Alike s s')
    (hseq : s'.sequence = s.sequence ∨ role (k, e) = .stage) :
    Rel ctx d b m q s' (W + rest) := by
  have hcount : ∀ r, r ≠ .idle → count r (W + rest) = count r ((k, e) ::ₘ rest) := by
    intro r hr
    rw [count_add, hW.count r hr, count_cons, Nat.add_comm]
    simp only [eq_comm]
  refine ⟨?_, ?_, ?_, ?_, ?_, ?_, ?_, ?_, ?_, ?_, ?_, ?_⟩
  · rw [hcount .stage (by decide), hR.stages]
  · rw [hcount .token (by decide), hR.tokens]
  · rw [hcount .answer (by decide), hR.answers]
  · rw [hcount .accept (by decide), hs.verdicts, hR.accepts]
  · rw [hcount .reject (by decide), hs.verdicts, hR.rejects]
  · rw [Operation.scheduled, hs.batches]
    exact hR.scheduled
  · rw [hs.responses, hR.responses]
  · rw [Operation.completedNumber, Operation.countStatus, hs.responses]
    exact hR.completed
  · rw [hs.status, hs.verdicts, hR.status]
  · rintro ⟨k', data, hmem⟩
    have hrest : (k', Effect.findShard data) ∈ rest :=
      (Multiset.mem_add.mp hmem).resolve_left (hW.search k' data)
    rcases hseq with hseq | hstage
    · rw [hseq]
      exact hR.sequence ⟨k', data, Multiset.mem_cons_of_mem hrest⟩
    · -- the sequence is run by one command at a time
      have hone := hR.stages
      rw [count_cons, if_pos hstage] at hone
      have hnone : count .stage rest = 0 := by
        split at hone <;> omega
      exact absurd rfl (count_eq_zero hnone _ hrest)
  · intro w hw
    rcases Multiset.mem_add.mp hw with hw | hw
    · exact hW.carries w hw
    · exact hR.mono w hw
  · rw [hs.verdicts]
    exact hR.written

/-- An idle effect performed. -/
theorem Rel.idle (hR : Rel ctx d b m q s ((k, e) ::ₘ rest)) (he : role (k, e) = .idle)
    (hs : Alike s s') (hseq : s'.sequence = s.sequence) : Rel ctx d b m q s' rest := by
  have hnothing : Bears ctx d b m q.asked (0 : Multiset (Handler π × Effect π)) (role (k, e)) :=
    he ▸ Bears.nothing
  simpa using hR.replace hnothing hs (Or.inl hseq)

/-- A verdict written to the operation's record. -/
theorem Rel.write {status : OperationStatus}
    (hR : Rel ctx d b m q s ((k, .updateOperationStatus status) ::ₘ rest)) :
    Rel ctx d b m q { s with operationStatus := status, verdicts := s.verdicts ++ [status] }
      rest := by
  have hterminal : status ≠ .inProgress := hR.carries _ (Multiset.mem_cons_self _ _)
  obtain ⟨h₁, h₂, h₃, h₄, h₅, h₆, h₇, h₈, h₉, h₁₀, h₁₁, h₁₂⟩ := hR
  refine ⟨?_, ?_, ?_, ?_, ?_, h₆, h₇, h₈, by simp, ?_, ?_, ?_⟩
  · cases status <;> simp_all [role]
  · cases status <;> simp_all [role]
  · cases status <;> simp_all [role]
  · cases status <;> simp_all [role, List.count_append]
    omega
  · cases status <;> simp_all [role, List.count_append]
    omega
  · rintro ⟨k', data, hmem⟩
    exact h₁₀ ⟨k', data, Multiset.mem_cons_of_mem hmem⟩
  · exact fun w hw => h₁₁ w (Multiset.mem_cons_of_mem hw)
  · intro verdict hmem
    rcases List.mem_append.mp hmem with hmem | hmem
    · exact h₁₂ verdict hmem
    · exact List.mem_singleton.mp hmem ▸ hterminal

/-- The command sequence is under way: nothing else is, and the poll has not started. -/
theorem Rel.fresh (hR : Rel ctx d b m q s ((k, e) ::ₘ rest)) (hq : Orderly (poll ctx d b m) q)
    (he : role (k, e) = .stage) : q = State.initial ∧ ∀ r, r ≠ .idle → count r rest = 0 := by
  have hstages := hR.stages
  have hstart : q.started = false := by
    by_contra hstart
    simp [he, (by simpa using hstart : q.started = true)] at hstages
  obtain rfl := hq.fresh hstart
  obtain ⟨-, htokens, hanswers, haccepts, hrejects, -, -, -, -, -, -, -⟩ := hR
  simp only [count_cons, he, State.initial] at hstages htokens hanswers haccepts hrejects
  refine ⟨rfl, ?_⟩
  intro r hr
  cases r with
  | idle => exact absurd rfl hr
  | _ => simp_all

/-- The command sequence ends and the poll starts with its first decision. -/
theorem Rel.begin (hR : Rel ctx d b m q s ((k, e) ::ₘ rest)) (hq : Orderly (poll ctx d b m) q)
    (he : role (k, e) = .stage)
    (hW : Bears ctx d b m 0 W (decisionRole (poll ctx d b m).first))
    (hstatus : s'.operationStatus = s.operationStatus) (hverdicts : s'.verdicts = s.verdicts)
    (hbatches : s'.batches = s.batches)
    (hresponses : s'.responses.length = localResponses ctx d m)
    (hcompleted : s'.completedNumber = localSuccesses ctx d m) :
    Rel ctx d b m ((poll ctx d b m).start q) s' (W + rest) := by
  obtain ⟨rfl, hrest⟩ := hR.fresh hq he
  obtain ⟨-, -, -, haccepts, hrejects, hscheduled, -, -, hstat, -, hcarries, hwritten⟩ := hR
  have hcount : ∀ r, r ≠ .idle →
      count r (W + rest) = if r = decisionRole (poll ctx d b m).first then 1 else 0 := by
    intro r hr
    rw [count_add, hrest r hr, hW.count r hr, Nat.add_zero]
  have hnone : s.verdicts.count .completed = 0 ∧ s.verdicts.count .failed = 0 := by
    simp only [State.initial] at haccepts hrejects
    omega
  have hscheduled' : s'.scheduled = (shardNodes ctx).take 0 := by
    rw [Operation.scheduled, hbatches]
    exact hscheduled
  have hcarries' : ∀ w ∈ W + rest, Carries ctx d b m 0 w := by
    intro w hw
    rcases Multiset.mem_add.mp hw with hw | hw
    · exact hW.carries w hw
    · exact hcarries w (Multiset.mem_cons_of_mem hw)
  have hsearch : ¬∃ k' data, (k', Effect.findShard data) ∈ W + rest := by
    rintro ⟨k', data, hmem⟩
    rcases Multiset.mem_add.mp hmem with hmem | hmem
    · exact hW.search k' data hmem
    · exact absurd rfl (count_eq_zero (hrest .stage (by decide)) _ hmem)
  rw [← hverdicts] at hwritten
  generalize hfirst : (poll ctx d b m).first = first at hcount
  rcases first with _ | _ | _ | _ <;>
    refine ⟨?_, ?_, ?_, ?_, ?_, ?_, ?_, ?_, ?_, fun h => absurd h hsearch, ?_, hwritten⟩ <;>
      simp only [Protocol.start, hfirst, State.apply, State.initial, hcount, ne_eq, reduceCtorEq,
        not_false_eq_true, decisionRole, if_true, if_false, hverdicts, hnone, hstatus, hstat,
        hresponses, hcompleted, Nat.zero_add, Nat.add_zero] <;>
      first
        | exact hscheduled'
        | exact hcarries'
        | rfl

/-- A batch goes out: its requests are the answers outstanding. -/
theorem Rel.send (hR : Rel ctx d b m q s ((k, e) ::ₘ rest)) (hq : Orderly (poll ctx d b m) q)
    (he : role (k, e) = .token) {asked' : ℕ}
    (hasked : asked' = min (q.asked + b) (shardNodes ctx).length)
    (hcount : ∀ r, r ≠ .idle → count r W = if r = .answer then asked' - q.asked else 0)
    (hsearch : ∀ k data, (k, Effect.findShard data) ∉ W)
    (hcarries : ∀ w ∈ W, Carries ctx d b m asked' w)
    (hstatus : s'.operationStatus = s.operationStatus) (hverdicts : s'.verdicts = s.verdicts)
    (hresponses : s'.responses = s.responses) (hsequence : s'.sequence = s.sequence)
    (hscheduled : s'.scheduled = (shardNodes ctx).take asked') :
    Rel ctx d b m ((poll ctx d b m).send q) s' (W + rest) := by
  have hdue : q.due = 1 ∧ q.inFlight = 0 := hq.single.resolve_left (hR.due he).ne'
  have hlive : q.started = true := by
    by_contra hstart
    rw [hq.fresh (by simpa using hstart)] at hdue
    exact absurd hdue.1 (by decide)
  obtain ⟨hstages, htokens, hanswers, haccepts, hrejects, -, hresp, hcomp, hstat, hseq, hold,
    hwritten⟩ := hR
  simp only [count_cons, he, hlive, if_true, reduceCtorEq, if_false, Nat.add_zero]
    at hstages htokens hanswers haccepts hrejects hresp
  have hquiet : ∀ w ∈ rest, role w ≠ .stage ∧ role w ≠ .token ∧ role w ≠ .answer := by
    refine fun w hw => ⟨count_eq_zero ?_ w hw, count_eq_zero ?_ w hw, count_eq_zero ?_ w hw⟩
    · exact hstages
    · omega
    · exact hanswers.trans hdue.2
  have hasked'' : ((poll ctx d b m).send q).asked = asked' := hasked.symm
  refine ⟨?_, ?_, ?_, ?_, ?_, ?_, ?_, ?_, ?_, ?_, ?_, hverdicts ▸ hwritten⟩
  · rw [count_add, hcount .stage (by decide)]
    simpa [Protocol.send, hlive] using hstages
  · rw [count_add, hcount .token (by decide)]
    simp only [Protocol.send, reduceCtorEq, if_false]
    omega
  · rw [count_add, hcount .answer (by decide)]
    simp only [Protocol.send, poll, if_true, ← hasked]
    omega
  · rw [count_add, hcount .accept (by decide), hverdicts]
    simpa [Protocol.send] using haccepts
  · rw [count_add, hcount .reject (by decide), hverdicts]
    simpa [Protocol.send] using hrejects
  · rw [hasked'', hscheduled]
  · rw [hresponses, hresp]
    simp [Protocol.send, hlive]
  · rw [Operation.completedNumber, Operation.countStatus, hresponses]
    exact hcomp
  · rw [hstatus, hverdicts, hstat]
  · rintro ⟨k', data, hmem⟩
    rcases Multiset.mem_add.mp hmem with hmem | hmem
    · exact absurd hmem (hsearch k' data)
    · rw [hsequence]
      exact hseq ⟨k', data, Multiset.mem_cons_of_mem hmem⟩
  · intro w hw
    rw [hasked'']
    rcases Multiset.mem_add.mp hw with hw | hw
    · exact hcarries w hw
    · obtain ⟨h₁, h₂, h₃⟩ := hquiet w hw
      exact (hold w (Multiset.mem_cons_of_mem hw)).shift h₁ h₂ h₃

/-- An answer is counted and the service's decision carried out. -/
theorem Rel.answer {status : ResponseStatus} {number : Option ℕ}
    (hR : Rel ctx d b m q s ((k, e) ::ₘ rest)) (hq : Orderly (poll ctx d b m) q)
    (he : role (k, e) = .answer)
    (hW : Bears ctx d b m q.asked W
      (decisionRole ((poll ctx d b m).decision q (decide (status = .completed))))) :
    Rel ctx d b m ((q.count (decide (status = .completed))).apply
      ((poll ctx d b m).decision q (decide (status = .completed))))
      (s.createResponseRecord number status) (W + rest) := by
  have hbusy : 0 < q.inFlight := hR.busy he
  have hlive : q.started = true := by
    by_contra hstart
    rw [hq.fresh (by simpa using hstart)] at hbusy
    exact absurd hbusy (by decide)
  obtain ⟨hstages, htokens, hanswers, haccepts, hrejects, hsched, hresp, hcomp, hstat, hseq,
    hold, hwritten⟩ := hR
  simp only [count_cons, he, hlive, if_true, reduceCtorEq, if_false, Nat.add_zero]
    at hstages htokens hanswers haccepts hrejects hresp
  have hrecorded : (s.createResponseRecord number status).responses.length =
      q.answered + 1 + localResponses ctx d m := by
    simp [Operation.createResponseRecord, hresp]
    omega
  have hcounted : (s.createResponseRecord number status).completedNumber =
      q.succeeded + (decide (status = .completed)).toNat := by
    rw [← hcomp]
    cases status <;>
      simp [Operation.completedNumber, Operation.countStatus, Operation.createResponseRecord]
  have hsearch : (∃ k' data, (k', Effect.findShard data) ∈ W + rest) → s.sequence = [] := by
    rintro ⟨k', data, hmem⟩
    rcases Multiset.mem_add.mp hmem with hmem | hmem
    · exact absurd hmem (hW.search k' data)
    · exact hseq ⟨k', data, Multiset.mem_cons_of_mem hmem⟩
  have hcarries : ∀ w ∈ W + rest, Carries ctx d b m q.asked w := by
    intro w hw
    rcases Multiset.mem_add.mp hw with hw | hw
    · exact hW.carries w hw
    · exact hold w (Multiset.mem_cons_of_mem hw)
  have hverdicts : (s.createResponseRecord number status).verdicts = s.verdicts := rfl
  have hcount := hW.count
  generalize (poll ctx d b m).decision q (decide (status = .completed)) = dec at hcount ⊢
  rcases dec with _ | _ | _ | _ <;>
    refine ⟨?_, ?_, ?_, ?_, ?_, hsched, ?_, ?_, hstat, hsearch, hcarries, hwritten⟩ <;>
      simp only [State.apply, State.count, count_add, hcount, ne_eq, reduceCtorEq,
        not_false_eq_true, decisionRole, if_true, if_false, hlive, hrecorded, hcounted,
        hverdicts] <;>
      omega

/-- A request left out because the operation has its verdict. -/
theorem Rel.skip (hR : Rel ctx d b m q s ((k, e) ::ₘ rest)) (he : role (k, e) = .answer)
    (hW : Bears ctx d b m q.asked W .idle) :
    Rel ctx d b m { q with inFlight := q.inFlight - 1 } s (W + rest) := by
  obtain ⟨hstages, htokens, hanswers, haccepts, hrejects, hsched, hresp, hcomp, hstat, hseq,
    hold, hwritten⟩ := hR
  simp only [count_cons, he, if_true, reduceCtorEq, if_false, Nat.add_zero]
    at hstages htokens hanswers haccepts hrejects
  refine ⟨?_, ?_, ?_, ?_, ?_, hsched, hresp, hcomp, hstat, ?_, ?_, hwritten⟩
  iterate 5
    rw [count_add, hW.count _ (by decide), if_neg (by decide)]
    simp only
    omega
  · rintro ⟨k', data, hmem⟩
    rcases Multiset.mem_add.mp hmem with hmem | hmem
    · exact absurd hmem (hW.search k' data)
    · exact hseq ⟨k', data, Multiset.mem_cons_of_mem hmem⟩
  · intro w hw
    rcases Multiset.mem_add.mp hw with hw | hw
    · exact hW.carries w hw
    · exact hold w (Multiset.mem_cons_of_mem hw)

/-! ### The simulation -/

theorem Script.todo {todo : List (Effect π)} {r : Role} (h : Script ctx d b m asked todo k r) :
    Bears ctx d b m asked ((todo.map (Prod.mk k) : List (Handler π × Effect π)) +
      workOf ([] : List (Job π))) r := by
  simpa using h.bears

theorem Bears.spawned {jobs : List (Job π)} {r : Role} (h : Bears ctx d b m asked (workOf jobs) r) :
    Bears ctx d b m asked ((([] : List (Effect π)).map (Prod.mk k) :
      List (Handler π × Effect π)) + workOf jobs) r := by
  simpa using h

/-- The requests of the next batch are answers outstanding. -/
theorem requests_work (h : Polls ctx d b m) {data : MessageData π}
    (hfits : Fits ctx b m asked data) (hasked : asked ≤ (shardNodes ctx).length)
    (s : Operation π) :
    (∀ r, r ≠ .idle →
      count r (workOf ((requests ctx s data (currentBatchNodes data)).map (start ctx))) =
      if r = .answer then min (asked + b) (shardNodes ctx).length - asked else 0) ∧
    (∀ k data', (k, Effect.findShard data') ∉
      workOf ((requests ctx s data (currentBatchNodes data)).map (start ctx))) ∧
    (∀ w ∈ workOf ((requests ctx s data (currentBatchNodes data)).map (start ctx)),
      Carries ctx d b m (min (asked + b) (shardNodes ctx).length) w) := by
  have hnext : Fits ctx b m (min (asked + b) (shardNodes ctx).length)
      (requestData ctx.operationName data) := by
    refine ⟨?_, hfits.numberOfFoundNodes, hfits.batchSize, hfits.minAckResponses⟩
    simp only [requestData, hfits.batchSize, hfits.leftoverNodes, List.length_drop, List.drop_drop]
    split
    · next hmore => rw [min_eq_left (by omega)]
    · next hlast => rw [min_eq_right (by omega), List.drop_length]
  have hone : ∀ command ∈ requests ctx s data (currentBatchNodes data), Bears ctx d b m
      (min (asked + b) (shardNodes ctx).length) (workOf [start ctx command]) .answer := by
    intro command hcommand
    obtain ⟨i, hi, rfl⟩ := List.mem_mapIdx.mp hcommand
    exact start_request h hnext _ _
  have hlength : (requests ctx s data (currentBatchNodes data)).length =
      min (asked + b) (shardNodes ctx).length - asked := by
    simp only [requests, currentBatchNodes, List.length_mapIdx, List.length_take,
      hfits.leftoverNodes, List.length_drop, hfits.batchSize]
    omega
  rw [← hlength]
  clear hlength
  generalize requests ctx s data (currentBatchNodes data) = commands at hone ⊢
  induction commands with
  | nil => simp
  | cons command commands ih =>
    obtain ⟨hcount, hsearch, hcarries⟩ := ih fun c hc => hone c (List.mem_cons_of_mem _ hc)
    have hhead := hone command List.mem_cons_self
    have hsplit : workOf ((command :: commands).map (start ctx)) =
        workOf [start ctx command] + workOf (commands.map (start ctx)) := by simp
    rw [hsplit]
    refine ⟨?_, ?_, ?_⟩
    · intro r hr
      rw [count_add, hhead.count r hr, hcount r hr, List.length_cons]
      split <;> omega
    · intro k data' hmem
      rcases Multiset.mem_add.mp hmem with hmem | hmem
      · exact hhead.search k data' hmem
      · exact hsearch k data' hmem
    · intro w hw
      rcases Multiset.mem_add.mp hw with hw | hw
      · exact hhead.carries w hw
      · exact hcarries w hw

/-- The sequence a found shard goes on with leads up to the poll. -/
theorem continue_script (h : Polls ctx d b m) (hm : m ≤ numberOfFoundNodes ctx) :
    Script ctx d b m asked [.finish (continueSequence (foundData ctx d)
      (getOperationCommandSequence ctx.operationName d))] k .stage := by
  obtain ⟨name, sequence, hseq⟩ : ∃ name sequence,
      getOperationCommandSequence ctx.operationName d = name :: sequence := by
    rcases h.operation with hop | hop
    · cases hV0 : d.isOperationV0 <;> simp [getOperationCommandSequence, hop, hV0]
    · simp [getOperationCommandSequence, hop]
  rw [hseq]
  exact Script.nil.cons (by simp [role, continueSequence]) (by simp)
    (Or.inr ⟨hm, name, sequence, rfl, by rw [hseq]⟩)

/-- What a remote node's reply leads to is again the answer outstanding. -/
theorem reply_script (h : Polls ctx d b m) {data : MessageData π} (hfits : Fits ctx b m asked data)
    (hk : k.command.number? ≠ none) (hmode : k.mode = .execute) {number : ℕ} {node : π}
    (hcommand : k.command = .request number node data) {reply : Reply}
    (hreply : ∀ message, reply ≠ .error message) :
    Script ctx d b m asked (handleReply ctx.operationName data reply) k .answer := by
  have hfailed : Script ctx d b m asked [.processResponse data .failed, .finish []] k .answer :=
    response_script hfits hk .failed Script.finish
  have hcompleted : Script ctx d b m asked [.processResponse data .completed, .finish []] k
      .answer := response_script hfits hk .completed Script.finish
  cases reply with
  | error message => exact absurd rfl (hreply message)
  | busy =>
    exact Script.nil.cons (e := .retry) (by simp [role]) (by simp)
      ⟨hmode, number, node, data, hcommand, hfits⟩
  | unknown => exact hfailed
  | nack => rcases h.operation with hop | hop <;> simpa [handleReply, handleNack, hop] using hfailed
  | ack accepted =>
    rcases h.operation with hop | hop
    · have hsigned := hcompleted.cons_idle (e := .addSignatureToStorage .network) rfl trivial
      simpa [handleReply, handleAck, hop] using hsigned
    · cases accepted
      · simpa [handleReply, handleAck, handleNack, hop] using hfailed
      · simpa [handleReply, handleAck, hop] using hcompleted

/-- A request put back in the queue, or recovered, is again the answer outstanding. -/
theorem handleCommandError_request (h : Polls ctx d b m) {data : MessageData π}
    (hfits : Fits ctx b m asked data) {number : ℕ} {node : π}
    (hcommand : k.command = .request number node data) (hmode : k.mode = .execute)
    (message : String) :
    Bears ctx d b m asked (workOf (handleCommandError ctx k message false)) .answer := by
  have hk : k.command.number? ≠ none := by simp [hcommand, Command.number?]
  simp only [handleCommandError, hmode, Bool.false_eq_true, if_false]
  split
  · rw [requeue, hcommand]
    exact Script.job (request_script (k := ⟨.request number node data, _, .execute⟩) h hfits rfl rfl)
  · rw [hcommand]
    exact Script.job (response_script hfits (by simp [Command.number?]) .failed Script.nil)

omit [DecidableEq π] in
/-- Every response record is a success or a failure. -/
theorem Operation.responses_length (s : Operation π) :
    s.completedNumber + s.failedNumber = s.responses.length := by
  rw [completedNumber, failedNumber, countStatus, countStatus,
    List.length_eq_countP_add_countP (fun r => decide (r.status = .completed))]
  congr 2
  funext r
  cases r.status <;> rfl

/-- A configuration follows the poll from `q`: the poll stays or takes a step. -/
def Follows (ctx : Context π) (d : CommandData π) (b m : ℕ) (guard : State → Bool → Prop)
    (q : State) (s' : Operation π) (W : Multiset (Handler π × Effect π)) : Prop :=
  ∃ q', (q' = q ∨ Step (poll ctx d b m) guard q q') ∧ Rel ctx d b m q' s' W

variable {guard : State → Bool → Prop}

/-- Work replaced by work of the same role: the poll stays. -/
theorem Rel.stay (hR : Rel ctx d b m q s ((k, e) ::ₘ rest))
    (hW : Bears ctx d b m q.asked W (role (k, e))) (hs : Alike s s')
    (hseq : s'.sequence = s.sequence ∨ role (k, e) = .stage) :
    Follows ctx d b m guard q s' (W + rest) :=
  ⟨q, Or.inl rfl, hR.replace hW hs hseq⟩

/-- The find-shard command: its sequence goes on, or too few nodes are found and it ends. -/
theorem Rel.findShard (h : Polls ctx d b m)
    (hR : Rel ctx d b m q s ((k, .findShard d) ::ₘ rest)) (hq : Orderly (poll ctx d b m) q)
    (sequence : List Stage) :
    Follows ctx d b m guard q { s with sequence := sequence }
      ((((OtNode.findShard ctx d m (getOperationCommandSequence ctx.operationName d)).map
        (Prod.mk k) : List (Handler π × Effect π)) + workOf ([] : List (Job π))) + rest) := by
  have hstage : role (k, Effect.findShard d) = .stage := rfl
  obtain ⟨rfl, -⟩ := hR.fresh hq hstage
  rw [OtNode.findShard]
  split
  · next hm =>
    -- rejected: nothing is asked
    have hnone : localResponses ctx d m = 0 := by simp [localResponses, Nat.not_le.mpr hm]
    have hfirst : (poll ctx d b m).first = .wait := by simp [poll, hm]
    refine ⟨_, Or.inr (.start rfl), hR.begin hq hstage ?_ rfl rfl rfl ?_ ?_⟩
    · rw [hfirst]
      exact (Script.finish.cons_idle (e := .updateOperationIdStatus .failed _) rfl trivial).todo
    · simpa [hnone, State.initial] using hR.responses
    · simpa [localSuccesses, hnone, State.initial, Operation.completedNumber,
        Operation.countStatus] using hR.completed
  · exact hR.stay ((continue_script h (by omega)).cons_idle
      (e := .updateOperationIdStatus _ none) rfl trivial).todo ⟨rfl, rfl, rfl, rfl⟩ (Or.inr rfl)

/-- The network command: the poll starts with its first batch due. -/
theorem Rel.networkProtocol (hR : Rel ctx d b m q s ((k, .networkProtocol (foundData ctx d)) ::ₘ rest))
    (hq : Orderly (poll ctx d b m) q) :
    Follows ctx d b m guard q s
      ((([.add (.scheduleMessages ((foundData ctx d).toMessage b m)), .finish []].map (Prod.mk k) :
        List (Handler π × Effect π)) + workOf ([] : List (Job π))) + rest) := by
  have hstage : role (k, Effect.networkProtocol (foundData ctx d)) = .stage := rfl
  obtain ⟨hlocal, hm, -⟩ : Carries ctx d b m q.asked (k, .networkProtocol (foundData ctx d)) :=
    hR.carries _ (Multiset.mem_cons_self _ _)
  obtain ⟨rfl, -⟩ := hR.fresh hq hstage
  have hfirst : (poll ctx d b m).first = .dispatch := by simp [poll, Nat.not_lt.mpr hm, hlocal]
  have hnone : localResponses ctx d m = 0 := by simp [localResponses, hlocal]
  refine ⟨_, Or.inr (.start rfl), hR.begin hq hstage ?_ rfl rfl rfl ?_ ?_⟩
  · rw [hfirst]
    exact (Script.finish.cons (e := .add (.scheduleMessages ((foundData ctx d).toMessage b m)))
      (by simp [role]) (by simp) ⟨_, rfl, foundData_fits ctx d b m⟩).todo
  · simpa [hnone, State.initial] using hR.responses
  · simpa [localSuccesses, hnone, State.initial] using hR.completed

/-- The schedule command adds the requests of a batch: the poll sends it. -/
theorem Rel.addRequests (h : Polls ctx d b m) {data : MessageData π}
    (hR : Rel ctx d b m q s ((k, .addRequests data) ::ₘ rest)) (hq : Orderly (poll ctx d b m) q) :
    Follows ctx d b m guard q { s with batches := s.batches ++ [currentBatchNodes data] }
      (((([] : List (Effect π)).map (Prod.mk k) : List (Handler π × Effect π)) +
        workOf ((requests ctx s data (currentBatchNodes data)).map (start ctx))) + rest) := by
  have hfits : Fits ctx b m q.asked data := hR.carries _ (Multiset.mem_cons_self _ _)
  have hdue : 0 < q.due := hR.due rfl
  obtain ⟨hcount, hsearch, hcarries⟩ := requests_work h hfits hq.bounded s
  rw [List.map_nil, Multiset.coe_nil, Multiset.zero_add]
  refine ⟨_, Or.inr (.send hdue), hR.send hq rfl rfl hcount hsearch hcarries rfl rfl rfl rfl ?_⟩
  have hold := hR.scheduled
  simp only [Operation.scheduled, List.flatten_append, List.flatten_singleton] at hold ⊢
  rw [hold, currentBatchNodes, hfits.leftoverNodes, hfits.batchSize, ← List.take_add]
  rcases Nat.le_total (q.asked + b) (shardNodes ctx).length with hle | hle
  · rw [min_eq_left hle]
  · rw [min_eq_right hle, List.take_length, List.take_of_length_le hle]

/-- A get request looks at the operation first, and is left out once that has its verdict. -/
theorem Rel.shouldSendMessage {todo : List (Effect π)}
    (hR : Rel ctx d b m q s ((k, .shouldSendMessage) ::ₘ rest))
    (htodo : todo = if s.operationStatus = .inProgress then [.access, .sendMessage]
      else [.finish []]) :
    Follows ctx d b m guard q s
      (((todo.map (Prod.mk k) : List (Handler π × Effect π)) + workOf ([] : List (Job π))) +
        rest) := by
  obtain ⟨hop, hmode, number, node, data, hcommand, hfits⟩ : Carries ctx d b m q.asked
    (k, .shouldSendMessage) := hR.carries _ (Multiset.mem_cons_self _ _)
  subst htodo
  split
  · have hsend : Script ctx d b m q.asked [.sendMessage] k .answer :=
      Script.nil.cons (by simp [role]) (by simp) ⟨hmode, number, node, data, hcommand, hfits⟩
    exact hR.stay (hsend.cons_idle (e := .access) rfl trivial).todo ⟨rfl, rfl, rfl, rfl⟩ (Or.inl rfl)
  · next hstatus =>
    have hbusy : 0 < q.inFlight := hR.busy rfl
    have hclosed : 0 < q.accepted + q.rejected := by
      have hstat := hR.status
      have haccepts := hR.accepts
      have hrejects := hR.rejects
      cases hlast : s.verdicts.getLast? with
      | none => rw [hlast] at hstat; exact absurd hstat hstatus
      | some verdict =>
        rw [hlast] at hstat
        have hpos := List.count_pos_iff.mpr (List.mem_of_getLast? hlast)
        cases verdict with
        | inProgress => exact absurd hstat hstatus
        | completed => omega
        | failed => omega
    refine ⟨_, Or.inr (.skip hbusy (by simp [poll, hop]) hclosed), ?_⟩
    exact hR.skip rfl Script.finish.todo

/-- A message sent: the answer is still outstanding. -/
theorem Rel.sendMessage (h : Polls ctx d b m) {reply : Reply} {todo : List (Effect π)}
    {spawned : List (Job π)} (hR : Rel ctx d b m q s ((k, .sendMessage) ::ₘ rest))
    (hp : proceed ctx k .sendMessage (.reply reply) s = some (.next s' todo spawned)) :
    Follows ctx d b m guard q s'
      (((todo.map (Prod.mk k) : List (Handler π × Effect π)) + workOf spawned) + rest) := by
  obtain ⟨hmode, number, node, data, hcommand, hfits⟩ : k.mode = .execute ∧ ∃ number node data,
    k.command = .request number node data ∧ Fits ctx b m q.asked data :=
    hR.carries _ (Multiset.mem_cons_self _ _)
  have hk : k.command.number? ≠ none := by simp [hcommand, Command.number?]
  by_cases herror : ∃ message, reply = .error message
  · obtain ⟨message, rfl⟩ := herror
    simp only [proceed, Option.some.injEq, Outcome.next.injEq, onThrow_request hcommand] at hp
    obtain ⟨rfl, rfl, rfl⟩ := hp
    exact hR.stay (handleCommandError_request h hfits hcommand hmode message).spawned
      ⟨rfl, rfl, rfl, rfl⟩ (Or.inl rfl)
  · have hreply : ∀ message, reply ≠ .error message := fun message hm => herror ⟨message, hm⟩
    have hscript := reply_script h hfits hk hmode hcommand hreply
    have hnext : s' = s ∧ todo = handleReply ctx.operationName data reply ∧ spawned = [] := by
      cases reply with
      | error message => exact absurd rfl (hreply message)
      | _ => simpa [proceed, hcommand, eq_comm] using hp
    obtain ⟨rfl, rfl, rfl⟩ := hnext
    exact hR.stay hscript.todo ⟨rfl, rfl, rfl, rfl⟩ (Or.inl rfl)

/-- A busy reply: the request is put back, or given up with a failed response. -/
theorem Rel.retry (h : Polls ctx d b m) {todo : List (Effect π)} {spawned : List (Job π)}
    (hR : Rel ctx d b m q s ((k, .retry) ::ₘ rest))
    (hp : proceed ctx k .retry .ok s = some (.next s' todo spawned)) :
    Follows ctx d b m guard q s'
      (((todo.map (Prod.mk k) : List (Handler π × Effect π)) + workOf spawned) + rest) := by
  obtain ⟨hmode, number, node, data, hcommand, hfits⟩ : k.mode = .execute ∧ ∃ number node data,
    k.command = .request number node data ∧ Fits ctx b m q.asked data :=
    hR.carries _ (Multiset.mem_cons_self _ _)
  have hk : k.command.number? ≠ none := by simp [hcommand, Command.number?]
  simp only [proceed, hcommand] at hp
  split at hp <;> simp only [Option.some.injEq, Outcome.next.injEq] at hp <;>
    obtain ⟨rfl, rfl, rfl⟩ := hp
  · have hjob : Bears ctx d b m q.asked (workOf [requeue ctx k]) .answer := by
      rw [requeue, hcommand]
      exact Script.job
        (request_script (k := ⟨.request number node data, _, .execute⟩) h hfits rfl rfl)
    exact hR.stay hjob.spawned ⟨rfl, rfl, rfl, rfl⟩ (Or.inl rfl)
  · exact hR.stay (response_script hfits hk .failed Script.finish).todo ⟨rfl, rfl, rfl, rfl⟩
      (Or.inl rfl)

/-- What a publish or get service leads to carries out the poll's decision. -/
theorem processResponse_decides (h : Polls ctx d b m) {data : MessageData π}
    (hfits : Fits ctx b m asked data) (status : ResponseStatus)
    (completedNumber failedNumber : ℕ) :
    Script ctx d b m asked
      (processResponse ctx.operationName data status completedNumber failedNumber) k
      (decisionRole (decision ctx.operationName b m (numberOfFoundNodes ctx)
        ((shardNodes ctx).length - asked) (decide (status = .completed))
        (completedNumber + failedNumber) completedNumber)) := by
  rcases h.operation with hop | hop <;> simp only [hop, processResponse, decision]
  · exact PublishService.decides hfits completedNumber failedNumber
  · exact GetService.decides hfits status completedNumber failedNumber

/-- The local store's response: the poll starts with what the service decides on it. -/
theorem Rel.localResponse (h : Polls ctx d b m) {data : MessageData π} {status : ResponseStatus}
    (hR : Rel ctx d b m q s ((k, .processResponse data status) ::ₘ rest))
    (hq : Orderly (poll ctx d b m) q) (hk : k.command.number? = none)
    (hs : s' = s.createResponseRecord k.command.number? status) :
    Follows ctx d b m guard q s'
      (((((processResponse ctx.operationName data status s'.completedNumber
        s'.failedNumber).map (Prod.mk k) : List (Handler π × Effect π)) +
        workOf ([] : List (Job π)))) + rest) := by
  have hstage : role (k, Effect.processResponse data status) = .stage := by simp [role, hk]
  obtain ⟨hfits, hlocal⟩ : Carries ctx d b m q.asked (k, .processResponse data status) :=
    hR.carries _ (Multiset.mem_cons_self _ _)
  obtain ⟨hstores, hm, hstatus⟩ := hlocal hk
  obtain ⟨rfl, -⟩ := hR.fresh hq hstage
  have hone : localResponses ctx d m = 1 := by simp [localResponses, hstores, hm]
  have hempty : s.responses = [] := by
    simpa [State.initial, List.length_eq_zero_iff] using hR.responses
  have hresponses : s'.responses.length = localResponses ctx d m := by
    simp [hs, Operation.createResponseRecord, hempty, hone]
  have hcompleted : s'.completedNumber = localSuccesses ctx d m := by
    rw [hs, localSuccesses, hone, Operation.completedNumber, Operation.countStatus,
      Operation.createResponseRecord, hempty]
    subst hstatus
    cases nodePartOfShard ctx <;> simp
  have hfirst : (poll ctx d b m).first = decision ctx.operationName b m (numberOfFoundNodes ctx)
      ((shardNodes ctx).length - 0) (decide (status = .completed))
      (s'.completedNumber + s'.failedNumber) s'.completedNumber := by
    rw [Operation.responses_length, hresponses, hone, hcompleted]
    subst hstatus
    cases hpart : nodePartOfShard ctx <;> simp [poll, Nat.not_lt.mpr hm, hstores, hpart]
  refine ⟨_, Or.inr (.start rfl), hR.begin hq hstage ?_ (by rw [hs]; rfl) (by rw [hs]; rfl)
    (by rw [hs]; rfl) hresponses hcompleted⟩
  rw [hfirst]
  exact (processResponse_decides h hfits status s'.completedNumber s'.failedNumber).todo

/-- A remote node's answer: the poll counts it and follows the service's decision. -/
theorem Rel.remoteResponse (h : Polls ctx d b m) {data : MessageData π} {status : ResponseStatus}
    (hR : Rel ctx d b m q s ((k, .processResponse data status) ::ₘ rest))
    (hq : Orderly (poll ctx d b m) q) (hk : k.command.number? ≠ none)
    (hguard : guard q (decide (status = .completed)))
    (hs : s' = s.createResponseRecord k.command.number? status) :
    Follows ctx d b m guard q s'
      (((((processResponse ctx.operationName data status s'.completedNumber
        s'.failedNumber).map (Prod.mk k) : List (Handler π × Effect π)) +
        workOf ([] : List (Job π)))) + rest) := by
  have hanswer : role (k, Effect.processResponse data status) = .answer := by simp [role, hk]
  obtain ⟨hfits, -⟩ : Carries ctx d b m q.asked (k, .processResponse data status) :=
    hR.carries _ (Multiset.mem_cons_self _ _)
  have hbusy := hR.busy hanswer
  have hlive : q.started = true := by
    by_contra hstart
    rw [hq.fresh (by simpa using hstart)] at hbusy
    exact absurd hbusy (by decide)
  have htotal : s'.completedNumber + s'.failedNumber = q.answered + 1 + localResponses ctx d m := by
    rw [Operation.responses_length, hs]
    simp [Operation.createResponseRecord, hR.responses, hlive]
    omega
  have hcompleted : s'.completedNumber = q.succeeded + (decide (status = .completed)).toNat := by
    rw [hs, ← hR.completed]
    cases status <;>
      simp [Operation.completedNumber, Operation.countStatus, Operation.createResponseRecord]
  have hdecides := processResponse_decides (k := k) h hfits status s'.completedNumber
    s'.failedNumber
  rw [htotal, hcompleted] at hdecides
  rw [hcompleted] at htotal ⊢
  subst hs
  exact ⟨_, Or.inr (.answer _ hbusy hguard), hR.answer hq hanswer hdecides.todo⟩

/-- SIMULATION: a step of the commands under a sound choice is a step of the poll, or leaves the
    poll where it was. -/
theorem Rel.step (h : Polls ctx d b m) {i : Choice} {todo : List (Effect π)}
    {spawned : List (Job π)} (hR : Rel ctx d b m q s ((k, e) ::ₘ rest))
    (hq : Orderly (poll ctx d b m) q) (hi : i.isSound = true)
    (hguard : ∀ data status, e = .processResponse data status → k.command.number? ≠ none →
      guard q (decide (status = .completed)))
    (hp : proceed ctx k e i s = some (.next s' todo spawned)) :
    Follows ctx d b m guard q s' ((todo.map (Prod.mk k) : List (Handler π × Effect π)) +
      (rest + workOf spawned)) := by
  have hcarried : Carries ctx d b m q.asked (k, e) := hR.carries _ (Multiset.mem_cons_self _ _)
  have hshuffle : ((todo.map (Prod.mk k) : List (Handler π × Effect π)) :
      Multiset (Handler π × Effect π)) + (rest + workOf spawned) =
      (todo.map (Prod.mk k) : List (Handler π × Effect π)) + workOf spawned + rest := by
    abel
  rw [hshuffle]
  have hidle : Bears ctx d b m q.asked ((([] : List (Effect π)).map (Prod.mk k) :
      List (Handler π × Effect π)) + workOf ([] : List (Job π))) .idle := Script.nil.todo
  cases e with
  | access | updateMinAcksReached | updateOperationIdStatus =>
    cases i <;> simp [proceed, Choice.isSound] at hp hi
    obtain ⟨rfl, rfl, rfl⟩ := hp
    exact hR.stay hidle ⟨rfl, rfl, rfl, rfl⟩ (Or.inl rfl)
  | addSignatureToStorage folder =>
    cases folder <;> cases i <;> simp [proceed, Choice.isSound] at hp hi <;>
      obtain ⟨rfl, rfl, rfl⟩ := hp <;>
      exact hR.stay hidle ⟨rfl, rfl, rfl, rfl⟩ (Or.inl rfl)
  | updateOperationStatus status =>
    cases i <;> simp [proceed, Choice.isSound] at hp hi
    obtain ⟨rfl, rfl, rfl⟩ := hp
    exact ⟨q, Or.inl rfl, by simpa using hR.write⟩
  | findShard data =>
    cases i <;> simp [proceed, Choice.isSound] at hp hi
    obtain rfl : data = d := hcarried
    have hsequence : s.sequence = [] := hR.sequence ⟨k, data, Multiset.mem_cons_self _ _⟩
    rw [h.minimum, hsequence, List.nil_append] at hp
    simp only [Option.some.injEq, Outcome.next.injEq] at hp
    obtain ⟨rfl, rfl, rfl⟩ := hp
    exact hR.findShard h hq _
  | localGet data sequence =>
    cases i <;> simp [proceed, Choice.isSound] at hp hi
    obtain ⟨hop, hm, rfl, rfl⟩ := hcarried
    obtain ⟨rfl, rfl, rfl⟩ := hp
    have hlast : Script ctx d b m q.asked
        [.finish (continueSequence (foundData ctx d) [.networkProtocol])] k .stage :=
      Script.nil.cons (by simp [role, continueSequence]) (by simp)
        (Or.inr ⟨hm, _, _, rfl, by simp [getOperationCommandSequence, hop]⟩)
    exact hR.stay (hlast.cons_idle (e := .updateOperationIdStatus .getLocalEnd none) rfl
      trivial).todo ⟨rfl, rfl, rfl, rfl⟩ (Or.inl rfl)
  | networkProtocol data =>
    cases i <;> simp [proceed, Choice.isSound] at hp hi
    obtain ⟨-, -, rfl⟩ := hcarried
    have hbatch : getBatchSize ctx.operationName (foundData ctx d).batchSize = some b := h.batchSize
    have hmin : getMinAckResponses ctx.operationName
        (foundData ctx d).minimumNumberOfNodeReplications = some m := h.minimum
    rw [hbatch, hmin] at hp
    simp only [Option.some.injEq, Outcome.next.injEq] at hp
    obtain ⟨rfl, rfl, rfl⟩ := hp
    exact hR.networkProtocol hq
  | add command =>
    cases i <;> simp [proceed, Choice.isSound] at hp hi
    obtain ⟨rfl, rfl, rfl⟩ := hp
    obtain ⟨data, rfl, hfits⟩ := hcarried
    exact hR.stay (start_scheduleMessages hfits).spawned ⟨rfl, rfl, rfl, rfl⟩ (Or.inl rfl)
  | addRequests data =>
    cases i <;> simp [proceed, Choice.isSound] at hp hi
    obtain ⟨rfl, rfl, rfl⟩ := hp
    exact hR.addRequests h hq
  | shouldSendMessage =>
    cases i <;> simp [proceed, Choice.isSound] at hp hi
    split at hp <;> simp only [Option.some.injEq, Outcome.next.injEq] at hp <;>
      obtain ⟨rfl, rfl, rfl⟩ := hp
    · next hstatus => exact hR.shouldSendMessage (by rw [if_pos hstatus])
    · next hstatus => exact hR.shouldSendMessage (by rw [if_neg hstatus])
  | sendMessage =>
    cases i with
    | reply reply => exact hR.sendMessage h hp
    | throws => cases hi
    | _ => simp [proceed] at hp
  | retry =>
    cases i with
    | ok => exact hR.retry h hp
    | throws => cases hi
    | _ => simp [proceed] at hp
  | processResponse data status =>
    cases i <;> simp [proceed, recordResponse, Choice.isSound] at hp hi
    obtain ⟨rfl, rfl, rfl⟩ := hp
    by_cases hk : k.command.number? = none
    · exact hR.localResponse h hq hk rfl
    · exact hR.remoteResponse h hq hk (hguard data status rfl hk) rfl
  | markOperationAsFailed error =>
    cases i <;> simp [proceed, Choice.isSound] at hp hi
    obtain ⟨rfl, rfl, rfl⟩ := hp
    exact hR.stay (Script.job (Script.failed error)).spawned ⟨rfl, rfl, rfl, rfl⟩ (Or.inl rfl)
  | finish children =>
    cases i <;> simp [proceed, Choice.isSound] at hp hi
    obtain ⟨rfl, rfl, rfl⟩ := hp
    rcases hcarried with rfl | ⟨hm, name, sequence, rfl, hseq⟩
    · exact hR.stay hidle ⟨rfl, rfl, rfl, rfl⟩ (Or.inl rfl)
    · have hasked : q.asked = 0 := by
        rw [(hR.fresh hq rfl).1]
        rfl
      have hjob : Bears ctx d b m q.asked
          (workOf [start ctx (.stage name (foundData ctx d) sequence)]) .stage := by
        rw [hasked]
        exact start_stage h hm hseq
      exact hR.stay hjob.spawned ⟨rfl, rfl, rfl, rfl⟩ (Or.inl rfl)

/-- No step under a sound choice raises. -/
theorem Rel.no_raise (h : Polls ctx d b m) {i : Choice} {spawned : List (Job π)}
    (hR : Rel ctx d b m q s ((k, e) ::ₘ rest)) (hi : i.isSound = true) :
    proceed ctx k e i s ≠ some (.raise s' spawned) := by
  have hcarried : Carries ctx d b m q.asked (k, e) := hR.carries _ (Multiset.mem_cons_self _ _)
  intro hp
  cases e with
  | findShard data =>
    cases i <;> simp [proceed, Choice.isSound] at hp hi
    obtain rfl : data = d := hcarried
    rw [h.minimum] at hp
    cases hp
  | networkProtocol data =>
    cases i <;> simp [proceed, Choice.isSound] at hp hi
    obtain ⟨-, -, rfl⟩ := hcarried
    have hbatch : getBatchSize ctx.operationName (foundData ctx d).batchSize = some b := h.batchSize
    have hmin : getMinAckResponses ctx.operationName
        (foundData ctx d).minimumNumberOfNodeReplications = some m := h.minimum
    rw [hbatch, hmin] at hp
    cases hp
  | addSignatureToStorage folder =>
    cases folder <;> cases i <;> simp [proceed, Choice.isSound] at hp hi
  | sendMessage =>
    obtain ⟨-, number, node, data, hcommand, -⟩ : k.mode = .execute ∧ ∃ number node data,
      k.command = .request number node data ∧ Fits ctx b m q.asked data := hcarried
    cases i with
    | reply reply => cases reply <;> simp [proceed, hcommand] at hp
    | throws => cases hi
    | _ => simp [proceed] at hp
  | retry =>
    obtain ⟨-, number, node, data, hcommand, -⟩ : k.mode = .execute ∧ ∃ number node data,
      k.command = .request number node data ∧ Fits ctx b m q.asked data := hcarried
    cases i <;> simp [proceed, hcommand, Choice.isSound] at hp hi
    split at hp <;> cases hp
  | shouldSendMessage =>
    cases i <;> simp [proceed, Choice.isSound] at hp hi
    split at hp <;> cases hp
  | _ => cases i <;> simp [proceed, recordResponse, Choice.isSound] at hp hi

/-! ### Runs follow the poll -/

/-- An operation just launched is a poll not yet started. -/
theorem launch_rel (h : Polls ctx d b m) :
    Rel ctx d b m State.initial (launch ctx d).shared (launch ctx d).work := by
  have hsequence : initialSequence ctx.operationName = [] := by
    rcases h.operation with hop | hop <;> simp [hop, initialSequence]
  have hwork : (launch ctx d).work =
      (⟨.stage .findShard d [], initialRetries ctx (.stage .findShard d []), .execute⟩,
        .updateOperationIdStatus (findShardEvents ctx.operationName).1 none) ::ₘ
      (⟨.stage .findShard d [], initialRetries ctx (.stage .findShard d []), .execute⟩,
        .findShard d) ::ₘ 0 := by
    simp [launch, begin, Config.work, start, execute, hsequence, ← Multiset.cons_coe]
  rw [hwork]
  constructor <;>
    simp [launch, begin, role, Operation.initial, State.initial, Operation.scheduled,
      Operation.completedNumber, Operation.countStatus, Carries, hsequence]

/-- RUN: in a run of sound choices, an invariant of the poll holds of a state the configuration is
    in. `ok` may restrict the steps further, and what it guarantees of them is the guard. -/
theorem Rel.run (h : Polls ctx d b m) {I : State → Prop}
    {ok : Config (Operation π) (Handler π) (Effect π) → ℕ → Choice → Prop}
    (hinitial : I State.initial) (horderly : ∀ q, I q → Orderly (poll ctx d b m) q)
    (hstep : ∀ q q', I q → Step (poll ctx d b m) guard q q' → I q')
    (hsound : ∀ c n i, ok c n i → i.isSound = true)
    (hguard : ∀ c n i q, ok c n i → I q → Rel ctx d b m q c.shared c.work →
      ∀ k data status es, c.pool[n]? = some ⟨k, .processResponse data status :: es⟩ →
        k.command.number? ≠ none → guard q (decide (status = .completed)))
    {c : Config (Operation π) (Handler π) (Effect π)}
    (hrun : (machine ctx).Steps ok (launch ctx d) c) :
    ∃ q, I q ∧ Rel ctx d b m q c.shared c.work := by
  refine hrun.invariant (I := fun c => ∃ q, I q ∧ Rel ctx d b m q c.shared c.work) ?_
    ⟨_, hinitial, launch_rel h⟩
  rintro c n i c' ⟨q, hq, hR⟩ hok hfire
  have hsnd := hsound c n i hok
  have hproceed : ∀ k e s, (machine ctx).perform k e i s = proceed ctx k e i s := fun k e s =>
    perform_eq_proceed (missing_of_ne_update (by rcases h.operation with hop | hop <;> simp [hop]) e)
      k i s
  refine (machine ctx).work_step (i := i)
    (J := fun s W => ∃ q, I q ∧ Rel ctx d b m q s W)
    (G := fun s k e _ W => ∀ q, I q → Rel ctx d b m q s W → ∀ data status,
      e = .processResponse data status → k.command.number? ≠ none →
      guard q (decide (status = .completed)))
    ?_ ?_ ⟨q, hq, hR⟩ ?_ hfire
  · rintro s k e es s' todo spawned rest ⟨q, hq, hR⟩ hG hp
    rw [hproceed] at hp
    obtain ⟨q', hq', hR'⟩ := hR.step h (horderly q hq) hsnd (hG q hq hR) hp
    rcases hq' with rfl | hq'
    · exact ⟨q', hq, hR'⟩
    · exact ⟨q', hstep q q' hq hq', hR'⟩
  · rintro s k e es s' spawned rest ⟨q, -, hR⟩ - hp
    rw [hproceed] at hp
    exact absurd hp (hR.no_raise h hsnd)
  · rintro k e es hget q hq hR data status rfl hk
    exact hguard c n i q hok hq hR k data status es hget hk

/-- RUN (unrestricted): an invariant of the poll holds throughout every run of sound choices. -/
theorem SoundRun.follows (h : Polls ctx d b m) {I : State → Prop} (hinitial : I State.initial)
    (horderly : ∀ q, I q → Orderly (poll ctx d b m) q)
    (hstep : ∀ q q', I q → Step (poll ctx d b m) (fun _ _ => True) q q' → I q')
    {c : Config (Operation π) (Handler π) (Effect π)} (hrun : SoundRun ctx d c) :
    ∃ q, I q ∧ Rel ctx d b m q c.shared c.work :=
  Rel.run h hinitial horderly hstep (fun _ _ _ hok => hok)
    (fun _ _ _ _ _ _ _ _ _ _ _ _ _ => trivial) hrun

end OtNode
