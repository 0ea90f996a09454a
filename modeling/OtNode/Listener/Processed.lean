import Mathlib.Data.List.GetD
import OtNode.Listener.Dependent

/-! The event table over runs of the listener: which rows are marked as processed.

    Errors of handlers are caught one by one, and after the transaction every row of the blockchain
    is marked. -/

namespace OtNode

open BlockchainEvent

/-- A row of the event table. -/
structure EventRow where
  event : BlockchainEvent
  processed : Bool

/-- A call of a handler: its effect on the loop, the rows it removes and inserts, and whether it
    throws. One that does not throw has inserted the events it discovered. -/
structure HandlerCall where
  effect : HandlerEffect := {}
  removes : BlockchainEvent → Bool := fun _ => false
  inserts : List BlockchainEvent := []
  throws : Bool := false
  inserted : throws = false → inserts = effect.discovered := by simp

/-- How a run ends: with an error before the events are processed, with a commit that fails, with a
    failing `markAllBlockchainEventsAsProcessed`, or with the rows marked. -/
inductive RunEnd where
  | aborted
  | rolledBack
  | unmarked
  | marked
  deriving DecidableEq

/-- What a run of the listener meets: the events it fetches, the calls of the handlers, the rows of
    the blockchain that others insert before it marks the rows, and its end. -/
structure ProcessingRun where
  fetched : List BlockchainEvent
  calls : List HandlerCall
  concurrent : List BlockchainEvent
  ending : RunEnd

/-- The event table and the field that a run leaves, with the events whose handler completed without
    an error, and those skipped for their contract. -/
structure ListenerState where
  rows : List EventRow := []
  newDependentEvents : List BlockchainEvent := []
  completed : List BlockchainEvent := []
  skipped : List BlockchainEvent := []

/-- `insertBlockchainEvents`. -/
def insertBlockchainEvents (rows : List EventRow) (es : List BlockchainEvent) : List EventRow :=
  rows ++ es.map fun e => ⟨e, false⟩

/-- `getAllUnprocessedBlockchainEvents`. -/
def getAllUnprocessedBlockchainEvents (rows : List EventRow) : List BlockchainEvent :=
  (rows.filter fun row => !row.processed).map EventRow.event

/-- `markAllBlockchainEventsAsProcessed`. -/
def markAllBlockchainEventsAsProcessed (rows : List EventRow) : List EventRow :=
  rows.map fun row => { row with processed := true }

/-- What a call does to the rows. -/
def HandlerCall.apply (call : HandlerCall) (rows : List EventRow) : List EventRow :=
  insertBlockchainEvents (rows.filter fun row => !call.removes row.event) call.inserts

namespace ProcessingRun

variable (r : ProcessingRun) (s : ListenerState)

/-- The call of the `i`-th handler that is invoked. -/
def call (i : ℕ) : HandlerCall := r.calls.getD i {}

/-- The rows after the new events were stored. -/
def stored : List EventRow := insertBlockchainEvents s.rows r.fetched

/-- The start of the loop. What an earlier run left over is still there. -/
def loopStart : DependentLoop :=
  { DependentLoop.start (getAllUnprocessedBlockchainEvents (r.stored s)) with
    newDependentEvents := s.newDependentEvents }

/-- The end of the loop. -/
def loop : DependentLoop := processDependentEvents (r.loopStart s) (r.calls.map HandlerCall.effect)

/-- The events whose handlers are invoked, in order. -/
def handled : List BlockchainEvent :=
  ((r.loop s).turns.filter DependentTurn.handled).map DependentTurn.event

/-- The rows at the end of the loop. -/
def rowsAfter : List EventRow :=
  (List.range (r.handled s).length).foldl (fun rows i => (r.call i).apply rows) (r.stored s)

/-- The events whose handler completes. -/
def completed : List BlockchainEvent :=
  ((r.handled s).zipIdx.filter fun p => !(r.call p.2).throws).map Prod.fst

/-- The events that are skipped. -/
def skipped : List BlockchainEvent :=
  ((r.loop s).turns.filter fun t => !t.handled).map DependentTurn.event

end ProcessingRun

/-- A run. What the handlers do outside the transaction is not rolled back. -/
def ListenerState.run (s : ListenerState) (r : ProcessingRun) : ListenerState :=
  match r.ending with
  | .aborted => { s with rows := insertBlockchainEvents s.rows r.concurrent }
  | ending =>
    { rows :=
        if ending = .rolledBack then insertBlockchainEvents s.rows r.concurrent
        else if ending = .unmarked then insertBlockchainEvents (r.rowsAfter s) r.concurrent
        else
          markAllBlockchainEventsAsProcessed (insertBlockchainEvents (r.rowsAfter s) r.concurrent)
      newDependentEvents := (r.loop s).newDependentEvents
      completed := s.completed ++ r.completed s
      skipped := s.skipped ++ r.skipped s }

/-- A row is marked only if the handler of its event completed, or its contract was invalidated. -/
def ListenerState.ProcessedHandled (s : ListenerState) : Prop :=
  ∀ row ∈ s.rows, row.processed = true → row.event ∈ s.completed ∨ row.event ∈ s.skipped

/-- A run in which no handler throws, the events that wait are merged in time, and nothing is
    inserted before the rows are marked. -/
structure ProcessingRun.Clean (r : ProcessingRun) (s : ListenerState) : Prop where
  alone : r.concurrent = []
  calm : ∀ i < (r.handled s).length, (r.call i).throws = false
  timely : ∀ c, Relation.ReflTransGen DependentLoop.Steps
    (r.loopStart s, r.calls.map HandlerCall.effect) c → c.1.Timely

/-- Runs in which the rows are marked only after a clean run. -/
def CleanRuns : ListenerState → List ProcessingRun → Prop
  | _, [] => True
  | s, r :: rs => (r.ending = .marked → r.Clean s) ∧ CleanRuns (s.run r) rs

/-! ### What a loop discovers -/

namespace DependentLoop

/-- The number of handlers invoked so far. -/
def invoked (s : DependentLoop) : ℕ := (s.turns.filter DependentTurn.handled).length

theorem invoked_skip (s : DependentLoop) (event : BlockchainEvent) :
    (s.skip event).invoked = s.invoked := by
  simp [invoked, skip]

theorem invoked_handle (s : DependentLoop) (event : BlockchainEvent) (effect : HandlerEffect) :
    (s.handle event effect).invoked = s.invoked + 1 := by
  simp [invoked, handle]

theorem discovered_next {s : DependentLoop} {effects : List HandlerEffect}
    {c : DependentLoop × List HandlerEffect} (h : s.next effects = some c) {e : BlockchainEvent}
    (he : e ∈ s.discovered) : e ∈ c.1.discovered := by
  obtain ⟨event, rest, -, hcases⟩ := next_cases h
  rcases hcases with ⟨-, rfl⟩ | ⟨-, rfl⟩
  · exact he
  · exact List.mem_append_left _ he

/-- What was discovered stays discovered. -/
theorem mem_discovered {s : DependentLoop} {effects : List HandlerEffect} {e : BlockchainEvent}
    (he : e ∈ s.discovered) : e ∈ (processDependentEvents s effects).discovered := by
  induction s, effects using processDependentEvents.induct with
  | case1 s effects hnone =>
    rw [processDependentEvents_of_none hnone]
    exact he
  | case2 s effects c hnext ih =>
    rw [processDependentEvents_of_next hnext]
    exact ih (discovered_next hnext he)

/-- RUN: what the handlers invoked in a loop discover is discovered by the loop. -/
theorem mem_discovered_of_call {s : DependentLoop} {effects : List HandlerEffect}
    {e : BlockchainEvent} {i : ℕ} (hi : s.invoked + i < (processDependentEvents s effects).invoked)
    (he : e ∈ (effects.getD i {}).discovered) :
    e ∈ (processDependentEvents s effects).discovered := by
  induction s, effects using processDependentEvents.induct generalizing i with
  | case1 s effects hnone =>
    rw [processDependentEvents_of_none hnone] at hi
    have hle : s.invoked + i < s.invoked := hi
    omega
  | case2 s effects c hnext ih =>
    rw [processDependentEvents_of_next hnext] at hi ⊢
    obtain ⟨event, rest, -, hcases⟩ := next_cases hnext
    rcases hcases with ⟨-, rfl⟩ | ⟨-, rfl⟩
    · exact ih (by rw [invoked_skip]; exact hi) he
    · rcases i with - | i
      · have hhead : effects.getD 0 {} = effects.headD {} := by cases effects <;> rfl
        rw [hhead] at he
        exact mem_discovered (List.mem_append_right _ he)
      · have htail : effects.getD (i + 1) {} = effects.tail.getD i {} := by cases effects <;> simp
        rw [htail] at he
        exact ih (by rw [invoked_handle]; omega) he

/-- A loop whose handlers discover nothing has nothing to merge. -/
theorem timely_of_no_discovery {c c' : DependentLoop × List HandlerEffect}
    (hnew : c.1.newDependentEvents = []) (heffects : ∀ x ∈ c.2, x.discovered = [])
    (h : Relation.ReflTransGen Steps c c') : c'.1.Timely := by
  suffices hkept : c'.1.newDependentEvents = [] ∧ ∀ x ∈ c'.2, x.discovered = [] from
    fun hne => absurd hkept.1 hne
  induction h with
  | refl => exact ⟨hnew, heffects⟩
  | @tail c₁ c₂ _ hnext ih =>
    obtain ⟨event, rest, -, hcases⟩ := next_cases hnext
    rcases hcases with ⟨-, rfl⟩ | ⟨-, rfl⟩
    · exact ih
    · refine ⟨newDependentEvents_handle.trans ?_, fun x hx => ih.2 x (List.mem_of_mem_tail hx)⟩
      rcases heq : c₁.2 with - | ⟨effect, effects⟩
      · rfl
      · exact ih.2 effect (heq ▸ List.mem_cons_self)

end DependentLoop

/-! ### Rows -/

section Rows

variable {r : ProcessingRun} {s : ListenerState}

/-- The loop of a clean run handles the batch and what was left over. -/
theorem inOrderOnce_of_clean (h : r.Clean s) :
    DependentLoop.InOrderOnce
      (getAllUnprocessedBlockchainEvents (r.stored s) ++ s.newDependentEvents) (r.loop s) := by
  refine DependentLoop.onTrack_run ⟨⟨?_, .nil, sort_pairwise _⟩, h.timely _ .refl, nofun,
    sort_pairwise _⟩ h.timely
  have hsort := sort_perm (getAllUnprocessedBlockchainEvents (r.stored s))
  simpa [ProcessingRun.loopStart, DependentLoop.start, DependentLoop.pending] using
    hsort.append_right s.newDependentEvents

/-- Every event with a turn was handled to its end, or skipped. -/
theorem completed_or_skipped (h : r.Clean s) {e : BlockchainEvent}
    (he : e ∈ (r.loop s).turns.map DependentTurn.event) :
    e ∈ r.completed s ∨ e ∈ r.skipped s := by
  obtain ⟨t, ht, rfl⟩ := List.mem_map.1 he
  cases hhandled : t.handled with
  | false => exact .inr (List.mem_map_of_mem (List.mem_filter.2 ⟨ht, by rw [hhandled]; rfl⟩))
  | true =>
    have hmem : t.event ∈ r.handled s := List.mem_map_of_mem (List.mem_filter.2 ⟨ht, hhandled⟩)
    obtain ⟨i, hi, hget⟩ := List.mem_iff_getElem.1 hmem
    have hzip : (t.event, i) ∈ (r.handled s).zipIdx := by
      rw [List.mk_mem_zipIdx_iff_getElem?, ← hget]
      exact List.getElem?_eq_getElem hi
    refine .inl (List.mem_map.2 ⟨(t.event, i), List.mem_filter.2 ⟨hzip, ?_⟩, rfl⟩)
    rw [h.calm i hi]
    rfl

theorem mem_apply {call : HandlerCall} {rows : List EventRow} {row : EventRow}
    (h : row ∈ call.apply rows) :
    row ∈ rows ∨ row.processed = false ∧ row.event ∈ call.inserts := by
  rcases List.mem_append.1 h with h | h
  · exact .inl (List.mem_filter.1 h).1
  · obtain ⟨e, he, rfl⟩ := List.mem_map.1 h
    exact .inr ⟨rfl, he⟩

/-- A row at the end of the loop was stored before it, or inserted by a handler. -/
theorem mem_foldl_apply (n : ℕ) (rows : List EventRow) {row : EventRow}
    (h : row ∈ (List.range n).foldl (fun rows i => (r.call i).apply rows) rows) :
    row ∈ rows ∨ row.processed = false ∧ ∃ i < n, row.event ∈ (r.call i).inserts := by
  induction n with
  | zero => exact .inl h
  | succ n ih =>
    rw [List.range_succ, List.foldl_append, List.foldl_cons, List.foldl_nil] at h
    rcases mem_apply h with h | ⟨hprocessed, hinserts⟩
    · rcases ih h with h | ⟨hprocessed, i, hi, hinserts⟩
      · exact .inl h
      · exact .inr ⟨hprocessed, i, by omega, hinserts⟩
    · exact .inr ⟨hprocessed, n, by omega, hinserts⟩

theorem mem_insert {rows : List EventRow} {es : List BlockchainEvent} {row : EventRow}
    (h : row ∈ insertBlockchainEvents rows es) : row ∈ rows ∨ row.processed = false := by
  rcases List.mem_append.1 h with h | h
  · exact .inl h
  · obtain ⟨e, -, rfl⟩ := List.mem_map.1 h
    exact .inr rfl

/-- A processed row at the end of the loop was there before the run. -/
theorem mem_rows_of_processed {row : EventRow} (h : row ∈ r.rowsAfter s)
    (hprocessed : row.processed = true) : row ∈ s.rows := by
  have hnot : row.processed ≠ false := by simp [hprocessed]
  rcases mem_foldl_apply _ _ h with h | ⟨hfalse, -⟩
  · exact (mem_insert h).resolve_right hnot
  · exact absurd hfalse hnot

/-- What a call that does not throw inserts is discovered by the loop. -/
theorem mem_discovered_of_inserts {i : ℕ} {e : BlockchainEvent} (hi : i < (r.handled s).length)
    (hcalm : (r.call i).throws = false) (he : e ∈ (r.call i).inserts) :
    e ∈ (r.loop s).discovered := by
  have heffect : (r.call i).effect = (r.calls.map HandlerCall.effect).getD i {} :=
    (List.getD_map _ ({} : HandlerCall) HandlerCall.effect).symm
  rw [(r.call i).inserted hcalm, heffect] at he
  refine DependentLoop.mem_discovered_of_call ?_ he
  have hlength : (r.loop s).invoked = (r.handled s).length := (List.length_map _).symm
  have hzero : (r.loopStart s).invoked = 0 := rfl
  rw [hzero, Nat.zero_add]
  exact hlength ▸ hi

/-- An unprocessed row at the end of the loop of a clean run has an event with a turn. -/
theorem mem_turns_of_unprocessed (h : r.Clean s) {row : EventRow} (hrow : row ∈ r.rowsAfter s)
    (hprocessed : row.processed = false) :
    row.event ∈ (r.loop s).turns.map DependentTurn.event := by
  have honce := (inOrderOnce_of_clean h).once
  rw [honce.mem_iff]
  rcases mem_foldl_apply _ _ hrow with hstored | ⟨-, i, hi, hinserts⟩
  · refine List.mem_append_left _ (List.mem_append_left _ (List.mem_map_of_mem ?_))
    exact List.mem_filter.2 ⟨hstored, by rw [hprocessed]; rfl⟩
  · exact List.mem_append_right _ (mem_discovered_of_inserts hi (h.calm i hi) hinserts)

/-- STEP: a run keeps the rows handled, when they are marked only after a clean loop. -/
theorem processedHandled_run (h : s.ProcessedHandled) (hclean : r.ending = .marked → r.Clean s) :
    (s.run r).ProcessedHandled := by
  have hkept : ∀ row ∈ s.rows, row.processed = true →
      row.event ∈ s.completed ++ r.completed s ∨ row.event ∈ s.skipped ++ r.skipped s :=
    fun row hrow hprocessed => (h row hrow hprocessed).imp (List.mem_append_left _)
      (List.mem_append_left _)
  have hnot {row : EventRow} (hprocessed : row.processed = true) : row.processed ≠ false := by
    simp [hprocessed]
  unfold ListenerState.run
  cases hending : r.ending with
  | aborted =>
    exact fun row hrow hprocessed =>
      h row ((mem_insert hrow).resolve_right (hnot hprocessed)) hprocessed
  | rolledBack =>
    exact fun row hrow hprocessed =>
      hkept row ((mem_insert hrow).resolve_right (hnot hprocessed)) hprocessed
  | unmarked =>
    intro row hrow hprocessed
    have hafter := (mem_insert hrow).resolve_right (hnot hprocessed)
    exact hkept row (mem_rows_of_processed hafter hprocessed) hprocessed
  | marked =>
    intro row hrow _
    obtain ⟨row', hrow', rfl⟩ := List.mem_map.1 hrow
    rw [(hclean hending).alone] at hrow'
    have hafter : row' ∈ r.rowsAfter s := by simpa [insertBlockchainEvents] using hrow'
    cases hprocessed : row'.processed with
    | true => exact hkept row' (mem_rows_of_processed hafter hprocessed) hprocessed
    | false =>
      have hturn := mem_turns_of_unprocessed (hclean hending) hafter hprocessed
      exact (completed_or_skipped (hclean hending) hturn).imp (List.mem_append_right _)
        (List.mem_append_right _)

end Rows

/-- RUN: so do runs. -/
theorem processedHandled_runs {s : ListenerState} {rs : List ProcessingRun}
    (h : s.ProcessedHandled) (hclean : CleanRuns s rs) :
    (rs.foldl ListenerState.run s).ProcessedHandled := by
  induction rs generalizing s with
  | nil => exact h
  | cons r rs ih => exact ih (processedHandled_run h hclean.1) hclean.2

/-- CORRECT (processed means handled): in runs in which the rows are marked only after no handler
    threw, the events that wait were merged in time, and nothing was inserted in between, a row is
    marked only if the handler of its event completed, or its contract was invalidated. -/
theorem processedHandled_of_cleanRuns {rs : List ProcessingRun} (h : CleanRuns {} rs) :
    (rs.foldl ListenerState.run {}).ProcessedHandled :=
  processedHandled_runs (fun _ hrow => absurd hrow (List.not_mem_nil)) h

/-- A run that fetches one event, whose handler is called once. -/
def createdRun (call : HandlerCall) : ProcessingRun where
  fetched := [eventInBlock .knowledgeCollectionStorage .knowledgeCollectionCreated 20]
  calls := [call]
  concurrent := []
  ending := .marked

/-- A handler that completes. -/
theorem processedHandled_of_cleanRuns_created :
    ([createdRun {}].foldl ListenerState.run {}).ProcessedHandled := by
  refine processedHandled_of_cleanRuns ⟨fun _ => ⟨rfl, fun i hi => ?_, fun c hc => ?_⟩, trivial⟩
  · rcases i with - | i
    · rfl
    · rfl
  · refine DependentLoop.timely_of_no_discovery rfl (fun x hx => ?_) hc
    rw [List.mem_singleton.1 hx]

/-- The row of an event is marked although its handler threw. -/
theorem marked_after_throw :
    ¬ ([createdRun { throws := true }].foldl ListenerState.run {}).ProcessedHandled := by
  intro h
  let created := eventInBlock .knowledgeCollectionStorage .knowledgeCollectionCreated 20
  have hloop : (createdRun { throws := true }).loop {} =
      { DependentLoop.start [created] with index := 1, turns := [⟨created, [], true⟩] } := by
    rw [ProcessingRun.loop, DependentLoop.processDependentEvents_of_next rfl,
      DependentLoop.processDependentEvents_of_none rfl]
    rfl
  have hhandled : (createdRun { throws := true }).handled {} = [created] := by
    rw [ProcessingRun.handled, hloop]
    rfl
  have hcompleted : (createdRun { throws := true }).completed {} = [] := by
    rw [ProcessingRun.completed, hhandled]
    rfl
  have hskipped : (createdRun { throws := true }).skipped {} = [] := by
    rw [ProcessingRun.skipped, hloop]
    rfl
  have hrows : (createdRun { throws := true }).rowsAfter {} = [⟨created, false⟩] := by
    rw [ProcessingRun.rowsAfter, hhandled]
    rfl
  have hmarked : (⟨created, true⟩ : EventRow) ∈
      markAllBlockchainEventsAsProcessed
        (insertBlockchainEvents ((createdRun { throws := true }).rowsAfter {}) []) := by
    rw [hrows]
    exact List.mem_singleton_self _
  rcases h _ hmarked rfl with hmem | hmem
  · have hmem' : created ∈ [] ++ (createdRun { throws := true }).completed {} := hmem
    rw [hcompleted] at hmem'
    cases hmem'
  · have hmem' : created ∈ [] ++ (createdRun { throws := true }).skipped {} := hmem
    rw [hskipped] at hmem'
    cases hmem'

end OtNode
