import Mathlib.Data.Finset.Max
import Mathlib.Data.List.Forall2
import Mathlib.Logic.Relation
import OtNode.Listener.Events

/-! The loop over the dependent events, while its handlers discover further ones.

    Discovered events wait until the next event whose contract is not invalidated is reached, and
    are merged into the rest of the list after this event was taken from it. One that comes before
    it is passed over, and the event is taken a second time. If no such event is left, they stay
    behind. -/

namespace OtNode

open BlockchainEvent

/-- What the handler of an event does to the loop: the contracts it invalidates, and the events it
    leaves in `newDependentEvents`. -/
structure HandlerEffect where
  invalidated : List Address := []
  discovered : List BlockchainEvent := []

/-- An event that is taken from the list: the contracts invalidated at its turn, and whether its
    handler is invoked. -/
structure DependentTurn where
  event : BlockchainEvent
  invalidatedContracts : List Address
  handled : Bool

/-- The fields of the command and the index of `processDependentEvents`, with its turns and the
    events discovered so far. -/
structure DependentLoop where
  dependentEvents : List BlockchainEvent
  newDependentEvents : List BlockchainEvent := []
  invalidatedContracts : List Address := []
  index : ℕ := 0
  turns : List DependentTurn := []
  discovered : List BlockchainEvent := []

namespace DependentLoop

variable (s : DependentLoop)

/-- `dependentEvents.slice(index)`. -/
def pending : List BlockchainEvent := s.dependentEvents.drop s.index

/-- The event is taken from the list and skipped. -/
def skip (event : BlockchainEvent) : DependentLoop :=
  { s with
    dependentEvents := s.dependentEvents.eraseIdx s.index
    turns := s.turns ++ [⟨event, s.invalidatedContracts, false⟩] }

/-- New events are merged into the unprocessed part of the array. -/
def merge : DependentLoop :=
  if 0 < s.newDependentEvents.length then
    { s with
      dependentEvents := s.dependentEvents.take s.index ++ sort (s.pending ++ s.newDependentEvents)
      newDependentEvents := [] }
  else s

/-- The handler of the event is invoked. It leaves `newDependentEvents` as it is when it discovers
    nothing. -/
def handle (event : BlockchainEvent) (effect : HandlerEffect) : DependentLoop :=
  { s.merge with
    invalidatedContracts := s.invalidatedContracts ++ effect.invalidated
    newDependentEvents :=
      if effect.discovered = [] then s.merge.newDependentEvents else effect.discovered
    index := s.index + 1
    turns := s.turns ++ [⟨event, s.invalidatedContracts, true⟩]
    discovered := s.discovered ++ effect.discovered }

/-- One iteration. The handlers invoked have the effects of the list, and later ones none. -/
def next (effects : List HandlerEffect) : Option (DependentLoop × List HandlerEffect) :=
  match s.dependentEvents[s.index]? with
  | none => none
  | some event =>
    if event.contractAddress ∈ s.invalidatedContracts then some (s.skip event, effects)
    else some (s.handle event (effects.headD {}), effects.tail)

/-- The start of the loop over a batch. -/
def start (batch : List BlockchainEvent) : DependentLoop := { dependentEvents := sort batch }

/-- What is left to do without further discoveries. -/
def left : ℕ := s.pending.length + s.newDependentEvents.length

/-! ### What an iteration does -/

section Iteration

variable {s} {event : BlockchainEvent} {effect : HandlerEffect} {rest : List BlockchainEvent}

theorem pending_skip (h : s.pending = event :: rest) : (s.skip event).pending = rest := by
  have hlt : s.index < s.dependentEvents.length := by
    by_contra hle
    rw [pending, List.drop_eq_nil_of_le (not_lt.1 hle)] at h
    cases h
  have htake : (s.dependentEvents.take s.index).length = s.index := by
    rw [List.length_take]
    omega
  have hdrop : s.dependentEvents.drop (s.index + 1) = rest := by
    rw [← List.tail_drop]
    exact congrArg List.tail h
  rw [pending, skip, List.eraseIdx_eq_take_drop_succ, List.drop_left' htake, hdrop]

/-- After the merge no new events wait. -/
theorem newDependentEvents_merge : s.merge.newDependentEvents = [] := by
  unfold merge
  split_ifs with h
  · rfl
  · exact List.eq_nil_of_length_eq_zero (by omega)

theorem newDependentEvents_handle :
    (s.handle event effect).newDependentEvents = effect.discovered := by
  by_cases h : effect.discovered = []
  · simp only [handle, newDependentEvents_merge, h, if_true]
  · simp only [handle, if_neg h]

/-- The head of a merged list: the event that was taken, or one of the new events, before it. -/
theorem sort_head (new : List BlockchainEvent) (hsorted : (event :: rest).Pairwise Le) :
    ∃ head tail, sort (event :: rest ++ new) = head :: tail ∧
      (head = event ∧ (∀ x ∈ new, Le event x) ∨
        head.place < event.place ∧ ∃ x ∈ new, x.place < event.place) := by
  by_cases hnew : ∀ x ∈ new, Le event x
  · refine ⟨event, sort (rest ++ new), sort_cons fun x hx => ?_, .inl ⟨rfl, hnew⟩⟩
    rcases List.mem_append.1 hx with hx | hx
    · exact List.rel_of_pairwise_cons hsorted hx
    · exact hnew x hx
  · push Not at hnew
    obtain ⟨x, hx, hlt⟩ := hnew
    rw [not_le_iff] at hlt
    rcases hsort : sort (event :: rest ++ new) with - | ⟨head, tail⟩
    · have hmem : event ∈ sort (event :: rest ++ new) := mem_sort.2 List.mem_cons_self
      rw [hsort] at hmem
      cases hmem
    · have hmem : x ∈ head :: tail := by
        rw [← hsort]
        exact mem_sort.2 (List.mem_append_right _ hx)
      have hle : head.place ≤ x.place := by
        rcases List.mem_cons.1 hmem with rfl | htail
        · exact le_rfl
        · exact le_iff.1 (List.rel_of_pairwise_cons (hsort ▸ sort_pairwise _) htail)
      exact ⟨head, tail, rfl, .inr ⟨hle.trans_lt hlt, x, hx, hlt⟩⟩

/-- The list after an event was handled. -/
theorem pending_handle (effect : HandlerEffect) (h : s.pending = event :: rest)
    (hsorted : s.pending.Pairwise Le) :
    ∃ head tail, (s.handle event effect).pending = tail ∧
      (head :: tail).Perm (event :: rest ++ s.newDependentEvents) ∧ (head :: tail).Pairwise Le ∧
      (head = event ∧ (∀ x ∈ s.newDependentEvents, Le event x) ∨
        head.place < event.place ∧ ∃ x ∈ s.newDependentEvents, x.place < event.place) := by
  have htail : (s.handle event effect).pending = s.merge.dependentEvents.drop (s.index + 1) := rfl
  have hlt : s.index < s.dependentEvents.length := by
    by_contra hle
    rw [pending, List.drop_eq_nil_of_le (not_lt.1 hle)] at h
    cases h
  rw [h] at hsorted
  rcases hnew : s.newDependentEvents with - | ⟨x, new⟩
  · have hmerge : s.merge = s := by simp [merge, hnew]
    refine ⟨event, rest, ?_, by simp, hsorted, .inl ⟨rfl, nofun⟩⟩
    rw [htail, hmerge, ← List.tail_drop]
    exact congrArg List.tail h
  · obtain ⟨head, tail, hsort, hhead⟩ := sort_head (x :: new) hsorted
    refine ⟨head, tail, ?_, ?_, ?_, hhead⟩
    · have hmerge : s.merge.dependentEvents = s.dependentEvents.take s.index ++ head :: tail := by
        simp only [merge, hnew, List.length_cons, Nat.zero_lt_succ, if_true, h, hsort]
      have htake : (s.dependentEvents.take s.index).length = s.index := by
        rw [List.length_take]
        omega
      rw [htail, hmerge, ← List.tail_drop, List.drop_left' htake]
      rfl
    · rw [← hsort]
      exact sort_perm _
    · rw [← hsort]
      exact sort_pairwise _

theorem next_eq_none {effects : List HandlerEffect} (h : s.next effects = none) : s.pending = [] := by
  unfold next at h
  split at h
  · rename_i hnone
    exact List.drop_eq_nil_of_le (List.getElem?_eq_none_iff.1 hnone)
  · split_ifs at h

/-- STEP: an iteration skips the event it takes or invokes its handler. -/
theorem next_cases {effects : List HandlerEffect} {c : DependentLoop × List HandlerEffect}
    (h : s.next effects = some c) :
    ∃ event rest, s.pending = event :: rest ∧
      (event.contractAddress ∈ s.invalidatedContracts ∧ c = (s.skip event, effects) ∨
        event.contractAddress ∉ s.invalidatedContracts ∧
          c = (s.handle event (effects.headD {}), effects.tail)) := by
  unfold next at h
  split at h
  · cases h
  · rename_i event hevent
    obtain ⟨hlt, hget⟩ := List.getElem?_eq_some_iff.1 hevent
    have hpending : s.pending = event :: s.dependentEvents.drop (s.index + 1) := by
      rw [← hget]
      exact List.drop_eq_getElem_cons hlt
    refine ⟨event, _, hpending, ?_⟩
    split_ifs at h with hinvalid
    · exact .inl ⟨hinvalid, (Option.some.inj h).symm⟩
    · exact .inr ⟨hinvalid, (Option.some.inj h).symm⟩

theorem length_merge (h : s.index ≤ s.dependentEvents.length) :
    s.merge.dependentEvents.length = s.dependentEvents.length + s.newDependentEvents.length := by
  unfold merge
  split_ifs with hnew
  · have hsort := (sort_perm (s.pending ++ s.newDependentEvents)).length_eq
    rw [List.length_append, hsort, List.length_append, List.length_take, pending, List.length_drop]
    omega
  · omega

/-- An iteration uses up an effect or leaves less to do. -/
theorem left_next {effects : List HandlerEffect} {c : DependentLoop × List HandlerEffect}
    (h : s.next effects = some c) :
    c.2.length < effects.length ∨ c.2.length = effects.length ∧ c.1.left < s.left := by
  obtain ⟨event, rest, hpending, hcases⟩ := next_cases h
  have hlt : s.index < s.dependentEvents.length := by
    by_contra hle
    rw [pending, List.drop_eq_nil_of_le (not_lt.1 hle)] at hpending
    cases hpending
  rcases hcases with ⟨-, rfl⟩ | ⟨-, rfl⟩
  · refine .inr ⟨rfl, ?_⟩
    rw [left, left, pending_skip hpending, hpending, List.length_cons]
    exact Nat.add_lt_add_right (Nat.lt_succ_self _) _
  · rcases effects with - | ⟨effect, effects⟩
    · refine .inr ⟨rfl, ?_⟩
      have hlength : (s.handle event {}).pending.length + 1 =
          s.pending.length + s.newDependentEvents.length := by
        have hmerge := length_merge hlt.le
        simp only [pending, handle, List.length_drop, hmerge]
        omega
      rw [left, left, List.headD_nil, newDependentEvents_handle]
      simp only [List.length_nil]
      omega
    · exact .inl (Nat.lt_succ_self _)

end Iteration

end DependentLoop

/-- `processDependentEvents`. -/
def processDependentEvents (s : DependentLoop) (effects : List HandlerEffect) : DependentLoop :=
  match _h : s.next effects with
  | none => { s with invalidatedContracts := [] }
  | some c => processDependentEvents c.1 c.2
termination_by (effects.length, s.left)
decreasing_by
  rcases DependentLoop.left_next _h with hlt | ⟨heq, hlt⟩
  · exact Prod.Lex.left _ _ hlt
  · rw [heq]
    exact Prod.Lex.right _ hlt

namespace DependentLoop

/-- An iteration of the loop. -/
def Steps (c c' : DependentLoop × List HandlerEffect) : Prop := c.1.next c.2 = some c'

/-- The states of the loop over a batch. -/
def Reached (batch : List BlockchainEvent) (effects : List HandlerEffect) (s : DependentLoop) : Prop :=
  ∃ rest, Relation.ReflTransGen Steps (start batch, effects) (s, rest)

/-- The first pending event of a contract that is not invalidated. -/
def nextValid (s : DependentLoop) : Option BlockchainEvent :=
  s.pending.find? fun e => e.contractAddress ∉ s.invalidatedContracts

/-- Events that wait are merged in time: an event is left that is not skipped, and they do not come
    before the first one. -/
def Timely (s : DependentLoop) : Prop :=
  s.newDependentEvents ≠ [] →
    ∃ event, s.nextValid = some event ∧ ∀ x ∈ s.newDependentEvents, Le event x

/-- The handlers of all events of contracts that are not invalidated, of the batch or discovered,
    are invoked once and in order, and no discovered event is left over. -/
structure InOrderOnce (batch : List BlockchainEvent) (s : DependentLoop) : Prop where
  once : (s.turns.map DependentTurn.event).Perm (batch ++ s.discovered)
  valid : ∀ t ∈ s.turns, t.handled = true ↔ t.event.contractAddress ∉ t.invalidatedContracts
  ordered : ((s.turns.filter DependentTurn.handled).map DependentTurn.event).Pairwise Le
  none_left : s.newDependentEvents = []

/-- The turns and what is left are the batch and the discovered events, but for the missed ones, in
    whose places others had a second turn. -/
structure Balance (batch : List BlockchainEvent) (s : DependentLoop)
    (missed extra : List BlockchainEvent) : Prop where
  events : (s.turns.map DependentTurn.event ++ s.pending ++ s.newDependentEvents ++ missed).Perm
    (batch ++ s.discovered ++ extra)
  before : List.Forall₂ (fun m x => m.place < x.place) missed extra
  sorted : s.pending.Pairwise Le

/-! ### Missed events -/

theorem processDependentEvents_of_none {s : DependentLoop} {effects : List HandlerEffect}
    (h : s.next effects = none) :
    processDependentEvents s effects = { s with invalidatedContracts := [] } := by
  rw [processDependentEvents]
  split
  · rfl
  · rename_i hsome
    rw [h] at hsome
    cases hsome

theorem processDependentEvents_of_next {s : DependentLoop} {effects : List HandlerEffect}
    {c : DependentLoop × List HandlerEffect} (h : s.next effects = some c) :
    processDependentEvents s effects = processDependentEvents c.1 c.2 := by
  rw [processDependentEvents]
  split
  · rename_i hnone
    rw [h] at hnone
    cases hnone
  · rename_i c' hsome
    rw [h] at hsome
    rw [Option.some.inj hsome]

/-- The rest of a loop ends as the loop does. -/
theorem process_reached {c c' : DependentLoop × List HandlerEffect}
    (h : Relation.ReflTransGen Steps c c') :
    processDependentEvents c.1 c.2 = processDependentEvents c'.1 c'.2 := by
  induction h with
  | refl => rfl
  | tail _ hnext ih => rw [ih, processDependentEvents_of_next hnext]

section Missed

variable {batch : List BlockchainEvent} {s : DependentLoop} {missed extra : List BlockchainEvent}

theorem balance_start : Balance batch (start batch) [] [] where
  events := by simpa [start, pending] using sort_perm batch
  before := .nil
  sorted := sort_pairwise batch

theorem balance_skip {event : BlockchainEvent} {rest : List BlockchainEvent}
    (h : Balance batch s missed extra) (hpending : s.pending = event :: rest) :
    Balance batch (s.skip event) missed extra where
  events := by
    have hevents := h.events
    rw [hpending] at hevents
    rw [pending_skip hpending]
    simpa [skip] using hevents
  before := h.before
  sorted := by
    rw [pending_skip hpending]
    exact (hpending ▸ h.sorted).of_cons

/-- A handled event is merged past the new ones, or has its turn in the place of one of them. -/
theorem balance_handle {event : BlockchainEvent} {rest : List BlockchainEvent}
    (effect : HandlerEffect) (h : Balance batch s missed extra) (hpending : s.pending = event :: rest) :
    (∀ x ∈ s.newDependentEvents, Le event x) ∧
        Balance batch (s.handle event effect) missed extra ∨
      (∃ x ∈ s.newDependentEvents, x.place < event.place) ∧
        ∃ m, Balance batch (s.handle event effect) (m :: missed) (event :: extra) := by
  obtain ⟨head, tail, htail, hperm, hsorted, hhead⟩ :=
    pending_handle effect hpending h.sorted
  have hevents := h.events
  rw [hpending] at hevents
  have hcount (a : BlockchainEvent) := List.perm_iff_count.1 hevents a
  have hmerged (a : BlockchainEvent) := List.perm_iff_count.1 hperm a
  have hturns : (s.handle event effect).turns.map DependentTurn.event =
      s.turns.map DependentTurn.event ++ [event] := List.map_append
  have hdiscovered : (s.handle event effect).discovered = s.discovered ++ effect.discovered := rfl
  simp only [List.count_append, List.count_cons] at hcount hmerged
  rcases hhead with ⟨rfl, hnew⟩ | ⟨hlt, hnew⟩
  · refine .inl ⟨hnew, List.perm_iff_count.2 fun a => ?_, h.before, htail ▸ hsorted.of_cons⟩
    have hcount := hcount a
    have hmerged := hmerged a
    simp only [hturns, htail, hdiscovered, newDependentEvents_handle, List.count_append,
      List.count_cons, List.count_nil]
    omega
  · refine .inr ⟨hnew, head, List.perm_iff_count.2 fun a => ?_, .cons hlt h.before,
      htail ▸ hsorted.of_cons⟩
    have hcount := hcount a
    have hmerged := hmerged a
    simp only [hturns, htail, hdiscovered, newDependentEvents_handle, List.count_append,
      List.count_cons, List.count_nil]
    omega

theorem balance_next {effects : List HandlerEffect} {c : DependentLoop × List HandlerEffect}
    (h : Balance batch s missed extra) (hnext : s.next effects = some c) :
    ∃ missed' extra', Balance batch c.1 missed' extra' := by
  obtain ⟨event, rest, hpending, hcases⟩ := next_cases hnext
  rcases hcases with ⟨-, rfl⟩ | ⟨-, rfl⟩
  · exact ⟨missed, extra, balance_skip h hpending⟩
  · rcases balance_handle (effects.headD {}) h hpending with ⟨-, hbalance⟩ |
      ⟨-, m, hbalance⟩
    · exact ⟨_, _, hbalance⟩
    · exact ⟨_, _, hbalance⟩

theorem balance_reached {c c' : DependentLoop × List HandlerEffect} (h : Balance batch c.1 missed extra)
    (hsteps : Relation.ReflTransGen Steps c c') :
    ∃ missed' extra', Balance batch c'.1 missed' extra' := by
  induction hsteps with
  | refl => exact ⟨missed, extra, h⟩
  | tail _ hnext ih =>
    obtain ⟨missed', extra', hbalance⟩ := ih
    exact balance_next hbalance hnext

theorem nextValid_skip {event : BlockchainEvent} {rest : List BlockchainEvent}
    (hpending : s.pending = event :: rest)
    (hinvalid : event.contractAddress ∈ s.invalidatedContracts) :
    (s.skip event).nextValid = s.nextValid := by
  have hskip : (s.skip event).invalidatedContracts = s.invalidatedContracts := rfl
  rw [nextValid, nextValid, pending_skip hpending, hpending, hskip]
  exact (List.find?_cons_of_neg (by simpa using hinvalid)).symm

/-- Without a timely merge an event is missed, or events stay behind. -/
theorem missed_next {effects : List HandlerEffect} {c : DependentLoop × List HandlerEffect}
    (h : Balance batch s missed extra) (hnext : s.next effects = some c)
    (hlate : missed ≠ [] ∨ ¬ s.Timely) :
    ∃ missed' extra', Balance batch c.1 missed' extra' ∧ (missed' ≠ [] ∨ ¬ c.1.Timely) := by
  obtain ⟨event, rest, hpending, hcases⟩ := next_cases hnext
  rcases hcases with ⟨hinvalid, rfl⟩ | ⟨hvalid, rfl⟩
  · refine ⟨missed, extra, balance_skip h hpending, hlate.imp_right fun hlate => ?_⟩
    rw [Timely, nextValid_skip hpending hinvalid]
    exact hlate
  · rcases balance_handle (effects.headD {}) h hpending with ⟨hnew, hbalance⟩ |
      ⟨-, m, hbalance⟩
    · refine ⟨missed, extra, hbalance, .inl (hlate.resolve_right fun hlate => hlate fun _ => ?_)⟩
      refine ⟨event, ?_, hnew⟩
      rw [nextValid, hpending]
      exact List.find?_cons_of_pos (by simpa using hvalid)
    · exact ⟨_, _, hbalance, .inl (List.cons_ne_nil _ _)⟩

theorem exists_later (h : List.Forall₂ (fun m x => m.place < x.place) missed extra)
    {m : BlockchainEvent} (hm : m ∈ missed) : ∃ x ∈ extra, m.place < x.place := by
  induction h with
  | nil => cases hm
  | cons hlt _ ih =>
    rcases List.mem_cons.1 hm with rfl | hm
    · exact ⟨_, List.mem_cons_self, hlt⟩
    · obtain ⟨x, hx, hlt⟩ := ih hm
      exact ⟨x, List.mem_cons_of_mem _ hx, hlt⟩

/-- The events that had a second turn are not the missed ones, for each comes after one of them. -/
theorem missed_eq_nil (hperm : missed.Perm extra)
    (hbefore : List.Forall₂ (fun m x => m.place < x.place) missed extra) : missed = [] := by
  by_contra hne
  have hnonempty : extra.toFinset.Nonempty := by
    rw [List.toFinset_nonempty_iff]
    rintro rfl
    exact hne hperm.eq_nil
  obtain ⟨last, hlast, hmax⟩ := Finset.exists_max_image _ place hnonempty
  have hmem : last ∈ missed := hperm.mem_iff.2 (List.mem_toFinset.1 hlast)
  obtain ⟨x, hx, hlt⟩ := exists_later hbefore hmem
  exact absurd (hmax x (List.mem_toFinset.2 hx)) (not_le.2 hlt)

/-- RUN: a loop that is not timely ends with a missed event, or with events left over. -/
theorem missed_run (effects : List HandlerEffect) (h : Balance batch s missed extra)
    (hlate : missed ≠ [] ∨ ¬ s.Timely) :
    ∃ missed' extra', Balance batch (processDependentEvents s effects) missed' extra' ∧
      (processDependentEvents s effects).pending = [] ∧
      (missed' ≠ [] ∨ (processDependentEvents s effects).newDependentEvents ≠ []) := by
  induction s, effects using processDependentEvents.induct generalizing missed extra with
  | case1 s effects hnone =>
    rw [processDependentEvents_of_none hnone]
    have hpending : s.pending = [] := next_eq_none hnone
    refine ⟨missed, extra, ⟨h.events, h.before, h.sorted⟩, hpending, ?_⟩
    refine hlate.imp_right fun hlate hnew => hlate fun hne => absurd hnew hne
  | case2 s effects c hnext ih =>
    rw [processDependentEvents_of_next hnext]
    obtain ⟨missed', extra', hbalance, hlate'⟩ := missed_next h hnext hlate
    exact ih hbalance hlate'

end Missed

/-! ### Timely loops -/

section Timely

variable {batch : List BlockchainEvent} {s : DependentLoop}

/-- A loop in which every merge so far was in time. -/
structure OnTrack (batch : List BlockchainEvent) (s : DependentLoop) : Prop where
  balance : Balance batch s [] []
  timely : s.Timely
  valid : ∀ t ∈ s.turns, t.handled = true ↔ t.event.contractAddress ∉ t.invalidatedContracts
  ordered : (s.turns.map DependentTurn.event ++ s.pending).Pairwise Le

theorem onTrack_start : OnTrack batch (start batch) where
  balance := balance_start
  timely := fun h => absurd rfl h
  valid := nofun
  ordered := sort_pairwise batch

/-- Skipping an event does not make a merge late. -/
theorem timely_skip {event : BlockchainEvent} {rest : List BlockchainEvent} (h : s.Timely)
    (hpending : s.pending = event :: rest)
    (hinvalid : event.contractAddress ∈ s.invalidatedContracts) : (s.skip event).Timely := by
  rw [Timely, nextValid_skip hpending hinvalid]
  exact h

/-- Every turn is before the events that wait. -/
theorem le_new {t x : BlockchainEvent} (h : OnTrack batch s)
    (ht : t ∈ s.turns.map DependentTurn.event) (hx : x ∈ s.newDependentEvents) : Le t x := by
  obtain ⟨event, hfirst, hle⟩ := h.timely (List.ne_nil_of_mem hx)
  have hmem : event ∈ s.pending := List.mem_of_find?_eq_some hfirst
  exact IsTrans.trans _ _ _ ((List.pairwise_append.1 h.ordered).2.2 t ht event hmem) (hle x hx)

/-- The turns of an iteration are valid. -/
theorem valid_next {effects : List HandlerEffect} {c : DependentLoop × List HandlerEffect}
    (h : ∀ t ∈ s.turns, t.handled = true ↔ t.event.contractAddress ∉ t.invalidatedContracts)
    (hnext : s.next effects = some c) :
    ∀ t ∈ c.1.turns, t.handled = true ↔ t.event.contractAddress ∉ t.invalidatedContracts := by
  intro t ht
  obtain ⟨event, rest, -, hcases⟩ := next_cases hnext
  rcases hcases with ⟨hinvalid, rfl⟩ | ⟨hvalid, rfl⟩
  · rcases List.mem_append.1 ht with ht | ht
    · exact h t ht
    · rw [List.mem_singleton.1 ht]
      simpa using hinvalid
  · rcases List.mem_append.1 ht with ht | ht
    · exact h t ht
    · rw [List.mem_singleton.1 ht]
      simpa using hvalid

/-- STEP: a loop on track that stays timely stays on track. -/
theorem onTrack_next {effects : List HandlerEffect} {c : DependentLoop × List HandlerEffect}
    (h : OnTrack batch s) (hnext : s.next effects = some c) (htimely : c.1.Timely) :
    OnTrack batch c.1 := by
  obtain ⟨event, rest, hpending, hcases⟩ := next_cases hnext
  have hordered := h.ordered
  have hturnsValid := valid_next h.valid hnext
  rw [hpending] at hordered
  rcases hcases with ⟨hinvalid, rfl⟩ | ⟨hvalid, rfl⟩
  · refine ⟨balance_skip h.balance hpending, htimely, hturnsValid, ?_⟩
    rw [pending_skip hpending]
    simpa [skip] using hordered
  · have hfirst : s.nextValid = some event := by
      rw [nextValid, hpending]
      exact List.find?_cons_of_pos (by simpa using hvalid)
    have hnew : ∀ x ∈ s.newDependentEvents, Le event x := by
      intro x hx
      obtain ⟨event', hfirst', hle⟩ := h.timely (List.ne_nil_of_mem hx)
      obtain rfl : event = event' := Option.some.inj (hfirst.symm.trans hfirst')
      exact hle x hx
    rcases balance_handle (effects.headD {}) h.balance hpending with ⟨-, hbalance⟩ |
      ⟨⟨x, hx, hlt⟩, -⟩
    · refine ⟨hbalance, htimely, hturnsValid, ?_⟩
      obtain ⟨head, tail, htail, hperm, hsorted, hhead⟩ :=
        pending_handle (effects.headD {}) hpending h.balance.sorted
      obtain rfl : head = event := by
        rcases hhead with ⟨rfl, -⟩ | ⟨-, x, hx, hlt⟩
        · rfl
        · exact absurd (hnew x hx) (not_le_iff.2 hlt)
      have hturns : (s.handle head (effects.headD {})).turns.map DependentTurn.event =
          s.turns.map DependentTurn.event ++ [head] := List.map_append
      obtain ⟨hdone, -, hacross⟩ := List.pairwise_append.1 hordered
      rw [hturns, htail, List.append_assoc, List.singleton_append]
      refine List.pairwise_append.2 ⟨hdone, hsorted, fun t ht x hx => ?_⟩
      rcases List.mem_append.1 (hperm.mem_iff.1 hx) with hx | hx
      · exact hacross t ht x hx
      · exact le_new h ht hx
    · exact absurd (hnew x hx) (not_le_iff.2 hlt)

/-- A loop on track that has nothing left has handled everything once and in order. -/
theorem inOrderOnce_of_onTrack (h : OnTrack batch s) (hpending : s.pending = []) :
    InOrderOnce batch s := by
  have hnew : s.newDependentEvents = [] := by
    by_contra hne
    obtain ⟨event, hfirst, -⟩ := h.timely hne
    rw [nextValid, hpending] at hfirst
    cases hfirst
  have hordered := (List.pairwise_append.1 h.ordered).1
  refine ⟨?_, h.valid, hordered.sublist (List.filter_sublist.map _), hnew⟩
  simpa [hpending, hnew] using h.balance.events

/-- RUN: a loop on track, whose states stay timely, handles everything once and in order. -/
theorem onTrack_run {effects : List HandlerEffect} (h : OnTrack batch s)
    (htimely : ∀ c, Relation.ReflTransGen Steps (s, effects) c → c.1.Timely) :
    InOrderOnce batch (processDependentEvents s effects) := by
  induction s, effects using processDependentEvents.induct with
  | case1 s effects hnone =>
    rw [processDependentEvents_of_none hnone]
    have hend := inOrderOnce_of_onTrack h (next_eq_none hnone)
    exact ⟨hend.once, hend.valid, hend.ordered, hend.none_left⟩
  | case2 s effects c hnext ih =>
    rw [processDependentEvents_of_next hnext]
    have hstep : Steps (s, effects) c := hnext
    exact ih (onTrack_next h hnext (htimely c (.single hstep)))
      fun c' hc' => htimely c' (.head hstep hc')

end Timely

end DependentLoop

/-- CORRECT (dependent events): the loop over a batch handles the events of valid contracts once and
    in order, with none left over, if and only if in every state reached the events that wait are
    merged in time. -/
theorem inOrderOnce_iff_timely (batch : List BlockchainEvent) (effects : List HandlerEffect) :
    DependentLoop.InOrderOnce batch
        (processDependentEvents (DependentLoop.start batch) effects) ↔
      ∀ s, DependentLoop.Reached batch effects s → s.Timely := by
  constructor
  · rintro h s ⟨rest, hreached⟩
    by_contra hlate
    obtain ⟨missed, extra, hbalance⟩ :=
      DependentLoop.balance_reached DependentLoop.balance_start hreached
    obtain ⟨missed', extra', hend, hpending, hbad⟩ :=
      DependentLoop.missed_run rest hbalance (.inr hlate)
    rw [← DependentLoop.process_reached hreached] at hend hpending hbad
    rcases hbad with hmissed | hnew
    · refine hmissed (DependentLoop.missed_eq_nil ?_ hend.before)
      have hevents := hend.events
      rw [hpending, h.none_left, List.append_nil, List.append_nil] at hevents
      exact (List.perm_append_left_iff _).1 ((h.once.symm.append_right missed').trans hevents)
    · exact hnew h.none_left
  · intro h
    exact DependentLoop.onTrack_run DependentLoop.onTrack_start fun c hc => h c.1 ⟨c.2, hc⟩

/-- An event of a contract in a block. -/
def eventInBlock (c : MonitoredContract) (e : MonitoredEvent) (blockNumber : ℕ) :
    BlockchainEvent where
  blockchain := []
  contract := c
  contractAddress := []
  event := e
  data := []
  blockNumber := blockNumber
  transactionIndex := 0
  logIndex := 0

/-- An event discovered before the next one of the batch is passed over, and the next one is handled
    twice. -/
theorem passed_over_in_block_15 :
    let replaced := eventInBlock .hub .contractChanged 10
    let created := eventInBlock .knowledgeCollectionStorage .knowledgeCollectionCreated 20
    let changed := eventInBlock .parametersStorage .parameterChanged 15
    let s := processDependentEvents (DependentLoop.start [replaced, created]) [⟨[], [changed]⟩]
    s.turns.map DependentTurn.event = [replaced, created, created] ∧
      ¬ DependentLoop.InOrderOnce [replaced, created] s := by
  intro replaced created changed s
  have hend : s = { DependentLoop.start [replaced, changed, created] with
      index := 3
      turns := [⟨replaced, [], true⟩, ⟨created, [], true⟩, ⟨created, [], true⟩]
      discovered := [changed] } := by
    simp only [s]
    rw [DependentLoop.processDependentEvents_of_next rfl,
      DependentLoop.processDependentEvents_of_next rfl,
      DependentLoop.processDependentEvents_of_next rfl,
      DependentLoop.processDependentEvents_of_none rfl]
    rfl
  rw [hend]
  refine ⟨rfl, ?_⟩
  intro h
  have honce : [replaced, created, created].Perm [replaced, created, changed] := h.once
  revert honce
  decide

end OtNode
