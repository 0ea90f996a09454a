import Mathlib.Data.List.Perm.Basic
import Mathlib.Data.List.Nodup
import Mathlib.Tactic.Common

/-! Taking turns: one order of all candidates, and at every turn some of them eligible.

    The first eligible candidate of the order is served, and goes to its end. A candidate that is
    the only eligible one is served where it stands. Candidates that stay eligible take turns: none
    is served twice before all others were. -/

namespace OtNode.RoundRobin

variable {α : Type*} [DecidableEq α]

/-- Who is served, and the order after it. -/
def serve (eligible order : List α) : Option α × List α :=
  match eligible with
  | [a] => (some a, order)
  | _ =>
    match order.find? (· ∈ eligible) with
    | some a => (some a, order.erase a ++ [a])
    | none => (none, order)

/-- A turn: who was eligible, and who was served. -/
structure Turn (α : Type*) where
  eligible : List α
  served : Option α

/-- The turns of the candidates that are eligible one time after the other. -/
def turns (order : List α) : List (List α) → List (Turn α)
  | [] => []
  | eligible :: rest =>
    ⟨eligible, (serve eligible order).1⟩ :: turns (serve eligible order).2 rest

variable {a b : α} {order eligible : List α}

/-- STEP: who is served is the only one eligible, or the first one of the order. -/
theorem serve_cases (eligible order : List α) :
    (∃ a, eligible = [a] ∧ serve eligible order = (some a, order)) ∨
    (∃ a, order.find? (· ∈ eligible) = some a ∧
      serve eligible order = (some a, order.erase a ++ [a])) ∨
    (order.find? (· ∈ eligible) = none ∧ serve eligible order = (none, order)) := by
  fun_cases serve eligible order with
  | case1 a => exact .inl ⟨a, rfl, rfl⟩
  | case2 hmany a hfind => exact .inr (.inl ⟨a, hfind, by rw [hfind]⟩)
  | case3 hmany hfind => exact .inr (.inr ⟨hfind, by rw [hfind]⟩)

/-- STEP: the order keeps its candidates. -/
theorem serve_perm (eligible order : List α) : (serve eligible order).2.Perm order := by
  rcases serve_cases eligible order with ⟨a, -, heq⟩ | ⟨a, hfind, heq⟩ | ⟨-, heq⟩
  · rw [heq]
  · rw [heq]
    exact (List.perm_append_singleton a _).trans
      (List.perm_cons_erase (List.mem_of_find?_eq_some hfind)).symm
  · rw [heq]

/-- Some eligible candidate is served. -/
theorem serve_mem (hne : eligible ≠ []) (hsub : ∀ x ∈ eligible, x ∈ order) :
    ∃ x ∈ eligible, (serve eligible order).1 = some x := by
  rcases serve_cases eligible order with ⟨a, rfl, heq⟩ | ⟨a, hfind, heq⟩ | ⟨hfind, heq⟩
  · exact ⟨a, List.mem_singleton.mpr rfl, by rw [heq]⟩
  · exact ⟨a, by simpa using List.find?_some hfind, by rw [heq]⟩
  · obtain ⟨x, hx⟩ := List.exists_mem_of_ne_nil _ hne
    exact absurd hx (by simpa using List.find?_eq_none.mp hfind x (hsub x hx))

/-! ### Who comes before whom -/

omit [DecidableEq α] in
/-- The first one that is found has no other one before it. -/
theorem find?_ne {p : α → Bool} (hnodup : order.Nodup) (hbefore : [a, b].Sublist order)
    (ha : p a = true) : order.find? p ≠ some b := by
  induction order with
  | nil => nofun
  | cons c order ih =>
    obtain ⟨hc, hnodup⟩ := List.nodup_cons.mp hnodup
    rw [List.find?_cons]
    cases hbefore with
    | cons _ hbefore =>
      split
      · rintro ⟨rfl⟩
        exact hc (hbefore.subset (by simp))
      · exact ih hnodup hbefore
    | cons_cons _ hbefore =>
      rw [ha]
      rintro ⟨rfl⟩
      exact hc (hbefore.subset (by simp))

/-- The candidate that comes second is not served where both are eligible. -/
theorem served_ne (hnodup : order.Nodup) (hbefore : [a, b].Sublist order) (ha : a ∈ eligible)
    (hb : b ∈ eligible) : (serve eligible order).1 ≠ some b := by
  have hne : a ≠ b := by simpa using hnodup.sublist hbefore
  rcases serve_cases eligible order with ⟨c, rfl, -⟩ | ⟨c, hfind, heq⟩ | ⟨-, heq⟩
  · exact absurd ((List.mem_singleton.mp ha).trans (List.mem_singleton.mp hb).symm) hne
  · rw [heq]
    rintro ⟨rfl⟩
    exact find?_ne hnodup hbefore (by simpa using ha) hfind
  · rw [heq]
    nofun

/-- STEP: who comes before another one still does after a turn that is not its own. -/
theorem before_serve (hne : a ≠ b) (hbefore : [a, b].Sublist order)
    (hserved : (serve eligible order).1 ≠ some a) : [a, b].Sublist (serve eligible order).2 := by
  rcases serve_cases eligible order with ⟨c, -, heq⟩ | ⟨c, -, heq⟩ | ⟨-, heq⟩
  · rwa [heq]
  · rw [heq] at hserved ⊢
    have hc : c ≠ a := fun h => hserved (by rw [h])
    by_cases hb : c = b
    · subst hb
      have ha : a ∈ order.erase c := (List.mem_erase_of_ne hne).mpr (hbefore.subset (by simp))
      exact (List.singleton_sublist.mpr ha).append (List.Sublist.refl [c])
    · have herase : [a, b].erase c = [a, b] := List.erase_of_not_mem (by simp [hc, hb])
      have hsub : ([a, b].erase c).Sublist (order.erase c) := hbefore.erase c
      rw [herase] at hsub
      exact hsub.trans (List.sublist_append_left _ _)
  · rwa [heq]

/-- STEP: who is served comes after every other one that was eligible. -/
theorem before_served (hne : a ≠ b) (ha : a ∈ eligible) (hb : b ∈ eligible) (horder : a ∈ order)
    (hserved : (serve eligible order).1 = some b) : [a, b].Sublist (serve eligible order).2 := by
  rcases serve_cases eligible order with ⟨c, rfl, -⟩ | ⟨c, -, heq⟩ | ⟨-, heq⟩
  · exact absurd ((List.mem_singleton.mp ha).trans (List.mem_singleton.mp hb).symm) hne
  · rw [heq] at hserved ⊢
    obtain rfl := Option.some.inj hserved
    have hmem : a ∈ order.erase c := (List.mem_erase_of_ne hne).mpr horder
    exact (List.singleton_sublist.mpr hmem).append (List.Sublist.refl [c])
  · rw [heq] at hserved
    cases hserved

/-! ### Turns -/

/-- Who comes first is served before the one that comes second. -/
theorem served_between {turned : List (List α)} {middle after : List (Turn α)} {last : Turn α}
    (hne : a ≠ b) (hnodup : order.Nodup) (hbefore : [a, b].Sublist order)
    (hturns : turns order turned = middle ++ last :: after)
    (helig : ∀ turn ∈ middle ++ [last], a ∈ turn.eligible ∧ b ∈ turn.eligible)
    (hlast : last.served = some b) : ∃ turn ∈ middle, turn.served = some a := by
  induction turned generalizing order middle with
  | nil =>
    rw [turns] at hturns
    cases middle <;> cases hturns
  | cons eligible turned ih =>
    rw [turns] at hturns
    cases middle with
    | nil =>
      obtain ⟨rfl, -⟩ := List.cons.inj hturns
      obtain ⟨ha, hb⟩ := helig _ (List.mem_singleton.mpr rfl)
      exact absurd hlast (served_ne hnodup hbefore ha hb)
    | cons turn middle =>
      obtain ⟨rfl, hrest⟩ := List.cons.inj hturns
      by_cases hserved : (serve eligible order).1 = some a
      · exact ⟨_, List.mem_cons_self, hserved⟩
      · obtain ⟨turn, hturn, heq⟩ := ih ((serve_perm eligible order).nodup_iff.mpr hnodup)
          (before_serve hne hbefore hserved) hrest
          (fun turn hturn => helig turn (List.mem_cons_of_mem _ hturn))
        exact ⟨turn, List.mem_cons_of_mem _ hturn, heq⟩

/-- RUN (fairness): among candidates that stay eligible, none is served twice before the others
    are. -/
theorem turns_fair {turned : List (List α)} {before middle after : List (Turn α)}
    {first last : Turn α} (hne : a ≠ b) (hnodup : order.Nodup) (horder : a ∈ order)
    (hturns : turns order turned = before ++ first :: (middle ++ last :: after))
    (helig : ∀ turn ∈ first :: (middle ++ [last]), a ∈ turn.eligible ∧ b ∈ turn.eligible)
    (hfirst : first.served = some b) (hlast : last.served = some b) :
    ∃ turn ∈ middle, turn.served = some a := by
  induction turned generalizing order before with
  | nil =>
    rw [turns] at hturns
    cases before <;> cases hturns
  | cons eligible turned ih =>
    rw [turns] at hturns
    have hperm := serve_perm eligible order
    cases before with
    | nil =>
      obtain ⟨rfl, hrest⟩ := List.cons.inj hturns
      obtain ⟨ha, hb⟩ := helig _ List.mem_cons_self
      exact served_between hne (hperm.nodup_iff.mpr hnodup)
        (before_served hne ha hb horder hfirst) hrest
        (fun turn hturn => helig turn (List.mem_cons_of_mem _ hturn)) hlast
    | cons turn before =>
      obtain ⟨-, hturns⟩ := List.cons.inj hturns
      exact ih (hperm.nodup_iff.mpr hnodup) (hperm.mem_iff.mpr horder) hturns

end OtNode.RoundRobin
