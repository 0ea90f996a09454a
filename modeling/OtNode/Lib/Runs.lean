import Mathlib.Data.List.SplitBy
import Mathlib.Data.List.TakeWhile
import Mathlib.Order.Monotone.Basic

/-! Neighbours of a list in groups.

    The runs of a list by a relation are what `List.splitBy` gives: neighbours are in one run if and
    only if they are related. A scan that compares each entry with the first of its group, and not
    with its neighbour, has groups of its own, and the two agree under a condition on the runs. -/

namespace OtNode.Runs

variable {α : Type*} (r c : α → α → Bool)

/-- The index of the group that holds a position of the concatenation. -/
def groupAt : List (List α) → ℕ → ℕ
  | [], _ => 0
  | group :: groups, i => if i < group.length then 0 else groupAt groups (i - group.length) + 1

/-- Neighbours from the one position to the other are related. -/
def SameRun (l : List α) (i j : ℕ) : Prop :=
  ∀ k, i ≤ k → k < j → ∀ a ∈ l[k]?, ∀ b ∈ l[k + 1]?, r a b

/-- The groups are the maximal runs of the list. -/
structure AreRuns (l : List α) (groups : List (List α)) : Prop where
  nonempty : [] ∉ groups
  flatten : groups.flatten = l
  sameGroup : ∀ i j, i ≤ j → j < l.length → (groupAt groups i = groupAt groups j ↔ SameRun r l i j)

/-- Each entry is compared with the first of the group that is open. -/
def groupByFirst : List α → List (List α)
  | [] => []
  | a :: l => (a :: l.takeWhile (c a)) :: groupByFirst (l.dropWhile (c a))
termination_by l => l.length
decreasing_by
  exact Nat.lt_succ_of_le (List.dropWhile_sublist (c a)).length_le

/-- In every run the entries are all connected to the first one, and the first entry of the run
    after it is not. -/
def FirstsDecide (runs : List (List α)) : Prop :=
  (∀ run ∈ runs, ∀ a ∈ run.head?, ∀ b ∈ run.tail, c a b) ∧
    runs.IsChain fun run next => ∀ a ∈ run.head?, ∀ b ∈ next.head?, c a b = false

variable {r c}

/-! ### Positions -/

theorem groupAt_of_lt {group : List α} {i : ℕ} (h : i < group.length) (groups : List (List α)) :
    groupAt (group :: groups) i = 0 := by
  rw [groupAt, if_pos h]

theorem groupAt_length_add (group : List α) (groups : List (List α)) (i : ℕ) :
    groupAt (group :: groups) (group.length + i) = groupAt groups i + 1 := by
  rw [groupAt, if_neg (by omega), Nat.add_sub_cancel_left]

theorem groupAt_le_succ (groups : List (List α)) (i : ℕ) :
    groupAt groups i ≤ groupAt groups (i + 1) := by
  induction groups generalizing i with
  | nil => exact Nat.le_refl 0
  | cons group groups ih =>
    by_cases hlt : i < group.length
    · rw [groupAt_of_lt hlt]
      exact Nat.zero_le _
    · obtain ⟨d, rfl⟩ := Nat.exists_eq_add_of_le (Nat.le_of_not_lt hlt)
      rw [Nat.add_assoc, groupAt_length_add, groupAt_length_add]
      exact Nat.succ_le_succ (ih d)

theorem groupAt_mono (groups : List (List α)) : Monotone (groupAt groups) :=
  monotone_nat_of_le_succ (groupAt_le_succ groups)

/-- Positions are in one group if and only if all neighbours between them are. -/
theorem groupAt_eq_iff (groups : List (List α)) {i j : ℕ} (hij : i ≤ j) :
    groupAt groups i = groupAt groups j ↔
      ∀ k, i ≤ k → k < j → groupAt groups k = groupAt groups (k + 1) := by
  constructor
  · intro heq k hik hkj
    have hfirst := groupAt_mono groups hik
    have hnext := groupAt_le_succ groups k
    have hlast := groupAt_mono groups (show k + 1 ≤ j from hkj)
    omega
  · intro hall
    induction j, hij using Nat.le_induction with
    | base => rfl
    | succ j hij ih =>
      have hprev : groupAt groups i = groupAt groups j := by
        refine ih ?_
        intro k hik hkj
        exact hall k hik (by omega)
      exact hprev.trans (hall j hij (by omega))

/-! ### Runs -/

/-- Neighbours are in one group exactly where they are related. -/
def Separates (r : α → α → Bool) (l : List α) (groups : List (List α)) : Prop :=
  ∀ k, ∀ a ∈ l[k]?, ∀ b ∈ l[k + 1]?, (groupAt groups k = groupAt groups (k + 1) ↔ r a b)

theorem separates_cons {group : List α} (hne : group ≠ []) {groups : List (List α)} :
    Separates r (group :: groups).flatten (group :: groups) ↔
      group.IsChain (fun a b => r a b) ∧
        (∀ b ∈ groups.flatten.head?, r (group.getLast hne) b = false) ∧
          Separates r groups.flatten groups := by
  have hpos := List.length_pos_iff.mpr hne
  rw [List.flatten_cons]
  constructor
  · intro h
    refine ⟨?_, ?_, ?_⟩
    · rw [List.isChain_iff_getElem]
      intro k hk
      refine (h k group[k] ?_ group[k + 1] ?_).mp ?_
      · rw [List.getElem?_append_left (by omega), List.getElem?_eq_getElem (by omega)]
        rfl
      · rw [List.getElem?_append_left hk, List.getElem?_eq_getElem hk]
        rfl
      · rw [groupAt_of_lt (by omega), groupAt_of_lt hk]
    · intro b hb
      have hiff := h (group.length - 1) (group.getLast hne) ?_ b ?_
      · have hlast := groupAt_length_add group groups 0
        rw [groupAt_of_lt (by omega), Nat.sub_add_cancel hpos] at hiff
        rw [Nat.add_zero] at hlast
        rw [hlast] at hiff
        exact Bool.eq_false_iff.mpr fun hr => Nat.succ_ne_zero _ (hiff.mpr hr).symm
      · rw [List.getElem?_append_left (by omega), ← List.getLast?_eq_getElem?,
          List.getLast?_eq_some_getLast hne]
        rfl
      · rw [Nat.sub_add_cancel hpos, List.getElem?_append_right (Nat.le_refl _), Nat.sub_self,
          ← List.head?_eq_getElem?]
        exact hb
    · intro k a ha b hb
      have hiff := h (group.length + k) a ?_ b ?_
      · rw [Nat.add_assoc, groupAt_length_add, groupAt_length_add, Nat.succ_inj] at hiff
        exact hiff
      · rw [List.getElem?_append_right (by omega), Nat.add_sub_cancel_left]
        exact ha
      · rw [Nat.add_assoc, List.getElem?_append_right (by omega), Nat.add_sub_cancel_left]
        exact hb
  · rintro ⟨hchain, hlast, hrest⟩ k a ha b hb
    rcases Nat.lt_trichotomy (k + 1) group.length with hlt | heq | hgt
    · rw [List.getElem?_append_left (by omega)] at ha
      rw [List.getElem?_append_left hlt] at hb
      obtain ⟨_, rfl⟩ := List.getElem?_eq_some_iff.mp ha
      obtain ⟨_, rfl⟩ := List.getElem?_eq_some_iff.mp hb
      rw [groupAt_of_lt (by omega), groupAt_of_lt hlt]
      exact iff_of_true rfl (List.isChain_iff_getElem.mp hchain k hlt)
    · -- The neighbours are the last of the group and the first after it.
      have hk : k = group.length - 1 := by omega
      subst hk
      rw [List.getElem?_append_left (by omega), ← List.getLast?_eq_getElem?,
        List.getLast?_eq_some_getLast hne] at ha
      obtain rfl := Option.some.inj ha
      rw [List.getElem?_append_right (by omega), heq, Nat.sub_self, ← List.head?_eq_getElem?] at hb
      have hnext := groupAt_length_add group groups 0
      rw [Nat.add_zero] at hnext
      rw [groupAt_of_lt (by omega), heq, hnext, hlast b hb]
      exact iff_of_false (Nat.succ_ne_zero _).symm Bool.false_ne_true
    · obtain ⟨d, rfl⟩ := Nat.exists_eq_add_of_le (show group.length ≤ k by omega)
      rw [List.getElem?_append_right (by omega), Nat.add_sub_cancel_left] at ha
      rw [Nat.add_assoc, List.getElem?_append_right (by omega), Nat.add_sub_cancel_left] at hb
      rw [Nat.add_assoc, groupAt_length_add, groupAt_length_add, Nat.succ_inj]
      exact hrest d a ha b hb

theorem separates_iff {groups : List (List α)} (hne : [] ∉ groups) :
    Separates r groups.flatten groups ↔ groups.flatten.splitBy r = groups := by
  induction groups with
  | nil =>
    refine iff_of_true ?_ rfl
    intro k a ha
    cases ha
  | cons group groups ih =>
    obtain ⟨hgroup, hgroups⟩ := not_or.mp (List.mem_cons.not.mp hne)
    have hgroup : group ≠ [] := fun hnil => hgroup hnil.symm
    rw [separates_cons hgroup, ih hgroups]
    constructor
    · rintro ⟨hchain, hlast, hsplit⟩
      rw [List.flatten_cons, List.splitBy_append, List.splitBy_of_isChain hgroup hchain, hsplit]
      · rfl
      · intro a ha b hb
        rw [List.getLast?_eq_some_getLast hgroup] at ha
        obtain rfl := Option.some.inj ha
        exact hlast b hb
    · intro hsplit
      obtain ⟨-, -, hchains, hbreaks⟩ := List.splitBy_eq_iff.mp hsplit
      rw [List.isChain_cons] at hbreaks
      refine ⟨hchains group List.mem_cons_self, ?_, ?_⟩
      · intro b hb
        cases groups with
        | nil => cases hb
        | cons next groups =>
          obtain ⟨hne, hnext, hlast⟩ := hbreaks.1 next rfl
          rw [List.flatten_cons, List.head?_append_of_ne_nil _ hnext,
            List.head?_eq_some_head hnext] at hb
          obtain rfl := Option.some.inj hb
          exact hlast
      · exact List.splitBy_flatten hgroups
          (fun run hrun => hchains run (List.mem_cons_of_mem group hrun)) hbreaks.2

/-- The runs of a list are the ones that `List.splitBy` gives. -/
theorem areRuns_iff {l : List α} {groups : List (List α)} :
    AreRuns r l groups ↔ groups = l.splitBy r := by
  constructor
  · rintro ⟨hne, rfl, hsame⟩
    refine ((separates_iff hne).mp ?_).symm
    intro k a ha b hb
    obtain ⟨hk, rfl⟩ := List.getElem?_eq_some_iff.mp hb
    rw [hsame k (k + 1) (Nat.le_succ k) hk]
    constructor
    · intro hrun
      exact hrun k (Nat.le_refl k) (Nat.lt_succ_self k) a ha _ hb
    · intro hr k' hk' hlt a' ha' b' hb'
      obtain rfl : k' = k := by omega
      rw [ha] at ha'
      rw [hb] at hb'
      obtain rfl := Option.some.inj ha'
      obtain rfl := Option.some.inj hb'
      exact hr
  · rintro rfl
    have hne := List.nil_notMem_splitBy r l
    have hflatten := List.flatten_splitBy r l
    refine ⟨hne, hflatten, ?_⟩
    have hsep : Separates r l (l.splitBy r) := by
      have hiff := separates_iff (r := r) hne
      rw [hflatten] at hiff
      exact hiff.mpr rfl
    intro i j hij hj
    rw [groupAt_eq_iff _ hij]
    refine forall_congr' fun k => imp_congr_right fun hik => forall_congr' fun hkj => ?_
    constructor
    · intro heq a ha b hb
      exact (hsep k a ha b hb).mp heq
    · intro hr
      have ha := List.getElem?_eq_getElem (show k < l.length by omega)
      have hb := List.getElem?_eq_getElem (show k + 1 < l.length by omega)
      exact (hsep k _ ha _ hb).mpr (hr _ ha _ hb)

/-! ### Groups by their first entry -/

theorem groupByFirst_flatten {groups : List (List α)} (hne : [] ∉ groups)
    (h : FirstsDecide c groups) : groupByFirst c groups.flatten = groups := by
  induction groups with
  | nil => rw [List.flatten_nil, groupByFirst]
  | cons group groups ih =>
    obtain ⟨hgroup, hgroups⟩ := not_or.mp (List.mem_cons.not.mp hne)
    obtain ⟨hfirsts, hbreaks⟩ := h
    rw [List.isChain_cons] at hbreaks
    cases group with
    | nil => exact absurd rfl hgroup
    | cons a group =>
      have hall : ∀ b ∈ group, c a b := hfirsts _ List.mem_cons_self a rfl
      have hrest : groups.flatten.takeWhile (c a) = [] ∧
          groups.flatten.dropWhile (c a) = groups.flatten := by
        cases groups with
        | nil => exact ⟨rfl, rfl⟩
        | cons next groups =>
          cases next with
          | nil => exact absurd List.mem_cons_self hgroups
          | cons b next =>
            have hb := hbreaks.1 (b :: next) rfl a rfl b rfl
            rw [List.flatten_cons, List.cons_append]
            exact ⟨List.takeWhile_cons_of_neg (Bool.eq_false_iff.mp hb),
              List.dropWhile_cons_of_neg (Bool.eq_false_iff.mp hb)⟩
      rw [List.flatten_cons, List.cons_append, groupByFirst, List.takeWhile_append_of_pos hall,
        List.dropWhile_append_of_pos hall, hrest.1, hrest.2, List.append_nil, ih hgroups]
      exact ⟨fun run hrun => hfirsts run (List.mem_cons_of_mem _ hrun), hbreaks.2⟩

theorem head?_groupByFirst (l : List α) :
    ∀ group ∈ (groupByFirst c l).head?, group.head? = l.head? := by
  cases l with
  | nil =>
    rw [groupByFirst]
    rintro group ⟨⟩
  | cons a l =>
    rw [groupByFirst]
    rintro group ⟨⟩
    rfl

theorem firstsDecide_groupByFirst (l : List α) : FirstsDecide c (groupByFirst c l) := by
  fun_induction groupByFirst c l with
  | case1 => exact ⟨fun run hrun => absurd hrun List.not_mem_nil, List.isChain_nil⟩
  | case2 a l ih =>
    refine ⟨?_, ?_⟩
    · intro run hrun
      rcases List.mem_cons.mp hrun with rfl | hrun
      · rintro a' ⟨⟩ b hb
        exact List.mem_takeWhile_imp hb
      · exact ih.1 run hrun
    · rw [List.isChain_cons]
      refine ⟨?_, ih.2⟩
      rintro next hnext a' ⟨⟩ b hb
      rw [head?_groupByFirst _ next hnext] at hb
      have hnot := List.head?_dropWhile_not (c a) l
      rw [hb] at hnot
      exact hnot

/-- The scan finds the runs if and only if the first entries of the runs decide. -/
theorem groupByFirst_eq_splitBy_iff {l : List α} :
    groupByFirst c l = l.splitBy r ↔ FirstsDecide c (l.splitBy r) := by
  constructor
  · intro heq
    rw [← heq]
    exact firstsDecide_groupByFirst l
  · intro hdecide
    have hflatten := groupByFirst_flatten (List.nil_notMem_splitBy r l) hdecide
    rwa [List.flatten_splitBy] at hflatten

theorem FirstsDecide.congr {c' : α → α → Bool} {runs : List (List α)} (h : FirstsDecide c runs)
    (heq : ∀ a ∈ runs.flatten, ∀ b ∈ runs.flatten, c a b = c' a b) : FirstsDecide c' runs := by
  have hhead : ∀ run ∈ runs, ∀ a ∈ run.head?, a ∈ runs.flatten := by
    intro run hrun a ha
    exact List.mem_flatten.mpr ⟨run, hrun, List.mem_of_mem_head? ha⟩
  constructor
  · intro run hrun a ha b hb
    rw [← heq a (hhead run hrun a ha) b
      (List.mem_flatten.mpr ⟨run, hrun, List.mem_of_mem_tail hb⟩)]
    exact h.1 run hrun a ha b hb
  · refine h.2.imp_of_mem_imp ?_
    intro run next hrun hnext hfalse a ha b hb
    rw [← heq a (hhead run hrun a ha) b (hhead next hnext b hb)]
    exact hfalse a ha b hb

/-- By an equivalence, it makes no difference which entry of a run is compared. -/
theorem groupByFirst_eq_splitBy (hsymm : ∀ a b, r a b → r b a)
    (htrans : ∀ a b d, r a b → r b d → r a d) (l : List α) : groupByFirst r l = l.splitBy r := by
  rw [groupByFirst_eq_splitBy_iff]
  have hall : ∀ run ∈ l.splitBy r, ∀ a ∈ run.head?, ∀ b ∈ run.tail, r a b := by
    intro run hrun a ha b hb
    have : IsTrans α fun a b => r a b := ⟨htrans⟩
    have hchain := List.isChain_iff_pairwise.mp (List.isChain_of_mem_splitBy hrun)
    cases run with
    | nil => cases hb
    | cons first rest =>
      obtain rfl := Option.some.inj ha
      exact (List.pairwise_cons.mp hchain).1 b hb
  refine ⟨hall, (List.isChain_getLast_head_splitBy r l).imp_of_mem_imp ?_⟩
  rintro run next hrun - ⟨hne, hnext, hlast⟩ a ha b hb
  obtain rfl : next.head hnext = b := List.head_of_mem_head? hb
  rw [Bool.eq_false_iff] at hlast ⊢
  refine fun hab => hlast ?_
  cases run with
  | nil => exact absurd rfl hne
  | cons first rest =>
    obtain rfl := Option.some.inj ha
    cases rest with
    | nil => exact hab
    | cons second rest =>
      have hmem : (first :: second :: rest).getLast hne ∈ second :: rest := by
        rw [List.getLast_cons (List.cons_ne_nil second rest)]
        exact List.getLast_mem _
      exact htrans _ _ _ (hsymm _ _ (hall _ hrun first rfl _ hmem)) hab

/-- Two relations give the same runs if and only if they agree on neighbours. -/
theorem splitBy_eq_splitBy_iff {r' : α → α → Bool} {l : List α} :
    l.splitBy r = l.splitBy r' ↔ l.IsChain fun a b => r a b = r' a b := by
  have hne := List.nil_notMem_splitBy r' l
  have hflatten := List.flatten_splitBy r' l
  have hr := separates_iff (r := r) hne
  have hr' := separates_iff (r := r') hne
  rw [hflatten] at hr hr'
  have hsep := hr'.mpr rfl
  rw [← hr, List.isChain_iff_getElem]
  constructor
  · intro h k hk
    have ha := List.getElem?_eq_getElem (show k < l.length by omega)
    have hb := List.getElem?_eq_getElem hk
    exact Bool.eq_iff_iff.mpr ((h k _ ha _ hb).symm.trans (hsep k _ ha _ hb))
  · intro h k a ha b hb
    obtain ⟨_, rfl⟩ := List.getElem?_eq_some_iff.mp ha
    obtain ⟨hk, rfl⟩ := List.getElem?_eq_some_iff.mp hb
    rw [h k hk]
    exact hsep k _ ha _ hb

end OtNode.Runs
