import Mathlib.Data.List.Pairwise

/-! Lists paired by index.

    A partial function is applied to the entries of a list, and the values it has are paired by index
    with the list itself. An entry without a value shifts the values after it, so the pairs are right
    as long as such entries come last. -/

namespace OtNode.Align

variable {α β : Type*} (f : α → Option β)

/-- The values on a list, paired by index with the list. -/
def pairs (l : List α) : List (β × α) := (l.filterMap f).zip l

/-- The pairs are the entries and their own values. -/
def Aligned (l : List α) : Prop := ∀ value entry, (value, entry) ∈ pairs f l ↔
  entry ∈ l ∧ f entry = some value

/-- The entries without a value come after those with one. -/
def BlanksLast (l : List α) : Prop := l.Pairwise fun a b => (f b).isSome → (f a).isSome

variable {f}

theorem pairs_cons_of_eq_some {a : α} {value : β} (h : f a = some value) (l : List α) :
    pairs f (a :: l) = (value, a) :: pairs f l := by
  rw [pairs, List.filterMap_cons_some h, List.zip_cons_cons, pairs]

theorem blanksLast_cons_of_isSome {a : α} (h : (f a).isSome) {l : List α} :
    BlanksLast f (a :: l) ↔ BlanksLast f l := by
  rw [BlanksLast, List.pairwise_cons]
  exact and_iff_right fun _ _ _ => h

/-- After an entry without a value there is none with one. -/
theorem blanksLast_cons_of_eq_none {a : α} (h : f a = none) {l : List α} :
    BlanksLast f (a :: l) ↔ l.filterMap f = [] := by
  rw [BlanksLast, List.pairwise_cons, List.filterMap_eq_nil_iff]
  constructor
  · rintro ⟨hfirst, -⟩ b hb
    by_contra hvalue
    have hsome := hfirst b hb (Option.isSome_iff_ne_none.mpr hvalue)
    rw [h] at hsome
    cases hsome
  · intro hnone
    have hblank : ∀ b ∈ l, ¬ (f b).isSome := by
      intro b hb
      rw [hnone b hb]
      exact Bool.false_ne_true
    refine ⟨fun b hb hvalue => absurd hvalue (hblank b hb), ?_⟩
    exact List.pairwise_of_forall_mem_list fun a _ b hb hvalue => absurd hvalue (hblank b hb)

/-- Where every pair is an entry with its value, the entries without one come last. -/
theorem blanksLast_of_pairs {l : List α} (h : ∀ p ∈ pairs f l, f p.2 = some p.1) :
    BlanksLast f l := by
  induction l with
  | nil => exact List.Pairwise.nil
  | cons a l ih =>
    cases hvalue : f a with
    | none =>
      rw [blanksLast_cons_of_eq_none hvalue]
      cases hvalues : l.filterMap f with
      | nil => rfl
      | cons value values =>
        have hpair := h (value, a) (by simp [pairs, List.filterMap_cons_none hvalue, hvalues])
        rw [hvalue] at hpair
        cases hpair
    | some value =>
      rw [blanksLast_cons_of_isSome (by rw [hvalue]; rfl)]
      rw [pairs_cons_of_eq_some hvalue] at h
      exact ih fun p hp => h p (List.mem_cons_of_mem _ hp)

/-- Where the entries without a value come last, the pairs are the entries with their values. -/
theorem aligned_of_blanksLast {l : List α} (h : BlanksLast f l) : Aligned f l := by
  induction l with
  | nil => simp [Aligned, pairs]
  | cons a l ih =>
    intro value entry
    cases hvalue : f a with
    | none =>
      have hnil := (blanksLast_cons_of_eq_none hvalue).mp h
      have hblank := List.filterMap_eq_nil_iff.mp hnil
      rw [pairs, List.filterMap_cons_none hvalue, hnil, List.zip_nil_left]
      constructor
      · intro hmem
        cases hmem
      · rintro ⟨hentry, hsome⟩
        rcases List.mem_cons.mp hentry with rfl | hentry
        · rw [hvalue] at hsome
          cases hsome
        · rw [hblank entry hentry] at hsome
          cases hsome
    | some first =>
      have hrest := (blanksLast_cons_of_isSome (by rw [hvalue]; rfl)).mp h
      rw [pairs_cons_of_eq_some hvalue, List.mem_cons, ih hrest value entry, List.mem_cons,
        or_and_right]
      refine or_congr_left ?_
      constructor
      · rintro hpair
        obtain ⟨rfl, rfl⟩ := Prod.mk.inj hpair
        exact ⟨rfl, hvalue⟩
      · rintro ⟨rfl, hsome⟩
        rw [hvalue, Option.some.injEq] at hsome
        rw [hsome]

/-- RULE (pairing): the pairs are the entries and their own values if and only if the entries without
    a value come last. -/
theorem aligned_iff {l : List α} : Aligned f l ↔ BlanksLast f l := by
  constructor
  · intro h
    exact blanksLast_of_pairs fun p hp => ((h p.1 p.2).mp hp).2
  · exact aligned_of_blanksLast

end OtNode.Align
