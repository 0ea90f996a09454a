import Mathlib.Data.List.Count
import Mathlib.Tactic.Common

/-! Strings split at a separator, and with a pattern taken out.

    The parts of a string are those between its separators, one more than it has of them. What is
    taken out is the first occurrence of the pattern, wherever that is. -/

namespace OtNode

variable {α : Type*} [DecidableEq α]

/-! ### The parts -/

theorem length_splitOn (c : α) (s : List α) : (s.splitOn c).length = s.count c + 1 := by
  induction s with
  | nil => rfl
  | cons d s ih =>
    by_cases hd : d = c
    · rw [List.splitOn_cons_eq_if_modifyHead, if_pos (by simpa using hd), List.length_cons, ih, hd,
        List.count_cons_self]
    · rw [List.splitOn_cons_eq_if_modifyHead, if_neg (by simpa using hd), List.length_modifyHead,
        ih, List.count_cons_of_ne hd]

omit [DecidableEq α] in
/-- By induction on the separators of a string: it is a word, or a word comes first. -/
theorem separated_induction {p : α → Bool} {motive : List α → Prop}
    (word : ∀ w, (∀ c ∈ w, p c = false) → motive w)
    (cons : ∀ w c s, (∀ d ∈ w, p d = false) → p c = true → motive s → motive (w ++ c :: s))
    (s : List α) : motive s := by
  suffices h : ∀ w, (∀ c ∈ w, p c = false) → motive (w ++ s) from h [] nofun
  induction s with
  | nil =>
    intro w hw
    rw [List.append_nil]
    exact word w hw
  | cons c s ih =>
    intro w hw
    cases hc : p c with
    | true => exact cons w c s hw hc (ih [] nofun)
    | false =>
      rw [List.append_cons]
      refine ih (w ++ [c]) ?_
      intro d hd
      rcases List.mem_append.mp hd with hd | hd
      · exact hw d hd
      · rwa [List.mem_singleton.mp hd]

omit [DecidableEq α] in
/-- No part has a separator. -/
theorem notMem_of_mem_splitOnP {p : α → Bool} {s part : List α} (h : part ∈ s.splitOnP p) :
    ∀ c ∈ part, p c = false := by
  induction s using separated_induction (p := p) with
  | word w hw =>
    rw [List.splitOnP_eq_singleton hw, List.mem_singleton] at h
    rwa [h]
  | cons w c s hw hc ih =>
    rw [List.splitOnP_append_cons_of_forall_mem hw c hc] at h
    rcases List.mem_cons.mp h with rfl | h
    · exact hw
    · exact ih h

/-- The first part. -/
theorem headD_splitOn (c : α) (s : List α) :
    (s.splitOn c).headD [] = s.takeWhile (· != c) := by
  induction s with
  | nil => rfl
  | cons d s ih =>
    rw [List.splitOn_cons_eq_if_modifyHead]
    by_cases hd : d = c
    · rw [if_pos (by simpa using hd), List.takeWhile_cons_of_neg (by simpa using hd)]
      rfl
    · rw [if_neg (by simpa using hd), List.takeWhile_cons_of_pos (by simpa using hd), ← ih]
      cases hparts : s.splitOn c with
      | nil => exact absurd hparts (List.splitOn_ne_nil c s)
      | cons part parts => rfl

/-! ### Taking out a pattern -/

/-- `s.replace(pattern, '')`. -/
def removeFirst (pattern : List α) : List α → List α
  | [] => []
  | c :: s =>
    if pattern <+: c :: s then (c :: s).drop pattern.length else c :: removeFirst pattern s

theorem removeFirst_append {pattern : List α} (h : pattern ≠ []) (s : List α) :
    removeFirst pattern (pattern ++ s) = s := by
  cases pattern with
  | nil => contradiction
  | cons c pattern =>
    rw [List.cons_append, removeFirst, ← List.cons_append, if_pos (List.prefix_append _ _),
      List.drop_left]

theorem removeFirst_of_notMem {pattern : List α} {c : α} (hc : c ∈ pattern) {s : List α}
    (h : c ∉ s) : removeFirst pattern s = s := by
  induction s with
  | nil => rfl
  | cons d s ih =>
    rw [removeFirst, if_neg fun hstart => h (hstart.subset hc),
      ih fun hmem => h (List.mem_cons_of_mem _ hmem)]

/-- The pattern is taken out, or does not occur. -/
theorem removeFirst_eq (pattern s : List α) : removeFirst pattern s = s ∨
    ∃ a b, s = a ++ pattern ++ b ∧ removeFirst pattern s = a ++ b := by
  induction s with
  | nil => exact .inl rfl
  | cons c s ih =>
    rw [removeFirst]
    split_ifs with hstart
    · obtain ⟨b, hb⟩ := hstart
      refine .inr ⟨[], b, hb.symm, ?_⟩
      rw [← hb, List.drop_left, List.nil_append]
    · rcases ih with ih | ⟨a, b, rfl, ih⟩
      · exact .inl (by rw [ih])
      · exact .inr ⟨c :: a, b, rfl, by rw [ih, List.cons_append]⟩

omit [DecidableEq α] in
/-- A prefix without the separator ends before it. -/
theorem prefix_of_prefix_append_cons {pattern a b : List α} {separator : α}
    (hsep : separator ∉ pattern) (h : pattern <+: a ++ separator :: b) : pattern <+: a := by
  rcases List.prefix_or_prefix_of_prefix h (List.prefix_append a _) with h' | ⟨t, rfl⟩
  · exact h'
  · rw [List.prefix_append_right_inj] at h
    cases t with
    | nil => simp
    | cons c t =>
      obtain ⟨rfl, -⟩ := List.cons_prefix_cons.mp h
      exact absurd (by simp) hsep

/-- A pattern without the separator is taken out of the first part, where the others do not have it.
    -/
theorem removeFirst_append_cons {pattern : List α} {separator c : α} (hsep : separator ∉ pattern)
    (hc : c ∈ pattern) (a : List α) {b : List α} (h : c ∉ b) :
    removeFirst pattern (a ++ separator :: b) = removeFirst pattern a ++ separator :: b := by
  induction a with
  | nil =>
    have hne : c ≠ separator := by
      rintro rfl
      exact hsep hc
    exact removeFirst_of_notMem hc (by simp [h, hne])
  | cons d a ih =>
    rw [List.cons_append, removeFirst, removeFirst, ← List.cons_append]
    by_cases hstart : pattern <+: d :: a
    · rw [if_pos (hstart.trans (List.prefix_append _ _)), if_pos hstart,
        List.drop_append_of_le_length hstart.length_le]
    · rw [if_neg fun h => hstart (prefix_of_prefix_append_cons hsep h), if_neg hstart, ih,
        List.cons_append]

end OtNode
