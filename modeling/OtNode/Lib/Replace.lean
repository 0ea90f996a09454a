import OtNode.Lib.Split

/-! The first occurrence of a pattern, replaced.

    A replacement without separators, for a pattern without them, changes one part of the string at
    most: two strings that differ in more parts need as many replacements. -/

namespace OtNode

variable {α : Type*} [DecidableEq α]

/-- What is before the first occurrence of a pattern, and what is behind it. -/
def firstOccurrence (pattern : List α) : List α → Option (List α × List α)
  | [] => if pattern = [] then some ([], []) else none
  | c :: s =>
    if pattern <+: c :: s then some ([], (c :: s).drop pattern.length)
    else (firstOccurrence pattern s).map fun found => (c :: found.1, found.2)

/-- The first occurrence replaced by what is made of the strings around it. -/
def replaceFirst (pattern : List α) (replacement : List α → List α → List α) (s : List α) :
    List α :=
  match firstOccurrence pattern s with
  | some (before, after) => before ++ replacement before after ++ after
  | none => s

variable {pattern s t before after : List α}

/-- What is found is an occurrence. -/
theorem eq_of_firstOccurrence (h : firstOccurrence pattern s = some (before, after)) :
    s = before ++ pattern ++ after := by
  induction s generalizing before with
  | nil =>
    rw [firstOccurrence] at h
    split_ifs at h with hpattern
    cases h
    rw [hpattern]
    rfl
  | cons c s ih =>
    rw [firstOccurrence] at h
    split_ifs at h with hstart
    · cases h
      obtain ⟨rest, hrest⟩ := hstart
      rw [← hrest, List.drop_left, List.nil_append]
    · obtain ⟨⟨before', after'⟩, hfound, hcons⟩ := Option.map_eq_some_iff.mp h
      cases hcons
      rw [ih hfound]
      rfl

/-- Nothing is found where there is no occurrence. -/
theorem not_infix_of_firstOccurrence (h : firstOccurrence pattern s = none) :
    ¬ pattern <:+: s := by
  induction s with
  | nil =>
    rw [firstOccurrence] at h
    split_ifs at h with hpattern
    rwa [List.infix_nil]
  | cons c s ih =>
    rw [firstOccurrence] at h
    split_ifs at h with hstart
    rw [List.infix_cons_iff]
    exact not_or.mpr ⟨hstart, ih (Option.map_eq_none_iff.mp h)⟩

/-- What is found is the first one. -/
theorem firstOccurrence_le {before' after' : List α}
    (h : firstOccurrence pattern s = some (before, after))
    (hs : s = before' ++ pattern ++ after') : before.length ≤ before'.length := by
  induction s generalizing before before' with
  | nil =>
    rw [firstOccurrence] at h
    split_ifs at h
    cases h
    exact Nat.zero_le _
  | cons c s ih =>
    rw [firstOccurrence] at h
    split_ifs at h with hstart
    · cases h
      exact Nat.zero_le _
    · obtain ⟨⟨before₁, after₁⟩, hfound, hcons⟩ := Option.map_eq_some_iff.mp h
      cases hcons
      cases before' with
      | nil => exact absurd ⟨after', hs.symm⟩ hstart
      | cons d before' =>
        exact Nat.succ_le_succ (ih hfound (List.cons.inj hs).2)

/-- An occurrence with none before it is found. -/
theorem firstOccurrence_append
    (h : ∀ before' after', before ++ pattern ++ after = before' ++ pattern ++ after' →
      before.length ≤ before'.length) :
    firstOccurrence pattern (before ++ pattern ++ after) = some (before, after) := by
  cases hfound : firstOccurrence pattern (before ++ pattern ++ after) with
  | none => exact absurd ⟨before, after, rfl⟩ (not_infix_of_firstOccurrence hfound)
  | some found =>
    obtain ⟨before', after'⟩ := found
    have hle := firstOccurrence_le hfound rfl
    have heq := eq_of_firstOccurrence hfound
    have hge := h before' after' heq
    rw [List.append_assoc, List.append_assoc] at heq
    obtain ⟨rfl, hrest⟩ := List.append_inj heq (by omega)
    rw [List.append_cancel_left hrest]

omit [DecidableEq α] in
/-- An occurrence of a pattern without the separator, where one ends before it. -/
theorem occurrence_before {separator : α} {lead rest : List α} (hsep : separator ∉ pattern)
    (hs : lead ++ separator :: rest = before ++ pattern ++ after)
    (hle : before.length ≤ lead.length) : ∃ between, lead = before ++ pattern ++ between := by
  have hbefore : before <+: before ++ pattern ++ after :=
    ⟨pattern ++ after, (List.append_assoc _ _ _).symm⟩
  obtain ⟨between, rfl⟩ := List.prefix_of_prefix_length_le hbefore ⟨separator :: rest, hs⟩ hle
  rw [List.append_assoc, List.append_assoc] at hs
  have hstart : pattern <+: between ++ separator :: rest :=
    ⟨after, (List.append_cancel_left hs).symm⟩
  obtain ⟨between', rfl⟩ := prefix_of_prefix_append_cons hsep hstart
  exact ⟨between', (List.append_assoc _ _ _).symm⟩

/-! ### Parts that differ -/

/-- In how many places two lists differ. -/
def differing : List α → List α → ℕ
  | x :: xs, y :: ys => (if x = y then 0 else 1) + differing xs ys
  | _, _ => 0

@[simp] theorem differing_self (xs : List α) : differing xs xs = 0 := by
  induction xs with
  | nil => rfl
  | cons x xs ih => rw [differing, if_pos rfl, ih]

theorem differing_append {xs xs' : List α} (h : xs.length = xs'.length) (ys ys' : List α) :
    differing (xs ++ ys) (xs' ++ ys') = differing xs xs' + differing ys ys' := by
  induction xs generalizing xs' with
  | nil =>
    obtain rfl := List.length_eq_zero_iff.mp h.symm
    rw [differing_self, Nat.zero_add]
    rfl
  | cons x xs ih =>
    cases xs' with
    | nil => cases h
    | cons x' xs' =>
      rw [List.cons_append, List.cons_append, differing, differing, ih (Nat.succ.inj h),
        Nat.add_assoc]

/-- One place more or less. -/
theorem differing_le_succ (xs ys zs : List α) (x y : α) :
    differing (xs ++ x :: ys) zs ≤ differing (xs ++ y :: ys) zs + 1 := by
  induction xs generalizing zs with
  | nil =>
    cases zs with
    | nil => simp [differing]
    | cons z zs =>
      rw [List.nil_append, List.nil_append, differing, differing]
      split_ifs <;> omega
  | cons w xs ih =>
    cases zs with
    | nil => simp [differing]
    | cons z zs =>
      have hrest := ih zs
      rw [List.cons_append, List.cons_append, differing, differing]
      omega

omit [DecidableEq α] in
/-- What has no separator lies in one part. -/
theorem splitOnP_between {p : α → Bool} (before after : List α) :
    ∃ parts first last rest, ∀ word, (∀ c ∈ word, p c = false) →
      (before ++ word ++ after).splitOnP p = parts ++ (first ++ word ++ last) :: rest := by
  induction before using separated_induction (p := p) with
  | word w hw =>
    induction after using separated_induction (p := p) with
    | word w' hw' =>
      refine ⟨[], w, w', [], fun word hword => List.splitOnP_eq_singleton fun c hc => ?_⟩
      simp only [List.mem_append] at hc
      rcases hc with (hc | hc) | hc
      · exact hw c hc
      · exact hword c hc
      · exact hw' c hc
    | cons w' c after hw' hc _ =>
      refine ⟨[], w, w', after.splitOnP p, ?_⟩
      intro word hword
      rw [← List.append_assoc, List.splitOnP_append_cons_of_forall_mem _ c hc, List.nil_append]
      intro d hd
      simp only [List.mem_append] at hd
      rcases hd with (hd | hd) | hd
      · exact hw d hd
      · exact hword d hd
      · exact hw' d hd
  | cons w c before hw hc ih =>
    obtain ⟨parts, first, last, rest, hparts⟩ := ih
    refine ⟨w :: parts, first, last, rest, ?_⟩
    intro word hword
    rw [List.append_assoc, List.append_assoc, List.cons_append,
      List.splitOnP_append_cons_of_forall_mem hw c hc, ← List.append_assoc, hparts word hword,
      List.cons_append]

/-- A replacement without separators changes one part. -/
theorem differing_replace {p : α → Bool} {word word' : List α} (hword : ∀ c ∈ word, p c = false)
    (hword' : ∀ c ∈ word', p c = false) (before after : List α) (parts : List (List α)) :
    differing ((before ++ word ++ after).splitOnP p) parts ≤
      differing ((before ++ word' ++ after).splitOnP p) parts + 1 := by
  obtain ⟨_, _, _, _, hsplit⟩ := splitOnP_between (p := p) before after
  rw [hsplit word hword, hsplit word' hword']
  exact differing_le_succ ..

omit [DecidableEq α] in
/-- A replacement without separators leaves the number of parts. -/
theorem length_splitOnP_replace {p : α → Bool} {word word' : List α}
    (hword : ∀ c ∈ word, p c = false) (hword' : ∀ c ∈ word', p c = false)
    (before after : List α) :
    ((before ++ word ++ after).splitOnP p).length =
      ((before ++ word' ++ after).splitOnP p).length := by
  obtain ⟨_, _, _, _, hsplit⟩ := splitOnP_between (p := p) before after
  rw [hsplit word hword, hsplit word' hword', List.length_append, List.length_append,
    List.length_cons, List.length_cons]

end OtNode
