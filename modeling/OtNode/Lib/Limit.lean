import Mathlib.Data.List.Count
import Mathlib.Data.PNat.Basic

/-! A limit that is looked at between batches.

    A list is worked off in batches of one size, and what is counted in them is compared with the
    limit after each batch. So the last batch that is begun may carry the count past the limit. -/

namespace OtNode.Limit

variable {α : Type*} (size : ℕ+) (limit : ℕ) (p : α → Bool)

/-- The entries of the batches that are worked off, from a count on. -/
def processed (count : ℕ) (l : List α) : List α :=
  if l = [] then []
  else if limit ≤ count + (l.take size).countP p then l.take size
  else l.take size ++ processed (count + (l.take size).countP p) (l.drop size)
termination_by l.length
decreasing_by
  rename_i hne _
  rw [List.length_drop]
  exact Nat.sub_lt (List.length_pos_iff.mpr hne) size.pos

/-- What is counted in the first batches. -/
def counted (l : List α) (batches : ℕ) : ℕ := (l.take (batches * size)).countP p

variable {size limit p}

@[simp] theorem processed_nil (count : ℕ) : processed size limit p count [] = [] := by
  rw [processed, if_pos rfl]

theorem processed_of_le {count : ℕ} {l : List α} (h : limit ≤ count + (l.take size).countP p) :
    processed size limit p count l = l.take size := by
  by_cases hne : l = []
  · rw [hne, processed_nil, List.take_nil]
  · rw [processed, if_neg hne, if_pos h]

theorem processed_of_lt {count : ℕ} {l : List α} (h : ¬ limit ≤ count + (l.take size).countP p) :
    processed size limit p count l =
      l.take size ++ processed size limit p (count + (l.take size).countP p) (l.drop size) := by
  by_cases hne : l = []
  · rw [hne, processed_nil, List.take_nil, List.drop_nil, processed_nil]
    rfl
  · rw [processed, if_neg hne, if_neg h]

theorem take_succ_mul (l : List α) (k : ℕ) :
    l.take ((k + 1) * size) = l.take size ++ (l.drop size).take (k * size) := by
  rw [Nat.succ_mul, Nat.add_comm, List.take_add]

theorem counted_zero (l : List α) : counted size p l 0 = 0 := by
  rw [counted, Nat.zero_mul, List.take_zero, List.countP_nil]

theorem counted_succ (l : List α) (k : ℕ) :
    counted size p l (k + 1) = (l.take size).countP p + counted size p (l.drop size) k := by
  rw [counted, take_succ_mul, List.countP_append, counted]

theorem counted_mono (l : List α) {j k : ℕ} (h : j ≤ k) :
    counted size p l j ≤ counted size p l k :=
  (List.take_prefix_take_left (Nat.mul_le_mul_right size h)).sublist.countP_le

theorem counted_le (l : List α) (k : ℕ) : counted size p l k ≤ l.countP p :=
  (List.take_sublist _ _).countP_le

theorem counted_of_length_le {l : List α} {k : ℕ} (h : l.length ≤ k * size) :
    counted size p l k = l.countP p := by
  rw [counted, List.take_of_length_le h]

/-- RUN (limit): whole batches are worked off. Before each of them the count is below the limit, and
    behind them there is nothing left, or the limit is reached. -/
theorem exists_processed {count : ℕ} (l : List α) (hcount : count < limit) :
    ∃ k, processed size limit p count l = l.take (k * size) ∧
      (∀ j < k, count + counted size p l j < limit) ∧
        (l.length ≤ k * size ∨ limit ≤ count + counted size p l k) := by
  fun_induction processed size limit p count l with
  | case1 count =>
    refine ⟨0, (List.take_nil).symm, ?_, .inl (Nat.zero_le _)⟩
    intro j hj
    exact absurd hj (Nat.not_lt_zero j)
  | case2 count l hne hreached =>
    refine ⟨1, by rw [Nat.one_mul], ?_, ?_⟩
    · intro j hj
      obtain rfl := Nat.lt_one_iff.mp hj
      rw [counted_zero]
      exact hcount
    · rw [counted, Nat.one_mul]
      exact .inr hreached
  | case3 count l hne hbelow ih =>
    obtain ⟨k, hk, hall, hend⟩ := ih (Nat.lt_of_not_le hbelow)
    refine ⟨k + 1, ?_, ?_, ?_⟩
    · rw [hk, take_succ_mul]
    · intro j hj
      cases j with
      | zero =>
        rw [counted_zero]
        exact hcount
      | succ j =>
        rw [counted_succ, ← Nat.add_assoc]
        exact hall j (Nat.lt_of_succ_lt_succ hj)
    · rw [counted_succ, ← Nat.add_assoc]
      refine hend.imp_left ?_
      intro hlength
      rw [List.length_drop] at hlength
      rw [Nat.succ_mul]
      omega

end OtNode.Limit
