import Mathlib.Data.Finset.Image
import Mathlib.Data.Finset.Card
import Mathlib.Data.List.Nodup

/-! Tables: rows with distinct keys.

    A key is inserted, upserted or destroyed. What is counted or read through the keys is a matter of
    the set of keys alone. -/

namespace OtNode

variable {R K : Type}

/-- Rows in the order of their insertion, no two with the same key. -/
structure Table (key : R → K) where
  rows : List R
  nodup : (rows.map key).Nodup

namespace Table

variable {key : R → K}

/-- The keys of the rows. -/
def keys (t : Table key) : List K := t.rows.map key

/-- The table without rows. -/
def empty : Table key := ⟨[], List.nodup_nil⟩

/-- What a conflicting insertion makes of a row. It keeps the key. -/
structure Merge (key : R → K) where
  apply : R → R → R
  keeps : ∀ old new, key (apply old new) = key old

/-- The rows where `p` holds are removed. -/
def destroy (p : R → Bool) (t : Table key) : Table key where
  rows := t.rows.filter fun r => !p r
  nodup := (List.filter_sublist.map key).nodup t.nodup

theorem map_key_update (p : R → Bool) (f : R → R) (keeps : ∀ r, key (f r) = key r)
    (rows : List R) : (rows.map fun r => if p r then f r else r).map key = rows.map key := by
  rw [List.map_map]
  refine List.map_congr_left ?_
  intro r _
  simp only [Function.comp]
  split
  · exact keeps r
  · rfl

/-- The rows where `p` holds are changed, and keep their keys. -/
def update (p : R → Bool) (f : R → R) (keeps : ∀ r, key (f r) = key r) (t : Table key) :
    Table key where
  rows := t.rows.map fun r => if p r then f r else r
  nodup := by
    rw [map_key_update p f keeps]
    exact t.nodup

/-- The number of rows where `p` holds. -/
def count (p : R → Bool) (t : Table key) : ℕ := t.rows.countP p

variable {t t' : Table key} {k : K}

@[simp] theorem keys_empty : (empty : Table key).keys = [] := rfl

theorem nodup_keys (t : Table key) : t.keys.Nodup := t.nodup

@[simp] theorem keys_update {p : R → Bool} {f : R → R} {keeps : ∀ r, key (f r) = key r} :
    (t.update p f keeps).keys = t.keys := map_key_update p f keeps t.rows

/-- STEP (destroy): the keys of the rows that are kept. -/
theorem mem_keys_destroy {q : K → Bool} :
    k ∈ (t.destroy fun r => q (key r)).keys ↔ k ∈ t.keys ∧ q k = false := by
  simp only [keys, destroy, List.mem_map, List.mem_filter]
  constructor
  · rintro ⟨r, ⟨hr, hq⟩, rfl⟩
    exact ⟨⟨r, hr, rfl⟩, by simpa using hq⟩
  · rintro ⟨⟨r, hr, rfl⟩, hq⟩
    exact ⟨r, ⟨hr, by simpa using hq⟩, rfl⟩

variable [DecidableEq K]

/-- A row with a new key is added. The insertion fails when the key is taken. -/
def create (x : R) (t : Table key) : Option (Table key) :=
  if h : key x ∈ t.rows.map key then none
  else some ⟨t.rows ++ [x], by
    rw [List.map_append, List.map_singleton]
    exact t.nodup.append (List.nodup_singleton _) (by simpa using h)⟩

/-- Rows are added together: all of them, or none. -/
def bulkCreate : List R → Table key → Option (Table key)
  | [], t => some t
  | x :: xs, t => (t.create x).bind (bulkCreate xs)

/-- A row is inserted, or merged into the row with its key. -/
def upsert (m : Merge key) (t : Table key) (x : R) : Table key :=
  if h : key x ∈ t.rows.map key then
    t.update (fun r => decide (key r = key x)) (fun r => m.apply r x) fun r => m.keeps r x
  else ⟨t.rows ++ [x], by
    rw [List.map_append, List.map_singleton]
    exact t.nodup.append (List.nodup_singleton _) (by simpa using h)⟩

/-- Rows are upserted one after the other. -/
def upsertAll (m : Merge key) (t : Table key) (xs : List R) : Table key := xs.foldl (upsert m) t

variable {m : Merge key} {x : R} {xs : List R}

/-- STEP (create): a row with a new key goes last. -/
theorem create_eq_some : t.create x = some t' ↔ key x ∉ t.keys ∧ t'.rows = t.rows ++ [x] := by
  rw [create, keys]
  split
  · next h => simp [h]
  · next h =>
    simp only [h, not_false_eq_true, true_and, Option.some.injEq]
    constructor
    · rintro rfl
      rfl
    · intro hrows
      cases t'
      cases hrows
      rfl

/-- RUN (create): rows added together go last, in order, and their keys are new and distinct. -/
theorem rows_bulkCreate (h : t.bulkCreate xs = some t') : t'.rows = t.rows ++ xs := by
  induction xs generalizing t with
  | nil =>
    cases h
    simp
  | cons x xs ih =>
    obtain ⟨u, hu, hrest⟩ := Option.bind_eq_some_iff.mp h
    rw [ih hrest, (create_eq_some.mp hu).2, List.append_assoc, List.singleton_append]

/-- STEP (upsert): the key of the row is there, and the others as before. -/
theorem mem_keys_upsert : k ∈ (t.upsert m x).keys ↔ k = key x ∨ k ∈ t.keys := by
  rw [upsert]
  split
  · next h =>
    rw [keys_update]
    constructor
    · exact Or.inr
    · rintro (rfl | hk)
      · exact h
      · exact hk
  · simp [keys, or_comm]

/-- RUN (upsert): the keys of the rows are there, and the others as before. -/
theorem mem_keys_upsertAll : k ∈ (t.upsertAll m xs).keys ↔ k ∈ xs.map key ∨ k ∈ t.keys := by
  induction xs generalizing t with
  | nil => simp [upsertAll]
  | cons x xs ih =>
    rw [upsertAll, List.foldl_cons, ← upsertAll, ih, mem_keys_upsert, List.map_cons, List.mem_cons]
    tauto

/-- RUN (upsert): rows with new keys that are distinct go last, in order. -/
theorem rows_upsertAll (hnodup : (xs.map key).Nodup) (hnew : ∀ k ∈ xs.map key, k ∉ t.keys) :
    (t.upsertAll m xs).rows = t.rows ++ xs := by
  induction xs generalizing t with
  | nil => simp [upsertAll]
  | cons x xs ih =>
    obtain ⟨hx, hnodup⟩ := List.nodup_cons.mp hnodup
    obtain ⟨hfirst, hrest⟩ := List.forall_mem_cons.mp hnew
    have hrow : (t.upsert m x).rows = t.rows ++ [x] := by
      have hnot : key x ∉ t.rows.map key := hfirst
      rw [upsert, dif_neg hnot]
    have hmore : ∀ k ∈ xs.map key, k ∉ (t.upsert m x).keys := by
      intro k hk hmem
      rcases mem_keys_upsert.mp hmem with rfl | hmem
      · exact hx hk
      · exact hrest k hk hmem
    rw [upsertAll, List.foldl_cons, ← upsertAll, ih hnodup hmore, hrow, List.append_assoc,
      List.singleton_append]

/-- STEP (upsert): where a merge keeps a value of the rows, each row has it from an earlier row with its
    key, or it is the row itself, with a key that is new. -/
theorem mem_rows_upsert {V : Type} {v : R → V} (hkeeps : ∀ old new, v (m.apply old new) = v old)
    {r : R} (hr : r ∈ (t.upsert m x).rows) :
    (∃ old ∈ t.rows, key old = key r ∧ v old = v r) ∨ key r ∉ t.keys ∧ r = x := by
  rw [upsert] at hr
  split at hr
  · obtain ⟨old, hold, rfl⟩ := List.mem_map.mp hr
    refine .inl ⟨old, hold, ?_⟩
    split
    · exact ⟨(m.keeps old x).symm, (hkeeps old x).symm⟩
    · exact ⟨rfl, rfl⟩
  · next hnew =>
    rcases List.mem_append.mp hr with hold | hx
    · exact .inl ⟨r, hold, rfl, rfl⟩
    · obtain rfl := List.mem_singleton.mp hx
      exact .inr ⟨hnew, rfl⟩

/-- RUN (upsert): where a merge keeps a value of the rows, each row has it from an earlier row with its
    key, or from one of the rows, with a key that is new. -/
theorem mem_rows_upsertAll {V : Type} {v : R → V} (hkeeps : ∀ old new, v (m.apply old new) = v old)
    {r : R} (hr : r ∈ (t.upsertAll m xs).rows) :
    (∃ old ∈ t.rows, key old = key r ∧ v old = v r) ∨
      key r ∉ t.keys ∧ ∃ x ∈ xs, key x = key r ∧ v x = v r := by
  induction xs generalizing t with
  | nil => exact .inl ⟨r, hr, rfl, rfl⟩
  | cons x xs ih =>
    rw [upsertAll, List.foldl_cons, ← upsertAll] at hr
    rcases ih hr with ⟨later, hlater, hkey, hv⟩ | ⟨hnew, y, hy, hkey, hv⟩
    · rcases mem_rows_upsert hkeeps hlater with ⟨old, hold, hkey', hv'⟩ | ⟨hnew, rfl⟩
      · exact .inl ⟨old, hold, hkey'.trans hkey, hv'.trans hv⟩
      · exact .inr ⟨hkey ▸ hnew, later, List.mem_cons_self, hkey, hv⟩
    · refine .inr ⟨?_, y, List.mem_cons_of_mem x hy, hkey, hv⟩
      exact fun hmem => hnew (mem_keys_upsert.mpr (.inr hmem))

/-- COUNT: the number of rows is the number of their keys. -/
theorem count_eq_card (q : K → Bool) (t : Table key) :
    t.count (fun r => q (key r)) = (t.keys.toFinset.filter fun k => q k = true).card := by
  have hfilter : (t.keys.toFinset.filter fun k => q k = true) = (t.keys.filter q).toFinset := by
    ext k
    simp
  have hcomp : (fun r => q (key r)) = q ∘ key := rfl
  rw [hfilter, List.toFinset_card_of_nodup (t.nodup_keys.filter q), ← List.countP_eq_length_filter,
    keys, List.countP_map, count, hcomp]

end Table

end OtNode
