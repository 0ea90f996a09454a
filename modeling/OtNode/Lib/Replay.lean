import Mathlib.Data.Int.Order.Basic
import Mathlib.Data.Set.Basic
import Mathlib.Tactic.Common

/-! A copy of a register that others write, read once and kept up by replaying the log of the
    writes.

    The copy may be read at any block, ahead of the log or behind it, and writes may be replayed
    that it has already. Between replays it may fall back to an older value. Whatever it goes
    through, once all writes after a settled block were replayed it is current. -/

namespace OtNode.Replay

/-- A register: the writes in its log, with their blocks and places, and what is read of it at a
    block. A value that is read is that of the latest write, if there is one. -/
structure Register (W V P : Type) [LinearOrder P] where
  writes : Set W
  block : W → ℤ
  place : W → P
  value : W → Option V
  read : ℤ → Option V
  block_le : ∀ {w w'}, place w ≤ place w' → block w ≤ block w'
  latest : ∀ {w n v}, w ∈ writes → block w ≤ n →
    (∀ w' ∈ writes, block w' ≤ n → place w' ≤ place w) → read n = some v → value w = some v
  unchanged : ∀ {m n v}, m ≤ n → (∀ w ∈ writes, block w ≤ n → block w ≤ m) → read n = some v →
    read m = some v

namespace Register

variable {W V P : Type} [LinearOrder P] (r : Register W V P)

/-- The copy has the value of the register at the block. -/
def Current (n : ℤ) (x : Option V) : Prop := ∀ v, r.read n = some v → x = some v

/-- The copy is current, or there are writes left that are to be replayed. -/
def Tracks (n settled : ℤ) (x : Option V) : Prop :=
  (∃ w ∈ r.writes, settled < r.block w ∧ r.block w ≤ n) ∨ r.Current n x

/-- A batch was replayed: the copy has the value of its latest write, if there is one. -/
def Replayed (batch : Set W) (x x' : Option V) : Prop :=
  (∀ w ∈ batch, w ∉ r.writes) ∧ x' = x ∨
    ∃ w ∈ batch, w ∈ r.writes ∧ (∀ w' ∈ batch, w' ∈ r.writes → r.place w' ≤ r.place w) ∧
      x' = r.value w

/-- The writes of a batch are those after the settled block, as far as the first block at least, and
    not after the second one. -/
structure Batch (batch : Set W) (settled upTo n : ℤ) : Prop where
  complete : ∀ w ∈ r.writes, settled < r.block w → r.block w ≤ upTo → w ∈ batch
  unsettled : ∀ w ∈ batch, w ∈ r.writes → settled < r.block w
  bounded : ∀ w ∈ batch, w ∈ r.writes → r.block w ≤ n

variable {r} {batch : Set W} {settled upTo m n : ℤ} {x x' : Option V}

/-- READ: a copy that is read at a block after the settled one. -/
theorem tracks_read (hsettled : settled ≤ m) (hmn : m ≤ n) : r.Tracks n settled (r.read m) := by
  by_cases hopen : ∃ w ∈ r.writes, settled < r.block w ∧ r.block w ≤ n
  · exact .inl hopen
  · refine .inr fun v hv => r.unchanged hmn ?_ hv
    intro w hw hle
    by_contra hlt
    exact hopen ⟨w, hw, by omega, hle⟩

/-- REPLAY (all): after a batch with all writes up to the block the copy is current. -/
theorem current_of_replayed (h : r.Tracks n settled x) (hbatch : r.Batch batch settled n n)
    (hreplayed : r.Replayed batch x x') : r.Current n x' := by
  rcases hreplayed with ⟨hnone, rfl⟩ | ⟨w, hmem, hw, hlatest, rfl⟩
  · rcases h with ⟨w, hw, hlt, hle⟩ | hcurrent
    · exact absurd hw (hnone w (hbatch.complete w hw hlt hle))
    · exact hcurrent
  · intro v hv
    refine r.latest hw (hbatch.bounded w hmem hw) ?_ hv
    intro w' hw' hle
    rcases le_or_gt (r.place w') (r.place w) with hplace | hplace
    · exact hplace
    · have hlt := hbatch.unsettled w hmem hw
      have hblock := r.block_le hplace.le
      exact hlatest w' (hbatch.complete w' hw' (by omega) hle) hw'

/-- REPLAY (settled): the batch is not replayed again. -/
theorem tracks_of_settled (h : r.Tracks n settled x) (hbatch : r.Batch batch settled upTo n)
    (hreplayed : r.Replayed batch x x') : r.Tracks n upTo x' := by
  by_cases hopen : ∃ w ∈ r.writes, upTo < r.block w ∧ r.block w ≤ n
  · exact .inl hopen
  · refine .inr (current_of_replayed h ⟨?_, hbatch.unsettled, hbatch.bounded⟩ hreplayed)
    intro w hw hlt hle
    refine hbatch.complete w hw hlt ?_
    by_contra hafter
    exact hopen ⟨w, hw, by omega, hle⟩

/-- What is settled may be taken for less. -/
theorem Tracks.mono (h : r.Tracks n settled x) {settled' : ℤ} (hle : settled' ≤ settled) :
    r.Tracks n settled' x := by
  rcases h with ⟨w, hw, hlt, hn⟩ | hcurrent
  · exact .inl ⟨w, hw, by omega, hn⟩
  · exact .inr hcurrent

end Register

end OtNode.Replay
