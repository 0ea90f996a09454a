import Mathlib.Data.List.Basic
import Mathlib.Logic.Function.Basic

/-! Threads that take turns on a shared memory.

    The view of a thread is what of the memory belongs to it. As long as the steps of a thread are
    determined by its view, and leave the views of the others as they are, it does in every
    interleaving what it does alone. -/

namespace OtNode.Threads

/-- A step of each thread, and its view. -/
structure System (ι L M V : Type) where
  step : ι → L → M → L × M
  view : ι → M → V

/-- The local states of the threads, and the memory. -/
structure Config (ι L M : Type) where
  locals : ι → L
  memory : M

variable {ι L M V : Type} [DecidableEq ι]

namespace System

variable (S : System ι L M V)

/-- A thread takes a step. -/
def act (c : Config ι L M) (i : ι) : Config ι L M where
  locals := Function.update c.locals i (S.step i (c.locals i) c.memory).1
  memory := (S.step i (c.locals i) c.memory).2

/-- The threads take the steps of an interleaving. -/
def run (c : Config ι L M) (interleaving : List ι) : Config ι L M := interleaving.foldl S.act c

/-- A thread takes `n` steps, and no other takes one. -/
def alone (c : Config ι L M) (i : ι) (n : ℕ) : Config ι L M := S.run c (List.replicate n i)

/-- Every step of an interleaving is taken where `P` holds of the thread. -/
def Throughout (P : ι → L → M → Prop) : Config ι L M → List ι → Prop
  | _, [] => True
  | c, i :: is => P i (c.locals i) c.memory ∧ Throughout P (S.act c i) is

/-- Where `Quiet` holds, a step is determined by the view of its thread, keeps the invariant of the
    thread, and changes no other view. It holds in a memory that the thread owns, which it goes on to
    own. -/
structure Independent (Quiet : ι → L → M → Prop) (Inv : ι → L → V → Prop)
    (Owns : ι → M → Prop) : Prop where
  determined : ∀ {i l m m'}, Quiet i l m → Quiet i l m' → Inv i l (S.view i m) →
    S.view i m = S.view i m' → (S.step i l m).1 = (S.step i l m').1 ∧
      S.view i (S.step i l m).2 = S.view i (S.step i l m').2
  keeps : ∀ {i l m}, Quiet i l m → Inv i l (S.view i m) →
    Inv i (S.step i l m).1 (S.view i (S.step i l m).2)
  frame : ∀ {i j l m}, Quiet i l m → Inv i l (S.view i m) → j ≠ i →
    S.view j (S.step i l m).2 = S.view j m
  quiet : ∀ {i l m}, Owns i m → Quiet i l m
  owns : ∀ {i l m}, Owns i m → Inv i l (S.view i m) → Owns i (S.step i l m).2

/-- A thread sees the same in two configurations, and is in the same local state. -/
def Same (i : ι) (c d : Config ι L M) : Prop :=
  c.locals i = d.locals i ∧ S.view i c.memory = S.view i d.memory

/-- The invariants of all threads hold. -/
def Invariant (Inv : ι → L → V → Prop) (c : Config ι L M) : Prop :=
  ∀ i, Inv i (c.locals i) (S.view i c.memory)

theorem locals_act_self (c : Config ι L M) (i : ι) :
    (S.act c i).locals i = (S.step i (c.locals i) c.memory).1 := Function.update_self ..

theorem locals_act_of_ne (c : Config ι L M) {i j : ι} (h : j ≠ i) :
    (S.act c i).locals j = c.locals j := Function.update_of_ne h ..

variable {S} {Quiet : ι → L → M → Prop} {Inv : ι → L → V → Prop} {Owns : ι → M → Prop}

/-- STEP (others): a quiet step of a thread is the same to every other. -/
theorem Independent.same_act (h : S.Independent Quiet Inv Owns) {c : Config ι L M} {i j : ι}
    (hquiet : Quiet i (c.locals i) c.memory) (hinv : S.Invariant Inv c) (hne : j ≠ i) :
    S.Same j (S.act c i) c :=
  ⟨S.locals_act_of_ne c hne, h.frame hquiet (hinv i) hne⟩

/-- STEP (own): quiet steps of a thread that sees the same lead to the same. -/
theorem Independent.act_same (h : S.Independent Quiet Inv Owns) {c d : Config ι L M} {i : ι}
    (hquiet : Quiet i (c.locals i) c.memory) (hinv : S.Invariant Inv c)
    (howns : Owns i d.memory) (hsame : S.Same i c d) : S.Same i (S.act c i) (S.act d i) := by
  obtain ⟨hlocals, hview⟩ := hsame
  obtain ⟨hlocals', hview'⟩ := h.determined hquiet (h.quiet howns) (hinv i) hview
  refine ⟨?_, ?_⟩
  · rw [locals_act_self, locals_act_self, hlocals', hlocals]
  · rw [act, act, hview', hlocals]

/-- STEP (invariant): a quiet step keeps the invariants of all threads. -/
theorem Independent.invariant_act (h : S.Independent Quiet Inv Owns) {c : Config ι L M} {i : ι}
    (hquiet : Quiet i (c.locals i) c.memory) (hinv : S.Invariant Inv c) :
    S.Invariant Inv (S.act c i) := by
  intro j
  by_cases hj : j = i
  · subst hj
    rw [locals_act_self]
    exact h.keeps hquiet (hinv j)
  · obtain ⟨hlocals, hview⟩ := h.same_act hquiet hinv hj
    rw [hlocals, hview]
    exact hinv j

/-- RUN (invariant): quiet interleavings keep the invariants of all threads. -/
theorem Independent.invariant_run (h : S.Independent Quiet Inv Owns) {c : Config ι L M}
    {interleaving : List ι} (hquiet : S.Throughout Quiet c interleaving)
    (hinv : S.Invariant Inv c) : S.Invariant Inv (S.run c interleaving) := by
  induction interleaving generalizing c with
  | nil => exact hinv
  | cons i is ih =>
    obtain ⟨hstep, hrest⟩ := hquiet
    exact ih hrest (h.invariant_act hstep hinv)

/-- RUN: in a quiet interleaving a thread does what it does alone. -/
theorem Independent.same_run [BEq ι] [LawfulBEq ι] (h : S.Independent Quiet Inv Owns)
    {c d : Config ι L M} {interleaving : List ι} {i : ι}
    (hquiet : S.Throughout Quiet c interleaving) (hinv : S.Invariant Inv c)
    (howns : Owns i d.memory) (hsame : S.Same i c d) :
    S.Same i (S.run c interleaving) (S.alone d i (interleaving.count i)) := by
  induction interleaving generalizing c d with
  | nil => exact hsame
  | cons j is ih =>
    obtain ⟨hstep, hrest⟩ := hquiet
    have hinv' := h.invariant_act hstep hinv
    by_cases hj : j = i
    · subst hj
      have hown : Inv j (d.locals j) (S.view j d.memory) := by
        rw [← hsame.1, ← hsame.2]
        exact hinv j
      have halone : S.alone d j (is.count j + 1) = S.alone (S.act d j) j (is.count j) := rfl
      rw [List.count_cons_self, halone]
      exact ih hrest hinv' (h.owns howns hown) (h.act_same hstep hinv howns hsame)
    · obtain ⟨hlocals, hview⟩ := h.same_act hstep hinv (Ne.symm hj)
      rw [List.count_cons_of_ne hj]
      exact ih hrest hinv' howns ⟨hlocals.trans hsame.1, hview.trans hsame.2⟩

end System

end OtNode.Threads
