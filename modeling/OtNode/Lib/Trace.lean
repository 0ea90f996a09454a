import Mathlib.Data.List.Infix
import Mathlib.Tactic.Common

/-! Runs and what holds all along them.

    A run is a list of steps, and its states are what its prefixes leave. A condition on the steps
    holds along a run if it holds of each step after those before it. An invariant holds always if it
    holds after every prefix. -/

namespace OtNode.Trace

variable {A : Type*}

/-- The condition holds of every step, after the steps before it. -/
def Along (P : List A → A → Prop) (steps : List A) : Prop :=
  ∀ before step, before ++ [step] <+: steps → P before step

/-- The invariant holds after every part of the run. -/
def Always (I : List A → Prop) (steps : List A) : Prop := ∀ before, before <+: steps → I before

variable {P Q : List A → A → Prop} {I J : List A → Prop} {steps : List A} {step : A}

theorem along_nil : Along P [] := by
  intro before step hbefore
  exact absurd (List.prefix_nil.mp hbefore)
    (List.append_ne_nil_of_right_ne_nil before (List.cons_ne_nil step []))

theorem along_cons : Along P (step :: steps) ↔
    P [] step ∧ Along (fun before => P (step :: before)) steps := by
  constructor
  · intro h
    refine ⟨h [] step (List.prefix_append [step] steps), ?_⟩
    intro before next hbefore
    exact h (step :: before) next (List.cons_prefix_cons.mpr ⟨rfl, hbefore⟩)
  · rintro ⟨hfirst, hrest⟩ before next hbefore
    cases before with
    | nil =>
      obtain ⟨rfl, -⟩ := List.cons_prefix_cons.mp hbefore
      exact hfirst
    | cons first before =>
      obtain ⟨rfl, htail⟩ := List.cons_prefix_cons.mp hbefore
      exact hrest before next htail

theorem along_concat : Along P (steps ++ [step]) ↔ Along P steps ∧ P steps step := by
  constructor
  · intro h
    refine ⟨?_, h steps step (List.prefix_refl _)⟩
    intro before next hbefore
    exact h before next (hbefore.trans (List.prefix_append steps [step]))
  · rintro ⟨hearlier, hlast⟩ before next hbefore
    rcases List.prefix_concat_iff.mp hbefore with heq | hprefix
    · obtain ⟨rfl, hnext⟩ := List.append_inj' heq rfl
      obtain rfl := List.singleton_injective hnext
      exact hlast
    · exact hearlier before next hprefix

theorem always_nil : Always I [] ↔ I [] := by
  constructor
  · intro h
    exact h [] (List.prefix_refl [])
  · intro h before hbefore
    rwa [List.prefix_nil.mp hbefore]

theorem always_concat : Always I (steps ++ [step]) ↔ Always I steps ∧ I (steps ++ [step]) := by
  constructor
  · intro h
    refine ⟨?_, h _ (List.prefix_refl _)⟩
    intro before hbefore
    exact h before (hbefore.trans (List.prefix_append steps [step]))
  · rintro ⟨hearlier, hlast⟩ before hbefore
    rcases List.prefix_concat_iff.mp hbefore with rfl | hprefix
    · exact hlast
    · exact hearlier before hprefix

theorem Along.and (h : Along P steps) (h' : Along Q steps) :
    Along (fun before step => P before step ∧ Q before step) steps :=
  fun before step hbefore => ⟨h before step hbefore, h' before step hbefore⟩

theorem Always.and (h : Always I steps) (h' : Always J steps) :
    Always (fun before => I before ∧ J before) steps :=
  fun before hbefore => ⟨h before hbefore, h' before hbefore⟩

theorem Along.mono (h : Along P steps) (himp : ∀ before step, P before step → Q before step) :
    Along Q steps := fun before step hbefore => himp before step (h before step hbefore)

theorem along_of_forall_mem {C : A → Prop} (h : ∀ step ∈ steps, C step) :
    Along (fun _ step => C step) steps := by
  intro before step hbefore
  exact h step (hbefore.subset (List.mem_append_right before List.mem_cons_self))

theorem Along.imp (h : Along P steps) (hinv : Always I steps)
    (himp : ∀ before step, I before → P before step → Q before step) : Along Q steps := by
  intro before step hbefore
  exact himp before step (hinv before ((List.prefix_append _ _).trans hbefore))
    (h before step hbefore)

/-- Conditions that agree wherever an invariant holds and a step can be taken. -/
theorem Along.iff {R : List A → A → Prop} (hsteps : Along R steps) (hinv : Always I steps)
    (h : ∀ before step, I before → R before step → (P before step ↔ Q before step)) :
    Along P steps ↔ Along Q steps := by
  refine forall_congr' fun before => forall_congr' fun step => forall_congr' fun hbefore => ?_
  exact h before step (hinv before ((List.prefix_append _ _).trans hbefore))
    (hsteps before step hbefore)

/-- RUN (invariant): what holds at first, and after every step of which the condition holds, holds
    always. -/
theorem Along.always (h : Along P steps) (hnil : I [])
    (hstep : ∀ before step, I before → P before step → I (before ++ [step])) : Always I steps := by
  induction steps using List.reverseRecOn with
  | nil => exact always_nil.mpr hnil
  | append_singleton steps step ih =>
    obtain ⟨hearlier, hlast⟩ := along_concat.mp h
    have hinv := ih hearlier
    exact always_concat.mpr ⟨hinv, hstep steps step (hinv steps (List.prefix_refl _)) hlast⟩

/-- RUN (exact condition): where a step that can be taken keeps the invariant exactly if the condition
    holds of it, the invariant holds always exactly if the condition holds along the run. -/
theorem Along.always_iff (hsteps : Along Q steps) (hnil : I [])
    (hstep : ∀ before step, Q before step → I before → (I (before ++ [step]) ↔ P before step)) :
    Always I steps ↔ Along P steps := by
  constructor
  · intro halways before step hbefore
    exact (hstep before step (hsteps before step hbefore)
      (halways before ((List.prefix_append _ _).trans hbefore))).mp (halways _ hbefore)
  · intro halong
    refine (hsteps.and halong).always hnil ?_
    rintro before step hinv ⟨hcan, hholds⟩
    exact (hstep before step hcan hinv).mpr hholds

/-! ### States -/

section States

variable {S : Type*} {act : S → A → S} {s : S} {C D : S → A → Prop} {K : S → Prop}

/-- RUN (states): what holds of the first state, and is kept by every step of which the condition
    holds, holds of all states. -/
theorem Along.always_foldl (h : Along (fun before => C (before.foldl act s)) steps) (hfirst : K s)
    (hstep : ∀ s step, K s → C s step → K (act s step)) :
    Always (fun before => K (before.foldl act s)) steps := by
  refine h.always hfirst ?_
  intro before step hstate hcondition
  rw [List.foldl_append]
  exact hstep (before.foldl act s) step hstate hcondition

/-- RUN (exact condition on states): where a step that can be taken keeps what holds of a state
    exactly if the condition holds of it, it holds of all states exactly if the condition holds along
    the run. -/
theorem Along.always_foldl_iff (h : Along (fun before => D (before.foldl act s)) steps) (hfirst : K s)
    (hstep : ∀ s step, D s step → K s → (K (act s step) ↔ C s step)) :
    Always (fun before => K (before.foldl act s)) steps ↔
      Along (fun before => C (before.foldl act s)) steps := by
  refine h.always_iff hfirst ?_
  intro before step hcan hstate
  rw [List.foldl_append]
  exact hstep (before.foldl act s) step hcan hstate

end States

end OtNode.Trace
