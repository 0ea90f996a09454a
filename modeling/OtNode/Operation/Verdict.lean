import OtNode.Operation.Simulation

/-! The verdict of an operation at rest.

    `Settled` is what a publish or get operation owes once every command of it has finished: one
    terminal status, written once, that says whether the minimum was reached, and a failure only
    where the nodes not asked could not have made up for it. An operation whose poll is in order
    settles (`Rel.settled`). -/

namespace OtNode

open Pool Poll

variable {π : Type} [DecidableEq π]

/-- The verdict on an operation is right. -/
structure Settled (ctx : Context π) (minAckResponses : ℕ) (s : Operation π) : Prop where
  once : s.verdicts = [s.operationStatus]
  terminal : s.operationStatus ≠ .inProgress
  completed : s.operationStatus = .completed ↔ minAckResponses ≤ s.completedNumber
  failed : s.operationStatus = .failed →
    s.completedNumber + ((shardNodes ctx).length - s.scheduled.length) < minAckResponses

instance (ctx : Context π) (m : ℕ) (s : Operation π) : Decidable (Settled ctx m s) :=
  decidable_of_iff
    (s.verdicts = [s.operationStatus] ∧ s.operationStatus ≠ .inProgress ∧
      (s.operationStatus = .completed ↔ m ≤ s.completedNumber) ∧
      (s.operationStatus = .failed →
        s.completedNumber + ((shardNodes ctx).length - s.scheduled.length) < m))
    ⟨fun ⟨h₁, h₂, h₃, h₄⟩ => ⟨h₁, h₂, h₃, h₄⟩, fun ⟨h₁, h₂, h₃, h₄⟩ => ⟨h₁, h₂, h₃, h₄⟩⟩

variable {ctx : Context π} {d : CommandData π} {b m : ℕ} {q : State} {s : Operation π}
  {W : Multiset (Handler π × Effect π)}

/-- The nodes scheduled are the first ones of the shard. -/
theorem Rel.scheduled_length (hR : Rel ctx d b m q s W) (hq : Orderly (poll ctx d b m) q) :
    s.scheduled.length = q.asked := by
  rw [hR.scheduled, List.length_take]
  exact min_eq_left hq.bounded

/-- A list of terminal verdicts in which one verdict occurs once and the other never. -/
theorem eq_singleton_of_count {vs : List OperationStatus} {v : OperationStatus}
    (hall : ∀ v' ∈ vs, v' = v) (hone : vs.count v = 1) : vs = [v] := by
  have hreplicate := List.eq_replicate_of_mem hall
  rw [hreplicate, List.count_replicate_self] at hone
  rw [hreplicate, hone]
  rfl

/-- SETTLED: an operation at rest whose poll is in order has the right verdict, if it started. -/
theorem Rel.settled (hR : Rel ctx d b m q s 0) (hq : Sound (poll ctx d b m) q) :
    Settled ctx m s := by
  obtain ⟨hstages, htokens, hanswers, haccepts, hrejects, -, -, hcompleted, hstatus, -, -,
    hwritten⟩ := id hR
  have hlive : q.started = true := by
    by_contra hstart
    simp [hstart] at hstages
  have hasked := hR.scheduled_length hq.orderly
  rw [count_zero] at htokens hanswers haccepts hrejects
  rw [Nat.zero_add] at haccepts hrejects
  rcases hq.settled hlive htokens.symm hanswers.symm with ⟨h₁, h₂, hmet⟩ | ⟨h₁, h₂, hmissed⟩
  · have hnofail : .failed ∉ s.verdicts := List.count_eq_zero.mp (hrejects.trans h₂)
    have hall : ∀ v ∈ s.verdicts, v = .completed := by
      intro v hv
      cases v with
      | completed => rfl
      | inProgress => exact absurd rfl (hwritten _ hv)
      | failed => exact absurd hv hnofail
    have hverdicts := eq_singleton_of_count hall (haccepts.trans h₁)
    rw [hverdicts] at hstatus
    replace hstatus : s.operationStatus = .completed := hstatus
    refine ⟨by rw [hverdicts, hstatus], by simp [hstatus], ?_, by simp [hstatus]⟩
    rw [hcompleted]
    exact ⟨fun _ => hmet, fun _ => hstatus⟩
  · have hnocomplete : .completed ∉ s.verdicts := List.count_eq_zero.mp (haccepts.trans h₁)
    have hall : ∀ v ∈ s.verdicts, v = .failed := by
      intro v hv
      cases v with
      | failed => rfl
      | inProgress => exact absurd rfl (hwritten _ hv)
      | completed => exact absurd hv hnocomplete
    have hverdicts := eq_singleton_of_count hall (hrejects.trans h₂)
    rw [hverdicts] at hstatus
    replace hstatus : s.operationStatus = .failed := hstatus
    have hmissed' : q.succeeded + ((shardNodes ctx).length - q.asked) < m := hmissed
    refine ⟨by rw [hverdicts, hstatus], by simp [hstatus], ?_, ?_⟩
    · rw [hstatus, hcompleted]
      refine ⟨fun h => by simp at h, fun h => ?_⟩
      omega
    · intro _
      rw [hasked, hcompleted]
      exact hmissed'

/-- What an operation whose poll is in order owes: no node is scheduled twice, and at rest it has
    the right verdict. -/
theorem Rel.outcome {c : Config (Operation π) (Handler π) (Effect π)}
    (hR : Rel ctx d b m q c.shared c.work) (hq : Sound (poll ctx d b m) q)
    (hnodup : (shardNodes ctx).Nodup) :
    c.shared.scheduled.Nodup ∧ (c.pool = [] → Settled ctx m c.shared) := by
  refine ⟨?_, ?_⟩
  · rw [hR.scheduled]
    exact hnodup.sublist (List.take_sublist _ _)
  · intro hrest
    rw [Config.work, hrest, workOf_nil] at hR
    exact hR.settled hq

end OtNode
