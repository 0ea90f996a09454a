import OtNode.Operation.Verdict

/-! Get: the verdict and the batches.

    The service decides when as many nodes responded as were found, or at a multiple of the batch
    size. This node counts as found if it is in the shard but never responds over the network, so
    there the last batch is decided on only if it is a full one. -/

namespace OtNode

open Pool Poll

variable {π : Type} [DecidableEq π] {ctx : Context π} {d : CommandData π} {b m : ℕ} {q : State}

/-- Every batch of the shard is decided on: this node is not counted, or the batches are full, or
    the first one already puts the minimum out of reach. -/
def EveryBatchDecided (ctx : Context π) (batchSize minAckResponses : ℕ) : Prop :=
  nodePartOfShard ctx = false ∨
    shardNodes ctx ≠ [] ∧ (batchSize ∣ (shardNodes ctx).length ∨
      minAckResponses = (shardNodes ctx).length + 1 ∧ batchSize ≤ (shardNodes ctx).length)

instance (ctx : Context π) (batchSize minAckResponses : ℕ) :
    Decidable (EveryBatchDecided ctx batchSize minAckResponses) :=
  inferInstanceAs (Decidable (_ ∨ _))

/-- A get has no response of its own to start with. -/
theorem get_localResponses (hop : ctx.operationName = .get) (d : CommandData π) (m : ℕ) :
    localResponses ctx d m = 0 := by
  simp [localResponses, storesLocally, hop]

theorem get_credit (hop : ctx.operationName = .get) : (poll ctx d b m).credit = 0 := by
  simp [poll, localSuccesses, get_localResponses hop]

/-- The service's test for the end of a batch holds of the last answer outstanding and of no
    other. -/
theorem get_batch_end (hop : ctx.operationName = .get) (hb : 1 ≤ b)
    (hcond : EveryBatchDecided ctx b m) (hq : Waiting (poll ctx d b m) q) :
    (numberOfFoundNodes ctx = q.answered + 1 ∨ isMultipleOf (q.answered + 1) b = true) ↔
      q.inFlight = 1 := by
  have hcounted := hq.counted
  have hbusy := hq.busy
  obtain ⟨start, hstart, -, hasked, hwithin⟩ := hq.round
  have hbounded : q.asked ≤ (shardNodes ctx).length := hasked ▸ min_le_right _ _
  rw [isMultipleOf_iff hb]
  constructor
  · rintro (hall | hdvd)
    · have hfound : (shardNodes ctx).length ≤ numberOfFoundNodes ctx := Nat.le_add_right _ _
      omega
    · by_contra hmany
      exact hq.not_last hmany hdvd
  · intro hlast
    have hend : q.answered + 1 = q.asked := by omega
    rcases Nat.lt_or_eq_of_le hbounded with hmore | hall
    · exact Or.inr (hq.last hlast hmore)
    · rcases hcond with hself | ⟨hshard, hdvd | ⟨hquorum, hfull⟩⟩
      · left
        simp [numberOfFoundNodes, hself]
        omega
      · exact Or.inr (hend ▸ hall ▸ hdvd)
      · -- more than this shard can answer is asked for, so the first batch is the only one
        have hzero : start = 0 := by
          by_contra hlater
          have hreach := hwithin (Nat.pos_of_ne_zero hlater)
          rw [get_credit hop] at hreach
          simp only [poll] at hreach
          omega
        have hbatch : (poll ctx d b m).batch = b := rfl
        have htotal : (poll ctx d b m).total = (shardNodes ctx).length := rfl
        have hsingle : q.answered + 1 = b := by omega
        exact Or.inr (hsingle ▸ dvd_rfl)

/-- ALIGNED: the service completes with the response that meets the minimum, settles the batch with
    its last answer, and decides nothing else. -/
theorem get_aligned (hop : ctx.operationName = .get) (hb : 1 ≤ b)
    (hcond : EveryBatchDecided ctx b m) (hq : Sound (poll ctx d b m) q) (positive : Bool)
    (hbusy : 0 < q.inFlight) : (poll ctx d b m).Aligned q positive := by
  have heager : (poll ctx d b m).eager = true := by simp [poll, hop]
  have hdecision : (poll ctx d b m).decision q positive =
      getDecision b m (numberOfFoundNodes ctx) ((shardNodes ctx).length - q.asked) positive
        (q.answered + 1) (q.succeeded + positive.toNat) := by
    simp [Protocol.decision, poll, decision, hop, get_localResponses hop]
  rw [Protocol.Aligned, hdecision, getDecision]
  rcases hq.busy hbusy with hw | ⟨-, ha⟩
  · have hshort : q.succeeded < m := hw.short heager
    have hend := get_batch_end hop hb hcond hw
    have hundecided : ¬0 < q.accepted := by simp [hw.undecided]
    by_cases hmet : m ≤ q.succeeded + positive.toNat
    · have hpositive : positive = true := by
        by_contra hnot
        simp [Bool.not_eq_true _ ▸ hnot] at hmet
        omega
      subst hpositive
      have hequal : q.succeeded + true.toNat = m := by
        simp only [Bool.toNat_true] at hmet ⊢
        omega
      rw [if_pos ⟨rfl, hequal⟩, if_neg hundecided, if_pos ⟨heager, hmet⟩]
    · have hunmet : q.succeeded + positive.toNat < m := Nat.lt_of_not_le hmet
      have hquorum : ¬((poll ctx d b m).eager = true ∧
          (poll ctx d b m).quorum ≤ q.succeeded + positive.toNat) := fun h => hmet h.2
      rw [if_neg (fun h => (Nat.ne_of_lt hunmet) h.2), if_neg hundecided, if_neg hquorum]
      by_cases hlast : q.inFlight = 1
      · rw [if_pos ⟨hunmet, hend.mpr hlast⟩, if_pos hlast, Protocol.settle]
        have hbounded : q.asked ≤ (shardNodes ctx).length := hq.orderly.bounded
        have htotal : (poll ctx d b m).total = (shardNodes ctx).length := rfl
        have hminimum : (poll ctx d b m).quorum = m := rfl
        rw [htotal, hminimum]
        rcases Nat.lt_or_eq_of_le hbounded with hmore | hall
        · simp [Nat.sub_pos_of_lt hmore, Nat.ne_of_lt hmore]
        · simp [hall, hmet]
      · rw [if_neg (fun h => hlast (hend.mp h.2)), if_neg hlast]
  · have hmet : m ≤ q.succeeded := ha.met
    rw [if_pos (by simp [ha.verdict] : 0 < q.accepted)]
    cases positive with
    | true =>
      have hpast : ¬q.succeeded + true.toNat = m := by
        simp only [Bool.toNat_true]
        omega
      have hover : ¬q.succeeded + true.toNat < m := by omega
      rw [if_neg (fun h => hpast h.2), if_neg (fun h => hover h.1)]
    | false =>
      have hover : ¬q.succeeded + false.toNat < m := by omega
      rw [if_neg (fun h => Bool.false_ne_true h.1), if_neg (fun h => hover h.1)]

/-- GET VERDICT: where every batch is decided on, no node is asked twice and every get at rest has
    exactly one verdict, the right one. -/
theorem get_settled (hop : ctx.operationName = .get)
    (hb : 1 ≤ GetService.getBatchSize d.batchSize) (hnodup : (shardNodes ctx).Nodup)
    (hpos : 1 ≤ GetService.getMinAckResponses d.minimumNumberOfNodeReplications)
    (hm : GetService.getMinAckResponses d.minimumNumberOfNodeReplications ≤
      numberOfFoundNodes ctx)
    (hcond : EveryBatchDecided ctx (GetService.getBatchSize d.batchSize)
      (GetService.getMinAckResponses d.minimumNumberOfNodeReplications))
    {c : Config (Operation π) (Handler π) (Effect π)} (hrun : SoundRun ctx d c) :
    c.shared.scheduled.Nodup ∧ (c.pool = [] →
      Settled ctx (GetService.getMinAckResponses d.minimumNumberOfNodeReplications)
        c.shared) := by
  have hshard : 0 < (shardNodes ctx).length := by
    rcases hcond with hself | ⟨hshard, -⟩
    · simp only [numberOfFoundNodes, hself] at hm
      simp at hm
      omega
    · exact List.length_pos_iff.mpr hshard
  have hfirst : (poll ctx d (GetService.getBatchSize d.batchSize)
      (GetService.getMinAckResponses d.minimumNumberOfNodeReplications)).first = .dispatch := by
    simp [poll, Nat.not_lt.mpr hm, storesLocally, hop]
  obtain ⟨q, hq, hR⟩ := hrun.follows (Polls.get hop d) (Sound.fresh rfl) (fun q hq => hq.orderly)
    (fun q q' hq hstep => hq.step hb (Or.inr ⟨hfirst, hshard⟩)
      (fun _ => (get_credit hop).trans_lt hpos)
      (fun positive hbusy _ => get_aligned hop hb hcond hq positive hbusy) hstep)
  exact hR.outcome hq hnodup

/-- Two nodes refuse and the third, of the next batch, has the assertion. -/
theorem get_settled_second_batch :
    ∃ c, SoundRun ⟨.get, 0, [1, 2, 3]⟩ (.initial "id" "root" false (some 1) none) c ∧
      c.pool = [] ∧ c.shared.batches = [[1, 2], [3]] ∧ Settled ⟨.get, 0, [1, 2, 3]⟩ 1 c.shared := by
  have hexists : ∃ c, SoundRun ⟨.get, 0, [1, 2, 3]⟩
      (.initial "id" "root" false (some 1) none) c ∧
      c.pool = [] ∧ c.shared.batches = [[1, 2], [3]] :=
    Machine.Steps.of_schedule
      (List.replicate 17 (0, Choice.ok) ++ (0, Choice.reply .nack) :: List.replicate 4 (0, .ok) ++
        (0, Choice.reply .nack) :: List.replicate 9 (0, .ok) ++ (0, Choice.reply (.ack true)) ::
        List.replicate 7 (0, .ok))
      (by decide +kernel)
  obtain ⟨c, hrun, hrest, hbatches⟩ := hexists
  have hsettled := get_settled rfl (by decide) (by decide) (by decide) (by decide) (by decide) hrun
  exact ⟨c, hrun, hrest, hbatches, hsettled.2 hrest⟩

/-- The only other node refuses: this node counts as found, so its refusal ends no batch. -/
theorem get_unsettled_half_batch :
    ∃ c, SoundRun ⟨.get, 0, [1, 0]⟩ (.initial "id" "root" false (some 1) none) c ∧
      c.pool = [] ∧ c.shared.operationStatus = .inProgress ∧
      ¬Settled ⟨.get, 0, [1, 0]⟩ 1 c.shared :=
  Machine.Steps.of_schedule
    (List.replicate 17 (0, Choice.ok) ++ (0, Choice.reply .nack) :: List.replicate 2 (0, .ok))
    (by decide +kernel)

end OtNode
