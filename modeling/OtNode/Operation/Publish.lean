import OtNode.Operation.Verdict

/-! Publish: the verdict and the batches.

    With the local store's response counted (V1), the service's test for the end of a batch is right,
    but `numberOfFoundNodes` counts that response only if this node is in the shard. Without it (V0)
    the test is off by one. -/

namespace OtNode

open Pool Poll

variable {π : Type} {b m : ℕ}

/-- Whether the service decides anything on the next response, given the counts it will read. -/
def PublishService.decidesAt (data : MessageData π) (totalResponses completedNumber : ℕ) : Bool :=
  totalResponses == data.numberOfFoundNodes ||
    (isMultipleOf (totalResponses - 1) data.batchSize &&
      (decide (0 < data.leftoverNodes.length) ||
        decide (completedNumber + data.leftoverNodes.length < data.minAckResponses)))

/-- What the service decides where it decides anything is not to wait. -/
theorem publishDecision_ne_wait {data : MessageData π} {total c : ℕ} :
    publishDecision data.batchSize data.minAckResponses data.numberOfFoundNodes
      data.leftoverNodes.length total c ≠ .wait ↔
    PublishService.decidesAt data total c = true := by
  rw [publishDecision, PublishService.decidesAt]
  by_cases hall : total = data.numberOfFoundNodes
  · simp [hall]
  · by_cases hfull : isMultipleOf (total - 1) data.batchSize = true
    · by_cases hreach : data.minAckResponses ≤ c + data.leftoverNodes.length
      · by_cases hmore : 0 < data.leftoverNodes.length
        · simp [hall, hfull, hreach, hmore]
        · simp [hall, hfull, hreach, hmore, Nat.not_lt.mpr hreach]
      · simp [hall, hfull, hreach, Nat.lt_of_not_le hreach]
    · simp [hall, hfull]

variable [DecidableEq π] {ctx : Context π} {d : CommandData π} {q : State}

/-! ### V1 with this node in the shard -/

theorem numberOfFoundNodes_eq (ctx : Context π) (hself : nodePartOfShard ctx = true) :
    numberOfFoundNodes ctx = (shardNodes ctx).length + 1 := by
  simp [numberOfFoundNodes, hself]

/-- With the local response counted, the service settles the poll at the end of a batch. -/
theorem publishDecision_settle {n asked c : ℕ} (hb : 1 ≤ b) (hasked : asked ≤ n)
    (hdvd : asked < n → b ∣ asked) :
    publishDecision b m (n + 1) (n - asked) (asked + 1) c =
      if asked = n then .close (decide (m ≤ c))
      else if m ≤ c + (n - asked) then .dispatch else .close false := by
  rw [publishDecision]
  rcases Nat.lt_or_eq_of_le hasked with hmore | rfl
  · have hfull : isMultipleOf (asked + 1 - 1) b = true := (isMultipleOf_iff hb).mpr (hdvd hmore)
    have hleft : 0 < n - asked := by omega
    rw [if_neg (by omega), if_neg (Nat.ne_of_lt hmore)]
    by_cases hreach : m ≤ c + (n - asked)
    · rw [if_pos ⟨hleft, hreach, hfull⟩, if_pos hreach]
    · rw [if_neg (fun h => hreach h.2.1), if_pos ⟨hreach, hfull⟩, if_neg hreach]
  · rw [if_pos rfl, if_pos rfl]

/-- Within a batch, the service waits. -/
theorem publishDecision_wait {found leftover total c : ℕ} (htotal : total ≠ found)
    (hpart : isMultipleOf (total - 1) b = false) :
    publishDecision b m found leftover total c = .wait := by
  rw [publishDecision, if_neg htotal, if_neg (by simp [hpart]), if_neg (by simp [hpart])]

/-- FIRST: what the service decides on the local response settles a poll that asked no one. -/
theorem publish_first (hop : ctx.operationName = .publish) (hV1 : d.isOperationV0 = false)
    (hself : nodePartOfShard ctx = true) (hb : 1 ≤ b) (hm : m ≤ numberOfFoundNodes ctx) :
    (poll ctx d b m).first = (poll ctx d b m).settle (poll ctx d b m).credit 0 := by
  have hstores : storesLocally ctx d = true := by simp [storesLocally, hop, hV1]
  have hsettle : (poll ctx d b m).first = publishDecision b m ((shardNodes ctx).length + 1)
      ((shardNodes ctx).length - 0) (0 + 1) (poll ctx d b m).credit := by
    rw [← numberOfFoundNodes_eq ctx hself]
    simp [poll, Nat.not_lt.mpr hm, hstores, decision, hop]
  rw [hsettle, publishDecision_settle hb (Nat.zero_le _) fun _ => Nat.dvd_zero _]
  rfl

/-- ALIGNED: the service decides with the last answer of a batch, and decides right. -/
theorem publish_aligned (hop : ctx.operationName = .publish) (hV1 : d.isOperationV0 = false)
    (hself : nodePartOfShard ctx = true) (hb : 1 ≤ b) (hm : m ≤ numberOfFoundNodes ctx)
    (hq : Sound (poll ctx d b m) q) (positive : Bool) (hbusy : 0 < q.inFlight) :
    (poll ctx d b m).Aligned q positive := by
  have heager : (poll ctx d b m).eager = false := by simp [poll, hop]
  have hone : localResponses ctx d m = 1 := by simp [localResponses, storesLocally, hop, hV1, hm]
  obtain hw | ⟨he, -⟩ := hq.busy hbusy
  swap
  · simp [heager] at he
  have hcounted := hw.counted
  have hbounded : q.asked ≤ (shardNodes ctx).length := hq.orderly.bounded
  have hdecision : (poll ctx d b m).decision q positive =
      publishDecision b m ((shardNodes ctx).length + 1) ((shardNodes ctx).length - q.asked)
        (q.answered + 1 + 1) (q.succeeded + positive.toNat) := by
    rw [← numberOfFoundNodes_eq ctx hself]
    simp [Protocol.decision, poll, decision, hop, hone]
  rw [Protocol.Aligned, if_neg (by simp [hw.undecided]), if_neg (by simp [heager]), hdecision]
  split
  · next hlast =>
    have hend : q.answered + 1 = q.asked := by omega
    rw [hend, publishDecision_settle hb hbounded fun hmore => hend ▸ hw.last hlast hmore]
    rfl
  · next hmany =>
    refine publishDecision_wait (by omega) ?_
    rw [← Bool.not_eq_true, isMultipleOf_iff hb]
    exact hw.not_last hmany

/-- V1 VERDICT: with this node in the shard and enough nodes found, every publish at rest has
    exactly one verdict, and it is the right one. -/
theorem publish_settled (hop : ctx.operationName = .publish) (hV1 : d.isOperationV0 = false)
    (hself : nodePartOfShard ctx = true) (hb : 1 ≤ PublishService.getBatchSize d.batchSize)
    (hm : PublishService.getMinAckResponses d.minimumNumberOfNodeReplications ≤
      numberOfFoundNodes ctx)
    {c : Config (Operation π) (Handler π) (Effect π)} (hrun : SoundRun ctx d c)
    (hrest : c.pool = []) :
    Settled ctx (PublishService.getMinAckResponses d.minimumNumberOfNodeReplications)
      c.shared := by
  obtain ⟨q, hq, hR⟩ := hrun.follows (Polls.publish hop d) (Sound.fresh rfl)
    (fun q hq => hq.orderly)
    (fun q q' hq hstep => hq.step hb (Or.inl (publish_first hop hV1 hself hb hm))
      (fun he => by simp [poll, hop] at he)
      (fun positive hbusy _ => publish_aligned hop hV1 hself hb hm hq positive hbusy) hstep)
  rw [Config.work, hrest, workOf_nil] at hR
  exact hR.settled hq

/-- This node stores locally and the other node accepts: a publish at rest, settled. -/
theorem publish_settled_two_nodes :
    ∃ c, SoundRun ⟨.publish, 0, [0, 1]⟩ (.initial "id" "root" false (some 2) (some 1)) c ∧
      c.pool = [] ∧ Settled ⟨.publish, 0, [0, 1]⟩ 2 c.shared := by
  have hexists : ∃ c, SoundRun ⟨.publish, 0, [0, 1]⟩
      (.initial "id" "root" false (some 2) (some 1)) c ∧ c.pool = [] :=
    Machine.Steps.of_schedule
      (List.replicate 27 (0, Choice.ok) ++ (0, Choice.reply (.ack true)) ::
        List.replicate 9 (0, .ok))
      (by decide +kernel)
  obtain ⟨c, hrun, hrest⟩ := hexists
  exact ⟨c, hrun, hrest, publish_settled rfl rfl rfl (by decide) (by decide) hrun hrest⟩

/-- This node is not in the shard and the other node is never asked: its own failed response makes
    the count of responses reach the number of nodes found. -/
theorem publish_unsettled_outside_shard :
    ∃ c, SoundRun ⟨.publish, 0, [1]⟩ (.initial "id" "root" false (some 1) (some 1)) c ∧
      c.pool = [] ∧ ¬Settled ⟨.publish, 0, [1]⟩ 1 c.shared :=
  Machine.Steps.of_schedule (List.replicate 22 (0, Choice.ok)) (by decide +kernel)

/-! ### V1 in any shard -/

/-- A dispatch is decided at a multiple of the batch size only. -/
theorem publishDecision_dispatch {found leftover total c : ℕ} (hb : 1 ≤ b)
    (h : publishDecision b m found leftover total c = .dispatch) : b ∣ total - 1 := by
  rw [publishDecision] at h
  split at h
  · cases h
  · split at h
    · next hfull => exact (isMultipleOf_iff hb).mp hfull.2.2
    · split at h <;> cases h

/-- BATCHES: the local response is one of those counted, so a batch is answered in full before the
    next one is scheduled; a publish refused by the find-shard command schedules none. -/
theorem publish_spaced (hop : ctx.operationName = .publish) (hV1 : d.isOperationV0 = false)
    (hb : 1 ≤ b) (hq : Spaced (poll ctx d b m) q)
    (hnone : numberOfFoundNodes ctx < m → q.due = 0 ∧ q.inFlight = 0) {guard : State → Bool → Prop}
    {q' : State} (hstep : Step (poll ctx d b m) guard q q') :
    Spaced (poll ctx d b m) q' ∧ (numberOfFoundNodes ctx < m → q'.due = 0 ∧ q'.inFlight = 0) := by
  refine ⟨hq.step ?_ (by simp [poll, hop]) hstep, ?_⟩
  · intro positive hbusy hdispatch
    have hm : m ≤ numberOfFoundNodes ctx := by
      by_contra hfew
      have hidle := (hnone (Nat.lt_of_not_le hfew)).2
      omega
    have hone : localResponses ctx d m = 1 := by simp [localResponses, storesLocally, hop, hV1, hm]
    simp only [Protocol.decision, poll, decision, hop, hone] at hdispatch
    exact publishDecision_dispatch hb hdispatch
  · intro hfew
    obtain ⟨hdue, hidle⟩ := hnone hfew
    cases hstep with
    | start fresh => simp [Protocol.start, poll, hfew, State.apply, hdue, hidle]
    | send due => omega
    | answer _ busy _ => omega
    | skip busy _ _ => omega

/-- AT MOST ONCE: throughout every V1 publish the nodes scheduled are the first of the shard, in
    order and each of them once; the batches have no node in common. -/
theorem publish_at_most_once (hop : ctx.operationName = .publish) (hV1 : d.isOperationV0 = false)
    (hb : 1 ≤ PublishService.getBatchSize d.batchSize) (hnodup : (shardNodes ctx).Nodup)
    {c : Config (Operation π) (Handler π) (Effect π)} (hrun : SoundRun ctx d c) :
    c.shared.scheduled <+: shardNodes ctx ∧ c.shared.scheduled.Nodup ∧
      c.shared.batches.Pairwise List.Disjoint := by
  obtain ⟨q, -, hR⟩ := hrun.follows (Polls.publish hop d)
    (I := fun q => Spaced (poll ctx d (PublishService.getBatchSize d.batchSize)
      (PublishService.getMinAckResponses d.minimumNumberOfNodeReplications)) q ∧
      (numberOfFoundNodes ctx < PublishService.getMinAckResponses
        d.minimumNumberOfNodeReplications → q.due = 0 ∧ q.inFlight = 0))
    ⟨Spaced.initial _, fun _ => ⟨rfl, rfl⟩⟩ (fun q hq => hq.1.orderly)
    (fun q q' hq hstep => publish_spaced hop hV1 hb hq.1 hq.2 hstep)
  have hfirsts : c.shared.scheduled <+: shardNodes ctx := hR.scheduled ▸ List.take_prefix _ _
  have hscheduled : c.shared.scheduled.Nodup := hnodup.sublist hfirsts.sublist
  exact ⟨hfirsts, hscheduled, (List.nodup_flatten.mp hscheduled).2⟩

/-- Two nodes are asked one after the other, each once. -/
theorem publish_at_most_once_two_batches :
    ∃ c, SoundRun ⟨.publish, 0, [1, 2, 0]⟩ (.initial "id" "root" false (some 2) (some 1)) c ∧
      c.shared.batches = [[1], [2]] ∧ c.shared.scheduled.Nodup := by
  have hexists : ∃ c, SoundRun ⟨.publish, 0, [1, 2, 0]⟩
      (.initial "id" "root" false (some 2) (some 1)) c ∧ c.shared.batches = [[1], [2]] :=
    Machine.Steps.of_schedule
      (List.replicate 27 (0, Choice.ok) ++ (0, Choice.reply .nack) :: List.replicate 7 (0, .ok))
      (by decide +kernel)
  obtain ⟨c, hrun, hbatches⟩ := hexists
  exact ⟨c, hrun, hbatches,
    (publish_at_most_once rfl rfl (by decide) (by decide) hrun).2.1⟩

/-! ### V0 -/

/-- Task `n` is not about to have the service decide on a remote response before the last one
    outstanding, nor decide nothing on that one. -/
def onTime (c : Config (Operation π) (Handler π) (Effect π)) (n : ℕ) : Bool :=
  match c.pool[n]? with
  | some ⟨k, .processResponse data status :: _⟩ =>
    k.command.number? == none ||
      PublishService.decidesAt data (c.shared.responses.length + 1)
          (c.shared.completedNumber + if status = .completed then 1 else 0) ==
        decide (c.shared.responses.length + 1 = c.shared.scheduled.length)
  | _ => true

/-- Whatever the service decides once all asked have answered settles the poll. -/
theorem publishDecision_settle_of_ne_wait {n asked found c : ℕ} (hasked : asked ≤ n)
    (hfound : n ≤ found) (h : publishDecision b m found (n - asked) asked c ≠ .wait) :
    publishDecision b m found (n - asked) asked c =
      if asked = n then .close (decide (m ≤ c))
      else if m ≤ c + (n - asked) then .dispatch else .close false := by
  rw [publishDecision] at h ⊢
  rcases Nat.lt_or_eq_of_le hasked with hmore | rfl
  · have hleft : 0 < n - asked := by omega
    rw [if_neg (by omega : ¬asked = found)] at h ⊢
    rw [if_neg (Nat.ne_of_lt hmore)]
    by_cases hreach : m ≤ c + (n - asked)
    · by_cases hfull : isMultipleOf (asked - 1) b = true
      · rw [if_pos ⟨hleft, hreach, hfull⟩, if_pos hreach]
      · simp [hfull] at h
    · by_cases hfull : isMultipleOf (asked - 1) b = true
      · rw [if_neg (fun h => hreach h.2.1), if_pos ⟨hreach, hfull⟩, if_neg hreach]
      · simp [hfull] at h
  · rw [if_pos rfl]
    by_cases hall : asked = found
    · rw [if_pos hall]
    · by_cases hmet : m ≤ c
      · simp [hall, hmet] at h
      · simp [hall, hmet] at h ⊢
        simp [h]

/-- ON TIME: where the service decides on the last response outstanding only, it decides right. -/
theorem publish_aligned_of_onTime (hop : ctx.operationName = .publish)
    (hlocal : storesLocally ctx d = false) (hq : Sound (poll ctx d b m) q) (positive : Bool)
    (hbusy : 0 < q.inFlight)
    (htime : (poll ctx d b m).decision q positive ≠ .wait ↔ q.inFlight = 1) :
    (poll ctx d b m).Aligned q positive := by
  have heager : (poll ctx d b m).eager = false := by simp [poll, hop]
  have hnone : localResponses ctx d m = 0 := by simp [localResponses, hlocal]
  obtain hw | ⟨he, -⟩ := hq.busy hbusy
  swap
  · simp [heager] at he
  have hcounted := hw.counted
  have hbounded : q.asked ≤ (shardNodes ctx).length := hq.orderly.bounded
  have hfound : (shardNodes ctx).length ≤ numberOfFoundNodes ctx := Nat.le_add_right _ _
  rw [Protocol.Aligned, if_neg (by simp [hw.undecided]), if_neg (by simp [heager])]
  split
  · next hlast =>
    have hend : q.answered + 1 = q.asked := by omega
    have hdecision : (poll ctx d b m).decision q positive =
        publishDecision b m (numberOfFoundNodes ctx) ((shardNodes ctx).length - q.asked)
          q.asked (q.succeeded + positive.toNat) := by
      rw [← hend, Protocol.decision, ← hend]
      simp [poll, decision, hop, hnone]
    have hdecides := htime.mpr hlast
    rw [hdecision] at hdecides ⊢
    exact publishDecision_settle_of_ne_wait hbounded hfound hdecides
  · next hmany =>
    by_contra hdecides
    exact hmany (htime.mp hdecides)

/-- What `onTime` says of a response, in terms of the poll. -/
theorem Rel.onTime {c : Config (Operation π) (Handler π) (Effect π)} {n : ℕ} {k : Handler π}
    {data : MessageData π} {status : ResponseStatus} {es : List (Effect π)}
    (hop : ctx.operationName = .publish) (hlocal : storesLocally ctx d = false)
    (hR : Rel ctx d b m q c.shared c.work) (hq : Sound (poll ctx d b m) q)
    (hget : c.pool[n]? = some ⟨k, .processResponse data status :: es⟩)
    (hk : k.command.number? ≠ none) (htime : OtNode.onTime c n = true) :
    (poll ctx d b m).decision q (decide (status = .completed)) ≠ .wait ↔ q.inFlight = 1 := by
  have hmem := mem_work hget
  obtain ⟨hfits, -⟩ : Carries ctx d b m q.asked (k, .processResponse data status) :=
    hR.carries _ hmem
  have hbusy : 0 < q.inFlight := by
    rw [← hR.answers]
    exact Multiset.countP_pos.mpr ⟨_, hmem, by simp [role, hk]⟩
  have hcounted : q.answered + q.inFlight = q.asked := by
    obtain hw | ⟨he, -⟩ := hq.busy hbusy
    · exact hw.counted
    · simp [poll, hop] at he
  have hnone : localResponses ctx d m = 0 := by simp [localResponses, hlocal]
  have hresponses : c.shared.responses.length = q.answered := by
    rw [hR.responses, hnone, ite_self, Nat.add_zero]
  have hlen : data.leftoverNodes.length = (shardNodes ctx).length - q.asked := by
    rw [hfits.leftoverNodes, List.length_drop]
  have hdecision : (poll ctx d b m).decision q (decide (status = .completed)) =
      publishDecision data.batchSize data.minAckResponses data.numberOfFoundNodes
        data.leftoverNodes.length (q.answered + 1)
        (q.succeeded + if status = .completed then 1 else 0) := by
    rw [hlen, hfits.batchSize, hfits.minAckResponses, hfits.numberOfFoundNodes]
    cases status <;> simp [Protocol.decision, poll, decision, hop, hnone]
  rw [hdecision, publishDecision_ne_wait]
  simp only [OtNode.onTime, hget, hresponses, hR.completed, hR.scheduled_length hq.orderly,
    Bool.or_eq_true, beq_iff_eq, hk, false_or] at htime
  rw [htime, decide_eq_true_eq]
  omega

/-- A V0 publish starts with a batch. -/
theorem publishV0_first (hlocal : storesLocally ctx d = false) (b : ℕ)
    (hm : m ≤ numberOfFoundNodes ctx) : (poll ctx d b m).first = .dispatch := by
  simp [poll, Nat.not_lt.mpr hm, hlocal]

/-- V0: as long as the service decides on the last response outstanding only, and on each of those,
    every node is scheduled once and every publish at rest is settled. -/
theorem publishV0_settled (hop : ctx.operationName = .publish) (hV0 : d.isOperationV0 = true)
    (hb : 1 ≤ PublishService.getBatchSize d.batchSize) (hnodup : (shardNodes ctx).Nodup)
    (hshard : shardNodes ctx ≠ [])
    (hm : PublishService.getMinAckResponses d.minimumNumberOfNodeReplications ≤
      numberOfFoundNodes ctx)
    {c : Config (Operation π) (Handler π) (Effect π)}
    (hrun : (machine ctx).Steps (fun c n i => (i.isSound && onTime c n) = true) (launch ctx d) c) :
    c.shared.scheduled.Nodup ∧ (c.pool = [] →
      Settled ctx (PublishService.getMinAckResponses d.minimumNumberOfNodeReplications)
        c.shared) := by
  have hlocal : storesLocally ctx d = false := by simp [storesLocally, hV0]
  have hfirst := publishV0_first hlocal (PublishService.getBatchSize d.batchSize) hm
  obtain ⟨q, hq, hR⟩ := Rel.run (Polls.publish hop d) (Sound.fresh rfl) (fun q hq => hq.orderly)
    (fun q q' hq (hstep : Step _ (fun q positive => Protocol.decision _ q positive ≠ .wait ↔
        q.inFlight = 1) q q') =>
      hq.step hb (Or.inr ⟨hfirst, List.length_pos_iff.mpr hshard⟩)
        (fun he => by simp [poll, hop] at he)
        (fun positive hbusy htime => publish_aligned_of_onTime hop hlocal hq positive hbusy htime)
        hstep)
    (fun _ _ _ hok => (Bool.and_eq_true_iff.mp hok).1)
    (fun c n i q hok hq hR k data status es hget hk =>
      hR.onTime hop hlocal hq hget hk (Bool.and_eq_true_iff.mp hok).2) hrun
  exact hR.outcome hq hnodup

/-- Two nodes asked one at a time, this node outside their shard: on time throughout. -/
theorem publishV0_settled_two_batches :
    ∃ c, (machine ⟨.publish, 0, [1, 2]⟩).Steps (fun c n i => (i.isSound && onTime c n) = true)
        (launch ⟨.publish, 0, [1, 2]⟩ (.initial "id" "root" true (some 2) (some 1))) c ∧
      c.pool = [] ∧ c.shared.batches = [[1], [2]] ∧
      Settled ⟨.publish, 0, [1, 2]⟩ 2 c.shared := by
  have hexists : ∃ c, (machine ⟨.publish, 0, [1, 2]⟩).Steps
      (fun c n i => (i.isSound && onTime c n) = true)
      (launch ⟨.publish, 0, [1, 2]⟩ (.initial "id" "root" true (some 2) (some 1))) c ∧
      c.pool = [] ∧ c.shared.batches = [[1], [2]] :=
    Machine.Steps.of_schedule
      (List.replicate 12 (0, Choice.ok) ++ (0, Choice.reply (.ack true)) ::
        List.replicate 9 (0, .ok) ++
        (0, Choice.reply (.ack true)) :: List.replicate 9 (0, .ok))
      (by decide +kernel)
  obtain ⟨c, hrun, hrest, hbatches⟩ := hexists
  exact ⟨c, hrun, hrest, hbatches,
    (publishV0_settled rfl rfl (by decide) (by decide) (by decide) (by decide) hrun).2 hrest⟩

/-- The first of four answers has the second batch scheduled, and the other one of the first batch,
    arriving after one of the second, has it scheduled again. -/
theorem publishV0_batch_scheduled_twice :
    ∃ c, SoundRun ⟨.publish, 0, [1, 2, 3, 4]⟩ (.initial "id" "root" true (some 1) (some 2)) c ∧
      c.shared.batches = [[1, 2], [3, 4], [3, 4]] ∧ ¬c.shared.scheduled.Nodup :=
  Machine.Steps.of_schedule
    (List.replicate 9 (0, Choice.ok) ++ (1, Choice.ok) :: (0, .reply (.ack true)) ::
      List.replicate 7 (0, .ok) ++ (1, Choice.ok) :: List.replicate 3 (0, .ok) ++ (1, Choice.ok) ::
      (0, .reply .nack) :: List.replicate 4 (0, .ok) ++ (0, Choice.reply .nack) ::
      List.replicate 4 (0, .ok) ++ [(1, Choice.ok), (0, Choice.ok)])
    (by decide +kernel)

/-- ONE AT A TIME: with this node outside the shard and batches of one node, every answer is the
    last one outstanding and the service decides on it. -/
theorem publishV0_one_at_a_time (hop : ctx.operationName = .publish)
    (hlocal : storesLocally ctx d = false) (hself : nodePartOfShard ctx = false) (hb : b = 1)
    (hq : Sound (poll ctx d b m) q) (positive : Bool) (hbusy : 0 < q.inFlight) :
    (poll ctx d b m).decision q positive ≠ .wait ↔ q.inFlight = 1 := by
  subst hb
  obtain hw | ⟨he, -⟩ := hq.busy hbusy
  swap
  · simp [poll, hop] at he
  obtain ⟨start, -, hstart, hasked, -⟩ := hw.round
  have hcounted := hw.counted
  have hbatch : (poll ctx d 1 m).batch = 1 := rfl
  have hbounded : q.asked ≤ (shardNodes ctx).length := hq.orderly.bounded
  have hlast : q.inFlight = 1 := by omega
  have hend : q.asked = q.answered + 1 := by omega
  have hnone : localResponses ctx d m = 0 := by simp [localResponses, hlocal]
  refine iff_of_true ?_ hlast
  have hdecision : (poll ctx d 1 m).decision q positive =
      publishDecision 1 m (shardNodes ctx).length ((shardNodes ctx).length - (q.answered + 1))
        (q.answered + 1) (q.succeeded + positive.toNat) := by
    rw [Protocol.decision, hend]
    simp [poll, decision, hop, hnone, numberOfFoundNodes, hself]
  have hfull : isMultipleOf (q.answered + 1 - 1) 1 = true :=
    (isMultipleOf_iff Nat.one_pos).mpr (Nat.one_dvd _)
  rw [hdecision, publishDecision]
  by_cases hall : q.answered + 1 = (shardNodes ctx).length
  · simp [hall]
  · have hmore : 0 < (shardNodes ctx).length - (q.answered + 1) := by omega
    rw [if_neg hall]
    split
    · simp
    · next hreach => rw [if_pos ⟨fun h => hreach ⟨hmore, h, hfull⟩, hfull⟩]; simp

/-- V0 (outside the shard): batches of one node are always on time. -/
theorem publishV0_settled_one_at_a_time (hop : ctx.operationName = .publish)
    (hV0 : d.isOperationV0 = true) (hself : nodePartOfShard ctx = false)
    (hb : PublishService.getBatchSize d.batchSize = 1) (hnodup : (shardNodes ctx).Nodup)
    (hshard : shardNodes ctx ≠ [])
    (hm : PublishService.getMinAckResponses d.minimumNumberOfNodeReplications ≤
      numberOfFoundNodes ctx)
    {c : Config (Operation π) (Handler π) (Effect π)} (hrun : SoundRun ctx d c) :
    c.shared.scheduled.Nodup ∧ (c.pool = [] →
      Settled ctx (PublishService.getMinAckResponses d.minimumNumberOfNodeReplications)
        c.shared) := by
  have hlocal : storesLocally ctx d = false := by simp [storesLocally, hV0]
  have hfirst := publishV0_first hlocal (PublishService.getBatchSize d.batchSize) hm
  obtain ⟨q, hq, hR⟩ := hrun.follows (Polls.publish hop d) (Sound.fresh rfl)
    (fun q hq => hq.orderly)
    (fun q q' hq hstep => hq.step (Nat.le_of_eq hb.symm)
      (Or.inr ⟨hfirst, List.length_pos_iff.mpr hshard⟩) (fun he => by simp [poll, hop] at he)
      (fun positive hbusy _ => publish_aligned_of_onTime hop hlocal hq positive hbusy
        (publishV0_one_at_a_time hop hlocal hself hb hq positive hbusy)) hstep)
  exact hR.outcome hq hnodup

end OtNode
