import OtNode.Blockchain.Queues
import OtNode.Lib.Number

/-! The operational wallets of a blockchain, and the identity they are registered under.

    The identity of the node is the first one that a wallet has. Wallets of another identity, or of
    none, are taken out of the list, by an index that is the wallet itself: it is no number, which
    `splice` takes for zero. -/

namespace OtNode

open JsNumber

/-- What the service has of its wallets. -/
structure Web3Service (Queue : Type) where
  operationalWallets : List String
  identityId : Option JsNumber := none
  queues : TransactionQueues Queue

/-- The wallets while the identities are looked through. -/
structure WalletCheck (Queue : Type) where
  operationalWallets : List String
  identityId : JsNumber
  queues : TransactionQueues Queue
  walletWithIdentityZero : List String := []

namespace Web3Service

variable {τ Queue : Type} [PriorityQueue τ Queue]

/-- The service when it starts. -/
def start (operationalWallets : List String) : Web3Service Queue where
  operationalWallets
  queues := .initializeTransactionQueues operationalWallets

/-- The integer that `splice` makes of a wallet, or of undefined. -/
def toIntegerOrInfinity (_index : Option String) : ℕ := 0

/-- `operationalWallets.splice(index, 1)`. -/
def spliceWallet (operationalWallets : List String) (publicKey : String) : List String :=
  let index := operationalWallets.find? fun wallet => wallet == publicKey
  operationalWallets.eraseIdx (toIntegerOrInfinity index)

/-- STEP: the identity of one wallet. -/
def checkWallet (check : WalletCheck Queue) (result : String × JsNumber) : WalletCheck Queue :=
  if result.2 ≠ finite 0 then
    if check.identityId ≠ result.2 ∧ check.identityId ≠ finite 0 then
      { check with
        operationalWallets := spliceWallet check.operationalWallets result.1
        queues := check.queues.removeTransactionQueue result.1 }
    else { check with identityId := result.2 }
  else { check with walletWithIdentityZero := check.walletWithIdentityZero ++ [result.1] }

variable (identityIdOf : String → ℕ) (s : Web3Service Queue)

/-- `Number(identityId)`. -/
def number (identityId : ℕ) : JsNumber := round identityId

/-- The identities as the contract returned them. -/
def results : List (String × JsNumber) :=
  s.operationalWallets.map fun wallet => (wallet, number (identityIdOf wallet))

/-- The wallets after the identities were looked through. -/
def checked : WalletCheck Queue :=
  (s.results identityIdOf).foldl checkWallet ⟨s.operationalWallets, finite 0, s.queues, []⟩

/-- `this.identityId` counts as true. -/
def known : Bool :=
  match s.identityId with
  | none => false
  | some identityId => !identityId.isNaN && identityId != finite 0

/-- `getIdentityId`. -/
def getIdentityId : Except String JsNumber × Web3Service Queue :=
  if s.known then (.ok (s.identityId.getD (finite 0)), s)
  else
    let check := s.checked identityIdOf
    let operationalWallets :=
      if check.identityId ≠ finite 0 then
        check.walletWithIdentityZero.foldl spliceWallet check.operationalWallets
      else check.operationalWallets
    (if operationalWallets.length = 0 then
      .error "Unable to find valid operational wallets for blockchain implementation"
    else .ok check.identityId,
      { operationalWallets, identityId := some check.identityId, queues := check.queues })

/-- The list is that of the wallets of the identity, and they are the ones with a queue. -/
structure Selected (operationalWallets : List String) (identityId : JsNumber) : Prop where
  wallets : s.operationalWallets =
    operationalWallets.filter fun wallet => finite (identityIdOf wallet) = identityId
  queues : ∀ wallet, wallet ∈ s.queues.transactionQueues.keys ↔
    wallet ∈ operationalWallets ∧ finite (identityIdOf wallet) = identityId

/-! ### What is removed -/

theorem spliceWallet_eq (operationalWallets : List String) (publicKey : String) :
    spliceWallet operationalWallets publicKey = operationalWallets.drop 1 := by
  rw [spliceWallet, toIntegerOrInfinity]
  cases operationalWallets <;> rfl

theorem foldl_spliceWallet (publicKeys operationalWallets : List String) :
    publicKeys.foldl spliceWallet operationalWallets =
      operationalWallets.drop publicKeys.length := by
  induction publicKeys generalizing operationalWallets with
  | nil => rfl
  | cons publicKey publicKeys ih =>
    rw [List.foldl_cons, spliceWallet_eq, ih, List.drop_drop, List.length_cons, add_comm]

/-- The wallet has another identity. -/
def wrong (identityId : JsNumber) (result : String × JsNumber) : Bool :=
  result.2 != finite 0 && result.2 != identityId

/-- The identity that is known, or the first one. -/
def firstIdentity (identityId : JsNumber) : List (String × JsNumber) → JsNumber
  | [] => identityId
  | result :: rest => firstIdentity (if identityId = finite 0 then result.2 else identityId) rest

theorem firstIdentity_of_ne {identityId : JsNumber} (h : identityId ≠ finite 0)
    (results : List (String × JsNumber)) : firstIdentity identityId results = identityId := by
  induction results with
  | nil => rfl
  | cons result results ih => rw [firstIdentity, if_neg h, ih]

/-- The queue of a wallet that has another identity goes. -/
theorem mem_keys_removeTransactionQueue {queues : TransactionQueues Queue}
    {publicKey wallet : String} :
    wallet ∈ (queues.removeTransactionQueue publicKey).transactionQueues.keys ↔
      wallet ∈ queues.transactionQueues.keys ∧ wallet ≠ publicKey := by
  have hmem := Table.mem_keys_destroy (t := queues.transactionQueues) (k := wallet)
    (q := (· == publicKey))
  rw [beq_eq_false_iff_ne] at hmem
  exact hmem

/-- Whether an identity is another one is known when it is looked at. -/
theorem wrong_firstIdentity (identityId : JsNumber) (result : String × JsNumber)
    (results : List (String × JsNumber)) :
    wrong (firstIdentity identityId (result :: results)) result = true ↔
      result.2 ≠ finite 0 ∧ identityId ≠ result.2 ∧ identityId ≠ finite 0 := by
  rw [wrong, Bool.and_eq_true, bne_iff_ne, bne_iff_ne, firstIdentity]
  refine and_congr_right ?_
  intro hresult
  by_cases hid : identityId = finite 0
  · rw [if_pos hid, firstIdentity_of_ne hresult]
    simp [hid]
  · rw [if_neg hid, firstIdentity_of_ne hid]
    exact ⟨fun h => ⟨h.symm, hid⟩, fun h => h.1.symm⟩

/-- What is left after the identities were looked through. -/
structure Sifted (results : List (String × JsNumber)) (expected : JsNumber)
    (check final : WalletCheck Queue) : Prop where
  identityId : final.identityId = expected
  operationalWallets : final.operationalWallets =
    check.operationalWallets.drop (results.countP (wrong expected))
  queues : ∀ wallet, wallet ∈ final.queues.transactionQueues.keys ↔
    wallet ∈ check.queues.transactionQueues.keys ∧
      ∀ result ∈ results, wrong expected result = true → wallet ≠ result.1
  zero : final.walletWithIdentityZero.length =
    check.walletWithIdentityZero.length + results.countP (·.2 == finite 0)

/-- STEP: one wallet more. -/
theorem Sifted.cons {result : String × JsNumber} {results : List (String × JsNumber)}
    {expected : JsNumber} {check final : WalletCheck Queue}
    (hexpected : expected = firstIdentity check.identityId (result :: results))
    (h : Sifted results expected (checkWallet check result) final) :
    Sifted (result :: results) expected check final := by
  have hwrong := wrong_firstIdentity check.identityId result results
  rw [← hexpected] at hwrong
  obtain ⟨hid, hwallets, hqueues, hzero⟩ := h
  rw [checkWallet] at hwallets hqueues hzero
  split_ifs at hwallets hqueues hzero with hnonzero hother
  · have hthis : wrong expected result = true := hwrong.mpr ⟨hnonzero, hother⟩
    refine ⟨hid, ?_, ?_, ?_⟩
    · rw [hwallets, spliceWallet_eq, List.drop_drop, List.countP_cons_of_pos hthis, add_comm]
    · intro wallet
      rw [hqueues, mem_keys_removeTransactionQueue, List.forall_mem_cons, and_assoc]
      simp [hthis]
    · rw [hzero, List.countP_cons_of_neg (by simpa using hnonzero)]
  · have hthis : ¬ wrong expected result = true := fun h => hother (hwrong.mp h).2
    refine ⟨hid, ?_, ?_, ?_⟩
    · rw [hwallets, List.countP_cons_of_neg hthis]
    · intro wallet
      rw [hqueues, List.forall_mem_cons]
      simp [hthis]
    · rw [hzero, List.countP_cons_of_neg (by simpa using hnonzero)]
  · have hthis : ¬ wrong expected result = true := fun h => hnonzero (hwrong.mp h).1
    refine ⟨hid, ?_, ?_, ?_⟩
    · rw [hwallets, List.countP_cons_of_neg hthis]
    · intro wallet
      rw [hqueues, List.forall_mem_cons]
      simp [hthis]
    · rw [hzero, List.countP_cons_of_pos (by simpa using hnonzero), List.length_append,
        List.length_singleton]
      omega

/-- RUN: all wallets. -/
theorem sifted (results : List (String × JsNumber)) (check : WalletCheck Queue) :
    Sifted results (firstIdentity check.identityId results) check
      (results.foldl checkWallet check) := by
  induction results generalizing check with
  | nil => exact ⟨rfl, rfl, by simp, rfl⟩
  | cons result results ih =>
    refine Sifted.cons rfl ?_
    have hid : firstIdentity check.identityId (result :: results) =
        firstIdentity (checkWallet check result).identityId results := by
      rw [checkWallet, firstIdentity]
      split_ifs with hzero hnonzero hother <;> simp_all
    rw [List.foldl_cons, hid]
    exact ih _

/-! ### The identities as numbers -/

theorem mem_keys_start {operationalWallets : List String} {wallet : String} :
    wallet ∈ (start operationalWallets : Web3Service Queue).queues.transactionQueues.keys ↔
      wallet ∈ operationalWallets :=
  (TransactionQueues.keys_initializeTransactionQueues _ _).mem_iff.trans List.mem_dedup

variable {identityIdOf} {operationalWallets : List String} {identityId : JsNumber}

/-- The identities of the wallets, as numbers. -/
theorem results_start : (start operationalWallets : Web3Service Queue).results identityIdOf =
    operationalWallets.map fun wallet => (wallet, number (identityIdOf wallet)) := rfl

/-- The wallets that `getIdentityId` counts out. -/
def removed (identityIdOf : String → ℕ) (operationalWallets : List String) (identityId : JsNumber) :
    ℕ :=
  operationalWallets.countP fun wallet => number (identityIdOf wallet) != identityId

/-- Those of another identity, and those of none. -/
theorem removed_eq (hid : identityId ≠ finite 0) :
    removed identityIdOf operationalWallets identityId =
      (operationalWallets.map fun wallet => (wallet, number (identityIdOf wallet))).countP
          (wrong identityId) +
        (operationalWallets.map fun wallet => (wallet, number (identityIdOf wallet))).countP
          (·.2 == finite 0) := by
  induction operationalWallets with
  | nil => rfl
  | cons wallet wallets ih =>
    simp only [removed, List.map_cons, List.countP_cons, wrong, Bool.and_eq_true, bne_iff_ne,
      beq_iff_eq] at ih ⊢
    rw [ih]
    by_cases hzero : number (identityIdOf wallet) = finite 0
    · simp [hzero, hid.symm]
      omega
    · by_cases hother : number (identityIdOf wallet) = identityId
      · simp [hother, hid]
      · simp [hzero, hother]
        omega

/-- The service after `getIdentityId` returned an identity. -/
theorem getIdentityId_start (hid : identityId ≠ finite 0)
    (h : ((start operationalWallets : Web3Service Queue).getIdentityId identityIdOf).1 =
      .ok identityId) :
    identityId = firstIdentity (finite 0)
      (operationalWallets.map fun wallet => (wallet, number (identityIdOf wallet))) ∧
    ((start operationalWallets : Web3Service Queue).getIdentityId identityIdOf).2.operationalWallets =
      operationalWallets.drop (removed identityIdOf operationalWallets identityId) ∧
    ∀ wallet, wallet ∈ ((start operationalWallets : Web3Service Queue).getIdentityId
        identityIdOf).2.queues.transactionQueues.keys ↔
      wallet ∈ operationalWallets ∧ (number (identityIdOf wallet) = finite 0 ∨
        number (identityIdOf wallet) = identityId) := by
  have hsifted := sifted ((start operationalWallets : Web3Service Queue).results identityIdOf)
    ⟨operationalWallets, finite 0, (start operationalWallets : Web3Service Queue).queues, []⟩
  rw [results_start] at hsifted
  obtain ⟨hfirst, hwallets, hqueues, hzero⟩ := hsifted
  have hchecked : (start operationalWallets : Web3Service Queue).checked identityIdOf =
      (operationalWallets.map fun wallet => (wallet, number (identityIdOf wallet))).foldl
        checkWallet ⟨operationalWallets, finite 0, (start operationalWallets).queues, []⟩ := rfl
  rw [← hchecked] at hfirst hwallets hqueues hzero
  have hunknown : (start operationalWallets : Web3Service Queue).known = false := rfl
  have hreturned : ((start operationalWallets : Web3Service Queue).checked identityIdOf).identityId =
      identityId := by
    rw [getIdentityId, hunknown, if_neg Bool.false_ne_true] at h
    simp only at h
    split_ifs at h <;> exact Except.ok.inj h
  simp only at hwallets hqueues hzero hfirst
  rw [hreturned] at hfirst
  rw [← hfirst] at hwallets hqueues
  rw [getIdentityId, hunknown, if_neg Bool.false_ne_true]
  simp only
  rw [if_pos (by rw [hreturned]; exact hid), foldl_spliceWallet, hwallets, hzero, List.drop_drop,
    List.length_nil, Nat.zero_add, removed_eq hid]
  refine ⟨hfirst, rfl, ?_⟩
  intro wallet
  rw [hqueues, mem_keys_start]
  refine and_congr_right ?_
  intro hwallet
  simp only [List.forall_mem_map, wrong, Bool.and_eq_true, bne_iff_ne]
  constructor
  · intro hkept
    by_contra hneither
    exact hkept wallet hwallet (not_or.mp hneither) rfl
  · rintro hkept other - hwrong rfl
    exact hkept.elim hwrong.1 hwrong.2

/-- The wallets of a list that are kept are not its last ones, if the first is one of them. -/
theorem eq_zero_of_drop_eq_filter {p : String → Bool} {first : String} {rest : List String} {n : ℕ}
    (hfirst : p first = true) (h : (first :: rest).drop n = (first :: rest).filter p) : n = 0 := by
  cases n with
  | zero => rfl
  | succ n =>
    rw [List.drop_succ_cons, List.filter_cons_of_pos hfirst] at h
    have hcount : (rest.drop n).countP p ≤ rest.countP p := (List.drop_sublist n rest).countP_le
    rw [h, List.countP_cons_of_pos hfirst, List.countP_filter] at hcount
    simp only [Bool.and_self] at hcount
    exact absurd hcount (Nat.not_succ_le_self _)

/-- The first identity is that of a wallet. -/
theorem firstIdentity_mem (identityId : JsNumber) (results : List (String × JsNumber)) :
    firstIdentity identityId results = identityId ∨
      ∃ result ∈ results, firstIdentity identityId results = result.2 := by
  induction results generalizing identityId with
  | nil => exact .inl rfl
  | cons result results ih =>
    rw [firstIdentity]
    rcases ih (if identityId = finite 0 then result.2 else identityId) with h | ⟨other, hother, h⟩
    · rw [h]
      split_ifs
      · exact .inr ⟨result, List.mem_cons_self, rfl⟩
      · exact .inl rfl
    · exact .inr ⟨other, List.mem_cons_of_mem _ hother, h⟩

/-- CODE BUG (wallets): once an identity is returned, the list and the queues are those of its
    wallets if and only if all wallets are registered under one and the same identity, which a
    double can tell. -/
theorem selected_iff (hid : identityId ≠ finite 0)
    (h : ((start operationalWallets : Web3Service Queue).getIdentityId identityIdOf).1 =
      .ok identityId) :
    Selected identityIdOf
        ((start operationalWallets : Web3Service Queue).getIdentityId identityIdOf).2
        operationalWallets identityId ↔
      ∃ n : ℕ, round n = finite n ∧ ∀ wallet ∈ operationalWallets, identityIdOf wallet = n := by
  obtain ⟨hfirst, hwallets, hqueues⟩ := getIdentityId_start hid h
  constructor
  · intro hselected
    have hexact : ∀ wallet ∈ operationalWallets, number (identityIdOf wallet) = finite 0 ∨
        number (identityIdOf wallet) = identityId → finite (identityIdOf wallet) = identityId := by
      intro wallet hwallet hkept
      exact ((hselected.queues wallet).mp ((hqueues wallet).mpr ⟨hwallet, hkept⟩)).2
    -- the queue of a wallet without an identity is kept
    have hnonzero : ∀ wallet ∈ operationalWallets, number (identityIdOf wallet) ≠ finite 0 := by
      intro wallet hwallet hzero
      have hwrong := hexact wallet hwallet (.inl hzero)
      rw [round_natCast_eq_zero_iff.mp hzero] at hwrong
      exact hid hwrong.symm
    cases operationalWallets with
    | nil => exact absurd hfirst hid
    | cons first rest =>
      have hnumber : number (identityIdOf first) = identityId := by
        rw [hfirst, List.map_cons, firstIdentity, if_pos rfl,
          firstIdentity_of_ne (hnonzero first List.mem_cons_self)]
      have hgood := hexact first List.mem_cons_self (.inr hnumber)
      refine ⟨identityIdOf first, hnumber.trans hgood.symm, ?_⟩
      intro wallet hwallet
      have hnone : removed identityIdOf (first :: rest) identityId = 0 :=
        eq_zero_of_drop_eq_filter (by simpa using hgood) (hwallets.symm.trans hselected.wallets)
      have hkept : number (identityIdOf wallet) = identityId := by
        simpa using List.countP_eq_zero.mp hnone wallet hwallet
      have heq := (hexact wallet hwallet (.inr hkept)).trans hgood.symm
      exact_mod_cast finite.inj heq
  · rintro ⟨n, hn, hall⟩
    have hnumber : ∀ wallet ∈ operationalWallets, number (identityIdOf wallet) = finite n := by
      intro wallet hwallet
      rw [hall wallet hwallet]
      exact hn
    obtain rfl : identityId = finite n := by
      rcases firstIdentity_mem (finite 0) (operationalWallets.map fun wallet =>
        (wallet, number (identityIdOf wallet))) with hzero | ⟨result, hresult, heq⟩
      · exact absurd (hfirst.trans hzero) hid
      · obtain ⟨wallet, hwallet, rfl⟩ := List.mem_map.mp hresult
        exact hfirst.trans (heq.trans (hnumber wallet hwallet))
    have hnone : removed identityIdOf operationalWallets (finite n) = 0 :=
      List.countP_eq_zero.mpr fun wallet hwallet => by simp [hnumber wallet hwallet]
    refine ⟨?_, ?_⟩
    · rw [hwallets, hnone, List.drop_zero, List.filter_eq_self.mpr]
      intro wallet hwallet
      rw [hall wallet hwallet, decide_eq_true_eq]
    · intro wallet
      rw [hqueues]
      refine and_congr_right ?_
      intro hwallet
      rw [hnumber wallet hwallet, hall wallet hwallet]
      simp

/-- Wallets of the identity 7, the second one only if it is registered. -/
def sevenOf (registered : Bool) (wallet : String) : ℕ :=
  if wallet = "0xa" ∨ registered then 7 else 0

/-- A node that starts with two wallets. -/
def twoWallets : Web3Service (TransactionQueues.WaitingList Unit) := start ["0xa", "0xb"]

theorem selected_iff_same :
    Selected (sevenOf true) (twoWallets.getIdentityId (sevenOf true)).2 ["0xa", "0xb"]
      (finite 7) :=
  (selected_iff (by decide) (by decide +kernel)).mpr
    ⟨7, round_natCast (by norm_num), by simp [sevenOf]⟩

/-- COUNTEREXAMPLE: the second wallet has no identity, and the first one is taken out. -/
theorem not_selected_of_zero :
    (twoWallets.getIdentityId (sevenOf false)).1 = .ok (finite 7) ∧
    (twoWallets.getIdentityId (sevenOf false)).2.operationalWallets = ["0xb"] ∧
    ¬ Selected (sevenOf false) (twoWallets.getIdentityId (sevenOf false)).2 ["0xa", "0xb"]
        (finite 7) := by
  have hleft : (twoWallets.getIdentityId (sevenOf false)).2.operationalWallets = ["0xb"] := by
    decide +kernel
  refine ⟨by decide +kernel, hleft, ?_⟩
  intro h
  have hwallets := h.wallets
  rw [hleft] at hwallets
  revert hwallets
  decide +kernel

end Web3Service

end OtNode
