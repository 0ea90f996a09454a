import OtNode.Lib.Casing
import OtNode.Ual.Grammar

/-! A UAL derived from its parts, and read back.

    Each part is written in lower case by itself, and the UAL is what stands between the slashes.
    What is read back is the lower case of what was written. The other way the UAL is put in lower
    case as a whole, where a capital sigma at the start of the blockchain comes after the letters of
    `did:dkg:`. -/

namespace OtNode

open Utf JsNumber

namespace UALService

/-- `deriveUAL`. -/
def deriveUAL (table : CaseMapping) (blockchain contract : JsString) (knowledgeCollectionId : ℕ)
    (knowledgeAssetId : Option ℕ) : JsString :=
  let ual := units "did:dkg:" ++ table.toLowerCase blockchain ++
    slash :: table.toLowerCase contract ++ slash :: digits knowledgeCollectionId
  match knowledgeAssetId.filter (· ≠ 0) with
  | some knowledgeAssetId => ual ++ slash :: digits knowledgeAssetId
  | none => ual

/-- An id of a collection or an asset: a number that is exact. -/
def IsId (id : ℕ) : Prop := 1 ≤ id ∧ id ≤ 2 ^ 53 - 1

/-- The parts of a UAL. -/
def partsWith (blockchain contract : JsString) (id : ℕ) (assetId : Option ℕ) : List JsString :=
  blockchain :: contract :: digits id :: (assetId.map digits).toList

/-- What such parts resolve to. -/
def resolvedWith (blockchain contract : JsString) (id : ℕ) (assetId : Option ℕ) : ResolvedUAL where
  blockchain := some blockchain
  contract := contract
  knowledgeCollectionId := some (.finite id)
  knowledgeAssetId := assetId.map fun assetId => .finite assetId

variable {service : UALService} {table : CaseMapping} {blockchain contract ual : JsString} {id : ℕ}
  {assetId : Option ℕ}

theorem IsId.ofString_digits (h : IsId id) : ofString (digits id) = .finite id :=
  JsNumber.ofString_digits (by unfold IsId at h; omega)

theorem isDecimal_digits (id : ℕ) : IsDecimal (digits id) :=
  ⟨digits_ne_nil id, fun _ => isDigit_of_mem_digits⟩

theorem slash_notMem_digits (id : ℕ) : slash ∉ digits id := (isDecimal_digits id).isName.1

theorem colon_notMem_digits (id : ℕ) : colon ∉ digits id := (isDecimal_digits id).isName.2

/-! ### Contracts -/

theorem isContract_iff : isContract contract = true ↔ ∃ hex : JsString,
    contract = units "0x" ++ hex ∧ hex.length = 40 ∧ ∀ c ∈ hex, digitValue c < 16 := by
  rw [isContract, Bool.and_eq_true, Bool.and_eq_true, List.isPrefixOf_iff_prefix, decide_eq_true_eq,
    List.all_eq_true]
  simp only [decide_eq_true_eq]
  constructor
  · rintro ⟨⟨⟨hex, rfl⟩, hlength⟩, hdigits⟩
    exact ⟨hex, rfl, hlength, hdigits⟩
  · rintro ⟨hex, rfl, hlength, hdigits⟩
    exact ⟨⟨List.prefix_append _ _, hlength⟩, hdigits⟩

theorem lt_of_digitValue {c : UInt16} (h : digitValue c < 16) : c.toNat < 0x80 := by
  rw [digitValue_lt_iff] at h
  omega

theorem digitValue_lowerUnit {c : UInt16} (h : digitValue c < 16) :
    digitValue (lowerUnit c) < 16 := by
  have hlower := toNat_lowerUnit (lt_of_digitValue h)
  rw [digitValue_lt_iff] at h ⊢
  rw [hlower, lowerPoint]
  split_ifs <;> omega

theorem isAscii_contract (h : isContract contract = true) : IsAscii contract := by
  obtain ⟨hex, rfl, -, hdigits⟩ := isContract_iff.mp h
  intro c hc
  rcases List.mem_append.mp hc with hc | hc
  · have hascii : IsAscii (units "0x") := by decide
    exact hascii c hc
  · exact lt_of_digitValue (hdigits c hc)

/-- The lower case of a contract is one. -/
theorem isContract_toLowerCase (h : isContract contract = true) :
    isContract (table.toLowerCase contract) = true := by
  rw [CaseMapping.toLowerCase_of_ascii (isAscii_contract h)]
  obtain ⟨hex, rfl, hlength, hdigits⟩ := isContract_iff.mp h
  refine isContract_iff.mpr ⟨hex.map lowerUnit, ?_, by rw [List.length_map, hlength], ?_⟩
  · rw [List.map_append]
    rfl
  · intro c hc
    obtain ⟨digit, hdigit, rfl⟩ := List.mem_map.mp hc
    exact digitValue_lowerUnit (hdigits digit hdigit)

theorem notMem_contract {c : UInt16} (hc : isNumeral c = false) (h : isContract contract = true) :
    c ∉ contract := by
  obtain ⟨hex, rfl, -, hdigits⟩ := isContract_iff.mp h
  intro hmem
  rcases List.mem_append.mp hmem with hmem | hmem
  · have hnumeral : (units "0x").all isNumeral = true := by decide
    rw [List.all_eq_true.mp hnumeral c hmem] at hc
    cases hc
  · rw [isNumeral, decide_eq_true (hdigits c hmem)] at hc
    cases hc

/-! ### The parts that are read -/

/-- Parts with a chain id, a contract and ids are accepted, and resolve to themselves. -/
theorem accepted_of_partsOf (hstart : units "did:dkg:" <+: ual)
    (hparts : partsOf ual = partsWith blockchain contract id assetId) (hchain : colon ∈ blockchain)
    (hcontract : isContract contract = true) (hid : IsId id) (hasset : ∀ a ∈ assetId, IsId a) :
    isUAL ual = some true ∧
      service.resolveUAL ual = .ok (resolvedWith blockchain contract id assetId) := by
  cases assetId with
  | none =>
    constructor
    · rw [isUAL_eq_isParts [blockchain, contract] hstart hparts (colon_notMem_digits _)]
      simp [isParts, hcontract, (isDecimal_digits id).isNumber]
    · simp only [resolveUAL, hparts, partsWith, Option.map_none, Option.toList_none,
        blockchainName_of_mem hchain, hid.ofString_digits]
      exact if_pos hcontract
  | some assetId =>
    have hasset := hasset assetId rfl
    constructor
    · rw [isUAL_eq_isParts [blockchain, contract, digits id] hstart hparts
        (colon_notMem_digits _)]
      simp [isParts, hcontract, (isDecimal_digits id).isNumber, (isDecimal_digits assetId).isNumber]
    · simp only [resolveUAL, hparts, partsWith, Option.map_some, Option.toList_some,
        blockchainName_of_mem hchain, hid.ofString_digits, hasset.ofString_digits]
      exact if_pos hcontract

/-! ### The text of the parts -/

/-- The ids between slashes. -/
def idsText (id : ℕ) : Option ℕ → JsString
  | none => digits id
  | some assetId => digits id ++ slash :: digits assetId

/-- A UAL of its parts. -/
def textOf (blockchain contract : JsString) (id : ℕ) (assetId : Option ℕ) : JsString :=
  blockchain ++ slash :: (contract ++ slash :: idsText id assetId)

theorem splitOn_textOf (hblockchain : slash ∉ blockchain) (hcontract : slash ∉ contract) :
    (textOf blockchain contract id assetId).splitOn slash =
      partsWith blockchain contract id assetId := by
  rw [textOf, List.splitOn_append_cons_self_of_not_mem hblockchain,
    List.splitOn_append_cons_self_of_not_mem hcontract]
  cases assetId with
  | none =>
    rw [idsText, List.splitOn_eq_singleton (slash_notMem_digits id)]
    rfl
  | some assetId =>
    rw [idsText, List.splitOn_append_cons_self_of_not_mem (slash_notMem_digits id),
      List.splitOn_eq_singleton (slash_notMem_digits assetId)]
    rfl

theorem intercalate_partsWith :
    [slash].intercalate (partsWith blockchain contract id assetId) =
      textOf blockchain contract id assetId := by
  cases assetId <;> simp [partsWith, textOf, idsText, List.intercalate]

/-- A UAL is the text of its parts. -/
theorem eq_textOf (hstart : units "did:dkg:" <+: ual)
    (hparts : partsOf ual = partsWith blockchain contract id assetId) :
    ual = units "did:dkg:" ++ textOf blockchain contract id assetId := by
  obtain ⟨s, rfl⟩ := hstart
  rw [partsOf, strip_append] at hparts
  rw [← intercalate_partsWith, ← hparts, List.intercalate_splitOn]

/-- What is derived. -/
theorem deriveUAL_eq (hasset : ∀ a ∈ assetId, IsId a) :
    deriveUAL table blockchain contract id assetId = units "did:dkg:" ++
      textOf (table.toLowerCase blockchain) (table.toLowerCase contract) id assetId := by
  cases assetId with
  | none => simp [deriveUAL, textOf, idsText]
  | some assetId =>
    have hne : assetId ≠ 0 := Nat.one_le_iff_ne_zero.mp (hasset assetId rfl).1
    simp [deriveUAL, textOf, idsText, Option.filter, hne]

/-- ROUND TRIP: what is derived is accepted, and resolves to the lower case of what it was derived
    from. -/
theorem accepted_deriveUAL (hchain : colon ∈ blockchain) (hslash : slash ∉ blockchain)
    (hcontract : isContract contract = true) (hid : IsId id) (hasset : ∀ a ∈ assetId, IsId a) :
    isUAL (deriveUAL table blockchain contract id assetId) = some true ∧
      service.resolveUAL (deriveUAL table blockchain contract id assetId) =
        .ok (resolvedWith (table.toLowerCase blockchain) (table.toLowerCase contract) id
          assetId) := by
  have hslash' : slash ∉ table.toLowerCase blockchain := by
    rwa [CaseMapping.mem_toLowerCase (.inl (by decide))]
  have hcontract' : isContract (table.toLowerCase contract) = true :=
    isContract_toLowerCase hcontract
  have hparts : partsOf (deriveUAL table blockchain contract id assetId) =
      partsWith (table.toLowerCase blockchain) (table.toLowerCase contract) id assetId := by
    rw [deriveUAL_eq hasset, partsOf, strip_append,
      splitOn_textOf hslash' (notMem_contract (by decide) hcontract')]
  refine accepted_of_partsOf ?_ hparts ?_ hcontract' hid hasset
  · rw [deriveUAL_eq hasset]
    exact List.prefix_append _ _
  · rwa [CaseMapping.mem_toLowerCase (.inr (by decide))]

/-! ### The other way -/

/-- A capital sigma, before which the blockchain has only characters that are ignored and not cased,
    and after which it has no cased letter. -/
def StartsWithSigma (table : CaseMapping) (blockchain : JsString) : Prop :=
  ∃ x y, codePoints blockchain = x ++ sigma :: y ∧
    (∀ p ∈ x, table.ignorable p = true ∧ table.cased p = false) ∧ table.startsCased y = false

/-- The letters of `did:dkg:` are cased. -/
theorem startsCased_didDkg :
    table.startsCased ((units "did:dkg:").map UInt16.toNat).reverse = true := by
  have hreverse : ((units "did:dkg:").map UInt16.toNat).reverse = 0x3A :: 103 ::
      [107, 100, 58, 100, 105, 100] := by decide
  rw [hreverse, CaseMapping.startsCased, table.ignorable_colon, CaseMapping.startsCased,
    table.cased_letter 103 (by decide) (by decide)]
  simp

/-- A sigma has the same form behind `did:dkg:`, except for one that the blockchain starts with. -/
theorem endsWord_eq_iff (x y t : List ℕ) :
    table.endsWord (x.reverse ++ ((units "did:dkg:").map UInt16.toNat).reverse) (y ++ 0x2F :: t) =
        table.endsWord (x.reverse ++ []) (y ++ []) ↔
      ¬ ((∀ p ∈ x, table.ignorable p = true ∧ table.cased p = false) ∧
        table.startsCased y = false) := by
  have hx : (∀ p ∈ x, table.ignorable p = true ∧ table.cased p = false) ↔
      x.all table.ignorable = true ∧ table.startsCased x.reverse = false := by
    rw [forall₂_and, List.all_eq_true]
    refine and_congr_right ?_
    intro hignorable
    rw [CaseMapping.startsCased_eq_false_iff (by simpa using hignorable)]
    simp
  rw [hx, CaseMapping.endsWord, CaseMapping.endsWord, CaseMapping.startsCased_append_slash,
    CaseMapping.startsCased_append, startsCased_didDkg, List.all_reverse, List.append_nil,
    List.append_nil]
  cases table.startsCased x.reverse <;> cases x.all table.ignorable <;>
    cases table.startsCased y <;> simp

theorem isDigit_of_mem_idsText {c : UInt16} (h : c ∈ idsText id assetId) :
    isDigit c = true ∨ c = slash := by
  cases assetId with
  | none => exact .inl (isDigit_of_mem_digits h)
  | some assetId =>
    rcases List.mem_append.mp h with h | h
    · exact .inl (isDigit_of_mem_digits h)
    · rcases List.mem_cons.mp h with rfl | h
      · exact .inr rfl
      · exact .inl (isDigit_of_mem_digits h)

/-- Ids and slashes have no case. -/
theorem lowerUnit_of_isDigit {c : UInt16} (h : isDigit c = true ∨ c = slash) :
    c.toNat < 0x80 ∧ lowerUnit c = c := by
  have hlt : c.toNat < 65 := by
    rcases h with h | rfl
    · simp only [isDigit, Bool.and_eq_true, decide_eq_true_eq] at h
      omega
    · decide
  refine ⟨by omega, ?_⟩
  rw [lowerUnit, lowerPoint, if_neg (by omega), UInt16.ofNat_toNat]

/-- What follows the blockchain is ASCII. -/
theorem isAscii_rest (hcontract : isContract contract = true) :
    IsAscii (slash :: (contract ++ slash :: idsText id assetId)) := by
  intro c hc
  simp only [List.mem_cons, List.mem_append] at hc
  rcases hc with rfl | hc | rfl | hc
  · decide
  · exact isAscii_contract hcontract c hc
  · decide
  · exact (lowerUnit_of_isDigit (isDigit_of_mem_idsText hc)).1

theorem lowerUnit_rest (hcontract : isContract contract = true) :
    (slash :: (contract ++ slash :: idsText id assetId)).map lowerUnit =
      slash :: (table.toLowerCase contract ++ slash :: idsText id assetId) := by
  have hids : (idsText id assetId).map lowerUnit = idsText id assetId := by
    refine (List.map_congr_left fun c hc => ?_).trans (List.map_id _)
    exact (lowerUnit_of_isDigit (isDigit_of_mem_idsText hc)).2
  have hslash : lowerUnit slash = slash := by decide
  rw [CaseMapping.toLowerCase_of_ascii (isAscii_contract hcontract), List.map_cons, List.map_append,
    List.map_cons, hids, hslash]

/-- What is derived from the parts of a UAL is the UAL in lower case if and only if the blockchain
    does not start with a sigma. -/
theorem deriveUAL_eq_toLowerCase_iff (hcontract : isContract contract = true)
    (hasset : ∀ a ∈ assetId, IsId a)
    (hual : ual = units "did:dkg:" ++ textOf blockchain contract id assetId) :
    deriveUAL table blockchain contract id assetId = table.toLowerCase ual ↔
      ¬ StartsWithSigma table blockchain := by
  have hdidDkg : (units "did:dkg:").map lowerUnit = units "did:dkg:" := by decide
  have hslash : slash.toNat = 0x2F := by decide
  rw [deriveUAL_eq hasset, hual, textOf, textOf,
    CaseMapping.toLowerCase_append (by decide) (isAscii_rest hcontract), hdidDkg,
    lowerUnit_rest hcontract, List.append_cancel_left_eq, List.append_cancel_right_eq, eq_comm,
    CaseMapping.toLowerCase, CaseMapping.flatMap_lowerIn_eq_iff]
  simp only [List.map_cons, hslash, endsWord_eq_iff, StartsWithSigma, not_exists, not_and]

/-- A UAL of such parts has a contract. -/
theorem isContract_of_isUAL (hual : isUAL ual = some true)
    (hparts : partsOf ual = partsWith blockchain contract id assetId) :
    isContract contract = true := by
  cases assetId with
  | none =>
    have hchecked := isParts_of_isUAL [blockchain, contract] hparts hual
    simp only [List.splitOn_eq_singleton (colon_notMem_digits id), List.cons_append,
      List.nil_append, isParts, Option.some.injEq, Bool.and_eq_true] at hchecked
    exact hchecked.1
  | some assetId =>
    have hchecked := isParts_of_isUAL [blockchain, contract, digits id] hparts hual
    simp only [List.splitOn_eq_singleton (colon_notMem_digits assetId), List.cons_append,
      List.nil_append, isParts, Option.some.injEq, Bool.and_eq_true] at hchecked
    exact hchecked.1.1

/-- CORRECT (round trip): what is derived is accepted and resolves to the lower case of what it was
    derived from; and what is derived from the parts that a UAL resolves to is the UAL in lower case
    if and only if its blockchain does not start with a capital sigma. -/
theorem deriveUAL_resolveUAL (service : UALService) (table : CaseMapping) :
    (∀ blockchain contract id assetId, colon ∈ blockchain → slash ∉ blockchain →
      isContract contract = true → IsId id → (∀ a ∈ assetId, IsId a) →
        isUAL (deriveUAL table blockchain contract id assetId) = some true ∧
        service.resolveUAL (deriveUAL table blockchain contract id assetId) =
          .ok (resolvedWith (table.toLowerCase blockchain) (table.toLowerCase contract) id
            assetId)) ∧
      ∀ ual blockchain contract id assetId, units "did:dkg:" <+: ual →
        partsOf ual = partsWith blockchain contract id assetId → isUAL ual = some true →
        colon ∈ blockchain → IsId id → (∀ a ∈ assetId, IsId a) →
          service.resolveUAL ual = .ok (resolvedWith blockchain contract id assetId) ∧
          (deriveUAL table blockchain contract id assetId = table.toLowerCase ual ↔
            ¬ StartsWithSigma table blockchain) := by
  constructor
  · intro blockchain contract id assetId hchain hslash hcontract hid hasset
    exact accepted_deriveUAL hchain hslash hcontract hid hasset
  · intro ual blockchain contract id assetId hstart hparts hual hchain hid hasset
    have hcontract := isContract_of_isUAL hual hparts
    exact ⟨(accepted_of_partsOf hstart hparts hchain hcontract hid hasset).2,
      deriveUAL_eq_toLowerCase_iff hcontract hasset (eq_textOf hstart hparts)⟩

/-- A part of the tables: the ASCII letters, the sigmas, and the colon. -/
def someTable : CaseMapping where
  lower p := if 65 ≤ p ∧ p ≤ 90 then [p + 32] else if p < 0x110000 then [p] else []
  cased p := decide (65 ≤ p ∧ p ≤ 90 ∨ 97 ≤ p ∧ p ≤ 122 ∨ p = sigma ∨ p = 0x3C2 ∨ p = 0x3C3)
  ignorable p := decide (p = 0x3A)
  lower_ascii p h := by
    split_ifs
    · rfl
    · rfl
    · omega
  lower_other p h q hq := by
    split_ifs at hq
    · omega
    · rw [List.mem_singleton.mp hq]
      omega
    · cases hq
  cased_letter p h h' := decide_eq_true (.inr (.inl ⟨h, h'⟩))
  ignorable_colon := rfl
  cased_slash := rfl
  ignorable_slash := rfl

/-- A UAL of a blockchain. -/
def ualOf (blockchain : JsString) : JsString :=
  units "did:dkg:" ++ textOf blockchain someContract 5 none

theorem deriveUAL_resolveUAL_gnosis :
    (isUAL (deriveUAL someTable (units "Gnosis:100") someContract 5 (some 7)) = some true ∧
      otpService.resolveUAL (deriveUAL someTable (units "Gnosis:100") someContract 5 (some 7)) =
        .ok (resolvedWith (someTable.toLowerCase (units "Gnosis:100"))
          (someTable.toLowerCase someContract) 5 (some 7))) ∧
    otpService.resolveUAL (ualOf (units "Gnosis:100")) =
        .ok (resolvedWith (units "Gnosis:100") someContract 5 none) ∧
      (deriveUAL someTable (units "Gnosis:100") someContract 5 none =
          someTable.toLowerCase (ualOf (units "Gnosis:100")) ↔
        ¬ StartsWithSigma someTable (units "Gnosis:100")) :=
  ⟨(deriveUAL_resolveUAL otpService someTable).1 (units "Gnosis:100") someContract 5 (some 7)
      (by decide) (by decide) (by decide) ⟨by decide, by decide⟩
      (fun a ha => Option.mem_some_iff.mp ha ▸ ⟨by decide, by decide⟩),
    (deriveUAL_resolveUAL otpService someTable).2 (ualOf (units "Gnosis:100")) (units "Gnosis:100")
      someContract 5 none (List.prefix_append _ _) (by decide) (by decide +kernel) (by decide)
      ⟨by decide, by decide⟩ nofun⟩

/-- COUNTEREXAMPLE: a capital sigma at the start of the blockchain is a final one behind `did:dkg:`,
    and none by itself. -/
theorem deriveUAL_ne_toLowerCase_sigma :
    let blockchain := 0x3A3 :: units ":5"
    isUAL (ualOf blockchain) = some true ∧
      otpService.resolveUAL (ualOf blockchain) =
        .ok (resolvedWith blockchain someContract 5 none) ∧
      deriveUAL someTable blockchain someContract 5 none ≠
        someTable.toLowerCase (ualOf blockchain) := by
  decide +kernel

end UALService

end OtNode
