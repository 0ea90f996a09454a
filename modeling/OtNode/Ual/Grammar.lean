import OtNode.Lib.Number
import OtNode.Lib.Split

/-! Two parsers of a UAL: the one that accepts it, and the one that resolves it.

    Both split what follows `did:dkg:` at its slashes. The first then splits the last part at its
    colons as well, for a state, which the second takes for part of the id. With two parts both look
    for the contract behind the colons of the first, and differ on how many of them there are. -/

namespace OtNode

open Utf JsNumber

/-- What `resolveUAL` returns. -/
structure ResolvedUAL where
  blockchain : Option JsString
  contract : JsString
  knowledgeCollectionId : Option JsNumber := none
  tokenId : Option JsNumber := none
  knowledgeAssetId : Option JsNumber := none
  deriving DecidableEq

/-- The service: the names of the implementations that the blockchain module manager has. -/
structure UALService where
  implementationNames : List JsString

namespace UALService

def slash : UInt16 := unit '/'

def colon : UInt16 := unit ':'

theorem slash_ne_colon : slash ≠ colon := by decide

/-- `ual.replace('did:', '').replace('dkg:', '')`. -/
def strip (ual : JsString) : JsString := removeFirst (units "dkg:") (removeFirst (units "did:") ual)

/-- The parts between the slashes. -/
def partsOf (ual : JsString) : List JsString := (strip ual).splitOn slash

/-- `isContract`: `0x` and 40 hexadecimal digits. -/
def isContract (contract : JsString) : Bool :=
  (units "0x").isPrefixOf contract && decide ((contract.drop 2).length = 40) &&
    (contract.drop 2).all fun c => decide (digitValue c < 16)

/-- `!Number.isNaN(Number(part))`. -/
def isNumber (part : JsString) : Bool := !(ofString part).isNaN

/-- The check of the parts, the last of them split at its colons. With any other number of them the
    function ends without a value. -/
def isParts : List JsString → Option Bool
  | [_, contract, id, assetId] => some (isContract contract && isNumber id && isNumber assetId)
  | [_, contract, id] => some (isContract contract && isNumber id)
  | [first, tokenId] =>
    let parts2 := first.splitOn colon
    if parts2.length = 3 then
      some (decide (parts2.length = 2) && isContract (parts2.getD 2 []) && isNumber tokenId)
    else some (decide (parts2.length = 2) && isContract (parts2.getD 1 []) && isNumber tokenId)
  | _ => none

/-- `isUAL`. -/
def isUAL (ual : JsString) : Option Bool :=
  if (units "did:dkg:").isPrefixOf ual then
    isParts ((partsOf ual).dropLast ++ ((partsOf ual).getLastD []).splitOn colon)
  else some false

variable (service : UALService)

/-- The name of a blockchain, of the first implementation of that name where it has no chain id. -/
def blockchainName (name : JsString) : JsString :=
  if (name.splitOn colon).length = 1 then
    (service.implementationNames.find? fun implementation =>
      (implementation.splitOn colon).head? = some name).getD name
  else name

/-- The blockchain of a token. The name that the loop looks for is undefined when it starts. -/
def blockchainWithId : Option JsString :=
  service.implementationNames.find? fun implementation =>
    (implementation.splitOn colon).head? = none

/-- What is returned, where the contract is one. -/
def withContract (resolved : ResolvedUAL) : Except JsString ResolvedUAL :=
  if isContract resolved.contract then .ok resolved
  else .error (units "Invalid contract format: " ++ resolved.contract)

/-- `resolveUAL`. -/
def resolveUAL (ual : JsString) : Except JsString ResolvedUAL :=
  match partsOf ual with
  | [blockchain, contract, id, assetId] =>
    withContract ⟨some (service.blockchainName blockchain), contract, some (ofString id), none,
      some (ofString assetId)⟩
  | [blockchain, contract, id] =>
    withContract ⟨some (service.blockchainName blockchain), contract, some (ofString id), none,
      none⟩
  | [first, tokenId] =>
    match first.splitOn colon with
    | [name, chainId, contract] =>
      withContract ⟨some (name ++ chainId), contract, none, some (ofString tokenId), none⟩
    | [_, contract] =>
      withContract ⟨service.blockchainWithId, contract, none, some (ofString tokenId), none⟩
    | _ => .error (units "UAL doesn't have correct format: " ++ ual)
  | _ => .error (units "UAL doesn't have correct format: " ++ ual)

/-! ### What is expected -/

/-- The UAL names its blockchain without the chain id. -/
def NamesNoChainId (ual : JsString) : Prop :=
  match partsOf ual with
  | [first, _] => (first.splitOn colon).length = 2
  | first :: _ => (first.splitOn colon).length = 1
  | [] => False

/-- What a UAL that is accepted is expected to resolve to. -/
structure Expected (ual : JsString) (resolved : ResolvedUAL) : Prop where
  blockchain : ∃ blockchain, resolved.blockchain = some blockchain ∧
    (NamesNoChainId ual → blockchain ∈ service.implementationNames)
  contract : isContract resolved.contract = true
  id : ∃ id, (resolved.knowledgeCollectionId = some id ∨ resolved.tokenId = some id) ∧
    id.isNaN = false
  assetId : (partsOf ual).length = 4 → ∃ id, resolved.knowledgeAssetId = some id ∧ id.isNaN = false

/-- The UAL resolves to what is expected of it. -/
def Resolves (ual : JsString) : Prop :=
  ∃ resolved, service.resolveUAL ual = .ok resolved ∧ service.Expected ual resolved

/-- A name with its chain id, or one that an implementation has. -/
def Knows (name : JsString) : Prop :=
  colon ∈ name ∨ ∃ implementation ∈ service.implementationNames,
    (implementation.splitOn colon).head? = some name

/-- Three or four parts, without a state, and a blockchain that is known. -/
def Resolvable (ual : JsString) : Prop :=
  match partsOf ual with
  | [name, _, id] => colon ∉ id ∧ service.Knows name
  | [name, _, _, _] => service.Knows name
  | _ => False

variable {service}

/-! ### Numbers and names -/

theorem isNumber_iff {part : JsString} : isNumber part = true ↔ (ofString part).isNaN = false := by
  rw [isNumber, Bool.not_eq_true']

/-- What has a colon is no number. -/
theorem isNaN_of_mem {part : JsString} (h : colon ∈ part) : (ofString part).isNaN = true := by
  rw [ofString_eq_nan (by decide) (by decide) h]
  rfl

theorem length_splitOn_eq_one_iff {part : JsString} :
    (part.splitOn colon).length = 1 ↔ colon ∉ part := by
  rw [length_splitOn, Nat.add_eq_right, List.count_eq_zero]

theorem blockchainName_of_mem {name : JsString} (h : colon ∈ name) :
    service.blockchainName name = name :=
  if_neg fun hlength => length_splitOn_eq_one_iff.mp hlength h

/-- A name without a chain id resolves to an implementation where one has it. -/
theorem blockchainName_mem_iff {name : JsString} (h : colon ∉ name) :
    service.blockchainName name ∈ service.implementationNames ↔
      ∃ implementation ∈ service.implementationNames,
        (implementation.splitOn colon).head? = some name := by
  rw [blockchainName, if_pos (length_splitOn_eq_one_iff.mpr h)]
  cases hfind : service.implementationNames.find? fun implementation =>
      (implementation.splitOn colon).head? = some name with
  | none =>
    refine iff_of_false (fun hmem => ?_) ?_
    · exact List.find?_eq_none.mp hfind name hmem (by simp [List.splitOn_eq_singleton h])
    · rintro ⟨implementation, hmem, hhead⟩
      exact List.find?_eq_none.mp hfind implementation hmem (by simpa using hhead)
  | some implementation =>
    refine iff_of_true (List.mem_of_find?_eq_some hfind) ⟨implementation,
      List.mem_of_find?_eq_some hfind, ?_⟩
    simpa using List.find?_some hfind

theorem knows_iff {name : JsString} : service.Knows name ↔
    (colon ∉ name → service.blockchainName name ∈ service.implementationNames) := by
  by_cases h : colon ∈ name
  · exact iff_of_true (.inl h) fun hnot => absurd h hnot
  · rw [Knows, or_iff_right h, blockchainName_mem_iff h]
    exact ⟨fun hknown _ => hknown, fun hknown => hknown h⟩

/-- The blockchain of a token is never found: every name has a part before its first colon. -/
theorem blockchainWithId_eq_none : service.blockchainWithId = none := by
  refine List.find?_eq_none.mpr fun implementation _ => ?_
  simp [List.head?_eq_none_iff, List.splitOn_ne_nil]

/-! ### Accepted UALs, by the number of their parts -/

/-- What is checked: the parts, with those of the last one. -/
theorem isParts_of_isUAL {ual last : JsString} (parts : List JsString)
    (hual : partsOf ual = parts ++ [last]) (h : isUAL ual = some true) :
    isParts (parts ++ last.splitOn colon) = some true := by
  rw [isUAL, hual, List.dropLast_concat, List.getLastD_concat] at h
  split_ifs at h with hstart
  · exact h
  · cases h

theorem isParts_eq_none {parts : List JsString} (h : 5 ≤ parts.length) : isParts parts = none := by
  match parts, h with
  | _ :: _ :: _ :: _ :: _ :: _, _ => rfl

theorem withContract_eq_ok {resolved resolved' : ResolvedUAL} :
    withContract resolved = .ok resolved' ↔
      isContract resolved.contract = true ∧ resolved = resolved' := by
  rw [withContract]
  split_ifs with h
  · simp [h]
  · simp [h]

/-- Two parts resolve to a token only. -/
theorem tokenId_of_resolveUAL {ual first token : JsString} {resolved : ResolvedUAL}
    (hual : partsOf ual = [first, token]) (h : service.resolveUAL ual = .ok resolved) :
    resolved.knowledgeCollectionId = none ∧ resolved.tokenId = some (ofString token) := by
  simp only [resolveUAL, hual] at h
  split at h
  · obtain ⟨-, rfl⟩ := withContract_eq_ok.mp h
    exact ⟨rfl, rfl⟩
  · obtain ⟨-, rfl⟩ := withContract_eq_ok.mp h
    exact ⟨rfl, rfl⟩
  · cases h

/-- Without a chain id the blockchain of a token is not resolved. -/
theorem blockchain_of_resolveUAL {ual first token : JsString} {resolved : ResolvedUAL}
    (hual : partsOf ual = [first, token]) (hfirst : (first.splitOn colon).length = 2)
    (h : service.resolveUAL ual = .ok resolved) : resolved.blockchain = none := by
  simp only [resolveUAL, hual] at h
  split at h
  · rename_i heq
    rw [heq] at hfirst
    cases hfirst
  · obtain ⟨-, rfl⟩ := withContract_eq_ok.mp h
    exact blockchainWithId_eq_none
  · cases h

/-- Two parts that are accepted do not resolve to what is expected. -/
theorem not_resolves_of_two {ual first token : JsString} (hual : partsOf ual = [first, token])
    (h : isUAL ual = some true) : ¬ service.Resolves ual := by
  rintro ⟨resolved, hresolve, hexpected⟩
  obtain ⟨hcollection, htoken⟩ := tokenId_of_resolveUAL hual hresolve
  obtain ⟨id, hid, hnumber⟩ := hexpected.id
  rw [hcollection, htoken] at hid
  obtain rfl := Option.some.inj (hid.resolve_left nofun)
  by_cases hcolon : colon ∈ token
  · rw [isNaN_of_mem hcolon] at hnumber
    cases hnumber
  · have hparts := isParts_of_isUAL [first] hual h
    rw [List.splitOn_eq_singleton hcolon] at hparts
    have hfirst : (first.splitOn colon).length = 2 := by
      simp only [List.singleton_append, isParts] at hparts
      split_ifs at hparts with hthree
      · simp [hthree] at hparts
      · simp only [Option.some.injEq, Bool.and_eq_true, decide_eq_true_eq] at hparts
        exact hparts.1.1
    obtain ⟨blockchain, hblockchain, -⟩ := hexpected.blockchain
    rw [blockchain_of_resolveUAL hual hfirst hresolve] at hblockchain
    cases hblockchain

/-- What is expected of a blockchain that is looked up. -/
theorem Expected.knows {ual name : JsString} {resolved : ResolvedUAL}
    (h : service.Expected ual resolved) (hnames : NamesNoChainId ual ↔ colon ∉ name)
    (hresolved : resolved.blockchain = some (service.blockchainName name)) :
    service.Knows name := by
  obtain ⟨blockchain, hblockchain, hknown⟩ := h.blockchain
  rw [hresolved] at hblockchain
  obtain rfl := Option.some.inj hblockchain
  exact knows_iff.mpr fun hname => hknown (hnames.mpr hname)

theorem resolves_three {ual name contract id : JsString} (hual : partsOf ual = [name, contract, id])
    (h : isUAL ual = some true) : service.Resolves ual ↔ colon ∉ id ∧ service.Knows name := by
  have hresolve : service.resolveUAL ual = withContract ⟨some (service.blockchainName name),
      contract, some (ofString id), none, none⟩ := by
    simp only [resolveUAL, hual]
  have hnames : NamesNoChainId ual ↔ colon ∉ name := by
    simp only [NamesNoChainId, hual, length_splitOn_eq_one_iff]
  constructor
  · rintro ⟨resolved, hresolved, hexpected⟩
    rw [hresolve] at hresolved
    obtain ⟨-, rfl⟩ := withContract_eq_ok.mp hresolved
    obtain ⟨id', hid, hnumber⟩ := hexpected.id
    obtain rfl := Option.some.inj (hid.resolve_right nofun)
    refine ⟨fun hcolon => ?_, hexpected.knows hnames rfl⟩
    rw [isNaN_of_mem hcolon] at hnumber
    cases hnumber
  · rintro ⟨hcolon, hknows⟩
    have hparts := isParts_of_isUAL [name, contract] hual h
    simp only [List.splitOn_eq_singleton hcolon, List.cons_append, List.nil_append, isParts,
      Option.some.injEq, Bool.and_eq_true] at hparts
    refine ⟨_, hresolve.trans (withContract_eq_ok.mpr ⟨hparts.1, rfl⟩), ⟨_, rfl, ?_⟩, hparts.1,
      ⟨_, .inl rfl, isNumber_iff.mp hparts.2⟩, ?_⟩
    · exact fun hname => knows_iff.mp hknows (hnames.mp hname)
    · rw [hual]
      nofun

theorem resolves_four {ual name contract id assetId : JsString}
    (hual : partsOf ual = [name, contract, id, assetId]) (h : isUAL ual = some true) :
    service.Resolves ual ↔ service.Knows name := by
  have hresolve : service.resolveUAL ual = withContract ⟨some (service.blockchainName name),
      contract, some (ofString id), none, some (ofString assetId)⟩ := by
    simp only [resolveUAL, hual]
  have hnames : NamesNoChainId ual ↔ colon ∉ name := by
    simp only [NamesNoChainId, hual, length_splitOn_eq_one_iff]
  have hparts := isParts_of_isUAL [name, contract, id] hual h
  have hcolon : colon ∉ assetId := by
    intro hmem
    rw [isParts_eq_none] at hparts
    · cases hparts
    · have hlength := length_splitOn_eq_one_iff.not.mpr (not_not.mpr hmem)
      have hpos := length_splitOn colon assetId
      simp only [List.length_append, List.length_cons, List.length_nil]
      omega
  simp only [List.splitOn_eq_singleton hcolon, List.cons_append, List.nil_append, isParts,
    Option.some.injEq, Bool.and_eq_true] at hparts
  obtain ⟨⟨hcontract, hid⟩, hasset⟩ := hparts
  constructor
  · rintro ⟨resolved, hresolved, hexpected⟩
    rw [hresolve] at hresolved
    obtain ⟨-, rfl⟩ := withContract_eq_ok.mp hresolved
    exact hexpected.knows hnames rfl
  · intro hknows
    exact ⟨_, hresolve.trans (withContract_eq_ok.mpr ⟨hcontract, rfl⟩),
      ⟨_, rfl, fun hname => knows_iff.mp hknows (hnames.mp hname)⟩, hcontract,
      ⟨_, .inl rfl, isNumber_iff.mp hid⟩, fun _ => ⟨_, rfl, isNumber_iff.mp hasset⟩⟩

/-- A UAL that is accepted resolves to what is expected if and only if it has three or four parts,
    no state, and a blockchain that is known. -/
theorem resolves_iff {ual : JsString} (h : isUAL ual = some true) :
    service.Resolves ual ↔ service.Resolvable ual := by
  rw [Resolvable]
  rcases hual : partsOf ual with
    - | ⟨first, - | ⟨second, - | ⟨third, - | ⟨fourth, - | ⟨fifth, rest⟩⟩⟩⟩⟩
  · exact absurd hual (List.splitOn_ne_nil _ _)
  · refine iff_of_false ?_ not_false
    rintro ⟨resolved, hresolve, -⟩
    simp only [resolveUAL, hual] at hresolve
    cases hresolve
  · exact iff_of_false (not_resolves_of_two hual h) not_false
  · exact resolves_three hual h
  · exact resolves_four hual h
  · have hne : first :: second :: third :: fourth :: fifth :: rest ≠ [] := List.cons_ne_nil _ _
    have hparts := isParts_of_isUAL _ (hual.trans (List.dropLast_append_getLast hne).symm) h
    rw [isParts_eq_none] at hparts
    · cases hparts
    · rw [List.length_append, List.length_dropLast, length_splitOn]
      simp only [List.length_cons]
      omega

/-! ### The documented forms -/

/-- A part without separators. -/
def IsName (part : JsString) : Prop := slash ∉ part ∧ colon ∉ part

/-- Decimal digits. -/
def IsDecimal (part : JsString) : Prop := part ≠ [] ∧ ∀ c ∈ part, isDigit c = true

instance (part : JsString) : Decidable (IsName part) := inferInstanceAs (Decidable (_ ∧ _))

theorem isDecimal_iff {part : JsString} :
    IsDecimal part ↔ part ≠ [] ∧ part.all isDigit = true := by
  rw [IsDecimal, List.all_eq_true]

instance (part : JsString) : Decidable (IsDecimal part) := decidable_of_iff _ isDecimal_iff.symm

/-- What a UAL names: a token in two parts, a collection in three, or an asset in four. -/
inductive UALForm where
  | token (tokenId : JsString)
  | collection (id : JsString)
  | asset (id assetId : JsString)

/-- A UAL of a documented form, without `did:dkg:`. -/
structure DocumentedUAL where
  name : JsString
  chainId : Option JsString
  contract : JsString
  form : UALForm
  isName_name : IsName name
  isName_chainId : ∀ chainId' ∈ chainId, IsName chainId'
  isName_contract : IsName contract
  isDecimal : match form with
    | .token tokenId => IsDecimal tokenId
    | .collection id => IsDecimal id
    | .asset id assetId => IsDecimal id ∧ IsDecimal assetId

namespace DocumentedUAL

variable (documented : DocumentedUAL)

/-- The blockchain, with its chain id if it has one. -/
def blockchain : JsString :=
  match documented.chainId with
  | none => documented.name
  | some chainId => documented.name ++ colon :: chainId

/-- The string. -/
def text : JsString :=
  match documented.form with
  | .token tokenId => documented.blockchain ++ colon :: documented.contract ++ slash :: tokenId
  | .collection id => documented.blockchain ++ slash :: (documented.contract ++ slash :: id)
  | .asset id assetId =>
    documented.blockchain ++ slash :: (documented.contract ++ slash :: (id ++ slash :: assetId))

/-- Two parts, with a chain id. -/
def TokenWithChainId : Prop :=
  documented.chainId ≠ none ∧ ∃ tokenId, documented.form = .token tokenId

end DocumentedUAL

theorem strip_append (s : JsString) : strip (units "did:dkg:" ++ s) = s := by
  have hstart : units "did:dkg:" = units "did:" ++ units "dkg:" := rfl
  rw [strip, hstart, List.append_assoc, removeFirst_append (by decide),
    removeFirst_append (by decide)]

/-- What is checked of parts without a state. -/
theorem isUAL_eq_isParts {ual last : JsString} (parts : List JsString)
    (hstart : units "did:dkg:" <+: ual) (hual : partsOf ual = parts ++ [last])
    (hlast : colon ∉ last) : isUAL ual = isParts (parts ++ [last]) := by
  rw [isUAL, if_pos (List.isPrefixOf_iff_prefix.mpr hstart), hual, List.dropLast_concat,
    List.getLastD_concat, List.splitOn_eq_singleton hlast]

theorem isUAL_append {s last : JsString} (parts : List JsString)
    (hs : s.splitOn slash = parts ++ [last]) (hlast : colon ∉ last) :
    isUAL (units "did:dkg:" ++ s) = isParts (parts ++ [last]) := by
  refine isUAL_eq_isParts parts (List.prefix_append _ _) ?_ hlast
  rw [partsOf, strip_append, hs]

/-- What is stripped is taken out of the first part, where the others have no colon. -/
theorem strip_append_cons (first : JsString) {rest : JsString} (h : colon ∉ rest) :
    strip (first ++ slash :: rest) = strip first ++ slash :: rest := by
  rw [strip, removeFirst_append_cons (by decide) (show colon ∈ units "did:" by decide) first h,
    removeFirst_append_cons (by decide) (show colon ∈ units "dkg:" by decide) _ h, strip]

theorem mem_of_mem_removeFirst {pattern s : JsString} {c : UInt16} (h : c ∈ removeFirst pattern s) :
    c ∈ s := by
  rcases removeFirst_eq pattern s with heq | ⟨a, b, rfl, heq⟩
  · rwa [heq] at h
  · rw [heq] at h
    simp only [List.mem_append] at h ⊢
    exact h.imp_left .inl

theorem partsOf_append_cons {first rest : JsString} (hfirst : slash ∉ first)
    (hrest : colon ∉ rest) :
    partsOf (first ++ slash :: rest) = strip first :: rest.splitOn slash := by
  have hstrip : slash ∉ strip first := fun hmem =>
    hfirst (mem_of_mem_removeFirst (mem_of_mem_removeFirst hmem))
  rw [partsOf, strip_append_cons first hrest, List.splitOn_append_cons_self_of_not_mem hstrip]

/-- What is stripped has a colon. -/
theorem removeFirst_eq_or_count {pattern : JsString} (h : colon ∈ pattern) (s : JsString) :
    removeFirst pattern s = s ∨ (removeFirst pattern s).count colon < s.count colon := by
  refine (removeFirst_eq pattern s).imp_right ?_
  rintro ⟨a, b, rfl, heq⟩
  have hcount := List.count_pos_iff.mpr h
  rw [heq, List.count_append, List.count_append, List.count_append]
  omega

theorem strip_eq_or_count (s : JsString) : strip s = s ∨ (strip s).count colon < s.count colon := by
  rw [strip]
  rcases removeFirst_eq_or_count (show colon ∈ units "did:" by decide) s with hdid | hdid
  · rw [hdid]
    exact removeFirst_eq_or_count (by decide) s
  · rcases removeFirst_eq_or_count (show colon ∈ units "dkg:" by decide)
      (removeFirst (units "did:") s) with hdkg | hdkg
    · rw [hdkg]
      exact .inr hdid
    · exact .inr (hdkg.trans hdid)

namespace IsDecimal

variable {part : JsString} (h : IsDecimal part)

include h

theorem isNumber : isNumber part = true := by
  rw [isNumber_iff, ofString_of_digits h.1 h.2, isNaN_round]

theorem notMem {c : UInt16} (hc : isDigit c = false) : c ∉ part := by
  intro hmem
  rw [h.2 c hmem] at hc
  cases hc

theorem isName : IsName part := ⟨h.notMem (by decide), h.notMem (by decide)⟩

end IsDecimal

namespace DocumentedUAL

variable {documented : DocumentedUAL}

theorem slash_notMem_blockchain : slash ∉ documented.blockchain := by
  rw [blockchain]
  split
  · exact documented.isName_name.1
  · rename_i chainId hchain
    simp only [List.mem_append, List.mem_cons, not_or]
    exact ⟨documented.isName_name.1, slash_ne_colon, (documented.isName_chainId chainId hchain).1⟩

/-- The parts of a collection or an asset, and those that are left where something is stripped. -/
theorem splitOn_text {ids : JsString} (htext : documented.text =
      documented.blockchain ++ slash :: (documented.contract ++ slash :: ids))
    (hids : colon ∉ ids) :
    documented.text.splitOn slash =
        documented.blockchain :: documented.contract :: ids.splitOn slash ∧
      partsOf documented.text =
        strip documented.blockchain :: documented.contract :: ids.splitOn slash := by
  have hrest : (documented.contract ++ slash :: ids).splitOn slash =
      documented.contract :: ids.splitOn slash :=
    List.splitOn_append_cons_self_of_not_mem documented.isName_contract.1 _
  have hcolon : colon ∉ documented.contract ++ slash :: ids := by
    simp only [List.mem_append, List.mem_cons, not_or]
    exact ⟨documented.isName_contract.2, slash_ne_colon.symm, hids⟩
  rw [htext, List.splitOn_append_cons_self_of_not_mem slash_notMem_blockchain,
    partsOf_append_cons slash_notMem_blockchain hcolon, hrest]
  exact ⟨rfl, rfl⟩

/-- A collection that resolves is accepted. -/
theorem isUAL_collection {id : JsString} {resolved : ResolvedUAL}
    (hform : documented.form = .collection id)
    (h : service.resolveUAL documented.text = .ok resolved) :
    isUAL (units "did:dkg:" ++ documented.text) = some true := by
  have hid : IsDecimal id := by simpa only [hform] using documented.isDecimal
  obtain ⟨hparts, hresolved⟩ := splitOn_text (by rw [text, hform]) hid.isName.2
  rw [List.splitOn_eq_singleton hid.isName.1] at hparts hresolved
  have hcontract : isContract documented.contract = true := by
    simp only [resolveUAL, hresolved] at h
    exact (withContract_eq_ok.mp h).1
  rw [isUAL_append [documented.blockchain, documented.contract] hparts hid.isName.2]
  simp only [List.cons_append, List.nil_append, isParts, hcontract, hid.isNumber, Bool.and_true]

/-- An asset that resolves is accepted. -/
theorem isUAL_asset {id assetId : JsString} {resolved : ResolvedUAL}
    (hform : documented.form = .asset id assetId)
    (h : service.resolveUAL documented.text = .ok resolved) :
    isUAL (units "did:dkg:" ++ documented.text) = some true := by
  have hids : IsDecimal id ∧ IsDecimal assetId := by simpa only [hform] using documented.isDecimal
  have hcolon : colon ∉ id ++ slash :: assetId := by
    simp only [List.mem_append, List.mem_cons, not_or]
    exact ⟨hids.1.isName.2, slash_ne_colon.symm, hids.2.isName.2⟩
  obtain ⟨hparts, hresolved⟩ := splitOn_text (by rw [text, hform]) hcolon
  rw [List.splitOn_append_cons_self_of_not_mem hids.1.isName.1,
    List.splitOn_eq_singleton hids.2.isName.1] at hparts hresolved
  have hcontract : isContract documented.contract = true := by
    simp only [resolveUAL, hresolved] at h
    exact (withContract_eq_ok.mp h).1
  rw [isUAL_append [documented.blockchain, documented.contract, id] hparts hids.2.isName.2]
  simp only [List.cons_append, List.nil_append, isParts, hcontract, hids.1.isNumber,
    hids.2.isNumber, Bool.and_true]

/-- What is checked of a token. -/
theorem isUAL_token {tokenId : JsString} (hform : documented.form = .token tokenId) :
    isUAL (units "did:dkg:" ++ documented.text) =
      isParts [documented.blockchain ++ colon :: documented.contract, tokenId] := by
  have hid : IsDecimal tokenId := by simpa only [hform] using documented.isDecimal
  have hfirst : slash ∉ documented.blockchain ++ colon :: documented.contract := by
    simp only [List.mem_append, List.mem_cons, not_or]
    exact ⟨slash_notMem_blockchain, slash_ne_colon, documented.isName_contract.1⟩
  have hparts : documented.text.splitOn slash =
      [documented.blockchain ++ colon :: documented.contract] ++ [tokenId] := by
    rw [text, hform, List.splitOn_append_cons_self_of_not_mem hfirst,
      List.splitOn_eq_singleton hid.isName.1]
    rfl
  exact isUAL_append _ hparts hid.isName.2

/-- A token with a chain id is not accepted: the branch of three parts asks for two. -/
theorem isUAL_tokenWithChainId (h : documented.TokenWithChainId) :
    isUAL (units "did:dkg:" ++ documented.text) ≠ some true := by
  obtain ⟨hchain, tokenId, hform⟩ := h
  obtain ⟨chainId, hchain⟩ := Option.ne_none_iff_exists'.mp hchain
  have hparts2 : (documented.blockchain ++ colon :: documented.contract).splitOn colon =
      [documented.name, chainId, documented.contract] := by
    simp only [blockchain, hchain]
    rw [List.append_assoc, List.cons_append,
      List.splitOn_append_cons_self_of_not_mem documented.isName_name.2,
      List.splitOn_append_cons_self_of_not_mem (documented.isName_chainId chainId hchain).2,
      List.splitOn_eq_singleton documented.isName_contract.2]
  rw [isUAL_token hform, isParts, hparts2]
  simp

/-- A token without a chain id that resolves is accepted. -/
theorem isUAL_tokenWithoutChainId {tokenId : JsString} {resolved : ResolvedUAL}
    (hform : documented.form = .token tokenId) (hchain : documented.chainId = none)
    (h : service.resolveUAL documented.text = .ok resolved) :
    isUAL (units "did:dkg:" ++ documented.text) = some true := by
  have hid : IsDecimal tokenId := by simpa only [hform] using documented.isDecimal
  have hblockchain : documented.blockchain = documented.name := by simp only [blockchain, hchain]
  have hfirst : slash ∉ documented.name ++ colon :: documented.contract := by
    simp only [List.mem_append, List.mem_cons, not_or]
    exact ⟨documented.isName_name.1, slash_ne_colon, documented.isName_contract.1⟩
  have hparts2 : (documented.name ++ colon :: documented.contract).splitOn colon =
      [documented.name, documented.contract] := by
    rw [List.splitOn_append_cons_self_of_not_mem documented.isName_name.2,
      List.splitOn_eq_singleton documented.isName_contract.2]
  have hpartsOf : partsOf documented.text =
      [strip (documented.name ++ colon :: documented.contract), tokenId] := by
    rw [text, hform, hblockchain, partsOf_append_cons hfirst hid.isName.2,
      List.splitOn_eq_singleton hid.isName.1]
  have hcontract : isContract documented.contract = true := by
    simp only [resolveUAL, hpartsOf] at h
    rcases strip_eq_or_count (documented.name ++ colon :: documented.contract) with hstrip | hcount
    · rw [hstrip, hparts2] at h
      exact (withContract_eq_ok.mp h).1
    · -- the only colon is taken out, and no form is left
      have hlength := length_splitOn colon (documented.name ++ colon :: documented.contract)
      rw [hparts2] at hlength
      have hone : (strip (documented.name ++ colon :: documented.contract)).count colon = 0 := by
        simp only [List.length_cons, List.length_nil] at hlength
        omega
      rw [List.splitOn_eq_singleton (List.count_eq_zero.mp hone)] at h
      cases h
  rw [isUAL_token hform, hblockchain, isParts, hparts2]
  simp [hcontract, hid.isNumber]

/-- A UAL of a documented form that resolves is accepted if and only if it is no token with a chain
    id. -/
theorem isUAL_iff {resolved : ResolvedUAL}
    (h : service.resolveUAL documented.text = .ok resolved) :
    isUAL (units "did:dkg:" ++ documented.text) = some true ↔ ¬ documented.TokenWithChainId := by
  constructor
  · intro haccepted htoken
    exact isUAL_tokenWithChainId htoken haccepted
  · intro htoken
    cases hform : documented.form with
    | token tokenId =>
      refine isUAL_tokenWithoutChainId hform ?_ h
      by_contra hchain
      exact htoken ⟨hchain, tokenId, hform⟩
    | collection id => exact isUAL_collection hform h
    | asset id assetId => exact isUAL_asset hform h

end DocumentedUAL

/-- CODE BUG (two parsers): a UAL that is accepted resolves to what is expected if and only if it
    has three or four parts, no state, and a blockchain with its chain id or of an implementation;
    and a string of a documented form that resolves is accepted behind `did:dkg:` if and only if it
    is no token with a chain id. -/
theorem isUAL_resolveUAL_iff (service : UALService) :
    (∀ ual, isUAL ual = some true → (service.Resolves ual ↔ service.Resolvable ual)) ∧
      ∀ (documented : DocumentedUAL) (resolved : ResolvedUAL),
        service.resolveUAL documented.text = .ok resolved →
          (isUAL (units "did:dkg:" ++ documented.text) = some true ↔
            ¬ documented.TokenWithChainId) :=
  ⟨fun _ h => resolves_iff h, fun _ _ h => DocumentedUAL.isUAL_iff h⟩

/-- A contract address. -/
def someContract : JsString := units "0x" ++ List.replicate 40 (unit 'a')

/-- A service with one implementation. -/
def otpService : UALService := ⟨[units "otp:2043"]⟩

/-- A collection, without the chain id of its blockchain. -/
def collectionOfOtp : JsString := units "did:dkg:otp/" ++ someContract ++ units "/5"

/-- A token of a blockchain, with or without the chain id. -/
def tokenOfOtp (chainId : Option JsString)
    (h : ∀ chainId' ∈ chainId, IsName chainId') : DocumentedUAL where
  name := units "otp"
  chainId := chainId
  contract := someContract
  form := .token (units "5")
  isName_name := by decide
  isName_chainId := h
  isName_contract := by decide
  isDecimal := show IsDecimal (units "5") by decide

theorem resolves_collectionOfOtp : otpService.Resolves collectionOfOtp ∧
    (isUAL (units "did:dkg:" ++ (tokenOfOtp none nofun).text) = some true ↔
      ¬ (tokenOfOtp none nofun).TokenWithChainId) :=
  ⟨((isUAL_resolveUAL_iff otpService).1 collectionOfOtp (by decide +kernel)).mpr
      ⟨by decide, .inr ⟨_, List.mem_singleton.mpr rfl, by decide⟩⟩,
    (isUAL_resolveUAL_iff otpService).2 (tokenOfOtp none nofun)
      ⟨none, someContract, none, some (.finite 5), none⟩ (by decide +kernel)⟩

/-- COUNTEREXAMPLE: a token without a chain id is accepted and its blockchain is undefined, and with
    the chain id it resolves and is not accepted. -/
theorem not_resolves_tokenOfOtp :
    (isUAL (units "did:dkg:" ++ (tokenOfOtp none nofun).text) = some true ∧
      ¬ otpService.Resolves (units "did:dkg:" ++ (tokenOfOtp none nofun).text)) ∧
    ∃ (documented : DocumentedUAL) (resolved : ResolvedUAL),
      otpService.resolveUAL documented.text = .ok resolved ∧
      isUAL (units "did:dkg:" ++ documented.text) = some false := by
  have haccepted : isUAL (units "did:dkg:" ++ (tokenOfOtp none nofun).text) = some true := by
    decide +kernel
  have hparts : partsOf (units "did:dkg:" ++ (tokenOfOtp none nofun).text) =
      [units "otp:" ++ someContract, units "5"] := by decide
  refine ⟨⟨haccepted, not_resolves_of_two hparts haccepted⟩, ?_⟩
  exact ⟨tokenOfOtp (some (units "2043")) (by decide), ⟨some (units "otp2043"), someContract, none,
    some (.finite 5), none⟩, by decide +kernel, by decide +kernel⟩

end UALService

end OtNode
