import OtNode.Ual.RoundTrip

/-! The ids of the paranets, and the validation that asks the blockchain with them.

    A UAL resolves to a collection or to a token, never to both. Publish makes the id of a paranet
    from the token and get makes it from the collection, so that what the one takes for a paranet is
    none for the other. -/

namespace OtNode

open Utf JsNumber

/-- The service. The contract of the encoder is the address, and its number is undefined where the
    UAL has none. -/
structure ParanetService where
  ualService : UALService
  keccak256EncodePacked : JsString → Option JsNumber → Except JsString JsString

/-- What the validation asks the blockchain. -/
structure ParanetsRegistry where
  paranetExists : Option JsString → JsString → Except JsString Bool
  getNodesAccessPolicy : Option JsString → JsString → Except JsString ℕ
  getIdentityId : JsString → Except JsString ℕ
  isCuratedNode : JsString → JsString → ℕ → Except JsString Bool

/-- `PARANET_ACCESS_POLICY.CURATED`. -/
def curated : ℕ := 1

/-- How a validation ends: with `handleError`, with what nothing catches, or with the next command.
    -/
inductive ValidationEnd where
  | failed (blockchain : Option JsString) (errorMessage : JsString)
  | thrown (message : JsString)
  | continues (paranetId : Option JsString)
  deriving DecidableEq

namespace ParanetService

variable (service : ParanetService)

/-- `constructParanetId`. -/
def constructParanetId (contract : JsString) (tokenId : Option JsNumber) :
    Except JsString JsString :=
  service.keccak256EncodePacked contract tokenId

/-- `getParanetIdFromUAL`. -/
def getParanetIdFromUAL (paranetUAL : JsString) : Except JsString JsString := do
  let resolved ← service.ualService.resolveUAL paranetUAL
  service.constructParanetId resolved.contract resolved.tokenId

end ParanetService

/-! ### Publish -/

/-- What `PublishValidateAssetCommand` reads of its command. -/
structure PublishValidateAssetCommand where
  blockchain : JsString
  paranetUAL : Option JsString
  isTripleParanet : Bool
  /-- The validation of the roots. -/
  validated : Except JsString Unit

namespace PublishValidateAssetCommand

variable (service : ParanetService) (registry : ParanetsRegistry)
  (command : PublishValidateAssetCommand)

/-- The id that publish makes of what a UAL resolves to. -/
def constructParanetId (resolved : ResolvedUAL) : Except JsString JsString :=
  service.constructParanetId resolved.contract resolved.tokenId

/-- What `paranetUAL` resolves to. -/
def resolveParanet : Except JsString ResolvedUAL :=
  match command.paranetUAL with
  | none => .error (units "Cannot read properties of undefined (reading 'replace')")
  | some paranetUAL => service.ualService.resolveUAL paranetUAL

/-- The body of the `try`. -/
def checkParanet : Except JsString ValidationEnd := do
  let resolved ← command.resolveParanet service
  let paranetId ← constructParanetId service resolved
  let failed (errorMessage : JsString) : ValidationEnd :=
    .failed (some command.blockchain) errorMessage
  let paranetExists ← registry.paranetExists resolved.blockchain paranetId
  if !paranetExists then
    pure (failed (units "Paranet: " ++ paranetId ++ units " doesn't exist."))
  else
    let nodesAccessPolicy ← registry.getNodesAccessPolicy (some command.blockchain) paranetId
    if nodesAccessPolicy = curated then
      let identityId ← registry.getIdentityId command.blockchain
      let isCuratedNode ← registry.isCuratedNode command.blockchain paranetId identityId
      if !isCuratedNode then
        pure (failed (units "Node is not part of curated paranet " ++ paranetId ++
          units "  because node with id " ++ digits identityId ++ units " is not a curated node."))
      else pure (.continues (some paranetId))
    else pure (failed (units "Paranet " ++ paranetId ++ units " is not curated paranet."))

/-- `execute`. -/
def execute : ValidationEnd :=
  match command.validated with
  | .error message => .thrown message
  | .ok () =>
    if command.isTripleParanet then
      match command.checkParanet service registry with
      | .error message => .failed (some command.blockchain) message
      | .ok checked => checked
    else .continues none

end PublishValidateAssetCommand

/-! ### Get -/

/-- What `GetValidateAssetCommand` reads of its command. -/
structure GetValidateAssetCommand where
  operationId : JsString
  blockchain : JsString
  ual : JsString
  paranetUAL : Option JsString
  isOperationV0 : Bool
  isV6Contract : Bool
  validateUal : Except JsString Bool

namespace GetValidateAssetCommand

open UALService

variable (service : ParanetService) (registry : ParanetsRegistry)
  (command : GetValidateAssetCommand)

/-- The id that get makes of what a UAL resolves to. -/
def constructParanetId (resolved : ResolvedUAL) : Except JsString JsString :=
  service.constructParanetId resolved.contract resolved.knowledgeCollectionId

/-- `Get for operation id: ...`. -/
def errorMessage (parts : JsString) : JsString :=
  units "Get for operation id: " ++ command.operationId ++ parts

/-- The end of `execute`, behind the check of the paranet. -/
def checkUal : Except JsString ValidationEnd :=
  if !command.isOperationV0 && !command.isV6Contract then do
    let isValidUal ← command.validateUal
    if !isValidUal then
      pure (.failed (some command.blockchain) (command.errorMessage
        (units ", UAL: " ++ command.ual ++ units ": there is no asset with this UAL.")))
    else pure (.continues none)
  else .ok (.continues none)

/-- `execute` from the block of the paranet on. -/
def checkParanet (paranetUAL : JsString) : Except JsString ValidationEnd := do
  let resolved ← service.ualService.resolveUAL paranetUAL
  let failed (text : String) : ValidationEnd := .failed resolved.blockchain
    (command.errorMessage (units ", Paranet UAL: " ++ paranetUAL ++ units text))
  if isUAL paranetUAL ≠ some true then pure (failed ": is not a UAL.")
  else
    let paranetId ← constructParanetId service resolved
    let paranetExists ← registry.paranetExists resolved.blockchain paranetId
    if !paranetExists then pure (failed ". Paranet does not exist.")
    else
      let paranetNodesAccessPolicy ← registry.getNodesAccessPolicy resolved.blockchain paranetId
      if paranetNodesAccessPolicy = curated then
        pure (failed ". Curated paranets are currently not supported.")
      else command.checkUal

/-- `execute`, up to what it throws. -/
def run : Except JsString ValidationEnd :=
  if isUAL command.ual ≠ some true then
    .ok (.failed (some command.blockchain) (command.errorMessage
      (units ", UAL: " ++ command.ual ++ units ": is not a UAL.")))
  else
    let paranetUAL := command.paranetUAL.getD []
    if paranetUAL ≠ [] then command.checkParanet service registry paranetUAL
    else command.checkUal

/-- `execute`. -/
def execute : ValidationEnd :=
  match command.run service registry with
  | .error message => .thrown message
  | .ok validationEnd => validationEnd

end GetValidateAssetCommand

/-! ### One id -/

/-- A UAL resolves to a collection or to a token. -/
theorem UALService.tokenId_or_knowledgeCollectionId {service : UALService} {ual : JsString}
    {resolved : ResolvedUAL} (h : service.resolveUAL ual = .ok resolved) :
    resolved.tokenId = none ∨ resolved.knowledgeCollectionId = none := by
  rw [resolveUAL] at h
  split at h
  · obtain ⟨-, rfl⟩ := withContract_eq_ok.mp h
    exact .inl rfl
  · obtain ⟨-, rfl⟩ := withContract_eq_ok.mp h
    exact .inl rfl
  · split at h
    · obtain ⟨-, rfl⟩ := withContract_eq_ok.mp h
      exact .inr rfl
    · obtain ⟨-, rfl⟩ := withContract_eq_ok.mp h
      exact .inr rfl
    · cases h
  · cases h

/-- What publish continues with is the id of its paranet. -/
theorem PublishValidateAssetCommand.checkParanet_eq_continues {service : ParanetService}
    {registry : ParanetsRegistry} {command : PublishValidateAssetCommand} {paranetUAL : JsString}
    {paranetId : Option JsString} (hparanet : command.paranetUAL = some paranetUAL)
    (h : command.checkParanet service registry = .ok (.continues paranetId)) :
    ∃ id, paranetId = some id ∧
      service.ualService.resolveUAL paranetUAL >>= constructParanetId service = .ok id := by
  obtain ⟨resolved, hresolved, h⟩ := bind_eq_ok h
  rw [resolveParanet, hparanet] at hresolved
  obtain ⟨id, hid, h⟩ := bind_eq_ok h
  obtain ⟨paranetExists, -, h⟩ := bind_eq_ok h
  refine ⟨id, ?_, ?_⟩
  · cases paranetExists with
    | false => cases h
    | true =>
      obtain ⟨nodesAccessPolicy, -, h⟩ := bind_eq_ok h
      split at h
      · obtain ⟨identityId, -, h⟩ := bind_eq_ok h
        obtain ⟨isCuratedNode, -, h⟩ := bind_eq_ok h
        cases isCuratedNode with
        | false => cases h
        | true =>
          cases h
          rfl
      · cases h
  · exact (congrArg (· >>= constructParanetId service) hresolved).trans hid

/-- Where get continues, it has an id of the paranet. -/
theorem GetValidateAssetCommand.checkParanet_eq_continues {service : ParanetService}
    {registry : ParanetsRegistry} {command : GetValidateAssetCommand} {paranetUAL : JsString}
    {paranetId : Option JsString}
    (h : command.checkParanet service registry paranetUAL = .ok (.continues paranetId)) :
    ∃ id, service.ualService.resolveUAL paranetUAL >>= constructParanetId service = .ok id := by
  obtain ⟨resolved, hresolved, h⟩ := bind_eq_ok h
  dsimp only at h
  split at h
  · cases h
  · obtain ⟨id, hid, -⟩ := bind_eq_ok h
    rw [hresolved]
    exact ⟨id, hid⟩

section Undefined

variable {service : ParanetService} {registry : ParanetsRegistry} {paranetUAL : JsString}
  (hundefined : ∀ contract, ∃ message, service.keccak256EncodePacked contract none = .error message)

include hundefined

/-- The id that publish makes is one of a token. -/
theorem PublishValidateAssetCommand.tokenId_ne_none {resolved : ResolvedUAL} {id : JsString}
    (h : constructParanetId service resolved = .ok id) : resolved.tokenId ≠ none := by
  intro hnone
  obtain ⟨message, hmessage⟩ := hundefined resolved.contract
  rw [constructParanetId, ParanetService.constructParanetId, hnone, hmessage] at h
  cases h

/-- The id that get makes is one of a collection. -/
theorem GetValidateAssetCommand.knowledgeCollectionId_ne_none {resolved : ResolvedUAL}
    {id : JsString} (h : constructParanetId service resolved = .ok id) :
    resolved.knowledgeCollectionId ≠ none := by
  intro hnone
  obtain ⟨message, hmessage⟩ := hundefined resolved.contract
  rw [constructParanetId, ParanetService.constructParanetId, hnone, hmessage] at h
  cases h

/-- Publish and get do not both make an id of a UAL. -/
theorem not_constructParanetId {publishId getId : JsString}
    (hpublish : service.ualService.resolveUAL paranetUAL >>=
      PublishValidateAssetCommand.constructParanetId service = .ok publishId)
    (hget : service.ualService.resolveUAL paranetUAL >>=
      GetValidateAssetCommand.constructParanetId service = .ok getId) : False := by
  obtain ⟨resolved, hresolved, hpublish⟩ := bind_eq_ok hpublish
  obtain ⟨resolved', hresolved', hget⟩ := bind_eq_ok hget
  obtain rfl := Except.ok.inj (hresolved.symm.trans hresolved')
  rcases UALService.tokenId_or_knowledgeCollectionId hresolved with hnone | hnone
  · exact PublishValidateAssetCommand.tokenId_ne_none hundefined hpublish hnone
  · exact GetValidateAssetCommand.knowledgeCollectionId_ne_none hundefined hget hnone

/-- No paranet is good for publish and for get. -/
theorem not_both_continue {publish : PublishValidateAssetCommand} {get : GetValidateAssetCommand}
    {publishId getId : Option JsString} (hpublish : publish.paranetUAL = some paranetUAL)
    (hparanet : publish.isTripleParanet = true) (hget : get.paranetUAL = some paranetUAL)
    (hne : paranetUAL ≠ []) (hpublished : publish.execute service registry = .continues publishId) :
    get.execute service registry ≠ .continues getId := by
  intro hgot
  rw [PublishValidateAssetCommand.execute, hparanet] at hpublished
  rw [GetValidateAssetCommand.execute, GetValidateAssetCommand.run, hget, Option.getD_some,
    if_pos hne] at hgot
  split at hpublished
  · cases hpublished
  · rw [if_pos rfl] at hpublished
    split at hpublished
    · cases hpublished
    · rename_i hchecked
      rw [hpublished] at hchecked
      obtain ⟨publishId, -, hpublishId⟩ :=
        PublishValidateAssetCommand.checkParanet_eq_continues hpublish hchecked
      split at hgot
      · cases hgot
      · rename_i hrun
        rw [hgot] at hrun
        split at hrun
        · cases hrun
        · obtain ⟨getId, hgetId⟩ := GetValidateAssetCommand.checkParanet_eq_continues hrun
          exact not_constructParanetId hundefined hpublishId hgetId

end Undefined

/-- CODE BUG (one id): no UAL, accepted or not, has one id on the path of publish, on the path of
    get and by `getParanetIdFromUAL`. -/
theorem not_oneParanetId (service : ParanetService)
    (hundefined : ∀ contract, ∃ message,
      service.keccak256EncodePacked contract none = .error message)
    (paranetUAL : JsString) :
    ¬ ∃ id, service.ualService.resolveUAL paranetUAL >>=
          PublishValidateAssetCommand.constructParanetId service = .ok id ∧
        service.ualService.resolveUAL paranetUAL >>=
          GetValidateAssetCommand.constructParanetId service = .ok id ∧
        service.getParanetIdFromUAL paranetUAL = .ok id := by
  rintro ⟨id, hpublish, hget, -⟩
  exact not_constructParanetId hundefined hpublish hget

/-- An encoder that packs natural numbers, and nothing else. -/
def someParanets : ParanetService where
  ualService := UALService.otpService
  keccak256EncodePacked contract tokenId :=
    match tokenId with
    | some (.finite value) =>
      if value.den = 1 ∧ 0 ≤ value.num then .ok (contract ++ digits value.num.toNat)
      else .error (units "underflow")
    | _ => .error (units "invalid BigNumber value")

open UALService in
theorem not_oneParanetId_collection :
    ¬ ∃ id, someParanets.ualService.resolveUAL (ualOf (units "otp:2043")) >>=
          PublishValidateAssetCommand.constructParanetId someParanets = .ok id ∧
        someParanets.ualService.resolveUAL (ualOf (units "otp:2043")) >>=
          GetValidateAssetCommand.constructParanetId someParanets = .ok id ∧
        someParanets.getParanetIdFromUAL (ualOf (units "otp:2043")) = .ok id :=
  not_oneParanetId someParanets (fun _ => ⟨units "invalid BigNumber value", rfl⟩)
    (ualOf (units "otp:2043"))

open UALService in
/-- COUNTEREXAMPLE: get makes an id of a collection, and publish and `getParanetIdFromUAL` throw. -/
theorem constructParanetId_collection :
    isUAL (ualOf (units "otp:2043")) = some true ∧
      someParanets.ualService.resolveUAL (ualOf (units "otp:2043")) >>=
        GetValidateAssetCommand.constructParanetId someParanets = .ok (someContract ++ digits 5) ∧
      someParanets.ualService.resolveUAL (ualOf (units "otp:2043")) >>=
        PublishValidateAssetCommand.constructParanetId someParanets =
          .error (units "invalid BigNumber value") ∧
      someParanets.getParanetIdFromUAL (ualOf (units "otp:2043")) =
        .error (units "invalid BigNumber value") := by
  decide +kernel

end OtNode
