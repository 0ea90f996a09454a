import OtNode.Lib.Number

/-! Errors of contract calls, and the reasons that are decoded from them.

    The data of a revert is looked for in the innermost error. Each decoder builds an error with the
    decoded reason and throws it where its own handler catches it, which throws the error that came
    in. -/

namespace OtNode

open Utf JsNumber

/-! ### Errors -/

/-- What an error has for its data: an object with data of its own, or something without. -/
inductive ErrorData where
  | undefined
  | null
  | value
  | string (s : JsString)
  | object (data : ErrorData)
  deriving DecidableEq

/-- What is read of an error and of those that it is nested in: the error within, and the data. -/
inductive NestedError where
  | mk (error : Option NestedError) (data : ErrorData)

/-- An error that is raised. -/
structure RevertError where
  message : JsString
  nested : NestedError
  /-- The data of the transaction. -/
  transaction : Option JsString := none

/-- An argument of a call, as far as its text depends on it. -/
inductive Argument where
  | nothing
  | string (s : JsString)
  | number (text : JsString)
  | array (values : List Argument)
  | object (entries : List (JsString × Argument))
  | other (text : JsString)

/-- A custom error of a contract, decoded. -/
structure CustomError where
  name : JsString
  inputs : List JsString
  args : List Argument

/-- The decoding of the library: of values, and by the ABI of a contract. -/
structure ContractInterface where
  decodeString : JsString → Except JsString JsString
  decodeUint256 : JsString → Except JsString ℕ
  parseError : JsString → Except JsString CustomError
  /-- The names of the inputs of the function with a selector. -/
  getFunction : JsString → Except JsString (List JsString)
  /-- The signatures of the functions, with their names. -/
  functions : List (JsString × JsString)
  encodes : JsString → List Argument → Bool
  sighash : JsString → JsString

/-- `SOLIDITY_ERROR_STRING_PREFIX`. -/
def solidityErrorStringPrefix : JsString := units "0x08c379a0"

/-- `SOLIDITY_PANIC_CODE_PREFIX`. -/
def solidityPanicCodePrefix : JsString := units "0x4e487b71"

/-- `SOLIDITY_PANIC_REASONS`. -/
def solidityPanicReasons : List (ℕ × String) :=
  [(0x1, "Assertion error"),
    (0x11, "Arithmetic operation underflowed or overflowed outside of an unchecked block"),
    (0x12, "Division or modulo division by zero"),
    (0x21, "Tried to convert a value into an enum, but the value was too big or negative"),
    (0x22, "Incorrectly encoded storage byte array"),
    (0x31, ".pop() was called on an empty array"),
    (0x32, "Array accessed at an out-of-bounds or negative index"),
    (0x41, "Too much memory was allocated, or an array was created that is too large"),
    (0x51, "Called a zero-initialized variable of internal function type")]

/-! ### Texts -/

/-- `parts.join(', ')`. -/
def commaSeparated (parts : List JsString) : JsString := (units ", ").intercalate parts

mutual

/-- `_formatArgument`. -/
def formatArgument : Argument → JsString
  | .nothing => units "null"
  | .string s => s
  | .number text => text
  | .array values => units "[" ++ commaSeparated (formatArguments values) ++ units "]"
  | .object entries => units "\x7b" ++ commaSeparated (formatEntries entries) ++ units "\x7d"
  | .other text => text

/-- The elements of an array. -/
def formatArguments : List Argument → List JsString
  | [] => []
  | value :: values => formatArgument value :: formatArguments values

/-- The entries of an object. -/
def formatEntries : List (JsString × Argument) → List JsString
  | [] => []
  | (k, v) :: entries => (k ++ units ": " ++ formatArgument v) :: formatEntries entries

end

/-- The inputs with their arguments. -/
def formatInputs (inputs : List JsString) (args : List Argument) : JsString :=
  commaSeparated (inputs.mapIdx fun i name =>
    name ++ units "=" ++ formatArgument (args.getD i .nothing))

/-! ### Decoding -/

namespace NestedError

/-- The data of the innermost error. -/
def errorData : NestedError → ErrorData
  | .mk none data => data
  | .mk (some error) _ => error.errorData

/-- An error within others. -/
def wrap (error : NestedError) : List ErrorData → NestedError
  | [] => error
  | data :: outer => .mk (some (error.wrap outer)) data

/-- The data is found however deep it is. -/
theorem errorData_wrap (error : NestedError) (outer : List ErrorData) :
    (error.wrap outer).errorData = error.errorData := by
  induction outer with
  | nil => rfl
  | cons data outer ih => rw [wrap, errorData, ih]

end NestedError

/-- `value.data`, of what is no string. -/
def ErrorData.inner : ErrorData → Except JsString ErrorData
  | .undefined => .error (units "Cannot read properties of undefined (reading 'data')")
  | .null => .error (units "Cannot read properties of null (reading 'data')")
  | .object data => .ok data
  | .value => .ok .undefined
  | .string _ => .ok .undefined

/-- `returnData.data` where it is an object and has any. -/
def ErrorData.unwrap : ErrorData → Except JsString ErrorData
  | .null => .error (units "Cannot read properties of null (reading 'data')")
  | .object (.string []) => .ok (.object (.string []))
  | .object (.string s) => .ok (.string s)
  | data => .ok data

/-- `_getErrorData`, or the message of what it throws. -/
def getErrorData (error : RevertError) : Except JsString JsString := do
  let returnData ← match error.nested.errorData with
    | .undefined => .error error.message
    | .string s => .ok (.string s)
    | data => data.inner
  match ← returnData.unwrap with
    | .string s => pure s
    | _ => .error error.message

namespace ContractInterface

variable (contractInterface : ContractInterface)

/-- A custom error as text. -/
def formatCustomError (decoded : CustomError) : JsString :=
  units "custom error " ++ decoded.name ++ units "(" ++
    formatInputs decoded.inputs decoded.args ++ units ")"

/-- The reason of a panic. -/
def panicReason (code : ℕ) : JsString :=
  units ((solidityPanicReasons.lookup code).getD "Unknown Solidity panic code.")

/-- `_decodeErrorData`. -/
def decodeErrorData (evmError : RevertError) : JsString :=
  match getErrorData evmError with
  | .error message => message
  | .ok errorData =>
    if errorData = units "0x" then units "Empty error data."
    else if solidityErrorStringPrefix <+: errorData then
      match contractInterface.decodeString
        (units "0x" ++ errorData.drop solidityErrorStringPrefix.length) with
      | .error message => message
      | .ok reason => reason
    else if solidityPanicCodePrefix <+: errorData then
      match contractInterface.decodeUint256
        (units "0x" ++ errorData.drop solidityPanicCodePrefix.length) with
      | .error message => message
      | .ok code => panicReason code
    else
      match contractInterface.parseError errorData with
      | .error error => units "Failed to decode custom error data. Error: " ++ error
      | .ok decoded => formatCustomError decoded

/-- `_getFunctionSighash`. -/
def getFunctionSighash (functionName : JsString) (args : List Argument) :
    Except JsString JsString :=
  match contractInterface.functions.find? fun function =>
      function.2 = functionName ∧ contractInterface.encodes function.1 args with
  | some function => .ok (contractInterface.sighash function.1)
  | none => .error (units "No matching function signature found")

/-- The call as text. -/
def formatCall (functionName : JsString) (args : List Argument) (sigHash : JsString) :
    Except JsString JsString := do
  let inputs ← contractInterface.getFunction sigHash
  pure (functionName ++ units "(" ++ formatInputs inputs args ++ units ")")

/-- What the `try` of `_decodeEstimateGasError` throws. -/
def tryEstimateGas (functionName : JsString) (error : RevertError) (args : List Argument) :
    Except JsString Empty :=
  let decodedErrorData := contractInterface.decodeErrorData error
  match error.transaction with
  | none => .error (units "Gas estimation for " ++ functionName ++
      units " has failed, reason: " ++ decodedErrorData)
  | some data => do
    let call ← contractInterface.formatCall functionName args (data.take 10)
    throw (units "Gas estimation for " ++ call ++ units " has failed, reason: " ++
      decodedErrorData)

/-- What the `try` of `_decodeWaitForTxError` throws. -/
def tryWaitForTx (functionName : JsString) (error : RevertError) (args : List Argument) :
    Except JsString Empty := do
  let decodedErrorData := contractInterface.decodeErrorData error
  let sigHash ← match error.transaction with
    | some data => .ok (data.take 10)
    | none => contractInterface.getFunctionSighash functionName args
  let call ← contractInterface.formatCall functionName args sigHash
  throw (units "Transaction " ++ call ++ units " has been reverted, reason: " ++
    decodedErrorData)

/-- What the `try` of `_decodeContractCallError` throws. -/
def tryContractCall (functionName : JsString) (error : RevertError) (args : List Argument) :
    Except JsString Empty := do
  let decodedErrorData := contractInterface.decodeErrorData error
  let data ← match error.transaction with
    | some data => .ok data
    | none => .error (units "Cannot read properties of undefined (reading 'data')")
  let call ← contractInterface.formatCall functionName args (data.take 10)
  throw (units "Call " ++ call ++ units " failed, reason: " ++ decodedErrorData)

/-- A decoder: the error is thrown again from the handler of its own `try`. -/
def decodeAndThrow (thrown : Except JsString Empty) (error : RevertError) : RevertError :=
  match thrown with
  | .error _decodeError => error
  | .ok never => never.elim

/-- `_decodeEstimateGasError`. -/
def decodeEstimateGasError (functionName : JsString) (error : RevertError)
    (args : List Argument) : RevertError :=
  decodeAndThrow (contractInterface.tryEstimateGas functionName error args) error

/-- `_decodeWaitForTxError`. -/
def decodeWaitForTxError (functionName : JsString) (error : RevertError)
    (args : List Argument) : RevertError :=
  decodeAndThrow (contractInterface.tryWaitForTx functionName error args) error

/-- `_decodeContractCallError`. -/
def decodeContractCallError (functionName : JsString) (error : RevertError)
    (args : List Argument) : RevertError :=
  decodeAndThrow (contractInterface.tryContractCall functionName error args) error

end ContractInterface

/-! ### Calls and transactions -/

/-- A call of a contract function: what is cached, what each attempt returns or raises, and whether
    a result is valid. -/
structure ContractCall (τ : Type) where
  functionName : JsString
  args : List Argument
  cached : Option τ
  attempt : ℕ → Except RevertError τ
  resultIsValid : τ → Bool

namespace ContractCall

variable {τ : Type} (call : ContractCall τ) (contractInterface : ContractInterface)

/-- The attempts that are left, from one on. -/
def attempts : ℕ → ℕ → Except RevertError (Option τ)
  | 0, _ => .ok none
  | left + 1, retryCount => do
    let result ← call.attempt retryCount
    if call.resultIsValid result then pure (some result) else attempts left (retryCount + 1)

/-- `callContractFunction`. -/
def callContractFunction : Except RevertError (Option τ) :=
  match call.cached with
  | some result => .ok (some result)
  | none =>
    match call.attempts 3 0 with
    | .ok result => .ok result
    | .error error =>
      .error (contractInterface.decodeContractCallError call.functionName error call.args)

end ContractCall

/-- A transaction: what is estimated, sent and waited for. The sending takes the limit of gas. -/
structure ContractTransaction where
  functionName : JsString
  args : List Argument
  estimateGas : Except RevertError ℕ
  /-- A hundred times the factor by which the limit of the function is increased. -/
  gasLimitMultiplier : ℕ
  send : ℕ → Except RevertError Unit
  /-- The status of the receipt. -/
  waitForTransaction : Except RevertError ℕ
  /-- The call of the transaction at its block. -/
  replay : Except RevertError Unit

namespace ContractTransaction

variable (transaction : ContractTransaction) (contractInterface : ContractInterface)

/-- The wait, with the call behind it where the transaction has failed. -/
def wait : Except RevertError ℕ := do
  let status ← transaction.waitForTransaction
  if status = 0 then transaction.replay
  pure status

/-- `_executeContractFunction`. -/
def executeContractFunction : Except RevertError ℕ :=
  match transaction.estimateGas with
  | .error error => .error
      (contractInterface.decodeEstimateGasError transaction.functionName error transaction.args)
  | .ok gasLimit =>
    match transaction.send (gasLimit * transaction.gasLimitMultiplier / 100) with
    | .error error => .error error
    | .ok () =>
      match transaction.wait with
      | .ok status => .ok status
      | .error error => .error
          (contractInterface.decodeWaitForTxError transaction.functionName error transaction.args)

end ContractTransaction

/-! ### Explained reverts -/

namespace ContractInterface

variable (contractInterface : ContractInterface)

/-- The reason that the data of a revert decodes to, if it does. -/
def decodedReason (error : RevertError) : Option JsString := do
  let errorData ← (getErrorData error).toOption
  if errorData = units "0x" then none
  else if solidityErrorStringPrefix <+: errorData then
    (contractInterface.decodeString
      (units "0x" ++ errorData.drop solidityErrorStringPrefix.length)).toOption
  else if solidityPanicCodePrefix <+: errorData then
    (contractInterface.decodeUint256
      (units "0x" ++ errorData.drop solidityPanicCodePrefix.length)).toOption.map panicReason
  else (contractInterface.parseError errorData).toOption.map formatCustomError

/-- The message has the name of the function and the reason. -/
def Mentions (error : RevertError) (functionName reason : JsString) : Prop :=
  functionName <:+: error.message ∧ reason <:+: error.message

/-- What is thrown explains what was raised, or is the same error where nothing is decoded. -/
def Explains (functionName : JsString) (raised thrown : RevertError) : Prop :=
  match contractInterface.decodedReason raised with
  | some reason => Mentions thrown functionName reason
  | none => thrown = raised

variable {contractInterface} {functionName : JsString} {raised thrown error : RevertError}
  {args : List Argument}

/-- A reason that is decoded is the one in the text of the decoders. -/
theorem decodeErrorData_eq {reason : JsString}
    (h : contractInterface.decodedReason error = some reason) :
    contractInterface.decodeErrorData error = reason := by
  rw [decodedReason] at h
  rw [decodeErrorData]
  cases hdata : getErrorData error with
  | error message =>
    rw [hdata] at h
    cases h
  | ok errorData =>
    rw [hdata] at h
    simp only [Except.toOption, Option.bind_eq_bind, Option.bind_some] at h
    dsimp only
    split_ifs at h ⊢
    · cases hdecoded : contractInterface.decodeString
          (units "0x" ++ errorData.drop solidityErrorStringPrefix.length) with
      | error message => simp [hdecoded] at h
      | ok reason => simpa [hdecoded] using h
    · cases hdecoded : contractInterface.decodeUint256
          (units "0x" ++ errorData.drop solidityPanicCodePrefix.length) with
      | error message => simp [hdecoded] at h
      | ok code => simpa [hdecoded] using h
    · cases hdecoded : contractInterface.parseError errorData with
      | error message => simp [hdecoded] at h
      | ok decoded => simpa [hdecoded] using h

/-- How deep the data is makes no difference. -/
theorem decodedReason_wrap (error : RevertError) (outer : List ErrorData) :
    contractInterface.decodedReason { error with nested := error.nested.wrap outer } =
      contractInterface.decodedReason error := by
  simp only [decodedReason, getErrorData, NestedError.errorData_wrap]

/-- What is thrown is what came in, whatever was decoded. -/
theorem decodeAndThrow_eq (block : Except JsString Empty) (error : RevertError) :
    decodeAndThrow block error = error := by
  cases block with
  | error decodeError => rfl
  | ok never => exact never.elim

/-- The error that was raised explains itself where its message does. -/
theorem explains_self_iff :
    contractInterface.Explains functionName raised raised ↔
      ∀ reason, contractInterface.decodedReason raised = some reason →
        Mentions raised functionName reason := by
  rw [Explains]
  cases contractInterface.decodedReason raised with
  | none => simp
  | some reason => simp

end ContractInterface

/-- RUN: what a call throws is what an attempt raised. -/
theorem ContractCall.callContractFunction_eq {τ : Type} {call : ContractCall τ}
    {contractInterface : ContractInterface} {raised : RevertError} (hcached : call.cached = none)
    (h : call.attempts 3 0 = .error raised) :
    call.callContractFunction contractInterface = .error raised := by
  rw [callContractFunction, hcached, h]
  dsimp only
  rw [ContractInterface.decodeContractCallError, ContractInterface.decodeAndThrow_eq]

namespace ContractTransaction

variable {transaction : ContractTransaction} {contractInterface : ContractInterface}
  {raised : RevertError} {gasLimit : ℕ}

/-- RUN: what a transaction throws is what its estimation raised. -/
theorem executeContractFunction_of_estimateGas (h : transaction.estimateGas = .error raised) :
    transaction.executeContractFunction contractInterface = .error raised := by
  rw [executeContractFunction, h]
  dsimp only
  rw [ContractInterface.decodeEstimateGasError, ContractInterface.decodeAndThrow_eq]

/-- RUN: what a transaction throws is what its wait raised. -/
theorem executeContractFunction_of_wait (hgas : transaction.estimateGas = .ok gasLimit)
    (hsend : transaction.send (gasLimit * transaction.gasLimitMultiplier / 100) = .ok ())
    (h : transaction.wait = .error raised) :
    transaction.executeContractFunction contractInterface = .error raised := by
  rw [executeContractFunction, hgas]
  dsimp only
  rw [hsend, h]
  dsimp only
  rw [ContractInterface.decodeWaitForTxError, ContractInterface.decodeAndThrow_eq]

end ContractTransaction

/-- CODE BUG (reverts): what is thrown for an error of a call, of an estimation or of a wait
    explains it if and only if the message of that error does already. -/
theorem reverts_explained_iff (contractInterface : ContractInterface) (raised : RevertError) :
    (∀ {τ : Type} (call : ContractCall τ), call.cached = none →
      call.attempts 3 0 = .error raised →
      ∃ thrown, call.callContractFunction contractInterface = .error thrown ∧
        (contractInterface.Explains call.functionName raised thrown ↔
          ∀ reason, contractInterface.decodedReason raised = some reason →
            ContractInterface.Mentions raised call.functionName reason)) ∧
    (∀ transaction : ContractTransaction, transaction.estimateGas = .error raised →
      ∃ thrown, transaction.executeContractFunction contractInterface = .error thrown ∧
        (contractInterface.Explains transaction.functionName raised thrown ↔
          ∀ reason, contractInterface.decodedReason raised = some reason →
            ContractInterface.Mentions raised transaction.functionName reason)) ∧
    ∀ (transaction : ContractTransaction) (gasLimit : ℕ),
      transaction.estimateGas = .ok gasLimit →
      transaction.send (gasLimit * transaction.gasLimitMultiplier / 100) = .ok () →
      transaction.wait = .error raised →
      ∃ thrown, transaction.executeContractFunction contractInterface = .error thrown ∧
        (contractInterface.Explains transaction.functionName raised thrown ↔
          ∀ reason, contractInterface.decodedReason raised = some reason →
            ContractInterface.Mentions raised transaction.functionName reason) := by
  refine ⟨fun call hcached hraised => ?_, fun transaction hraised => ?_,
    fun transaction gasLimit hgas hsend hraised => ?_⟩
  · exact ⟨raised, ContractCall.callContractFunction_eq hcached hraised,
      ContractInterface.explains_self_iff⟩
  · exact ⟨raised, ContractTransaction.executeContractFunction_of_estimateGas hraised,
      ContractInterface.explains_self_iff⟩
  · exact ⟨raised, ContractTransaction.executeContractFunction_of_wait hgas hsend hraised,
      ContractInterface.explains_self_iff⟩

/-- The text `Profile already exists`, encoded: its place, its length, and its bytes. -/
def encodedReason : JsString :=
  List.replicate 62 (unit '0') ++ units "20" ++ List.replicate 62 (unit '0') ++ units "16" ++
    units "50726f66696c6520616c726561647920657869737473" ++ List.replicate 20 (unit '0')

/-- An interface that decodes this text. -/
def profileInterface : ContractInterface where
  decodeString data :=
    if data = units "0x" ++ encodedReason then .ok (units "Profile already exists")
    else .error (units "data out-of-bounds")
  decodeUint256 _ := .error (units "data out-of-bounds")
  parseError _ := .error (units "Error: no matching error")
  getFunction _ := .error (units "no matching function")
  functions := []
  encodes _ _ := false
  sighash _ := []

/-- What the estimation of gas raises where the profile exists. -/
def profileExists : RevertError where
  message := units "cannot estimate gas; transaction may fail or may require manual gas limit"
  nested := .mk (some (.mk none (.string (solidityErrorStringPrefix ++ encodedReason)))) .undefined

/-- A transaction whose estimation raises it. -/
def createProfile : ContractTransaction where
  functionName := units "createProfile"
  args := []
  estimateGas := .error profileExists
  gasLimitMultiplier := 100
  send _ := .ok ()
  waitForTransaction := .ok 1
  replay := .ok ()

theorem reverts_explained_iff_createProfile :
    ∃ thrown, createProfile.executeContractFunction profileInterface = .error thrown ∧
      (profileInterface.Explains (units "createProfile") profileExists thrown ↔
        ∀ reason, profileInterface.decodedReason profileExists = some reason →
          ContractInterface.Mentions profileExists (units "createProfile") reason) :=
  (reverts_explained_iff profileInterface profileExists).2.1 createProfile rfl

/-- COUNTEREXAMPLE: the reason is decoded, and what is thrown has neither it nor the name of the
    function. -/
theorem createProfile_unexplained :
    createProfile.executeContractFunction profileInterface = .error profileExists ∧
      profileInterface.decodedReason profileExists = some (units "Profile already exists") ∧
      ¬ profileInterface.Explains (units "createProfile") profileExists profileExists := by
  have hreason : profileInterface.decodedReason profileExists =
      some (units "Profile already exists") := by
    decide +kernel
  refine ⟨rfl, hreason, ?_⟩
  rw [ContractInterface.Explains, hreason]
  rintro ⟨hname, -⟩
  revert hname
  decide +kernel

end OtNode
