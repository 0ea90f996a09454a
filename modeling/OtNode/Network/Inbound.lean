import OtNode.Network.Wire

/-! Inbound messages: from the bytes of a stream to the registered handler or a rejection.

    A remote peer decides every byte. Reading is guarded by a `try` around the two calls of
    `JSON.parse` only, so an error of the stream before the first chunk, a header that is `null`, and
    an operation id that is no string can get past it. -/

namespace OtNode

open Utf Json

namespace Json

/-- A number while its characters are read: the digits, their exponent, and the part being read. -/
structure Decimal where
  mantissa : ℕ := 0
  scale : ℕ := 0
  exponent : ℕ := 0
  inFraction : Bool := false
  inExponent : Bool := false
  negative : Bool := false

/-- One character of a number. -/
def Decimal.read (d : Decimal) (c : UInt16) : Decimal :=
  if isDigit c then
    if d.inExponent then { d with exponent := d.exponent * 10 + (c.toNat - 48) }
    else
      { d with
        mantissa := d.mantissa * 10 + (c.toNat - 48)
        scale := if d.inFraction then d.scale + 1 else d.scale }
  else if c = 46 then { d with inFraction := true }
  else if c = 69 ∨ c = 101 then { d with inExponent := true }
  else if c = 45 then { d with negative := d.inExponent }
  else d

/-- A number that is not rounded to zero: it is larger than half the least double. -/
def Number.truthy (n : Number) : Bool :=
  let d := n.text.foldl Decimal.read {}
  let up := if d.negative then 0 else d.exponent
  let down := d.scale + if d.negative then d.exponent else 0
  decide (10 ^ down < d.mantissa * 10 ^ up * 2 ^ 1075)

/-- What counts as true. -/
def Value.truthy : Value → Bool
  | .null => false
  | .bool b => b
  | .num n => n.truthy
  | .str s => s ≠ []
  | .arr _ | .obj _ => true

mutual

/-- A value with a string form. The `toString` of an object read from JSON is no function, and an
    array is the strings of its elements. -/
def Value.coercible : Value → Bool
  | .arr xs => coercibleElements xs
  | .obj ms => !ms.any fun m => m.1 = units "toString"
  | .null | .bool _ | .num _ | .str _ => true

def coercibleElements : List Value → Bool
  | [] => true
  | x :: xs => x.coercible && coercibleElements xs

end

end Json

/-- `NETWORK_MESSAGE_TYPES.REQUESTS`. -/
def isRequestType : Option Value → Bool
  | some (.str s) => s = units "PROTOCOL_REQUEST"
  | _ => false

/-- `!header.operationId` and its like. -/
def isTruthy : Option Value → Bool
  | none => false
  | some v => v.truthy

/-- `isRequestValid`. `limited` is the answer of `limitRequest`, which does not read the header. -/
def isRequestValid (limited : Bool) (header : Value) : Except String Bool := do
  if limited then return false
  let operationId ← field header (units "operationId")
  let messageType ← field header (units "messageType")
  return isTruthy operationId && isTruthy messageType && isRequestType messageType

/-- `updateSessionStream`. The operation id is put into a log message and used as a key. -/
def updateSessionStream (operationId : Option Value) : Except String Unit :=
  match operationId with
  | none => .ok ()
  | some v => if v.coercible then .ok () else .error "Cannot convert object to primitive value"

/-- How a stream ends: with a response, or with the message handed to the registered handler. -/
inductive Inbound where
  | nack
  | busy
  | handled (message : Message)

/-- The answer to a message that was read. -/
def ReadResult.inbound (result : ReadResult) : Inbound :=
  if !result.valid then .nack else if result.busy then .busy else .handled result.message

/-- The handler of a stream in `handleMessage`. The session just stored is found again, and the
    writes succeed. -/
def handleMessage (limited isBusy : Bool) (source : Decoded) : Except String Inbound := do
  let result ← readMessageSink (isRequestValid limited) isBusy source
  let operationId ← field result.message.header (units "operationId")
  updateSessionStream operationId
  return result.inbound

/-- A header as `createStreamMessage` makes it. -/
def WellFormedHeader (header : Value) : Prop :=
  ∃ operationId, field header (units "operationId") = .ok (some (.str operationId)) ∧
    operationId ≠ [] ∧
    field header (units "messageType") = .ok (some (.str (units "PROTOCOL_REQUEST")))

/-- A rejection, or a message with a well-formed header for the handler. -/
def Inbound.Proper : Inbound → Prop
  | .nack | .busy => True
  | .handled message => WellFormedHeader message.header

/-- A header that gets through: it is not `null`, its operation id has a string form, and is a string
    unless the message is rejected. -/
def Harmless (limited : Bool) (header : Value) (data : Option Value) : Prop :=
  ∃ operationId, field header (units "operationId") = .ok operationId ∧
    (∀ v ∈ operationId, v.coercible = true) ∧
    (isRequestValid limited header = .ok true → data ≠ none → ∃ s, operationId = some (.str s))

/-- A stream that gets through: it does not throw before its first buffer, and a header that can be
    read from it is harmless. -/
def Source (limited : Bool) (source : Decoded) : Prop :=
  match source.buffers.map Utf.decode with
  | [] => source.throws = false
  | stringifiedHeader :: chunks => ∀ header, parse stringifiedHeader = some header →
      Harmless limited header (readData chunks source.throws)

/-! ### What a stream comes to -/

section

variable {limited isBusy : Bool} {header : Value}

theorem field_of_ne_null (h : header ≠ .null) (name : JsString) :
    ∃ v, field header name = .ok v := by
  cases header with
  | null => exact absurd rfl h
  | obj ms => exact ⟨ms.lookup name, rfl⟩
  | bool | num | str | arr => exact ⟨none, rfl⟩

/-- A valid request has an operation id that counts as true and the type of a request. -/
theorem of_isRequestValid (h : isRequestValid limited header = .ok true) :
    ∃ operationId, field header (units "operationId") = .ok operationId ∧
      isTruthy operationId = true ∧
      field header (units "messageType") = .ok (some (.str (units "PROTOCOL_REQUEST"))) := by
  cases limited with
  | true => simp [isRequestValid, pure, Except.pure] at h
  | false =>
    rcases hop : field header (units "operationId") with message | operationId
    · simp [isRequestValid, hop, bind, Except.bind] at h
    · rcases hmt : field header (units "messageType") with message | messageType
      · simp [isRequestValid, hop, hmt, bind, Except.bind] at h
      · simp only [isRequestValid, hop, hmt, bind, Except.bind, pure, Except.pure, Bool.false_eq_true,
          if_false, Except.ok.injEq, Bool.and_eq_true] at h
        obtain ⟨⟨htruthy, -⟩, htype⟩ := h
        refine ⟨operationId, rfl, htruthy, ?_⟩
        rcases messageType with _ | (_ | _ | _ | s | _ | _) <;> simp_all [isRequestType]

/-- The check of a header that is not `null` comes to an answer. -/
theorem isRequestValid_of_ne_null (limited : Bool) (h : header ≠ .null) :
    ∃ b, isRequestValid limited header = .ok b := by
  obtain ⟨operationId, hop⟩ := field_of_ne_null h (units "operationId")
  obtain ⟨messageType, hmt⟩ := field_of_ne_null h (units "messageType")
  cases limited with
  | true => exact ⟨false, rfl⟩
  | false => exact ⟨_, by simp only [isRequestValid, hop, hmt, bind, Except.bind]; rfl⟩

/-- The rest of the stream handler, once the message was read. -/
theorem handleMessage_of_read {source : Decoded} {result : ReadResult} {operationId : Option Value}
    (hread : readMessageSink (isRequestValid limited) isBusy source = .ok result)
    (hop : field result.message.header (units "operationId") = .ok operationId) :
    handleMessage limited isBusy source =
      if ∀ v ∈ operationId, v.coercible = true then .ok result.inbound
      else .error "Cannot convert object to primitive value" := by
  have hupdate : updateSessionStream operationId =
      if ∀ v ∈ operationId, v.coercible = true then .ok ()
      else .error "Cannot convert object to primitive value" := by
    rcases operationId with - | v
    · simp [updateSessionStream]
    · simp [updateSessionStream]
  simp only [handleMessage, hread, hop, bind, Except.bind, hupdate]
  by_cases hcoercible : ∀ v ∈ operationId, v.coercible = true
  · rw [if_pos hcoercible, if_pos hcoercible]
    rfl
  · rw [if_neg hcoercible, if_neg hcoercible]

/-- What is read after a header that is not `null`. -/
theorem readMessageSink_of_header {source : Decoded} {first : JsString} {chunks : List JsString}
    (hsource : source.buffers.map Utf.decode = first :: chunks) (hparse : parse first = some header)
    (hnull : header ≠ .null) :
    ∃ result, readMessageSink (isRequestValid limited) isBusy source = .ok result ∧
      result.message.header = header ∧ result.busy = false ∧
      (result.valid = true ↔ isRequestValid limited header = .ok true ∧
        readData chunks source.throws ≠ none) := by
  have hfirst : first ≠ [] := by
    rintro rfl
    cases hparse
  obtain ⟨valid, hvalid⟩ := isRequestValid_of_ne_null limited hnull
  simp only [readMessageSink, hsource, if_neg hfirst, hparse, hvalid, bind, Except.bind]
  cases valid with
  | false => exact ⟨_, rfl, rfl, rfl, by simp⟩
  | true =>
    obtain ⟨operationId, -, -, hmt⟩ := of_isRequestValid hvalid
    have hbusy : checkBusy header isBusy = .ok false := by
      rw [checkBusy, hmt]
      rfl
    rw [hbusy]
    rcases hdata : readData chunks source.throws with - | data
    · exact ⟨_, rfl, rfl, rfl, by simp⟩
    · exact ⟨_, rfl, rfl, rfl, by simp⟩

/-- The header `null` is an exception, in the check or after it. -/
theorem handleMessage_of_null {source : Decoded} {first : JsString} {chunks : List JsString}
    (hsource : source.buffers.map Utf.decode = first :: chunks) (hparse : parse first = some .null) :
    handleMessage limited isBusy source = .error "Cannot read properties of null" := by
  have hfirst : first ≠ [] := by
    rintro rfl
    cases hparse
  simp only [handleMessage, readMessageSink, hsource, if_neg hfirst, hparse, bind, Except.bind]
  cases limited with
  | true => rfl
  | false => rfl

/-- A message for the handler has a well-formed header if and only if its operation id is a string. -/
theorem inbound_proper_iff {result : ReadResult} {operationId data : Option Value}
    (hheader : result.message.header = header) (hbusy : result.busy = false)
    (hvalid : result.valid = true ↔ isRequestValid limited header = .ok true ∧ data ≠ none)
    (hop : field header (units "operationId") = .ok operationId) :
    result.inbound.Proper ↔ (isRequestValid limited header = .ok true → data ≠ none →
      ∃ s, operationId = some (.str s)) := by
  cases hv : result.valid with
  | false =>
    have hno : ¬ (isRequestValid limited header = .ok true ∧ data ≠ none) := by
      rw [← hvalid, hv]
      simp
    simp only [ReadResult.inbound, hv, Bool.not_false, if_true, Inbound.Proper, true_iff]
    exact fun h1 h2 => absurd ⟨h1, h2⟩ hno
  | true =>
    obtain ⟨hrequest, hdata⟩ := hvalid.1 hv
    obtain ⟨operationId', hop', htruthy, hmt⟩ := of_isRequestValid hrequest
    obtain rfl : operationId' = operationId := by
      rw [hop] at hop'
      exact (Except.ok.inj hop').symm
    simp only [ReadResult.inbound, hv, hbusy, Bool.not_true, Bool.false_eq_true, if_false,
      Inbound.Proper, hheader]
    constructor
    · rintro ⟨s, hs, -⟩ - -
      rw [hop] at hs
      exact ⟨s, Except.ok.inj hs⟩
    · intro h
      obtain ⟨s, rfl⟩ := h hrequest hdata
      exact ⟨s, hop, by simpa [isTruthy, Value.truthy] using htruthy, hmt⟩

/-- A header that can be read decides how its stream ends. -/
theorem handleMessage_of_header {source : Decoded} {first : JsString} {chunks : List JsString}
    (hsource : source.buffers.map Utf.decode = first :: chunks) (hparse : parse first = some header) :
    (∃ o, handleMessage limited isBusy source = .ok o ∧ o.Proper) ↔
      Harmless limited header (readData chunks source.throws) := by
  by_cases hnull : header = .null
  · subst hnull
    rw [handleMessage_of_null hsource hparse]
    simp [Harmless, field]
  · obtain ⟨operationId, hop⟩ := field_of_ne_null hnull (units "operationId")
    obtain ⟨result, hread, hheader, hbusy, hvalid⟩ :=
      readMessageSink_of_header hsource hparse hnull
    have hproper := inbound_proper_iff hheader hbusy hvalid hop
    rw [handleMessage_of_read hread (by rw [hheader]; exact hop), Harmless, hop]
    by_cases hcoercible : ∀ v ∈ operationId, v.coercible = true
    · rw [if_pos hcoercible]
      simp only [Except.ok.injEq, exists_eq_left', hproper]
      exact ⟨fun h => ⟨hcoercible, h⟩, fun h => h.2⟩
    · rw [if_neg hcoercible]
      simp only [reduceCtorEq, false_and, exists_false, false_iff, Except.ok.injEq, exists_eq_left']
      exact fun h => hcoercible h.1

end

/-- CORRECT (malformed requests): the stream handler ends in a rejection or with a well-formed header
    for the registered handler, if and only if the stream does not throw before its first buffer and
    a header read from it is not `null`, has an operation id with a string form, and one that is a
    string unless the message is rejected. -/
theorem handleMessage_proper_iff (lengthPrefixed : List (List UInt8) → Decoded)
    (stream : List (List UInt8)) (limited isBusy : Bool) :
    (∃ o, handleMessage limited isBusy (lengthPrefixed stream) = .ok o ∧ o.Proper) ↔
      Source limited (lengthPrefixed stream) := by
  generalize lengthPrefixed stream = source
  unfold Source
  rcases hsource : source.buffers.map Utf.decode with - | ⟨first, chunks⟩
  · cases hthrows : source.throws with
    | true =>
      have hread : handleMessage limited isBusy source = .error "stream" := by
        simp [handleMessage, readMessageSink, hsource, hthrows, bind, Except.bind]
      simp [hread]
    | false =>
      have hread : readMessageSink (isRequestValid limited) isBusy source =
          .ok ⟨⟨emptyHeader, .obj []⟩, false, false⟩ := by
        simp [readMessageSink, hsource, hthrows]
      have hop : field emptyHeader (units "operationId") = .ok (some (.str [])) := by
        simp [field, emptyHeader]
      rw [handleMessage_of_read hread hop]
      simp [Value.coercible, ReadResult.inbound, Inbound.Proper]
  · rcases hparse : parse first with - | header
    · have hread : readMessageSink (isRequestValid limited) isBusy source =
          .ok ⟨⟨emptyHeader, .obj []⟩, false, false⟩ := by
        simp only [readMessageSink, hsource, hparse]
        split_ifs <;> rfl
      have hop : field emptyHeader (units "operationId") = .ok (some (.str [])) := by
        simp [field, emptyHeader]
      rw [handleMessage_of_read hread hop]
      simp [Value.coercible, ReadResult.inbound, Inbound.Proper, hparse]
    · rw [handleMessage_of_header hsource hparse]
      simp [hparse]

/-- The header `null` is an exception in the node. -/
theorem handleMessage_null :
    handleMessage false false ⟨[encode (units "null")], false⟩ =
      .error "Cannot read properties of null" := by
  have hsource : [encode (units "null")].map Utf.decode = [units "null"] := by decide
  have hparse : parse (units "null") = some .null := rfl
  exact handleMessage_of_null hsource hparse

end OtNode
