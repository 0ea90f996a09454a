import OtNode.Lib.Json

/-! Messages on a stream: the header in one chunk, then the data cut into chunks.

    The data is cut by code units before each chunk is encoded, so a surrogate pair across a cut is
    encoded as two lone surrogates. The chunks are delivered as they were written. -/

namespace OtNode

open Utf Json

/-- `BYTES_IN_MEGABYTE`. -/
def bytesInMegabyte : ℕ := 1024 * 1024

/-- A value of the source that can be serialised: an object has one member for each of its keys. -/
structure Serialisable where
  value : Value
  normal : Json.normal value = value

/-- A message. -/
structure Message where
  header : Value
  data : Value

/-- The result of `readMessageSink`. A missing `busy` is false. -/
structure ReadResult where
  message : Message
  valid : Bool
  busy : Bool

/-- The chunks of `_sendMessageToStream`, turned into buffers. -/
def sendMessageToStream (message : Message) : List (List UInt8) :=
  (stringify message.header :: slices bytesInMegabyte (stringify message.data)).map encode

/-- What `decode()` makes of a stream: its buffers, and whether it throws after them. -/
structure Decoded where
  buffers : List (List UInt8)
  throws : Bool

/-- A property that no prototype has. `null` has no properties, and what is no object has none of
    these. -/
def field (v : Value) (name : JsString) : Except String (Option Value) :=
  match v with
  | .null => .error "Cannot read properties of null"
  | .obj ms => .ok (ms.lookup name)
  | _ => .ok none

/-- The check for a `PROTOCOL_INIT` message. `NETWORK_MESSAGE_TYPES.REQUESTS` has no such type, so it
    is met by a header without one. -/
def checkBusy (header : Value) (isBusy : Bool) : Except String Bool :=
  (field header (units "messageType")).map fun messageType => messageType.isNone && isBusy

/-- The header before one is read. -/
def emptyHeader : Value := .obj [(units "operationId", .str [])]

/-- The data of a message, `none` when the stream fails or the data is no JSON. -/
def readData (chunks : List JsString) (throws : Bool) : Option Value :=
  if throws then none else parse chunks.flatten

/-- `readMessageSink`. -/
def readMessageSink (isMessageValid : Value → Except String Bool) (isBusy : Bool)
    (source : Decoded) : Except String ReadResult :=
  match source.buffers.map Utf.decode with
  | [] =>
    -- the error of the stream is thrown by `source.next()`, which no `try` surrounds
    if source.throws then .error "stream" else .ok ⟨⟨emptyHeader, .obj []⟩, false, false⟩
  | stringifiedHeader :: chunks =>
    if stringifiedHeader = [] then .ok ⟨⟨emptyHeader, .obj []⟩, false, false⟩
    else
      match parse stringifiedHeader with
      | none => .ok ⟨⟨emptyHeader, .obj []⟩, false, false⟩
      | some header => do
        if !(← isMessageValid header) then
          return ⟨⟨header, .obj []⟩, false, false⟩
        if ← checkBusy header isBusy then
          return ⟨⟨header, .obj []⟩, true, true⟩
        match readData chunks source.throws with
        | none => return ⟨⟨header, .obj []⟩, false, false⟩
        | some data => return ⟨⟨header, data⟩, true, false⟩

/-! ### What is read of a sent message -/

/-- The data that arrives is the text spoiled at the cuts. -/
theorem received_data (data : Value) :
    ((slices bytesInMegabyte (stringify data)).map encode |>.map Utf.decode).flatten =
      spoil (fun j => decide (bytesInMegabyte ∣ j)) 0 (stringify data) := by
  rw [List.map_map, ← flatMap_slices (by decide) _ (dvd_zero _), List.flatMap_def]
  congr 2
  funext s
  exact decode_encode s

/-- The data is read back if and only if no surrogate pair lies across a cut. -/
theorem parse_received_iff (data : Serialisable) :
    parse (spoil (fun j => decide (bytesInMegabyte ∣ j)) 0 (stringify data.value)) =
        some data.value ↔
      ∀ j, Straddles (stringify data.value) j → ¬ bytesInMegabyte ∣ j := by
  have htext := wellFormed_stringify data.value
  rw [parse_spoiled data.normal (spoiled_spoil htext 0), spoil_eq_iff htext 0]
  simp

/-- Text that is not cut arrives as it is. -/
theorem toWellFormed_of_wellFormed {s : List UInt16} (h : WellFormed s) : toWellFormed s = s := by
  have hspoil := (@spoil_eq_iff (fun _ => false) s h 0).2 fun _ _ => rfl
  have happend := @spoil_append (fun _ => false) s [] 0 (fun _ _ _ => rfl) (.inl rfl)
  rw [List.append_nil, hspoil] at happend
  simpa [spoil] using happend.symm

/-- The header of a sent message is read as it was sent. -/
theorem readMessageSink_header (header : Serialisable) (data : Value)
    (isMessageValid : Value → Except String Bool) (isBusy : Bool) :
    readMessageSink isMessageValid isBusy ⟨sendMessageToStream ⟨header.value, data⟩, false⟩ = do
      if !(← isMessageValid header.value) then
        return ⟨⟨header.value, .obj []⟩, false, false⟩
      if ← checkBusy header.value isBusy then
        return ⟨⟨header.value, .obj []⟩, true, true⟩
      match parse (spoil (fun j => decide (bytesInMegabyte ∣ j)) 0 (stringify data)) with
      | none => return ⟨⟨header.value, .obj []⟩, false, false⟩
      | some data => return ⟨⟨header.value, data⟩, true, false⟩ := by
  obtain ⟨c, t, hct, -⟩ := head_stringify header.value
  have hheader : Utf.decode (encode (stringify header.value)) = stringify header.value := by
    rw [decode_encode, toWellFormed_of_wellFormed (wellFormed_stringify _)]
  have hparse : parse (stringify header.value) = some header.value := by
    rw [parse_stringify, header.normal]
  have hne : stringify header.value ≠ [] := by simp [hct]
  simp only [readMessageSink, sendMessageToStream, List.map_cons, hheader, if_neg hne, hparse,
    readData, received_data, Bool.false_eq_true, if_false]

/-- CORRECT (framing): a message is read as it was sent, if and only if its header is accepted and not
    met by a busy node, and no surrogate pair of the text of its data lies across a multiple of
    the chunk size. -/
theorem readMessageSink_sent (header data : Serialisable)
    (isMessageValid : Value → Except String Bool) (isBusy : Bool) :
    readMessageSink isMessageValid isBusy
        ⟨sendMessageToStream ⟨header.value, data.value⟩, false⟩ =
          .ok ⟨⟨header.value, data.value⟩, true, false⟩ ↔
      isMessageValid header.value = .ok true ∧ checkBusy header.value isBusy = .ok false ∧
        ∀ j, Straddles (stringify data.value) j → ¬ bytesInMegabyte ∣ j := by
  rw [readMessageSink_header, ← parse_received_iff]
  rcases isMessageValid header.value with message | valid
  · simp [bind, Except.bind]
  · cases valid with
    | false => simp [bind, Except.bind, pure, Except.pure]
    | true =>
      rcases checkBusy header.value isBusy with message | busy
      · simp [bind, Except.bind]
      · cases busy with
        | true => simp [bind, Except.bind, pure, Except.pure]
        | false =>
          rcases parse _ with - | v
          · simp [bind, Except.bind, pure, Except.pure]
          · simp [bind, Except.bind, pure, Except.pure]

/-! ### A pair across a cut -/

theorem escape_replicate (n : ℕ) (s : List UInt16) :
    escape (List.replicate n 97 ++ s) = List.replicate n 97 ++ escape s := by
  induction n with
  | zero => rfl
  | succ n ih =>
    rw [List.replicate_succ, List.cons_append, escape_cons fun h => absurd h (by decide), ih]
    rfl

/-- Letters up to a megabyte less one, and a character of two units. -/
def acrossTheCut : Serialisable :=
  ⟨.str (List.replicate (bytesInMegabyte - 2) 97 ++ [0xD83D, 0xDE00]), rfl⟩

/-- The header of a request. -/
def requestHeader : Serialisable :=
  ⟨.obj [(units "messageType", .str (units "PROTOCOL_REQUEST")),
    (units "operationId", .str (units "5195d01a-b437-4aae-b388-a77b9fa715f1"))], rfl⟩

/-- The character that lies across the cut is not read back. -/
theorem readMessageSink_acrossTheCut :
    readMessageSink (fun _ => .ok true) false
        ⟨sendMessageToStream ⟨requestHeader.value, acrossTheCut.value⟩, false⟩ ≠
      .ok ⟨⟨requestHeader.value, acrossTheCut.value⟩, true, false⟩ := by
  have hcut : Straddles (stringify acrossTheCut.value) bytesInMegabyte := by
    refine ⟨34 :: List.replicate (bytesInMegabyte - 2) 97, 0xD83D, 0xDE00, [34], ?_, ?_, by decide,
      by decide⟩
    · rw [acrossTheCut, stringify, quote, escape_replicate]
      simp [escape, isHigh, isLow]
    · rw [List.length_cons, List.length_replicate]
      decide
  have hdata := mt (parse_received_iff acrossTheCut).1 fun h => h _ hcut (dvd_refl _)
  have hbusy : checkBusy requestHeader.value false = .ok false := by
    simp [checkBusy, field, requestHeader, Except.map]
  rw [readMessageSink_header, hbusy]
  intro h
  rcases hread : parse (spoil (fun j => decide (bytesInMegabyte ∣ j)) 0
    (stringify acrossTheCut.value)) with - | v
  · rw [hread] at h
    simp [bind, Except.bind, pure, Except.pure] at h
  · rw [hread] at h
    have hv : v = acrossTheCut.value := by simpa [bind, Except.bind, pure, Except.pure] using h
    exact hdata (by rw [hread, hv])

end OtNode
