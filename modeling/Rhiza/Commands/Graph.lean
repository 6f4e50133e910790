import Rhiza.Commands.Faithful

/-! # Graph commands

A graph command is one Cypher statement with the stream events published along with it, or a
change of a stream's consumer offset, or a cut of a stream. A decided value carries a batch of
them as JSON. The checks of a command are made when it is accepted and again when it is
applied; acceptance also refuses statements that the graph engine executes in part.
-/

namespace Rhiza.Commands

open Foundations

structure GraphStreamOffsetMutation where
  stream : ByteString
  consumer : ByteString
  sequence : UInt64

structure GraphStreamTrimMutation where
  stream : ByteString
  throughSequence : UInt64

structure GraphStreamEvent (Float : Type) where
  stream : ByteString
  kind : ByteString
  payload : Arg Float

structure GraphCommand (Float : Type) where
  requestID : ByteString
  cypher : ByteString
  args : List (ByteString × Arg Float)
  events : List (GraphStreamEvent Float)
  streamOffset : Option GraphStreamOffsetMutation
  streamTrim : Option GraphStreamTrimMutation

section Graph

variable (lib : Library)

/-! ## Arguments -/

mutual

/-- The value as the graph engine takes it. -/
def graphArg : Arg lib.Float → Checked (Arg lib.Float)
  | .uint n =>
    if n.toNat < 2 ^ 63 then .ok (.int (Int64.ofNat n.toNat)) else .error "integer exceeds int64"
  | .number text =>
    match Decimal.parseInt64? text, lib.parseFloat text with
    | some n, _ => .ok (.int (Int64.ofInt n))
    | none, some x => .ok (.float x)
    | none, none => .error "invalid number"
  | .bytes _ => .error "unsupported graph argument type"
  | .list items => .list <$> graphItems items
  | .map entries => .map <$> graphArgs entries
  | arg => .ok arg

def graphItems : List (Arg lib.Float) → Checked (List (Arg lib.Float))
  | [] => .ok []
  | item :: items => do
    let converted ← graphArg item
    let rest ← graphItems items
    .ok (converted :: rest)

def graphArgs : List (ByteString × Arg lib.Float) →
    Checked (List (ByteString × Arg lib.Float))
  | [] => .ok []
  | (key, value) :: entries => do
    let converted ← graphArg value
    let rest ← graphArgs entries
    .ok ((key, converted) :: rest)

end

theorem graphArgs_isOk {args : List (ByteString × Arg lib.Float)}
    (h : ∀ arg ∈ args, ∃ converted, graphArg lib arg.2 = .ok converted) :
    ∃ converted, graphArgs lib args = .ok converted := by
  induction args with
  | nil => exact ⟨[], rfl⟩
  | cons arg args ih =>
    obtain ⟨⟨converted, hcast⟩, hrest⟩ := List.forall_mem_cons.mp h
    obtain ⟨rest, hargs⟩ := ih hrest
    refine ⟨(arg.1, converted) :: rest, ?_⟩
    rw [graphArgs, hcast, ok_bind, hargs, ok_bind]

/-! ## JSON -/

def GraphStreamOffsetMutation.entries (offset : GraphStreamOffsetMutation) : Json.Entries :=
  [(bytesOf "stream", some (.string offset.stream)),
    (bytesOf "consumer", some (.string offset.consumer)),
    (bytesOf "sequence", some (uintJson offset.sequence))]

def GraphStreamTrimMutation.entries (trim : GraphStreamTrimMutation) : Json.Entries :=
  [(bytesOf "stream", some (.string trim.stream)),
    (bytesOf "through_sequence", some (uintJson trim.throughSequence))]

def GraphStreamEvent.marshal (event : GraphStreamEvent lib.Float) : Option Json := do
  let payload ← event.payload.marshal lib
  some (.record [(bytesOf "stream", some (.string event.stream)),
    (bytesOf "kind", some (.string event.kind)), (bytesOf "payload", some payload)])

def GraphCommand.marshal (command : GraphCommand lib.Float) : Option Json := do
  let args ← Arg.marshalEntries lib command.args
  let events ← command.events.mapM (GraphStreamEvent.marshal lib)
  some (.record [(bytesOf "request_id", some (.string command.requestID)),
    (bytesOf "cypher", omitString command.cypher),
    (bytesOf "args", if args = [] then none else some (.object args)),
    (bytesOf "events", omitItems events),
    (bytesOf "stream_offset", command.streamOffset.map fun offset => .record offset.entries),
    (bytesOf "stream_trim", command.streamTrim.map fun trim => .record trim.entries)])

/-- The fingerprint of a command, without its request id. -/
def graphFingerprint (codec : Codec) (command : GraphCommand lib.Float) :
    Option ValueHash :=
  (GraphCommand.marshal lib { command with requestID := [] }).map fun item =>
    codec.sha256 (coreBytes (bytesOf "rhiza/graph" ++ 0 :: item.encode))

def uintField (key : ByteString) (json : Json) : Checked UInt64 :=
  match json.field? key with
  | none | some .null => .ok 0
  | some (.number text) =>
    match Decimal.parseNat? text with
    | some n =>
      if n < 2 ^ 64 then .ok (UInt64.ofNat n) else .error "json: number out of range"
    | none => .error "json: cannot unmarshal into an integer"
  | some _ => .error "json: cannot unmarshal into an integer"

def GraphStreamOffsetMutation.ofJson (json : Json) : Checked GraphStreamOffsetMutation := do
  requireRecord json
  let stream ← stringField (bytesOf "stream") json
  let consumer ← stringField (bytesOf "consumer") json
  let sequence ← uintField (bytesOf "sequence") json
  .ok { stream, consumer, sequence }

def GraphStreamTrimMutation.ofJson (json : Json) : Checked GraphStreamTrimMutation := do
  requireRecord json
  let stream ← stringField (bytesOf "stream") json
  let throughSequence ← uintField (bytesOf "through_sequence") json
  .ok { stream, throughSequence }

def GraphStreamEvent.ofJson (json : Json) : Checked (GraphStreamEvent lib.Float) := do
  requireRecord json
  let stream ← stringField (bytesOf "stream") json
  let kind ← stringField (bytesOf "kind") json
  .ok { stream, kind, payload := Arg.ofJson lib ((json.field? (bytesOf "payload")).getD .null) }

def fieldsField (key : ByteString) (json : Json) : Checked (List (ByteString × Json)) :=
  match json.field? key with
  | none | some .null => .ok []
  | some (.object fields) => .ok fields
  | some _ => .error "json: cannot unmarshal into a map"

/-- A pointer to a record. -/
def recordField {α : Type} (read : Json → Checked α) (key : ByteString) (json : Json) :
    Checked (Option α) :=
  match json.field? key with
  | none | some .null => .ok none
  | some value => some <$> read value

def GraphCommand.ofJson (json : Json) : Checked (GraphCommand lib.Float) := do
  requireRecord json
  let requestID ← stringField (bytesOf "request_id") json
  let cypher ← stringField (bytesOf "cypher") json
  let fields ← fieldsField (bytesOf "args") json
  let items ← itemsField (bytesOf "events") json
  let events ← items.mapM (GraphStreamEvent.ofJson lib)
  let streamOffset ← recordField GraphStreamOffsetMutation.ofJson (bytesOf "stream_offset") json
  let streamTrim ← recordField GraphStreamTrimMutation.ofJson (bytesOf "stream_trim") json
  .ok { requestID, cypher, args := Arg.ofFields lib fields, events, streamOffset, streamTrim }

def decodeGraphBatch (value : ByteString) :
    Checked (Option (List (GraphCommand lib.Float))) :=
  if ¬ (bytesOf "QGRB").isPrefixOf value then .ok none
  else do
    require (graphBatchMagic.isPrefixOf value = true) "unsupported graph batch policy"
    let items ← parseItems (value.drop graphBatchMagic.length)
    let commands ← items.mapM (GraphCommand.ofJson lib)
    require (commands ≠ []) "empty graph command batch"
    .ok (some commands)

theorem decodeGraphBatch_eq_some {value : ByteString} {commands : List (GraphCommand lib.Float)}
    (h : decodeGraphBatch lib value = .ok (some commands)) :
    commands ≠ [] ∧ ∀ command ∈ commands, ∃ json, GraphCommand.ofJson lib json = .ok command := by
  unfold decodeGraphBatch at h
  split at h
  · cases h
  · simp only [bind_eq_ok] at h
    obtain ⟨_, -, items, -, decoded, hitems, _, hne, hsome⟩ := h
    cases Except.ok.inj hsome
    refine ⟨require_eq_ok.mp hne, fun command hmem => ?_⟩
    obtain ⟨json, -, hjson⟩ := exists_of_mem_mapM hitems hmem
    exact ⟨json, hjson⟩

variable {json : Json}

theorem GraphStreamEvent.marshal_isSome {event : GraphStreamEvent lib.Float}
    (h : GraphStreamEvent.ofJson lib json = .ok event) :
    ∃ item, GraphStreamEvent.marshal lib event = some item := by
  simp only [GraphStreamEvent.ofJson, bind_eq_ok] at h
  obtain ⟨-, -, stream, -, kind, -, hevent⟩ := h
  cases hevent
  rw [GraphStreamEvent.marshal, Arg.marshal_ofJson]
  exact ⟨_, rfl⟩

/-- What came out of JSON has a fingerprint. -/
theorem graphFingerprint_isSome {command : GraphCommand lib.Float}
    (h : GraphCommand.ofJson lib json = .ok command) (codec : Codec) :
    ∃ fingerprint, graphFingerprint lib codec command = some fingerprint := by
  simp only [GraphCommand.ofJson, bind_eq_ok] at h
  obtain ⟨-, -, requestID, -, cypher, -, fields, -, items, -, events, hevents, offset, -, trim, -,
    hjob⟩ := h
  cases hjob
  obtain ⟨marshalled, hspell⟩ : ∃ marshalled,
      events.mapM (GraphStreamEvent.marshal lib) = some marshalled := by
    apply mapM_isSome
    intro event hmem
    obtain ⟨item, -, hitem⟩ := exists_of_mem_mapM hevents hmem
    exact GraphStreamEvent.marshal_isSome lib hitem
  rw [graphFingerprint, GraphCommand.marshal, Arg.marshalEntries_ofFields]
  exact ⟨_, by rw [hspell]; rfl⟩

/-! ## Checks -/

def validateGraphStreamName (name : ByteString) (allowReserved : Bool) : Checked Unit := do
  require (Utf8.Valid name ∧ name ≠ [] ∧ name.length ≤ 255)
    "stream is required and must be valid UTF-8 not exceeding 255 bytes"
  require (allowReserved = true ∨ ¬ (bytesOf "__lattice_").isPrefixOf name)
    "stream names beginning with __lattice_ are reserved"

/-- Cuts one suffix off, if it is there. -/
def trimSuffix (byte : UInt8) (s : ByteString) : ByteString :=
  if s.getLast? = some byte then s.dropLast else s

def validateGraphEvent (cypher : ByteString) (event : GraphStreamEvent lib.Float) :
    Checked Unit := do
  require (cypher ≠ []) "stream events require a cypher mutation"
  validateGraphStreamName event.stream false
  require (Utf8.Valid event.kind ∧ event.kind ≠ [] ∧ event.kind.length ≤ 255)
    "kind is required and must be valid UTF-8 not exceeding 255 bytes"
  let _ ← graphArg lib event.payload
  .ok ()

def validateGraphParameter (parameter : ByteString × Arg lib.Float) : Checked Unit := do
  require (parameter.1 ≠ [] ∧ parameter.1.length ≤ 256) "invalid cypher parameter name"
  let _ ← graphArg lib parameter.2
  .ok ()

def validateStreamOffset (offset : GraphStreamOffsetMutation) : Checked Unit := do
  validateGraphStreamName offset.stream true
  require (Utf8.Valid offset.consumer ∧ offset.consumer ≠ [] ∧ offset.consumer.length ≤ 255)
    "consumer is required and must be valid UTF-8 not exceeding 255 bytes"

/-- How many of the three kinds of mutation the command asks for. -/
def GraphCommand.operations {Float : Type} (command : GraphCommand Float) : ℕ :=
  (if trimSpace command.cypher = [] then 0 else 1) +
    (if command.streamOffset.isSome then 1 else 0) + (if command.streamTrim.isSome then 1 else 0)

def validateGraphCommand (command : GraphCommand lib.Float) : Checked Unit := do
  let cypher := trimSpace command.cypher
  require (command.requestID ≠ [] ∧ command.requestID.length ≤ maxRequestIDBytes)
    "request_id is required and must not exceed 64 bytes"
  require (command.operations = 1) "exactly one graph mutation is required"
  require (cypher.length ≤ maxSQLBytes) "cypher is required and must not exceed 262144 bytes"
  require ((trimSuffix 59 cypher).count 59 = 0) "exactly one cypher statement is allowed"
  require (command.args.length ≤ maxSQLArgs) "cypher has more than 999 arguments"
  requireAll (validateGraphParameter lib) command.args
  requireAll (validateGraphEvent lib cypher) command.events
  requireAll validateStreamOffset command.streamOffset.toList
  requireAll (fun trim => validateGraphStreamName trim.stream true) command.streamTrim.toList

/-- Scans for the end of the first parenthesised pattern, and answers what follows it. -/
def afterPattern : Option UInt8 → ℤ → ByteString → Option ByteString
  | _, _, [] => none
  | some quote, depth, char :: rest =>
    -- A backslash hides the byte after it.
    if char = 92 then
      match rest with
      | [] => none
      | _ :: rest => afterPattern (some quote) depth rest
    else if char = quote then afterPattern none depth rest
    else afterPattern (some quote) depth rest
  | none, depth, char :: rest =>
    if char = 39 ∨ char = 34 then afterPattern (some char) depth rest
    else if char = 40 then afterPattern none (depth + 1) rest
    else if char = 41 then
      if depth - 1 = 0 then some rest else afterPattern none (depth - 1) rest
    else afterPattern none depth rest

def validateStandaloneGraphCreate (cypher : ByteString) : Checked Unit :=
  let create := bytesOf "CREATE "
  let rest := trimSpace (cypher.drop create.length)
  if ¬ create.isPrefixOf cypher ∨ rest.head? ≠ some 40 then .ok ()
  else
    match afterPattern none 0 rest with
    | none => .ok ()
    | some tail => require (trimSpace tail = [] ∨ (bytesOf "RETURN ").isPrefixOf (trimSpace tail))
        "standalone CREATE supports exactly one node; create relationships with MATCH ... CREATE"

def validateGraphCommandAdmission (command : GraphCommand lib.Float) : Checked Unit := do
  validateGraphCommand lib command
  validateStandaloneGraphCreate (trimSpace command.cypher)

end Graph

end Rhiza.Commands
