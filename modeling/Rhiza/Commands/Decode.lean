import Rhiza.Commands.Types
import Rhiza.Foundations.Check

/-! # Decoding replicated values

The decoders of a decided value. Each looks at the magic first and answers nothing for a
value of another kind. A field of a record is found by its exact name; an absent or null
field keeps the zero value of its type.
-/

namespace Rhiza.Commands

open Foundations

def stringField (key : ByteString) (json : Json) : Checked ByteString :=
  match json.field? key with
  | none | some .null => .ok []
  | some (.string s) => .ok s
  | some _ => .error "json: cannot unmarshal into a string"

def boolField (key : ByteString) (json : Json) : Checked Bool :=
  match json.field? key with
  | none | some .null => .ok false
  | some (.bool b) => .ok b
  | some _ => .error "json: cannot unmarshal into a bool"

def bytesField (key : ByteString) (json : Json) : Checked ByteString :=
  match json.field? key with
  | none | some .null => .ok []
  | some (.string s) =>
    match Base64.decode s with
    | some b => .ok b
    | none => .error "illegal base64 data"
  | some _ => .error "json: cannot unmarshal into bytes"

def intOfJson : Json → Checked Int64
  | .number text =>
    match Decimal.parseInt64? text with
    | some n => .ok (Int64.ofInt n)
    | none => .error "json: cannot unmarshal into an integer"
  | .null => .ok 0
  | _ => .error "json: cannot unmarshal into an integer"

def intField (key : ByteString) (json : Json) : Checked Int64 :=
  match json.field? key with
  | none => .ok 0
  | some value => intOfJson value

def intPointerField (key : ByteString) (json : Json) : Checked (Option Int64) :=
  match json.field? key with
  | none | some .null => .ok none
  | some value => some <$> intOfJson value

def itemsField (key : ByteString) (json : Json) : Checked (List Json) :=
  match json.field? key with
  | none | some .null => .ok []
  | some (.array items) => .ok items
  | some _ => .error "json: cannot unmarshal into a slice"

/-- A record, or the null that leaves one at its zero value. -/
def requireRecord : Json → Checked Unit
  | .object _ | .null => .ok ()
  | _ => .error "json: cannot unmarshal into a struct"

section SQL

variable (lib : Library)

mutual

/-- A value of no fixed type. Numbers keep their spelling. -/
def Arg.ofJson : Json → Arg lib.Float
  | .null => .nil
  | .bool b => .bool b
  | .number text => .number text
  | .string s => .string s
  | .array items => .list (Arg.ofItems items)
  | .object fields => .map (Arg.ofFields fields)

def Arg.ofItems : List Json → List (Arg lib.Float)
  | [] => []
  | item :: items => Arg.ofJson item :: Arg.ofItems items

def Arg.ofFields : List (ByteString × Json) → List (ByteString × Arg lib.Float)
  | [] => []
  | (key, value) :: fields => (key, Arg.ofJson value) :: Arg.ofFields fields

end

/-- Turns a tagged object back into a blob. -/
def decodeSQLArg : Arg lib.Float → Checked (Arg lib.Float)
  | .map [(key, value)] =>
    if key = blobKey then
      match value with
      | .string text =>
        match Base64.decode text with
        | some b => .ok (.bytes b)
        | none => .error "invalid SQL blob argument"
      | _ => .error "invalid SQL blob argument"
    else .ok (.map [(key, value)])
  | arg => .ok arg

def decodeSQLArgs (items : List Json) : Checked (List (Arg lib.Float)) :=
  items.mapM fun item => decodeSQLArg lib (Arg.ofJson lib item)

def SQLStatementOutputRef.ofJson (json : Json) : Checked SQLStatementOutputRef := do
  requireRecord json
  let argIndex ← intField (bytesOf "arg_index") json
  let statementIndex ← intField (bytesOf "statement_index") json
  let columnName ← stringField (bytesOf "column_name") json
  let columnIndex ← intPointerField (bytesOf "column_index") json
  .ok { argIndex, statementIndex, columnName, columnIndex }

def SQLStatement.ofJson (json : Json) : Checked (SQLStatement lib.Float) := do
  requireRecord json
  let sql ← stringField (bytesOf "sql") json
  let items ← itemsField (bytesOf "args") json
  let args ← decodeSQLArgs lib items
  let wantRows ← boolField (bytesOf "want_rows") json
  let expectedRowsAffected ← intPointerField (bytesOf "expected_rows_affected") json
  let expectedReturnedRows ← intPointerField (bytesOf "expected_returned_rows") json
  let refs ← itemsField (bytesOf "output_refs") json
  let outputRefs ← refs.mapM SQLStatementOutputRef.ofJson
  .ok { sql, args, wantRows, expectedRowsAffected, expectedReturnedRows, outputRefs }

def SQLMigration.ofJson (json : Json) : Checked SQLMigration := do
  requireRecord json
  let version ← intField (bytesOf "version") json
  let name ← stringField (bytesOf "name") json
  let checksum ← stringField (bytesOf "checksum") json
  .ok { version, name, checksum }

def migrationField (json : Json) : Checked (Option SQLMigration) :=
  match json.field? (bytesOf "migration") with
  | none | some .null => .ok none
  | some migration => some <$> SQLMigration.ofJson migration

def SQLCommand.ofJson (json : Json) : Checked (SQLCommand lib.Float) := do
  requireRecord json
  let requestID ← stringField (bytesOf "request_id") json
  let sql ← stringField (bytesOf "sql") json
  let items ← itemsField (bytesOf "args") json
  let args ← decodeSQLArgs lib items
  let wantRows ← boolField (bytesOf "want_rows") json
  let requireOne ← boolField (bytesOf "require_one") json
  let statementItems ← itemsField (bytesOf "statements") json
  let statements ← statementItems.mapM (SQLStatement.ofJson lib)
  let migration ← migrationField json
  .ok { requestID, sql, args, wantRows, requireOne, statements, migration }

/-- The items of a text that holds one array; null stands for the empty one. -/
def parseItems (text : ByteString) : Checked (List Json) :=
  match Json.parse text with
  | some (.array items) => .ok items
  | some .null => .ok []
  | some _ => .error "json: cannot unmarshal into a slice"
  | none => .error "invalid JSON"

def decodeSQLBatch (value : ByteString) : Checked (Option (List (SQLCommand lib.Float))) :=
  if (bytesOf "QBAT").isPrefixOf value ∧ ¬ sqlBatchMagic.isPrefixOf value then
    .error "incompatible SQL policy"
  else if ¬ sqlBatchMagic.isPrefixOf value then .ok none
  else do
    let items ← parseItems (value.drop sqlBatchMagic.length)
    require (items ≠ []) "empty SQL command batch"
    require (items.length ≤ maxSQLCommandsPerDecidedValue) "SQL batch exceeds 64 commands"
    let commands ← items.mapM (SQLCommand.ofJson lib)
    .ok (some commands)

end SQL

def KVCommand.ofJson (json : Json) : Checked KVCommand := do
  requireRecord json
  let requestID ← stringField (bytesOf "request_id") json
  let operation ← stringField (bytesOf "operation") json
  let key ← stringField (bytesOf "key") json
  let value ← bytesField (bytesOf "value") json
  let expected ← bytesField (bytesOf "expected") json
  let expectedExists ← boolField (bytesOf "expected_exists") json
  let ttlMS ← intField (bytesOf "ttl_ms") json
  let expiresAtUnixMS ← intField (bytesOf "expires_at_unix_ms") json
  let observedAtUnixMS ← intField (bytesOf "observed_at_unix_ms") json
  .ok { requestID, operation, key, value, expected, expectedExists, ttlMS, expiresAtUnixMS,
        observedAtUnixMS }

def parseRecord (text : ByteString) : Checked Json :=
  match Json.parse text with
  | some json => .ok json
  | none => .error "invalid JSON"

def decodeKVCommand (value : ByteString) : Checked (Option KVCommand) :=
  if ¬ kvCommandMagic.isPrefixOf value then .ok none
  else do
    let json ← parseRecord (value.drop kvCommandMagic.length)
    let command ← KVCommand.ofJson json
    .ok (some command)

def decodeKVBatch (value : ByteString) : Checked (Option (List KVCommand)) :=
  if ¬ kvBatchMagic.isPrefixOf value then .ok none
  else do
    let items ← parseItems (value.drop kvBatchMagic.length)
    require (items ≠ []) "empty KV command batch"
    let commands ← items.mapM KVCommand.ofJson
    .ok (some commands)

def NotifyCommand.ofJson (json : Json) : Checked NotifyCommand := do
  requireRecord json
  let requestID ← stringField (bytesOf "request_id") json
  let topic ← stringField (bytesOf "topic") json
  let payload ← bytesField (bytesOf "payload") json
  .ok { requestID, topic, payload }

def decodeNotifyCommand (value : ByteString) : Checked (Option NotifyCommand) :=
  if ¬ notifyCommandMagic.isPrefixOf value then .ok none
  else do
    let json ← parseRecord (value.drop notifyCommandMagic.length)
    let command ← NotifyCommand.ofJson json
    .ok (some command)

/-! ## Statement arguments -/

/-- A value bound to a statement parameter. -/
inductive SQLValue (Float : Type) where
  | null
  | bool (b : Bool)
  | text (s : ByteString)
  | blob (b : ByteString)
  | integer (n : ℤ)
  | real (x : Float)

variable (lib : Library) {value : SQLValue lib.Float}

def sqlArg : Arg lib.Float → Checked (SQLValue lib.Float)
  | .nil => .ok .null
  | .bool b => .ok (.bool b)
  | .string s => .ok (.text s)
  | .bytes b => .ok (.blob b)
  | .int n => .ok (.integer n.toInt)
  | .float x => .ok (.real x)
  | .map [(key, value)] =>
    if key = blobKey then
      match value with
      | .string text =>
        match Base64.decode text with
        | some b => .ok (.blob b)
        | none => .error "invalid SQL blob argument"
      | _ => .error "invalid SQL blob argument"
    else .error "unsupported SQL argument type"
  | .uint n =>
    if n.toNat < 2 ^ 63 then .ok (.integer n.toNat) else .error "SQL argument overflows int64"
  | .number text =>
    match Decimal.parseInt64? text with
    | some n => .ok (.integer n)
    | none =>
      match lib.parseFloat text with
      | some x => .ok (.real x)
      | none => .error "invalid numeric SQL argument"
  | .map _ | .list _ | .float32 _ => .error "unsupported SQL argument type"

/-- The argument a decoder of the batch obtains. -/
def Arg.received : Arg lib.Float → Arg lib.Float
  | .string s => .string (Utf8.sanitize s)
  | .int n => .number (Decimal.formatInt n.toInt)
  | .uint n => .number (Decimal.formatInt n.toNat)
  | .float x =>
    match lib.formatFloat x with
    | some text => .number text
    | none => .float x
  | .number text => .number (if text = [] then [48] else text)
  | .map [(key, .string text)] =>
    match Base64.decode text with
    | some b => .bytes b
    | none => .map [(key, .string text)]
  | arg => arg

theorem blobKey_sanitize : Utf8.sanitize blobKey = blobKey :=
  (Utf8.valid_of_all (by decide)).sanitize_eq

/-- A blob survives the trip, whether it was given as bytes or as a tagged object. -/
theorem decodeSQLArg_blob {text b : ByteString} (h : Base64.decode text = some b) :
    decodeSQLArg lib (Arg.ofJson lib (Json.object [(blobKey, .string text)]).sanitized) =
      .ok (.bytes b) := by
  have htext := (Utf8.valid_of_ascii (Base64.ascii_of_decode h)).sanitize_eq
  simp only [Json.sanitized, Json.sanitizedFields, Arg.ofJson, Arg.ofFields, decodeSQLArg,
    blobKey_sanitize, htext, h, if_true]

/-- A map is accepted only as a tagged blob. -/
theorem sqlArg_map {entries : List (ByteString × Arg lib.Float)}
    (h : sqlArg lib (.map entries) = .ok value) :
    ∃ text b, entries = [(blobKey, .string text)] ∧ Base64.decode text = some b ∧
      value = .blob b := by
  match entries with
  | [] => exact absurd h nofun
  | _ :: _ :: _ => exact absurd h nofun
  | [(key, value)] =>
    simp only [sqlArg] at h
    split at h
    · next hkey =>
      subst hkey
      split at h
      · next text =>
        split at h
        · next b hb =>
          cases h
          exact ⟨text, b, rfl, hb, rfl⟩
        · exact absurd h nofun
      · exact absurd h nofun
    · exact absurd h nofun

/-- Decoding undoes encoding, up to what `Arg.received` describes. -/
theorem decodeSQLArg_encodeSQLArg {arg : Arg lib.Float} {json : Json}
    (hvalue : sqlArg lib arg = .ok value) (hjson : encodeSQLArg lib arg = some json) :
    decodeSQLArg lib (Arg.ofJson lib json.sanitized) = .ok (arg.received lib) := by
  cases arg with
  | nil | bool b | string s | int n | uint n =>
    cases hjson
    rfl
  | bytes b =>
    cases hjson
    exact decodeSQLArg_blob lib (Base64.decode_encode b)
  | float32 | list => cases hvalue
  | float =>
    obtain ⟨text, htext, rfl⟩ := Option.map_eq_some_iff.mp hjson
    simp only [Json.sanitized, Arg.ofJson, decodeSQLArg, Arg.received, htext]
  | number =>
    simp only [encodeSQLArg, Arg.marshal, numberJson] at hjson
    simp only [Arg.received]
    split at hjson
    · next hempty =>
      cases hjson
      simp only [hempty, if_true, Json.sanitized, Arg.ofJson, decodeSQLArg]
    · next hempty =>
      split at hjson
      · cases hjson
        simp only [hempty, if_false, Json.sanitized, Arg.ofJson, decodeSQLArg]
      · cases hjson
  | map =>
    obtain ⟨text, b, rfl, hb, -⟩ := sqlArg_map lib hvalue
    cases hjson
    simp only [Arg.received, hb]
    exact decodeSQLArg_blob lib hb

theorem decodeSQLArgs_encodeSQLArgs {args : List (Arg lib.Float)} {items : List Json}
    (hargs : ∀ arg ∈ args, ∃ value, sqlArg lib arg = .ok value)
    (hitems : encodeSQLArgs lib args = some items) :
    decodeSQLArgs lib (items.map Json.sanitized) = .ok (args.map (Arg.received lib)) := by
  apply Json.mapM_read_sanitized _ hitems
  intro arg harg json hjson
  obtain ⟨value, hvalue⟩ := hargs arg harg
  exact decodeSQLArg_encodeSQLArg lib hvalue hjson

end Rhiza.Commands
