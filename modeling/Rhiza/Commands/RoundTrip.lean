import Rhiza.Commands.Decode

/-! # Commands read back

Decoding a batch gives every command with its strings made well formed and its arguments as
a decoder of the batch obtains them; every other field comes back as it was.
-/

namespace Rhiza.Commands

open Foundations

theorem sanitize_encode (b : ByteString) : Utf8.sanitize (Base64.encode b) = Base64.encode b :=
  (Utf8.valid_of_ascii fun _ => Base64.ascii_of_mem_encode).sanitize_eq

theorem intOfJson_intJson (n : Int64) : intOfJson (intJson n).sanitized = .ok n := by
  have hlow : -2 ^ 63 ≤ n.toInt := n.le_toInt
  have hhigh : n.toInt < 2 ^ 63 := n.toInt_lt
  simp only [intJson, Json.sanitized, intOfJson, Decimal.parseInt64?_formatInt hlow hhigh,
    Int64.ofInt_toInt]

section Fields

variable {entries : Json.Entries} (hnamed : entries.Named) {key : ByteString} {s : ByteString}
  {n : Int64} (i : ℕ)

include hnamed

theorem stringField_record (h : entries[i]? = some (key, some (.string s))) :
    stringField key (Json.record entries).sanitized = .ok (Utf8.sanitize s) := by
  simp [stringField, Json.field?_sanitized_record hnamed i h, Json.sanitized]

theorem stringField_omitString (h : entries[i]? = some (key, omitString s)) :
    stringField key (Json.record entries).sanitized = .ok (Utf8.sanitize s) := by
  rw [stringField, Json.field?_sanitized_record hnamed i h, omitString]
  by_cases hs : s = []
  · simp [hs]
  · simp [hs, Json.sanitized]

theorem boolField_omitFalse {b : Bool} (h : entries[i]? = some (key, omitFalse b)) :
    boolField key (Json.record entries).sanitized = .ok b := by
  rw [boolField, Json.field?_sanitized_record hnamed i h, omitFalse]
  cases b <;> simp [Json.sanitized]

theorem bytesField_omitBytes {b : ByteString} (h : entries[i]? = some (key, omitBytes b)) :
    bytesField key (Json.record entries).sanitized = .ok b := by
  rw [bytesField, Json.field?_sanitized_record hnamed i h, omitBytes]
  by_cases hb : b = []
  · simp [hb]
  · simp [hb, Json.sanitized, sanitize_encode, Base64.decode_encode]

theorem intField_record (h : entries[i]? = some (key, some (intJson n))) :
    intField key (Json.record entries).sanitized = .ok n := by
  simp [intField, Json.field?_sanitized_record hnamed i h, intOfJson_intJson]

theorem intField_omitZero (h : entries[i]? = some (key, omitZero n)) :
    intField key (Json.record entries).sanitized = .ok n := by
  rw [intField, Json.field?_sanitized_record hnamed i h, omitZero]
  by_cases hn : n = 0
  · simp [hn]
  · simp [hn, intOfJson_intJson]

theorem intPointerField_record {n : Option Int64} (h : entries[i]? = some (key, n.map intJson)) :
    intPointerField key (Json.record entries).sanitized = .ok n := by
  rw [intPointerField, Json.field?_sanitized_record hnamed i h]
  cases n with
  | none => rfl
  | some n =>
    have hread := intOfJson_intJson n
    simp only [Option.map_some, intJson, Json.sanitized] at hread ⊢
    rw [hread]
    rfl

theorem itemsField_omitItems {items : List Json} (h : entries[i]? = some (key, omitItems items)) :
    itemsField key (Json.record entries).sanitized = .ok (items.map Json.sanitized) := by
  rw [itemsField, Json.field?_sanitized_record hnamed i h, omitItems]
  by_cases hitems : items = []
  · simp [hitems]
  · simp [hitems, Json.sanitized, Json.sanitizedItems_eq_map]

omit hnamed in
theorem requireRecord_record : requireRecord (Json.record entries).sanitized = .ok () := rfl

end Fields

/-! ## Commands -/

def SQLStatementOutputRef.received (ref : SQLStatementOutputRef) : SQLStatementOutputRef :=
  { ref with columnName := Utf8.sanitize ref.columnName }

def SQLMigration.received (migration : SQLMigration) : SQLMigration :=
  { migration with
    name := Utf8.sanitize migration.name
    checksum := Utf8.sanitize migration.checksum }

def KVCommand.received (command : KVCommand) : KVCommand :=
  { command with
    requestID := Utf8.sanitize command.requestID
    operation := Utf8.sanitize command.operation
    key := Utf8.sanitize command.key }

def NotifyCommand.received (command : NotifyCommand) : NotifyCommand :=
  { command with
    requestID := Utf8.sanitize command.requestID
    topic := Utf8.sanitize command.topic }

theorem SQLStatementOutputRef.named (ref : SQLStatementOutputRef) : ref.entries.Named := by
  have hkeys : ref.entries.map Prod.fst = [bytesOf "arg_index", bytesOf "statement_index",
    bytesOf "column_name", bytesOf "column_index"] := rfl
  exact Json.Entries.named_of_keys hkeys (by decide) (by decide)

theorem SQLMigration.named (migration : SQLMigration) : migration.entries.Named := by
  have hkeys : migration.entries.map Prod.fst =
    [bytesOf "version", bytesOf "name", bytesOf "checksum"] := rfl
  exact Json.Entries.named_of_keys hkeys (by decide) (by decide)

theorem KVCommand.named (command : KVCommand) : command.entries.Named := by
  have hkeys : command.entries.map Prod.fst = [bytesOf "request_id", bytesOf "operation",
    bytesOf "key", bytesOf "value", bytesOf "expected", bytesOf "expected_exists",
    bytesOf "ttl_ms", bytesOf "expires_at_unix_ms", bytesOf "observed_at_unix_ms"] := rfl
  exact Json.Entries.named_of_keys hkeys (by decide) (by decide)

theorem NotifyCommand.named (command : NotifyCommand) : command.entries.Named := by
  have hkeys : command.entries.map Prod.fst =
    [bytesOf "request_id", bytesOf "topic", bytesOf "payload"] := rfl
  exact Json.Entries.named_of_keys hkeys (by decide) (by decide)

theorem SQLStatementOutputRef.ofJson_record (ref : SQLStatementOutputRef) :
    SQLStatementOutputRef.ofJson (Json.record ref.entries).sanitized = .ok ref.received := by
  have hnamed := ref.named
  rw [SQLStatementOutputRef.ofJson, requireRecord_record, intField_record hnamed 0 rfl,
    intField_record hnamed 1 rfl, stringField_omitString hnamed 2 rfl,
    intPointerField_record hnamed 3 rfl]
  rfl

theorem SQLMigration.ofJson_record (migration : SQLMigration) :
    SQLMigration.ofJson (Json.record migration.entries).sanitized = .ok migration.received := by
  have hnamed := migration.named
  rw [SQLMigration.ofJson, requireRecord_record, intField_record hnamed 0 rfl,
    stringField_record hnamed 1 rfl, stringField_record hnamed 2 rfl]
  rfl

theorem KVCommand.ofJson_record (command : KVCommand) :
    KVCommand.ofJson (Json.record command.entries).sanitized = .ok command.received := by
  have hnamed := command.named
  rw [KVCommand.ofJson, requireRecord_record, stringField_record hnamed 0 rfl,
    stringField_record hnamed 1 rfl, stringField_record hnamed 2 rfl,
    bytesField_omitBytes hnamed 3 rfl, bytesField_omitBytes hnamed 4 rfl,
    boolField_omitFalse hnamed 5 rfl, intField_omitZero hnamed 6 rfl,
    intField_omitZero hnamed 7 rfl, intField_omitZero hnamed 8 rfl]
  rfl

theorem NotifyCommand.ofJson_record (command : NotifyCommand) :
    NotifyCommand.ofJson (Json.record command.entries).sanitized = .ok command.received := by
  have hnamed := command.named
  have hpay : bytesField (bytesOf "payload") (Json.record command.entries).sanitized =
      .ok command.payload := by
    rw [bytesField, Json.field?_sanitized_record hnamed 2 rfl]
    by_cases hempty : command.payload = []
    · simp [hempty, Json.sanitized]
    · simp [hempty, Json.sanitized, sanitize_encode, Base64.decode_encode]
  rw [NotifyCommand.ofJson, requireRecord_record, stringField_record hnamed 0 rfl,
    stringField_record hnamed 1 rfl, hpay]
  rfl

section SQL

variable (lib : Library) {json : Json} {command : SQLCommand lib.Float}

def SQLStatement.received (statement : SQLStatement lib.Float) : SQLStatement lib.Float :=
  { statement with
    sql := Utf8.sanitize statement.sql
    args := statement.args.map (Arg.received lib)
    outputRefs := statement.outputRefs.map SQLStatementOutputRef.received }

/-- The command a decoder obtains when it reads these arguments. -/
def SQLCommand.receivedWith (command : SQLCommand lib.Float) (args : List (Arg lib.Float)) :
    SQLCommand lib.Float :=
  { command with
    requestID := Utf8.sanitize command.requestID
    sql := Utf8.sanitize command.sql
    args
    statements := command.statements.map (SQLStatement.received lib)
    migration := command.migration.map SQLMigration.received }

/-- Every argument binds a value. -/
def SQLStatement.Bound (statement : SQLStatement lib.Float) : Prop :=
  ∀ arg ∈ statement.args, ∃ value, sqlArg lib arg = .ok value

theorem SQLStatement.named (statement : SQLStatement lib.Float) (args : List Json) :
    (statement.entries lib args).Named := by
  have hkeys : (statement.entries lib args).map Prod.fst = [bytesOf "sql", bytesOf "args",
    bytesOf "want_rows", bytesOf "expected_rows_affected", bytesOf "expected_returned_rows",
    bytesOf "output_refs"] := rfl
  exact Json.Entries.named_of_keys hkeys (by decide) (by decide)

theorem SQLCommand.named (command : SQLCommand lib.Float) (args statements : List Json) :
    (command.entries lib args statements).Named := by
  have hkeys : (command.entries lib args statements).map Prod.fst = [bytesOf "request_id",
    bytesOf "sql", bytesOf "args", bytesOf "want_rows", bytesOf "require_one",
    bytesOf "statements", bytesOf "migration"] := rfl
  exact Json.Entries.named_of_keys hkeys (by decide) (by decide)

theorem mapM_outputRefs (refs : List SQLStatementOutputRef) :
    ((refs.map fun ref => Json.record ref.entries).map Json.sanitized).mapM
      SQLStatementOutputRef.ofJson = .ok (refs.map SQLStatementOutputRef.received) := by
  induction refs with
  | nil => rfl
  | cons ref refs ih =>
    simp only [List.map_cons, List.mapM_cons]
    rw [ref.ofJson_record, ih]
    rfl

theorem SQLStatement.ofJson_marshal {statement : SQLStatement lib.Float}
    (hbound : statement.Bound lib) (hjson : statement.marshal lib = some json) :
    SQLStatement.ofJson lib json.sanitized = .ok (statement.received lib) := by
  obtain ⟨items, hitems, rfl⟩ := Option.map_eq_some_iff.mp hjson
  have hnamed := statement.named lib items
  have hcode := decodeSQLArgs_encodeSQLArgs lib hbound hitems
  simp only [SQLStatement.ofJson, requireRecord_record, stringField_record hnamed 0 rfl,
    itemsField_omitItems hnamed 1 rfl, hcode, boolField_omitFalse hnamed 2 rfl,
    intPointerField_record hnamed 3 rfl, intPointerField_record hnamed 4 rfl,
    itemsField_omitItems hnamed 5 rfl, mapM_outputRefs, ok_bind]
  rfl

theorem migrationField_record (args statements : List Json) :
    migrationField (Json.record (command.entries lib args statements)).sanitized =
      .ok (command.migration.map SQLMigration.received) := by
  rw [migrationField, Json.field?_sanitized_record (command.named lib args statements) 6 rfl]
  cases command.migration with
  | none => rfl
  | some migration =>
    have hread := migration.ofJson_record
    simp only [Option.map_some, Json.record, Json.sanitized] at hread ⊢
    rw [hread]
    rfl

/-- A command is read back when its arguments are. -/
theorem SQLCommand.ofJson_marshal
    (hbound : ∀ statement ∈ command.statements, statement.Bound lib)
    (hjson : command.marshal lib = some json) :
    ∃ items, encodeSQLArgs lib command.args = some items ∧
      SQLCommand.ofJson lib json.sanitized =
        (decodeSQLArgs lib (items.map Json.sanitized)).map (command.receivedWith lib) := by
  simp only [SQLCommand.marshal, Option.bind_eq_bind, Option.bind_eq_some_iff,
    Option.some.injEq] at hjson
  obtain ⟨items, hitems, statements, hparts, rfl⟩ := hjson
  refine ⟨items, hitems, ?_⟩
  have hnamed := command.named lib items statements
  have hread := Json.mapM_read_sanitized
    (fun statement hmem json hjson => SQLStatement.ofJson_marshal lib (hbound statement hmem) hjson)
    hparts
  simp only [SQLCommand.ofJson, requireRecord_record, stringField_record hnamed 0 rfl,
    stringField_omitString hnamed 1 rfl, itemsField_omitItems hnamed 2 rfl,
    boolField_omitFalse hnamed 3 rfl, boolField_omitFalse hnamed 4 rfl,
    itemsField_omitItems hnamed 5 rfl, hread, migrationField_record, ok_bind]
  cases decodeSQLArgs lib (items.map Json.sanitized) <;> rfl

end SQL

/-! ## Batches -/

theorem encodeItems_eq_intercalate (items : List Json) :
    Json.encodeItems items = [44].intercalate (items.map Json.encode) := by
  induction items with
  | nil => rfl
  | cons item items ih =>
    cases items with
    | nil => simp [Json.encodeItems]
    | cons =>
      rw [Json.encodeItems, ih]
      simp [List.intercalate]

theorem assembleBatch_eq (magic : ByteString) (items : List Json) :
    assembleBatch magic (items.map Json.encode) = magic ++ (Json.array items).encode := by
  rw [assembleBatch, Json.encode, encodeItems_eq_intercalate, List.append_assoc]

theorem parseItems_assembleBatch (magic : ByteString) (items : List Json) :
    parseItems ((assembleBatch magic (items.map Json.encode)).drop magic.length) =
      .ok (items.map Json.sanitized) := by
  rw [assembleBatch_eq, List.drop_left, parseItems, Json.parse_encode]
  simp only [Json.sanitized, Json.sanitizedItems_eq_map]

end Rhiza.Commands
