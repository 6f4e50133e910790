import Rhiza.Commands.Apply
import Rhiza.Commands.TempPolicy

/-! # When an accepted command can be applied

A command that is decoded from a proposed value passes every check before its execution
exactly when it fits: the strings with a byte limit keep it once the bytes that begin no
character are replaced. The other checks, passed before the trip through a batch, are passed
again after it.
-/

namespace Rhiza.Commands

open Foundations

/-- The length of a string once the bytes that begin no character are replaced. -/
def replacedLength (s : ByteString) : ℕ := s.length + 2 * (Utf8.units s).count none

theorem length_sanitize_eq (s : ByteString) : (Utf8.sanitize s).length = replacedLength s :=
  Utf8.length_sanitize s

section SQL

variable (lib : Library) {arg : Arg lib.Float}

/-! ## Arguments -/

variable {value : SQLValue lib.Float}

theorem sqlArg_received_uint {n : UInt64} (h : sqlArg lib (.uint n) = .ok value) :
    sqlArg lib ((Arg.uint n).received lib) = .ok value := by
  simp only [sqlArg] at h
  split at h
  · next hn =>
    cases h
    have hparse : Decimal.parseInt64? (Decimal.formatInt n.toNat) = some (n.toNat : ℤ) :=
      Decimal.parseInt64?_formatInt (by omega) (by exact_mod_cast hn)
    simp [Arg.received, sqlArg, hparse]
  · cases h

/-- An argument that binds a value still binds one. -/
theorem sqlArg_received
    (h : sqlArg lib arg = .ok value) : ∃ value', sqlArg lib (arg.received lib) = .ok value' := by
  cases arg with
  | nil | bool _ | string _ | bytes _ => exact ⟨_, rfl⟩
  | float32 _ | list _ => cases h
  | int n => simp [Arg.received, sqlArg, Decimal.parseInt64?_formatInt n.le_toInt n.toInt_lt]
  | uint => exact ⟨value, sqlArg_received_uint lib h⟩
  | float x =>
    simp only [Arg.received]
    cases htext : lib.formatFloat x with
    | none => exact ⟨_, rfl⟩
    | some text =>
      simp only [sqlArg, lib.parseFloat_formatFloat htext]
      cases Decimal.parseInt64? text <;> exact ⟨_, rfl⟩
  | number text =>
    simp only [Arg.received]
    by_cases htext : text = []
    · exact ⟨.integer 0, by rw [if_pos htext]; rfl⟩
    · rw [if_neg htext]
      exact ⟨value, h⟩
  | map =>
    obtain ⟨text, b, rfl, hb, -⟩ := sqlArg_map lib h
    simp [Arg.received, hb, sqlArg]

theorem isNil_received (arg : Arg lib.Float) : (arg.received lib).isNil lib = arg.isNil lib := by
  cases arg with
  | float x =>
    simp only [Arg.received]
    cases lib.formatFloat x <;> rfl
  | map entries =>
    rcases entries with _ | ⟨⟨key, value⟩, _ | ⟨second, rest⟩⟩
    · rfl
    · cases value with
      | string text =>
        simp only [Arg.received]
        cases Base64.decode text <;> rfl
      | _ => rfl
    · cases value <;> rfl
  | _ => rfl

/-! ## Statements -/

theorem argAt_received (args : List (Arg lib.Float)) (index : Int64) :
    argAt lib (args.map (Arg.received lib)) index =
      (argAt lib args index).map (Arg.received lib) := by
  rw [argAt, argAt]
  split
  · rw [List.getElem?_map]
  · rfl

variable {earlier : List (SQLStatement lib.Float)} {statement : SQLStatement lib.Float}
  {seen : List Int64} {migration : Bool}

theorem validateOutputRef_received {ref : SQLStatementOutputRef}
    (h : validateOutputRef lib earlier statement seen ref = .ok ()) :
    validateOutputRef lib (earlier.map (SQLStatement.received lib)) (statement.received lib) seen
      ref.received = .ok () := by
  simp only [validateOutputRef, seq_eq_ok, require_eq_ok] at h ⊢
  obtain ⟨hbound, hnil, hseen, hago, hcolumn, hindex⟩ := h
  simp only [SQLStatement.received, SQLStatementOutputRef.received, argAt_received,
    List.getElem?_map, sanitize_eq_nil]
  refine ⟨by simpa using hbound, ?_, hseen, ⟨hago.1, ?_⟩, hcolumn, hindex⟩
  · simpa [Option.any_map, Function.comp_def, isNil_received] using hnil
  · rw [Option.any_map]
    exact hago.2

theorem validateOutputRefs_received {refs : List SQLStatementOutputRef}
    (h : validateOutputRefs lib earlier statement seen refs = .ok ()) :
    validateOutputRefs lib (earlier.map (SQLStatement.received lib)) (statement.received lib) seen
      (refs.map SQLStatementOutputRef.received) = .ok () := by
  induction refs generalizing seen with
  | nil => rfl
  | cons ref refs ih =>
    simp only [validateOutputRefs, seq_eq_ok] at h
    simp only [List.map_cons, validateOutputRefs, seq_eq_ok]
    exact ⟨validateOutputRef_received lib h.1, ih h.2⟩

theorem validateParameters_received (statement : SQLStatement lib.Float) :
    validateParameters lib (statement.received lib) = validateParameters lib statement := by
  simp only [validateParameters, SQLStatement.received, countPlainParameters_sanitize,
    List.length_map, List.map_eq_nil_iff]

theorem validateKeyword_sanitize (s : ByteString) :
    validateKeyword (Utf8.sanitize s) = validateKeyword s := by
  rw [validateKeyword, validateKeyword, firstSQLKeyword_sanitize]

/-- A checked statement passes again when its text still fits. -/
theorem validateStatement_received
    (hsize : (Utf8.sanitize statement.sql).length ≤ maxSQLBytes)
    (h : validateStatement lib migration earlier statement = .ok ()) :
    validateStatement lib migration (earlier.map (SQLStatement.received lib))
      (statement.received lib) = .ok () := by
  simp only [validateStatement, seq_eq_ok, require_eq_ok] at h ⊢
  obtain ⟨hblank, hnull, -, hrefs, hmove, hexpect, hparameters, houtput, hargs, htemp,
    hpublic, hbind, hkeyword⟩ := h
  refine ⟨?_, ?_, hsize, ?_, ?_, hexpect, ?_, validateOutputRefs_received lib houtput, ?_, ?_, ?_,
    ?_, ?_⟩
  · simpa only [SQLStatement.received, trimSpace_sanitize, ne_eq, sanitize_eq_nil] using hblank
  · simpa only [SQLStatement.received, zero_mem_sanitize] using hnull
  · simpa only [SQLStatement.received, List.length_map] using hrefs
  · simpa only [SQLStatement.received, List.length_map] using hmove
  · rw [validateParameters_received, hparameters]
  · simpa only [SQLStatement.received, List.length_map] using hargs
  · rw [SQLStatement.received, validateReplicatedTempSQL_sanitize, htemp]
  · rw [SQLStatement.received, validatePublicSQL_sanitize, hpublic]
  · rw [validateArgs_eq_ok] at hbind ⊢
    simp only [SQLStatement.received, List.forall_mem_map]
    intro arg harg
    obtain ⟨value, hvalue⟩ := hbind arg harg
    exact sqlArg_received lib hvalue
  · rw [SQLStatement.received, validateKeyword_sanitize, hkeyword]

theorem validateStatements_received
    {earlier statements : List (SQLStatement lib.Float)}
    (hsize : ∀ statement ∈ statements, (Utf8.sanitize statement.sql).length ≤ maxSQLBytes)
    (h : validateStatements lib migration earlier statements = .ok ()) :
    validateStatements lib migration (earlier.map (SQLStatement.received lib))
      (statements.map (SQLStatement.received lib)) = .ok () := by
  induction statements generalizing earlier with
  | nil => rfl
  | cons statement statements ih =>
    simp only [validateStatements, seq_eq_ok] at h
    simp only [List.map_cons, validateStatements, seq_eq_ok]
    refine ⟨validateStatement_received lib (hsize statement List.mem_cons_self) h.1, ?_⟩
    have hrest := ih (fun s hs => hsize s (List.mem_cons_of_mem statement hs)) h.2
    rwa [List.map_append] at hrest

/-! ## Decoded commands are encoded again -/

mutual

theorem Arg.marshal_ofJson (json : Json) : (Arg.ofJson lib json).marshal lib = some json := by
  match json with
  | .null | .bool _ | .string _ => rfl
  | .number text =>
    obtain ⟨b, rest, htext, -⟩ := Decimal.validNumber_cons text.2
    have hne : text.val ≠ [] := by simp [htext]
    simp [Arg.ofJson, Arg.marshal, numberJson, hne, text.2]
  | .array items => rw [Arg.ofJson, Arg.marshal, Arg.marshalItems_ofItems items]; rfl
  | .object fields => rw [Arg.ofJson, Arg.marshal, Arg.marshalEntries_ofFields fields]; rfl

theorem Arg.marshalItems_ofItems (items : List Json) :
    Arg.marshalItems lib (Arg.ofItems lib items) = some items := by
  match items with
  | [] => rfl
  | item :: items =>
    rw [Arg.ofItems, Arg.marshalItems, Arg.marshal_ofJson item, Arg.marshalItems_ofItems items]
    rfl

theorem Arg.marshalEntries_ofFields (fields : List (ByteString × Json)) :
    Arg.marshalEntries lib (Arg.ofFields lib fields) = some fields := by
  match fields with
  | [] => rfl
  | (key, value) :: fields =>
    rw [Arg.ofFields, Arg.marshalEntries, Arg.marshal_ofJson value,
      Arg.marshalEntries_ofFields fields]
    rfl

end

/-- The tree an argument is encoded to after a decoder obtained it from one. -/
def reencoded : Json → Json
  | .object [(key, .string text)] =>
    if key = blobKey then
      .object [(key, .string (Base64.encode ((Base64.decode text).getD [])))]
    else .object [(key, .string text)]
  | json => json

variable {json : Json}

theorem encodeSQLArg_decodeSQLArg {arg : Arg lib.Float}
    (h : decodeSQLArg lib (Arg.ofJson lib json) = .ok arg) :
    encodeSQLArg lib arg = some (reencoded json) := by
  have hspell := Arg.marshal_ofJson lib json
  match json with
  | .null | .bool _ | .number _ | .string _ | .array _ | .object [] =>
    cases h
    exact hspell
  | .object ((_, value) :: (_, _) :: _) =>
    cases h
    cases value <;> exact hspell
  | .object [(key, value)] =>
    simp only [Arg.ofJson, Arg.ofFields, decodeSQLArg] at h
    by_cases hkey : key = blobKey
    · -- Only the text of a blob is accepted behind the tag.
      simp only [hkey, if_true] at h
      cases value with
      | string text =>
        simp only [Arg.ofJson] at h
        cases hgot : Base64.decode text with
        | none => simp [hgot] at h
        | some =>
          rw [hgot] at h
          cases h
          simp [encodeSQLArg, reencoded, hkey, hgot]
      | _ => cases h
    · rw [if_neg hkey] at h
      cases h
      have hsame : reencoded (.object [(key, value)]) = .object [(key, value)] := by
        cases value <;> simp [reencoded, hkey]
      rw [hsame]
      exact hspell

theorem encodeSQLArgs_decodeSQLArgs {items : List Json} {args : List (Arg lib.Float)}
    (h : decodeSQLArgs lib items = .ok args) :
    encodeSQLArgs lib args = some (items.map reencoded) := by
  induction items generalizing args with
  | nil =>
    obtain rfl : [] = args := by simpa [decodeSQLArgs, pure, Except.pure] using h
    rfl
  | cons item items ih =>
    simp only [decodeSQLArgs, List.mapM_cons, bind_eq_ok] at h
    obtain ⟨arg, harg, rest, hrest, heq⟩ := h
    cases heq
    have htail : List.mapM (encodeSQLArg lib) rest = some (items.map reencoded) := ih hrest
    rw [encodeSQLArgs, List.mapM_cons, encodeSQLArg_decodeSQLArg lib harg, htail]
    rfl

theorem mapM_isSome {α β : Type} {f : α → Option β} {elements : List α}
    (h : ∀ element ∈ elements, ∃ result, f element = some result) :
    ∃ results, elements.mapM f = some results := by
  induction elements with
  | nil => exact ⟨[], rfl⟩
  | cons head tail ih =>
    obtain ⟨result, hhead⟩ := h head List.mem_cons_self
    obtain ⟨results, htail⟩ := ih fun e he => h e (List.mem_cons_of_mem head he)
    exact ⟨result :: results, by simp [List.mapM_cons, hhead, htail]⟩

/-- The results of a fallible map, each with its element. -/
theorem exists_of_mem_mapM {α β : Type} {f : α → Checked β} {elements : List α}
    {results : List β} (h : elements.mapM f = .ok results) {result : β} (hmem : result ∈ results) :
    ∃ element ∈ elements, f element = .ok result := by
  induction elements generalizing results with
  | nil =>
    obtain rfl : [] = results := by simpa [pure, Except.pure] using h
    exact absurd hmem List.not_mem_nil
  | cons head tail ih =>
    simp only [List.mapM_cons, bind_eq_ok] at h
    obtain ⟨first, hfirst, rest, hrest, heq⟩ := h
    cases heq
    rcases List.mem_cons.mp hmem with rfl | hmem
    · exact ⟨head, List.mem_cons_self, hfirst⟩
    · obtain ⟨element, helement, hout⟩ := ih hrest hmem
      exact ⟨element, List.mem_cons_of_mem head helement, hout⟩

theorem exists_getElem?_of_mapM {α β : Type} {f : α → Checked β} {elements : List α}
    {results : List β} (h : elements.mapM f = .ok results) {i : ℕ} {element : α}
    (helement : elements[i]? = some element) :
    ∃ result, results[i]? = some result ∧ f element = .ok result := by
  induction elements generalizing results i with
  | nil => exact absurd helement nofun
  | cons head tail ih =>
    simp only [List.mapM_cons, bind_eq_ok] at h
    obtain ⟨first, hfirst, rest, hrest, heq⟩ := h
    cases heq
    cases i with
    | zero =>
      cases helement
      exact ⟨first, rfl, hfirst⟩
    | succ => exact ih hrest helement

theorem exists_mem_of_mapM {α β : Type} {f : α → Option β} {elements : List α} {results : List β}
    (h : elements.mapM f = some results) {element : α} (hmem : element ∈ elements) :
    ∃ result ∈ results, f element = some result := by
  induction elements generalizing results with
  | nil => exact absurd hmem List.not_mem_nil
  | cons head tail ih =>
    simp only [List.mapM_cons, Option.bind_eq_bind, Option.bind_eq_some_iff, Option.pure_def,
      Option.some.injEq] at h
    obtain ⟨first, hfirst, rest, hrest, rfl⟩ := h
    rcases List.mem_cons.mp hmem with rfl | hmem
    · exact ⟨first, List.mem_cons_self, hfirst⟩
    · obtain ⟨result, hout, heq⟩ := ih hrest hmem
      exact ⟨result, List.mem_cons_of_mem first hout, heq⟩

theorem SQLStatement.marshal_of_ofJson {statement : SQLStatement lib.Float}
    (h : SQLStatement.ofJson lib json = .ok statement) :
    ∃ encoded, statement.marshal lib = some encoded := by
  simp only [SQLStatement.ofJson, bind_eq_ok] at h
  obtain ⟨_, -, sql, -, items, -, args, hargs, _, -, _, -, _, -, _, -, _, -, heq⟩ := h
  cases heq
  have hwrote := encodeSQLArgs_decodeSQLArgs lib hargs
  exact ⟨_, by rw [SQLStatement.marshal, hwrote]; rfl⟩

/-- A decoded command has a fingerprint. -/
theorem sqlFingerprintItem_of_ofJson {command : SQLCommand lib.Float}
    (h : SQLCommand.ofJson lib json = .ok command) :
    ∃ item, sqlFingerprintItem lib command = some item := by
  simp only [SQLCommand.ofJson, bind_eq_ok] at h
  obtain ⟨_, -, requestID, -, sql, -, items, -, args, hargs, wantRows, -, requireOne, -,
    statementItems, -, statements, hparts, migration, -, heq⟩ := h
  cases heq
  have hwrote := encodeSQLArgs_decodeSQLArgs lib hargs
  obtain ⟨marshalled, hmarshalled⟩ :
      ∃ marshalled, statements.mapM (SQLStatement.marshal lib) = some marshalled := by
    apply mapM_isSome
    intro statement hmem
    obtain ⟨item, -, hitem⟩ := exists_of_mem_mapM hparts hmem
    exact SQLStatement.marshal_of_ofJson lib hitem
  exact ⟨_, by simp only [sqlFingerprintItem, encodeSQLBatchItem, SQLCommand.marshal, hwrote,
    hmarshalled, Option.bind_eq_bind, Option.bind_some]; rfl⟩

/-! ## Accepted commands -/

/-- The request id keeps its limit. -/
def SQLCommand.Fits (command : SQLCommand lib.Float) : Prop :=
  replacedLength command.requestID ≤ maxRequestIDBytes

theorem bound_of_validateStatements {migration : Bool}
    {earlier statements : List (SQLStatement lib.Float)}
    (h : validateStatements lib migration earlier statements = .ok ()) :
    ∀ statement ∈ statements, statement.Bound lib := by
  induction statements generalizing earlier with
  | nil => exact fun _ hmem => absurd hmem List.not_mem_nil
  | cons statement statements ih =>
    simp only [validateStatements, seq_eq_ok] at h
    rw [List.forall_mem_cons]
    refine ⟨?_, ih h.2⟩
    simp only [validateStatement, seq_eq_ok] at h
    exact (validateArgs_eq_ok lib).mp h.1.2.2.2.2.2.2.2.2.2.2.2.1

/-- The texts of an accepted command stay far below the limit of a statement. -/
theorem length_effective_le {command : SQLCommand lib.Float}
    (hjson : command.marshal lib = some json) :
    ∀ statement ∈ command.effective lib,
      (Utf8.sanitize statement.sql).length ≤ json.encode.length := by
  simp only [SQLCommand.marshal, Option.bind_eq_bind, Option.bind_eq_some_iff,
    Option.some.injEq] at hjson
  obtain ⟨items, hitems, statements, hparts, rfl⟩ := hjson
  intro statement hmem
  refine Nat.le_trans (Json.length_sanitize_le_encode statement.sql) ?_
  rw [SQLCommand.effective] at hmem
  split at hmem
  · obtain rfl := List.mem_singleton.mp hmem
    by_cases hempty : command.sql = []
    · simp only [hempty, Json.record, Json.encode, Json.encodeString, Utf8.units_nil,
        List.flatMap_nil, List.length_append, List.length_cons, List.length_nil]
      omega
    · have hentry : (bytesOf "sql", some (Json.string command.sql)) ∈
          command.entries lib items statements := by
        simp [SQLCommand.entries, omitString, hempty]
      exact Json.length_encode_le_record hentry
  · next hpart =>
    obtain ⟨encoded, hwrote, hspell⟩ := exists_mem_of_mapM hparts hmem
    obtain ⟨args, -, rfl⟩ := Option.map_eq_some_iff.mp hspell
    have hsql : (bytesOf "sql", some (Json.string statement.sql)) ∈
        statement.entries lib args := by simp [SQLStatement.entries]
    have hlist : (bytesOf "statements", some (Json.array statements)) ∈
        command.entries lib items statements := by
      simp [SQLCommand.entries, omitItems, List.ne_nil_of_mem hwrote]
    exact Nat.le_trans (Json.length_encode_le_record hsql)
      (Nat.le_trans (Json.length_encode_le_array hwrote) (Json.length_encode_le_record hlist))

variable {oneStatement : Bool} {encoded : ByteString}

/-- What an accepted request guarantees. -/
theorem execute_eq_ok {request : ExecuteRequest lib.Float}
    (h : execute lib oneStatement request = .ok encoded) :
    ∃ json, request.command.marshal lib = some json ∧ encoded = json.encode ∧
      validateSQLCommand lib request.command = .ok () ∧
      encoded.length ≤ maxReplicatedValueBytes := by
  simp only [execute, bind_eq_ok] at h
  obtain ⟨_, -, _, -, _, -, _, hvalid, _, -, item, hitem, _, hsize, heq⟩ := h
  obtain rfl := Except.ok.inj heq
  rw [require_eq_ok] at hsize
  cases hspell : request.command.marshal lib with
  | none => simp [encodeSQLBatchItem, hspell, orElseError] at hitem
  | some json =>
    obtain rfl : json.encode = item := by
      simpa [encodeSQLBatchItem, hspell, orElseError] using hitem
    refine ⟨json, rfl, rfl, hvalid, Nat.le_trans ?_ hsize⟩
    simp only [assembleBatch, List.length_append, List.length_cons, List.intercalate_singleton]
    omega

/-- The checks of a received command, once its arguments are decoded. -/
theorem validateSQLCommand_received {command : SQLCommand lib.Float}
    {args : List (Arg lib.Float)} (hvalid : validateSQLCommand lib command = .ok ())
    (hmove : command.migration = none) (hjson : command.marshal lib = some json)
    (hsize : json.encode.length ≤ maxReplicatedValueBytes)
    (hargs : command.statements = [] → args = command.args.map (Arg.received lib)) :
    validateSQLCommand lib (command.receivedWith lib args) = .ok () ↔
      replacedLength command.requestID ≤ maxRequestIDBytes := by
  have heffective : (command.receivedWith lib args).effective lib =
      (command.effective lib).map (SQLStatement.received lib) := by
    by_cases hparts : command.statements = []
    · simp [SQLCommand.effective, SQLCommand.receivedWith, hparts, hargs hparts,
        SQLStatement.received]
    · simp [SQLCommand.effective, SQLCommand.receivedWith, hparts]
  simp only [validateSQLCommand, validateMigration, hmove, seq_eq_ok, require_eq_ok] at hvalid
  obtain ⟨-, hone, -, hcount, hparts⟩ := hvalid
  have hsizes : ∀ statement ∈ command.effective lib,
      (Utf8.sanitize statement.sql).length ≤ maxSQLBytes := fun statement hmem =>
    Nat.le_trans (length_effective_le lib hjson statement hmem)
      (Nat.le_trans hsize (by decide))
  have hreceived := validateStatements_received lib hsizes hparts
  rw [← length_sanitize_eq]
  constructor
  · intro h
    simp only [validateSQLCommand, seq_eq_ok, require_eq_ok] at h
    exact h.1
  · intro hid
    simp only [validateSQLCommand, seq_eq_ok, require_eq_ok]
    refine ⟨hid, ?_, ?_, ?_, ?_⟩
    · simpa [SQLCommand.receivedWith] using hone
    · simp [validateMigration, SQLCommand.receivedWith, hmove]
    · rw [heffective, List.length_map]
      exact hcount
    · rw [heffective]
      simpa [SQLCommand.receivedWith, hmove] using hreceived

theorem bound_of_validateSQLCommand {command : SQLCommand lib.Float}
    (h : validateSQLCommand lib command = .ok ()) :
    ∀ statement ∈ command.effective lib, statement.Bound lib := by
  simp only [validateSQLCommand, seq_eq_ok] at h
  exact bound_of_validateStatements lib h.2.2.2.2

theorem bound_of_execute {request : ExecuteRequest lib.Float}
    (h : execute lib oneStatement request = .ok encoded) :
    ∀ statement ∈ request.command.statements, statement.Bound lib := by
  obtain ⟨-, -, -, hvalid, -⟩ := execute_eq_ok lib h
  intro statement hmem
  refine bound_of_validateSQLCommand lib hvalid statement ?_
  rwa [SQLCommand.effective, if_neg (List.ne_nil_of_mem hmem)]

/-- Without a statement list the arguments were checked, so they are decoded. -/
theorem decodeSQLArgs_of_execute {request : ExecuteRequest lib.Float} {items : List Json}
    (h : execute lib oneStatement request = .ok encoded)
    (hempty : request.command.statements = [])
    (hitems : encodeSQLArgs lib request.command.args = some items) :
    decodeSQLArgs lib (items.map Json.sanitized) =
      .ok (request.command.args.map (Arg.received lib)) := by
  obtain ⟨-, -, -, hvalid, -⟩ := execute_eq_ok lib h
  have hbound := bound_of_validateSQLCommand lib hvalid
  rw [SQLCommand.effective, if_pos hempty] at hbound
  exact decodeSQLArgs_encodeSQLArgs lib (hbound _ List.mem_cons_self) hitems

/-- The command decoded for an accepted request passes its checks exactly when the submitted
one fits. -/
theorem checkSQL_received_iff {request : ExecuteRequest lib.Float}
    {command : SQLCommand lib.Float} (h : execute lib oneStatement request = .ok json.encode)
    (hspell : request.command.marshal lib = some json)
    (hread : SQLCommand.ofJson lib json.sanitized = .ok command) :
    checkSQL lib command = .ok () ↔ request.command.Fits lib := by
  obtain ⟨json', hjson', -, hvalid, hsize⟩ := execute_eq_ok lib h
  cases hspell.symm.trans hjson'
  obtain ⟨items, hitems, hdecode⟩ := SQLCommand.ofJson_marshal lib (bound_of_execute lib h) hspell
  obtain ⟨item, hitem⟩ := sqlFingerprintItem_of_ofJson lib hread
  rw [hread] at hdecode
  cases hargs : decodeSQLArgs lib (items.map Json.sanitized) with
  | error =>
    rw [hargs] at hdecode
    cases hdecode
  | ok args =>
    rw [hargs] at hdecode
    cases hdecode
    have hown : request.command.statements = [] →
        args = request.command.args.map (Arg.received lib) := fun hempty =>
      Except.ok.inj (hargs.symm.trans (decodeSQLArgs_of_execute lib h hempty hitems))
    rw [SQLCommand.Fits, ← validateSQLCommand_received lib hvalid rfl hspell hsize hown, checkSQL,
      hitem, seq_eq_ok]
    exact and_iff_left rfl

end SQL

end Rhiza.Commands
