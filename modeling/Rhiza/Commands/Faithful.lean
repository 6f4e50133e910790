import Rhiza.Commands.Applicable
import Rhiza.Commands.Admitted

/-! # Commands that arrive as they were submitted

A decoded argument is encoded again for the fingerprint of the command it belongs to. The
second text is the first one unless a tagged blob is not the text the encoder writes. Apart
from that, an argument binds the value it was submitted with, unless it is a text that is not
well formed, or a double that is an integer of 64 bits: its spelling is read as one.
-/

namespace Rhiza.Commands

open Foundations

variable (lib : Library)

/-! ## Arguments -/

/-- The argument arrives as it was submitted. -/
structure Arg.Portable (arg : Arg lib.Float) : Prop where
  wellFormed : ∀ s, arg = .string s → Utf8.Valid s
  canonical : ∀ text, arg = .map [(blobKey, .string text)] → ∃ b, Base64.encode b = text
  fraction : ∀ x, arg = .float x → lib.isInt64 x = false

theorem sanitized_reencoded {json : Json} (h : json.sanitized = json) :
    (reencoded json).sanitized = reencoded json := by
  rw [reencoded.eq_def]
  split
  · split
    · next key text hkey =>
      simp only [hkey, Json.sanitized, Json.sanitizedFields, blobKey_sanitize, sanitize_encode]
    · exact h
  · exact h

theorem exists_of_numberJson {text : ByteString} {json : Json} (h : numberJson text = some json) :
    ∃ number, json = .number number := by
  rw [numberJson] at h
  split at h
  · exact ⟨_, (Option.some.inj h).symm⟩
  · split at h
    · exact ⟨_, (Option.some.inj h).symm⟩
    · exact absurd h nofun

theorem eq_nil_of_marshalEntries {entries : List (ByteString × Arg lib.Float)}
    (h : Arg.marshalEntries lib entries = some []) : entries = [] := by
  match entries with
  | [] => rfl
  | (key, value) :: entries => simp [Arg.marshalEntries, Option.bind_eq_some_iff] at h

/-- Only strings and bytes are written as strings. -/
theorem eq_of_marshal_string {arg : Arg lib.Float} {text : ByteString}
    (h : arg.marshal lib = some (.string text)) :
    arg = .string text ∨ ∃ b, arg = .bytes b ∧ Base64.encode b = text := by
  cases arg with
  | string => exact .inl (by rw [Json.string.inj (Option.some.inj h)])
  | bytes b => exact .inr ⟨b, rfl, Json.string.inj (Option.some.inj h)⟩
  | nil | bool _ | int _ | uint _ => exact absurd (Option.some.inj h) nofun
  | float32 _ | float _ | list _ | map _ =>
    obtain ⟨_, -, heq⟩ := Option.map_eq_some_iff.mp h
    exact absurd heq nofun
  | number =>
    obtain ⟨number, hnumber⟩ := exists_of_numberJson h
    exact absurd hnumber nofun

/-- A tagged text is a blob's own, or was submitted as it is. -/
theorem exists_encode_of_tagged {arg : Arg lib.Float} {text : ByteString}
    (hjson : encodeSQLArg lib arg = some (.object [(blobKey, .string text)]))
    (hcanonical : ∀ text, arg = .map [(blobKey, .string text)] → ∃ b, Base64.encode b = text) :
    ∃ b, Base64.encode b = text := by
  cases arg with
  | bytes b =>
    simp only [encodeSQLArg, Option.some.injEq, Json.object.injEq, List.cons.injEq, Prod.mk.injEq,
      Json.string.injEq, true_and, and_true] at hjson
    exact ⟨b, hjson⟩
  | map entries =>
    obtain ⟨fields, hfields, heq⟩ := Option.map_eq_some_iff.mp hjson
    obtain rfl := Json.object.inj heq
    cases entries with
    | nil => cases hfields
    | cons entry entries =>
      obtain ⟨key, value⟩ := entry
      simp only [Arg.marshalEntries, Option.bind_eq_bind, Option.bind_eq_some_iff,
        Option.some.injEq] at hfields
      obtain ⟨json, hvalue, rest, hrest, heq⟩ := hfields
      obtain ⟨hfield, rfl⟩ := List.cons.inj heq
      obtain ⟨rfl, rfl⟩ := Prod.mk.inj hfield
      obtain rfl := eq_nil_of_marshalEntries lib hrest
      rcases eq_of_marshal_string lib hvalue with rfl | ⟨b, -, hb⟩
      · exact hcanonical text rfl
      · exact ⟨b, hb⟩
  | nil | bool _ | string _ | int _ | uint _ => cases Option.some.inj hjson
  | float32 _ | float _ | list _ =>
    obtain ⟨_, -, heq⟩ := Option.map_eq_some_iff.mp hjson
    cases heq
  | number =>
    obtain ⟨number, hnumber⟩ := exists_of_numberJson hjson
    cases hnumber

theorem sanitize_eq_blobKey {key : ByteString} : Utf8.sanitize key = blobKey ↔ key = blobKey := by
  have hascii : blobKey.all (· < 128) := by decide
  constructor
  · exact Utf8.eq_of_sanitize_ascii (by simpa using hascii)
  · rintro rfl
    exact blobKey_sanitize

/-- What is read back as a tagged text was written as one. -/
theorem eq_of_sanitized_tagged {json : Json} {text : ByteString}
    (h : json.sanitized = .object [(blobKey, .string text)]) :
    ∃ written, json = .object [(blobKey, .string written)] ∧ Utf8.sanitize written = text := by
  cases json with
  | object fields =>
    rw [Json.sanitized, Json.object.injEq] at h
    rcases fields with _ | ⟨⟨key, value⟩, _ | ⟨second, rest⟩⟩
    · cases h
    · simp only [Json.sanitizedFields, List.cons.injEq, Prod.mk.injEq, sanitize_eq_blobKey,
        and_true] at h
      obtain ⟨rfl, hvalue⟩ := h
      cases value with
      | string written => exact ⟨written, rfl, Json.string.inj hvalue⟩
      | _ => cases hvalue
    · simp [Json.sanitizedFields] at h
  | _ => cases h

/-- An encoded argument is encoded the same way again exactly when it is not tagged as a blob
or is spelled as the encoder spells it. -/
theorem reencoded_iff {arg : Arg lib.Float} {json : Json}
    (hjson : encodeSQLArg lib arg = some json) :
    reencoded json.sanitized = json.sanitized ↔
      ∀ text, arg = .map [(blobKey, .string text)] → ∃ b, Base64.encode b = text := by
  constructor
  · rintro h text rfl
    cases hjson
    simp only [Json.sanitized, Json.sanitizedFields, blobKey_sanitize, reencoded, if_true,
      Json.object.injEq, List.cons.injEq, Prod.mk.injEq, Json.string.injEq, true_and,
      and_true] at h
    exact ⟨_, (Utf8.eq_of_sanitize_ascii (fun _ => Base64.ascii_of_mem_encode) h.symm).symm⟩
  · intro hcanonical
    rw [reencoded.eq_def]
    split
    next key text heq =>
      rw [heq]
      split
      next hkey =>
        subst hkey
        obtain ⟨written, rfl, rfl⟩ := eq_of_sanitized_tagged heq
        obtain ⟨b, rfl⟩ := exists_encode_of_tagged lib hjson hcanonical
        rw [sanitize_encode, Base64.decode_encode, Option.getD_some]
      next => rfl
    next => rfl

variable {arg arg' : Arg lib.Float} {json : Json} {args' : List (Arg lib.Float)}
  {items : List Json} {codec : Codec} {command command' : SQLCommand lib.Float}

/-- The second argument binds the value that the first binds, if it binds one. -/
def SameValue (arg arg' : Arg lib.Float) : Prop :=
  ∀ value, sqlArg lib arg = .ok value → sqlArg lib arg' = .ok value

theorem sameValue_received (hportable : arg.Portable lib) :
    SameValue lib arg (arg.received lib) := by
  intro value h
  cases arg with
  | nil | bool _ | bytes _ => exact h
  | float32 _ | list _ => cases h
  | string s => rw [← h, Arg.received, (hportable.wellFormed s rfl).sanitize_eq]
  | int n =>
    cases h
    simp [Arg.received, sqlArg, Decimal.parseInt64?_formatInt n.le_toInt n.toInt_lt]
  | uint => exact sqlArg_received_uint lib h
  | float x =>
    cases h
    simp only [Arg.received]
    cases htext : lib.formatFloat x with
    | none => rfl
    | some =>
      have hparse := lib.parseInt64_formatFloat htext
      rw [← Library.isInt64, hportable.fraction x rfl, Option.isSome_eq_false_iff,
        Option.isNone_iff_eq_none] at hparse
      simp [sqlArg, hparse, lib.parseFloat_formatFloat htext]
  | number text =>
    -- The empty spelling, which is written as zero, binds nothing.
    have hne : text ≠ [] := by
      rintro rfl
      simp [sqlArg, lib.parseFloat_nil, Decimal.parseInt64?, Decimal.parseNat?] at h
    rw [Arg.received, if_neg hne]
    exact h
  | map =>
    obtain ⟨text, b, rfl, hb, rfl⟩ := sqlArg_map lib h
    simp [Arg.received, hb, sqlArg]

theorem fraction_of_sameValue {x : lib.Float} (hjson : encodeSQLArg lib (.float x) = some json)
    (hread : decodeSQLArg lib (Arg.ofJson lib json.sanitized) = .ok arg')
    (h : SameValue lib (.float x) arg') : lib.isInt64 x = false := by
  obtain ⟨text, htext, rfl⟩ := Option.map_eq_some_iff.mp hjson
  cases hread
  have hvalue := h (.real x) rfl
  rw [Library.isInt64, ← lib.parseInt64_formatFloat htext, Option.isSome_eq_false_iff,
    Option.isNone_iff_eq_none]
  cases hparse : Decimal.parseInt64? text with
  | none => rfl
  | some => simp [Arg.ofJson, Json.sanitized, sqlArg, hparse] at hvalue

/-- An argument is portable exactly when it is encoded the same way again and still binds
its value. -/
theorem portable_iff
    (hjson : encodeSQLArg lib arg = some json)
    (hread : decodeSQLArg lib (Arg.ofJson lib json.sanitized) = .ok arg') :
    arg.Portable lib ↔
      reencoded json.sanitized = json.sanitized ∧ SameValue lib arg arg' := by
  rw [reencoded_iff lib hjson]
  constructor
  · intro hportable
    refine ⟨hportable.canonical, fun value hvalue => ?_⟩
    have hreceived := decodeSQLArg_encodeSQLArg lib hvalue hjson
    rw [hread] at hreceived
    rw [Except.ok.inj hreceived]
    exact sameValue_received lib hportable value hvalue
  · rintro ⟨hcanonical, hsame⟩
    refine ⟨?_, hcanonical, ?_⟩
    · rintro s rfl
      cases hjson
      cases hread
      have hvalue : SQLValue.text (Utf8.sanitize s) = .text s := Except.ok.inj (hsame (.text s) rfl)
      exact Utf8.valid_iff_sanitize_eq.mpr (SQLValue.text.inj hvalue)
    · rintro x rfl
      exact fraction_of_sameValue lib hjson hread hsame

theorem portable_args_iff {args : List (Arg lib.Float)}
    (hitems : encodeSQLArgs lib args = some items)
    (hread : decodeSQLArgs lib (items.map Json.sanitized) = .ok args') :
    (∀ arg ∈ args, arg.Portable lib) ↔
      (items.map Json.sanitized).map reencoded = items.map Json.sanitized ∧
        List.Forall₂ (SameValue lib) args args' := by
  induction args generalizing items args' with
  | nil =>
    obtain rfl : [] = items := by simpa [encodeSQLArgs] using hitems
    obtain rfl : [] = args' := by simpa [decodeSQLArgs, pure, Except.pure] using hread
    simp
  | cons arg args ih =>
    simp only [encodeSQLArgs, List.mapM_cons, Option.bind_eq_bind, Option.bind_eq_some_iff,
      Option.pure_def, Option.some.injEq] at hitems
    obtain ⟨json, hjson, rest, hrest, rfl⟩ := hitems
    simp only [decodeSQLArgs, List.map_cons, List.mapM_cons, bind_eq_ok] at hread
    obtain ⟨arg', harg', rest', hrest', heq⟩ := hread
    cases heq
    rw [List.forall_mem_cons, portable_iff lib hjson harg', ih hrest hrest', List.map_cons,
      List.map_cons, List.cons.injEq, List.forall₂_cons]
    tauto

/-! ## Fields -/

theorem omitItems_inj {items' : List Json} :
    omitItems items = omitItems items' ↔ items = items' := by
  refine ⟨fun h => ?_, fun h => by rw [h]⟩
  rw [omitItems, omitItems] at h
  by_cases hitems : items = [] <;> by_cases hitems' : items' = [] <;> simp_all

theorem sanitized_omitString (s : ByteString) :
    (omitString s).map Json.sanitized = omitString (Utf8.sanitize s) := by
  rw [omitString, omitString]
  by_cases hs : s = []
  · simp [hs]
  · simp [hs, sanitize_eq_nil, Json.sanitized]

theorem sanitized_omitItems (items : List Json) :
    (omitItems items).map Json.sanitized = omitItems (items.map Json.sanitized) := by
  rw [omitItems, omitItems]
  by_cases hitems : items = []
  · simp [hitems]
  · simp [hitems, Json.sanitized, Json.sanitizedItems_eq_map]

theorem sanitized_map_reencoded (items : List Json) :
    ((items.map Json.sanitized).map reencoded).map Json.sanitized =
      (items.map Json.sanitized).map reencoded := by
  rw [List.map_map, List.map_map, List.map_map]
  refine List.map_congr_left fun json _ => ?_
  exact sanitized_reencoded (Json.sanitized_sanitized json)

/-! ## Statements -/

theorem SQLStatementOutputRef.sanitized_received (ref : SQLStatementOutputRef) :
    (Json.record ref.received.entries).sanitized = (Json.record ref.entries).sanitized := by
  rw [Json.sanitized_record_inj ref.received.named ref.named rfl]
  simp only [Json.sanitizedEntries, entries, received, List.map_cons, sanitized_omitString,
    Utf8.sanitize_sanitize]

/-- The second statement binds the values that the first binds. -/
def SameValues (statement statement' : SQLStatement lib.Float) : Prop :=
  List.Forall₂ (SameValue lib) statement.args statement'.args

theorem SQLStatement.marshal_received {statement : SQLStatement lib.Float}
    (hbound : statement.Bound lib) (hjson : statement.marshal lib = some json) :
    ∃ json', (statement.received lib).marshal lib = some json' ∧
      ((∀ arg ∈ statement.args, arg.Portable lib) ↔
        json'.sanitized = json.sanitized ∧
          SameValues lib statement (statement.received lib)) := by
  obtain ⟨items, hitems, rfl⟩ := Option.map_eq_some_iff.mp hjson
  have hread := decodeSQLArgs_encodeSQLArgs lib hbound hitems
  have hagain := encodeSQLArgs_decodeSQLArgs lib hread
  have hspell : (statement.received lib).marshal lib = some (Json.record
      ((statement.received lib).entries lib ((items.map Json.sanitized).map reencoded))) := by
    rw [SQLStatement.marshal]
    exact congrArg (Option.map _) hagain
  refine ⟨_, hspell, ?_⟩
  have hrefs : ((statement.outputRefs.map SQLStatementOutputRef.received).map
      fun ref => Json.record ref.entries).map Json.sanitized =
        (statement.outputRefs.map fun ref => Json.record ref.entries).map Json.sanitized := by
    rw [List.map_map, List.map_map, List.map_map]
    exact List.map_congr_left fun ref _ => ref.sanitized_received
  rw [portable_args_iff lib hitems hread,
    Json.sanitized_record_inj ((statement.received lib).named lib _) (statement.named lib _) ?_]
  · simp only [Json.sanitizedEntries, SQLStatement.entries, SQLStatement.received, SameValues,
      List.map_cons, List.map_nil, List.cons.injEq, Prod.mk.injEq, Option.map_some, Json.sanitized,
      Utf8.sanitize_sanitize, sanitized_omitItems, omitItems_inj, sanitized_map_reencoded, hrefs,
      true_and, and_true]
  · rfl

theorem marshal_received_statements {statements : List (SQLStatement lib.Float)}
    {jsons : List Json} (hbound : ∀ statement ∈ statements, statement.Bound lib)
    (hjsons : statements.mapM (SQLStatement.marshal lib) = some jsons) :
    ∃ jsons', (statements.map (SQLStatement.received lib)).mapM (SQLStatement.marshal lib) =
        some jsons' ∧
      ((∀ statement ∈ statements, ∀ arg ∈ statement.args, arg.Portable lib) ↔
        jsons'.map Json.sanitized = jsons.map Json.sanitized ∧
        List.Forall₂ (SameValues lib) statements (statements.map (SQLStatement.received lib))) := by
  induction statements generalizing jsons with
  | nil =>
    obtain rfl : [] = jsons := by simpa using hjsons
    exact ⟨[], rfl, by simp⟩
  | cons statement statements ih =>
    simp only [List.mapM_cons, Option.bind_eq_bind, Option.bind_eq_some_iff, Option.pure_def,
      Option.some.injEq] at hjsons
    obtain ⟨json, hjson, rest, hrest, rfl⟩ := hjsons
    rw [List.forall_mem_cons] at hbound
    obtain ⟨json', hjson', hiff⟩ := SQLStatement.marshal_received lib hbound.1 hjson
    obtain ⟨rest', hrest', hiffRest⟩ := ih hbound.2 hrest
    refine ⟨json' :: rest', ?_, ?_⟩
    · rw [List.map_cons, List.mapM_cons, hjson', hrest']
      rfl
    · rw [List.forall_mem_cons, hiff, hiffRest, List.map_cons, List.map_cons, List.map_cons,
        List.forall₂_cons, List.cons.injEq]
      tauto

/-! ## Commands -/

/-- The command arrives as it was submitted, but for texts that no value and no fingerprint
depends on. -/
structure SQLCommand.Portable (command : SQLCommand lib.Float) : Prop where
  requestID : Utf8.Valid command.requestID
  args : ∀ arg ∈ command.args, arg.Portable lib
  statements : ∀ statement ∈ command.statements, ∀ arg ∈ statement.args, arg.Portable lib

/-- The fingerprint of a command, without its request id. -/
def sqlFingerprint (codec : Codec) (command : SQLCommand lib.Float) :
    Option ValueHash :=
  (sqlFingerprintItem lib command).map fun item =>
    codec.sha256 (coreBytes (bytesOf "rhiza/sql" ++ 0 :: item))

/-- What a caller may rely on of the command that is applied for theirs. -/
structure SQLCommand.Faithful (codec : Codec) (command command' : SQLCommand lib.Float) :
    Prop where
  fingerprint : sqlFingerprint lib codec command' = sqlFingerprint lib codec command
  requestID : command'.requestID = command.requestID
  args : List.Forall₂ (SameValue lib) command.args command'.args
  statements : List.Forall₂ (SameValues lib) command.statements command'.statements

theorem coreBytes_injective : Function.Injective coreBytes := by
  refine List.map_injective_iff.mpr fun a b h => ?_
  exact UInt8.toFin_inj.mp h

theorem sqlFingerprint_eq_iff (hsha : Function.Injective codec.sha256) :
    sqlFingerprint lib codec command' = sqlFingerprint lib codec command ↔
      sqlFingerprintItem lib command' = sqlFingerprintItem lib command := by
  refine (Option.map_injective ?_).eq_iff
  intro item item' h
  have hbytes := coreBytes_injective (hsha h)
  exact (List.cons.inj (List.append_cancel_left hbytes)).2

/-- The arguments are portable exactly when the item fingerprinted for a decoded command is
the submitted one's and the arguments bind the same values. -/
theorem sqlFingerprintItem_receivedWith
    (hmove : command.migration = none)
    (hbound : ∀ statement ∈ command.statements, statement.Bound lib)
    (hitems : encodeSQLArgs lib command.args = some items)
    (hread : decodeSQLArgs lib (items.map Json.sanitized) = .ok args')
    (hspell : ∃ json, command.marshal lib = some json) :
    ((∀ arg ∈ command.args, arg.Portable lib) ∧
        ∀ statement ∈ command.statements, ∀ arg ∈ statement.args, arg.Portable lib) ↔
      sqlFingerprintItem lib (command.receivedWith lib args') = sqlFingerprintItem lib command ∧
        List.Forall₂ (SameValue lib) command.args args' ∧
        List.Forall₂ (SameValues lib) command.statements
          (command.statements.map (SQLStatement.received lib)) := by
  obtain ⟨json, hjson⟩ := hspell
  simp only [SQLCommand.marshal, Option.bind_eq_bind, Option.bind_eq_some_iff,
    Option.some.injEq] at hjson
  obtain ⟨items', hitems', jsons, hjsons, -⟩ := hjson
  cases hitems.symm.trans hitems'
  obtain ⟨jsons', hjsons', hparts⟩ := marshal_received_statements lib hbound hjsons
  have hagain := encodeSQLArgs_decodeSQLArgs lib hread
  have hbefore : sqlFingerprintItem lib command = some (Json.record
      (({ command with requestID := [] } : SQLCommand lib.Float).entries lib items
        jsons)).encode := by
    simp only [sqlFingerprintItem, encodeSQLBatchItem, SQLCommand.marshal, hitems, hjsons]
    rfl
  have hafter : sqlFingerprintItem lib (command.receivedWith lib args') = some (Json.record
      (({ command.receivedWith lib args' with requestID := [] } : SQLCommand lib.Float).entries
        lib ((items.map Json.sanitized).map reencoded) jsons')).encode := by
    simp only [sqlFingerprintItem, encodeSQLBatchItem, SQLCommand.marshal,
      SQLCommand.receivedWith, hagain, hjsons']
    rfl
  rw [hbefore, hafter, Option.some.injEq, Json.encode_eq_iff,
    Json.sanitized_record_inj (SQLCommand.named lib _ _ _) (SQLCommand.named lib _ _ _) ?_,
    portable_args_iff lib hitems hread, hparts]
  · simp only [Json.sanitizedEntries, SQLCommand.entries, SQLCommand.receivedWith, List.map_cons,
      List.map_nil, List.cons.injEq, Prod.mk.injEq, sanitized_omitString, Utf8.sanitize_sanitize,
      sanitized_omitItems, omitItems_inj, sanitized_map_reencoded, hmove, Option.map_none, true_and,
      and_true]
    tauto
  · rfl

/-- A decoded command is faithful to the accepted one exactly when that one is portable. -/
theorem SQLCommand.faithful_iff (hsha : Function.Injective codec.sha256)
    {oneStatement : Bool} {request : ExecuteRequest lib.Float}
    (h : execute lib oneStatement request = .ok json.encode)
    (hspell : request.command.marshal lib = some json)
    (hread : SQLCommand.ofJson lib json.sanitized = .ok command') :
    SQLCommand.Faithful lib codec request.command command' ↔ request.command.Portable lib := by
  obtain ⟨items, hitems, hdecode⟩ := SQLCommand.ofJson_marshal lib (bound_of_execute lib h) hspell
  rw [hread] at hdecode
  cases hargs : decodeSQLArgs lib (items.map Json.sanitized) with
  | error =>
    rw [hargs] at hdecode
    exact absurd hdecode nofun
  | ok =>
    rw [hargs] at hdecode
    cases hdecode
    have hitem := sqlFingerprintItem_receivedWith lib rfl (bound_of_execute lib h) hitems hargs
      ⟨json, hspell⟩
    constructor
    · rintro ⟨hprint, hrequestID, hdata, hparts⟩
      obtain ⟨hportable, hlisted⟩ :=
        hitem.mpr ⟨(sqlFingerprint_eq_iff lib hsha).mp hprint, hdata, hparts⟩
      exact ⟨Utf8.valid_iff_sanitize_eq.mpr hrequestID, hportable, hlisted⟩
    · rintro ⟨hrequestID, hportable, hlisted⟩
      obtain ⟨hsame, hdata, hparts⟩ := hitem.mp ⟨hportable, hlisted⟩
      exact ⟨(sqlFingerprint_eq_iff lib hsha).mpr hsame, hrequestID.sanitize_eq, hdata, hparts⟩

/-- A proposed batch of accepted requests is decoded, each request has its command at its own
place, and that command is faithful to it exactly when the request is portable. -/
theorem decodeSQLBatch_faithful_iff {codec : Codec}
    (hsha : Function.Injective codec.sha256) (controls : Controls)
    {first : BatchItem (ExecuteRequest lib.Float)}
    {arrivals : List (BatchItem (ExecuteRequest lib.Float))} {value : ByteString}
    (haccepted : (Proposal.sql first arrivals).Accepted)
    (hvalue : (Proposal.sql first arrivals).value controls = some value) (i : ℕ)
    (item : BatchItem (ExecuteRequest lib.Float))
    (hitem : (active sqlBatchMagic first arrivals)[i]? = some item) :
    ∃ commands command', decodeSQLBatch lib value = .ok (some commands) ∧
      commands[i]? = some command' ∧
      (SQLCommand.Faithful lib codec item.command.command command' ↔
        item.command.command.Portable lib) := by
  obtain ⟨commands, command', json, oneStatement, hdecode, hcommand', hexecute, hspell, hread⟩ :=
    Proposal.exists_decoded haccepted hvalue hitem
  exact ⟨commands, command', hdecode, hcommand',
    SQLCommand.faithful_iff lib hsha hexecute hspell hread⟩

/-- A request to insert one value. -/
def insertRequest (arg : Arg Library.whole.Float) : ExecuteRequest Library.whole.Float :=
  { requestID := bytesOf "r1", sql := bytesOf "INSERT INTO t VALUES (?)"
    args := [arg], wantRows := false, requireOne := false, statements := [] }

/-- The batch of one such request. -/
def insertion (arg : Arg Library.whole.Float) : Proposal .whole :=
  .sql ⟨insertRequest arg, (encodeSQLBatchItem .whole (insertRequest arg).command).getD [],
    false⟩ []

theorem insertion_accepted {arg : Arg Library.whole.Float}
    (h : (execute .whole false (insertRequest arg)).toOption =
      some ((encodeSQLBatchItem .whole (insertRequest arg).command).getD [])) :
    (insertion arg).Accepted := by
  intro item hitem
  rw [List.mem_singleton.mp hitem]
  exact ⟨false, toOption_eq_some.mp h⟩

/-- A double with a fraction arrives unchanged. -/
theorem decodeSQLBatch_faithful_half :
    ∃ value commands command', (insertion (.float none)).value Proposal.plainControls = some value ∧
      decodeSQLBatch .whole value = .ok (some commands) ∧ commands[0]? = some command' ∧
      SQLCommand.Faithful .whole (.tabled []) (insertRequest (.float none)).command command' := by
  have haccepted : (insertion (.float none)).Accepted := insertion_accepted (by decide +kernel)
  obtain ⟨value, hvalue⟩ : ∃ value,
      (insertion (.float none)).value Proposal.plainControls = some value :=
    Option.isSome_iff_exists.mp (by decide +kernel)
  have hsha : Function.Injective (QuePaxa.Codec.tabled []).sha256 := QuePaxa.digest_injective
  obtain ⟨commands, command', hdecode, hcommand', hiff⟩ :=
    decodeSQLBatch_faithful_iff .whole hsha Proposal.plainControls haccepted hvalue 0 _ rfl
  refine ⟨value, commands, command', hvalue, hdecode, hcommand', hiff.mpr ⟨?_, ?_, nofun⟩⟩
  · exact Utf8.valid_of_all (by decide)
  · intro arg harg
    obtain rfl := List.mem_singleton.mp harg
    refine ⟨nofun, nofun, fun x hx => ?_⟩
    cases hx
    rfl

/-- A whole double arrives as an integer, a text that is not well formed as another text, and
a blob spelled with other padding bits with another fingerprint. -/
theorem decodeSQLBatch_unfaithful :
    [.float (some 1), .string [255], .map [(blobKey, .string (bytesOf "QR=="))]].Forall
      fun arg : Arg Library.whole.Float => (insertion arg).Accepted ∧
        ∃ value commands command', (insertion arg).value Proposal.plainControls = some value ∧
        decodeSQLBatch .whole value = .ok (some commands) ∧ commands[0]? = some command' ∧
        ¬ SQLCommand.Faithful .whole (.tabled []) (insertRequest arg).command command' := by
  have hargs : [.float (some 1), .string [255], .map [(blobKey, .string (bytesOf "QR=="))]].Forall
      fun arg : Arg Library.whole.Float => (execute .whole false (insertRequest arg)).toOption =
          some ((encodeSQLBatchItem .whole (insertRequest arg).command).getD []) ∧
        ((insertion arg).value Proposal.plainControls).isSome = true ∧ ¬ arg.Portable .whole := by
    refine ⟨⟨by decide +kernel, by decide +kernel, fun h => ?_⟩,
      ⟨by decide +kernel, by decide +kernel, fun h => ?_⟩,
      ⟨by decide +kernel, by decide +kernel, fun h => ?_⟩⟩
    · exact absurd (h.fraction _ rfl) (by decide +kernel)
    · exact absurd (Utf8.valid_iff_sanitize_eq.mp (h.wellFormed _ rfl)) (by decide +kernel)
    · obtain ⟨b, hb⟩ := h.canonical _ rfl
      have hdecoded : some b = some [65] := by
        rw [← Base64.decode_encode b, hb]
        decide +kernel
      cases hdecoded
      exact absurd hb (by decide +kernel)
  refine hargs.imp fun arg ⟨hexecute, hsome, hportable⟩ => ?_
  have haccepted := insertion_accepted hexecute
  obtain ⟨value, hvalue⟩ := Option.isSome_iff_exists.mp hsome
  obtain ⟨commands, command', json, oneStatement, hdecode, hcommand', hexecute, hspell, hread⟩ :=
    Proposal.exists_decoded (i := 0) haccepted hvalue rfl
  refine ⟨haccepted, value, commands, command', hvalue, hdecode, hcommand', fun hfaithful => ?_⟩
  have hcommand := (SQLCommand.faithful_iff .whole QuePaxa.digest_injective hexecute hspell
    hread).mp hfaithful
  exact hportable (hcommand.args arg List.mem_cons_self)

end Rhiza.Commands
