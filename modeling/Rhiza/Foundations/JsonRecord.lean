import Rhiza.Foundations.JsonRoundTrip

/-! # Records in JSON

A record is written as an object whose absent fields are left out, and read back by field
name. The names of a record are distinct and well formed, so every field survives the trip.
A value and what is read back of it have one text, and equal texts are those of values that
are read back alike.
-/

namespace Rhiza.Foundations

/-- The bytes of an ASCII text. -/
def bytesOf (text : String) : ByteString := text.toList.map fun c => UInt8.ofNat c.toNat

namespace Json

/-- The last field of that name. -/
def field? (key : ByteString) : Json → Option Json
  | .object fields => (fields.reverse.find? fun field => field.1 = key).map Prod.snd
  | _ => none

abbrev Entries := List (ByteString × Option Json)

def present (entries : Entries) : List (ByteString × Json) :=
  entries.filterMap fun entry => entry.2.map fun value => (entry.1, value)

/-- The object of the fields that are present. -/
def record (entries : Entries) : Json := .object (present entries)

/-- Distinct, well-formed field names. -/
structure Entries.Named (entries : Entries) : Prop where
  distinct : (entries.map Prod.fst).Nodup
  valid : ∀ key ∈ entries.map Prod.fst, Utf8.Valid key

variable {entries : Entries}

theorem Entries.named_of_keys {keys : List ByteString}
    (hkeys : entries.map Prod.fst = keys) (hdist : keys.Nodup)
    (hascii : keys.all (List.all · (· < 128))) : entries.Named where
  distinct := hkeys ▸ hdist
  valid := fun key hkey => Utf8.valid_of_all (List.all_eq_true.mp hascii key (hkeys ▸ hkey))

variable {key : ByteString} {value item : Json} {items : List Json}

theorem mem_present : (key, value) ∈ present entries ↔ (key, some value) ∈ entries := by
  simp only [present, List.mem_filterMap, Option.map_eq_some_iff]
  constructor
  · rintro ⟨⟨key', value?⟩, hmem, value', rfl, heq⟩
    obtain ⟨rfl, rfl⟩ := Prod.mk.inj heq
    exact hmem
  · intro hmem
    exact ⟨_, hmem, value, rfl, rfl⟩

theorem eq_of_mem_entries (h : (entries.map Prod.fst).Nodup)
    {value value' : Option Json} (hmem : (key, value) ∈ entries)
    (hmem' : (key, value') ∈ entries) : value = value' := by
  have hinj := List.inj_on_of_nodup_map h hmem hmem' rfl
  exact (Prod.mk.inj hinj).2

/-- A present field is found and an absent one is not. -/
theorem field?_sanitized_record (h : entries.Named)
    {value : Option Json} (i : ℕ) (hget : entries[i]? = some (key, value)) :
    (record entries).sanitized.field? key = value.map sanitized := by
  have hmem := List.mem_of_getElem? hget
  rw [record, sanitized, sanitizedFields_eq_map, field?]
  -- The name of any present field is its own well-formed form.
  have hname : ∀ field ∈ present entries, Utf8.sanitize field.1 = field.1 := by
    intro field hfield
    exact (h.valid field.1 (List.mem_map.mpr ⟨_, mem_present.mp hfield, rfl⟩)).sanitize_eq
  cases hfind : ((present entries).map fun field =>
      (Utf8.sanitize field.1, field.2.sanitized)).reverse.find? fun field => field.1 = key with
  | none =>
    cases value with
    | none => rfl
    | some =>
      have hpresent := mem_present.mpr hmem
      rw [List.find?_eq_none] at hfind
      have hmapped := List.mem_map_of_mem
        (f := fun field : ByteString × Json => (Utf8.sanitize field.1, field.2.sanitized)) hpresent
      refine absurd ?_ (hfind _ (List.mem_reverse.mpr hmapped))
      simpa using hname _ hpresent
  | some =>
    have hkey := List.find?_some hfind
    obtain ⟨field, hfield, rfl⟩ :=
      List.mem_map.mp (List.mem_reverse.mp (List.mem_of_find?_eq_some hfind))
    simp only [hname field hfield, decide_eq_true_eq] at hkey
    obtain ⟨fieldKey, fieldValue⟩ := field
    obtain rfl : fieldKey = key := hkey
    rw [eq_of_mem_entries h.distinct hmem (mem_present.mp hfield)]
    rfl

/-- Elements that are each read back are read back as a list. -/
theorem mapM_read_sanitized {α ε : Type} {write : α → Option Json} {read : Json → Except ε α}
    {received : α → α} {elements : List α}
    (hread : ∀ element ∈ elements, ∀ json, write element = some json →
      read json.sanitized = .ok (received element))
    (hitems : elements.mapM write = some items) :
    (items.map sanitized).mapM read = .ok (elements.map received) := by
  induction elements generalizing items with
  | nil =>
    obtain rfl : [] = items := by simpa using hitems
    rfl
  | cons element elements ih =>
    simp only [List.mapM_cons, Option.bind_eq_bind, Option.bind_eq_some_iff, Option.pure_def,
      Option.some.injEq] at hitems
    obtain ⟨json, hjson, rest, hrest, rfl⟩ := hitems
    have htail := ih (fun e he => hread e (List.mem_cons_of_mem element he)) hrest
    simp only [List.map_cons, List.mapM_cons]
    rw [hread element List.mem_cons_self json hjson, htail]
    rfl

/-! ## Lengths -/

theorem length_encode_le_items (h : item ∈ items) :
    (encode item).length ≤ (encodeItems items).length := by
  induction items with
  | nil => exact absurd h List.not_mem_nil
  | cons head items ih =>
    cases items with
    | nil => rw [List.mem_singleton.mp h, encodeItems]
    | cons =>
      rw [encodeItems, List.length_append, List.length_cons]
      rcases List.mem_cons.mp h with rfl | h
      · exact Nat.le_add_right _ _
      · have hrest := ih h
        omega

theorem length_encode_le_fields {fields : List (ByteString × Json)} {field : ByteString × Json}
    (h : field ∈ fields) : (encode field.2).length ≤ (encodeFields fields).length := by
  induction fields with
  | nil => exact absurd h List.not_mem_nil
  | cons head fields ih =>
    cases fields with
    | nil =>
      rw [List.mem_singleton.mp h, encodeFields, List.length_append, List.length_cons]
      omega
    | cons =>
      simp only [encodeFields, List.length_append, List.length_cons]
      rcases List.mem_cons.mp h with rfl | h
      · omega
      · have hrest := ih h
        omega

theorem length_encode_le_array (h : item ∈ items) :
    (encode item).length ≤ (encode (.array items)).length := by
  have hitems := length_encode_le_items h
  simp only [encode, List.length_append, List.length_cons]
  omega

theorem length_encode_le_record (h : (key, some value) ∈ entries) :
    (encode value).length ≤ (encode (record entries)).length := by
  have htags : (encode value).length ≤ (encodeFields (present entries)).length :=
    length_encode_le_fields (mem_present.mpr h)
  simp only [record, encode, List.length_append, List.length_cons]
  omega

/-- No character is written shorter than it is read back. -/
theorem length_le_encodeChar (c : Char) :
    (String.utf8EncodeChar c).length ≤ (encodeChar c).length := by
  rw [encodeChar]
  cases hshort : shortEscape? c.toNat with
  | some =>
    have hascii : c.val.toNat ≤ 127 := by
      simp only [shortEscape?, Char.toNat] at hshort
      grind
    simp only [String.utf8EncodeChar, hascii, if_true, List.length_cons, List.length_nil]
    omega
  | none =>
    by_cases hcoded : coded c.toNat = true
    · have hsize := c.utf8Size_le_four
      simp only [hcoded, if_true, String.length_utf8EncodeChar]
      exact Nat.le_trans hsize (by simp [escapeCode])
    · simp [hcoded]

theorem length_sanitize_le_encode (s : ByteString) :
    (Utf8.sanitize s).length ≤ (encode (.string s)).length := by
  have hunits : ∀ us : List (Option Char),
      (us.flatMap fun u => String.utf8EncodeChar (u.getD Utf8.replacement)).length ≤
        (us.flatMap encodeUnit).length := by
    intro us
    induction us with
    | nil => exact Nat.le_refl _
    | cons u us ih =>
      rw [List.flatMap_cons, List.flatMap_cons, List.length_append, List.length_append]
      exact Nat.add_le_add (length_le_encodeChar _) ih
  have hs := hunits (Utf8.units s)
  simp only [encode, encodeString, List.length_append, List.length_cons]
  rw [Utf8.sanitize]
  omega

/-! ## Texts that determine their value -/

mutual

theorem sanitized_sanitized (v : Json) : v.sanitized.sanitized = v.sanitized := by
  match v with
  | .null | .bool _ | .number _ => rfl
  | .string s => simp only [sanitized, Utf8.sanitize_sanitize]
  | .array items => simp only [sanitized, sanitizedItems_sanitizedItems items]
  | .object fields => simp only [sanitized, sanitizedFields_sanitizedFields fields]

theorem sanitizedItems_sanitizedItems (items : List Json) :
    sanitizedItems (sanitizedItems items) = sanitizedItems items := by
  match items with
  | [] => rfl
  | item :: items =>
    simp only [sanitizedItems, sanitized_sanitized item, sanitizedItems_sanitizedItems items]

theorem sanitizedFields_sanitizedFields (fields : List (ByteString × Json)) :
    sanitizedFields (sanitizedFields fields) = sanitizedFields fields := by
  match fields with
  | [] => rfl
  | (key, value) :: fields =>
    simp only [sanitizedFields, Utf8.sanitize_sanitize, sanitized_sanitized value,
      sanitizedFields_sanitizedFields fields]

end

theorem encodeString_sanitize (s : ByteString) :
    encodeString (Utf8.sanitize s) = encodeString s := by
  rw [encodeString, encodeString, Utf8.sanitize_eq_flatMap, Utf8.units_flatMap_encode,
    List.map_map, List.flatMap_map]
  rfl

mutual

theorem encode_sanitized (v : Json) : encode v.sanitized = encode v := by
  match v with
  | .null | .bool _ | .number _ => rfl
  | .string s => exact encodeString_sanitize s
  | .array items => rw [sanitized, encode, encode, encodeItems_sanitizedItems items]
  | .object fields => rw [sanitized, encode, encode, encodeFields_sanitizedFields fields]

theorem encodeItems_sanitizedItems (items : List Json) :
    encodeItems (sanitizedItems items) = encodeItems items := by
  match items with
  | [] => rfl
  | [item] => simp only [sanitizedItems, encodeItems, encode_sanitized item]
  | item :: next :: items =>
    have hrest := encodeItems_sanitizedItems (next :: items)
    simp only [sanitizedItems, encodeItems, encode_sanitized item] at hrest ⊢
    rw [hrest]

theorem encodeFields_sanitizedFields (fields : List (ByteString × Json)) :
    encodeFields (sanitizedFields fields) = encodeFields fields := by
  match fields with
  | [] => rfl
  | [(key, value)] =>
    simp only [sanitizedFields, encodeFields, encodeString_sanitize, encode_sanitized value]
  | (key, value) :: next :: fields =>
    have hrest := encodeFields_sanitizedFields (next :: fields)
    simp only [sanitizedFields, encodeFields, encodeString_sanitize,
      encode_sanitized value] at hrest ⊢
    rw [hrest]

end

/-- Two values have one text exactly when they are read back alike. -/
theorem encode_eq_iff {v w : Json} : encode v = encode w ↔ v.sanitized = w.sanitized := by
  constructor
  · intro h
    have hread := parse_encode v
    rw [h, parse_encode w] at hread
    exact (Option.some.inj hread).symm
  · intro h
    rw [← encode_sanitized v, h, encode_sanitized w]

/-! ## Records -/

/-- Records with the same distinct names are equal field by field. -/
theorem present_inj {entries entries' : Entries}
    (hkeys : entries.map Prod.fst = entries'.map Prod.fst) (hdist : (entries.map Prod.fst).Nodup) :
    present entries = present entries' ↔ entries = entries' := by
  refine ⟨fun h => ?_, fun h => by rw [h]⟩
  have hdist' := hkeys ▸ hdist
  refine List.ext_getElem (by simpa using congrArg List.length hkeys) fun i hi hi' => ?_
  have hkey : (entries.get ⟨i, hi⟩).1 = (entries'.get ⟨i, hi'⟩).1 := by
    simpa [List.getElem?_eq_getElem, hi, hi'] using congrArg (·[i]?) hkeys
  refine Prod.ext hkey (Option.ext fun value => ?_)
  have hmem := List.getElem_mem hi
  have hmem' := List.getElem_mem hi'
  constructor
  · intro hvalue
    have hfield := mem_present.mpr (show ((entries.get ⟨i, hi⟩).1, some value) ∈ entries by
      rw [← hvalue]; exact hmem)
    rw [h, hkey] at hfield
    exact eq_of_mem_entries hdist' hmem' (mem_present.mp hfield)
  · intro hvalue
    have hfield := mem_present.mpr (show ((entries'.get ⟨i, hi'⟩).1, some value) ∈ entries' by
      rw [← hvalue]; exact hmem')
    rw [← h, ← hkey] at hfield
    exact eq_of_mem_entries hdist hmem (mem_present.mp hfield)

/-- The fields as they are read back. -/
def sanitizedEntries (entries : Entries) : Entries :=
  entries.map fun entry => (entry.1, entry.2.map sanitized)

theorem sanitized_record {entries : Entries} (hnamed : entries.Named) :
    (record entries).sanitized = record (sanitizedEntries entries) := by
  rw [record, record, sanitized, sanitizedFields_eq_map, Json.object.injEq, present, present,
    sanitizedEntries, List.map_filterMap, List.filterMap_map]
  refine List.filterMap_congr fun entry hentry => ?_
  have hkey := (hnamed.valid entry.1 (List.mem_map_of_mem hentry)).sanitize_eq
  simp only [Function.comp_def, Option.map_map, hkey]

/-- Records with the same names are read back alike if their fields are. -/
theorem sanitized_record_inj {entries entries' : Entries}
    (hnamed : entries.Named) (hnamed' : entries'.Named)
    (hkeys : entries.map Prod.fst = entries'.map Prod.fst) :
    (record entries).sanitized = (record entries').sanitized ↔
      sanitizedEntries entries = sanitizedEntries entries' := by
  have hfst : ∀ entries : Entries, (sanitizedEntries entries).map Prod.fst =
      entries.map Prod.fst := fun entries => by rw [sanitizedEntries, List.map_map]; rfl
  rw [sanitized_record hnamed, sanitized_record hnamed',
    record, record, Json.object.injEq]
  exact present_inj (by rw [hfst, hfst, hkeys]) (by rw [hfst]; exact hnamed.distinct)

end Json

end Rhiza.Foundations
