import Rhiza.Recovery.Extent

/-! # Entries of the log

An entry is a header of fixed fields and a payload. The length field carries a format marker,
one checksum covers the header and one the record; the checksum function is a parameter. A
reader that finds the front of an entry asks for more bytes at every cut, and the bytes of an
entry are the only ones it takes for it.
-/

namespace Rhiza.QLog

open Foundations Recovery

structure Entry where
  slot : UInt64
  hash : Digest
  type : UInt8
  payload : ByteString
deriving DecidableEq

def entryHeaderSize : ℕ := 53
def entryRecordCRCOffset : ℕ := 45
def entryHeaderCRCOffset : ℕ := 49
def entryFormatMask : UInt32 := (3 : UInt32) <<< (30 : UInt32)
def entryLengthMarker : UInt32 := (2 : UInt32) <<< (30 : UInt32)
def entryLengthMask : UInt32 := (1 : UInt32) <<< (30 : UInt32) - 1

def entryPayloadLength (encoded : UInt32) : UInt32 × Bool :=
  (encoded &&& entryLengthMask, encoded &&& entryFormatMask == entryLengthMarker)

/-- Why a reader refuses the bytes; a mismatch has the checksum found and the one expected. -/
inductive EntryError where
  | unexpectedEOF
  /-- "unsupported WAL entry format; preserve old data and migrate logically" -/
  | unsupportedFormat
  /-- "WAL header CRC mismatch" -/
  | headerCRC (stored actual : UInt32)
  /-- "CRC mismatch" -/
  | recordCRC (stored actual : UInt32)
deriving DecidableEq

/-- The fields in front of the checksums. -/
def Entry.header (entry : Entry) : List ByteString :=
  [LittleEndian.uint64 entry.slot, entry.hash.1, [entry.type],
    LittleEndian.uint32 (UInt32.ofNat entry.payload.length ||| entryLengthMarker)]

section Codec

-- `crc32.Update`; a checksum is an update of zero.
variable (update : UInt32 → ByteString → UInt32)

def Entry.recordCRC (entry : Entry) : UInt32 :=
  update (update 0 entry.header.flatten) entry.payload

def Entry.headerCRC (entry : Entry) : UInt32 :=
  update 0 (entry.header.flatten ++ LittleEndian.uint32 (entry.recordCRC update))

def Entry.encode (entry : Entry) : ByteString :=
  entry.header.flatten ++ LittleEndian.uint32 (entry.recordCRC update) ++
    LittleEndian.uint32 (entry.headerCRC update) ++ entry.payload

/-- Slot, hash, type, length and the two checksums. -/
def entryLayout : List ℕ := [8, 32, 1, 4, 4, 4]

def decodeEntryHeader (data : ByteString) : Except EntryError (UInt32 × UInt32) :=
  match fields entryLayout data with
  | [_, _, _, length, record, header] => do
    let (payloadLen, current) := entryPayloadLength (LittleEndian.toUInt32 length)
    ensure (entryRecordCRCOffset ≤ data.length → current = true) .unsupportedFormat
    ensure (entryHeaderSize ≤ data.length) .unexpectedEOF
    let stored := LittleEndian.toUInt32 header
    let actual := update 0 (data.take entryHeaderCRCOffset)
    ensure (stored = actual) (.headerCRC stored actual)
    .ok (payloadLen, LittleEndian.toUInt32 record)
  | _ => .error .unexpectedEOF

def decodeEntry (data : ByteString) : Except EntryError (Entry × ℕ) := do
  let (payloadLen, storedCRC) ← decodeEntryHeader update data
  let totalLen := entryHeaderSize + payloadLen.toNat
  ensure (totalLen ≤ data.length) .unexpectedEOF
  let payload := (data.take totalLen).drop entryHeaderSize
  let actualCRC := update (update 0 (data.take entryRecordCRCOffset)) payload
  ensure (storedCRC = actualCRC) (.recordCRC storedCRC actualCRC)
  match fields entryLayout data with
  | slot :: hash :: type :: _ =>
    .ok ({ slot := LittleEndian.toUInt64 slot, hash := .copy hash, type := type.headD 0
           payload }, totalLen)
  | _ => .error .unexpectedEOF

end Codec

theorem toNat_and_entryLengthMask (n : UInt32) :
    (n &&& entryLengthMask).toNat = n.toNat % 2 ^ 30 := by
  rw [UInt32.toNat_and, show entryLengthMask.toNat = 2 ^ 30 - 1 by decide,
    Nat.and_two_pow_sub_one_eq_mod]

theorem entryPayloadLength_marked {n : UInt32} (h : n.toNat < 2 ^ 30) :
    entryPayloadLength (n ||| entryLengthMarker) = (n, true) := by
  have hmask : n &&& entryLengthMask = n := by
    apply UInt32.toNat_inj.mp
    rw [toNat_and_entryLengthMask, Nat.mod_eq_of_lt h]
  have hformat : n &&& entryFormatMask = 0 := by
    rw [← hmask, UInt32.and_assoc, show entryLengthMask &&& entryFormatMask = 0 by decide,
      UInt32.and_zero]
  have hsplit : ∀ mask, (n ||| entryLengthMarker) &&& mask =
      (n &&& mask) ||| (entryLengthMarker &&& mask) := by
    intro mask
    apply UInt32.toNat_inj.mp
    simp only [UInt32.toNat_and, UInt32.toNat_or, Nat.and_or_distrib_right]
  rw [entryPayloadLength, hsplit, hsplit, hmask, hformat,
    show entryLengthMarker &&& entryLengthMask = 0 by decide, UInt32.or_zero,
    show (0 ||| entryLengthMarker &&& entryFormatMask == entryLengthMarker) = true by decide]

theorem marked_entryPayloadLength {encoded : UInt32} (h : (entryPayloadLength encoded).2 = true) :
    (entryPayloadLength encoded).1 ||| entryLengthMarker = encoded := by
  have hformat : encoded &&& entryFormatMask = entryLengthMarker := by
    simpa only [entryPayloadLength, beq_iff_eq] using h
  -- The two masks cover the word.
  apply UInt32.toNat_inj.mp
  rw [← hformat, entryPayloadLength, UInt32.toNat_or, UInt32.toNat_and, UInt32.toNat_and,
    ← Nat.and_or_distrib_left,
    show entryLengthMask.toNat ||| entryFormatMask.toNat = 2 ^ 32 - 1 by decide,
    Nat.and_two_pow_sub_one_eq_mod, Nat.mod_eq_of_lt encoded.toNat_lt]

variable {update : UInt32 → ByteString → UInt32} {entry : Entry} {data : ByteString}

theorem header_layout (entry : Entry) : entry.header.map List.length = [8, 32, 1, 4] := by
  simp [Entry.header]

@[simp] theorem length_header (entry : Entry) : entry.header.flatten.length = 45 := by
  rw [List.length_flatten, header_layout]
  rfl

@[simp] theorem length_encode (entry : Entry) :
    (entry.encode update).length = entryHeaderSize + entry.payload.length := by
  simp only [Entry.encode, List.length_append, length_header, LittleEndian.length_uint32,
    entryHeaderSize]

theorem fields_encode (entry : Entry) (rest : ByteString) :
    fields entryLayout (entry.encode update ++ rest) = entry.header ++
      [LittleEndian.uint32 (entry.recordCRC update),
        LittleEndian.uint32 (entry.headerCRC update)] := by
  set parts := entry.header ++ [LittleEndian.uint32 (entry.recordCRC update),
    LittleEndian.uint32 (entry.headerCRC update)] with hparts
  have hlayout : parts.map List.length = entryLayout := by
    rw [hparts, List.map_append, header_layout]
    simp [entryLayout]
  have hsplit : entry.encode update ++ rest = parts.flatten ++ (entry.payload ++ rest) := by
    simp [hparts, Entry.encode]
  rw [hsplit, ← hlayout, fields_flatten_append]

theorem decodeEntryHeader_take (hlen : entry.payload.length < 2 ^ 30) (rest : ByteString)
    (cut : ℕ) :
    decodeEntryHeader update ((entry.encode update ++ rest).take cut) =
      if entryHeaderSize ≤ cut then
        .ok (UInt32.ofNat entry.payload.length, entry.recordCRC update)
      else .error .unexpectedEOF := by
  have hnat : (UInt32.ofNat entry.payload.length).toNat = entry.payload.length :=
    UInt32.toNat_ofNat_of_lt' (by rw [UInt32.size]; omega)
  have hmarked := entryPayloadLength_marked (hnat.symm ▸ hlen)
  have hdata : ((entry.encode update ++ rest).take cut).length =
      min cut (entryHeaderSize + entry.payload.length + rest.length) := by
    simp
  split
  case isTrue hcut =>
    have hcrc : update 0 (((entry.encode update ++ rest).take cut).take entryHeaderCRCOffset) =
        entry.headerCRC update := by
      rw [List.take_take, Nat.min_eq_left (Nat.le_trans (by decide) hcut), Entry.encode,
        List.append_assoc, List.append_assoc, Entry.headerCRC]
      apply congrArg (update 0)
      apply List.take_left'
      rw [List.length_append, length_header, LittleEndian.length_uint32, entryHeaderCRCOffset]
    rw [decodeEntryHeader, fields_take _ hcut, fields_encode, hcrc, hdata]
    simp only [Entry.header, List.cons_append, List.nil_append, LittleEndian.toUInt32_uint32,
      hmarked, ensure_bind_eq_ok, implies_true, true_and, and_true]
    omega
  case isFalse hcut =>
    have hshort : ¬ entryHeaderSize ≤ ((entry.encode update ++ rest).take cut).length := by omega
    obtain ⟨slot, hash, type, length, record, header, htags⟩ :
        ∃ slot hash type length record header, fields entryLayout
          ((entry.encode update ++ rest).take cut) = [slot, hash, type, length, record, header] :=
      ⟨_, _, _, _, _, _, rfl⟩
    have hcurrent : entryRecordCRCOffset ≤ ((entry.encode update ++ rest).take cut).length →
        (entryPayloadLength (LittleEndian.toUInt32 length)).2 = true := by
      intro hlong
      -- The first four fields lie before the cut.
      have hfront : fields [8, 32, 1, 4] ((entry.encode update ++ rest).take cut) =
          entry.header := by
        rw [fields_take _ (show 45 ≤ cut by rw [entryRecordCRCOffset] at hlong; omega)]
        exact congrArg (List.take 4) (fields_encode entry rest)
      have hsame := (congrArg (List.take 4) htags).symm.trans hfront
      simp only [List.take_succ_cons, Entry.header, List.cons.injEq] at hsame
      rw [hsame.2.2.2.1, LittleEndian.toUInt32_uint32, hmarked]
    rw [decodeEntryHeader, htags]
    simp only [ensure, if_pos hcurrent, if_neg hshort]
    rfl

/-- What a reader makes of any cut of bytes that an entry starts. -/
theorem decodeEntry_take (hlen : entry.payload.length < 2 ^ 30) (rest : ByteString) (cut : ℕ) :
    decodeEntry update ((entry.encode update ++ rest).take cut) =
      if (entry.encode update).length ≤ cut then .ok (entry, (entry.encode update).length)
      else .error .unexpectedEOF := by
  have hnat : (UInt32.ofNat entry.payload.length).toNat = entry.payload.length :=
    UInt32.toNat_ofNat_of_lt' (by rw [UInt32.size]; omega)
  have hdata : ((entry.encode update ++ rest).take cut).length =
      min cut (entryHeaderSize + entry.payload.length + rest.length) := by
    simp
  rw [decodeEntry, decodeEntryHeader_take hlen, length_encode]
  by_cases hheader : entryHeaderSize ≤ cut
  case neg =>
    rw [if_neg hheader, if_neg (by omega)]
    rfl
  rw [if_pos hheader, ok_bind]
  dsimp only
  rw [hnat]
  by_cases htotal : entryHeaderSize + entry.payload.length ≤ cut
  case neg =>
    rw [if_neg htotal, ensure, if_neg (by omega)]
    rfl
  have hcrc : ((entry.encode update ++ rest).take cut).take entryRecordCRCOffset =
      entry.header.flatten := by
    rw [List.take_take, Nat.min_eq_left (Nat.le_trans (by decide) hheader), Entry.encode]
    simp only [List.append_assoc]
    exact List.take_left' (length_header entry)
  have hpay : (((entry.encode update ++ rest).take cut).take
      (entryHeaderSize + entry.payload.length)).drop entryHeaderSize = entry.payload := by
    rw [List.take_take, Nat.min_eq_left htotal, List.take_left' (length_encode entry),
      Entry.encode]
    apply List.drop_left'
    simp only [List.length_append, length_header, LittleEndian.length_uint32, entryHeaderSize]
  rw [if_pos htotal, hcrc, hpay, fields_take _ hheader, fields_encode, hdata]
  simp only [Entry.header, List.cons_append, List.nil_append, LittleEndian.toUInt64_uint64,
    Digest.copy_val, List.headD_cons, ensure_bind_eq_ok]
  exact ⟨by omega, ensure_bind_eq_ok.mpr ⟨rfl, rfl⟩⟩

/-- The bytes of an entry are the only ones a reader takes for it, and it takes some. -/
theorem decodeEntry_eq_ok {n : ℕ} (h : decodeEntry update data = .ok (entry, n)) :
    (0 < n ∧ entry.payload.length < 2 ^ 30) ∧ n ≤ data.length ∧
      entry.encode update = data.take n := by
  obtain ⟨slot, hash, type, length, record, header, htags⟩ : ∃ slot hash type length record header,
      fields entryLayout data = [slot, hash, type, length, record, header] :=
    ⟨_, _, _, _, _, _, rfl⟩
  rw [decodeEntry, decodeEntryHeader, htags, bind_eq_ok] at h
  simp only [ensure_bind_eq_ok, Except.ok.injEq, Prod.mk.injEq] at h
  obtain ⟨⟨payloadLen, storedCRC⟩, ⟨hcurrent, hlong, hheader, rfl, rfl⟩, htotal, hcrc, rfl,
    rfl⟩ := h
  have hwidths := length_fields (show entryLayout.sum ≤ data.length from hlong)
  rw [htags] at hwidths
  simp only [entryLayout, List.map_cons, List.map_nil, List.cons.injEq, and_true] at hwidths
  obtain ⟨hslot, hhash, htype, hlength, hrecord, hhdr⟩ := hwidths
  obtain ⟨kind, rfl⟩ := List.length_eq_one_iff.mp htype
  -- Each check reads a front of the fields.
  have hfront : data.take entryRecordCRCOffset = [slot, hash, [kind], length].flatten :=
    (flatten_fields [8, 32, 1, 4] data).symm.trans
      (congrArg List.flatten (congrArg (List.take 4) htags))
  have hchecked : data.take entryHeaderCRCOffset =
      [slot, hash, [kind], length].flatten ++ record := by
    have hfive := (flatten_fields [8, 32, 1, 4, 4] data).symm.trans
      (congrArg List.flatten (congrArg (List.take 5) htags))
    simpa [entryHeaderCRCOffset] using hfive
  have hsize : data.take entryHeaderSize =
      [slot, hash, [kind], length].flatten ++ record ++ header := by
    have hsix := (flatten_fields entryLayout data).symm.trans (congrArg List.flatten htags)
    simpa [entryHeaderSize, entryLayout] using hsix
  have hmarked := marked_entryPayloadLength (hcurrent (Nat.le_trans (by decide) hlong))
  set payload := (data.take (entryHeaderSize +
    (entryPayloadLength (LittleEndian.toUInt32 length)).1.toNat)).drop entryHeaderSize with hpay
  have hlen : payload.length = (entryPayloadLength (LittleEndian.toUInt32 length)).1.toNat := by
    rw [hpay, List.length_drop, List.length_take_of_le htotal, Nat.add_sub_cancel_left]
  set entry : Entry := ⟨LittleEndian.toUInt64 slot, .copy hash, [kind].headD 0, payload⟩ with hentry
  have hfields : entry.header = [slot, hash, [kind], length] := by
    rw [Entry.header, LittleEndian.uint64_toUInt64 hslot, Digest.val_copy hhash, hlen,
      UInt32.ofNat_toNat, hmarked, LittleEndian.uint32_toUInt32 hlength]
    rfl
  have hrecordCRC : LittleEndian.uint32 (entry.recordCRC update) = record := by
    rw [Entry.recordCRC, hfields, ← hfront, ← hcrc, LittleEndian.uint32_toUInt32 hrecord]
  have hheaderCRC : LittleEndian.uint32 (entry.headerCRC update) = header := by
    rw [Entry.headerCRC, hrecordCRC, hfields, ← hchecked, ← hheader,
      LittleEndian.uint32_toUInt32 hhdr]
  refine ⟨⟨Nat.add_pos_left (by decide) _, ?_⟩, htotal, ?_⟩
  · change payload.length < 2 ^ 30
    rw [hlen, entryPayloadLength, toNat_and_entryLengthMask]
    exact Nat.mod_lt _ (by decide)
  · rw [Entry.encode, hrecordCRC, hheaderCRC, hfields, ← hsize, hentry, hpay, List.drop_take,
      Nat.add_sub_cancel_left, List.take_add]

/-! ## Segments -/

/-- The check of the bytes of a downloaded segment. -/
def validateSegmentBytes (update : UInt32 → ByteString → UInt32) (data : ByteString) :
    Except EntryError Unit :=
  if _ : data = [] then .ok ()
  else match _ : decodeEntry update data with
  | .error failure => .error failure
  | .ok (_, used) => validateSegmentBytes update (data.drop used)
termination_by data.length
decreasing_by
  have := List.length_pos_iff.mpr ‹¬ data = []›
  have := (decodeEntry_eq_ok ‹decodeEntry update data = .ok _›).1.1
  rw [List.length_drop]
  omega

theorem validateSegmentBytes_of_ok {used : ℕ} (h : decodeEntry update data = .ok (entry, used)) :
    validateSegmentBytes update data = validateSegmentBytes update (data.drop used) := by
  rw [validateSegmentBytes]
  split
  next hnil => rw [hnil, List.drop_nil, validateSegmentBytes, dif_pos rfl]
  next =>
    split
    next heq => cases heq.symm.trans h
    next heq => rw [(Prod.mk.inj (Except.ok.inj (heq.symm.trans h))).2]

/-- The check passes exactly the bytes of entries, one after another. -/
theorem validateSegmentBytes_iff (update : UInt32 → ByteString → UInt32) (data : ByteString) :
    validateSegmentBytes update data = .ok () ↔ ∃ entries : List Entry,
      (∀ entry ∈ entries, entry.payload.length < 2 ^ 30) ∧
        data = entries.flatMap (Entry.encode update) := by
  constructor
  · intro h
    fun_induction validateSegmentBytes update data with
    | case1 => exact ⟨[], nofun, rfl⟩
    | case2 => cases h
    | case3 data hdata entry used hread ih =>
      obtain ⟨entries, hlen, hrest⟩ := ih h
      refine ⟨entry :: entries, List.forall_mem_cons.mpr ⟨(decodeEntry_eq_ok hread).1.2, hlen⟩, ?_⟩
      rw [List.flatMap_cons, ← hrest, (decodeEntry_eq_ok hread).2.2, List.take_append_drop]
  · rintro ⟨entries, hlen, rfl⟩
    induction entries with
    | nil => rw [List.flatMap_nil, validateSegmentBytes, dif_pos rfl]
    | cons entry entries ih =>
      obtain ⟨hfirst, hrest⟩ := List.forall_mem_cons.mp hlen
      have hread := @decodeEntry_take update entry hfirst (entries.flatMap (Entry.encode update))
        (entry.encode update ++ entries.flatMap (Entry.encode update)).length
      rw [List.take_length, if_pos (by simp)] at hread
      rw [List.flatMap_cons, validateSegmentBytes_of_ok hread, List.drop_left, ih hrest]

end Rhiza.QLog
