import Rhiza.Recovery.Extent

/-! # What the extent codec accepts

The writer and the reader agree on the bytes of an extent: each accepts just well-formed extents
and takes them for `Extent.bytes`. The writer also checks the prefix hash at the end.
-/

namespace Rhiza.Recovery

open Foundations

/-- The decisions of consecutive slots. -/
def Contiguous : UInt64 → List DecidedValue → Prop
  | _, [] => True
  | slot, decision :: rest => decision.slot = slot ∧ Contiguous (slot + 1) rest

def decisionsSize (decisions : List DecidedValue) : ℕ := (decisions.map archiveDecisionSize).sum

def Extent.size (extent : Extent) : ℕ :=
  extentHeaderSize + archiveCRCSize + decisionsSize extent.decisions

variable (hashing : Hashing) (validateValue : Option (ByteString → Checked Unit))

/-- The prefix hash after the decisions. -/
def prefixAfter (start : Digest) (decisions : List DecidedValue) : Digest :=
  decisions.foldl (fun digest decision =>
    advancePrefixHash hashing digest decision.slot decision.hash) start

/-- The payload is of a valid size and the hash is that of the value. -/
def DecidedValue.Archivable (decision : DecidedValue) : Prop :=
  validateArchivePayload validateValue decision.value decision.certificate = .ok () ∧
    hashing.sha256 decision.value = decision.hash

def Extent.bytes (extent : Extent) : ByteString :=
  sealed hashing ((extent.header extent.size).flatten ++ extent.decisions.flatMap decisionBytes)

structure Extent.Formed (extent : Extent) : Prop where
  start_ne : extent.start ≠ 0
  nonempty : extent.decisions ≠ []
  no_overflow : extent.start.toNat + (extent.decisions.length - 1) < 2 ^ 64
  stop_eq : extent.stop = extent.start + UInt64.ofNat extent.decisions.length - 1
  contiguous : Contiguous extent.start extent.decisions
  archivable : ∀ decision ∈ extent.decisions, decision.Archivable hashing validateValue
  size_le : extent.size ≤ maxExtentSize
  count_le : extent.decisions.length ≤ maxExtentItems

variable {hashing validateValue} {slot : UInt64}

theorem validateArchivePayload_eq_ok {value certificate : ByteString}
    (h : validateArchivePayload validateValue value certificate = .ok ()) :
    value ≠ [] ∧ certificate ≠ [] ∧ value.length ≤ maxExtentPayload ∧
      certificate.length ≤ maxExtentPayload - value.length := by
  simp only [validateArchivePayload, seq_eq_ok, require_eq_ok, not_or, Nat.not_lt] at h
  exact ⟨h.1.1, h.1.2.2.1, h.1.2.2.2.1, h.1.2.2.2.2⟩

theorem isOk_eq_true {result : Checked Unit} : result.isOk = true ↔ result = .ok () := by
  cases result <;> simp [Except.isOk, Except.toBool]

/-! ## The writer -/

theorem checkDecisions_eq_ok {size : ℕ} {digest : Digest}
    {decisions : List DecidedValue} {result : ℕ × Digest} (hsize : size ≤ maxExtentSize) :
    checkDecisions hashing validateValue slot size digest decisions = .ok result ↔
      Contiguous slot decisions ∧
      (∀ decision ∈ decisions, decision.Archivable hashing validateValue) ∧
      size + decisionsSize decisions ≤ maxExtentSize ∧
      result = (size + decisionsSize decisions, prefixAfter hashing digest decisions) := by
  induction decisions generalizing slot size digest with
  | nil => simp [checkDecisions, Contiguous, decisionsSize, prefixAfter, hsize, eq_comm]
  | cons decision rest ih =>
    simp only [checkDecisions, seq_eq_ok, require_eq_ok, isOk_eq_true, Contiguous,
      List.forall_mem_cons, DecidedValue.Archivable, decisionsSize, List.map_cons, List.sum_cons,
      prefixAfter, List.foldl_cons]
    constructor
    · rintro ⟨⟨hslot, hvalid, hhash⟩, hfits, hrest⟩
      obtain ⟨hnext, harch, hbound, rfl⟩ := (ih (by omega)).mp hrest
      rw [decisionsSize, ← Nat.add_assoc] at *
      exact ⟨⟨hslot, hnext⟩, ⟨⟨hvalid, hhash⟩, harch⟩, hbound, rfl⟩
    · rintro ⟨⟨hslot, hnext⟩, ⟨⟨hvalid, hhash⟩, harch⟩, hbound, rfl⟩
      refine ⟨⟨hslot, hvalid, hhash⟩, by omega, (ih (by omega)).mpr ⟨hnext, harch, ?_, ?_⟩⟩
      · rw [decisionsSize]
        omega
      · rw [decisionsSize, Nat.add_assoc, prefixAfter]

variable {data : ByteString} {extent : Extent}

theorem encodeExtent_eq_ok :
    encodeExtentWithValueValidator hashing validateValue extent = .ok data ↔
      extent.Formed hashing validateValue ∧
      extent.endPrefix = prefixAfter hashing extent.startPrefix extent.decisions ∧
      data = extent.bytes hashing := by
  have hsize : extentHeaderSize + archiveCRCSize ≤ maxExtentSize := by decide
  simp only [encodeExtentWithValueValidator, seq_eq_ok, require_eq_ok]
  rw [bind_eq_ok]
  simp only [seq_eq_ok, require_eq_ok, checkDecisions_eq_ok hsize]
  constructor
  · rintro ⟨⟨hstart, hne, hoverflow, hstop⟩, _, ⟨hnext, harch, hbound, rfl⟩,
      ⟨-, hcount, hdigest⟩, hdata⟩
    exact ⟨⟨hstart, hne, hoverflow, hstop, hnext, harch, hbound, hcount⟩, hdigest.symm,
      (Except.ok.inj hdata).symm⟩
  · rintro ⟨hform, hdigest, rfl⟩
    exact ⟨⟨hform.start_ne, hform.nonempty, hform.no_overflow, hform.stop_eq⟩, _,
      ⟨hform.contiguous, hform.archivable, hform.size_le, rfl⟩,
      ⟨hform.size_le, hform.count_le, hdigest.symm⟩, rfl⟩

/-! ## The reader -/

theorem decodeDecisions_eq_ok {count : ℕ} {result : List DecidedValue × ByteString} :
    decodeDecisions hashing validateValue count slot data = .ok result ↔
      result.1.length = count ∧ Contiguous slot result.1 ∧
      (∀ decision ∈ result.1, decision.Archivable hashing validateValue) ∧
      data = result.1.flatMap decisionBytes ++ result.2 := by
  induction count generalizing slot data result with
  | zero =>
    simp only [decodeDecisions, Except.ok.injEq, List.length_eq_zero_iff]
    constructor
    · rintro rfl
      simp [Contiguous]
    · rintro ⟨hnil, -, -, rfl⟩
      rw [hnil, List.flatMap_nil, List.nil_append, ← hnil]
  | succ count ih =>
    simp only [decodeDecisions, seq_eq_ok, require_eq_ok, not_or, Nat.not_lt]
    rw [bind_eq_ok]
    constructor
    · rintro ⟨hlen, ⟨-, -, -, -, hvalue, hcertificate⟩, hvalid, next, hrest, heq⟩
      obtain ⟨hcount, hnext, harch, hleft⟩ := ih.mp hrest
      cases heq
      refine ⟨congrArg (· + 1) hcount, ⟨rfl, hnext⟩,
        List.forall_mem_cons.mpr ⟨⟨hvalid, rfl⟩, harch⟩, ?_⟩
      -- Each length field is four bytes, so writing its number gives it back.
      have hfirst := BigEndian.bytes_value (data.take 4)
      have htwo := BigEndian.bytes_value ((data.drop 4).take 4)
      rw [List.length_take_of_le (by omega)] at hfirst
      rw [List.length_take_of_le (by rw [List.length_drop]; omega)] at htwo
      rw [List.flatMap_cons, decisionBytes, List.append_assoc, List.append_assoc,
        List.append_assoc, List.append_assoc, ← hleft, List.length_take_of_le hvalue,
        List.length_take_of_le (by rwa [List.length_drop]), hfirst, htwo,
        List.take_append_drop, List.take_append_drop]
      rw [show data.drop 8 = (data.drop 4).drop 4 by rw [List.drop_drop], List.take_append_drop,
        List.take_append_drop]
    · obtain ⟨decisions, left⟩ := result
      rintro ⟨hcount, hnext, harch, rfl⟩
      obtain _ | ⟨decision, rest⟩ := decisions
      · cases hcount
      obtain ⟨⟨hvalid, hhash⟩, hrest⟩ := List.forall_mem_cons.mp harch
      obtain ⟨hvalue, hcertificate, hvalueLen, hcertificateLen⟩ :=
        validateArchivePayload_eq_ok hvalid
      have hlimit : maxExtentPayload < 256 ^ 4 := by decide
      have hdrop : ((decision :: rest).flatMap decisionBytes ++ left).drop 8 =
          decision.value ++ (decision.certificate ++ (rest.flatMap decisionBytes ++ left)) := by
        simp [decisionBytes, List.drop_append]
      have hfirst : BigEndian.value (((decision :: rest).flatMap decisionBytes ++ left).take 4) =
          decision.value.length := by
        rw [List.flatMap_cons, decisionBytes, List.append_assoc, List.append_assoc,
          List.append_assoc, List.append_assoc, List.take_left' (BigEndian.length_bytes 4 _),
          BigEndian.value_bytes (by omega)]
      have htwo : BigEndian.value
          ((((decision :: rest).flatMap decisionBytes ++ left).drop 4).take 4) =
          decision.certificate.length := by
        rw [List.flatMap_cons, decisionBytes, List.append_assoc, List.append_assoc,
          List.append_assoc, List.append_assoc, List.drop_left' (BigEndian.length_bytes 4 _),
          List.take_left' (BigEndian.length_bytes 4 _), BigEndian.value_bytes (by omega)]
      rw [hdrop, hfirst, htwo, List.take_left, List.drop_left, List.take_left, List.drop_left]
      refine ⟨by simp [decisionBytes]; omega, ⟨?_, ?_, hvalueLen, hcertificateLen, ?_, ?_⟩, hvalid,
        (rest, left), ih.mpr ⟨Nat.succ.inj hcount, hnext.2, hrest, rfl⟩, ?_⟩
      · simpa using hvalue
      · simpa using hcertificate
      · simp
      · simp
      · rw [hhash, ← hnext.1]

theorem length_decisionBytes (decision : DecidedValue) :
    (decisionBytes decision).length = archiveDecisionSize decision := by
  simp only [decisionBytes, List.length_append, BigEndian.length_bytes, archiveDecisionSize]

theorem length_flatMap_decisionBytes (decisions : List DecidedValue) :
    (decisions.flatMap decisionBytes).length = decisionsSize decisions := by
  rw [List.length_flatMap, decisionsSize]
  exact congrArg List.sum (List.map_congr_left fun decision _ => length_decisionBytes decision)

theorem header_layout (extent : Extent) (size : ℕ) :
    (extent.header size).map List.length = extentLayout := by
  simp only [Extent.header, List.map_cons, List.map_nil, BigEndian.length_bytes,
    BigEndian.length_uint64, Digest.length_val]
  rfl

/-- A checked object splits into what was checked and the checksum. -/
theorem sealed_take_drop (h : archiveCRCSize ≤ data.length)
    (hcrc : (hashing.crc32 (data.take (data.length - archiveCRCSize))).toNat =
      BigEndian.value (data.drop (data.length - archiveCRCSize))) :
    data = sealed hashing (data.take (data.length - archiveCRCSize)) := by
  have hlen : (data.drop (data.length - archiveCRCSize)).length = 4 := by
    rw [List.length_drop, archiveCRCSize] at *
    omega
  rw [sealed, hcrc, ← hlen, BigEndian.bytes_value, List.take_append_drop]

/-- How the reader sees an object: its header, its payload and a checksum that matches. -/
structure Opens (hashing : Hashing) (layout : List ℕ) (header : List ByteString)
    (payload data : ByteString) : Prop where
  fields_eq : fields layout data = header
  length_eq : data.length = layout.sum + payload.length + archiveCRCSize
  checked : (hashing.crc32 (data.take (data.length - archiveCRCSize))).toNat =
    BigEndian.value (data.drop (data.length - archiveCRCSize))
  payload_eq : (data.take (data.length - archiveCRCSize)).drop layout.sum = payload

theorem opens_sealed (hashing : Hashing) {layout : List ℕ} {header : List ByteString}
    (hlayout : header.map List.length = layout) (payload : ByteString) :
    Opens hashing layout header payload (sealed hashing (header.flatten ++ payload)) := by
  have hlen : (sealed hashing (header.flatten ++ payload)).length - archiveCRCSize =
      (header.flatten ++ payload).length := by
    rw [sealed, List.length_append, BigEndian.length_bytes, archiveCRCSize, Nat.add_sub_cancel]
  have hsum : header.flatten.length = layout.sum := by rw [List.length_flatten, hlayout]
  refine ⟨?_, ?_, ?_, ?_⟩
  · rw [← hlayout, sealed, List.append_assoc, fields_flatten_append]
  · simp only [sealed, List.length_append, hsum, BigEndian.length_bytes, archiveCRCSize]
  · rw [hlen, sealed, List.take_left, List.drop_left, BigEndian.value_bytes]
    exact UInt32.toNat_lt _
  · rw [hlen, sealed, List.take_left]
    exact List.drop_left' hsum

theorem decodeExtent_bytes (h : extent.Formed hashing validateValue) :
    decodeExtentWithValueValidator hashing validateValue (extent.bytes hashing) = .ok extent := by
  have hopens := opens_sealed hashing (header_layout extent extent.size)
    (extent.decisions.flatMap decisionBytes)
  rw [← Extent.bytes] at hopens
  have hlen : (extent.bytes hashing).length = extent.size := by
    rw [hopens.length_eq, length_flatMap_decisionBytes, Extent.size, Nat.add_right_comm]
    rfl
  have hitems : maxExtentItems < 256 ^ 4 := by decide
  have hcount : BigEndian.value (BigEndian.bytes 4 extent.decisions.length) =
      extent.decisions.length := BigEndian.value_bytes (Nat.lt_of_le_of_lt h.count_le hitems)
  have hpicks : decodeDecisions hashing validateValue extent.decisions.length extent.start
      (((extent.bytes hashing).take ((extent.bytes hashing).length - archiveCRCSize)).drop
        extentHeaderSize) = .ok (extent.decisions, []) :=
    decodeDecisions_eq_ok.mpr ⟨rfl, h.contiguous, h.archivable,
      hopens.payload_eq.trans (List.append_nil _).symm⟩
  rw [decodeExtentWithValueValidator, hopens.fields_eq]
  simp only [Extent.header, seq_eq_ok, require_eq_ok, BigEndian.toUInt64_uint64, hcount,
    Digest.copy_val, hpicks, ok_bind, ← h.stop_eq]
  have hsize : maxExtentSize < 256 ^ 4 := by decide
  refine ⟨⟨?_, hlen ▸ h.size_le, trivial, ?_, by decide, by decide⟩, hopens.checked, ?_, trivial,
    trivial⟩
  · exact hlen ▸ Nat.le_add_right _ _
  · rw [hlen]
    exact BigEndian.value_bytes (Nat.lt_of_le_of_lt h.size_le hsize)
  · exact ⟨h.start_ne, by simpa using h.nonempty, h.count_le, h.no_overflow⟩

theorem decodeExtent_eq_ok
    (h : decodeExtentWithValueValidator hashing validateValue data = .ok extent) :
    extent.Formed hashing validateValue ∧ data = extent.bytes hashing := by
  unfold decodeExtentWithValueValidator at h
  split at h
  case h_2 => cases h
  rename_i magic size reserved config start count reserved' startPrefix endPrefix previousHash
    previousObject htags
  simp only [seq_eq_ok, require_eq_ok] at h
  rw [bind_eq_ok] at h
  simp only [seq_eq_ok, require_eq_ok] at h
  obtain ⟨⟨hshort, hlong, rfl, hsize, hzero, hzero'⟩, hcrc, ⟨hstart, hcount, hitems, hoverflow⟩,
    ⟨decisions, left⟩, hpicks, rfl, heq⟩ := h
  cases heq
  obtain ⟨hlen, hcontiguous, harch, hpay⟩ := decodeDecisions_eq_ok.mp hpicks
  dsimp only at hlen hcontiguous harch hpay
  rw [List.append_nil] at hpay
  have hwidths : (fields extentLayout data).map List.length = extentLayout :=
    length_fields (Nat.le_trans (by decide) hshort)
  rw [htags] at hwidths
  simp only [extentLayout, List.map_cons, List.map_nil, List.cons.injEq, and_true] at hwidths
  obtain ⟨-, hsizeWidth, hzeroWidth, hconfig, hstartWidth, hcountWidth, hzeroWidth', hstartPrefix,
    hendPrefix, hprevious, hobject⟩ := hwidths
  have htotal : data.length = extentHeaderSize + archiveCRCSize + decisionsSize decisions := by
    have hbytes := congrArg List.length hpay
    rw [length_flatMap_decisionBytes, List.length_drop, List.length_take] at hbytes
    omega
  have hsplit : data.take (data.length - archiveCRCSize) =
      [extentMagic, size, reserved, config, start, count, reserved', startPrefix, endPrefix,
        previousHash, previousObject].flatten ++ decisions.flatMap decisionBytes := by
    rw [← htags, flatten_fields, ← hpay]
    have htake : data.take extentLayout.sum =
        (data.take (data.length - archiveCRCSize)).take extentHeaderSize := by
      rw [List.take_take, Nat.min_eq_left (by omega)]
      rfl
    rw [htake, List.take_append_drop]
  refine ⟨⟨hstart, ?_, ?_, ?_, hcontiguous, harch, ?_, ?_⟩, ?_⟩
  · rintro rfl
    exact hcount hlen.symm
  · rwa [hlen]
  · rw [hlen]
  · rwa [htotal] at hlong
  · rwa [hlen]
  · -- Every field is what its number or digest is written as.
    have hword : ∀ {s : ByteString} {n : ℕ}, s.length = 4 → BigEndian.value s = n →
        BigEndian.bytes 4 n = s := by
      rintro s _ hfour rfl
      rw [← hfour, BigEndian.bytes_value]
    have hbook : reserved' = reserved :=
      (hword hzeroWidth' hzero').symm.trans (hword hzeroWidth hzero)
    have hcrcWidth : archiveCRCSize ≤ data.length := by omega
    rw [sealed_take_drop hcrcWidth hcrc, hsplit, Extent.bytes, Extent.header]
    simp only [Extent.size, BigEndian.uint64_toUInt64 hconfig,
      BigEndian.uint64_toUInt64 hstartWidth,
      BigEndian.uint64_toUInt64 hobject, Digest.val_copy hstartPrefix, Digest.val_copy hendPrefix,
      Digest.val_copy hprevious, ← htotal, hlen, hword hsizeWidth hsize, hword hzeroWidth hzero,
      hbook, hword hcountWidth rfl]

end Rhiza.Recovery
