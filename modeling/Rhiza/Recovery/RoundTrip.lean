import Rhiza.Recovery.Head

/-! # Archive objects round-trip

What the writer accepts the reader reads back, and the bytes of an extent are the only ones the
reader takes for it. Heads need the three conditions every publisher meets: a base has a prefix
hash, an anchor base is its own lineage, and there is no lineage without a base.
-/

namespace Rhiza.Recovery

open Foundations

variable {hashing : Hashing} {codec : SealCodec} {head : ArchiveHead codec.Seal} {data : ByteString}

theorem decodeBaseDecision_encode {decision : DecidedValue}
    (h : encodeBaseDecision hashing decision = .ok data) :
    decodeBaseDecision hashing data = .ok decision ∧ data.length ≠ 0 := by
  simp only [encodeBaseDecision, seq_eq_ok, require_eq_ok, isOk_eq_true, Except.ok.injEq] at h
  obtain ⟨⟨hvalid, hhash⟩, rfl⟩ := h
  obtain ⟨hvalue, hcertificate, hvalueLen, hcertificateLen⟩ := validateArchivePayload_eq_ok hvalid
  have hreplicated : decision.value.length ≤ maxReplicatedValueBytes := by
    simp only [validateArchivePayload, seq_eq_ok, require_eq_ok, not_or, Nat.not_lt] at hvalid
    exact hvalid.1.2.1
  have hlimit : maxExtentPayload < 256 ^ 4 := by decide
  set header := [BigEndian.uint64 decision.slot, BigEndian.bytes 4 decision.value.length,
    BigEndian.bytes 4 decision.certificate.length] with hheader
  have hlayout : header.map List.length = [8, 4, 4] := by simp [hheader]
  have htags : fields [8, 4, 4] (header.flatten ++ (decision.value ++ decision.certificate)) =
      header := by rw [← hlayout, fields_flatten_append]
  have hsixteen : header.flatten.length = 16 := by rw [List.length_flatten, hlayout]; rfl
  have hrest : (header.flatten ++ (decision.value ++ decision.certificate)).drop 16 =
      decision.value ++ decision.certificate := List.drop_left' hsixteen
  rw [decodeBaseDecision, htags, hrest]
  simp only [hheader, BigEndian.toUInt64_uint64, BigEndian.value_bytes (Nat.lt_of_le_of_lt hvalueLen
    hlimit), List.take_left, List.drop_left, hhash, seq_eq_ok, require_eq_ok, not_or, Nat.not_lt,
    BigEndian.value_bytes (show decision.certificate.length < 256 ^ 4 by omega)]
  rw [← hheader, List.length_append, hsixteen]
  refine ⟨⟨by omega, ⟨?_, ?_, hreplicated, hvalueLen, hcertificateLen, ?_, ?_⟩, trivial⟩, by omega⟩
  · simpa using hvalue
  · simpa using hcertificate
  · simp
  · simp

/-- What all publishers produce. -/
structure ArchiveHead.Published (head : ArchiveHead codec.Seal) : Prop where
  hashed : head.base ≠ 0 → head.basePrefix ≠ .zero
  lineage : head.baseAnchor.isSome → head.lineageAnchor.isSome
  based : head.base = 0 → head.lineageAnchor = none

/-- The reader finds the base again behind the flags the writer sets. -/
theorem decodeBase_encode (hpublished : head.Published) {base payload : ByteString × UInt32}
    {flags : UInt32} (hbase : encodeBase hashing codec head = .ok base)
    (hline : encodeLineage codec head base = .ok payload)
    (hhasBase : flags &&& headHasBase = payload.2 &&& headHasBase)
    (hhasAnchor : flags &&& headHasAnchor = payload.2 &&& headHasAnchor) :
    decodeBase hashing codec flags head.base head.basePrefix payload.1 =
      .ok (head.baseSeal, head.baseDecision, head.baseAnchor, head.lineageAnchor) := by
  obtain ⟨_, _, start, startPrefix, baseSeal, baseDecision, baseAnchor, lineageAnchor, _,
    _, _, _⟩ :=
    head
  obtain ⟨hhashed, htied, hbased⟩ := hpublished
  dsimp only at *
  unfold decodeBase
  rw [hhasBase, hhasAnchor]
  simp only [encodeBase] at hbase
  split at hbase
  case isFalse hzero =>
    simp only [seq_eq_ok, require_eq_ok, Except.ok.injEq] at hbase
    obtain ⟨⟨rfl, rfl, rfl, hzeroPrefix⟩, rfl⟩ := hbase
    obtain rfl := hbased (not_not.mp hzero)
    cases hline
    rw [if_pos (by decide), seq_eq_ok, require_eq_ok]
    exact ⟨⟨not_not.mp hzero, rfl, hzeroPrefix⟩, rfl⟩
  case isTrue hne =>
    split at hbase
    case h_1 anchor _ _ =>
      -- An anchor base is its own lineage.
      simp only [seq_eq_ok, require_eq_ok, Except.ok.injEq] at hbase
      obtain ⟨⟨-, rfl, rfl⟩, rfl⟩ := hbase
      obtain ⟨lineage, rfl⟩ := Option.isSome_iff_exists.mp (htied rfl)
      simp only [encodeLineage, seq_eq_ok, require_eq_ok, Option.all_some, decide_eq_true_eq,
        reduceCtorEq, if_false, Except.ok.injEq] at hline
      obtain ⟨⟨-, rfl⟩, rfl⟩ := hline
      dsimp only
      rw [if_neg (by decide), if_pos (by decide), seq_eq_ok, require_eq_ok, Digest.copy_val]
      exact ⟨⟨hne, hhashed hne, lineage.2⟩, rfl⟩
    case h_2 baseSeal decision =>
      simp only [seq_eq_ok, require_eq_ok] at hbase
      rw [bind_eq_ok] at hbase
      simp only [seq_eq_ok, require_eq_ok, toOption_eq_some] at hbase
      obtain ⟨⟨hindex, hprefixHash⟩, data, hdata, hseal, heq⟩ := hbase
      cases heq
      obtain ⟨hgot, hlen⟩ := decodeBaseDecision_encode hdata
      cases lineageAnchor with
      | none =>
        cases hline
        dsimp only
        rw [if_neg (by decide), if_neg (by decide)]
        simp only [if_pos (show headHasBase &&& headHasAnchor = 0 by decide), List.take_length,
          hgot, ok_bind, hseal, seq_eq_ok, require_eq_ok]
        exact ⟨⟨hne, hhashed hne, hlen⟩, .inl (by decide), trivial, ⟨hindex, hprefixHash⟩, trivial⟩
      | some anchor =>
        simp only [encodeLineage, seq_eq_ok, require_eq_ok, if_true, Except.ok.injEq] at hline
        obtain ⟨-, rfl⟩ := hline
        have hflag : (headHasBase ||| headHasAnchor) &&& headHasAnchor ≠ 0 := by decide
        have htotal : (data ++ anchor.1).length = data.length + 32 := by simp
        dsimp only
        rw [if_neg (by decide), if_neg (by decide)]
        simp only [if_neg hflag, htotal, Nat.add_sub_cancel, List.take_left, List.drop_left, hgot,
          ok_bind, hseal, seq_eq_ok, require_eq_ok, Digest.copy_val]
        exact ⟨⟨hne, hhashed hne, by omega⟩, .inr (by omega), trivial,
          ⟨hindex, hprefixHash⟩, trivial⟩
    case h_3 => cases hbase

/-- The flags of a payload are those of its kind. -/
theorem encodeLineage_flags {base payload : ByteString × UInt32}
    (hbase : encodeBase hashing codec head = .ok base)
    (hline : encodeLineage codec head base = .ok payload) :
    payload.2 ∈ [0, headHasAnchor, headHasBase, headHasBase ||| headHasAnchor] := by
  have hflags : base.2 = 0 ∨ base.2 = headHasAnchor ∨ base.2 = headHasBase := by
    simp only [encodeBase] at hbase
    split at hbase
    · split at hbase
      · simp only [seq_eq_ok, Except.ok.injEq] at hbase
        exact .inr (.inl (congrArg Prod.snd hbase.2).symm)
      · simp only [seq_eq_ok] at hbase
        rw [bind_eq_ok] at hbase
        simp only [seq_eq_ok, Except.ok.injEq] at hbase
        obtain ⟨-, _, -, -, heq⟩ := hbase
        exact .inr (.inr (congrArg Prod.snd heq).symm)
      · cases hbase
    · simp only [seq_eq_ok, Except.ok.injEq] at hbase
      exact .inl (congrArg Prod.snd hbase.2).symm
  unfold encodeLineage at hline
  split at hline
  · cases hline
    rcases hflags with h | h | h <;> simp [h]
  · simp only [seq_eq_ok] at hline
    obtain ⟨-, hline⟩ := hline
    split at hline
    · cases hline
      rcases hflags with h | h | h <;> simp only [h] <;> decide
    · cases hline
      rcases hflags with h | h | h <;> simp [h]

theorem decodeHead_encode (hpublished : head.Published)
    (h : encodeHead hashing codec head = .ok data) : decodeHead hashing codec data = .ok head := by
  simp only [encodeHead, seq_eq_ok, require_eq_ok] at h
  rw [bind_eq_ok] at h
  obtain ⟨⟨hrange, -⟩, base, hbase, h⟩ := h
  rw [bind_eq_ok] at h
  obtain ⟨⟨payload, flags⟩, hline, h⟩ := h
  simp only [seq_eq_ok, require_eq_ok, Except.ok.injEq] at h
  obtain ⟨hsize, rfl⟩ := h
  have hmembers := encodeLineage_flags hbase hline
  dsimp only at hmembers
  have hbits : ∀ sealed : Bool, ((if sealed then headSealed else 0) ||| flags) &&& headHasBase =
      flags &&& headHasBase ∧ ((if sealed then headSealed else 0) ||| flags) &&& headHasAnchor =
      flags &&& headHasAnchor ∧ ((if sealed then headSealed else 0) ||| flags) &&&
        ~~~(headHasBase ||| headSealed ||| headHasAnchor) = 0 ∧
      decide (((if sealed then headSealed else 0) ||| flags) &&& headSealed ≠ 0) = sealed := by
    simp only [List.mem_cons, List.not_mem_nil, or_false] at hmembers
    rcases hmembers with rfl | rfl | rfl | rfl <;> decide
  obtain ⟨hhasBase, hhasAnchor, hknown, hsealed⟩ := hbits head.sealed
  have hgot := decodeBase_encode hpublished hbase hline hhasBase hhasAnchor
  generalize ((if head.sealed then headSealed else 0) ||| flags) = word at *
  have hlayout : (head.header (headHeaderSize + payload.length + archiveCRCSize) word
      payload.length).map List.length = headLayout := by
    simp only [ArchiveHead.header, List.map_cons, List.map_nil, BigEndian.length_bytes,
      BigEndian.length_uint64, Digest.length_val]
    rfl
  have hopens := opens_sealed hashing hlayout payload
  have hpay := hopens.payload_eq
  have hlimit : maxArchiveHeadSize < 256 ^ 4 := by decide
  rw [decodeHead, hopens.fields_eq]
  generalize sealed hashing _ = data at *
  have hlen : data.length = headHeaderSize + payload.length + archiveCRCSize := hopens.length_eq
  rw [show headLayout.sum = headHeaderSize from rfl] at hpay
  have hword : UInt32.ofNat (BigEndian.value (BigEndian.bytes 4 word.toNat)) = word := by
    rw [BigEndian.value_bytes word.toNat_lt, UInt32.ofNat_toNat]
  simp only [ArchiveHead.header, BigEndian.toUInt64_uint64, Digest.copy_val, hpay, hword, hgot,
    ok_bind, seq_eq_ok, require_eq_ok, hsealed]
  refine ⟨⟨by omega, hlen ▸ hsize, trivial, ?_⟩, hknown, hopens.checked, ⟨by decide, ?_⟩, hrange,
    trivial⟩
  · rw [hlen]
    exact BigEndian.value_bytes (Nat.lt_of_le_of_lt hsize hlimit)
  · exact BigEndian.value_bytes (by omega)

/-- Extents and heads are read back as they were written. -/
theorem archive_objects_roundTrip (hashing : Hashing) (codec : SealCodec)
    (validateValue : Option (ByteString → Checked Unit)) :
    (∀ extent data, encodeExtentWithValueValidator hashing validateValue extent = .ok data →
      decodeExtentWithValueValidator hashing validateValue data = .ok extent) ∧
    (∀ data extent data', decodeExtentWithValueValidator hashing validateValue data = .ok extent →
      encodeExtentWithValueValidator hashing validateValue extent = .ok data' → data' = data) ∧
    ∀ (head : ArchiveHead codec.Seal) data, encodeHead hashing codec head = .ok data →
      head.Published → decodeHead hashing codec data = .ok head := by
  refine ⟨?_, ?_, ?_⟩
  · intro extent data hencode
    obtain ⟨hformed, -, rfl⟩ := encodeExtent_eq_ok.mp hencode
    exact decodeExtent_bytes hformed
  · intro data extent data' hdecode hencode
    obtain ⟨-, -, rfl⟩ := encodeExtent_eq_ok.mp hencode
    exact (decodeExtent_eq_ok hdecode).2.symm
  · intro head data hencode hpublished
    exact decodeHead_encode hpublished hencode

end Rhiza.Recovery
