import Rhiza.QLog.Entry
import Rhiza.Recovery.ExtentCodec

/-! # The manifest of the log

A manifest lists the segments of the log, the active one last, and the identity of its owner, with
a checksum of both. The reader bounds the number of references by a count of 32 bits of the room
they have, which wraps for the largest manifests.
-/

namespace Rhiza.QLog

open Foundations Recovery

def manifestMagic : ByteString := bytesOf "RHZAWAL2"

def manifestHeaderSize : ℕ := 8 + 8 + 4
def manifestRefSize : ℕ := 4 + 8 + 4
def manifestIdentityLen : ℕ := 2
def manifestCRCSize : ℕ := 4
def manifestActive : UInt32 := 1
def manifestSealed : UInt32 := 2
def maxIdentitySize : ℕ := 64

structure ManifestRef where
  index : UInt32
  length : UInt64
  active : Bool
deriving DecidableEq

def ManifestRef.parts (ref : ManifestRef) : List ByteString :=
  [BigEndian.uint32 ref.index, BigEndian.uint64 ref.length,
    BigEndian.uint32 (if ref.active then manifestActive else manifestSealed)]

/-- The checks of the writer's loop: the last reference is the active one. -/
def checkRefs : List ManifestRef → Checked Unit
  | [] => .ok ()
  | ref :: rest => do
    require (¬ (ref.index = 0 ∨ rest.isEmpty ≠ ref.active ∨ ref.active ∧ ref.length ≠ 0))
      "invalid WAL manifest reference"
    checkRefs rest

/-- No identity takes no bytes, not even for its length. -/
def identityBytes (identity : ByteString) : ByteString :=
  if identity = [] then [] else BigEndian.bytes 2 identity.length ++ identity

def manifestHeader (generation : UInt64) (count : ℕ) : List ByteString :=
  [manifestMagic, BigEndian.uint64 generation, BigEndian.uint32 (UInt32.ofNat count)]

def manifestPayload (refs : List ManifestRef) (identity : ByteString) : ByteString :=
  (refs.flatMap ManifestRef.parts).flatten ++ identityBytes identity

variable (hashing : Hashing)

def encodeManifest (generation : UInt64) (refs : List ManifestRef) (identity : ByteString) :
    Checked ByteString := do
  require (¬ (generation = 0 ∨ refs = []))
    "invalid or unsupported WAL manifest; preserve old data and migrate logically"
  require (identity.length ≤ maxIdentitySize) "WAL identity is too large"
  checkRefs refs
  .ok (sealed hashing ((manifestHeader generation refs.length).flatten ++
    manifestPayload refs identity))

/-- The reader's loop, after the references `before`. -/
def decodeRefs : ℕ → List ManifestRef → ByteString → Checked (List ManifestRef)
  | 0, _, _ => .ok []
  | left + 1, before, data =>
    match fields [4, 8, 4] data with
    | [index, length, flag] => do
      let flag := BigEndian.toUInt32 flag
      let ref : ManifestRef := ⟨BigEndian.toUInt32 index, BigEndian.toUInt64 length,
        flag == manifestActive⟩
      require (¬ (ref.index = 0 ∨ flag ≠ manifestActive ∧ flag ≠ manifestSealed ∨
        ref.active ≠ (left == 0) ∨ ref.active ∧ ref.length ≠ 0)) "invalid WAL manifest reference"
      require (before.all (·.index != ref.index))
        ("duplicate WAL segment " ++ toString ref.index)
      require (before.getLast?.all (·.index < ref.index)) "WAL segments are not strictly ordered"
      let rest ← decodeRefs left (before ++ [ref]) (data.drop manifestRefSize)
      .ok (ref :: rest)
    | _ => .error "invalid WAL manifest reference"

/-- The identity in front of the checksum, and the size of its field. -/
def decodeIdentity (rest : ByteString) : Checked (ByteString × ℕ) :=
  if rest.length = manifestCRCSize then .ok ([], 0)
  else do
    require (manifestIdentityLen + manifestCRCSize ≤ rest.length) "invalid WAL manifest identity"
    let identityLen := BigEndian.value (rest.take manifestIdentityLen)
    let size := manifestIdentityLen + identityLen
    require (¬ (identityLen = 0 ∨ maxIdentitySize < identityLen ∨
      size + manifestCRCSize ≠ rest.length)) "invalid WAL manifest identity"
    .ok ((rest.drop manifestIdentityLen).take identityLen, size)

def decodeManifest (data : ByteString) :
    Checked (UInt64 × List ManifestRef × ByteString) :=
  match fields [8, 8, 4] data with
  | [magic, generation, count] => do
    require (manifestHeaderSize + manifestRefSize + manifestCRCSize ≤ data.length ∧
      magic = manifestMagic)
      "invalid or unsupported WAL manifest; preserve old data and migrate logically"
    let generation := BigEndian.toUInt64 generation
    let count := BigEndian.toUInt32 count
    require (count ≤ UInt32.ofNat
      ((data.length - manifestHeaderSize - manifestCRCSize) / manifestRefSize))
      "invalid WAL manifest count"
    let refsEnd := manifestHeaderSize + count.toNat * manifestRefSize
    require (¬ (generation = 0 ∨ count = 0 ∨ data.length < refsEnd + manifestCRCSize))
      "invalid WAL manifest length"
    let (identity, size) ← decodeIdentity (data.drop refsEnd)
    let checksumOffset := refsEnd + size
    require (BigEndian.value (data.drop checksumOffset) =
      (hashing.crc32 (data.take checksumOffset)).toNat) "WAL manifest checksum mismatch"
    let refs ← decodeRefs count.toNat [] (data.drop manifestHeaderSize)
    .ok (generation, refs, identity)
  | _ => .error "invalid or unsupported WAL manifest; preserve old data and migrate logically"

/-- In strictly increasing order of their indexes. -/
def Ascending (refs : List ManifestRef) : Prop := refs.Pairwise (·.index < ·.index)

variable {hashing} {refs before : List ManifestRef} {identity data : ByteString}

theorem parts_layout (ref : ManifestRef) : ref.parts.map List.length = [4, 8, 4] := by
  simp [ManifestRef.parts]

theorem length_parts (refs : List ManifestRef) :
    (refs.flatMap ManifestRef.parts).flatten.length = refs.length * manifestRefSize := by
  induction refs with
  | nil => rfl
  | cons ref refs ih =>
    rw [List.flatMap_cons, List.flatten_append, List.length_append, ih, List.length_flatten,
      parts_layout, List.length_cons, Nat.succ_mul, Nat.add_comm]
    rfl

theorem parts_eq {ref : ManifestRef} {index length flag : ByteString}
    (h : [index, length, flag].map List.length = [4, 8, 4]) :
    ref.parts = [index, length, flag] ↔
      (BigEndian.toUInt32 flag = manifestActive ∨ BigEndian.toUInt32 flag = manifestSealed) ∧
      ref = ⟨BigEndian.toUInt32 index, BigEndian.toUInt64 length,
        BigEndian.toUInt32 flag == manifestActive⟩ := by
  simp only [List.map_cons, List.map_nil, List.cons.injEq, and_true] at h
  obtain ⟨hindex, hlength, hflag⟩ := h
  constructor
  · intro heq
    simp only [ManifestRef.parts, List.cons.injEq, and_true] at heq
    obtain ⟨rfl, rfl, rfl⟩ := heq
    simp only [BigEndian.toUInt32_uint32, BigEndian.toUInt64_uint64]
    obtain ⟨refIndex, refLength, active⟩ := ref
    cases active with
    | false => exact ⟨.inr rfl, rfl⟩
    | true => exact ⟨.inl rfl, rfl⟩
  · rintro ⟨hkind, rfl⟩
    have hword : (if (BigEndian.toUInt32 flag == manifestActive) = true then manifestActive
        else manifestSealed) = BigEndian.toUInt32 flag := by
      rcases hkind with h | h <;> rw [h] <;> rfl
    rw [ManifestRef.parts, hword, BigEndian.uint32_toUInt32 hindex,
      BigEndian.uint64_toUInt64 hlength, BigEndian.uint32_toUInt32 hflag]

theorem Ascending.concat {ref : ManifestRef} (h : Ascending before)
    (hlast : before.getLast?.all (·.index < ref.index) = true) : Ascending (before ++ [ref]) := by
  refine List.pairwise_append.mpr ⟨h, List.pairwise_singleton _ _, ?_⟩
  intro other hmem _ href
  cases List.mem_singleton.mp href
  cases before using List.reverseRecOn with
  | nil => cases hmem
  | append_singleton init last =>
    have hless : last.index < ref.index := by simpa using hlast
    rcases List.mem_append.mp hmem with hinit | hlst
    · exact UInt32.lt_trans ((List.pairwise_append.mp h).2.2 _ hinit _ (.head _)) hless
    · cases List.mem_singleton.mp hlst
      exact hless

theorem decodeRefs_eq_ok {left : ℕ} (hroom : left * manifestRefSize ≤ data.length)
    (hbefore : Ascending before) :
    decodeRefs left before data = .ok refs ↔ refs.length = left ∧ checkRefs refs = .ok () ∧
      Ascending (before ++ refs) ∧
      (refs.flatMap ManifestRef.parts).flatten = data.take (left * manifestRefSize) := by
  induction left generalizing before data refs with
  | zero =>
    rw [decodeRefs, Except.ok.injEq, List.length_eq_zero_iff]
    constructor
    · rintro rfl
      exact ⟨rfl, rfl, by rwa [List.append_nil], by simp⟩
    · exact fun h => h.1.symm
  | succ left ih =>
    obtain ⟨index, length, flag, htags⟩ : ∃ index length flag,
        fields [4, 8, 4] data = [index, length, flag] := ⟨_, _, _, rfl⟩
    rw [Nat.succ_mul] at hroom
    have hfirst : manifestRefSize ≤ data.length := by omega
    have hleft : left * manifestRefSize ≤ (data.drop manifestRefSize).length := by
      rw [List.length_drop]
      omega
    have hwidths : [index, length, flag].map List.length = [4, 8, 4] := by
      rw [← htags, length_fields (show [4, 8, 4].sum ≤ _ from hfirst)]
    have hfront : data.take manifestRefSize = [index, length, flag].flatten := by
      rw [← htags, flatten_fields]
      rfl
    have hbytes : data.take ((left + 1) * manifestRefSize) = [index, length, flag].flatten ++
        (data.drop manifestRefSize).take (left * manifestRefSize) := by
      rw [Nat.succ_mul, Nat.add_comm, List.take_add, hfront]
    rw [decodeRefs, htags, hbytes]
    simp only [seq_eq_ok, require_eq_ok, not_or, not_and, not_not]
    rw [bind_eq_ok]
    constructor
    · rintro ⟨⟨hzero, hkind, hlast, hempty⟩, -, horder, rest, hrest, heq⟩
      cases heq
      set ref : ManifestRef := ⟨BigEndian.toUInt32 index, BigEndian.toUInt64 length,
        BigEndian.toUInt32 flag == manifestActive⟩ with href
      have hparts : ref.parts = [index, length, flag] :=
        (parts_eq hwidths).mpr ⟨or_iff_not_imp_left.mpr hkind, rfl⟩
      obtain ⟨rfl, hcheck, hasc, htail⟩ := (ih hleft (hbefore.concat horder)).mp hrest
      rw [List.append_assoc] at hasc
      refine ⟨rfl, ?_, hasc, ?_⟩
      · simp only [checkRefs, seq_eq_ok, require_eq_ok, not_or, not_and, not_not]
        refine ⟨⟨hzero, ?_, hempty⟩, hcheck⟩
        refine Eq.trans ?_ hlast.symm
        cases rest <;> rfl
      · rw [List.flatMap_cons, List.flatten_append, hparts, htail]
    · rintro ⟨hlen, hcheck, hasc, hdata⟩
      cases refs with
      | nil => cases hlen
      | cons ref rest =>
        rw [List.flatMap_cons, List.flatten_append] at hdata
        obtain ⟨hflat, htail⟩ := List.append_inj hdata (by
          rw [List.length_flatten, List.length_flatten, parts_layout, hwidths])
        have hparts : ref.parts = [index, length, flag] := by
          rw [← fields_flatten_append ref.parts [], parts_layout, hflat, ← hwidths,
            fields_flatten_append]
        obtain ⟨hkind, rfl⟩ := (parts_eq hwidths).mp hparts
        simp only [checkRefs, seq_eq_ok, require_eq_ok, not_or, not_and, not_not] at hcheck
        obtain ⟨⟨hzero, hempty, hactive⟩, hcheck⟩ := hcheck
        rw [List.append_cons] at hasc
        have hchain := (List.pairwise_append.mp hasc).1
        have hless := fun other hmem => (List.pairwise_append.mp hchain).2.2 other hmem _ (.head _)
        refine ⟨⟨hzero, or_iff_not_imp_left.mp hkind, ?_, hactive⟩, ?_, ?_, rest,
          (ih hleft hchain).mpr ⟨Nat.succ.inj hlen, hcheck, hasc, htail⟩, rfl⟩
        · rw [← hempty, ← Nat.succ.inj hlen]
          cases rest <;> rfl
        · simp only [List.all_eq_true, bne_iff_ne]
          exact fun other hmem heq => UInt32.lt_irrefl _ (heq ▸ hless other hmem)
        · simp only [Option.all_eq_true, decide_eq_true_eq]
          exact fun other hmem => hless other (List.mem_of_getLast? hmem)

theorem decodeIdentity_eq_ok {rest : ByteString} {size : ℕ} :
    decodeIdentity rest = .ok (identity, size) ↔ identity.length ≤ maxIdentitySize ∧
      size + manifestCRCSize = rest.length ∧ rest.take size = identityBytes identity := by
  have hcrc : manifestCRCSize = 4 := rfl
  have hwidth : manifestIdentityLen = 2 := rfl
  have hmax : maxIdentitySize < 256 ^ 2 := by decide
  unfold decodeIdentity
  split
  case isTrue hnone =>
    rw [Except.ok.injEq, Prod.mk.injEq]
    constructor
    · rintro ⟨rfl, rfl⟩
      exact ⟨Nat.zero_le _, by omega, rfl⟩
    · rintro ⟨-, hsize, hbytes⟩
      obtain rfl : size = 0 := by omega
      refine ⟨?_, rfl⟩
      by_contra hne
      rw [identityBytes, if_neg (Ne.symm hne)] at hbytes
      cases hbytes
  case isFalse hsome =>
    simp only [seq_eq_ok, require_eq_ok, not_or, not_not, Nat.not_lt, Except.ok.injEq,
      Prod.mk.injEq]
    constructor
    · rintro ⟨hlong, ⟨hzero, hfits, hsize⟩, rfl, rfl⟩
      have hlen : ((rest.drop manifestIdentityLen).take
          (BigEndian.value (rest.take manifestIdentityLen))).length =
          BigEndian.value (rest.take manifestIdentityLen) :=
        List.length_take_of_le (by rw [List.length_drop]; omega)
      have hword := BigEndian.bytes_value (rest.take manifestIdentityLen)
      rw [List.length_take_of_le (by omega), hwidth] at hword
      rw [identityBytes, if_neg (by rw [← List.length_eq_zero_iff]; omega), hlen, hwidth, hword,
        ← List.take_add]
      exact ⟨hfits, hsize, rfl⟩
    · rintro ⟨hfits, hsize, hbytes⟩
      have hne : identity ≠ [] := by
        rintro rfl
        rw [identityBytes, if_pos rfl, List.take_eq_nil_iff] at hbytes
        rcases hbytes with rfl | rfl <;> simp_all
      rw [identityBytes, if_neg hne] at hbytes
      have hlen := congrArg List.length hbytes
      rw [List.length_take_of_le (by omega), List.length_append, BigEndian.length_bytes] at hlen
      obtain ⟨tail, rfl⟩ : ∃ tail, rest = BigEndian.bytes 2 identity.length ++ (identity ++ tail) :=
        ⟨rest.drop size, by rw [← List.append_assoc, ← hbytes, List.take_append_drop]⟩
      have hvalue := BigEndian.value_bytes (Nat.lt_of_le_of_lt hfits hmax)
      simp only [hwidth, List.take_left' (BigEndian.length_bytes 2 _),
        List.drop_left' (BigEndian.length_bytes 2 _), hvalue, List.take_left, true_and]
      exact ⟨by omega, ⟨by simpa using hne, hfits, by omega⟩, by omega⟩

theorem length_identityBytes (h : identity.length ≤ maxIdentitySize) :
    (identityBytes identity).length ≤ 66 := by
  have hmax : maxIdentitySize = 64 := rfl
  unfold identityBytes
  split
  · exact Nat.zero_le _
  · rw [List.length_append, BigEndian.length_bytes]
    omega

/-- The reader's bound on the count, for a manifest of the right length. -/
theorem count_le_iff {count : UInt32} {size : ℕ} (h : size ≤ 66) :
    count ≤ UInt32.ofNat ((count.toNat * manifestRefSize + size) / manifestRefSize) ↔
      count.toNat + size / manifestRefSize < 2 ^ 32 := by
  have hcount := count.toNat_lt
  rw [UInt32.le_iff_toNat_le, UInt32.toNat_ofNat', manifestRefSize]
  omega

theorem decodeManifest_eq_ok {generation : UInt64} :
    decodeManifest hashing data = .ok (generation, refs, identity) ↔
      encodeManifest hashing generation refs identity = .ok data ∧ Ascending refs ∧
      refs.length + (identityBytes identity).length / manifestRefSize < 2 ^ 32 := by
  obtain ⟨magic, word, count, htags⟩ : ∃ magic word count,
      fields [8, 8, 4] data = [magic, word, count] := ⟨_, _, _, rfl⟩
  have hhdr : manifestHeaderSize = 20 := rfl
  have href : manifestRefSize = 16 := rfl
  have hcrcSize : manifestCRCSize = 4 := rfl
  rw [decodeManifest, htags]
  simp only [encodeManifest, seq_eq_ok, require_eq_ok, not_or, Nat.not_lt]
  rw [bind_eq_ok]
  simp only [seq_eq_ok, require_eq_ok]
  constructor
  · rintro ⟨⟨hlong, rfl⟩, hcount, ⟨hgeneration, hzero, hroom⟩, ⟨identity, size⟩, hidentity, hcrc, h⟩
    rw [bind_eq_ok] at h
    obtain ⟨refs, hrefs, heq⟩ := h
    cases heq
    obtain ⟨hfits, hsize, hid⟩ := decodeIdentity_eq_ok.mp hidentity
    obtain ⟨hlen, hcheck, hasc, hbytes⟩ := (decodeRefs_eq_ok (by rw [List.length_drop]; omega)
      List.Pairwise.nil).mp hrefs
    rw [List.length_drop] at hsize
    have hwidths := length_fields (show [8, 8, 4].sum ≤ data.length from by simp; omega)
    rw [htags] at hwidths
    simp only [List.map_cons, List.map_nil, List.cons.injEq, and_true] at hwidths
    have hheader : data.take manifestHeaderSize =
        (manifestHeader (BigEndian.toUInt64 word) refs.length).flatten := by
      rw [manifestHeader, BigEndian.uint64_toUInt64 hwidths.2.1, hlen, UInt32.ofNat_toNat,
        BigEndian.uint32_toUInt32 hwidths.2.2, ← htags, flatten_fields]
      rfl
    have hidLen : (identityBytes identity).length = size := by
      rw [← hid, List.length_take_of_le (by rw [List.length_drop]; omega)]
    have hstop : manifestHeaderSize + (BigEndian.toUInt32 count).toNat * manifestRefSize + size =
        data.length - archiveCRCSize := by
      rw [archiveCRCSize]
      omega
    have hbody : data.take (data.length - archiveCRCSize) =
        (manifestHeader (BigEndian.toUInt64 word) refs.length).flatten ++
          manifestPayload refs identity := by
      rw [← hstop, List.take_add, hid, List.take_add, ← hbytes, hheader, manifestPayload,
        List.append_assoc]
    rw [hstop] at hcrc
    refine ⟨⟨⟨hgeneration, ?_⟩, hfits, hcheck, ?_⟩, hasc, ?_⟩
    · rintro rfl
      exact hzero (UInt32.toNat_inj.mp hlen.symm)
    · rw [← hbody, ← sealed_take_drop (by rw [archiveCRCSize]; omega) hcrc.symm]
    · have hsum : data.length - manifestHeaderSize - manifestCRCSize =
          (BigEndian.toUInt32 count).toNat * manifestRefSize + size := by omega
      rw [hsum, count_le_iff (hidLen ▸ length_identityBytes hfits)] at hcount
      rwa [hlen, hidLen]
  · rintro ⟨⟨⟨hgeneration, hne⟩, hfits, hcheck, heq⟩, hasc, hcond⟩
    cases heq
    have hcountNat : (UInt32.ofNat refs.length).toNat = refs.length :=
      UInt32.toNat_ofNat_of_lt' (Nat.lt_of_le_of_lt (Nat.le_add_right _ _) hcond)
    have hlayout : (manifestHeader generation refs.length).map List.length = [8, 8, 4] := by
      simp [manifestHeader]
      rfl
    obtain ⟨hfields, hlen, hcrc, -⟩ := opens_sealed hashing hlayout (manifestPayload refs identity)
    rw [hfields, manifestHeader] at htags
    simp only [List.cons.injEq, and_true] at htags
    obtain ⟨rfl, rfl, rfl⟩ := htags
    set data := sealed hashing ((manifestHeader generation refs.length).flatten ++
      manifestPayload refs identity) with hdata
    set size := (identityBytes identity).length with hsize
    have hpay : (manifestPayload refs identity).length = refs.length * manifestRefSize + size := by
      rw [manifestPayload, List.length_append, length_parts]
    have htotal : data.length =
        manifestHeaderSize + refs.length * manifestRefSize + size + manifestCRCSize := by
      rw [hlen, hpay, ← Nat.add_assoc]
      rfl
    have hdrop : data.drop manifestHeaderSize = manifestPayload refs identity ++
        BigEndian.bytes 4 (hashing.crc32 ((manifestHeader generation refs.length).flatten ++
          manifestPayload refs identity)).toNat := by
      rw [hdata, sealed, List.append_assoc]
      apply List.drop_left'
      rw [List.length_flatten, hlayout]
      rfl
    have hsum : data.length - manifestHeaderSize - manifestCRCSize =
        (UInt32.ofNat refs.length).toNat * manifestRefSize + size := by
      rw [hcountNat]
      omega
    have hcount := (count_le_iff (length_identityBytes hfits)).mpr (hcountNat.symm ▸ hcond)
    have hpos : 0 < refs.length := List.length_pos_iff.mpr hne
    have hone : manifestRefSize ≤ refs.length * manifestRefSize := Nat.le_mul_of_pos_left _ hpos
    have hzero : UInt32.ofNat refs.length ≠ 0 := by
      intro hzero
      rw [hzero] at hcountNat
      exact hpos.ne hcountNat
    simp only [BigEndian.toUInt64_uint64, BigEndian.toUInt32_uint32, hsum]
    rw [hcountNat] at *
    have hstop : manifestHeaderSize + refs.length * manifestRefSize + size =
        data.length - archiveCRCSize := by
      rw [htotal, archiveCRCSize, hcrcSize, Nat.add_sub_cancel]
    refine ⟨⟨by omega, trivial⟩, hcount, ⟨hgeneration, hzero, by omega⟩, (identity, size),
      decodeIdentity_eq_ok.mpr ⟨hfits, ?_, ?_⟩, ?_, bind_eq_ok.mpr ⟨refs,
        (decodeRefs_eq_ok ?_ List.Pairwise.nil).mpr ⟨rfl, hcheck, hasc, ?_⟩, rfl⟩⟩
    · rw [List.length_drop]
      omega
    · rw [← List.drop_drop, hdrop, manifestPayload, List.append_assoc,
        List.drop_left' (length_parts refs), List.take_left]
    · rw [hstop]
      exact hcrc.symm
    · rw [List.length_drop]
      omega
    · rw [hdrop, manifestPayload, List.append_assoc, List.take_left' (length_parts refs)]

/-- The entries and manifests of the log are self-delimiting and canonical, except that the reader
refuses the largest manifests: those whose references and identity would fill `2 ^ 32` references.
The checksum functions are arbitrary. -/
theorem codec_canonical (update : UInt32 → ByteString → UInt32) (hashing : Hashing) :
    (∀ entry : Entry, entry.payload.length < 2 ^ 30 →
      (∀ rest, decodeEntry update (entry.encode update ++ rest) =
        .ok (entry, (entry.encode update).length)) ∧
      ∀ cut, cut <+: entry.encode update → cut ≠ entry.encode update →
        decodeEntry update cut = .error .unexpectedEOF) ∧
    (∀ data entry n, decodeEntry update data = .ok (entry, n) →
      n ≤ data.length ∧ entry.encode update = data.take n) ∧
    (∀ generation refs identity data, encodeManifest hashing generation refs identity = .ok data →
      Ascending refs → (decodeManifest hashing data = .ok (generation, refs, identity) ↔
        refs.length + (identityBytes identity).length / manifestRefSize < 2 ^ 32)) ∧
    ∀ data generation refs identity,
      decodeManifest hashing data = .ok (generation, refs, identity) →
        encodeManifest hashing generation refs identity = .ok data := by
  refine ⟨fun entry hlen => ?_, fun _ _ _ h => (decodeEntry_eq_ok h).2,
    fun _ _ _ _ hdata hasc => ?_,
    fun _ _ _ _ h => (decodeManifest_eq_ok.mp h).1⟩
  · have htake := @decodeEntry_take update entry hlen
    refine ⟨fun rest => ?_, fun cut hcut hne => ?_⟩
    · have hwhole := htake rest (entry.encode update ++ rest).length
      rwa [List.take_length, List.length_append, if_pos (Nat.le_add_right _ _)] at hwhole
    · have hshort := htake [] cut.length
      rwa [List.append_nil, ← List.prefix_iff_eq_take.mp hcut,
        if_neg fun hle => hne (hcut.eq_of_length_le hle)] at hshort
  · rw [decodeManifest_eq_ok, and_iff_right hdata, and_iff_right hasc]

/-- The segments after the first `i`, up to the active one at `count`. -/
def segments (count i n : ℕ) : List ManifestRef :=
  (List.range' i n).map fun i => ⟨UInt32.ofNat (i + 1), 0, i == count⟩

theorem toNat_segment {i : ℕ} (h : i + 1 < 2 ^ 32) : (UInt32.ofNat (i + 1)).toNat = i + 1 :=
  UInt32.toNat_ofNat_of_lt' h

theorem checkRefs_segments {count i n : ℕ} (h : count + 1 < 2 ^ 32) (hn : i + n = count + 1) :
    checkRefs (segments count i n) = .ok () := by
  induction n generalizing i with
  | zero => rfl
  | succ n ih =>
    have hindex : UInt32.ofNat (i + 1) ≠ 0 := by
      intro hzero
      have hnat := toNat_segment (show i + 1 < 2 ^ 32 by omega)
      rw [hzero] at hnat
      cases hnat
    rw [segments, List.range'_succ, List.map_cons, ← segments, checkRefs, seq_eq_ok, require_eq_ok]
    refine ⟨?_, ih (by omega)⟩
    have hlast : (segments count (i + 1) n).isEmpty = (i == count) := by
      rw [Bool.eq_iff_iff, List.isEmpty_iff, ← List.length_eq_zero_iff, segments]
      simp
      omega
    rintro (hzero | hplace | hlength)
    · exact hindex hzero
    · exact hplace hlast
    · exact hlength.2 rfl

theorem ascending_segments {count i n : ℕ} (h : i + n < 2 ^ 32) :
    Ascending (segments count i n) := by
  rw [Ascending, segments, List.pairwise_map]
  refine (List.pairwise_lt_range' 1).imp_of_mem ?_
  intro a b ha hb hlt
  rw [List.mem_range'_1] at ha hb
  rw [UInt32.lt_iff_toNat_lt, toNat_segment (by omega), toNat_segment (by omega)]
  omega

theorem manifest_unreadable : ∃ refs identity, Ascending refs ∧ ∀ hashing, ∃ data,
    encodeManifest hashing 1 refs identity = .ok data ∧
      decodeManifest hashing data ≠ .ok (1, refs, identity) := by
  set refs := segments (2 ^ 32 - 2) 0 (2 ^ 32 - 1) with hrefs
  have hlen : refs.length = 2 ^ 32 - 1 := by
    rw [hrefs, segments, List.length_map, List.length_range']
  have hne : ¬ ((1 : UInt64) = 0 ∨ refs = []) := by
    rintro (hzero | hnil)
    · cases hzero
    · rw [hnil] at hlen
      cases hlen
  have hcheck : checkRefs refs = .ok () := checkRefs_segments (by decide) (by decide)
  refine ⟨refs, List.replicate 14 7, ascending_segments (by decide), fun hashing =>
    ⟨_, seq_eq_ok.mpr ⟨require_eq_ok.mpr hne,
      seq_eq_ok.mpr ⟨rfl, seq_eq_ok.mpr ⟨hcheck, rfl⟩⟩⟩, ?_⟩⟩
  intro h
  have hroom := (decodeManifest_eq_ok.mp h).2.2
  rw [hlen] at hroom
  revert hroom
  decide

end Rhiza.QLog
