import Rhiza.Recovery.ExtentCodec

/-! # Archive heads

The head names the newest extent of the archive and the base the extents start from: nothing, a
sealed checkpoint with the decision of its seal, or an anchor of a fenced generation. A
checkpoint base may also carry the anchor of its lineage, behind the decision and under the same
flag as an anchor base. The codec of checkpoint seals is a parameter.
-/

namespace Rhiza.Recovery

open Foundations

/-- Checkpoint seals: what a head compares of them, and how a decided value is read as one. -/
structure SealCodec where
  Seal : Type
  decEq : DecidableEq Seal
  index : Seal → UInt64
  prefixHash : Seal → Digest
  decodeCheckpointSeal : ByteString → Checked (Seal × Bool)

instance (codec : SealCodec) : DecidableEq codec.Seal := codec.decEq

structure ArchiveHead (Seal : Type) where
  configID : UInt64
  generation : UInt64
  base : UInt64
  basePrefix : Digest
  baseSeal : Option Seal
  baseDecision : Option DecidedValue
  baseAnchor : Option Digest
  lineageAnchor : Option Digest
  tip : UInt64
  tailHash : Digest
  tailObject : UInt64
  sealed : Bool

def headHeaderSize : ℕ := 128
def maxArchiveHeadSize : ℕ := headHeaderSize + 16 + maxExtentPayload + 32 + archiveCRCSize
def headHasBase : UInt32 := 1
def headSealed : UInt32 := 2
def headHasAnchor : UInt32 := 4

def headMagic : ByteString := bytesOf "RHZAHD2!"

def Digest.zero : Digest := .copy []

section Codec

variable (hashing : Hashing) (codec : SealCodec)

def encodeBaseDecision (decision : DecidedValue) : Checked ByteString := do
  require ((validateArchivePayload none decision.value decision.certificate).isOk ∧
    hashing.sha256 decision.value = decision.hash) "invalid archive base decision"
  .ok ([BigEndian.uint64 decision.slot, BigEndian.bytes 4 decision.value.length,
    BigEndian.bytes 4 decision.certificate.length].flatten ++
      (decision.value ++ decision.certificate))

def decodeBaseDecision (data : ByteString) : Checked DecidedValue :=
  match fields [8, 4, 4] data with
  | [slot, valueLen, certificateLen] => do
    require (16 ≤ data.length) "truncated archive base decision"
    let valueLen := BigEndian.value valueLen
    let certificateLen := BigEndian.value certificateLen
    let rest := data.drop 16
    require (¬ (valueLen = 0 ∨ certificateLen = 0 ∨ maxReplicatedValueBytes < valueLen ∨
      maxExtentPayload < valueLen ∨ maxExtentPayload - valueLen < certificateLen ∨
      rest.length < valueLen ∨ certificateLen ≠ rest.length - valueLen))
      "invalid archive base decision length"
    let value := rest.take valueLen
    .ok { slot := BigEndian.toUInt64 slot, hash := hashing.sha256 value, value
          certificate := rest.drop valueLen }
  | _ => .error "truncated archive base decision"

/-- The range checks that writer and reader share. -/
def ArchiveHead.InRange {Seal : Type} (head : ArchiveHead Seal) : Prop :=
  ¬ (head.tip < head.base ∨ ¬ (head.base < head.tip ↔ head.tailHash ≠ .zero) ∨
    ¬ (head.tailHash = .zero ↔ head.tailObject = 0) ∨ head.generation < head.tailObject)

instance {Seal : Type} (head : ArchiveHead Seal) : Decidable head.InRange :=
  inferInstanceAs (Decidable (¬ _))

/-- The payload of the base and its flag. -/
def encodeBase (head : ArchiveHead codec.Seal) : Checked (ByteString × UInt32) :=
  if head.base ≠ 0 then
    match head.baseAnchor, head.baseSeal, head.baseDecision with
    | some anchor, baseSeal, baseDecision => do
      require (anchor ≠ .zero ∧ baseSeal = none ∧ baseDecision = none)
        "archive head anchor is incomplete"
      .ok (anchor.1, headHasAnchor)
    | none, some baseSeal, some decision => do
      require (codec.index baseSeal = head.base ∧ codec.prefixHash baseSeal = head.basePrefix)
        "archive head base is incomplete"
      let data ← encodeBaseDecision hashing decision
      require ((codec.decodeCheckpointSeal decision.value).toOption = some (baseSeal, true))
        "archive base decision does not match checkpoint seal"
      .ok (data, headHasBase)
    | none, _, _ => .error "archive head base is incomplete"
  else do
    require (head.baseSeal = none ∧ head.baseDecision = none ∧ head.baseAnchor = none ∧
      head.basePrefix = .zero) "archive head has payload without base"
    .ok ([], 0)

/-- Adds the anchor of the lineage where the base is not that anchor itself. -/
def encodeLineage (head : ArchiveHead codec.Seal) (base : ByteString × UInt32) :
    Checked (ByteString × UInt32) :=
  match head.lineageAnchor with
  | none => .ok base
  | some anchor => do
    require (anchor ≠ .zero ∧ head.baseAnchor.all (anchor = ·))
      "archive head lineage anchor is incomplete"
    if head.baseAnchor = none then .ok (base.1 ++ anchor.1, base.2 ||| headHasAnchor)
    else .ok base

def ArchiveHead.header {Seal : Type} (head : ArchiveHead Seal) (size : ℕ) (flags : UInt32)
    (payload : ℕ) : List ByteString :=
  [headMagic, BigEndian.bytes 4 size, BigEndian.bytes 4 flags.toNat,
    BigEndian.uint64 head.configID, BigEndian.uint64 head.generation, BigEndian.uint64 head.base,
    head.basePrefix.1, BigEndian.uint64 head.tip, head.tailHash.1,
    BigEndian.uint64 head.tailObject, BigEndian.bytes 4 0, BigEndian.bytes 4 payload]

def encodeHead (head : ArchiveHead codec.Seal) : Checked ByteString := do
  require (head.InRange ∧ ¬ (head.tip = head.base ∧ 0 < head.base ∧ head.basePrefix = .zero))
    "invalid archive head range"
  let base ← encodeBase hashing codec head
  let (decisionData, flags) ← encodeLineage codec head base
  let flags := (if head.sealed then headSealed else 0) ||| flags
  let size := headHeaderSize + decisionData.length + archiveCRCSize
  require (size ≤ maxArchiveHeadSize) "archive head exceeds the size limit"
  .ok (sealed hashing ((head.header size flags decisionData.length).flatten ++ decisionData))

/-- The base that the flags and the payload stand for: seal, decision, anchor and lineage. -/
def decodeBase (flags : UInt32) (base : UInt64) (basePrefix : Digest) (payload : ByteString) :
    Checked (Option codec.Seal × Option DecidedValue × Option Digest × Option Digest) :=
  if flags &&& headHasBase = 0 ∧ flags &&& headHasAnchor = 0 then do
    require (base = 0 ∧ payload.length = 0 ∧ basePrefix = .zero)
      "invalid archive head without base"
    .ok (none, none, none, none)
  else if flags &&& headHasAnchor ≠ 0 ∧ flags &&& headHasBase = 0 then do
    require (base ≠ 0 ∧ basePrefix ≠ .zero ∧ payload.length = 32) "invalid archive anchor base"
    .ok (none, none, some (.copy payload), some (.copy payload))
  else do
    require (base ≠ 0 ∧ basePrefix ≠ .zero ∧ payload.length ≠ 0)
      "invalid archive head recovery base"
    require (flags &&& headHasAnchor = 0 ∨ 32 < payload.length) "invalid archive lineage anchor"
    let length := if flags &&& headHasAnchor = 0 then payload.length else payload.length - 32
    let decision ← decodeBaseDecision hashing (payload.take length)
    let (baseSeal, checkpoint) ← codec.decodeCheckpointSeal decision.value
    require (checkpoint = true) "archive base payload is not a checkpoint seal"
    require (codec.index baseSeal = base ∧ codec.prefixHash baseSeal = basePrefix)
      "archive recovery base does not match head"
    .ok (some baseSeal, some decision, none,
      if flags &&& headHasAnchor = 0 then none else some (.copy (payload.drop length)))

def headLayout : List ℕ := [8, 4, 4, 8, 8, 8, 32, 8, 32, 8, 4, 4]

def decodeHead (data : ByteString) : Checked (ArchiveHead codec.Seal) :=
  match fields headLayout data with
  | [magic, size, flags, config, generation, base, basePrefix, tip, tailHash, tailObject, sealLen,
      decisionLen] => do
    require (headHeaderSize + archiveCRCSize ≤ data.length ∧ data.length ≤ maxArchiveHeadSize ∧
      magic = headMagic ∧ BigEndian.value size = data.length) "invalid archive head header"
    let flags := UInt32.ofNat (BigEndian.value flags)
    require (flags &&& ~~~(headHasBase ||| headSealed ||| headHasAnchor) = 0)
      "unknown archive head flags"
    let body := data.take (data.length - archiveCRCSize)
    require ((hashing.crc32 body).toNat =
      BigEndian.value (data.drop (data.length - archiveCRCSize))) "archive head checksum mismatch"
    let payload := body.drop headHeaderSize
    require (BigEndian.value sealLen = 0 ∧ BigEndian.value decisionLen = payload.length)
      "invalid archive head payload length"
    let base := BigEndian.toUInt64 base
    let (baseSeal, baseDecision, baseAnchor, lineageAnchor) ←
      decodeBase hashing codec flags base (.copy basePrefix) payload
    let head : ArchiveHead codec.Seal :=
      { configID := BigEndian.toUInt64 config, generation := BigEndian.toUInt64 generation, base
        basePrefix := .copy basePrefix, baseSeal, baseDecision, baseAnchor, lineageAnchor
        tip := BigEndian.toUInt64 tip, tailHash := .copy tailHash
        tailObject := BigEndian.toUInt64 tailObject, sealed := flags &&& headSealed ≠ 0 }
    require head.InRange "invalid archive head range"
    .ok head
  | _ => .error "invalid archive head header"

end Codec

end Rhiza.Recovery
