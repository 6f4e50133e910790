import Rhiza.Foundations.JsonRecord
import Rhiza.Foundations.Layout
import Rhiza.QuePaxa.Types

/-! # Archive extents

An extent is a run of decided values stored as one object of the archive: a header of fixed
fields, the payloads, and a checksum of both. The writer checks slots, payload sizes, value
hashes and the chain of prefix hashes; the reader checks its own list of conditions. Each of
the two is characterised by the extents it accepts and the bytes `extentBytes` they stand for.

The hash functions are parameters, and so is the validator of values that a node may install.
-/

namespace Rhiza.Recovery

open Foundations

/-- An array of 32 bytes. -/
abbrev Digest := { s : ByteString // s.length = 32 }

theorem length_copied (s : ByteString) : ((s ++ List.replicate 32 0).take 32).length = 32 := by
  simp

/-- Copies the bytes into an array of zeros. -/
def Digest.copy (s : ByteString) : Digest := ⟨(s ++ List.replicate 32 0).take 32, length_copied s⟩

@[simp] theorem Digest.copy_val (digest : Digest) : Digest.copy digest.1 = digest := by
  apply Subtype.ext
  exact List.take_left' digest.2

@[simp] theorem Digest.length_val (digest : Digest) : digest.1.length = 32 := digest.2

theorem Digest.val_copy {s : ByteString} (h : s.length = 32) : (Digest.copy s).1 = s :=
  List.take_left' h

structure Hashing where
  sha256 : ByteString → Digest
  crc32 : ByteString → UInt32

structure DecidedValue where
  slot : UInt64
  hash : Digest
  value : ByteString
  certificate : ByteString
deriving DecidableEq

structure Extent where
  configID : UInt64
  start : UInt64
  stop : UInt64
  startPrefix : Digest
  endPrefix : Digest
  previousHash : Digest
  previousObject : UInt64
  decisions : List DecidedValue

def extentHeaderSize : ℕ := 144
def archiveCRCSize : ℕ := 4
def maxExtentSize : ℕ := 8 * 2 ^ 20
def maxExtentItems : ℕ := 1024
def maxExtentPayload : ℕ := maxExtentSize - extentHeaderSize - archiveCRCSize - 8

def extentMagic : ByteString := bytesOf "RHZAEXT!"

def archiveDecisionSize (decision : DecidedValue) : ℕ :=
  8 + decision.value.length + decision.certificate.length

section Codec

variable (hashing : Hashing) (validateValue : Option (ByteString → Checked Unit))

def advancePrefixHash (previous : Digest) (slot : UInt64) (value : Digest) : Digest :=
  hashing.sha256
    (bytesOf "rhiza/decision-prefix" ++ [0] ++ previous.1 ++ BigEndian.uint64 slot ++ value.1)

def validateArchivePayload (value certificate : ByteString) : Checked Unit := do
  let limit := if validateValue.isSome then 256 * 2 ^ 10 else maxReplicatedValueBytes
  require (¬ (value = [] ∨ limit < value.length ∨ certificate = [] ∨
    maxExtentPayload < value.length ∨ maxExtentPayload - value.length < certificate.length))
    "invalid archive decision payload size"
  validateValue.elim (.ok ()) (· value)

/-- The writer's loop over the decisions: the size of the object and the prefix hash so far. -/
def checkDecisions : UInt64 → ℕ → Digest → List DecidedValue → Checked (ℕ × Digest)
  | _, size, digest, [] => .ok (size, digest)
  | slot, size, digest, decision :: rest => do
    require (decision.slot = slot ∧
      (validateArchivePayload validateValue decision.value decision.certificate).isOk ∧
      hashing.sha256 decision.value = decision.hash) "invalid archived decision size"
    require (archiveDecisionSize decision ≤ maxExtentSize - size) "invalid archive extent size"
    checkDecisions (slot + 1) (size + archiveDecisionSize decision)
      (advancePrefixHash hashing digest decision.slot decision.hash) rest

def decisionBytes (decision : DecidedValue) : ByteString :=
  BigEndian.bytes 4 decision.value.length ++ BigEndian.bytes 4 decision.certificate.length ++
    decision.value ++ decision.certificate

/-- The fields of the header; two of them are reserved. -/
def Extent.header (extent : Extent) (size : ℕ) : List ByteString :=
  [extentMagic, BigEndian.bytes 4 size, BigEndian.bytes 4 0, BigEndian.uint64 extent.configID,
    BigEndian.uint64 extent.start, BigEndian.bytes 4 extent.decisions.length, BigEndian.bytes 4 0,
    extent.startPrefix.1, extent.endPrefix.1, extent.previousHash.1,
    BigEndian.uint64 extent.previousObject]

/-- Appends the checksum. -/
def sealed (data : ByteString) : ByteString :=
  data ++ BigEndian.bytes 4 (hashing.crc32 data).toNat

def encodeExtentWithValueValidator (extent : Extent) : Checked ByteString := do
  require (extent.start ≠ 0 ∧ extent.decisions ≠ [] ∧
    extent.start.toNat + (extent.decisions.length - 1) < 2 ^ 64 ∧
    extent.stop = extent.start + UInt64.ofNat extent.decisions.length - 1)
    "invalid archive extent range"
  let (size, digest) ← checkDecisions hashing validateValue extent.start
    (extentHeaderSize + archiveCRCSize) extent.startPrefix extent.decisions
  require (size ≤ maxExtentSize ∧ extent.decisions.length ≤ maxExtentItems ∧
    digest = extent.endPrefix) "invalid archive extent size"
  .ok (sealed hashing ((extent.header size).flatten ++ extent.decisions.flatMap decisionBytes))

/-- The reader's loop over the decisions, and what it leaves. -/
def decodeDecisions : ℕ → UInt64 → ByteString → Checked (List DecidedValue × ByteString)
  | 0, _, data => .ok ([], data)
  | count + 1, slot, data => do
    require (8 ≤ data.length) "truncated archive decision"
    let valueLen := BigEndian.value (data.take 4)
    let certificateLen := BigEndian.value ((data.drop 4).take 4)
    let rest := data.drop 8
    require (¬ (valueLen = 0 ∨ certificateLen = 0 ∨ maxExtentPayload < valueLen ∨
      maxExtentPayload - valueLen < certificateLen ∨ rest.length < valueLen ∨
      rest.length - valueLen < certificateLen)) "invalid archive decision length"
    let value := rest.take valueLen
    let certificate := (rest.drop valueLen).take certificateLen
    validateArchivePayload validateValue value certificate
    let (decisions, left) ← decodeDecisions count (slot + 1)
      ((rest.drop valueLen).drop certificateLen)
    .ok ({ slot, hash := hashing.sha256 value, value, certificate } :: decisions, left)

def extentLayout : List ℕ := [8, 4, 4, 8, 8, 4, 4, 32, 32, 32, 8]

/-- A config id is a machine word, so reading one never overflows it. -/
def decodeExtentWithValueValidator (data : ByteString) : Checked Extent :=
  match fields extentLayout data with
  | [magic, size, reserved, config, start, count, reserved', startPrefix, endPrefix, previousHash,
      previousObject] => do
    require (extentHeaderSize + archiveCRCSize ≤ data.length ∧ data.length ≤ maxExtentSize ∧
      magic = extentMagic ∧ BigEndian.value size = data.length ∧ BigEndian.value reserved = 0 ∧
      BigEndian.value reserved' = 0) "invalid archive extent header"
    let body := data.take (data.length - archiveCRCSize)
    require ((hashing.crc32 body).toNat =
      BigEndian.value (data.drop (data.length - archiveCRCSize)))
      "archive extent checksum mismatch"
    let start := BigEndian.toUInt64 start
    let count := BigEndian.value count
    require (start ≠ 0 ∧ count ≠ 0 ∧ count ≤ maxExtentItems ∧ start.toNat + (count - 1) < 2 ^ 64)
      "invalid archive extent identity"
    let (decisions, left) ← decodeDecisions hashing validateValue count start
      (body.drop extentHeaderSize)
    require (left = []) "trailing archive extent data"
    .ok { configID := BigEndian.toUInt64 config, start
          stop := start + UInt64.ofNat count - 1
          startPrefix := .copy startPrefix, endPrefix := .copy endPrefix
          previousHash := .copy previousHash
          previousObject := BigEndian.toUInt64 previousObject, decisions }
  | _ => .error "invalid archive extent header"

end Codec

end Rhiza.Recovery
