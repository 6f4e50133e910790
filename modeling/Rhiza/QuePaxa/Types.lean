import Mathlib.Algebra.Ring.Nat
import Mathlib.Data.Prod.Lex
import Mathlib.Data.List.Lex
import Mathlib.Data.Finset.Dedup
import Mathlib.Order.Fin.Basic

/-! # Wire types and their decoders

The wire types of the replication core. Slots and steps are natural numbers; four
consecutive steps form one round. Byte strings are lists of bytes, so that their
lexicographic order is the one identifiers are compared by. The strict JSON parsers
and the hash functions of the standard library are parameters, gathered in a
`Codec`; the magic prefixes and the field checks around them are written out.
-/

namespace Rhiza.QuePaxa

abbrev Byte := Fin 256
abbrev Bytes := List Byte
abbrev NodeID := Bytes

instance byte_neZero : NeZero 256 := ⟨by decide⟩
instance : LawfulBEq Bytes := inferInstance

/-- A 256-bit digest, read as a number. Zero is the digest no value has. -/
abbrev ValueHash := ℕ

def leaderEpochSize : ℕ := 16
def readBarrierNonceSize : ℕ := 16
def maxReplicatedValueBytes : ℕ := 128 * 1024

-- "QLDR", "QRDB", "QCKP" and "QRCF", each closed by a zero byte.
def leaderScheduleMagic : Bytes := [81, 76, 68, 82, 0]
def readBarrierMagic : Bytes := [81, 82, 68, 66, 0]
def checkpointSealMagic : Bytes := [81, 67, 75, 80, 0]
def reconfigurationMagic : Bytes := [81, 82, 67, 70, 0]

/-- One cluster member. It carries only public identity. -/
structure Member where
  id : NodeID
  url : Bytes
  peerURL : Bytes
  logURL : Bytes
  publicKey : Bytes
  walIdentity : Bytes
deriving DecidableEq, Repr

/-- One voter configuration. -/
structure Cluster where
  configID : ℕ
  members : List Member
deriving DecidableEq, Repr

namespace Cluster

def quorumSize (cluster : Cluster) : ℕ := cluster.members.length / 2 + 1

def memberIDs (cluster : Cluster) : List NodeID := cluster.members.map Member.id

end Cluster

/-- A freeze or terminal control of a membership change. -/
structure ReconfigurationValue where
  terminal : Bool
  abort : Bool
  freeze : ℕ
  terminalSlot : ℕ
  target : Cluster
  prefixHash : ValueHash
deriving DecidableEq, Repr

/-- A 256-bit proposal priority, read as a big-endian number. -/
abbrev Priority := Fin (2 ^ 256)

instance priority_neZero : NeZero (2 ^ 256) := ⟨(Nat.two_pow_pos 256).ne'⟩

/-- A ranked offer of a value, named by its hash; the bytes may be absent. -/
structure Proposal where
  priority : Priority
  proposerID : NodeID
  hash : ValueHash
  value : Bytes
deriving DecidableEq, Repr

/-- A proposer's offer to one recorder. -/
structure RecordRequest where
  slot : ℕ
  step : ℕ
  configID : ℕ
  reconfigurationID : ValueHash
  proposal : Proposal
deriving DecidableEq, Repr

/-- A recorder's answer. -/
structure Summary where
  recorderID : NodeID
  reconfigurationID : ValueHash
  step : ℕ
  firstCurrent : Option Proposal
  aggregatePrior : Option Proposal
deriving DecidableEq, Repr

/-- A decision with its quorum evidence. -/
structure Decision where
  configID : ℕ
  slot : ℕ
  step : ℕ
  proposal : Proposal
  summaries : List Summary
deriving DecidableEq, Repr

/-- A decision without value bytes, bound to the configuration that certified it. -/
structure Certificate where
  configID : ℕ
  decision : Decision
deriving DecidableEq, Repr

def Proposal.ref (proposal : Proposal) : Proposal := { proposal with value := [] }

def Summary.ref (summary : Summary) : Summary :=
  { summary with
    firstCurrent := summary.firstCurrent.map Proposal.ref
    aggregatePrior := summary.aggregatePrior.map Proposal.ref }

/-- The certificate keeps references only: no proposal in it carries its value. -/
def encodeCertificate (configID : ℕ) (decision : Decision) : Certificate where
  configID
  decision :=
    { decision with
      configID := 0
      proposal := decision.proposal.ref
      summaries := decision.summaries.map Summary.ref }

/-- The durable value and quorum certificate bound to a slot. -/
structure DecidedValue where
  slot : ℕ
  hash : ValueHash
  value : Bytes
  certificate : Certificate
deriving DecidableEq, Repr

/-- The certified decision with its value put back. -/
def DecidedValue.decision (decided : DecidedValue) : Decision :=
  { decided.certificate.decision with
    proposal := { decided.certificate.decision.proposal with value := decided.value } }

/-- A completed freeze and terminal pair. -/
structure ConfigTransition where
  freeze : DecidedValue
  terminal : DecidedValue
deriving DecidableEq, Repr

/-- The genesis configuration, every completed transition, and the latest abort. -/
structure MembershipRecord where
  genesis : Cluster
  transitions : List ConfigTransition
  abort : Option ConfigTransition
deriving DecidableEq, Repr

structure CheckpointSeal where
  configID : ℕ
  index : ℕ
  rootHash : ValueHash
  stateHash : ValueHash
  prefixHash : ValueHash
  nextLeaderOrder : List NodeID
  followingLeaderOrder : List NodeID
  membership : Option MembershipRecord
  generationAnchorHash : ValueHash
deriving DecidableEq, Repr

/-- The strict decoders and hash functions the core is built on. -/
structure Codec where
  sha256 : Bytes → ValueHash
  advancePrefixHash : ValueHash → ℕ → ValueHash → ValueHash
  parseReconfiguration : Bytes → Except String ReconfigurationValue
  parseLeaderSchedule : Bytes → Except String (List NodeID)
  parseCheckpointSeal : Bytes → Except String CheckpointSeal
  /-- The value validator installed at construction, if any. -/
  validateValue : Option (Bytes → Except String Unit)

namespace Codec

variable (codec : Codec)

def decodeReconfiguration (value : Bytes) : Except String (Option ReconfigurationValue) :=
  if reconfigurationMagic.isPrefixOf value then
    match codec.parseReconfiguration (value.drop reconfigurationMagic.length) with
    | .error err => .error err
    | .ok decoded =>
      if decoded.abort ∧ ¬ decoded.terminal then .error "invalid reconfiguration abort"
      else if decoded.freeze = 0 ∨ decoded.terminalSlot ≠ decoded.freeze + 16 ∨
          decoded.target.configID = 0 ∨ decoded.target.members = [] then
        .error "invalid reconfiguration value"
      else .ok (some decoded)
  else .ok none

/-- Whether the value is a terminal control. -/
def isTerminal (value : Bytes) : Bool :=
  match codec.decodeReconfiguration value with
  | .ok (some control) => control.terminal
  | _ => false

def decodeLeaderSchedule (value : Bytes) : Except String (Option (List NodeID)) :=
  if leaderScheduleMagic.isPrefixOf value then
    match codec.parseLeaderSchedule (value.drop leaderScheduleMagic.length) with
    | .error err => .error err
    | .ok members => if members = [] then .error "empty leader schedule" else .ok (some members)
  else .ok none

def decodeCheckpointSeal (value : Bytes) : Except String (Option CheckpointSeal) :=
  if checkpointSealMagic.isPrefixOf value then
    match codec.parseCheckpointSeal (value.drop checkpointSealMagic.length) with
    | .error err => .error err
    | .ok decoded =>
      if value.length > maxReplicatedValueBytes ∨ decoded.index = 0 ∨ decoded.rootHash = 0 ∨
          decoded.stateHash = 0 ∨ decoded.prefixHash = 0 ∨ decoded.nextLeaderOrder = [] then
        .error "invalid checkpoint seal"
      else .ok (some decoded)
  else .ok none

/-- Only a validator installed by the owner may admit more than the legacy bound. -/
def checkValue (value : Bytes) : Except String Unit :=
  match codec.validateValue with
  | some validate =>
    if value.length > 256 * 1024 then .error "profile value exceeds absolute envelope"
    else validate value
  | none =>
    if value.length > maxReplicatedValueBytes then .error "QuePaxa value exceeds 131072 bytes"
    else .ok ()

end Codec

/-- The bytes as digits of a number in base 257, least significant first. It stands
in for the digest in concrete runs. -/
def digest : Bytes → ℕ
  | [] => 0
  | byte :: rest => byte.val + 1 + 257 * digest rest

theorem digest_injective : Function.Injective digest := by
  intro left right heq
  induction left generalizing right with
  | nil =>
    cases right with
    | nil => rfl
    | cons => simp only [digest] at heq; omega
  | cons byte rest ih =>
    cases right with
    | nil => simp only [digest] at heq; omega
    | cons byte' rest' =>
      simp only [digest] at heq
      have hbyte : byte.val = byte'.val := by omega
      have hrest : digest rest = digest rest' := by omega
      rw [Fin.ext hbyte, ih hrest]

/-- A codec whose controls are listed, for concrete runs. -/
def Codec.tabled (controls : List (Bytes × ReconfigurationValue)) : Codec where
  sha256 := digest
  advancePrefixHash prior slot hash := prior + slot + hash + 1
  parseReconfiguration value :=
    match controls.lookup value with
    | some control => .ok control
    | none => .error "unlisted control"
  parseLeaderSchedule _ := .error "unlisted schedule"
  parseCheckpointSeal _ := .error "unlisted seal"
  validateValue := none

def decodeReadBarrier (value : Bytes) : Except String Bool :=
  if readBarrierMagic.isPrefixOf value then
    if value.length = readBarrierMagic.length + readBarrierNonceSize then .ok true
    else .error "invalid read barrier nonce"
  else .ok false

/-- A canonical hexadecimal digit: `0`-`9` or `a`-`f`. -/
def isHexDigit (byte : Byte) : Bool :=
  (48 ≤ byte && byte ≤ 57) || (97 ≤ byte && byte ≤ 102)

/-- The text names thirty-two bytes in canonical hexadecimal. -/
def isWALIdentity (text : Bytes) : Bool := text.length == 64 && text.all isHexDigit

/-- Whether the target names a member the current configuration lacks. -/
def reconfigurationAdds (current target : Cluster) : Bool :=
  target.members.any fun member => !(current.memberIDs.contains member.id)

/-- A single voter is added or removed, retained members keep their identity, and
an added member is neither retired nor without a write-ahead-log identity. -/
def validateReconfigurationTarget (current target : Cluster) (retiredIDs : Finset NodeID) :
    Except String Unit :=
  if target.configID ≠ current.configID + 1 ∨ target.members = [] then
    .error "invalid reconfiguration target"
  else if ¬ target.memberIDs.Nodup then .error "duplicate target member"
  else if target.members.any (·.id = []) then .error "target member ID is required"
  else if current.members.any (fun old =>
      target.members.any fun next => next.id = old.id && next != old) then
    .error "retained member changed identity"
  else
    let removed := current.members.filter fun old => !(target.memberIDs.contains old.id)
    let added := target.members.filter fun next => !(current.memberIDs.contains next.id)
    if added.any (fun next => next.id ∈ retiredIDs) then .error "member ID was retired"
    else if added.any (fun next => !isWALIdentity next.walIdentity) then
      .error "added member has invalid WAL identity"
    else if added.length + removed.length ≠ 1 then
      .error "reconfiguration must add or remove exactly one voter"
    else .ok ()

/-- The order lists every member of the configuration exactly once. -/
def validateLeaderSchedule (cluster : Cluster) (order : List NodeID) : Bool :=
  order.length == cluster.members.length && order.all (cluster.memberIDs.contains ·) &&
    order.Nodup

def rotateMembers (members : List Member) (first : ℕ) : List NodeID :=
  (List.range members.length).filterMap fun offset =>
    (members[(first + offset) % members.length]?).map Member.id

end Rhiza.QuePaxa

namespace Rhiza

export QuePaxa (Codec ValueHash maxReplicatedValueBytes)

end Rhiza
