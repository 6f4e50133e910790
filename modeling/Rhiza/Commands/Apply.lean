import Rhiza.Commands.Ingress

/-! # The checks before a decided value is executed

What `ApplyBatch` checks of a decided value before it executes anything: the execution
policy, the decoders, and the checks of each decoded command. A failed check fails the slot,
on every node and on every retry. Graph commands and control values have their own decoders;
the payload of a graph batch is left to a parameter.
-/

namespace Rhiza.Commands

open Foundations

/-- The decoders of the values this development does not look into. -/
structure Controls where
  codec : Codec
  parseGraphBatch : ByteString → Checked Unit

/-- A value as the replication core's decoders read it. -/
def coreBytes (value : ByteString) : QuePaxa.Bytes := value.map UInt8.toFin

def decodeReadBarrier (value : ByteString) : Checked Bool :=
  QuePaxa.decodeReadBarrier (coreBytes value)

namespace Controls

variable (controls : Controls)

/-- Whether the value is a graph batch. -/
def decodeGraphBatch (value : ByteString) : Checked Bool :=
  if ¬ (bytesOf "QGRB").isPrefixOf value then .ok false
  else if ¬ graphBatchMagic.isPrefixOf value then .error "unsupported graph batch policy"
  else do
    controls.parseGraphBatch (value.drop graphBatchMagic.length)
    .ok true

def decodeCheckpointSeal (value : ByteString) : Checked Bool :=
  Option.isSome <$> controls.codec.decodeCheckpointSeal (coreBytes value)

def decodeLeaderSchedule (value : ByteString) : Checked Bool :=
  Option.isSome <$> controls.codec.decodeLeaderSchedule (coreBytes value)

def decodeReconfiguration (value : ByteString) : Checked Bool :=
  Option.isSome <$> controls.codec.decodeReconfiguration (coreBytes value)

end Controls

variable (lib : Library) (controls : Controls) {magic : ByteString}

/-- Tries the decoders in turn; the first that knows the value or fails on it decides. -/
def firstKnown : List (Checked Bool) → Checked Unit
  | [] => .error "incompatible SQL policy"
  | .error message :: _ => .error message
  | .ok true :: _ => .ok ()
  | .ok false :: rest => firstKnown rest

/-- Rejects a history this version does not know before any engine changes. -/
def validateExecutionPolicy (value : ByteString) : Checked Unit :=
  firstKnown
    [Option.isSome <$> decodeSQLBatch lib value, controls.decodeGraphBatch value,
      Option.isSome <$> decodeKVBatch value, Option.isSome <$> decodeKVCommand value,
      Option.isSome <$> decodeNotifyCommand value, decodeReadBarrier value,
      controls.decodeCheckpointSeal value, controls.decodeLeaderSchedule value,
      controls.decodeReconfiguration value]

def checkNotify (command : NotifyCommand) : Checked Unit :=
  require (command.requestID ≠ [] ∧ command.requestID.length ≤ maxRequestIDBytes ∧
    command.topic ≠ [] ∧ command.topic.length ≤ 256 ∧ command.payload.length ≤ 2 ^ 20)
    "invalid notification"

def checkKV (command : KVCommand) : Checked Unit := do
  require (command.requestID ≠ [] ∧ command.requestID.length ≤ maxRequestIDBytes ∧
    command.key ≠ [] ∧ command.key.length ≤ 1024 ∧ command.value.length ≤ 16 * 2 ^ 20)
    "invalid KV command"
  require (command.operation ∈ kvOperations) "invalid KV operation"

def checkSQL (command : SQLCommand lib.Float) : Checked Unit := do
  validateSQLCommand lib command
  let _ ← orElseError "encode SQL request" (sqlFingerprintItem lib command)
  .ok ()

/-- The control value, if it is one: read barriers, leader schedules, checkpoint seals and
reconfigurations execute nothing. -/
def decodeControl (value : ByteString) : Checked Bool := do
  let barrier ← decodeReadBarrier value
  if barrier then return true
  let schedule ← controls.decodeLeaderSchedule value
  if schedule then return true
  let checkpoint ← controls.decodeCheckpointSeal value
  if checkpoint then return true
  controls.decodeReconfiguration value

/-- What a decided value asks of the database. -/
inductive Payload (Float : Type) where
  | sql (commands : List (SQLCommand Float))
  | kv (commands : List KVCommand)
  | notify (command : NotifyCommand)
  | graph
  | control

namespace Payload

variable {Float : Type}

def isControl : Payload Float → Bool
  | .control => true
  | _ => false

def mutatesState : Payload Float → Bool
  | .sql commands => !commands.isEmpty
  | .control => false
  | _ => true

end Payload

/-- The decoders of `applyValueLocked`. -/
def decodeValue (value : ByteString) : Checked (Payload lib.Float) := do
  let graph ← controls.decodeGraphBatch value
  let notify ← decodeNotifyCommand value
  let kv ← decodeKVCommand value
  let kvBatch ← decodeKVBatch value
  let batch ← decodeSQLBatch lib value
  let control ← decodeControl controls value
  match notify, kv, kvBatch with
  | some command, _, _ => .ok (.notify command)
  | none, some command, _ => .ok (.kv [command])
  | none, none, some commands => .ok (.kv commands)
  | none, none, none =>
    if graph then .ok .graph
    else if control then .ok .control
    else
      match batch with
      | some commands => .ok (.sql commands)
      | none => .error "incompatible SQL policy"

/-- The checks `applyValueLocked` makes of the commands of a value. -/
def checkCommands (value : ByteString) : Checked Unit := do
  match ← decodeValue lib controls value with
  | .notify command => checkNotify command
  | .kv commands => requireAll checkKV commands
  | .sql commands => requireAll (checkSQL lib) commands
  | .graph | .control => .ok ()

/-- All checks before the value is executed. -/
def applyChecks (value : ByteString) : Checked Unit := do
  validateExecutionPolicy lib controls value
  checkCommands lib controls value

/-! ## Values of other kinds -/

/-- A value behind a magic that none of the core's control values has. -/
structure Foreign (magic : ByteString) : Prop where
  length : magic.length = 5
  barrier : QuePaxa.readBarrierMagic ≠ coreBytes magic
  schedule : QuePaxa.leaderScheduleMagic ≠ coreBytes magic
  checkpoint : QuePaxa.checkpointSealMagic ≠ coreBytes magic
  reconfiguration : QuePaxa.reconfigurationMagic ≠ coreBytes magic

theorem not_isPrefixOf_coreBytes {other : QuePaxa.Bytes}
    (hlen : magic.length = 5) (hother : other.length =
      5) (hne : other ≠ coreBytes magic) (rest : ByteString) :
    other.isPrefixOf (coreBytes (magic ++ rest)) = false := by
  rw [Bool.eq_false_iff]
  intro h
  have hhead := List.isPrefixOf_iff_prefix.mp h
  rw [coreBytes, List.map_append] at hhead
  refine hne (List.IsPrefix.eq_of_length ?_ (by simp [coreBytes, hlen, hother]))
  exact List.prefix_of_prefix_length_le hhead (List.prefix_append _ _)
    (by simp [coreBytes, hlen, hother])

theorem Foreign.decodeControl (h : Foreign magic) (rest : ByteString) :
    decodeControl controls (magic ++ rest) = .ok false := by
  have hbar := not_isPrefixOf_coreBytes h.length rfl h.barrier rest
  have hplan := not_isPrefixOf_coreBytes h.length rfl h.schedule rest
  have hseal := not_isPrefixOf_coreBytes h.length rfl h.checkpoint rest
  have hreconfiguration := not_isPrefixOf_coreBytes h.length rfl h.reconfiguration rest
  simp only [Commands.decodeControl, Commands.decodeReadBarrier, QuePaxa.decodeReadBarrier,
    hbar, Controls.decodeLeaderSchedule, QuePaxa.Codec.decodeLeaderSchedule, hplan,
    Controls.decodeCheckpointSeal, QuePaxa.Codec.decodeCheckpointSeal, hseal,
    Controls.decodeReconfiguration, QuePaxa.Codec.decodeReconfiguration, hreconfiguration,
    Bool.false_eq_true, if_false]
  rfl

end Rhiza.Commands
