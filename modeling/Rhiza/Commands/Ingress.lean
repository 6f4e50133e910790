import Rhiza.Commands.RoundTrip
import Rhiza.Commands.Validate
import Rhiza.QuePaxa.Types

/-! # Submitting a mutation

What the server checks before a mutation reaches the batcher or a proposal, and how the
batcher builds the proposed value. The checks that depend on the server's state rather than
on the command (readiness, the admission lease, the request lock, an earlier receipt) can
only refuse; a command that passes the checks below may still be refused by them. Copying an
accepted command does not change it.
-/

namespace Rhiza.Commands

open Foundations

/-! ## The charge of a mutation -/

def maxMutationCharge : ℕ := 2 ^ 20
def maxMutationDepth : ℕ := 32
def maxMutationNodes : ℕ := 65536

structure ChargeState where
  bytes : ℕ
  nodes : ℕ

namespace ChargeState

/-- A charge beyond the limit sticks one above it. -/
def addAmount (state : ChargeState) (n : ℕ) : ChargeState :=
  if n > maxMutationCharge - state.bytes then { state with bytes := maxMutationCharge + 1 }
  else { state with bytes := state.bytes + n }

def addString (state : ChargeState) (s : ByteString) : ChargeState :=
  if s.length > maxMutationCharge / 13 then { state with bytes := maxMutationCharge + 1 }
  else state.addAmount (32 + 13 * s.length)

def addBlob (state : ChargeState) (b : ByteString) : ChargeState :=
  if b.length > maxMutationCharge / 5 then { state with bytes := maxMutationCharge + 1 }
  else state.addAmount (32 + 5 * b.length)

/-- The entry of every value: one node, within the depth. -/
def enter (state : ChargeState) (depth : ℕ) : Checked ChargeState :=
  if state.nodes + 1 > maxMutationNodes ∨ depth > maxMutationDepth then .error "invalid request"
  else .ok ({ state with nodes := state.nodes + 1 }.addAmount 32)

def leave (state : ChargeState) : Checked ChargeState :=
  if state.bytes > maxMutationCharge then .error "invalid request" else .ok state

def container (state : ChargeState) (count base each : ℕ) : Checked ChargeState :=
  if count > maxMutationNodes then .error "invalid request"
  else .ok (state.addAmount (base + each * count))

end ChargeState

section SQL

variable (lib : Library)

mutual

def Arg.charge (depth : ℕ) : Arg lib.Float → ChargeState → Checked ChargeState
  | .nil, state | .bool _, state | .int _, state | .uint _, state | .float32 _, state
  | .float _, state => do
    let state ← state.enter depth
    state.leave
  | .string s, state | .number s, state => do
    let state ← state.enter depth
    (state.addString s).leave
  | .bytes b, state => do
    let state ← state.enter depth
    (state.addBlob b).leave
  | .list items, state => do
    let state ← state.enter depth
    let state ← state.container items.length 64 16
    let state ← Arg.chargeItems (depth + 1) items state
    state.leave
  | .map entries, state => do
    let state ← state.enter depth
    let state ← state.container entries.length 64 32
    let state ← Arg.chargeEntries (depth + 1) entries state
    state.leave

def Arg.chargeItems (depth : ℕ) : List (Arg lib.Float) → ChargeState → Checked ChargeState
  | [], state => .ok state
  | item :: items, state => do
    let state ← item.charge depth state
    Arg.chargeItems depth items state

def Arg.chargeEntries (depth : ℕ) :
    List (ByteString × Arg lib.Float) → ChargeState → Checked ChargeState
  | [], state => .ok state
  | (key, value) :: entries, state => do
    let state ← value.charge depth (state.addString key)
    Arg.chargeEntries depth entries state

end

def chargeStatements :
    List (SQLStatement lib.Float) → ChargeState → Checked ChargeState
  | [], state => .ok state
  | statement :: statements, state => do
    let state ← Arg.charge lib 1 (.list statement.args) (state.addString statement.sql)
    let state ← state.container statement.outputRefs.length 0 32
    chargeStatements statements
      (statement.outputRefs.foldl (fun state ref => state.addString ref.columnName) state)

def mutationChargeSQL (command : SQLCommand lib.Float) : Checked ChargeState := do
  let state ← (ChargeState.mk 0 0).enter 0
  let state ← Arg.charge lib 1 (.list command.args)
    ((state.addString command.requestID).addString command.sql)
  let state ← state.container command.statements.length 64 64
  let state ← chargeStatements lib command.statements state
  match command.migration with
  | none => state.leave
  | some migration => ((state.addString migration.name).addString migration.checksum).leave

end SQL

def mutationChargeKV (command : KVCommand) : Checked ChargeState := do
  let state ← (ChargeState.mk 0 0).enter 0
  (((((state.addString command.requestID).addString command.operation).addString
    command.key).addBlob command.value).addBlob command.expected).leave

def mutationChargeNotify (command : NotifyCommand) : Checked ChargeState := do
  let state ← (ChargeState.mk 0 0).enter 0
  (((state.addString command.requestID).addString command.topic).addBlob command.payload).leave

/-! ## SQL -/

structure ExecuteRequest (Float : Type) where
  requestID : ByteString
  sql : ByteString
  args : List (Arg Float)
  wantRows : Bool
  requireOne : Bool
  statements : List (SQLStatement Float)

def ExecuteRequest.command {Float : Type} (request : ExecuteRequest Float) : SQLCommand Float :=
  { requestID := request.requestID, sql := request.sql, args := request.args
    wantRows := request.wantRows, requireOne := request.requireOne
    statements := request.statements, migration := none }

/-- Fails with the message when there is no value. -/
def orElseError {α : Type} (message : String) : Option α → Checked α
  | some value => .ok value
  | none => .error message

/-- The bytes a fingerprint of the command is the digest of. -/
def sqlFingerprintItem (lib : Library) (command : SQLCommand lib.Float) : Option ByteString :=
  encodeSQLBatchItem lib { command with requestID := [] }

/-- The checks of `execute`; the result is the encoded item given to the batcher. -/
def execute (lib : Library) (oneStatement : Bool) (request : ExecuteRequest lib.Float) :
    Checked ByteString := do
  let _ ← mutationChargeSQL lib request.command
  require (¬ (oneStatement ∧ request.statements.length ≠ 0))
    "ExecuteReturning accepts one SQL statement"
  require (request.requestID ≠ []) "request_id is required"
  validateSQLCommand lib request.command
  let _ ← orElseError "encode SQL command" (sqlFingerprintItem lib request.command)
  let encoded ← orElseError "encode SQL command" (encodeSQLBatchItem lib request.command)
  require ((assembleBatch sqlBatchMagic [encoded]).length ≤ maxReplicatedValueBytes)
    "encoded command exceeds 131072 bytes"
  .ok encoded

/-! ## Keys and values, notifications -/

def kvOperations : List ByteString := [bytesOf "put", bytesOf "delete", bytesOf "cas"]

/-- The checks of `KVMutate` on the client's intent, and the command it submits at a time. -/
def kvMutate (now : Int64) (intent : KVCommand) : Checked KVCommand := do
  let _ ← mutationChargeKV intent
  require (intent.operation ∈ kvOperations) "invalid request"
  require (intent.requestID ≠ [] ∧ intent.requestID.length ≤ maxRequestIDBytes ∧
    intent.key ≠ [] ∧ intent.key.length ≤ 1024 ∧ 0 ≤ intent.ttlMS ∧
    intent.value.length ≤ 16 * 2 ^ 20) "invalid request"
  require (intent.ttlMS.toInt ≤ 2 ^ 63 - 1 - now.toInt) "invalid request"
  .ok { intent with
    observedAtUnixMS := now
    expiresAtUnixMS := if 0 < intent.ttlMS then now + intent.ttlMS else intent.expiresAtUnixMS }

/-- The checks of `NotifyPublish`; the result is the proposed value. -/
def notifyPublish (command : NotifyCommand) : Checked ByteString := do
  let _ ← mutationChargeNotify command
  require (command.requestID ≠ [] ∧ command.requestID.length ≤ maxRequestIDBytes ∧
    command.topic ≠ [] ∧ command.topic.length ≤ 256 ∧ command.payload.length ≤ 2 ^ 20)
    "invalid request"
  require ((encodeNotifyCommand command).length ≤ maxReplicatedValueBytes)
    "encoded command exceeds 131072 bytes"
  .ok (encodeNotifyCommand command)

/-! ## Batches -/

def maxMutationBatch : ℕ := maxSQLCommandsPerDecidedValue
def targetBatchBytes : ℕ := 64 * 1024

/-- A queued mutation. Its caller may have given up before the batch is dispatched. -/
structure BatchItem (Command : Type) where
  command : Command
  encoded : ByteString
  cancelled : Bool

section Batch

variable {Command : Type} {arrivals : List (BatchItem Command)} {item : BatchItem Command}
  {magic : ByteString}

/-- The items that join a batch of a count and a size, of those that arrive while the batcher
lingers. -/
def collect : ℕ → ℕ → List (BatchItem Command) → List (BatchItem Command)
  | _, _, [] => []
  | count, size, next :: arrivals =>
    if count < maxMutationBatch ∧ size < targetBatchBytes ∧
        size + 1 + next.encoded.length ≤ maxReplicatedValueBytes then
      next :: collect (count + 1) (size + 1 + next.encoded.length) arrivals
    else []

/-- The items of a batch that are still wanted when it is dispatched. -/
def active (magic : ByteString) (first : BatchItem Command) (arrivals : List (BatchItem Command)) :
    List (BatchItem Command) :=
  (first :: collect 1 ((assembleBatch magic []).length + first.encoded.length) arrivals).filter
    fun item => !item.cancelled

/-- The value proposed for a batch, if any. -/
def dispatch (magic : ByteString) (items : List (BatchItem Command)) : Option ByteString :=
  if items = [] then none
  else if (assembleBatch magic (items.map BatchItem.encoded)).length > maxReplicatedValueBytes then
    none
  else some (assembleBatch magic (items.map BatchItem.encoded))

theorem length_collect_le (count size : ℕ) (arrivals : List (BatchItem Command))
    (h : count ≤ maxMutationBatch) :
    (collect count size arrivals).length + count ≤ maxMutationBatch := by
  induction arrivals generalizing count size with
  | nil => simpa [collect] using h
  | cons next arrivals ih =>
    rw [collect]
    split
    · next hjoin =>
      have hrest := ih (count + 1) (size + 1 + next.encoded.length) hjoin.1
      rw [List.length_cons]
      omega
    · simpa using h

theorem mem_of_mem_collect {count size : ℕ}
    (h : item ∈ collect count size arrivals) : item ∈ arrivals := by
  induction arrivals generalizing count size with
  | nil => exact absurd h List.not_mem_nil
  | cons next arrivals ih =>
    rw [collect] at h
    split at h
    · rcases List.mem_cons.mp h with rfl | h
      · exact List.mem_cons_self
      · exact List.mem_cons_of_mem next (ih h)
    · exact absurd h List.not_mem_nil

theorem length_active_le (magic : ByteString) (first : BatchItem Command)
    (arrivals : List (BatchItem Command)) :
    (active magic first arrivals).length ≤ maxMutationBatch := by
  have hcollect := length_collect_le 1 ((assembleBatch magic []).length + first.encoded.length)
    arrivals (by decide)
  refine Nat.le_trans (List.length_filter_le _ _) ?_
  rw [List.length_cons]
  exact hcollect

theorem mem_of_mem_active {first : BatchItem Command} (h : item ∈ active magic first arrivals) :
    item ∈ first :: arrivals := by
  rcases List.mem_cons.mp (List.mem_of_mem_filter h) with rfl | h
  · exact List.mem_cons_self
  · exact List.mem_cons_of_mem first (mem_of_mem_collect h)

theorem dispatch_eq_some {items : List (BatchItem Command)}
    {value : ByteString} (h : dispatch magic items = some value) :
    items ≠ [] ∧ value = assembleBatch magic (items.map BatchItem.encoded) := by
  simp only [dispatch, Option.ite_none_left_eq_some, Option.some.injEq] at h
  exact ⟨h.1, h.2.2.symm⟩

end Batch

end Rhiza.Commands
