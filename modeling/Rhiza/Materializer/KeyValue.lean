import Rhiza.Commands.Faithful
import Rhiza.Foundations.System
import Rhiza.Foundations.Table

/-! # The key-value table

Typed KV commands act on one table of the database. Expired rows are not removed when they
expire: each command first deletes at most 256 of them, in whatever order the engine visits
them, and then does its own work on what is left. What the table is for is a map whose entries
end: a key is present for a command if its last write has not expired at the time the command
carries.
-/

namespace Rhiza.Materializer

open Foundations Commands

structure KVRow where
  value : ByteString
  expiresAtUnixMS : Int64
  deriving DecidableEq

namespace KVRow

/-- The rows that the removal of expired rows may select. -/
def expired (now : Int64) (row : KVRow) : Bool :=
  0 < row.expiresAtUnixMS ∧ row.expiresAtUnixMS ≤ now

/-- Whether readers and `cas` see the row. -/
def live (now : Int64) (row : KVRow) : Bool :=
  row.expiresAtUnixMS = 0 ∨ now < row.expiresAtUnixMS

theorem not_live_of_expired {now later : Int64} {row : KVRow} (hdue : row.expired now = true)
    (hlater : now ≤ later) : row.live later = false := by
  obtain ⟨hpos, hle⟩ := of_decide_eq_true hdue
  apply decide_eq_false
  rintro (hzero | hlt)
  · rw [hzero] at hpos
    exact Int64.lt_irrefl hpos
  · exact Int64.lt_irrefl (Int64.lt_of_lt_of_le hlt (Int64.le_trans hle hlater))

end KVRow

structure KVReceipt where
  fingerprint : ValueHash
  slot : ℕ
  applied : Bool

/-- The tables that KV commands read and write. -/
structure KVStore where
  rows : Table ByteString KVRow
  receipts : Table ByteString KVReceipt

/-- The order in which the engine visits the rows that a query without an order selects. -/
structure Scan where
  order : List ByteString → List ByteString
  perm : ∀ keys, (order keys).Perm keys

def kvPruneLimit : ℕ := 256

/-- The keys of the rows that have expired and may be removed. -/
def expiredKeys (now : Int64) (rows : Table ByteString KVRow) : List ByteString :=
  (rows.entries.filter fun entry => entry.2.expired now).map Sigma.fst

variable {rows : Table ByteString KVRow} {now : Int64} {key : ByteString} {keys : List ByteString}
  {command : KVCommand}

theorem mem_expiredKeys_iff :
    key ∈ expiredKeys now rows ↔ ∃ row, rows.lookup key = some row ∧ row.expired now = true := by
  simp only [expiredKeys, List.mem_map, List.mem_filter]
  constructor
  · rintro ⟨⟨key, row⟩, ⟨hentry, hdue⟩, rfl⟩
    exact ⟨row, AList.mem_lookup_iff.mpr hentry, hdue⟩
  · rintro ⟨row, hrow, hdue⟩
    exact ⟨⟨key, row⟩, ⟨AList.mem_lookup_iff.mp hrow, hdue⟩, rfl⟩

/-- Removes at most 256 expired rows. -/
def pruneExpired (scan : Scan) (now : Int64) (rows : Table ByteString KVRow) :
    Table ByteString KVRow :=
  rows.restrict fun key => key ∉ (scan.order (expiredKeys now rows)).take kvPruneLimit

/-- What the command does to the table once expired rows are removed, with its `Applied`. -/
def mutateKV (command : KVCommand) (rows : Table ByteString KVRow) :
    Bool × Table ByteString KVRow :=
  let written := rows.insert command.key ⟨command.value, command.expiresAtUnixMS⟩
  if command.operation = bytesOf "put" then (true, written)
  else if command.operation = bytesOf "delete" then
    -- The number of rows the statement deleted, whether they had expired or not.
    ((rows.lookup command.key).isSome, rows.erase command.key)
  else
    let current := rows.lookup command.key
    let present := current.any (KVRow.live command.observedAtUnixMS)
    let applied := present == command.expectedExists &&
      (!present || current.any fun row => row.value == command.expected)
    (applied, if applied then written else rows)

/-- The fingerprint of what was asked for, without the request id and the clock. -/
def kvFingerprint (codec : Codec) (command : KVCommand) : ValueHash :=
  let item := encodeKVBatchItem
    { command with requestID := [], expiresAtUnixMS := 0, observedAtUnixMS := 0 }
  codec.sha256 (coreBytes (bytesOf "rhiza/kv" ++ 0 :: item))

def applyKV (codec : Codec) (scan : Scan) (slot : ℕ) (command : KVCommand) (store : KVStore) :
    Checked KVStore := do
  checkKV command
  if (store.receipts.lookup command.requestID).isSome then .ok store
  else
    let (applied, rows) :=
      mutateKV command (pruneExpired scan command.observedAtUnixMS store.rows)
    let receipt := { fingerprint := kvFingerprint codec command, slot, applied }
    .ok { rows, receipts := store.receipts.insert command.requestID receipt }

/-! ## The map -/

/-- The last write of each key that was not deleted since. -/
abbrev KVMap := ByteString → Option KVRow

/-- The command on the map, and whether it is applied. -/
def KVMap.apply (map : KVMap) (command : KVCommand) : Bool × KVMap :=
  let present := (map command.key).any (KVRow.live command.observedAtUnixMS)
  let written := Function.update map command.key
    (some ⟨command.value, command.expiresAtUnixMS⟩)
  if command.operation = bytesOf "put" then (true, written)
  else if command.operation = bytesOf "delete" then
    (present, Function.update map command.key none)
  else
    let applied := present == command.expectedExists &&
      (!present || (map command.key).any fun row => row.value == command.expected)
    (applied, if applied then written else map)

/-- The `Applied` of each request, as the map has it. -/
def KVMap.outcomes : KVMap → List KVCommand → List (ByteString × Bool)
  | _, [] => []
  | map, command :: rest =>
    (command.requestID, (map.apply command).1) :: outcomes (map.apply command).2 rest

/-! ## The table follows the map -/

/-- From a time on, the table and the map have the same live entries. -/
def Tracks (now : Int64) (rows : Table ByteString KVRow) (map : KVMap) : Prop :=
  ∀ key later, now ≤ later →
    (rows.lookup key).filter (KVRow.live later) = (map key).filter (KVRow.live later)

theorem tracks_lookup (now : Int64) (rows : Table ByteString KVRow) :
    Tracks now rows rows.lookup := fun _ _ _ => rfl

namespace Tracks

variable {now : Int64} {rows : Table ByteString KVRow} {map : KVMap}

section Tracks

variable (htrack : Tracks now rows map)
include htrack

theorem mono {later : Int64} (hle : now ≤ later) : Tracks later rows map := by
  intro key time htime
  exact htrack key time (Int64.le_trans hle htime)

theorem insert (key : ByteString) (row : KVRow) :
    Tracks now (rows.insert key row) (Function.update map key (some row)) := by
  intro key' later hlater
  rw [Table.lookup_insert_eq, Function.update_apply]
  split
  · rfl
  · exact htrack key' later hlater

theorem erase (key : ByteString) : Tracks now (rows.erase key) (Function.update map key none) := by
  intro key' later hlater
  rw [Table.lookup_erase_eq, Function.update_apply]
  split
  · rfl
  · exact htrack key' later hlater

/-- Only rows that are dead from now on are removed. -/
theorem pruneExpired (scan : Scan) : Tracks now (pruneExpired scan now rows) map := by
  intro key later hlater
  rw [← htrack key later hlater, Materializer.pruneExpired, Table.lookup_restrict]
  split
  · rfl
  · rename_i hremoved
    have hmem : key ∈ expiredKeys now rows := by
      apply (scan.perm _).subset
      exact List.mem_of_mem_take (by simpa using hremoved)
    obtain ⟨row, hrow, hdue⟩ := mem_expiredKeys_iff.mp hmem
    simp [hrow, Option.filter, KVRow.not_live_of_expired hdue hlater]

theorem any_live (key : ByteString) :
    (rows.lookup key).any (KVRow.live now) = (map key).any (KVRow.live now) := by
  rw [← Option.isSome_filter, ← Option.isSome_filter, htrack key now (Int64.le_refl now)]

/-- `cas` sees in the table what it would see in the map. -/
theorem any_value {key : ByteString} (hlive : (map key).any (KVRow.live now) = true)
    (test : KVRow → Bool) : (rows.lookup key).any test = (map key).any test := by
  have hfilter := htrack key now (Int64.le_refl now)
  obtain ⟨row, hrow, hnow⟩ := (Option.any_eq_true ..).mp hlive
  rw [hrow, Option.filter_some_pos hnow, Option.filter_eq_some_iff] at hfilter
  rw [hfilter.1, hrow]

end Tracks

theorem mutateKV {command : KVCommand} (htrack : Tracks command.observedAtUnixMS rows map) :
    Tracks command.observedAtUnixMS (mutateKV command rows).2 (map.apply command).2 ∧
      (command.operation ≠ bytesOf "delete" →
        (Materializer.mutateKV command rows).1 = (map.apply command).1) := by
  have hpresent := htrack.any_live command.key
  unfold Materializer.mutateKV KVMap.apply
  by_cases hput : command.operation = bytesOf "put"
  · simp only [if_pos hput]
    exact ⟨htrack.insert _ _, fun _ => trivial⟩
  by_cases hdelete : command.operation = bytesOf "delete"
  · simp only [if_neg hput, if_pos hdelete]
    exact ⟨htrack.erase _, fun hother => absurd hdelete hother⟩
  simp only [if_neg hput, if_neg hdelete, hpresent]
  cases hlive : (map command.key).any (KVRow.live command.observedAtUnixMS) with
  | false =>
    cases command.expectedExists with
    | false => exact ⟨htrack.insert _ _, fun _ => rfl⟩
    | true => exact ⟨htrack, fun _ => rfl⟩
  | true =>
    rw [htrack.any_value hlive]
    refine ⟨?_, fun _ => rfl⟩
    split
    · exact htrack.insert _ _
    · exact htrack

end Tracks

/-! ## Deletes -/

/-- A `delete` finds no row of its key that only a removal it does not make would hide: the
row is live, or it has expired along with few enough others. -/
def Unhindered (command : KVCommand) (rows : Table ByteString KVRow) : Prop :=
  command.operation = bytesOf "delete" → ∀ row ∈ rows.lookup command.key,
    row.live command.observedAtUnixMS = true ∨ row.expired command.observedAtUnixMS = true ∧
      (expiredKeys command.observedAtUnixMS rows).length ≤ kvPruneLimit

theorem mem_expiredKeys
    {row : KVRow} (hrow : rows.lookup key = some row) :
    key ∈ expiredKeys now rows ↔ row.expired now = true := by
  simp [mem_expiredKeys_iff, hrow]

theorem nodup_expiredKeys (now : Int64) (rows : Table ByteString KVRow) :
    (expiredKeys now rows).Nodup :=
  rows.keys_nodup.sublist (List.filter_sublist.map _)

/-- The order that visits the key last. -/
def Scan.last (key : ByteString) : Scan where
  order keys := if key ∈ keys then keys.erase key ++ [key] else keys
  perm keys := by
    split
    · rename_i hmem
      exact (List.perm_append_singleton key _).trans (List.perm_cons_erase hmem).symm
    · exact .refl _

theorem Scan.last_skips (hnodup : keys.Nodup)
    (hmany : kvPruneLimit < keys.length) : key ∉ ((last key).order keys).take kvPruneLimit := by
  by_cases hmem : key ∈ keys
  · have hlen := List.length_erase_of_mem hmem
    simp only [last, if_pos hmem]
    rw [List.take_append_of_le_length (by omega)]
    exact fun htake => hnodup.not_mem_erase (List.mem_of_mem_take htake)
  · simp only [last, if_neg hmem]
    exact fun htake => hmem (List.mem_of_mem_take htake)

theorem Scan.take_all (scan : Scan) (hfew : keys.length ≤ kvPruneLimit)
    (key : ByteString) : key ∈ (scan.order keys).take kvPruneLimit ↔ key ∈ keys := by
  rw [List.take_of_length_le ((scan.perm keys).length_eq.trans_le hfew), (scan.perm keys).mem_iff]

/-- In every order of removal a delete tells whether its key was present, just if it is not
hindered. -/
theorem unhindered_iff :
    Unhindered command rows ↔ (command.operation = bytesOf "delete" → ∀ scan,
      ((pruneExpired scan command.observedAtUnixMS rows).lookup command.key).isSome =
        (rows.lookup command.key).any (KVRow.live command.observedAtUnixMS)) := by
  apply forall_congr'
  intro _
  cases hrow : rows.lookup command.key with
  | none => simp [pruneExpired, Table.lookup_restrict, hrow]
  | some row =>
    simp only [Option.mem_some_iff, forall_eq', Option.any_some, pruneExpired,
      Table.lookup_restrict, hrow]
    cases hlive : row.live command.observedAtUnixMS with
    | true =>
      have hnot : command.key ∉ expiredKeys command.observedAtUnixMS rows := by
        rw [mem_expiredKeys hrow]
        intro hdue
        simp [KVRow.not_live_of_expired hdue (Int64.le_refl _)] at hlive
      have hkept : ∀ scan : Scan, command.key ∉
          (scan.order (expiredKeys command.observedAtUnixMS rows)).take kvPruneLimit :=
        fun scan htake => hnot ((scan.perm _).subset (List.mem_of_mem_take htake))
      simp [hkept]
    | false =>
      constructor
      · rintro (hcontra | ⟨hdue, hfew⟩) scan
        · cases hcontra
        · simp [scan.take_all hfew, (mem_expiredKeys hrow).mpr hdue]
      · intro hremoved
        have htaken : ∀ scan : Scan, command.key ∈
            (scan.order (expiredKeys command.observedAtUnixMS rows)).take kvPruneLimit := by
          intro scan
          by_contra hkept
          simpa [hkept] using hremoved scan
        refine .inr ⟨(mem_expiredKeys hrow).mp
          (((Scan.last command.key).perm _).subset (List.mem_of_mem_take (htaken _))), ?_⟩
        by_contra hmany
        exact Scan.last_skips (nodup_expiredKeys ..) (not_le.mp hmany) (htaken _)

/-! ## Runs -/

/-- A KV command of a decided value, with the order in which expired rows are visited. -/
structure KVCall where
  scan : Scan
  slot : ℕ
  command : KVCommand

def KVCall.request (call : KVCall) : ℕ × KVCommand := (call.slot, call.command)

def kvStep (codec : Codec) (store : KVStore) (call : KVCall) : Option KVStore :=
  (applyKV codec call.scan call.slot call.command store).toOption

/-- The store after a command that has no receipt. -/
def KVStore.after (codec : Codec) (store : KVStore) (call : KVCall) : KVStore :=
  let mutated := mutateKV call.command
    (pruneExpired call.scan call.command.observedAtUnixMS store.rows)
  { rows := mutated.2
    receipts := store.receipts.insert call.command.requestID
      { fingerprint := kvFingerprint codec call.command, slot := call.slot
        applied := mutated.1 } }

variable {codec : Codec} {store : KVStore} {call : KVCall} {requestID : ByteString}
  {receipt : KVReceipt} {calls rest : List KVCall} {map : KVMap} {requests : List (ℕ × KVCommand)}

theorem kvStep_fresh (hvet : checkKV call.command = .ok ())
    (hfresh : store.receipts.lookup call.command.requestID = none) :
    kvStep codec store call = some (store.after codec call) := by
  simp [kvStep, applyKV, hvet, hfresh, ok_bind, Except.toOption, KVStore.after]

/-- A receipt stays as it was written. -/
theorem kvStep_receipt {store next : KVStore} (hstep : kvStep codec store call = some next)
    (hslip : store.receipts.lookup requestID = some receipt) :
    next.receipts.lookup requestID = some receipt := by
  simp only [kvStep, toOption_eq_some, applyKV, seq_eq_ok] at hstep
  obtain ⟨-, hstep⟩ := hstep
  split at hstep
  · cases hstep
    exact hslip
  · rename_i hfresh
    cases hstep
    rw [Table.lookup_insert_eq, if_neg]
    · exact hslip
    · rintro rfl
      simp [hslip] at hfresh

theorem run_receipt {store final : KVStore} (hrun : runFrom (kvStep codec) store calls = some final)
    (hslip : store.receipts.lookup requestID = some receipt) :
    final.receipts.lookup requestID = some receipt := by
  induction calls generalizing store with
  | nil =>
    cases hrun
    exact hslip
  | cons call rest ih =>
    obtain ⟨next, hstep, hrest⟩ := runFrom_cons.mp hrun
    exact ih hrest (kvStep_receipt hstep hslip)

/-- The commands run, and every receipt has the `Applied` of the map. -/
def Agrees (codec : Codec) (store : KVStore) (map : KVMap) (calls : List KVCall) : Prop :=
  ∃ final, runFrom (kvStep codec) store calls = some final ∧
    ∀ outcome ∈ map.outcomes (calls.map KVCall.command),
      (final.receipts.lookup outcome.1).map KVReceipt.applied = some outcome.2

/-- What a sequence of new commands, with clocks that do not go back, asks of a store. -/
structure Fresh (store : KVStore) (commands : List KVCommand) : Prop where
  checked : ∀ command ∈ commands, checkKV command = .ok ()
  distinct : (commands.map KVCommand.requestID).Nodup
  unused : ∀ command ∈ commands, store.receipts.lookup command.requestID = none
  ordered : commands.Pairwise fun first second =>
    first.observedAtUnixMS ≤ second.observedAtUnixMS

theorem Fresh.after (codec : Codec) (call : KVCall) {rest : List KVCommand}
    (hfresh : Fresh store (call.command :: rest)) : Fresh (store.after codec call) rest where
  checked := fun command hmem => hfresh.checked command (List.mem_cons_of_mem _ hmem)
  distinct := (List.nodup_cons.mp hfresh.distinct).2
  ordered := (List.pairwise_cons.mp hfresh.ordered).2
  unused := by
    intro command hmem
    have hne : command.requestID ≠ call.command.requestID := by
      intro heq
      exact (List.nodup_cons.mp hfresh.distinct).1 (heq ▸ List.mem_map_of_mem hmem)
    simp only [KVStore.after, Table.lookup_insert_eq, if_neg hne]
    exact hfresh.unused command (List.mem_cons_of_mem _ hmem)

theorem agrees_cons
    (hfresh : Fresh store (call.command :: rest.map KVCall.command)) :
    Agrees codec store map (call :: rest) ↔
      (mutateKV call.command
        (pruneExpired call.scan call.command.observedAtUnixMS store.rows)).1 =
          (map.apply call.command).1 ∧
      Agrees codec (store.after codec call) (map.apply call.command).2 rest := by
  have hstep : kvStep codec store call = some (store.after codec call) :=
    kvStep_fresh (hfresh.checked _ List.mem_cons_self) (hfresh.unused _ List.mem_cons_self)
  have hslip : (store.after codec call).receipts.lookup call.command.requestID = some _ :=
    AList.lookup_insert _
  constructor
  · rintro ⟨final, hrun, houtcomes⟩
    obtain ⟨next, hnext, hrest⟩ := runFrom_cons.mp hrun
    cases hstep.symm.trans hnext
    obtain ⟨hhead, htail⟩ := List.forall_mem_cons.mp houtcomes
    rw [run_receipt hrest hslip] at hhead
    exact ⟨Option.some_inj.mp hhead, final, hrest, htail⟩
  · rintro ⟨hhead, final, hrest, htail⟩
    refine ⟨final, runFrom_cons.mpr ⟨_, hstep, hrest⟩, List.forall_mem_cons.mpr ⟨?_, htail⟩⟩
    rw [run_receipt hrest hslip]
    exact congrArg some hhead

theorem applied_iff
    (htrack : Tracks now rows map) (hle : now ≤ command.observedAtUnixMS) :
    (∀ scan, (mutateKV command (pruneExpired scan command.observedAtUnixMS rows)).1 =
      (map.apply command).1) ↔ Unhindered command rows := by
  have hnow := htrack.mono hle
  rw [unhindered_iff]
  by_cases hdelete : command.operation = bytesOf "delete"
  · simp [mutateKV, KVMap.apply, hdelete, show bytesOf "delete" ≠ bytesOf "put" by decide,
      hnow.any_live]
  · refine iff_of_true (fun scan => ?_) fun hop => absurd hop hdelete
    exact (hnow.pruneExpired scan).mutateKV.2 hdelete

/-- Calls of the requests, one of which begins them. -/
theorem forall_calls_cons {slot : ℕ} {rest : List (ℕ × KVCommand)} {property : List KVCall → Prop} :
    (∀ calls, calls.map KVCall.request = (slot, command) :: rest → property calls) ↔
      ∀ scan calls, calls.map KVCall.request = rest →
        property (⟨scan, slot, command⟩ :: calls) := by
  constructor
  · intro hall scan calls hcalls
    exact hall _ (by rw [List.map_cons, hcalls, KVCall.request])
  · intro hall calls hcalls
    obtain ⟨call, calls, rfl, hcall, hrest⟩ := List.map_eq_cons_iff.mp hcalls
    obtain ⟨rfl, rfl⟩ := Prod.mk.inj hcall
    exact hall call.scan calls hrest

theorem map_command_of_request
    (hcalls : calls.map KVCall.request = requests) :
    calls.map KVCall.command = requests.map Prod.snd := by
  rw [← hcalls, List.map_map]
  rfl

theorem guarded_cons
    (hfresh : Fresh store (call.command :: rest.map KVCall.command))
    {guard : KVStore → KVCall → Prop} :
    Guarded (kvStep codec) guard store (call :: rest) ↔
      guard store call ∧ Guarded (kvStep codec) guard (store.after codec call) rest := by
  rw [Guarded, kvStep_fresh (hfresh.checked _ List.mem_cons_self)
    (hfresh.unused _ List.mem_cons_self)]
  simp

theorem agrees_iff_guarded
    (hfresh : Fresh store (requests.map Prod.snd)) (htrack : Tracks now store.rows map)
    (hle : ∀ request ∈ requests, now ≤ request.2.observedAtUnixMS) :
    (∀ calls, calls.map KVCall.request = requests → Agrees codec store map calls) ↔
      ∀ calls, calls.map KVCall.request = requests →
        Guarded (kvStep codec) (fun store call => Unhindered call.command store.rows)
          store calls := by
  induction requests generalizing now store map with
  | nil =>
    refine iff_of_true ?_ ?_ <;> intro calls hcalls <;> obtain rfl := List.map_eq_nil_iff.mp hcalls
    · exact ⟨store, rfl, by simp [KVMap.outcomes]⟩
    · trivial
  | cons request rest ih =>
    obtain ⟨slot, command⟩ := request
    have hnow : now ≤ command.observedAtUnixMS := hle _ List.mem_cons_self
    have hran := applied_iff htrack hnow
    have hlater : ∀ request ∈ rest, command.observedAtUnixMS ≤ request.2.observedAtUnixMS :=
      fun request hmem =>
        (List.pairwise_cons.mp hfresh.ordered).1 _ (List.mem_map_of_mem hmem)
    -- The first command leaves a fresh store behind, in every order of removal.
    have hrest : ∀ scan, _ := fun scan =>
      ih (Fresh.after codec ⟨scan, slot, command⟩ hfresh)
        ((htrack.mono hnow).pruneExpired scan).mutateKV.1 hlater
    have hjobs : ∀ calls : List KVCall, calls.map KVCall.request = rest →
        Fresh store (command :: calls.map KVCall.command) := by
      intro calls hcalls
      rw [map_command_of_request hcalls]
      exact hfresh
    rw [forall_calls_cons, forall_calls_cons]
    constructor
    · intro hnod scan calls hcalls
      have hhead : ∀ scan, _ := fun scan =>
        ((agrees_cons (hjobs calls hcalls)).mp (hnod scan calls hcalls)).1
      have htail : ∀ calls : List KVCall, calls.map KVCall.request = rest → _ := fun calls hcalls =>
        ((agrees_cons (hjobs calls hcalls)).mp (hnod scan calls hcalls)).2
      exact (guarded_cons (hjobs calls hcalls)).mpr
        ⟨hran.mp hhead, (hrest scan).mp htail calls hcalls⟩
    · intro hguard scan calls hcalls
      have hhead := ((guarded_cons (hjobs calls hcalls)).mp (hguard scan calls hcalls)).1
      have htail : ∀ calls : List KVCall, calls.map KVCall.request = rest → _ := fun calls hcalls =>
        ((guarded_cons (hjobs calls hcalls)).mp (hguard scan calls hcalls)).2
      exact (agrees_cons (hjobs calls hcalls)).mpr
        ⟨hran.mpr hhead scan, (hrest scan).mpr htail calls hcalls⟩

/-- In every order of removal every receipt has the `Applied` of the map, just if no delete of
the run is hindered. -/
theorem applied_eq_map_iff (codec : Codec) (store : KVStore) (requests : List (ℕ × KVCommand))
    (hfresh : Fresh store (requests.map Prod.snd)) :
    (∀ calls, calls.map KVCall.request = requests →
        Agrees codec store store.rows.lookup calls) ↔
      ∀ calls, calls.map KVCall.request = requests →
        Guarded (kvStep codec) (fun store call => Unhindered call.command store.rows)
          store calls :=
  agrees_iff_guarded hfresh (tracks_lookup Int64.minValue store.rows)
    fun request _ => Int64.minValue_le request.2.observedAtUnixMS

/-! ## An expired row that a delete counts -/

def expiredRow : KVRow := ⟨bytesOf "old", 10⟩

/-- 257 keys, each with a row that expires at time 10. -/
def crowdedRows : Table ByteString KVRow where
  entries := (List.range 257).map fun i => ⟨List.replicate (i + 1) 97, expiredRow⟩
  nodupKeys := by
    have hkeys : (((List.range 257).map fun i => (⟨List.replicate (i + 1) 97, expiredRow⟩ :
        Σ _ : ByteString, KVRow)).map Sigma.fst).Nodup := by
      rw [List.map_map]
      apply List.nodup_range.map
      intro i j heq
      simpa using congrArg List.length heq
    exact hkeys

def lateDelete (key : ByteString) : KVCommand :=
  { requestID := bytesOf "drop", operation := bytesOf "delete", key, value := [], expected := []
    expectedExists := false, ttlMS := 0, expiresAtUnixMS := 0, observedAtUnixMS := 20 }

theorem fresh_lateDelete (rows : Table ByteString KVRow) :
    Fresh ⟨rows, ∅⟩ [lateDelete [97]] where
  checked := by decide
  distinct := by decide
  unused := by simp
  ordered := List.pairwise_singleton ..

theorem length_expiredKeys_crowded : (expiredKeys 20 crowdedRows).length = 257 := by
  have hall : crowdedRows.entries.filter (fun entry => entry.2.expired 20) =
      crowdedRows.entries := by
    rw [List.filter_eq_self]
    intro entry hentry
    obtain ⟨i, -, rfl⟩ := List.mem_map.mp hentry
    exact show expiredRow.expired 20 = true by decide
  rw [expiredKeys, hall, List.length_map, crowdedRows, List.length_map, List.length_range]

theorem lookup_crowded : crowdedRows.lookup [97] = some expiredRow :=
  AList.mem_lookup_iff.mpr (List.mem_map.mpr ⟨0, List.mem_range.mpr (by decide), rfl⟩)

/-- A delete is told that it removed an entry, which had expired before. -/
theorem applied_ne_map : ¬ ∀ (codec : Codec) (store : KVStore) (requests : List (ℕ × KVCommand)),
    Fresh store (requests.map Prod.snd) → ∀ calls, calls.map KVCall.request = requests →
      Agrees codec store store.rows.lookup calls := by
  intro hall
  have hagrees := hall (.tabled []) ⟨crowdedRows, ∅⟩ [(258, lateDelete [97])]
    (fresh_lateDelete crowdedRows)
  have hguarded := (agrees_iff_guarded (fresh_lateDelete crowdedRows)
    (tracks_lookup Int64.minValue crowdedRows) fun request _ => Int64.minValue_le _).mp hagrees
    [⟨.last [97], 258, lateDelete [97]⟩] rfl
  obtain hlive | ⟨-, hfew⟩ := hguarded.1 rfl expiredRow lookup_crowded
  · exact absurd hlive (by decide)
  · exact absurd (length_expiredKeys_crowded.ge.trans hfew) (by decide)

/-- One expired row is removed before a delete counts. -/
theorem applied_eq_map_lone : ∃ store : KVStore,
    (expiredKeys 20 store.rows).length = 1 ∧
      ∀ calls, calls.map KVCall.request = [(1, lateDelete [97])] →
        Agrees (.tabled []) store store.rows.lookup calls := by
  refine ⟨⟨AList.singleton [97] expiredRow, ∅⟩, by decide, ?_⟩
  apply (applied_eq_map_iff (.tabled []) _ [(1, lateDelete [97])] (fresh_lateDelete _)).mpr
  intro calls hcalls
  obtain ⟨call, rest, rfl, hcall, hrest⟩ := List.map_eq_cons_iff.mp hcalls
  obtain rfl := List.map_eq_nil_iff.mp hrest
  obtain ⟨-, hcommand⟩ := Prod.mk.inj hcall
  refine ⟨?_, fun _ _ => trivial⟩
  simp only [hcommand]
  intro _ row hrow
  cases hrow
  exact .inr (by decide)

end Rhiza.Materializer
