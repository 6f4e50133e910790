import Rhiza.Commands.Applicable

/-! # Admitted commands and the log

Everything the server hands to consensus for a client: batches of SQL commands, batches of
key-value commands, and notifications. Whether the decided value can be applied depends on
the submitted commands alone.
-/

namespace Rhiza.Commands

open Foundations

def KVCommand.Fits (command : KVCommand) : Prop :=
  replacedLength command.requestID ≤ maxRequestIDBytes ∧ replacedLength command.key ≤ 1024

def NotifyCommand.Fits (command : NotifyCommand) : Prop :=
  replacedLength command.requestID ≤ maxRequestIDBytes ∧ replacedLength command.topic ≤ 256

/-- A proposal, by the mutations it is made of: for a batch, the item it starts with and
those that arrive while the batcher lingers. -/
inductive Proposal (lib : Library) where
  | sql (first : BatchItem (ExecuteRequest lib.Float))
    (arrivals : List (BatchItem (ExecuteRequest lib.Float)))
  | kv (first : BatchItem KVCommand) (arrivals : List (BatchItem KVCommand))
  | notify (command : NotifyCommand)

/-- `proposeOnce` hands a value to consensus once its execution policy is validated. -/
def proposeOnce (lib : Library) (controls : Controls) (value : ByteString) : Option ByteString :=
  if (validateExecutionPolicy lib controls value).isOk then some value else none

theorem proposeOnce_eq_some {lib : Library} {controls : Controls} {proposed : Option ByteString}
    {value : ByteString} (h : proposed.bind (proposeOnce lib controls) = some value) :
    proposed = some value ∧ validateExecutionPolicy lib controls value = .ok () := by
  obtain ⟨found, rfl, hgate⟩ := Option.bind_eq_some_iff.mp h
  rw [proposeOnce] at hgate
  split at hgate
  · next hok =>
    cases hgate
    cases hpolicy : validateExecutionPolicy lib controls value with
    | error => simp [hpolicy, Except.isOk, Except.toBool] at hok
    | ok => exact ⟨rfl, rfl⟩
  · cases hgate

namespace Proposal

variable {lib : Library}

/-- Every mutation of the proposal passed the checks of its entry point. -/
def Accepted : Proposal lib → Prop
  | .sql first arrivals => ∀ item ∈ first :: arrivals,
    ∃ oneStatement, execute lib oneStatement item.command = .ok item.encoded
  | .kv first arrivals => ∀ item ∈ first :: arrivals,
    ∃ now intent, kvMutate now intent = .ok item.command ∧
      item.encoded = encodeKVBatchItem item.command ∧
      (assembleBatch kvBatchMagic [item.encoded]).length ≤ maxReplicatedValueBytes
  | .notify command => (notifyPublish command).isOk

/-- The value handed to `propose`. -/
def dispatched : Proposal lib → Option ByteString
  | .sql first arrivals => dispatch sqlBatchMagic (active sqlBatchMagic first arrivals)
  | .kv first arrivals => dispatch kvBatchMagic (active kvBatchMagic first arrivals)
  | .notify command => (notifyPublish command).toOption

/-- The value that consensus can decide. -/
def value (controls : Controls) (proposal : Proposal lib) : Option ByteString :=
  proposal.dispatched.bind (proposeOnce lib controls)

def Fits : Proposal lib → Prop
  | .sql first arrivals =>
    ∀ item ∈ active sqlBatchMagic first arrivals, item.command.command.Fits lib
  | .kv first arrivals => ∀ item ∈ active kvBatchMagic first arrivals, item.command.Fits
  | .notify command => command.Fits

end Proposal

/-! ## Dispatching on the magic -/

theorem sqlBatch_foreign : Foreign sqlBatchMagic :=
  ⟨rfl, by decide, by decide, by decide, by decide⟩

theorem kvBatch_foreign : Foreign kvBatchMagic :=
  ⟨rfl, by decide, by decide, by decide, by decide⟩

theorem notify_foreign : Foreign notifyCommandMagic :=
  ⟨rfl, by decide, by decide, by decide, by decide⟩

section Dispatch

variable (lib : Library) (controls : Controls) {items : List Json} (hne : items ≠ [])
include hne

theorem decodeSQLBatch_assembleBatch (hcount : items.length ≤ maxSQLCommandsPerDecidedValue) :
    decodeSQLBatch lib (assembleBatch sqlBatchMagic (items.map Json.encode)) =
      some <$> (items.map Json.sanitized).mapM (SQLCommand.ofJson lib) := by
  have hparse := parseItems_assembleBatch sqlBatchMagic items
  rw [assembleBatch_eq] at hparse ⊢
  generalize (Json.array items).encode = rest at hparse ⊢
  have hread : decodeSQLBatch lib (sqlBatchMagic ++ rest) = (do
      let items ← parseItems ((sqlBatchMagic ++ rest).drop sqlBatchMagic.length)
      require (items ≠ []) "empty SQL command batch"
      require (items.length ≤ maxSQLCommandsPerDecidedValue) "SQL batch exceeds 64 commands"
      let commands ← items.mapM (SQLCommand.ofJson lib)
      .ok (some commands)) := rfl
  rw [hread, hparse]
  simp only [ok_bind, require, List.length_map, List.map_eq_nil_iff, ne_eq, hne,
    not_false_eq_true, if_true, hcount]
  cases (items.map Json.sanitized).mapM (SQLCommand.ofJson lib) <;> rfl

/-- A SQL batch that passes the gate is decoded, and checked command by command. -/
theorem applyChecks_sql (hcount : items.length ≤ maxSQLCommandsPerDecidedValue)
    (hgate : validateExecutionPolicy lib controls
      (assembleBatch sqlBatchMagic (items.map Json.encode)) = .ok ()) :
    ∃ commands, (items.map Json.sanitized).mapM (SQLCommand.ofJson lib) = .ok commands ∧
      decodeSQLBatch lib (assembleBatch sqlBatchMagic (items.map Json.encode)) =
        .ok (some commands) ∧
      (applyChecks lib controls (assembleBatch sqlBatchMagic (items.map Json.encode)) = .ok () ↔
        ∀ command ∈ commands, checkSQL lib command = .ok ()) := by
  have hdecode := decodeSQLBatch_assembleBatch lib hne hcount
  rw [assembleBatch_eq] at hdecode hgate ⊢
  generalize (Json.array items).encode = rest at hdecode hgate ⊢
  have hgraph : controls.decodeGraphBatch (sqlBatchMagic ++ rest) = .ok false := rfl
  have hnotify : decodeNotifyCommand (sqlBatchMagic ++ rest) = .ok none := rfl
  have hkv : decodeKVCommand (sqlBatchMagic ++ rest) = .ok none := rfl
  have hkvBatch : decodeKVBatch (sqlBatchMagic ++ rest) = .ok none := rfl
  have hcontrol := sqlBatch_foreign.decodeControl controls rest
  rw [hdecode, applyChecks, hgate, checkCommands, decodeValue, hgraph, hnotify, hkv, hkvBatch,
    hcontrol, hdecode]
  rw [validateExecutionPolicy, hdecode] at hgate
  cases hread : (items.map Json.sanitized).mapM (SQLCommand.ofJson lib) with
  | error =>
    rw [hread] at hgate
    cases hgate
  | ok commands => exact ⟨commands, rfl, rfl, requireAll_eq_ok⟩

/-- A key-value batch is checked command by command. -/
theorem applyChecks_kv :
    applyChecks lib controls (assembleBatch kvBatchMagic (items.map Json.encode)) = .ok () ↔
      ∀ item ∈ items, ∃ command, KVCommand.ofJson item.sanitized = .ok command ∧
        checkKV command = .ok () := by
  have hparse := parseItems_assembleBatch kvBatchMagic items
  rw [assembleBatch_eq] at hparse ⊢
  generalize (Json.array items).encode = rest at hparse ⊢
  have hsql : decodeSQLBatch lib (kvBatchMagic ++ rest) = .ok none := rfl
  have hgraph : controls.decodeGraphBatch (kvBatchMagic ++ rest) = .ok false := rfl
  have hnotify : decodeNotifyCommand (kvBatchMagic ++ rest) = .ok none := rfl
  have hkv : decodeKVCommand (kvBatchMagic ++ rest) = .ok none := rfl
  have hcontrol := kvBatch_foreign.decodeControl controls rest
  have hdecode : decodeKVBatch (kvBatchMagic ++ rest) =
      some <$> (items.map Json.sanitized).mapM KVCommand.ofJson := by
    have hread : decodeKVBatch (kvBatchMagic ++ rest) = (do
        let items ← parseItems ((kvBatchMagic ++ rest).drop kvBatchMagic.length)
        require (items ≠ []) "empty KV command batch"
        let commands ← items.mapM KVCommand.ofJson
        .ok (some commands)) := rfl
    rw [hread, hparse]
    simp only [ok_bind, require, List.map_eq_nil_iff, ne_eq, hne, not_false_eq_true, if_true]
    cases (items.map Json.sanitized).mapM KVCommand.ofJson <;> rfl
  rw [← List.forall_mem_map (f := Json.sanitized) (P := fun item => ∃ command,
    KVCommand.ofJson item = .ok command ∧ checkKV command = .ok ()), ← mapM_requireAll]
  rw [applyChecks, validateExecutionPolicy, checkCommands, decodeValue, hsql, hgraph, hnotify,
    hkv, hcontrol, hdecode]
  cases (items.map Json.sanitized).mapM KVCommand.ofJson with
  | error => exact ⟨nofun, fun ⟨_, h, _⟩ => nomatch h⟩
  | ok commands =>
    exact ⟨fun h => ⟨commands, rfl, h⟩, fun ⟨_, h, hcheck⟩ => by cases h; exact hcheck⟩

omit hne in
theorem applyChecks_notify (command : NotifyCommand) :
    applyChecks lib controls (encodeNotifyCommand command) = .ok () ↔
      checkNotify command.received = .ok () := by
  have hjot := command.ofJson_record
  have hparse := Json.parse_encode (Json.record command.entries)
  rw [encodeNotifyCommand]
  generalize (Json.record command.entries).encode = rest at hparse ⊢
  have hsql : decodeSQLBatch lib (notifyCommandMagic ++ rest) = .ok none := rfl
  have hgraph : controls.decodeGraphBatch (notifyCommandMagic ++ rest) = .ok false := rfl
  have hkv : decodeKVCommand (notifyCommandMagic ++ rest) = .ok none := rfl
  have hkvBatch : decodeKVBatch (notifyCommandMagic ++ rest) = .ok none := rfl
  have hcontrol := notify_foreign.decodeControl controls rest
  have hdecode : decodeNotifyCommand (notifyCommandMagic ++ rest) =
      .ok (some command.received) := by
    have hread : decodeNotifyCommand (notifyCommandMagic ++ rest) = (do
        let json ← parseRecord ((notifyCommandMagic ++ rest).drop notifyCommandMagic.length)
        let command ← NotifyCommand.ofJson json
        .ok (some command)) := rfl
    rw [hread, List.drop_left, parseRecord, hparse]
    simp only [ok_bind, hjot]
  rw [applyChecks, validateExecutionPolicy, checkCommands, decodeValue, hsql, hgraph, hkv,
    hkvBatch, hcontrol, hdecode]
  rfl

end Dispatch

/-! ## Accepted proposals -/

theorem KVCommand.checkKV_received_iff {now : Int64} {intent command : KVCommand}
    (h : kvMutate now intent = .ok command) : checkKV command.received = .ok () ↔ command.Fits := by
  simp only [kvMutate, bind_eq_ok] at h
  obtain ⟨_, -, _, hop, _, hlimits, _, -, heq⟩ := h
  cases heq
  rw [require_eq_ok] at hop hlimits
  obtain ⟨hid, -, hkey, -, -, hvalue⟩ := hlimits
  have hsanitize : Utf8.sanitize intent.operation = intent.operation := by
    simp only [kvOperations, List.mem_cons, List.not_mem_nil, or_false] at hop
    rcases hop with h | h | h <;> rw [h] <;> decide
  simp only [checkKV, KVCommand.received, KVCommand.Fits, seq_eq_ok, require_eq_ok, hsanitize,
    hop, length_sanitize_eq, ne_eq, sanitize_eq_nil, hid, hkey, hvalue,
    not_false_eq_true, true_and, and_true]

theorem NotifyCommand.checkNotify_received_iff {command : NotifyCommand} {value : ByteString}
    (h : notifyPublish command = .ok value) :
    value = encodeNotifyCommand command ∧
      (checkNotify command.received = .ok () ↔ command.Fits) := by
  simp only [notifyPublish, bind_eq_ok] at h
  obtain ⟨_, -, _, hlimits, _, -, heq⟩ := h
  rw [require_eq_ok] at hlimits
  obtain ⟨hid, -, htopic, -, hpay⟩ := hlimits
  refine ⟨(Except.ok.inj heq).symm, ?_⟩
  simp only [checkNotify, NotifyCommand.received, NotifyCommand.Fits, require_eq_ok,
    length_sanitize_eq, ne_eq, sanitize_eq_nil, hid, htopic, hpay, not_false_eq_true,
    true_and, and_true]

/-- The trees that accepted SQL requests encode. -/
theorem exists_trees {lib : Library} {items : List (BatchItem (ExecuteRequest lib.Float))}
    (h : ∀ item ∈ items, ∃ oneStatement, execute lib oneStatement item.command = .ok item.encoded) :
    ∃ tree : BatchItem (ExecuteRequest lib.Float) → Json,
      items.map BatchItem.encoded = (items.map tree).map Json.encode ∧
      ∀ item ∈ items, ∃ oneStatement,
        execute lib oneStatement item.command = .ok (tree item).encode ∧
        item.command.command.marshal lib = some (tree item) := by
  have htree : ∀ item ∈ items, ∃ json oneStatement, item.encoded = json.encode ∧
      execute lib oneStatement item.command = .ok json.encode ∧
      item.command.command.marshal lib = some json := by
    intro item hmem
    obtain ⟨oneStatement, hexecute⟩ := h item hmem
    obtain ⟨json, hspell, hencoded, -⟩ := execute_eq_ok lib hexecute
    exact ⟨json, oneStatement, hencoded, hencoded ▸ hexecute, hspell⟩
  refine ⟨fun item => (item.command.command.marshal lib).getD .null, ?_, fun item hmem => ?_⟩
  · rw [List.map_map]
    refine List.map_congr_left fun item hmem => ?_
    obtain ⟨json, -, hencoded, -, hspell⟩ := htree item hmem
    simpa [hspell] using hencoded
  · obtain ⟨json, oneStatement, -, hexecute, hspell⟩ := htree item hmem
    dsimp only
    rw [hspell]
    exact ⟨oneStatement, hexecute, rfl⟩

namespace Proposal

variable {lib : Library}

/-- A proposed SQL batch is decoded, each request at its own place. -/
theorem decodeSQLBatch_value {controls : Controls}
    {first : BatchItem (ExecuteRequest lib.Float)}
    {arrivals : List (BatchItem (ExecuteRequest lib.Float))} {value : ByteString}
    (haccepted : (sql first arrivals).Accepted)
    (hvalue : (sql first arrivals).value controls = some value) :
    ∃ tree : BatchItem (ExecuteRequest lib.Float) → Json, ∃ commands,
      (∀ item ∈ active sqlBatchMagic first arrivals, ∃ oneStatement,
        execute lib oneStatement item.command = .ok (tree item).encode ∧
        item.command.command.marshal lib = some (tree item)) ∧
      ((active sqlBatchMagic first arrivals).map fun item => (tree item).sanitized).mapM
        (SQLCommand.ofJson lib) = .ok commands ∧
      decodeSQLBatch lib value = .ok (some commands) ∧
      (applyChecks lib controls value = .ok () ↔
        ∀ command ∈ commands, checkSQL lib command = .ok ()) := by
  obtain ⟨hdispatch, hgate⟩ := proposeOnce_eq_some hvalue
  obtain ⟨hne, rfl⟩ := dispatch_eq_some hdispatch
  obtain ⟨tree, hencoded, htree⟩ := exists_trees fun item hmem =>
    haccepted item (mem_of_mem_active hmem)
  rw [hencoded] at hgate ⊢
  obtain ⟨commands, hread, hdecode, hchecks⟩ := applyChecks_sql lib controls (by simpa using hne)
    (by rw [List.length_map]; exact length_active_le sqlBatchMagic first arrivals) hgate
  rw [List.map_map] at hread
  exact ⟨tree, commands, htree, hread, hdecode, hchecks⟩

/-- Each request of a proposed batch, and the command decoded at its place. -/
theorem exists_decoded {controls : Controls} {first item : BatchItem (ExecuteRequest lib.Float)}
    {arrivals : List (BatchItem (ExecuteRequest lib.Float))} {value : ByteString} {i : ℕ}
    (haccepted : (sql first arrivals).Accepted)
    (hvalue : (sql first arrivals).value controls = some value)
    (hitem : (active sqlBatchMagic first arrivals)[i]? = some item) :
    ∃ commands command json oneStatement, decodeSQLBatch lib value = .ok (some commands) ∧
      commands[i]? = some command ∧
      execute lib oneStatement item.command = .ok json.encode ∧
      item.command.command.marshal lib = some json ∧
      SQLCommand.ofJson lib json.sanitized = .ok command := by
  obtain ⟨tree, commands, htree, hread, hdecode, -⟩ := decodeSQLBatch_value haccepted hvalue
  obtain ⟨command, hcommand, hofJson⟩ := exists_getElem?_of_mapM hread
    (show _ = some (tree item).sanitized by rw [List.getElem?_map, hitem]; rfl)
  obtain ⟨oneStatement, hexecute, hspell⟩ := htree item (List.mem_of_getElem? hitem)
  exact ⟨commands, command, _, oneStatement, hdecode, hcommand, hexecute, hspell, hofJson⟩

/-- A value that consensus can decide for accepted mutations passes every check before its
execution exactly when the mutations it carries fit. -/
theorem applyChecks_iff (controls : Controls) {proposal : Proposal lib} {value : ByteString}
    (haccepted : proposal.Accepted) (hvalue : proposal.value controls = some value) :
    applyChecks lib controls value = .ok () ↔ proposal.Fits := by
  cases proposal with
  | sql first arrivals =>
    obtain ⟨tree, commands, htree, hread, -, hchecks⟩ := decodeSQLBatch_value haccepted hvalue
    rw [hchecks]
    constructor
    · intro hall item hmem
      obtain ⟨oneStatement, hexecute, hspell⟩ := htree item hmem
      obtain ⟨i, hi⟩ := List.mem_iff_getElem?.mp hmem
      obtain ⟨command, hcommand, hofJson⟩ := exists_getElem?_of_mapM hread
        (show _ = some (tree item).sanitized by rw [List.getElem?_map, hi]; rfl)
      exact (checkSQL_received_iff lib hexecute hspell hofJson).mp
        (hall command (List.mem_of_getElem? hcommand))
    · intro hfits command hcommand
      obtain ⟨json, hjson, hofJson⟩ := exists_of_mem_mapM hread hcommand
      obtain ⟨item, hmem, rfl⟩ := List.mem_map.mp hjson
      obtain ⟨oneStatement, hexecute, hspell⟩ := htree item hmem
      exact (checkSQL_received_iff lib hexecute hspell hofJson).mpr (hfits item hmem)
  | kv first arrivals =>
    obtain ⟨hne, rfl⟩ := dispatch_eq_some (proposeOnce_eq_some hvalue).1
    have hencoded : (active kvBatchMagic first arrivals).map BatchItem.encoded =
        ((active kvBatchMagic first arrivals).map fun item =>
          Json.record item.command.entries).map Json.encode := by
      rw [List.map_map]
      refine List.map_congr_left fun item hmem => ?_
      obtain ⟨now, intent, -, hencoded, -⟩ := haccepted item (mem_of_mem_active hmem)
      exact hencoded
    rw [hencoded, applyChecks_kv lib controls (by simpa using hne), List.forall_mem_map]
    refine forall₂_congr fun item hmem => ?_
    obtain ⟨now, intent, hmutate, -⟩ := haccepted item (mem_of_mem_active hmem)
    rw [item.command.ofJson_record, ← KVCommand.checkKV_received_iff hmutate]
    exact ⟨fun ⟨_, h, hcheck⟩ => by cases h; exact hcheck, fun h => ⟨_, rfl, h⟩⟩
  | notify =>
    have hdispatch := (proposeOnce_eq_some hvalue).1
    simp only [Proposal.dispatched, toOption_eq_some] at hdispatch
    obtain ⟨rfl, hcheck⟩ := NotifyCommand.checkNotify_received_iff hdispatch
    rw [applyChecks_notify, hcheck]
    rfl

/-- Decoders that know no control value and no graph batch. -/
def plainControls : Controls where
  codec := .tabled []
  parseGraphBatch _ := .error "unsupported graph batch"

def plainNotify (requestID : ByteString) : NotifyCommand :=
  { requestID, topic := bytesOf "orders", payload := [] }

theorem applyChecks_plainNotify :
    ∃ value, (notify (plainNotify (bytesOf "r1")) : Proposal .whole).Accepted ∧
      (notify (plainNotify (bytesOf "r1")) : Proposal .whole).value plainControls = some value ∧
      applyChecks .whole plainControls value = .ok () := by
  have haccepted : (notify (plainNotify (bytesOf "r1")) : Proposal .whole).Accepted := by
    change (notifyPublish _).isOk = true
    decide +kernel
  have hvalue : (notify (plainNotify (bytesOf "r1")) : Proposal .whole).value plainControls =
      some (encodeNotifyCommand (plainNotify (bytesOf "r1"))) := by decide +kernel
  refine ⟨_, haccepted, hvalue, (applyChecks_iff plainControls haccepted hvalue).mpr ?_⟩
  exact ⟨by decide, by decide⟩

/-- A request id of 64 bytes that begin no character grows to 192 bytes on its way. -/
def invalidRequestID : Proposal .whole := .notify (plainNotify (List.replicate 64 255))

theorem applyChecks_fails : invalidRequestID.Accepted ∧
    (invalidRequestID.value plainControls).any
      (fun value => !(applyChecks .whole plainControls value).isOk) = true := by
  refine ⟨?_, by decide +kernel⟩
  change (notifyPublish _).isOk = true
  decide +kernel

end Proposal

end Rhiza.Commands
