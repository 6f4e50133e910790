import Rhiza.QuePaxa.Agreement
import Rhiza.QuePaxa.FenceRuns
import Rhiza.QuePaxa.Receipts

/-! # A cluster that votes for checkpoints

The cluster of one configuration with the checks of checkpoint seals in place at every
node. An offer can reach a recorder with or without the bytes of its value; bytes that
it lacks may be staged at any time. No process crashes.

As long as a process runs, its table of prepared checkpoints covers everything it has
ever prepared: a new root is prepared only above all of them. So no index is prepared
with two roots, and an offer that was validated with its bytes in memory is for a root
that was prepared.
-/

namespace Rhiza.QuePaxa

open Foundations

/-- One turn of the search for the newest decided seal. -/
def newerSeal (latest : Option SealedCheckpoint) (entry : Σ _ : ValueHash, SealedCheckpoint) :
    Checked (Option SealedCheckpoint) :=
  if (latest.map (·.checkpointSeal.index)).getD 0 < entry.2.checkpointSeal.index then
    .ok (some entry.2)
  else if entry.2.checkpointSeal.index ≠ 0 ∧
      latest.any (fun old => entry.2.checkpointSeal.index = old.checkpointSeal.index ∧
        entry.1 ≠ old.checkpointSeal.rootHash) then
    .error ("conflicting checkpoint seals at index " ++ toString entry.2.checkpointSeal.index)
  else .ok latest

/-- `LatestCheckpointSeal`, over the decided seals in the order in which the map of them
is walked. -/
def latestCheckpointSeal (entries : List (Σ _ : ValueHash, SealedCheckpoint)) :
    Checked (Option SealedCheckpoint) :=
  entries.foldlM newerSeal none

/-- Every vote comes after the preparation of its root at its index. -/
def PreparedFirst (history : List Mark) : Prop :=
  ∀ before checkpoint after, history = before ++ .voted checkpoint :: after →
    .prepared checkpoint.index checkpoint.rootHash ∈ before

structure Council where
  world : World
  /-- The offers that passed the checks outside the lock, by node. -/
  validated : NodeID → List RecordRequest
  history : NodeID → List Mark

/-- What can happen next in a council. -/
inductive CouncilEvent where
  /-- An event without checkpoint checks of its own. -/
  | proceed (event : Event)
  /-- An offer goes out once more, without the bytes of its value. -/
  | strip (recorder : NodeID) (request : RecordRequest)
  /-- The reply to an offer without bytes counts as a reply to the offer. -/
  | credit (request : RecordRequest) (summary : Summary)
  | validate (node : NodeID) (request : RecordRequest)
  | record (node : NodeID) (request : RecordRequest)
  | prepare (node : NodeID) (checkpoint : CheckpointSeal) (payload : Bytes)
  | resume (node : NodeID) (index : ℕ)
deriving DecidableEq, Repr

/-- The offer without the bytes of its value. -/
def RecordRequest.stripped (request : RecordRequest) : RecordRequest :=
  { request with proposal := request.proposal.ref }

/-- The answers to an offer without its bytes, as answers to the offer. -/
def World.copies (world : World) (request : RecordRequest) (summary : Summary) : List Answer :=
  (world.answers.filter fun answer =>
    answer.request = request.stripped ∧ answer.summary = summary).map ({ · with request })

namespace Council

variable (codec : Codec) (council : Council)

/-- The preparation that an event completes. -/
def completes : Event → NodeID → List Mark
  | .perform node (.finish index), other =>
    if other = node then (council.world.replicas node).preparedMarks index else []
  | _, _ => []

def proceed (council : Council) : Event → Option Council
  | .perform _ (.record _ _) | .perform _ (.prepare _ _ _) | .perform _ .crash => none
  | event => do
    let world ← council.world.step codec event
    some { council with
      world
      history := fun node => council.history node ++ council.completes event node }

def strip (recorder : NodeID) (request : RecordRequest) : Option Council :=
  if (recorder, request) ∈ council.world.requests then
    some { council with world := { council.world with
      requests := council.world.requests ++ [(recorder, request.stripped)] } }
  else none

def credit (request : RecordRequest) (summary : Summary) : Option Council :=
  if (summary.recorderID, request) ∈ council.world.requests ∧
      (request.stripped, summary) ∈ council.world.replies then
    some { council with world := { council.world with
      answers := council.world.answers ++ council.world.copies request summary
      replies := council.world.replies ++ [(request, summary)] } }
  else none

def validate (node : NodeID) (request : RecordRequest) : Option Council :=
  if request ∈ (council.world.replicas node).admitted then do
    ((council.world.core node).validateCheckpointValue codec request.proposal.hash).toOption
    some { council with
      validated := Function.update council.validated node (request :: council.validated node) }
  else none

/-- The locked section of `Record`. The exact certified value of a decided slot needs
no validation. -/
def record (node : NodeID) (request : RecordRequest) : Option Council :=
  if request ∈ council.validated node ∨
      (council.world.core node).exactCertified request = true then do
    let eligible := ((council.world.core node).checkCheckpointRecordEligibility codec
      request.proposal.hash).toOption.isSome
    let world ← council.world.step codec (.perform node (.record request eligible))
    some { council with
      world
      history := Function.update council.history node
        (council.history node ++ (council.world.replicas node).votedMarks codec request) }
  else none

def prepare (node : NodeID) (checkpoint : CheckpointSeal) (payload : Bytes) : Option Council := do
  let eligible :=
    ((council.world.core node).checkPrepare codec checkpoint payload).toOption.isSome
  let world ← council.world.step codec (.perform node (.prepare checkpoint payload eligible))
  some { council with world }

/-- A later `PrepareCheckpoint` takes up a marker whose durability is unresolved. -/
def resume (node : NodeID) (index : ℕ) : Option Council :=
  let replica := council.world.replicas node
  if replica.checkpointFree then do
    let prepared ← replica.core.pendingPrepares.lookup index
    some { council with world := { council.world with
      replicas := Function.update council.world.replicas node
        { replica with pending := replica.wait (.prepare index prepared) } } }
  else none

def step (council : Council) : CouncilEvent → Option Council
  | .proceed event => council.proceed codec event
  | .strip recorder request => council.strip recorder request
  | .credit request summary => council.credit request summary
  | .validate node request => council.validate codec node request
  | .record node request => council.record codec node request
  | .prepare node checkpoint payload => council.prepare codec node checkpoint payload
  | .resume node index => council.resume node index

def run (council : Council) (events : List CouncilEvent) : Option Council :=
  runFrom (step codec) council events

def initial (deployment : World.Deployment) : Council where
  world := World.initial deployment
  validated _ := []
  history _ := []

/-- Every receipt for a seal was appended by a node that had prepared the root of the
seal at its index. -/
def Prepared : Prop := ∀ node, PreparedFirst (council.history node)

/-- The seal is the value decided for some slot. -/
def Seals (checkpoint : CheckpointSeal) : Prop :=
  ∃ slot value, council.world.Chosen slot (codec.sha256 value) ∧
    codec.decodeCheckpointSeal value = .ok (some checkpoint)

/-- Decided seals with one index have one root, and no node reports a conflict. -/
structure SealsAgree : Prop where
  roots : ∀ checkpoint checkpoint', council.Seals codec checkpoint →
    council.Seals codec checkpoint' → checkpoint.index = checkpoint'.index →
      checkpoint.rootHash = checkpoint'.rootHash
  reported : ∀ node entries, entries.Perm (council.world.core node).sealedRoots.entries →
    ∃ latest, latestCheckpointSeal entries = .ok latest

/-- The check outside the lock runs for a seal only with the bytes of the seal in memory. -/
def Safe (event : CouncilEvent) : Prop :=
  ∀ node request value checkpoint, event = .validate node request →
    codec.sha256 value = request.proposal.hash →
    codec.decodeCheckpointSeal value = .ok (some checkpoint) →
      ((council.world.core node).values.lookup request.proposal.hash).isSome

end Council

namespace Replica

variable {codec : Codec} {replica next : Replica} {action : Action} {history : List Mark}
  {position : ℕ}

/-- The prepared checkpoints of a node, and the marks they leave. -/
structure Committed (replica : Replica) (history : List Mark) : Prop extends
    replica.Serial where
  source : ∀ {index root}, replica.core.preparedCheckpoints.lookup index = some root →
    0 < index ∧ .prepared index root ∈ history
  covered : ∀ {index root}, .prepared index root ∈ history → ∃ later root',
    replica.core.preparedCheckpoints.lookup later = some root' ∧ index ≤ later
  unique : ∀ {index root root'}, .prepared index root ∈ history →
    .prepared index root' ∈ history → root = root'
  candidate : ∀ {index prepared}, replica.core.pendingPrepares.lookup index = some prepared →
    0 < index ∧ ∀ {earlier root}, replica.core.preparedCheckpoints.lookup earlier = some root →
      earlier < index

theorem committed_newCore (options : CoreOptions) :
    (opened (newCore options ⟨[], []⟩)).Committed [] :=
  ⟨serial_newCore options, nofun, nofun, nofun, nofun⟩

section Committed

variable (hrep : replica.Committed history)
include hrep

/-- A change that leaves the fence alone and prepares nothing. -/
theorem Committed.congr (hfence : next.core.fencing = replica.core.fencing)
    (hserial : next.Serial) : next.Committed history := by
  obtain ⟨-, -, htable, hpend⟩ := Core.Fencing.mk.inj hfence
  refine ⟨hserial, ?_, ?_, hrep.unique, ?_⟩
  · rw [htable]
    exact hrep.source
  · rw [htable]
    exact hrep.covered
  · rw [htable, hpend]
    exact hrep.candidate

/-- Votes are no preparations. -/
theorem Committed.vote {marks : List Mark} (hvotes : ∀ {index root}, .prepared index root ∉ marks) :
    replica.Committed (history ++ marks) := by
  have hmem : ∀ {index root}, .prepared index root ∈ history ++ marks →
      .prepared index root ∈ history := fun h => (List.mem_append.mp h).resolve_right hvotes
  exact { hrep with
    source := fun hget => ⟨(hrep.source hget).1, List.mem_append_left _ (hrep.source hget).2⟩
    covered := fun hmark => hrep.covered (hmem hmark)
    unique := fun hmark hmark' => hrep.unique (hmem hmark) (hmem hmark') }

theorem Committed.plain (hstep : replica.step codec action = some next)
    (hplain : action.plain = true) : next.Committed history := by
  have hacts := step_performs hstep
  exact hrep.congr (hacts.fencing_eq hplain) (hrep.toSerial.plain hacts hplain)

/-- A new candidate is above everything prepared. -/
theorem Committed.prepare {checkpoint : CheckpointSeal} {payload : Bytes}
    (hstep : replica.step codec (.prepare checkpoint payload (replica.core.checkPrepare codec
      checkpoint payload).toOption.isSome) = some next) :
    next.Committed history := by
  cases step_performs hstep with
  | @prepare _ _ _ core prepared hidle hmade =>
  have hpreps := Core.prepareAppend_prepares hmade
  obtain ⟨-, -, htable, -⟩ := Core.Fencing.mk.inj hpreps.fencing_eq
  have habove : ∀ {earlier root}, replica.core.preparedCheckpoints.lookup earlier = some root →
      earlier < checkpoint.index := by
    intro earlier root hago
    obtain ⟨hpos, -⟩ := hrep.source hago
    obtain ⟨hle, hroot⟩ := Core.checkCheckpointFence_spec hpreps.fence hago hpos
    apply Nat.lt_of_le_of_ne hle
    rintro rfl
    -- The same root would be the newest prepared one already.
    obtain ⟨later, root', hlate, hle', hlater⟩ := Core.exists_latestPrepared hago hpos
    obtain ⟨hbound, -⟩ := Core.checkCheckpointFence_spec hpreps.fence hlater
      (Nat.lt_of_lt_of_le hpos hle')
    obtain rfl : later = checkpoint.index := Nat.le_antisymm hbound hle'
    rw [hago] at hlater
    cases hlater
    exact hpreps.fresh (by rw [hlate, hroot rfl])
  refine ⟨.of_idle hidle fun hget hget' => (hpreps.only hget).1.trans (hpreps.only hget').1.symm,
    ?_, ?_, hrep.unique, ?_⟩
  · rw [htable]
    exact hrep.source
  · rw [htable]
    exact hrep.covered
  · intro index pending hget
    rw [htable, (hpreps.only hget).1]
    exact ⟨hpreps.positive, habove⟩

end Committed

/-- A finished preparation is the only prepared checkpoint. -/
theorem Committed.finish (hrep : replica.Committed history)
    (hstep : replica.step codec (.finish position) = some next) :
    next.Committed (history ++ replica.preparedMarks position) := by
  have hserial := hrep.toSerial.finish hstep
  rcases finish_cases hstep with ⟨hmarks, hfence⟩ |
    ⟨index, prepared, current, -, hnow, -, hmarks, hfence⟩
  · rw [hmarks, List.append_nil]
    exact hrep.congr hfence hserial
  · obtain ⟨hplus, habove⟩ := hrep.candidate hnow
    have hbelow : ∀ {earlier root}, .prepared earlier root ∈ history → earlier < index := by
      intro earlier root hmark
      obtain ⟨later, root', hlater, hle⟩ := hrep.covered hmark
      exact Nat.lt_of_le_of_lt hle (habove hlater)
    obtain ⟨-, -, htable, hpend⟩ := Core.Fencing.mk.inj hfence
    have hmem : ∀ {other root}, .prepared other root ∈ history ++ replica.preparedMarks position →
        .prepared other root ∈ history ∨ other = index ∧ root = prepared.root := by
      intro other root hmark
      rw [hmarks] at hmark
      rcases List.mem_append.mp hmark with hold | hnew
      · exact .inl hold
      · cases List.mem_singleton.mp hnew
        exact .inr ⟨rfl, rfl⟩
    have hempty : ∀ other, next.core.pendingPrepares.lookup other = none := by
      rw [hpend]
      exact Table.lookup_erase_of_single hnow hrep.single
    refine ⟨hserial, ?_, ?_, ?_, ?_⟩
    · intro other root hget
      rw [htable] at hget
      rcases Table.of_lookup_insert hget with ⟨heq, rfl⟩ | hget
      · rw [hmarks, heq]
        exact ⟨hplus, List.mem_append_right _ List.mem_cons_self⟩
      · cases hget
    · intro other root hmark
      refine ⟨index, prepared.root, by rw [htable, AList.lookup_insert], ?_⟩
      rcases hmem hmark with hold | ⟨rfl, -⟩
      · exact Nat.le_of_lt (hbelow hold)
      · exact Nat.le_refl _
    · intro other root root' hmark hmark'
      rcases hmem hmark with hold | ⟨rfl, rfl⟩
      · rcases hmem hmark' with hold' | ⟨rfl, -⟩
        · exact hrep.unique hold hold'
        · exact absurd (hbelow hold) (Nat.lt_irrefl _)
      · rcases hmem hmark' with hold' | ⟨-, rfl⟩
        · exact absurd (hbelow hold') (Nat.lt_irrefl _)
        · rfl
    · intro other pending hget
      rw [hempty] at hget
      cases hget

/-- A compaction keeps the prepared checkpoint at its floor, and all above. -/
theorem Committed.commit (hrep : replica.Committed history)
    (hstep : replica.step codec .compactCommit = some next) : next.Committed history := by
  have hserial := hrep.toSerial.commit hstep
  cases step_performs hstep with
  | @compactCommit running core hgoing _ hfirst hsave =>
  have hroot := hrep.running hgoing hfirst
  obtain ⟨-, verifier, rfl⟩ := Core.compactCommit_eq_ok hsave
  refine ⟨hserial, fun hget => hrep.source (Table.lookup_restrict_some.mp hget).1, ?_,
    hrep.unique, ?_⟩
  · intro index root hmark
    obtain ⟨later, root', hlater, hle⟩ := hrep.covered hmark
    rcases Nat.lt_or_ge later running.base.closedThrough with hbelow | hkept
    · exact ⟨running.base.closedThrough, running.base.recoveryRoot,
        Table.lookup_restrict_some.mpr ⟨hroot, decide_eq_true (Nat.le_refl _)⟩,
        hle.trans (Nat.le_of_lt hbelow)⟩
    · exact ⟨later, root', Table.lookup_restrict_some.mpr ⟨hlater, decide_eq_true hkept⟩, hle⟩
  · intro index prepared hget
    obtain ⟨hplus, habove⟩ := hrep.candidate hget
    exact ⟨hplus, fun hago => habove (Table.lookup_restrict_some.mp hago).1⟩

/-- A later call waits again for an unresolved marker. -/
theorem Committed.resume (hrep : replica.Committed history) {call : Pending}
    (hfree : replica.checkpointFree = true) :
    Committed { replica with pending := replica.wait call } history :=
  { hrep with toSerial := hrep.toSerial.resume hfree }

/-- Bytes in memory hash to their key, and the decided seals are listed by their root. -/
structure Indexed (codec : Codec) (Decided : CheckpointSeal → Prop) (core : Core) : Prop where
  hashed : ∀ {hash value}, core.values.lookup hash = some value → codec.sha256 value = hash
  sealed : ∀ {root entry}, core.sealedRoots.lookup root = some entry →
    entry.checkpointSeal.rootHash = root ∧ Decided entry.checkpointSeal

variable {Decided Decided' : CheckpointSeal → Prop} {core : Core}

theorem Indexed.mono (hcore : Indexed codec Decided core)
    (hmono : ∀ {checkpoint}, Decided checkpoint → Decided' checkpoint) :
    Indexed codec Decided' core :=
  ⟨hcore.hashed, fun hget => ⟨(hcore.sealed hget).1, hmono (hcore.sealed hget).2⟩⟩

theorem Indexed.congr (hcore : Indexed codec Decided core) {next : Core}
    (hdata : next.values = core.values) (hseal : next.sealedRoots = core.sealedRoots) :
    Indexed codec Decided next := by
  refine ⟨?_, ?_⟩
  · rw [hdata]
    exact hcore.hashed
  · rw [hseal]
    exact hcore.sealed

/-- An installation lists the seal that it decides. -/
theorem Indexed.install (hcore : Indexed codec Decided core) {decision : Decision}
    (certificate : Certificate)
    (hhash : codec.sha256 decision.proposal.value = decision.proposal.hash)
    (hdec : ∀ {checkpoint},
      codec.decodeCheckpointSeal decision.proposal.value = .ok (some checkpoint) →
        Decided checkpoint) :
    Indexed codec Decided (core.installDecision codec decision certificate) := by
  refine ⟨?_, ?_⟩
  · intro hash value hget
    simp only [Core.installDecision, Table.lookup_insert_eq] at hget
    split at hget
    · rename_i heq
      cases hget
      rw [heq]
      exact hhash
    · exact hcore.hashed hget
  · intro root entry hget
    simp only [Core.installDecision] at hget
    split at hget
    · rename_i checkpoint hgot
      rcases Table.of_lookup_insert hget with ⟨heq, rfl⟩ | hget
      · exact ⟨heq.symm, hdec hgot⟩
      · exact hcore.sealed hget
    · exact hcore.sealed hget

section Indexed

variable (hcore : Indexed codec Decided replica.core) (hrule : replica.Disciplined codec)
  (hdec : ∀ {decision checkpoint}, replica.Accepted decision →
    codec.decodeCheckpointSeal decision.proposal.value = .ok (some checkpoint) → Decided checkpoint)
include hcore hrule hdec

theorem Indexed.changes (hdid : replica.Changes codec core) : Indexed codec Decided core := by
  cases hdid with
  | staged hhash hnew =>
    refine ⟨?_, hcore.sealed⟩
    intro hash value hget
    rcases Table.of_lookup_insert hget with ⟨heq, rfl⟩ | hget
    · rw [heq]
      exact hhash
    · exact hcore.hashed hget
  | marked hmarks | prepared hmarks =>
    obtain ⟨_, -, rfl⟩ := hmarks
    exact hcore.congr rfl rfl
  | @installed decision _ hyes _ _ hgo =>
    have hlaid := hcore.install (encodeCertificate decision.configID decision)
      (hrule.accepted hyes) fun hgot => hdec hyes hgot
    obtain ⟨_, _, _, _, _, _, _, rfl⟩ := hgo
    exact hlaid.congr rfl rfl
  | advanced hgo =>
    obtain ⟨_, _, _, _, _, _, _, rfl⟩ := hgo
    exact hcore.congr rfl rfl
  | @completed call _ _ =>
    obtain ⟨_, _, _, _, heq⟩ := complete_eq replica.core call.1
    rw [heq]
    exact hcore.congr rfl rfl
  | _ => exact hcore.congr rfl rfl

/-- The values and the seals over every section short of a restart. -/
theorem Indexed.step (hcrash : action ≠ .crash) (hstep : replica.step codec action = some next) :
    Indexed codec Decided next.core := by
  have hacts := step_performs hstep
  by_cases hsave : action = .compactCommit
  · subst hsave
    cases hacts with
    | compactCommit _ _ _ hsave =>
      obtain ⟨-, verifier, rfl⟩ := Core.compactCommit_eq_ok hsave
      exact ⟨fun hget => hcore.hashed (Table.lookup_restrict_some.mp hget).1,
        fun hget => hcore.sealed (Table.lookup_restrict_some.mp hget).1⟩
  · exact hcore.changes hrule hdec (hacts.changes hsave hcrash)

end Indexed

end Replica

end Rhiza.QuePaxa
