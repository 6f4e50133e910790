import Rhiza.QuePaxa.Discipline
import Rhiza.QuePaxa.Quiet

/-! # The certified prefix

The tip of a replica only moves forward until the replica crashes: controls leave it
in place, an applied decision moves it by one slot, and a compaction takes over a
verifier that stands at the same tip.
-/

namespace Rhiza.QuePaxa

open Foundations

namespace Core

variable {codec : Codec} {core next : Core}

theorem acceptInstall_tip_le (codec : Codec) (core : Core) (decision : Decision)
    (configID : ℕ) : core.tip ≤ (core.acceptInstall codec decision configID).1.tip := by
  rcases acceptInstall_climbs codec core decision configID with hup | ⟨-, -, hup⟩
  · exact hup.tip_le
  · exact hup.tip_le

/-- What storing a decision and advancing the prefix preserve holds of the verifier. -/
theorem verifySuffix_induction {motive : Core → Prop} {values : List DecidedValue}
    (hbox : ∀ core decided, motive core → motive { core with decided })
    (hgo : ∀ core, motive core → motive (core.advance codec).1)
    (htest : verifySuffix codec values core = .ok next) (hcore : motive core) : motive next := by
  induction values generalizing core with
  | nil =>
    cases htest
    exact hcore
  | cons value rest ih =>
    obtain ⟨decision, -, htest⟩ := bind_eq_ok.mp htest
    obtain ⟨-, htest⟩ := seq_eq_ok.mp htest
    split at htest
    · cases htest
    · rename_i middle hmid
      have hnext := hgo _ (hbox core (core.decided.insert value.slot value) hcore)
      rw [hmid] at hnext
      exact ih htest hnext

/-- The switch of a compaction keeps the tip: the verifier has to stand at it. -/
theorem compactCommit_tip {running : RunningCompaction}
    (hsave : core.compactCommit codec running = .ok next) : next.tip = core.tip := by
  obtain ⟨-, hsave⟩ := seq_eq_ok.mp hsave
  obtain ⟨verifier, htest, hnext⟩ := bind_eq_ok.mp hsave
  cases hnext
  obtain ⟨rebuilt, -, htest⟩ := bind_eq_ok.mp htest
  simp only [seq_eq_ok, require_eq_ok, Except.ok.injEq] at htest
  obtain ⟨⟨htip, -⟩, -, rfl⟩ := htest
  exact htip

end Core

namespace Replica

variable {codec : Codec} {replica next : Replica} {action : Action}

/-- Until a crash the tip only moves forward. -/
theorem step_tip_le (hcrash : action ≠ .crash) (hstep : replica.step codec action = some next) :
    replica.core.tip ≤ next.core.tip := by
  by_cases hquiet : action.quiet = true
  · exact (congrArg Ledger.tip (step_quiet hquiet hstep).ledger).ge
  cases step_performs hstep with
  | crash => exact absurd rfl hcrash
  | install => exact Core.acceptInstall_tip_le ..
  | compactCommit hgoing hbar hfirst hsave => exact (Core.compactCommit_tip hsave).ge
  | compactBegin hidle hbar hfree hbegin =>
    obtain ⟨rfl, -⟩ := Core.compactBegin_eq_ok hbegin
    exact le_refl _
  | compactFinish => exact le_refl _
  | record hlet hjot =>
    rcases (Core.recordApply_cases hjot).2 with ⟨decided, hdec, hsay⟩ |
        ⟨-, -, -, hsay⟩
    · have hmarks := (Core.answerDecided_spec hdec hsay).1
      exact (congrArg Ledger.tip hmarks.ledger).ge
    · cases hsay
      exact le_refl _
  | _ => exact absurd rfl hquiet

end Replica

namespace Core

variable {codec : Codec} {config : Cluster} {core next : Core}

/-- Without reconfiguration the first configuration is the only one. -/
structure Genesis (config : Cluster) (core : Core) : Prop where
  fixed : core.reconfigEnabled = false
  config_eq : core.config = config
  history : core.configHistory = [⟨1, config⟩]

section Genesis

variable (hcore : core.Genesis config) {base : ConsensusBase}
include hcore

/-- A replica of the same cluster starts with its configuration. -/
theorem Genesis.restart {options : CoreOptions} (hconfig : options.config = core.config)
    (henabled : options.reconfigEnabled = core.reconfigEnabled) (wal : WAL) :
    (newCore options wal).Genesis config := by
  refine ⟨henabled.trans hcore.fixed, hconfig.trans hcore.config_eq, ?_⟩
  rw [← hcore.config_eq, ← hconfig]
  rfl

theorem Genesis.clusterForSlot_eq (slot : ℕ) : core.clusterForSlot slot = config := by
  by_cases hslot : 1 ≤ slot <;>
    simp [clusterForSlot, epochForSlot, hcore.history, hcore.config_eq, hslot]

theorem Genesis.installMembershipBase_eq
    (hput : core.installMembershipBase codec base = .ok next) : next = core := by
  simp only [installMembershipBase, hcore.fixed, Bool.false_eq_true, if_false] at hput
  split at hput
  · cases hput
  · cases hput
    rfl

theorem Genesis.advance (codec : Codec) : (core.advance codec).1.Genesis config := by
  have hpast : (core.advance codec).1.configHistory = core.configHistory := by
    simp only [Core.advance, hcore.fixed, Bool.false_eq_true, if_false]
    exact advanceTipLoop_configHistory _ core
  obtain ⟨_, _, _, _, _, _, _, heq⟩ := advance_advances codec core
  refine ⟨?_, ?_, hpast.trans hcore.history⟩
  · rw [heq]
    exact hcore.fixed
  · rw [heq]
    exact hcore.config_eq

theorem Genesis.verifySuffix {values : List DecidedValue}
    (htest : verifySuffix codec values core = .ok next) : next.Genesis config := by
  apply verifySuffix_induction (motive := Genesis config) _ _ htest hcore
  · intro core decided hcore
    exact ⟨hcore.fixed, hcore.config_eq, hcore.history⟩
  · intro core hcore
    exact hcore.advance codec

theorem Genesis.verifyBaseSuffix
    (htest : core.verifyBaseSuffix codec base = .ok next) : next.Genesis config := by
  obtain ⟨verifier, hredo, htest⟩ := bind_eq_ok.mp htest
  simp only [seq_eq_ok, Except.ok.injEq] at htest
  obtain ⟨-, -, rfl⟩ := htest
  obtain ⟨anchored, htie, hredo⟩ := bind_eq_ok.mp hredo
  obtain ⟨based, hbased, hsuffix⟩ := bind_eq_ok.mp hredo
  have htied : anchored.Genesis config := by
    unfold installGenerationAnchorBase at htie
    split at htie
    · cases htie
    · cases htie
      have hfresh := hcore.restart rfl rfl ⟨[], []⟩
      exact ⟨hfresh.fixed, hfresh.config_eq, hfresh.history⟩
  obtain rfl := htied.installMembershipBase_eq hbased
  have hbase : (based.installBase base).Genesis config :=
    ⟨htied.fixed, htied.config_eq, htied.history⟩
  exact hbase.verifySuffix hsuffix

end Genesis

theorem Genesis.recoverEntries {entries : List Entry} {state final : Core × List CheckpointSeal}
    (hstate : state.1.Genesis config)
    (hscan : recoverEntries codec state entries = .ok final) : final.1.Genesis config := by
  have hstep : ∀ {before : List Entry} {entry : Entry} {after : List Entry} {core next : Core},
      before ++ entry :: after = entries → core.Genesis config → core.Replays codec entry next →
        next.Genesis config := by
    intro before entry after core next _ hcore hreps
    cases hreps with
    | @base _ generationAnchorHash _ hbased =>
      have htied : Genesis config { core with generationAnchorHash } :=
        ⟨hcore.fixed, hcore.config_eq, hcore.history⟩
      obtain rfl := htied.installMembershipBase_eq hbased
      exact ⟨hcore.fixed, hcore.config_eq, hcore.history⟩
    | _ => exact ⟨hcore.fixed, hcore.config_eq, hcore.history⟩
  exact recoverEntries_induction hstep hscan hstate

theorem Genesis.reopen (hcore : core.Genesis config) (hopen : core.reopen codec = .ok next) :
    next.Genesis config := by
  obtain ⟨scanned, prepared, decisions, hscan, hpicks, _, _, _, rfl, -, -⟩ := reopen_eq_ok hopen
  have hscanned : scanned.Genesis config := Genesis.recoverEntries (hcore.restart rfl rfl _) hscan
  unfold recoverDecisions at hpicks
  rw [if_neg (by simp [hscanned.fixed])] at hpicks
  obtain ⟨-, hpicks⟩ := seq_eq_ok.mp hpicks
  cases hpicks
  have hgo := hscanned.advance codec
  simp only [Core.advance, hscanned.fixed, Bool.false_eq_true, if_false] at hgo
  exact ⟨hgo.fixed, hgo.config_eq, hgo.history⟩

end Core

/-- In a fixed cluster no section changes the configuration. -/
theorem Replica.step_genesis {codec : Codec} {config : Cluster} {replica next : Replica}
    {action : Action} (hrep : replica.core.Genesis config)
    (hstep : replica.step codec action = some next) : next.core.Genesis config := by
  have hoptions := (step_performs hstep).options_eq
  refine ⟨(congrArg CoreOptions.reconfigEnabled hoptions).trans hrep.fixed,
    (congrArg CoreOptions.config hoptions).trans hrep.config_eq, ?_⟩
  by_cases hquiet : action.quiet = true
  · exact (congrArg Ledger.configHistory (step_quiet hquiet hstep).ledger).trans hrep.history
  cases step_performs hstep with
  | record _ hjot =>
    rcases (Core.recordApply_cases hjot).2 with ⟨decided, hdec, hsay⟩ | ⟨-, -, -, hsay⟩
    · have hmarks := (Core.answerDecided_spec hdec hsay).1
      exact (congrArg Ledger.configHistory hmarks.ledger).trans hrep.history
    · cases hsay
      exact hrep.history
  | install => exact (Core.acceptInstall_configHistory hrep.fixed ..).trans hrep.history
  | crash hopen => exact (hrep.reopen hopen).history
  | compactFinish => exact hrep.history
  | compactBegin hidle hbar hfree hbegin =>
    obtain ⟨rfl, -⟩ := Core.compactBegin_eq_ok hbegin
    exact hrep.history
  | compactCommit hgoing hbar hfirst hsave =>
    obtain ⟨-, hsave⟩ := seq_eq_ok.mp hsave
    obtain ⟨verifier, htest, hnext⟩ := bind_eq_ok.mp hsave
    cases hnext
    exact (hrep.verifyBaseSuffix htest).history
  | _ => exact absurd rfl hquiet

end Rhiza.QuePaxa
