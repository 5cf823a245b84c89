import RacerArtifacts.MramTimers

/-! An update once more, with what it keeps of the refresh bookkeeping, the energies and the power-down
flags, and with the times of the transactions it takes. -/

namespace RacerArtifacts.Mram

open Fallible MemoryController

variable {cfg : Config}

namespace MemorySystem

variable {s s' t u : MemorySystem}

/-- The accounts of the energies. -/
structure SameEnergies (s t : MemorySystem) : Prop where
  burst_eq : t.memoryController.burstEnergy = s.memoryController.burstEnergy
  actpre_eq : t.memoryController.actpreEnergy = s.memoryController.actpreEnergy
  refresh_eq : t.memoryController.refreshEnergy = s.memoryController.refreshEnergy
  background_eq : t.memoryController.backgroundEnergy = s.memoryController.backgroundEnergy

theorem SameEnergies.trans (h : SameEnergies s t) (h' : SameEnergies t u) : SameEnergies s u where
  burst_eq := h'.burst_eq.trans h.burst_eq
  actpre_eq := h'.actpre_eq.trans h.actpre_eq
  refresh_eq := h'.refresh_eq.trans h.refresh_eq
  background_eq := h'.background_eq.trans h.background_eq

theorem ranks_energies (h : (List.range cfg.numRanks).foldlM (updateRank cfg) s = .ok t) :
    SameEnergies s t ∧ t.history.accepted = s.history.accepted := by
  refine foldlM_range_ok (P := fun _ t => SameEnergies s t ∧ t.history.accepted = s.history.accepted)
    ⟨⟨rfl, rfl, rfl, rfl⟩, rfl⟩ (fun i _ t t' ih hstep => ?_) h
  have hsame : SameEnergies t t' ∧ t'.history.accepted = t.history.accepted := by
    obtain ⟨received, rank, -, ⟨-, rfl⟩ | ⟨p, reads, -, rfl⟩⟩ := updateRank_ok hstep
    · exact ⟨⟨rfl, rfl, rfl, rfl⟩, rfl⟩
    · exact ⟨⟨rfl, rfl, rfl, rfl⟩, rfl⟩
  exact ⟨ih.1.trans hsame.1, hsame.2.trans ih.2⟩

theorem sendCommand_energies (h : s.sendCommand cfg = .ok t) :
    SameEnergies s t ∧ t.history.accepted = s.history.accepted := by
  rcases sendCommand_ok h with ⟨-, rfl⟩ | ⟨p, left, -, -, ⟨-, rfl⟩ | ⟨-, ranks, -, rfl⟩⟩
  · exact ⟨⟨rfl, rfl, rfl, rfl⟩, rfl⟩
  · exact ⟨⟨rfl, rfl, rfl, rfl⟩, rfl⟩
  · exact ⟨⟨rfl, rfl, rfl, rfl⟩, rfl⟩

theorem sendWriteData_energies (h : s.sendWriteData cfg = .ok t) :
    SameEnergies s t ∧ t.history.accepted = s.history.accepted := by
  rcases sendWriteData_ok h with ⟨-, rfl⟩ | ⟨p, left, -, -, ⟨-, rfl⟩ | ⟨-, ranks, -, rfl⟩⟩
  · exact ⟨⟨rfl, rfl, rfl, rfl⟩, rfl⟩
  · exact ⟨⟨rfl, rfl, rfl, rfl⟩, rfl⟩
  · exact ⟨⟨rfl, rfl, rfl, rfl⟩, rfl⟩

theorem startWriteData_energies (h : s.startWriteData cfg = .ok t) :
    SameEnergies s t ∧ t.history.accepted = s.history.accepted := by
  obtain ⟨mc, hmc, rfl⟩ := map_ok h
  rcases startWriteData_ok hmc with ⟨-, -, hmc⟩ | ⟨_, _, _, _, _, -, -, -, rfl⟩
  · rw [hmc]
    exact ⟨⟨rfl, rfl, rfl, rfl⟩, rfl⟩
  · exact ⟨⟨rfl, rfl, rfl, rfl⟩, rfl⟩

/-- What the check for a refresh makes of the refresh bookkeeping depends on that only. -/
theorem checkRefresh_bookkeeping (cfg : Config)
    (hrank : t.memoryController.refreshRank = s.memoryController.refreshRank)
    (hcountdown : t.memoryController.refreshCountdown = s.memoryController.refreshCountdown) :
    (t.checkRefresh cfg).memoryController.refreshRank = (s.checkRefresh cfg).memoryController.refreshRank ∧
      (t.checkRefresh cfg).memoryController.refreshCountdown =
        (s.checkRefresh cfg).memoryController.refreshCountdown := by
  rw [checkRefresh, checkRefresh]
  rw [hcountdown, hrank]
  by_cases hzero : s.memoryController.refreshCountdown s.memoryController.refreshRank = 0
  · rw [if_pos hzero, if_pos hzero]
    exact ⟨rfl, rfl⟩
  · rw [if_neg hzero, if_neg hzero]
    constructor
    · split_ifs <;> exact hrank
    · split_ifs <;> exact hcountdown

/-- The state at which a cycle pops its command, as far as the pop leaves it alone. -/
structure Opened (cfg : Config) (s t : MemorySystem) : Prop extends Prepared cfg s t, SameEnergies s t where
  refreshRank_eq : t.memoryController.refreshRank = (s.checkRefresh cfg).memoryController.refreshRank
  countdown_eq : t.memoryController.refreshCountdown = (s.checkRefresh cfg).memoryController.refreshCountdown
  taken_time : ∃ taken, t.history.accepted = s.history.accepted ++ taken ∧
    ∀ x ∈ taken, x.timeAdded = s.memoryController.currentClockCycle

/-- The end of a cycle: the clocks go on, and the background energy is added. -/
structure Closed (cfg : Config) (u s' : MemorySystem) : Prop extends Finished u s' where
  queue_eq : s'.memoryController.commandQueue = u.memoryController.commandQueue.step
  banks_eq : s'.memoryController.bankStates = u.memoryController.bankStates
  refreshRank_eq : s'.memoryController.refreshRank = u.memoryController.refreshRank
  countdown_eq : s'.memoryController.refreshCountdown = u.memoryController.refreshCountdown
  energies : SameEnergies (u.addBackgroundEnergy cfg) s'

/-- **An update, with all that it keeps.** -/
theorem update_cycle (h : s.update cfg = .ok s') :
    ∃ t t' u, Opened cfg s t ∧ t.popCommand cfg = .ok t' ∧ t'.schedule cfg = .ok u ∧ Closed cfg u s' := by
  obtain ⟨s₁, s₂, s₃, s₄, t', u, s₇, h₁, h₂, h₃, h₄, h₅, h₆, h₇, rfl⟩ := update_ok h
  refine ⟨s₄.checkRefresh cfg, t', u, ?_, h₅, h₆, ?_⟩
  · obtain ⟨hranks, -⟩ := waits_ranks h₁
    obtain ⟨hcommand, -⟩ := waits_sendCommand h₂
    obtain ⟨hsend, -⟩ := waits_sendWriteData h₃
    obtain ⟨hstart, -⟩ := waits_startWriteData h₄
    have hafter := hcommand.trans (hsend.trans hstart)
    obtain ⟨hranks', haccepted₁⟩ := ranks_energies h₁
    obtain ⟨hcommand', haccepted₂⟩ := sendCommand_energies h₂
    obtain ⟨hsend', haccepted₃⟩ := sendWriteData_energies h₃
    obtain ⟨hstart', haccepted₄⟩ := startWriteData_energies h₄
    have hafter' := hcommand'.trans (hsend'.trans hstart')
    obtain ⟨taken, pending, htime, htaken⟩ := takePending_eq cfg s₁
    obtain ⟨ranks, waiting, rank, countdown, next, -, heq⟩ := checkRefresh_eq cfg s₄
    have hbefore : Waits s (s₁.takePending cfg) := hranks.trans (waits_takePending cfg s₁).1
    have hbefore' : SameEnergies s (s₁.takePending cfg).idleBanks := by
      rw [htaken]
      exact ⟨hranks'.burst_eq, hranks'.actpre_eq, hranks'.refresh_eq, hranks'.background_eq⟩
    have hbook := checkRefresh_bookkeeping cfg (hafter.refreshRank_eq.trans hbefore.refreshRank_eq)
      (hafter.countdown_eq.trans hbefore.countdown_eq)
    have henergies := hbefore'.trans hafter'
    refine ⟨prepared_of_phases h₁ h₂ h₃ h₄, ?_, hbook.1, hbook.2, taken, ?_, ?_⟩
    · rw [heq]
      exact ⟨henergies.burst_eq, henergies.actpre_eq, henergies.refresh_eq, henergies.background_eq⟩
    · rw [heq]
      change s₄.history.accepted = _
      rw [haccepted₄, haccepted₃, haccepted₂]
      change (s₁.takePending cfg).history.accepted = _
      rw [htaken, ← haccepted₁]
    · rw [← hranks.clock_eq]
      exact htime
  · have hfinished := finished_of_phases h₇
    obtain ⟨r, hr, rfl⟩ := map_ok h₇
    obtain ⟨returned, mc⟩ := r
    rcases returnData_ok hr with ⟨-, rfl, rfl⟩ | ⟨_, _, _, _, _, _, _, _, -, -, -, -, rfl, rfl⟩
    · exact ⟨hfinished, rfl, rfl, rfl, rfl, rfl, rfl, rfl, rfl⟩
    · exact ⟨hfinished, rfl, rfl, rfl, rfl, rfl, rfl, rfl, rfl⟩

end MemorySystem

end RacerArtifacts.Mram
