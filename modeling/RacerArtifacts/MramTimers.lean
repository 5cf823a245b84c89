import RacerArtifacts.MramCycle

/-! The state that decides which command is issued when: queues, timers and clocks, and the record of the
commands issued. The invariants here hold between any two updates of a run under the close-page policy,
and give the spacing of the commands of one rank. -/

namespace RacerArtifacts.Mram

open Fallible MemoryController

variable {cfg : Config}

namespace MemorySystem

variable {s s' t u : MemorySystem}

/-- A phase that leaves the command queue, the banks and the record alone, and may take transactions. -/
structure Waits (s t : MemorySystem) : Prop where
  queue_eq : t.memoryController.commandQueue = s.memoryController.commandQueue
  banks_eq : t.memoryController.bankStates = s.memoryController.bankStates
  clock_eq : t.memoryController.currentClockCycle = s.memoryController.currentClockCycle
  refreshRank_eq : t.memoryController.refreshRank = s.memoryController.refreshRank
  countdown_eq : t.memoryController.refreshCountdown = s.memoryController.refreshCountdown
  issued_eq : t.history.issued = s.history.issued
  taken : ∃ taken, t.memoryController.transactionQueue = s.memoryController.transactionQueue ++ taken ∧
    t.history.accepted = s.history.accepted ++ taken

theorem Waits.trans (h : Waits s t) (h' : Waits t u) : Waits s u where
  queue_eq := h'.queue_eq.trans h.queue_eq
  banks_eq := h'.banks_eq.trans h.banks_eq
  clock_eq := h'.clock_eq.trans h.clock_eq
  refreshRank_eq := h'.refreshRank_eq.trans h.refreshRank_eq
  countdown_eq := h'.countdown_eq.trans h.countdown_eq
  issued_eq := h'.issued_eq.trans h.issued_eq
  taken := by
    obtain ⟨taken, hqueue, haccepted⟩ := h.taken
    obtain ⟨taken', hqueue', haccepted'⟩ := h'.taken
    refine ⟨taken ++ taken', ?_, ?_⟩
    · rw [hqueue', hqueue, List.append_assoc]
    · rw [haccepted', haccepted, List.append_assoc]

theorem taken_nil (hqueue : t.memoryController.transactionQueue = s.memoryController.transactionQueue)
    (haccepted : t.history.accepted = s.history.accepted) :
    ∃ taken, t.memoryController.transactionQueue = s.memoryController.transactionQueue ++ taken ∧
      t.history.accepted = s.history.accepted ++ taken :=
  ⟨[], hqueue.trans (List.append_nil _).symm, haccepted.trans (List.append_nil _).symm⟩

/-- The command bus is left alone. -/
def SameBus (s t : MemorySystem) : Prop :=
  t.memoryController.outgoingCmdPacket = s.memoryController.outgoingCmdPacket ∧
    t.memoryController.cmdCyclesLeft = s.memoryController.cmdCyclesLeft

theorem SameBus.trans (h : SameBus s t) (h' : SameBus t u) : SameBus s u :=
  ⟨h'.1.trans h.1, h'.2.trans h.2⟩

theorem waits_ranks (h : (List.range cfg.numRanks).foldlM (updateRank cfg) s = .ok t) : Waits s t ∧
    SameBus s t := by
  refine foldlM_range_ok (P := fun _ t => Waits s t ∧ SameBus s t)
    ⟨⟨rfl, rfl, rfl, rfl, rfl, rfl, taken_nil rfl rfl⟩, rfl, rfl⟩ (fun i _ t t' ih hstep => ?_) h
  have hwaits : Waits t t' ∧ SameBus t t' := by
    obtain ⟨received, rank, -, ⟨-, rfl⟩ | ⟨p, reads, -, rfl⟩⟩ := updateRank_ok hstep
    · exact ⟨⟨rfl, rfl, rfl, rfl, rfl, rfl, taken_nil rfl rfl⟩, rfl, rfl⟩
    · exact ⟨⟨rfl, rfl, rfl, rfl, rfl, rfl, taken_nil rfl rfl⟩, rfl, rfl⟩
  exact ⟨ih.1.trans hwaits.1, ih.2.trans hwaits.2⟩

theorem waits_takePending (cfg : Config) (s : MemorySystem) :
    Waits s (s.takePending cfg) ∧ SameBus s (s.takePending cfg) := by
  obtain ⟨taken, pending, -, htaken⟩ := takePending_eq cfg s
  rw [htaken]
  exact ⟨⟨rfl, rfl, rfl, rfl, rfl, rfl, taken, rfl, rfl⟩, rfl, rfl⟩

theorem waits_sendCommand (h : s.sendCommand cfg = .ok t) :
    Waits s t ∧ ((∀ p, s.memoryController.outgoingCmdPacket = some p → s.memoryController.cmdCyclesLeft = 1) →
      t.memoryController.outgoingCmdPacket = none) := by
  rcases sendCommand_ok h with ⟨hnone, rfl⟩ | ⟨p, left, hp, hleft, ⟨hne, rfl⟩ | ⟨-, ranks, -, rfl⟩⟩
  · exact ⟨⟨rfl, rfl, rfl, rfl, rfl, rfl, taken_nil rfl rfl⟩, fun _ => hnone⟩
  · refine ⟨⟨rfl, rfl, rfl, rfl, rfl, rfl, taken_nil rfl rfl⟩, fun hone => absurd hleft ?_⟩
    rw [hone p hp]
    exact hne
  · exact ⟨⟨rfl, rfl, rfl, rfl, rfl, rfl, taken_nil rfl rfl⟩, fun _ => rfl⟩

theorem waits_sendWriteData (h : s.sendWriteData cfg = .ok t) : Waits s t ∧ SameBus s t := by
  rcases sendWriteData_ok h with ⟨-, rfl⟩ | ⟨p, left, -, -, ⟨-, rfl⟩ | ⟨-, ranks, -, rfl⟩⟩
  · exact ⟨⟨rfl, rfl, rfl, rfl, rfl, rfl, taken_nil rfl rfl⟩, rfl, rfl⟩
  · exact ⟨⟨rfl, rfl, rfl, rfl, rfl, rfl, taken_nil rfl rfl⟩, rfl, rfl⟩
  · exact ⟨⟨rfl, rfl, rfl, rfl, rfl, rfl, taken_nil rfl rfl⟩, rfl, rfl⟩

theorem waits_startWriteData (h : s.startWriteData cfg = .ok t) : Waits s t ∧ SameBus s t := by
  obtain ⟨mc, hmc, rfl⟩ := map_ok h
  rcases startWriteData_ok hmc with ⟨-, -, hmc⟩ | ⟨_, _, _, _, _, -, -, -, rfl⟩
  · rw [hmc]
    exact ⟨⟨rfl, rfl, rfl, rfl, rfl, rfl, taken_nil rfl rfl⟩, rfl, rfl⟩
  · exact ⟨⟨rfl, rfl, rfl, rfl, rfl, rfl, taken_nil rfl rfl⟩, rfl, rfl⟩

/-- Up to the command on the bus an update leaves the record of the commands and the clock alone. -/
theorem record_of_phases {s₁ s₂ : MemorySystem}
    (h₁ : (List.range cfg.numRanks).foldlM (updateRank cfg) s = .ok s₁)
    (h₂ : (s₁.takePending cfg).idleBanks.sendCommand cfg = .ok s₂) : s₂.history.issued = s.history.issued ∧
      s₂.memoryController.currentClockCycle = s.memoryController.currentClockCycle := by
  have hbefore : Waits s (s₁.takePending cfg) := (waits_ranks h₁).1.trans (waits_takePending cfg s₁).1
  have hcommand := (waits_sendCommand h₂).1
  exact ⟨hcommand.issued_eq.trans hbefore.issued_eq, hcommand.clock_eq.trans hbefore.clock_eq⟩

/-- What the check for a refresh makes of the command queue depends on the refresh bookkeeping only. -/
theorem checkRefresh_queue (hqueue : t.memoryController.commandQueue = s.memoryController.commandQueue)
    (hrank : t.memoryController.refreshRank = s.memoryController.refreshRank)
    (hcountdown : t.memoryController.refreshCountdown = s.memoryController.refreshCountdown) :
    (t.checkRefresh cfg).memoryController.commandQueue =
      (s.checkRefresh cfg).memoryController.commandQueue := by
  rw [checkRefresh, checkRefresh]
  rw [hcountdown, hrank]
  by_cases hzero : s.memoryController.refreshCountdown s.memoryController.refreshRank = 0
  · rw [if_pos hzero, if_pos hzero]
    dsimp only
    rw [hqueue]
  · rw [if_neg hzero, if_neg hzero]
    split_ifs <;> exact hqueue

/-- The check for a refresh leaves the search of the cycle alone. -/
theorem checkRefresh_same (cfg : Config) (s : MemorySystem) :
    (s.checkRefresh cfg).memoryController.commandQueue.queues = s.memoryController.commandQueue.queues ∧
      (s.checkRefresh cfg).memoryController.commandQueue.currentClockCycle =
        s.memoryController.commandQueue.currentClockCycle := by
  obtain ⟨ranks, waiting, rank, countdown, next, -, heq⟩ := checkRefresh_eq cfg s
  rw [heq]
  exact ⟨rfl, rfl⟩

/-- The state at which a cycle pops its command: the banks are idle, transactions may have been taken, and
the refresh that is due has been asked for. -/
structure Prepared (cfg : Config) (s t : MemorySystem) : Prop where
  queue_eq : t.memoryController.commandQueue = (s.checkRefresh cfg).memoryController.commandQueue
  banks_eq : t.memoryController.bankStates = s.memoryController.idleBanks.bankStates
  clock_eq : t.memoryController.currentClockCycle = s.memoryController.currentClockCycle
  issued_eq : t.history.issued = s.history.issued
  taken : ∃ taken, t.memoryController.transactionQueue = s.memoryController.transactionQueue ++ taken ∧
    t.history.accepted = s.history.accepted ++ taken
  bus : (∀ p, s.memoryController.outgoingCmdPacket = some p → s.memoryController.cmdCyclesLeft = 1) →
    t.memoryController.outgoingCmdPacket = none

theorem Prepared.idle (h : Prepared cfg s t) (r b : ℕ) :
    (t.memoryController.bankStates r b).currentBankState = .idle := by
  rw [h.banks_eq]
  rfl

theorem Prepared.next_eq (h : Prepared cfg s t) (r b : ℕ) (command : BusPacketType) :
    (t.memoryController.bankStates r b).next command = (s.memoryController.bankStates r b).next command := by
  rw [h.banks_eq]
  rfl

/-- The state after a cycle: the clocks have gone on. -/
structure Finished (u s' : MemorySystem) : Prop where
  queues_eq : s'.memoryController.commandQueue.queues = u.memoryController.commandQueue.queues
  queueClock_eq : s'.memoryController.commandQueue.currentClockCycle =
    u.memoryController.commandQueue.currentClockCycle + 1
  counters_eq : s'.memoryController.commandQueue.rowAccessCounters =
    u.memoryController.commandQueue.rowAccessCounters
  clock_eq : s'.memoryController.currentClockCycle = u.memoryController.currentClockCycle + 1
  next_eq : ∀ r b command,
    (s'.memoryController.bankStates r b).next command = (u.memoryController.bankStates r b).next command
  issued_eq : s'.history.issued = u.history.issued
  transactionQueue_eq : s'.memoryController.transactionQueue = u.memoryController.transactionQueue
  accepted_eq : s'.history.accepted = u.history.accepted
  bus_eq : s'.memoryController.outgoingCmdPacket = u.memoryController.outgoingCmdPacket ∧
    s'.memoryController.cmdCyclesLeft = u.memoryController.cmdCyclesLeft

theorem prepared_of_phases {s₁ s₂ s₃ s₄ : MemorySystem}
    (h₁ : (List.range cfg.numRanks).foldlM (updateRank cfg) s = .ok s₁)
    (h₂ : (s₁.takePending cfg).idleBanks.sendCommand cfg = .ok s₂) (h₃ : s₂.sendWriteData cfg = .ok s₃)
    (h₄ : s₃.startWriteData cfg = .ok s₄) : Prepared cfg s (s₄.checkRefresh cfg) := by
  obtain ⟨hranks, hbus₁⟩ := waits_ranks h₁
  obtain ⟨hpending, hbus₂⟩ := waits_takePending cfg s₁
  obtain ⟨hcommand, hbus₄⟩ := waits_sendCommand h₂
  obtain ⟨hsend, hbus₅⟩ := waits_sendWriteData h₃
  obtain ⟨hstart, hbus₆⟩ := waits_startWriteData h₄
  have hbefore := hranks.trans hpending
  have hafter := hcommand.trans (hsend.trans hstart)
  have hbus : (∀ p, s.memoryController.outgoingCmdPacket = some p → s.memoryController.cmdCyclesLeft = 1) →
      s₄.memoryController.outgoingCmdPacket = none := by
    intro hone
    have hsame := hbus₁.trans hbus₂
    rw [(hbus₅.trans hbus₆).1]
    refine hbus₄ fun p hp => hsame.2.trans (hone p (hsame.1.symm.trans hp))
  obtain ⟨ranks, waiting, rank, countdown, next, -, heq⟩ := checkRefresh_eq cfg s₄
  refine ⟨checkRefresh_queue (hafter.queue_eq.trans hbefore.queue_eq)
    (hafter.refreshRank_eq.trans hbefore.refreshRank_eq) (hafter.countdown_eq.trans hbefore.countdown_eq), ?_,
      ?_, ?_, ?_, ?_⟩
  · rw [heq]
    apply hafter.banks_eq.trans
    change (s₁.takePending cfg).memoryController.idleBanks.bankStates = _
    rw [MemoryController.idleBanks, hbefore.banks_eq]
    rfl
  · rw [heq]
    exact hafter.clock_eq.trans hbefore.clock_eq
  · rw [heq]
    exact hafter.issued_eq.trans hbefore.issued_eq
  · rw [heq]
    obtain ⟨taken, hqueue, haccepted⟩ := hbefore.taken
    obtain ⟨taken', hqueue', haccepted'⟩ := hafter.taken
    refine ⟨taken ++ taken', ?_, ?_⟩
    · rw [← List.append_assoc, ← hqueue]
      exact hqueue'
    · rw [← List.append_assoc, ← haccepted]
      exact haccepted'
  · rw [heq]
    exact hbus

theorem finished_of_phases {s₇ : MemorySystem} (h₇ : (u.addBackgroundEnergy cfg).returnData cfg = .ok s₇) :
    Finished u s₇.stepClocks := by
  obtain ⟨r, hr, rfl⟩ := map_ok h₇
  obtain ⟨returned, mc⟩ := r
  rcases returnData_ok hr with ⟨-, rfl, rfl⟩ | ⟨_, _, _, _, _, _, _, _, -, -, -, -, rfl, rfl⟩
  · exact ⟨rfl, rfl, rfl, rfl, fun _ _ _ => rfl, rfl, rfl, rfl, rfl, rfl⟩
  · exact ⟨rfl, rfl, rfl, rfl, fun _ _ _ => rfl, rfl, rfl, rfl, rfl, rfl⟩

/-- **An update, as the schedule sees it**: the cycle is prepared, a command is popped, a transaction is
scheduled, and the clocks go on. -/
theorem update_control (h : s.update cfg = .ok s') :
    ∃ t t' u, Prepared cfg s t ∧ t.popCommand cfg = .ok t' ∧ t'.schedule cfg = .ok u ∧ Finished u s' := by
  obtain ⟨s₁, s₂, s₃, s₄, t', u, s₇, h₁, h₂, h₃, h₄, h₅, h₆, h₇, rfl⟩ := update_ok h
  exact ⟨s₄.checkRefresh cfg, t', u, prepared_of_phases h₁ h₂ h₃ h₄, h₅, h₆, finished_of_phases h₇⟩

end MemorySystem

/-- A packet that lies in the queue of its own place. -/
structure Placed (cfg : Config) (r b : ℕ) (p : BusPacket) : Prop where
  column : p.IsColumn
  rank_eq : p.rank = r
  slot_eq : cfg.slot p.bank = b
  mapped_rank : p.rank = (addressMapping cfg p.physicalAddress 0).rank
  mapped_bank : p.bank = (addressMapping cfg p.physicalAddress 0).bank
  hasQueue : cfg.HasQueue r b

theorem CommandQueue.setCommandQueue_queues (cfg : Config) (cq : CommandQueue) (rank bank : ℕ)
    (queue : List BusPacket) (r b : ℕ) : (cq.setCommandQueue cfg rank bank queue).queues r b =
      if r = rank ∧ b = cfg.slot bank then queue else cq.queues r b := by
  rw [setCommandQueue]
  dsimp only
  by_cases hr : r = rank
  · subst hr
    rw [Function.update_self]
    by_cases hb : b = cfg.slot bank
    · subst hb
      rw [Function.update_self, if_pos ⟨rfl, rfl⟩]
    · rw [Function.update_of_ne hb, if_neg fun h => hb h.2]
  · rw [Function.update_of_ne hr, if_neg fun h => hr h.1]

/-- What holds of the packets of all queues still holds when one queue is set to such packets. -/
theorem CommandQueue.forall_setCommandQueue {cq : CommandQueue} {rank bank : ℕ} {queue : List BusPacket}
    {P : ℕ → ℕ → BusPacket → Prop} (h : ∀ r b, ∀ p ∈ cq.queues r b, P r b p)
    (hqueue : ∀ p ∈ queue, P rank (cfg.slot bank) p) :
    ∀ r b, ∀ p ∈ (cq.setCommandQueue cfg rank bank queue).queues r b, P r b p := by
  intro r b p hp
  rw [setCommandQueue_queues] at hp
  split_ifs at hp with heq
  · obtain ⟨rfl, rfl⟩ := heq
    exact hqueue p hp
  · exact h r b p hp

namespace MemorySystem

variable {s s' t t' u : MemorySystem} {T : ℕ}

/-- The queues hold column commands, each in the queue of its place, and the queues' clock is the
controller's. -/
structure Shape (cfg : Config) (s : MemorySystem) : Prop where
  placed : ∀ r b, ∀ p ∈ s.memoryController.commandQueue.queues r b, Placed cfg r b p
  clock_eq : s.memoryController.commandQueue.currentClockCycle = s.memoryController.currentClockCycle

/-- The commands issued before `T`, one in a cycle, and what they demand: every timer of a rank covers every
command of that rank. -/
structure Timed (cfg : Config) (T : ℕ) (s : MemorySystem) : Prop where
  past : ∀ e ∈ s.history.issued, e.1 < T
  ordered : s.history.issued.Pairwise fun e f => e.1 < f.1
  kind : ∀ e ∈ s.history.issued, e.2.IsColumn ∨ e.2.busPacketType = .refresh
  covers : ∀ e ∈ s.history.issued, e.2.IsColumn → ∀ b command, command = .readP ∨ command = .writeP →
    e.1 + sameRankDelay cfg e.2.busPacketType command ≤
      (s.memoryController.bankStates e.2.rank b).next command
  spaced : s.history.issued.Pairwise fun e f => e.2.IsColumn → f.2.IsColumn → e.2.rank = f.2.rank →
    e.1 + sameRankDelay cfg e.2.busPacketType f.2.busPacketType ≤ f.1

/-- With `tCMD = 1`, what is on the command bus between updates was issued in the update before. -/
def OnBus (T : ℕ) (s : MemorySystem) : Prop :=
  ∀ p, s.memoryController.outgoingCmdPacket = some p →
    s.memoryController.cmdCyclesLeft = 1 ∧ ∃ e ∈ s.history.issued, e.2 = p ∧ e.1 + 1 = T

theorem Shape.of_same (h : Shape cfg s)
    (hqueues : t.memoryController.commandQueue.queues = s.memoryController.commandQueue.queues)
    (hqueueClock : t.memoryController.commandQueue.currentClockCycle =
      s.memoryController.commandQueue.currentClockCycle)
    (hclock : t.memoryController.currentClockCycle = s.memoryController.currentClockCycle) : Shape cfg t where
  placed := by
    rw [hqueues]
    exact h.placed
  clock_eq := by
    rw [hqueueClock, hclock]
    exact h.clock_eq

theorem Timed.of_same (h : Timed cfg T s) (hissued : t.history.issued = s.history.issued)
    (hnext : ∀ r b command,
      (t.memoryController.bankStates r b).next command = (s.memoryController.bankStates r b).next command) :
    Timed cfg T t where
  past := by
    rw [hissued]
    exact h.past
  ordered := by
    rw [hissued]
    exact h.ordered
  kind := by
    rw [hissued]
    exact h.kind
  covers := by
    rw [hissued]
    intro e he hcolumn b command hcommand
    rw [hnext]
    exact h.covers e he hcolumn b command hcommand
  spaced := by
    rw [hissued]
    exact h.spaced

theorem Shape.here (h : Shape cfg s) {k : ℕ} {x : BusPacket}
    (hx : x ∈ ((CommandQueue.advance cfg)^[k] s.memoryController.commandQueue).here cfg) :
    Placed cfg ((CommandQueue.advance cfg)^[k] s.memoryController.commandQueue).nextRank
      (cfg.slot ((CommandQueue.advance cfg)^[k] s.memoryController.commandQueue).nextBank) x := by
  apply h.placed
  exact CommandQueue.mem_here hx

/-- A command in the middle of the queue the search is at is in its place. -/
theorem Shape.middle (h : Shape cfg s) {k : ℕ} {front rest : List BusPacket} {p : BusPacket}
    (hqueue : ((CommandQueue.advance cfg)^[k] s.memoryController.commandQueue).here cfg =
      front ++ p :: rest) :
    Placed cfg ((CommandQueue.advance cfg)^[k] s.memoryController.commandQueue).nextRank
      (cfg.slot ((CommandQueue.advance cfg)^[k] s.memoryController.commandQueue).nextBank) p := by
  apply h.here
  rw [hqueue]
  exact List.mem_append_right _ List.mem_cons_self

/-- A command that is popped waits for the timer of its bank, and so comes late enough behind every command
of its rank. -/
theorem Timed.issue (htimed : Timed cfg T t) {p : BusPacket} {bankStates : BankStates}
    (hkind : p.IsColumn ∨ p.busPacketType = .refresh)
    (hready : p.IsColumn → (t.memoryController.bankStates p.rank p.bank).next p.busPacketType ≤ T)
    (hcolumn : p.IsColumn → ∀ r b command, command = .readP ∨ command = .writeP →
      (bankStates r b).next command =
        if r = p.rank then max (T + sameRankDelay cfg p.busPacketType command)
          ((t.memoryController.bankStates r b).next command)
        else (t.memoryController.bankStates r b).next command)
    (hrefresh : p.busPacketType = .refresh → ∀ r b command,
      (bankStates r b).next command = (t.memoryController.bankStates r b).next command)
    (hissued : t'.history.issued = t.history.issued ++ [(T, p)])
    (hbanks : t'.memoryController.bankStates = bankStates) : Timed cfg (T + 1) t' := by
  refine ⟨?_, ?_, ?_, ?_, ?_⟩
  · rw [hissued]
    intro e he
    rcases List.mem_append.mp he with he | he
    · exact Nat.lt_succ_of_lt (htimed.past e he)
    · rw [List.mem_singleton.mp he]
      exact Nat.lt_succ_self T
  · rw [hissued]
    refine List.pairwise_append.mpr ⟨htimed.ordered, List.pairwise_singleton _ _, fun e he f hf => ?_⟩
    rw [List.mem_singleton.mp hf]
    exact htimed.past e he
  · rw [hissued]
    intro e he
    rcases List.mem_append.mp he with he | he
    · exact htimed.kind e he
    · rw [List.mem_singleton.mp he]
      exact hkind
  · rw [hissued, hbanks]
    intro e he hcol b command hcommand
    -- A timer only goes up, and for the new command it goes up to what the command demands.
    rcases List.mem_append.mp he with he | he
    · apply (htimed.covers e he hcol b command hcommand).trans
      rcases hkind with hp | hp
      · rw [hcolumn hp _ _ _ hcommand]
        split_ifs
        · exact le_max_right _ _
        · exact le_rfl
      · rw [hrefresh hp]
    · obtain rfl := List.mem_singleton.mp he
      rw [hcolumn hcol _ _ _ hcommand, if_pos rfl]
      exact le_max_left _ _
  · rw [hissued]
    refine List.pairwise_append.mpr ⟨htimed.spaced, List.pairwise_singleton _ _, fun e he f hf => ?_⟩
    obtain rfl := List.mem_singleton.mp hf
    intro hecol hpcol hrank
    apply (htimed.covers e he hecol p.bank p.busPacketType hpcol).trans
    rw [hrank]
    exact hready hpcol

/-- The cycle's pop keeps the shape of the queues and the timers. -/
theorem popCommand_timed (hpolicy : cfg.rowBufferPolicy = .closePage) (hshape : Shape cfg t)
    (hidle : ∀ r b, (t.memoryController.bankStates r b).currentBankState = .idle)
    (htimed : Timed cfg t.memoryController.currentClockCycle t) (h : t.popCommand cfg = .ok t') :
    Shape cfg t' ∧ Timed cfg (t.memoryController.currentClockCycle + 1) t' ∧
      t'.memoryController.currentClockCycle = t.memoryController.currentClockCycle := by
  cases popCommand_ok hpolicy hidle (fun r b p hp => (hshape.placed r b p hp).column) h with
  | @refresh hgoes cq hqueues hclock hissues =>
      obtain ⟨bankStates, burst, actpre, refresh, -, hcolumn, hrefresh, rfl⟩ := hissues
      refine ⟨⟨?_, hclock.trans hshape.clock_eq⟩, ?_, rfl⟩
      · change ∀ r b, ∀ p ∈ cq.queues r b, _
        rw [hqueues]
        exact hshape.placed
      · refine htimed.issue (.inr rfl) (fun hbad => ?_) hcolumn hrefresh rfl rfl
        rcases hbad with hbad | hbad
        · cases hbad
        · cases hbad
  | @nothing hstays k hends hpos hback cq hsame heq =>
      subst heq
      refine ⟨⟨?_, hsame.clock_eq.trans hshape.clock_eq⟩,
        ⟨fun e he => Nat.lt_succ_of_lt (htimed.past e he), htimed.ordered, htimed.kind, htimed.covers,
          htimed.spaced⟩, rfl⟩
      change ∀ r b, ∀ p ∈ cq.queues r b, _
      rw [hsame.queues_eq]
      exact hshape.placed
  | @column hstays k hends hlook front p rest hcandidate cq hsame hissues =>
      obtain ⟨bankStates, burst, actpre, refresh, -, hcolumn, hrefresh, rfl⟩ := hissues
      have hmem : ∀ x ∈ front ++ rest,
          x ∈ ((CommandQueue.advance cfg)^[k] t.memoryController.commandQueue).here cfg := by
        intro x hx
        rw [hcandidate.queue_eq]
        rcases List.mem_append.mp hx with hx | hx
        · exact List.mem_append_left _ hx
        · exact List.mem_append_right _ (List.mem_cons_of_mem _ hx)
      have hp : Placed cfg _ _ p := hshape.middle hcandidate.queue_eq
      refine ⟨⟨?_, hsame.clock_eq.trans hshape.clock_eq⟩, ?_, rfl⟩
      · change ∀ r b, ∀ p ∈ cq.queues r b, _
        rw [hsame.queues_eq]
        exact CommandQueue.forall_setCommandQueue hshape.placed fun x hx => hshape.here (hmem x hx)
      · refine htimed.issue (.inl hp.column) (fun _ => ?_) hcolumn hrefresh rfl rfl
        rw [← hshape.clock_eq]
        exact (CommandQueue.isIssuable_true hp.column hcandidate.issuable).2.2.1

theorem popCommand_onBus (hbus : t.memoryController.outgoingCmdPacket = none) (htCMD : cfg.tCMD = 1)
    (h : t.popCommand cfg = .ok t') : OnBus (t.memoryController.currentClockCycle + 1) t' := by
  obtain ⟨found, cq, -, ⟨rfl, rfl⟩ | ⟨p, bankStates, burst, actpre, refresh, rfl, -, -, rfl⟩⟩ :=
    popCommand_split h
  · intro p hp
    change t.memoryController.outgoingCmdPacket = some p at hp
    rw [hbus] at hp
    cases hp
  · intro q hq
    cases hq
    exact ⟨htCMD, _, List.mem_append_right _ (List.mem_singleton_self _), rfl, rfl⟩

/-- The packet of a transaction goes to the queue of its place. -/
theorem placed_packet {transaction : Transaction} {n : ℕ} {cq : CommandQueue} {room : Bool}
    (hroom : cq.hasRoomFor cfg n (addressMapping cfg transaction.address 0).rank
      (addressMapping cfg transaction.address 0).bank = .ok room) :
    Placed cfg (addressMapping cfg transaction.address 0).rank
      (cfg.slot (addressMapping cfg transaction.address 0).bank)
      (transaction.packet cfg (requestType transaction.transactionType) transaction.data) where
  column := by
    change requestType transaction.transactionType = _ ∨ requestType transaction.transactionType = _
    cases transaction.transactionType with
    | dataRead => exact .inl rfl
    | dataWrite => exact .inr rfl
    | returnData => exact .inr rfl
  rank_eq := rfl
  slot_eq := rfl
  mapped_rank := rfl
  mapped_bank := rfl
  hasQueue := hasRoomFor_ok hroom

/-- What `schedule` does to the memory system. -/
theorem schedule_ok (hpolicy : cfg.rowBufferPolicy = .closePage) (h : s.schedule cfg = .ok u) :
    u = s ∨
      ∃ before transaction rest pending, s.memoryController.transactionQueue = before ++ transaction :: rest ∧
        (∀ t' ∈ before, s.memoryController.commandQueue.hasRoomFor cfg 1
          (addressMapping cfg t'.address 0).rank
          (addressMapping cfg t'.address 0).bank = .ok false) ∧
        s.memoryController.commandQueue.hasRoomFor cfg 1 (addressMapping cfg transaction.address 0).rank
          (addressMapping cfg transaction.address 0).bank = .ok true ∧
        transaction.transactionType ≠ .returnData ∧
        pending = (if transaction.transactionType = .dataRead then
          s.memoryController.pendingReadTransactions ++ [transaction]
          else s.memoryController.pendingReadTransactions) ∧
        u = { s with memoryController := { s.memoryController with
          transactionQueue := before ++ rest
          commandQueue := s.memoryController.commandQueue.setCommandQueue cfg
            (addressMapping cfg transaction.address 0).rank (addressMapping cfg transaction.address 0).bank
            (s.memoryController.commandQueue.getCommandQueue cfg
              (addressMapping cfg transaction.address 0).rank
              (addressMapping cfg transaction.address 0).bank ++
              [transaction.packet cfg (requestType transaction.transactionType) transaction.data])
          pendingReadTransactions := pending } } := by
  obtain ⟨mc, hmc, rfl⟩ := map_ok h
  rcases scheduleFrom_ok hpolicy (fun t ht => by cases ht) rfl hmc with
    rfl | ⟨before, transaction, rest, hsplit, hbefore, hroom, htype, rfl⟩
  · exact .inl rfl
  · exact .inr ⟨before, transaction, rest, _, hsplit, hbefore, hroom, htype, rfl, rfl⟩

theorem schedule_timed (hpolicy : cfg.rowBufferPolicy = .closePage) (hshape : Shape cfg s)
    (htimed : Timed cfg T s) (h : s.schedule cfg = .ok u) :
    Shape cfg u ∧ Timed cfg T u ∧ SameBus s u ∧ u.history.issued = s.history.issued ∧
      u.memoryController.currentClockCycle = s.memoryController.currentClockCycle := by
  rcases schedule_ok hpolicy h with rfl | ⟨before, transaction, rest, pending, -, -, hroom, -, -, rfl⟩
  · exact ⟨hshape, htimed, ⟨rfl, rfl⟩, rfl, rfl⟩
  · refine ⟨⟨CommandQueue.forall_setCommandQueue hshape.placed fun p hp => ?_, hshape.clock_eq⟩,
      htimed.of_same rfl fun _ _ _ => rfl, ⟨rfl, rfl⟩, rfl, rfl⟩
    rcases List.mem_append.mp hp with hp | hp
    · exact hshape.placed _ _ p hp
    · rw [List.mem_singleton.mp hp]
      exact placed_packet hroom

theorem update_timed (hpolicy : cfg.rowBufferPolicy = .closePage) (hshape : Shape cfg s)
    (htimed : Timed cfg s.memoryController.currentClockCycle s) (h : s.update cfg = .ok s') :
    Shape cfg s' ∧ Timed cfg s'.memoryController.currentClockCycle s' := by
  obtain ⟨t, t', u, hprepared, hpop, hschedule, hfinished⟩ := update_control h
  obtain ⟨hqueues, hclock⟩ := checkRefresh_same cfg s
  have hshape₀ : Shape cfg t := by
    refine hshape.of_same ?_ ?_ hprepared.clock_eq
    · rw [hprepared.queue_eq, hqueues]
    · rw [hprepared.queue_eq, hclock]
  have htimed₀ : Timed cfg t.memoryController.currentClockCycle t := by
    rw [hprepared.clock_eq]
    exact htimed.of_same hprepared.issued_eq hprepared.next_eq
  obtain ⟨hshape', htimed', hclock'⟩ := popCommand_timed hpolicy hshape₀ hprepared.idle htimed₀ hpop
  obtain ⟨hshapeu, htimedu, -, -, hclocku⟩ := schedule_timed hpolicy hshape' htimed' hschedule
  have hclock : s'.memoryController.currentClockCycle = t.memoryController.currentClockCycle + 1 := by
    rw [hfinished.clock_eq, hclocku, hclock']
  refine ⟨⟨?_, ?_⟩, ?_⟩
  · rw [hfinished.queues_eq]
    exact hshapeu.placed
  · rw [hfinished.queueClock_eq, hfinished.clock_eq, hshapeu.clock_eq]
  · rw [hclock]
    exact htimedu.of_same hfinished.issued_eq hfinished.next_eq

/-- **The invariant of the schedule**, between any two updates. -/
structure Control (cfg : Config) (s : MemorySystem) : Prop where
  shape : Shape cfg s
  timed : Timed cfg s.memoryController.currentClockCycle s
  onBus : OnBus s.memoryController.currentClockCycle s

theorem Control.init (cfg : Config) : Control cfg (init cfg) where
  shape := ⟨(fun _ _ p hp => by cases hp), rfl⟩
  timed := ⟨(fun e he => by cases he), .nil, (fun e he => by cases he), (fun e he => by cases he), .nil⟩
  onBus := fun p hp => by cases hp

/-- At the pop of a cycle the invariant holds, and the command bus is free. -/
theorem Control.prepared (h : Control cfg s) (hprepared : Prepared cfg s t) :
    Shape cfg t ∧ Timed cfg t.memoryController.currentClockCycle t ∧
      t.memoryController.outgoingCmdPacket = none := by
  obtain ⟨hqueues, hclock⟩ := checkRefresh_same cfg s
  refine ⟨h.shape.of_same ?_ ?_ hprepared.clock_eq, ?_, hprepared.bus fun p hp => (h.onBus p hp).1⟩
  · rw [hprepared.queue_eq, hqueues]
  · rw [hprepared.queue_eq, hclock]
  · rw [hprepared.clock_eq]
    exact h.timed.of_same hprepared.issued_eq hprepared.next_eq

theorem Control.update (hpolicy : cfg.rowBufferPolicy = .closePage) (htCMD : cfg.tCMD = 1) (h : Control cfg s)
    (hupdate : s.update cfg = .ok s') : Control cfg s' := by
  obtain ⟨hshape, htimed⟩ := update_timed hpolicy h.shape h.timed hupdate
  refine ⟨hshape, htimed, ?_⟩
  obtain ⟨t, t', u, hprepared, hpop, hschedule, hfinished⟩ := update_control hupdate
  obtain ⟨hshape₀, htimed₀, hbus₀⟩ := h.prepared hprepared
  obtain ⟨hshape', htimed', hclock'⟩ := popCommand_timed hpolicy hshape₀ hprepared.idle htimed₀ hpop
  have honBus := popCommand_onBus hbus₀ htCMD hpop
  obtain ⟨-, -, hsame, hissued, hclocku⟩ := schedule_timed hpolicy hshape' htimed' hschedule
  rw [hfinished.clock_eq, hclocku, hclock']
  intro p hp
  rw [hfinished.bus_eq.1, hsame.1] at hp
  rw [hfinished.bus_eq.2, hsame.2, hfinished.issued_eq, hissued]
  exact honBus p hp

/-- The actions of a client: an update, or one that leaves the schedule alone. -/
theorem act_ok {action : Action} (h : s.act cfg action = .ok s') :
    (action = .update ∧ s.update cfg = .ok s') ∨ action ≠ .update ∧ Waits s s' ∧ SameBus s s' := by
  cases action with
  | update => exact .inl ⟨rfl, h⟩
  | addTransaction transaction =>
      cases h
      refine .inr ⟨(fun hbad => by cases hbad), ?_⟩
      obtain ⟨taken, -, htaken⟩ := addTransaction_eq cfg s transaction
      rw [htaken]
      exact ⟨⟨rfl, rfl, rfl, rfl, rfl, rfl, taken, rfl, rfl⟩, rfl, rfl⟩
  | request isWrite addr =>
      cases h
      refine .inr ⟨(fun hbad => by cases hbad), ?_⟩
      obtain ⟨taken, pending, -, htaken⟩ := request_eq cfg s isWrite addr
      rw [htaken]
      exact ⟨⟨rfl, rfl, rfl, rfl, rfl, rfl, taken, rfl, rfl⟩, rfl, rfl⟩
  | resetStats =>
      cases h
      exact .inr ⟨(fun hbad => by cases hbad), ⟨rfl, rfl, rfl, rfl, rfl, rfl, taken_nil rfl rfl⟩, rfl, rfl⟩

theorem run_concat {acts : List Action} {action : Action} :
    run cfg (acts ++ [action]) = run cfg acts >>= fun t => t.act cfg action := by
  rw [run, List.foldlM_append]
  exact bind_congr fun t => bind_pure _

theorem act_timed (hpolicy : cfg.rowBufferPolicy = .closePage) (hshape : Shape cfg s)
    (htimed : Timed cfg s.memoryController.currentClockCycle s) {action : Action}
    (hact : s.act cfg action = .ok s') :
    Shape cfg s' ∧ Timed cfg s'.memoryController.currentClockCycle s' := by
  rcases act_ok hact with ⟨-, hupdate⟩ | ⟨-, hsame, -⟩
  · exact update_timed hpolicy hshape htimed hupdate
  · refine ⟨hshape.of_same ?_ ?_ hsame.clock_eq, ?_⟩
    · rw [hsame.queue_eq]
    · rw [hsame.queue_eq]
    · rw [hsame.clock_eq]
      apply htimed.of_same hsame.issued_eq
      intro r b command
      rw [hsame.banks_eq]

theorem Control.act (hpolicy : cfg.rowBufferPolicy = .closePage) (htCMD : cfg.tCMD = 1) (h : Control cfg s)
    {action : Action} (hact : s.act cfg action = .ok s') : Control cfg s' := by
  obtain ⟨hshape, htimed⟩ := act_timed hpolicy h.shape h.timed hact
  rcases act_ok hact with ⟨-, hupdate⟩ | ⟨-, hsame, hbus⟩
  · exact h.update hpolicy htCMD hupdate
  · refine ⟨hshape, htimed, ?_⟩
    rw [hsame.clock_eq]
    intro p hp
    rw [hbus.1] at hp
    rw [hbus.2, hsame.issued_eq]
    exact h.onBus p hp

/-- The shape of the queues and the timers hold in every state of a run, also where the command bus takes
more than one cycle. -/
theorem timed_run (hpolicy : cfg.rowBufferPolicy = .closePage) {actions : List Action}
    (h : run cfg actions = .ok s) :
    Shape cfg s ∧ Timed cfg s.memoryController.currentClockCycle s :=
  foldlM_ok (P := fun s => Shape cfg s ∧ Timed cfg s.memoryController.currentClockCycle s)
    (fun _ _ _ hinv hact => act_timed hpolicy hinv.1 hinv.2 hact)
    ⟨(Control.init cfg).shape, (Control.init cfg).timed⟩ h

/-- **The invariant holds in every state a run reaches.** -/
theorem control_run (hpolicy : cfg.rowBufferPolicy = .closePage) (htCMD : cfg.tCMD = 1)
    {actions : List Action} (h : run cfg actions = .ok s) : Control cfg s :=
  foldlM_ok (fun _ _ _ hinv hact => Control.act hpolicy htCMD hinv hact) (Control.init cfg) h

/-- Of two commands of one rank the later one waits for the delay behind the earlier one, with whatever
others between them. -/
theorem Timed.delay (htimed : Timed cfg T s) {e f : ℕ × BusPacket} (he : e ∈ s.history.issued)
    (hf : f ∈ s.history.issued) (hlt : e.1 < f.1) (hecolumn : e.2.IsColumn) (hfcolumn : f.2.IsColumn)
    (hrank : e.2.rank = f.2.rank) : e.1 + sameRankDelay cfg e.2.busPacketType f.2.busPacketType ≤ f.1 := by
  obtain ⟨i, hi, rfl⟩ := List.getElem_of_mem he
  obtain ⟨j, hj, rfl⟩ := List.getElem_of_mem hf
  have hij : i < j := by
    by_contra hge
    rcases Nat.eq_or_lt_of_le (not_lt.mp hge) with heq | hji
    · subst heq
      exact lt_irrefl _ hlt
    · have := List.pairwise_iff_getElem.mp htimed.ordered j i hj hi hji
      omega
  exact List.pairwise_iff_getElem.mp htimed.spaced i j hi hj hij hecolumn hfcolumn hrank

theorem Timed.isColumn (htimed : Timed cfg T s) {e : ℕ × BusPacket} (he : e ∈ s.history.issued)
    (hkind : e.2.IsRead ∨ e.2.IsWrite) : e.2.IsColumn := by
  rcases htimed.kind e he with hcolumn | hrefresh
  · exact hcolumn
  · rcases hkind with (h | h) | (h | h) <;>
    · rw [hrefresh] at h
      cases h

/-- `(int)` keeps what is below `2^31`. -/
theorem intMax0_natCast {n : ℕ} (hn : n < 2 ^ 31) : intMax0 n = n := by
  have hint : (BitVec.ofInt 32 (n : ℤ)).toInt = n := by
    rw [BitVec.toInt_ofInt]
    exact Int.bmod_eq_of_le (by omega) (by omega)
  rw [intMax0, hint]
  omega

/-- The difference of two `unsigned` sums comes out negative where it is. -/
theorem intMax0_sub {m n : ℕ} (hm : m < 2 ^ 31 + n) (hn : n ≤ 2 ^ 31) : intMax0 (m - n : ℤ) = m - n := by
  have hint : (BitVec.ofInt 32 (m - n : ℤ)).toInt = m - n := by
    rw [BitVec.toInt_ofInt]
    exact Int.bmod_eq_of_le (by omega) (by omega)
  rw [intMax0, hint]
  omega

/-- **The spacing of the commands of one rank.** Any two of them keep the delay between their types; where
the sums fit in an `int`, it is the delay of the parameters. -/
theorem same_rank_spacing (cfg : Config) (hpolicy : cfg.rowBufferPolicy = .closePage) (actions : List Action)
    (s : MemorySystem) (h : run cfg actions = .ok s) {e f : ℕ × BusPacket} (he : e ∈ s.history.issued)
    (hf : f ∈ s.history.issued) (hlt : e.1 < f.1) (hrank : e.2.rank = f.2.rank) :
    (e.2.IsRead → f.2.IsRead → e.1 + max cfg.tCCD (cfg.BL / 2) ≤ f.1) ∧
      (e.2.IsWrite → f.2.IsWrite → e.1 + max cfg.tCCD (cfg.BL / 2) ≤ f.1) ∧
      (e.2.IsRead → f.2.IsWrite → e.1 + cfg.readToWriteDelay ≤ f.1 ∧
        (RL + cfg.BL / 2 + cfg.tRTRS < 2 ^ 31 + WL → e.1 + (RL + cfg.BL / 2 + cfg.tRTRS - WL) ≤ f.1)) ∧
      (e.2.IsWrite → f.2.IsRead → e.1 + cfg.writeToReadDelayB ≤ f.1 ∧
        (WL + cfg.BL / 2 + cfg.tWTR < 2 ^ 31 → e.1 + (WL + cfg.BL / 2 + cfg.tWTR) ≤ f.1)) := by
  obtain ⟨-, htimed⟩ := timed_run hpolicy h
  have hcolumn : ∀ x ∈ s.history.issued, x.2.IsRead ∨ x.2.IsWrite → x.2.IsColumn := fun x hx hkind =>
    htimed.isColumn hx hkind
  have hdelay : ∀ {p q : BusPacketType}, (e.2.IsRead ∨ e.2.IsWrite) → (f.2.IsRead ∨ f.2.IsWrite) →
      e.2.busPacketType = p → f.2.busPacketType = q → e.1 + sameRankDelay cfg p q ≤ f.1 := by
    rintro p q hekind hfkind rfl rfl
    exact htimed.delay he hf hlt (hcolumn e he hekind) (hcolumn f hf hfkind) hrank
  have hread : ∀ x ∈ s.history.issued, x.2.IsRead → x.2.busPacketType = .readP := fun x hx hkind =>
    (BusPacket.IsRead.isColumn_of_not_read (hcolumn x hx (.inl hkind))).1.mp hkind
  have hwrite : ∀ x ∈ s.history.issued, x.2.IsWrite → x.2.busPacketType = .writeP := fun x hx hkind =>
    (BusPacket.IsRead.isColumn_of_not_read (hcolumn x hx (.inr hkind))).2.mp hkind
  refine ⟨fun her hfr => ?_, fun hew hfw => ?_, fun her hfw => ?_, fun hew hfr => ?_⟩
  · exact hdelay (.inl her) (.inl hfr) (hread e he her) (hread f hf hfr)
  · exact hdelay (.inr hew) (.inr hfw) (hwrite e he hew) (hwrite f hf hfw)
  · have hraw : e.1 + cfg.readToWriteDelay ≤ f.1 :=
      hdelay (.inl her) (.inr hfw) (hread e he her) (hwrite f hf hfw)
    refine ⟨hraw, fun hfits => ?_⟩
    rw [Config.readToWriteDelay] at hraw
    rwa [show (RL + cfg.BL / 2 + cfg.tRTRS - WL : ℤ) = ((RL + cfg.BL / 2 + cfg.tRTRS : ℕ) : ℤ) - (WL : ℕ) by
      push_cast; rfl, intMax0_sub hfits (by decide)] at hraw
  · have hraw : e.1 + cfg.writeToReadDelayB ≤ f.1 :=
      hdelay (.inr hew) (.inl hfr) (hwrite e he hew) (hread f hf hfr)
    refine ⟨hraw, fun hfits => ?_⟩
    rw [Config.writeToReadDelayB] at hraw
    rwa [show (WL + cfg.BL / 2 + cfg.tWTR : ℤ) = ((WL + cfg.BL / 2 + cfg.tWTR : ℕ) : ℤ) by push_cast; rfl,
      intMax0_natCast hfits] at hraw

/-- A client that writes an address and reads it, and waits. -/
def writeThenRead : List Action :=
  [.addTransaction ⟨.dataWrite, 0, 1, 0⟩, .addTransaction ⟨.dataRead, 0, 0, 0⟩] ++ List.replicate 14 .update

/-- The two commands of that client, issued at two cycles. -/
def writeThenReadIssued (t u : ℕ) : List (ℕ × BusPacket) :=
  [(t, ⟨.writeP, 0, 0, 0, 0, 0, 1⟩), (u, ⟨.readP, 0, 0, 0, 0, 0, 0⟩)]

theorem same_rank_spacing_ddr2 : ∃ s, run (ddr2Micron 1 (by decide)) writeThenRead = .ok s ∧
    s.history.issued = writeThenReadIssued 1 13 ∧ 1 + (WL + 4 / 2 + 3) ≤ 13 := by
  have hrun : ∃ s, run (ddr2Micron 1 (by decide)) writeThenRead = .ok s ∧
      s.history.issued = writeThenReadIssued 1 13 := by decide +kernel
  obtain ⟨s, hs, hissued⟩ := hrun
  have hspacing := same_rank_spacing _ rfl writeThenRead s hs (e := (1, ⟨.writeP, 0, 0, 0, 0, 0, 1⟩))
    (f := (13, ⟨.readP, 0, 0, 0, 0, 0, 0⟩)) (by rw [hissued]; decide) (by rw [hissued]; decide)
    (by decide) rfl
  exact ⟨s, hs, hissued, (hspacing.2.2.2 (by decide) (by decide)).2 (by decide)⟩

/-- Where the sum does not fit in an `int`, the delay of the macro is 0. -/
theorem same_rank_spacing_wraps :
    ¬ ∀ (cfg : Config) (actions : List Action) (s : MemorySystem), cfg.rowBufferPolicy = .closePage →
      run cfg actions = .ok s → ∀ e ∈ s.history.issued, ∀ f ∈ s.history.issued,
        e.1 < f.1 → e.2.rank = f.2.rank →
        e.2.IsWrite → f.2.IsRead → e.1 + (WL + cfg.BL / 2 + cfg.tWTR) ≤ f.1 := by
  intro h
  have hrun : ∃ s, run { ddr2Micron 1 (by decide) with tWTR := 2 ^ 31 - 1 } writeThenRead = .ok s ∧
      s.history.issued = writeThenReadIssued 1 2 := by decide +kernel
  obtain ⟨s, hs, hissued⟩ := hrun
  have hbad := h _ _ s rfl hs (1, ⟨.writeP, 0, 0, 0, 0, 0, 1⟩) (by rw [hissued]; decide)
    (2, ⟨.readP, 0, 0, 0, 0, 0, 0⟩) (by rw [hissued]; decide) (by decide) rfl (by decide) (by decide)
  exact absurd hbad (by decide)

end MemorySystem

end RacerArtifacts.Mram
