import RacerArtifacts.LibPacing
import RacerArtifacts.MramProgress

/-! The work that is left in a memory system and how updates drain it: an update takes up a transaction,
schedules one, pops a command, or brings the end of a delay nearer, so that all is issued in a time that the
amount of work and the longest delay bound. -/

namespace RacerArtifacts.Mram

open Fallible MemoryController Pacing

variable {cfg : Config}

/-- Nothing has a depth of 0, and the depth of the command queues is a 32-bit value. -/
structure Config.Roomy (cfg : Config) : Prop where
  accesses_pos : 0 < cfg.totalRowAccesses
  transactions_pos : 0 < cfg.transQueueDepth
  commands_pos : 0 < cfg.cmdQueueDepth
  commands_lt : cfg.cmdQueueDepth < 2 ^ 32

/-- The longest delay between two commands to a rank. -/
def Config.longestDelay (cfg : Config) : ℕ :=
  max cfg.sameTypeDelay (max cfg.readToWriteDelay cfg.writeToReadDelayB)

theorem sameRankDelay_le (cfg : Config) (first second : BusPacketType) :
    sameRankDelay cfg first second ≤ cfg.longestDelay := by
  rw [sameRankDelay, Config.longestDelay]
  split_ifs
  · exact le_max_left _ _
  · exact (le_max_left _ _).trans (le_max_right _ _)
  · exact (le_max_right _ _).trans (le_max_right _ _)

namespace MemorySystem

variable {s s' t t' u : MemorySystem} {k : ℕ}

/-- What is left to do for what a client handed over: to take it up, to schedule it, to issue its command. -/
def work (cfg : Config) (s : MemorySystem) : ℕ :=
  3 * s.pendingTransactions.length + 2 * s.memoryController.transactionQueue.length +
    Multiset.card (s.memoryController.commandQueue.packets cfg)

theorem work_init (cfg : Config) : work cfg (init cfg) = 0 := by
  have hpackets : (init cfg).memoryController.commandQueue.packets cfg = 0 :=
    Finset.sum_eq_zero fun r _ => Finset.sum_eq_zero fun b _ => rfl
  rw [work, hpackets]
  rfl

/-- No command has to wait for more than `k` cycles. -/
def HeldUp (k : ℕ) (s : MemorySystem) : Prop :=
  ∀ r b command, command = .readP ∨ command = .writeP →
    (s.memoryController.bankStates r b).next command ≤ s.memoryController.currentClockCycle + k

/-- What every run keeps under the close-page policy, as far as the issuing of commands depends on it. -/
structure Smooth (cfg : Config) (s : MemorySystem) : Prop where
  control : Control cfg s
  disciplined : Disciplined cfg s
  depth : s.memoryController.commandQueue.WithinDepth cfg
  fresh : ∀ r b, s.memoryController.commandQueue.rowAccessCounters r b = 0

theorem exists_offers {r b : ℕ} {queue : List BusPacket} (hplaced : ∀ p ∈ queue, Placed cfg r b p)
    (hne : queue ≠ []) :
    ∃ p ∈ queue, CommandQueue.Offers cfg queue p := by
  cases queue with
  | nil => exact absurd rfl hne
  | cons p rest =>
      refine ⟨p, List.mem_cons_self, ?_⟩
      rw [CommandQueue.Offers]
      cases cfg.queuingStructure with
      | perRank => exact List.mem_cons_self
      | perRankPerBank => rfl

/-- Where packets are left, one of them is in a queue that exists. -/
theorem exists_queue_ne_nil {cq : CommandQueue} (h : cq.packets cfg ≠ 0) : ∃ r b, cq.queues r b ≠ [] := by
  obtain ⟨r, -, hr⟩ := Finset.exists_ne_zero_of_sum_ne_zero h
  obtain ⟨b, -, hb⟩ := Finset.exists_ne_zero_of_sum_ne_zero hr
  exact ⟨r, b, fun hnil => hb (by rw [hnil]; rfl)⟩

theorem packets_ne_zero {cq : CommandQueue} {r b : ℕ} (hqueue : cfg.HasQueue r b) (hne : cq.queues r b ≠ []) :
    cq.packets cfg ≠ 0 := by
  intro hzero
  have hr := Finset.sum_eq_zero_iff.mp hzero r (Finset.mem_range.mpr hqueue.1)
  have hb := Finset.sum_eq_zero_iff.mp hr b (Finset.mem_range.mpr hqueue.2)
  exact hne ((Multiset.coe_eq_zero _).mp hb)

/-- What a pop makes of the work with the commands and of the delays. -/
inductive PopWorks (cfg : Config) (t t' : MemorySystem) : Prop
  | issues {p : BusPacket}
      (hpackets : t.memoryController.commandQueue.packets cfg =
        t'.memoryController.commandQueue.packets cfg + {p})
      (hnext : ∀ r b command, command = .readP ∨ command = .writeP →
        (t'.memoryController.bankStates r b).next command ≤
          max (t.memoryController.currentClockCycle + cfg.longestDelay)
          ((t.memoryController.bankStates r b).next command))
  | waits (hqueues : t'.memoryController.commandQueue.queues = t.memoryController.commandQueue.queues)
      (hbanks : t'.memoryController.bankStates = t.memoryController.bankStates)
      (hissued : t'.history.issued = t.history.issued)
      (hrefused : ∀ rank < cfg.numRanks, ∀ bank < cfg.numBanks, ∀ p,
        CommandQueue.Offers cfg (t.memoryController.commandQueue.getCommandQueue cfg rank bank) p →
          t.memoryController.commandQueue.isIssuable cfg t.memoryController.bankStates p = .ok false)

theorem popCommand_works (hpolicy : cfg.rowBufferPolicy = .closePage) (hshape : Shape cfg t)
    (hidle : ∀ r b, (t.memoryController.bankStates r b).currentBankState = .idle)
    (hin : t.memoryController.commandQueue.InRange cfg)
    (hwaiting : t.memoryController.commandQueue.refreshWaiting = false)
    (h : t.popCommand cfg = .ok t') : PopWorks cfg t t' ∧
      t'.memoryController.commandQueue.rowAccessCounters = t.memoryController.commandQueue.rowAccessCounters ∧
      t'.memoryController.currentClockCycle = t.memoryController.currentClockCycle := by
  have hcolumn : ∀ r b, ∀ p ∈ t.memoryController.commandQueue.queues r b, p.IsColumn :=
    fun r b p hp => (hshape.placed r b p hp).column
  cases popCommand_ok hpolicy hidle hcolumn h with
  | refresh hgoes _ _ _ =>
      have hbad := hgoes.1
      rw [hwaiting] at hbad
      cases hbad
  | nothing _ _ _ _ hsame heq =>
      obtain ⟨found, cq, hpop, ⟨rfl, -⟩ | ⟨p, _, _, _, _, -, -, -, hp⟩⟩ := popCommand_split h
      · rw [heq]
        refine ⟨.waits hsame.queues_eq rfl rfl fun rank hrank bank hbank p hoffers => ?_,
          hsame.counters_eq, rfl⟩
        exact CommandQueue.pop_none_refuses hpolicy hin hwaiting hidle hcolumn hpop hrank hbank hoffers
      · have hissued := congrArg (fun t => t.history.issued.length) (heq.symm.trans hp)
        simp at hissued
  | column _ _ _ hcandidate hsame hissues =>
      obtain ⟨bankStates, _, _, _, -, hnext, -, rfl⟩ := hissues
      refine ⟨.issues (packets_pop hshape hcandidate.queue_eq hsame.queues_eq) fun r b command hcommand => ?_,
        hsame.counters_eq, rfl⟩
      dsimp only
      rw [hnext (hshape.middle hcandidate.queue_eq).column r b command hcommand]
      split_ifs
      · exact max_le_max_right _ (Nat.add_le_add_left (sameRankDelay_le cfg _ _) _)
      · exact le_max_right _ _

/-- What the scheduling makes of the work. -/
inductive ScheduleWorks (cfg : Config) (s u : MemorySystem) : Prop
  | moves (hless : work cfg u < work cfg s)
      (hbanks : u.memoryController.bankStates = s.memoryController.bankStates)
      (hcounters : u.memoryController.commandQueue.rowAccessCounters =
        s.memoryController.commandQueue.rowAccessCounters)
      (hclock : u.memoryController.currentClockCycle = s.memoryController.currentClockCycle)
  | waits (heq : u = s) (hfull : ∀ x ∈ s.memoryController.transactionQueue,
      s.memoryController.commandQueue.hasRoomFor cfg 1 (addressMapping cfg x.address 0).rank
        (addressMapping cfg x.address 0).bank = .ok false)

theorem schedule_works (h : s.schedule cfg = .ok u) : ScheduleWorks cfg s u := by
  obtain ⟨mc, hmc, rfl⟩ := map_ok h
  rcases scheduleFrom_split (fun x hx => by cases hx) rfl hmc with
    ⟨rfl, hfull⟩ | ⟨before, x, rest, bpType, hqueue, -, hroom, -, rfl⟩
  · exact .waits rfl hfull
  · refine .moves ?_ rfl rfl rfl
    have hpackets := congrArg Multiset.card
        (packets_enqueue s.memoryController.commandQueue (hasRoomFor_ok hroom)
      (x.packet cfg bpType x.data))
    rw [Multiset.card_add, Multiset.card_singleton] at hpackets
    rw [work, work, hqueue, hpackets]
    simp only [List.length_append, List.length_cons]
    omega

/-- A state in which no command has to wait and nothing was left out has no work. -/
theorem work_eq_zero (hroomy : cfg.Roomy) (hpowers : cfg.PowersOfTwo) (hshape : Shape cfg t)
    (hdepth : t.memoryController.commandQueue.WithinDepth cfg)
    (hfresh : ∀ r b, t.memoryController.commandQueue.rowAccessCounters r b = 0) (hheld : HeldUp 0 t)
    (hpending : t.pendingTransactions = [] ∨ cfg.transQueueDepth ≤ t.memoryController.transactionQueue.length)
    (hfull : ∀ x ∈ t.memoryController.transactionQueue,
      t.memoryController.commandQueue.hasRoomFor cfg 1 (addressMapping cfg x.address 0).rank
        (addressMapping cfg x.address 0).bank = .ok false)
    (hrefused : ∀ rank < cfg.numRanks, ∀ bank < cfg.numBanks, ∀ p,
      CommandQueue.Offers cfg (t.memoryController.commandQueue.getCommandQueue cfg rank bank) p →
        t.memoryController.commandQueue.isIssuable cfg t.memoryController.bankStates p = .ok false) :
    work cfg t = 0 := by
  -- A packet that is offered could be issued: its bank's timer is over.
  have hpackets : t.memoryController.commandQueue.packets cfg = 0 := by
    by_contra hne
    obtain ⟨r, b, hqueue⟩ := exists_queue_ne_nil hne
    obtain ⟨p, hp, hoffers⟩ := exists_offers (hshape.placed r b) hqueue
    have hplaced := hshape.placed r b p hp
    have hrange := hpowers.inRange p.physicalAddress 0
    rw [← hplaced.mapped_rank, ← hplaced.mapped_bank] at hrange
    have hno := hrefused p.rank hrange.1 p.bank hrange.2 p (by
      rw [CommandQueue.getCommandQueue, hplaced.rank_eq, hplaced.slot_eq]
      exact hoffers)
    rw [CommandQueue.isIssuable_column hplaced.column, if_pos hrange] at hno
    refine absurd ?_ (of_decide_eq_false (Except.ok.inj hno))
    refine ⟨?_, by rw [hfresh]; exact hroomy.accesses_pos⟩
    rw [hshape.clock_eq]
    exact hheld p.rank p.bank p.busPacketType hplaced.column
  -- A transaction that is queued would find room.
  have hqueue : t.memoryController.transactionQueue = [] := by
    by_contra hne
    obtain ⟨x, hx⟩ := List.exists_mem_of_ne_nil _ hne
    have hplace := hpowers.hasQueue x.address
    have hroom := hfull x hx
    rw [hdepth.hasRoomFor_eq hroomy.commands_lt hplace] at hroom
    have hlong := of_decide_eq_false (Except.ok.inj hroom)
    refine packets_ne_zero hplace (fun hnil => hlong ?_) hpackets
    rw [CommandQueue.getCommandQueue, hnil]
    exact hroomy.commands_pos
  have hnone : t.pendingTransactions = [] := by
    rcases hpending with hnil | hlong
    · exact hnil
    · rw [hqueue] at hlong
      exact absurd hroomy.transactions_pos (Nat.not_lt.mpr hlong)
  rw [work, hnone, hqueue, hpackets]
  rfl

theorem HeldUp.mono {k' : ℕ} (h : HeldUp k s) (hle : k ≤ k') : HeldUp k' s :=
  fun r b command hcommand => (h r b command hcommand).trans (Nat.add_le_add_left hle _)

theorem HeldUp.finished (hfinished : Finished u s') (h : HeldUp k u) : HeldUp (k - 1) s' := by
  intro r b command hcommand
  have hle := h r b command hcommand
  rw [hfinished.next_eq, hfinished.clock_eq]
  omega

theorem Takes.work_le (htakes : Takes cfg s t)
    (hqueues : t.memoryController.commandQueue.queues = s.memoryController.commandQueue.queues) :
    work cfg t < work cfg s ∨ work cfg t = work cfg s ∧
      (t.pendingTransactions = [] ∨ cfg.transQueueDepth ≤ t.memoryController.transactionQueue.length) := by
  rw [work, work, CommandQueue.packets_congr hqueues]
  cases htakes with
  | nothing hsame hstays =>
      rw [hsame.pending_eq, hsame.queue_eq]
      exact .inr ⟨rfl, hstays⟩
  | first hpending hqueue hrest _ =>
      rw [hpending, hqueue, hrest]
      simp only [List.length_append, List.length_cons, List.length_nil]
      omega

/-- The states of a cycle: what waits is taken up, a command is popped, a transaction is scheduled. -/
structure Cycle (cfg : Config) (s t t' u s' : MemorySystem) : Prop where
  prepared : Prepared cfg s t
  queue_eq : t.memoryController.commandQueue = s.memoryController.commandQueue
  shape : Shape cfg t
  takes : Takes cfg s t
  pops : PopWorks cfg t t'
  popWaits : SameWaiting t t'
  counters_eq : t'.memoryController.commandQueue.rowAccessCounters =
    t.memoryController.commandQueue.rowAccessCounters
  clock_eq : t'.memoryController.currentClockCycle = t.memoryController.currentClockCycle
  schedules : ScheduleWorks cfg t' u
  finished : Finished u s'
  waiting : SameWaiting u s'

theorem Smooth.cycle (hregular : cfg.Regular) (h : Smooth cfg s) (hupdate : s.update cfg = .ok s') :
    ∃ t t' u, Cycle cfg s t t' u s' := by
  obtain ⟨t, t', u, hprepared, htakes, hpop, hschedule, hfinished, hsame⟩ := update_waiting hupdate
  obtain ⟨hshape, -, -⟩ := h.control.prepared hprepared
  have hqueue : t.memoryController.commandQueue = s.memoryController.commandQueue := by
    rw [hprepared.queue_eq, h.disciplined.checkRefresh hregular.refresh_ne]
  obtain ⟨hpops, hcounters, hclock⟩ := popCommand_works hregular.policy hshape hprepared.idle
    (hqueue ▸ h.disciplined.inRange) (hqueue ▸ h.disciplined.waiting) hpop
  exact ⟨t, t', u, hprepared, hqueue, hshape, htakes, hpops, waiting_popCommand hpop, hcounters, hclock,
    schedule_works hschedule, hfinished, hsame⟩

theorem Cycle.scheduled (h : Cycle cfg s t t' u s') :
    u.memoryController.bankStates = t'.memoryController.bankStates ∧
      u.memoryController.commandQueue.rowAccessCounters = t'.memoryController.commandQueue.rowAccessCounters ∧
      u.memoryController.currentClockCycle = t'.memoryController.currentClockCycle ∧
      work cfg u ≤ work cfg t' := by
  cases h.schedules with
  | moves hless hbanks hcounters hclock => exact ⟨hbanks, hcounters, hclock, hless.le⟩
  | waits heq _ =>
      rw [heq]
      exact ⟨rfl, rfl, rfl, le_refl _⟩

theorem Cycle.work_end (h : Cycle cfg s t t' u s') : work cfg s' = work cfg u := by
  rw [work, work, h.waiting.pending_eq, h.waiting.queue_eq, CommandQueue.packets_congr h.finished.queues_eq]

theorem Cycle.work_start (h : Cycle cfg s t t' u s') : work cfg t < work cfg s ∨ work cfg t = work cfg s ∧
    (t.pendingTransactions = [] ∨ cfg.transQueueDepth ≤ t.memoryController.transactionQueue.length) :=
  h.takes.work_le (congrArg CommandQueue.queues h.queue_eq)

/-- A pop does some of the work, or it leaves the commands alone. -/
theorem Cycle.work_pop (h : Cycle cfg s t t' u s') : work cfg t' < work cfg t ∨
    work cfg t' = work cfg t ∧ t'.history.issued = t.history.issued := by
  rw [work, work, h.popWaits.pending_eq, h.popWaits.queue_eq]
  cases h.pops with
  | issues hpackets _ =>
      have hcard := congrArg Multiset.card hpackets
      rw [Multiset.card_add, Multiset.card_singleton] at hcard
      omega
  | waits hqueues _ hissued _ => exact .inr ⟨by rw [CommandQueue.packets_congr hqueues], hissued⟩

theorem Cycle.heldUp (h : Cycle cfg s t t' u s') (hheld : HeldUp k s) : HeldUp k t := by
  intro r b command hcommand
  rw [h.prepared.next_eq, h.prepared.clock_eq]
  exact hheld r b command hcommand

theorem Cycle.work_le (h : Cycle cfg s t t' u s') : work cfg s' ≤ work cfg s := by
  have hend := h.work_end
  have hstart := h.work_start
  have hpop := h.work_pop
  obtain ⟨-, -, -, hschedule⟩ := h.scheduled
  omega

theorem Smooth.update (hregular : cfg.Regular) (h : Smooth cfg s) (hupdate : s.update cfg = .ok s') :
    Smooth cfg s' := by
  obtain ⟨t, t', u, hcycle⟩ := h.cycle hregular hupdate
  refine ⟨h.control.update hregular.policy hregular.tCMD_eq hupdate,
    h.disciplined.update hregular.refresh_ne hupdate,
    ?_, fun r b => ?_⟩
  · rw [update_eq_phases] at hupdate
    exact withinDepth_phases (fun _ hphase => hphase) h.depth hupdate
  · obtain ⟨-, hcounters, -⟩ := hcycle.scheduled
    rw [hcycle.finished.counters_eq, hcounters, hcycle.counters_eq, hcycle.queue_eq]
    exact h.fresh r b

/-- **One update does some of the work, or it waits for the end of a delay.** -/
theorem Smooth.works (hregular : cfg.Regular) (hroomy : cfg.Roomy) (h : Smooth cfg s)
    (hk : k ≤ cfg.longestDelay) (hheld : HeldUp k s) (hupdate : s.update cfg = .ok s') :
    work cfg s' < work cfg s ∧ HeldUp cfg.longestDelay s' ∨
      work cfg s' ≤ work cfg s ∧ HeldUp (k - 1) s' ∧ (k = 0 → work cfg s = 0) := by
  obtain ⟨t, t', u, hcycle⟩ := h.cycle hregular hupdate
  have hend := hcycle.work_end
  have hstart := hcycle.work_start
  have hpop := hcycle.work_pop
  obtain ⟨hbanks, -, hclock, hle⟩ := hcycle.scheduled
  have hheld' := hcycle.heldUp hheld
  cases hcycle.pops with
  | issues hpackets hnext =>
      -- A command went out, and its delays are no longer than the longest.
      have hcard := congrArg Multiset.card hpackets
      rw [Multiset.card_add, Multiset.card_singleton] at hcard
      have hless : work cfg t' < work cfg t := by
        rw [work, work, hcycle.popWaits.pending_eq, hcycle.popWaits.queue_eq]
        omega
      refine .inl ⟨by omega, HeldUp.mono (HeldUp.finished (k := cfg.longestDelay) hcycle.finished ?_)
        (Nat.sub_le _ _)⟩
      intro r b command hcommand
      rw [hbanks, hclock, hcycle.clock_eq]
      refine (hnext r b command hcommand).trans (max_le (le_refl _) ?_)
      exact (hheld' r b command hcommand).trans (Nat.add_le_add_left hk _)
  | waits hqueues hbanksPop _ hrefused =>
      have hheldNext : HeldUp (k - 1) s' := by
        refine HeldUp.finished hcycle.finished fun r b command hcommand => ?_
        rw [hbanks, hbanksPop, hclock, hcycle.clock_eq]
        exact hheld' r b command hcommand
      have hmono := hheldNext.mono ((Nat.sub_le k 1).trans hk)
      cases hcycle.schedules with
      | moves hless _ _ _ => exact .inl ⟨by omega, hmono⟩
      | waits heq hfull =>
          rcases hstart with hless | ⟨hsame, hstays⟩
          · exact .inl ⟨by omega, hmono⟩
          · -- Nothing was taken up, issued or scheduled.
            refine .inr ⟨by omega, hheldNext, ?_⟩
            rintro rfl
            rw [← hsame]
            refine work_eq_zero hroomy hregular.powers hcycle.shape (hcycle.queue_eq ▸ h.depth)
              (hcycle.queue_eq ▸ h.fresh) hheld' hstays (fun x hx => ?_) hrefused
            rw [← hcycle.popWaits.queue_eq] at hx
            have hno := hfull x hx
            rw [CommandQueue.hasRoomFor] at hno ⊢
            rw [CommandQueue.getCommandQueue, hqueues] at hno
            exact hno

theorem Smooth.quiet (hregular : cfg.Regular) (h : Smooth cfg s) (hzero : work cfg s = 0)
    (hupdate : s.update cfg = .ok s') : work cfg s' = 0 ∧ s'.history.issued = s.history.issued := by
  obtain ⟨t, t', u, hcycle⟩ := h.cycle hregular hupdate
  have hend := hcycle.work_end
  have hstart := hcycle.work_start
  have hpop := hcycle.work_pop
  obtain ⟨-, -, -, hle⟩ := hcycle.scheduled
  refine ⟨by omega, ?_⟩
  cases hcycle.schedules with
  | moves hless _ _ _ => omega
  | waits heq _ =>
      rcases hpop with hless | ⟨-, hissued⟩
      · omega
      · rw [hcycle.finished.issued_eq, heq, hissued, hcycle.prepared.issued_eq]

theorem Smooth.init (cfg : Config) : Smooth cfg (init cfg) where
  control := Control.init cfg
  disciplined := Disciplined.init cfg
  depth := fun _ _ => Nat.zero_le _
  fresh := fun _ _ => rfl

theorem Smooth.act (hregular : cfg.Regular) (h : Smooth cfg s) {action : Action}
    (hact : s.act cfg action = .ok s') :
    Smooth cfg s' := by
  rcases act_ok hact with ⟨-, hupdate⟩ | ⟨-, hwaits, -⟩
  · exact h.update hregular hupdate
  · refine ⟨h.control.act hregular.policy hregular.tCMD_eq hact, h.disciplined.act hregular.refresh_ne hact,
      withinDepth_act h.depth hact, ?_⟩
    rw [hwaits.queue_eq]
    exact h.fresh

/-- In every state a run reaches, no command has to wait for more than the longest delay. -/
theorem smooth_run (hregular : cfg.Regular) (hroomy : cfg.Roomy) {actions : List Action}
    (h : run cfg actions = .ok s) :
    Smooth cfg s ∧ HeldUp cfg.longestDelay s := by
  refine foldlM_ok (P := fun s => Smooth cfg s ∧ HeldUp cfg.longestDelay s) (fun s action s' hs hact => ?_)
    ⟨Smooth.init cfg, fun r b command _ => ?_⟩ h
  · refine ⟨hs.1.act hregular hact, ?_⟩
    rcases act_ok hact with ⟨-, hupdate⟩ | ⟨-, hwaits, -⟩
    · rcases hs.1.works hregular hroomy (le_refl _) hs.2 hupdate with ⟨-, hheld⟩ | ⟨-, hheld, -⟩
      · exact hheld
      · exact hheld.mono (Nat.sub_le _ _)
    · rw [HeldUp, hwaits.banks_eq, hwaits.clock_eq]
      exact hs.2
  · have hzero : BankState.init.next command = 0 := by
      rw [BankState.next]
      split_ifs <;> rfl
    exact hzero.le.trans (Nat.zero_le _)

/-- **The work is drained.** -/
theorem drained (hregular : cfg.Regular) (hroomy : cfg.Roomy) {actions : List Action}
    (h : run cfg actions = .ok s) {n : ℕ} (hn : work cfg s * (cfg.longestDelay + 1) ≤ n)
    (htimes : times (MemorySystem.update cfg) n s = .ok s') :
    Smooth cfg s' ∧ work cfg s' = 0 := by
  obtain ⟨hsmooth, hheld⟩ := smooth_run hregular hroomy h
  refine times_drained (P := Smooth cfg) (H := HeldUp)
    (fun t t' k ht hk hheld hupdate => ?_) hsmooth (le_refl _)
    hheld (Nat.add_le_add_right hn _) htimes
  exact ⟨ht.update hregular hupdate, ht.works hregular hroomy hk hheld hupdate⟩

theorem run_updates (cfg : Config) (actions : List Action) (n : ℕ) :
    run cfg (actions ++ List.replicate n .update) =
      run cfg actions >>= times (MemorySystem.update cfg) n := by
  rw [run, List.foldlM_append]
  apply bind_congr
  intro t
  exact foldlM_replicate _ _ n t

end MemorySystem

end RacerArtifacts.Mram
