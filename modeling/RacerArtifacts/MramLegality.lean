import RacerArtifacts.MramExits

/-! What the ranks accept. Their own banks are idle in every state of a run, under either policy: reads and
writes with automatic precharge and refreshes are accepted among idle banks, and a read or a write without
it never is. -/

namespace RacerArtifacts.Mram

open Fallible MemoryController

variable {cfg : Config} {e : Exit}

/-- The commands of a policy. -/
def Config.Issues (cfg : Config) (p : BusPacket) : Prop :=
  match cfg.rowBufferPolicy with
  | .closePage => p.IsColumn
  | .openPage => p.busPacketType = .read ∨ p.busPacketType = .write

theorem Config.issues_packet {transaction : Transaction} {bpType : BusPacketType} {data : ℕ}
    (h : transaction.getBusPacketType cfg = .ok bpType) :
    cfg.Issues (transaction.packet cfg bpType data) := by
  rw [Transaction.getBusPacketType] at h
  rw [Issues]
  cases hpolicy : cfg.rowBufferPolicy with
  | closePage =>
      rw [hpolicy] at h
      cases htype : transaction.transactionType with
      | dataRead =>
          rw [htype] at h
          cases h
          exact .inl rfl
      | dataWrite =>
          rw [htype] at h
          cases h
          exact .inr rfl
      | returnData =>
          rw [htype] at h
          cases h
  | openPage =>
      rw [hpolicy] at h
      cases htype : transaction.transactionType with
      | dataRead =>
          rw [htype] at h
          cases h
          exact .inl rfl
      | dataWrite =>
          rw [htype] at h
          cases h
          exact .inr rfl
      | returnData =>
          rw [htype] at h
          cases h

/-- What reaches a rank: a command of the policy, a refresh, or data. -/
def Config.Sends (cfg : Config) (p : BusPacket) : Prop :=
  cfg.Issues p ∨ p.busPacketType = .refresh ∨ p.busPacketType = .data

namespace Rank

variable {rank rank' : Rank} {p : BusPacket}

/-- A rank whose banks are idle; where the rows are left open no read has reached it. -/
structure Calm (cfg : Config) (rank : Rank) : Prop where
  idle : ∀ b, (rank.bankStates b).currentBankState = .idle
  empty : cfg.rowBufferPolicy = .openPage →
    rank.outgoingDataPacket = none ∧ rank.readReturnPacket = [] ∧ rank.readReturnCountdown = []

theorem Calm.of_same (h : Calm cfg rank) (hbanks : rank'.bankStates = rank.bankStates)
    (hdata : rank'.outgoingDataPacket = rank.outgoingDataPacket)
    (hpackets : rank'.readReturnPacket = rank.readReturnPacket)
    (hcountdown : rank'.readReturnCountdown = rank.readReturnCountdown) : Calm cfg rank' where
  idle := by
    rw [hbanks]
    exact h.idle
  empty := by
    rw [hdata, hpackets, hcountdown]
    exact h.empty

theorem update_idle (bank : BankState) (banks : ℕ → BankState) {i : ℕ} (hbank : bank.currentBankState = .idle)
    (hbanks : ∀ b, (banks b).currentBankState = .idle) (b : ℕ) :
    (Function.update banks i bank b).currentBankState = .idle := by
  by_cases hb : b = i
  · subst hb
    rw [Function.update_self]
    exact hbank
  · rw [Function.update_of_ne hb]
    exact hbanks b

/-- **What idle banks accept**: everything but a read or a write that asks for an open row. -/
theorem Calm.receives (h : Calm cfg rank) (hp : cfg.Sends p)
    (hopen : ¬ (cfg.rowBufferPolicy = .openPage ∧ p.IsCommand)) :
    ∃ rank', rank.receiveFromBus cfg p = .ok rank' ∧ Calm cfg rank' := by
  have hclose : p.IsCommand → cfg.rowBufferPolicy = .closePage := by
    intro hcommand
    cases hpolicy : cfg.rowBufferPolicy with
    | closePage => rfl
    | openPage => exact absurd ⟨hpolicy, hcommand⟩ hopen
  rw [receiveFromBus]
  rcases hp with hissues | htype | htype
  · rw [Config.Issues] at hissues
    cases hpolicy : cfg.rowBufferPolicy with
    | closePage =>
        rw [hpolicy] at hissues
        rcases hissues with htype | htype
        · simp only [htype]
          refine ⟨_, rfl, fun b => ?_, fun hbad => by rw [hpolicy] at hbad; cases hbad⟩
          exact update_idle _ _ rfl h.idle b
        · simp only [htype]
          refine ⟨_, rfl, fun b => ?_, fun hbad => by rw [hpolicy] at hbad; cases hbad⟩
          exact update_idle _ _ rfl h.idle b
    | openPage =>
        rw [hpolicy] at hissues
        refine absurd (hclose ?_) (by rw [hpolicy]; decide)
        rcases hissues with htype | htype
        · exact .inl (.inl htype)
        · exact .inr (.inl htype)
  · simp only [htype]
    rw [if_neg (by rintro ⟨i, -, hi⟩; exact hi (h.idle i))]
    exact ⟨_, rfl, fun b => h.idle b, h.empty⟩
  · simp only [htype]
    exact ⟨_, rfl, h⟩

/-- **What idle banks refuse**, where the rows are left open: every command. -/
theorem Calm.refuses (h : Calm cfg rank) (hpolicy : cfg.rowBufferPolicy = .openPage) (hp : cfg.Issues p) :
    ∃ e, rank.receiveFromBus cfg p = .error e ∧ e.NotAllowed := by
  have hclosed : (rank.bankStates p.bank).currentBankState ≠ .rowActive := by
    rw [h.idle]
    decide
  rw [Config.Issues, hpolicy] at hp
  rw [receiveFromBus]
  rcases hp with htype | htype
  · simp only [htype]
    exact ⟨_, if_pos (.inl hclosed), .inl rfl⟩
  · simp only [htype]
    exact ⟨_, if_pos (.inl hclosed), .inr (.inl rfl)⟩

theorem Calm.sendData (h : Calm cfg rank) : Calm cfg rank.sendData.2 := by
  rw [Rank.sendData]
  cases hdata : rank.outgoingDataPacket with
  | none => exact h
  | some p =>
      have hclose : cfg.rowBufferPolicy ≠ .openPage := by
        intro hpolicy
        rw [(h.empty hpolicy).1] at hdata
        cases hdata
      dsimp only
      split_ifs
      · exact ⟨h.idle, fun hpolicy => absurd hpolicy hclose⟩
      · exact ⟨h.idle, fun hpolicy => absurd hpolicy hclose⟩

theorem Calm.startData (h : Calm cfg rank) (hstart : rank.startData cfg = .ok rank') : Calm cfg rank' := by
  rw [Rank.startData] at hstart
  split at hstart
  · rename_i countdown packet packets hcountdown _
    cases hstart
    refine ⟨h.idle, fun hpolicy => ?_⟩
    rw [(h.empty hpolicy).2.2] at hcountdown
    cases hcountdown
  · cases hstart
  · cases hstart
    refine ⟨h.idle, fun hpolicy => ?_⟩
    obtain ⟨hdata, hpackets, hcountdown⟩ := h.empty hpolicy
    refine ⟨hdata, hpackets, ?_⟩
    dsimp only
    rw [hcountdown]
    rfl

theorem Calm.update (h : Calm cfg rank) {received : Option BusPacket}
    (hupdate : rank.update cfg = .ok (received, rank')) :
    Calm cfg rank' := by
  obtain ⟨rank'', hstart, heq⟩ := map_ok hupdate
  obtain ⟨-, rfl⟩ := Prod.mk.inj heq
  exact h.sendData.startData hstart

/-- Where the rows are left open no data comes back from a rank. -/
theorem Calm.update_open (h : Calm cfg rank) (hpolicy : cfg.rowBufferPolicy = .openPage) :
    ∃ rank', rank.update cfg = .ok (none, rank') := by
  obtain ⟨hdata, hpackets, hcountdown⟩ := h.empty hpolicy
  rw [Rank.update, Rank.sendData, hdata]
  dsimp only
  rw [Rank.startData, hcountdown, hpackets]
  exact ⟨_, rfl⟩

end Rank

namespace MemorySystem

variable {s s' t u : MemorySystem}

/-- The ranks are calm, and what the controller sends on the data bus is data. -/
structure Calm (cfg : Config) (s : MemorySystem) : Prop where
  ranks : ∀ r, (s.ranks r).Calm cfg
  data : ∀ p, s.memoryController.outgoingDataPacket = some p → p.busPacketType = .data
  dataToSend : ∀ p ∈ s.memoryController.writeDataToSend, p.busPacketType = .data

/-- The queues and the command bus hold commands of the policy; the bus may hold a refresh. -/
structure Legal (cfg : Config) (s : MemorySystem) : Prop where
  queued : ∀ r b, ∀ p ∈ s.memoryController.commandQueue.queues r b, cfg.Issues p
  bus : ∀ p, s.memoryController.outgoingCmdPacket = some p →
    s.memoryController.cmdCyclesLeft = 1 ∧ (cfg.Issues p ∨ p.busPacketType = .refresh)

theorem Calm.of_same (h : Calm cfg s) (hranks : t.ranks = s.ranks)
    (hdata : t.memoryController.outgoingDataPacket = s.memoryController.outgoingDataPacket)
    (hsend : t.memoryController.writeDataToSend = s.memoryController.writeDataToSend) : Calm cfg t where
  ranks := by
    rw [hranks]
    exact h.ranks
  data := by
    rw [hdata]
    exact h.data
  dataToSend := by
    rw [hsend]
    exact h.dataToSend

theorem calm_update {ranks : ℕ → Rank} (h : ∀ r, (ranks r).Calm cfg) {i : ℕ} {rank : Rank}
    (hrank : rank.Calm cfg) (r : ℕ) : (Function.update ranks i rank r).Calm cfg := by
  by_cases hr : r = i
  · subst hr
    rw [Function.update_self]
    exact hrank
  · rw [Function.update_of_ne hr]
    exact h r

theorem Calm.updateRank (h : Calm cfg s) {i : ℕ} (hrank : s.updateRank cfg i = .ok t) : Calm cfg t := by
  obtain ⟨received, rank, hupdate, ⟨-, rfl⟩ | ⟨p, reads, -, rfl⟩⟩ := updateRank_ok hrank
  · exact ⟨calm_update h.ranks ((h.ranks i).update hupdate), h.data, h.dataToSend⟩
  · exact ⟨calm_update h.ranks ((h.ranks i).update hupdate), h.data, h.dataToSend⟩

theorem Calm.takePending (h : Calm cfg s) : Calm cfg (s.takePending cfg).idleBanks := by
  obtain ⟨taken, pending, -, htaken⟩ := takePending_eq cfg s
  rw [htaken]
  exact h.of_same rfl rfl rfl

/-- **The command on the bus is accepted**, unless it asks for an open row. -/
theorem Calm.sendCommand (h : Calm cfg s)
    (hbus : ∀ p, s.memoryController.outgoingCmdPacket = some p →
      cfg.Sends p ∧ ¬ (cfg.rowBufferPolicy = .openPage ∧ p.IsCommand)) :
    ∃ t, s.sendCommand cfg = .ok t ∧ Calm cfg t := by
  rw [MemorySystem.sendCommand]
  cases hp : s.memoryController.outgoingCmdPacket with
  | none => exact ⟨s, rfl, h⟩
  | some p =>
      dsimp only
      split_ifs
      · obtain ⟨hsends, hopen⟩ := hbus p hp
        obtain ⟨rank, hrank, hcalm⟩ := (h.ranks p.rank).receives hsends hopen
        rw [hrank]
        exact ⟨_, rfl, calm_update h.ranks hcalm, h.data, h.dataToSend⟩
      · exact ⟨_, rfl, h.of_same rfl rfl rfl⟩

theorem Calm.sendWriteData (h : Calm cfg s) : ∃ t, s.sendWriteData cfg = .ok t ∧ Calm cfg t := by
  rw [MemorySystem.sendWriteData]
  cases hp : s.memoryController.outgoingDataPacket with
  | none => exact ⟨s, rfl, h⟩
  | some p =>
      have hdata := h.data p hp
      dsimp only
      split_ifs
      · obtain ⟨rank, hrank, hcalm⟩ := (h.ranks p.rank).receives (p := p) (.inr (.inr hdata)) (by
          rintro ⟨-, (hbad | hbad) | (hbad | hbad)⟩ <;>
          · rw [hdata] at hbad
            cases hbad)
        rw [hrank]
        exact ⟨_, rfl, calm_update h.ranks hcalm, (fun p hp => by cases hp), h.dataToSend⟩
      · refine ⟨_, rfl, h.ranks, fun p' hp' => ?_, h.dataToSend⟩
        exact h.data p' (hp.symm ▸ hp')

theorem Calm.startWriteData (h : Calm cfg s) (hstart : s.startWriteData cfg = .ok t) : Calm cfg t := by
  obtain ⟨mc, hmc, rfl⟩ := map_ok hstart
  rcases startWriteData_ok hmc with ⟨-, -, hmc⟩ | ⟨p, packets, _, _, _, -, hsend, -, rfl⟩
  · rw [hmc]
    exact h.of_same rfl rfl rfl
  · have hall := h.dataToSend
    rw [hsend] at hall
    refine ⟨h.ranks, fun p' hp' => ?_, fun p' hp' => hall p' (List.mem_cons_of_mem _ hp')⟩
    cases hp'
    exact hall p List.mem_cons_self

theorem Calm.checkRefresh (h : Calm cfg s) : Calm cfg (s.checkRefresh cfg) := by
  have hwait : ∀ r, (s.ranks r).waitForRefresh.Calm cfg := fun r => (h.ranks r).of_same rfl rfl rfl rfl
  rw [MemorySystem.checkRefresh]
  split_ifs
  · exact ⟨calm_update h.ranks (hwait _), h.data, h.dataToSend⟩
  · exact ⟨calm_update h.ranks (hwait _), h.data, h.dataToSend⟩
  · exact ⟨calm_update h.ranks (hwait _), h.data, h.dataToSend⟩
  · exact h

theorem Calm.popCommand (h : Calm cfg s) (hpop : s.popCommand cfg = .ok t) : Calm cfg t := by
  obtain ⟨found, cq, -, ⟨-, rfl⟩ | ⟨p, _, _, _, _, -, -, -, rfl⟩⟩ := popCommand_split hpop
  · exact h.of_same rfl rfl rfl
  · refine ⟨h.ranks, h.data, fun p' hp' => ?_⟩
    dsimp only at hp'
    split_ifs at hp'
    · rcases List.mem_append.mp hp' with hp' | hp'
      · exact h.dataToSend p' hp'
      · rw [List.mem_singleton.mp hp']
        rfl
    · exact h.dataToSend p' hp'

theorem Calm.schedule (h : Calm cfg s) (hschedule : s.schedule cfg = .ok t) : Calm cfg t := by
  obtain ⟨mc, hmc, rfl⟩ := map_ok hschedule
  rcases scheduleFrom_split (fun x hx => by cases hx) rfl hmc with ⟨rfl, -⟩ | ⟨_, _, _, _, -, -, -, -, rfl⟩
  · exact h.of_same rfl rfl rfl
  · exact h.of_same rfl rfl rfl

theorem Calm.returnData (h : Calm cfg s) (hreturn : (s.addBackgroundEnergy cfg).returnData cfg = .ok t) :
    Calm cfg t.stepClocks := by
  have hstep : ∀ r, (s.ranks r).step.Calm cfg := fun r => (h.ranks r).of_same rfl rfl rfl rfl
  obtain ⟨⟨returned, mc⟩, hr, rfl⟩ := map_ok hreturn
  rcases returnData_ok hr with ⟨-, rfl, rfl⟩ | ⟨_, _, _, _, _, _, _, _, -, -, -, -, rfl, rfl⟩
  · exact ⟨hstep, h.data, h.dataToSend⟩
  · exact ⟨hstep, h.data, h.dataToSend⟩

theorem Legal.of_same (h : Legal cfg s)
    (hqueue : t.memoryController.commandQueue = s.memoryController.commandQueue)
    (hbus : SameBus s t) : Legal cfg t where
  queued := by
    rw [hqueue]
    exact h.queued
  bus := by
    rw [hbus.1, hbus.2]
    exact h.bus

/-- The commands of the policy go through the queues onto the bus. -/
theorem Legal.update (htCMD : cfg.tCMD = 1) (h : Legal cfg s) (hupdate : s.update cfg = .ok s') :
    Legal cfg s' := by
  obtain ⟨t, t', u, hopened, hpop, hschedule, hclosed⟩ := update_cycle hupdate
  have hqueues : ∀ r b, ∀ p ∈ t.memoryController.commandQueue.queues r b, cfg.Issues p := by
    rw [hopened.queue_eq, (checkRefresh_same cfg s).1]
    exact h.queued
  obtain ⟨found, cq, hfound, hcases⟩ := popCommand_split hpop
  have hdrawn := CommandQueue.pop_drawn hopened.idle hfound
  have hpopped : Legal cfg t' := by
    rcases hcases with ⟨-, rfl⟩ | ⟨p, _, _, _, _, rfl, -, -, rfl⟩
    · refine ⟨fun r b p hp => hqueues r b p (hdrawn.queues r b p hp), fun p hp => ?_⟩
      have hfree := hopened.bus fun p hp => (h.bus p hp).1
      rw [show t.memoryController.outgoingCmdPacket = some p from hp] at hfree
      cases hfree
    · refine ⟨fun r b p hp => hqueues r b p (hdrawn.queues r b p hp), fun p' hp' => ?_⟩
      cases hp'
      refine ⟨htCMD, ?_⟩
      rcases hdrawn.found p rfl with ⟨r, b, hmem⟩ | ⟨-, rfl⟩
      · exact .inl (hqueues r b p hmem)
      · exact .inr rfl
  have hscheduled : Legal cfg u := by
    obtain ⟨mc, hmc, rfl⟩ := map_ok hschedule
    rcases scheduleFrom_split (fun x hx => by cases hx) rfl hmc with
      ⟨rfl, -⟩ | ⟨before, x, rest, bpType, -, -, -, htype, rfl⟩
    · exact hpopped
    · refine ⟨CommandQueue.forall_setCommandQueue hpopped.queued fun p hp => ?_, hpopped.bus⟩
      rcases List.mem_append.mp hp with hp | hp
      · exact hpopped.queued _ _ p hp
      · rw [List.mem_singleton.mp hp]
        exact Config.issues_packet htype
  refine ⟨?_, ?_⟩
  · rw [hclosed.queues_eq]
    exact hscheduled.queued
  · rw [hclosed.bus_eq.1, hclosed.bus_eq.2]
    exact hscheduled.bus

/-- The phases before the commands of a cycle are sent leave the bus alone. -/
theorem Legal.updateRanks (h : Legal cfg s) {s₁ : MemorySystem}
    (h₁ : (List.range cfg.numRanks).foldlM (MemorySystem.updateRank cfg) s = .ok s₁) :
    Legal cfg (s₁.takePending cfg).idleBanks := by
  obtain ⟨hranks, hbus⟩ := waits_ranks h₁
  obtain ⟨hpending, hbus'⟩ := waits_takePending cfg s₁
  exact (h.of_same hranks.queue_eq hbus).of_same hpending.queue_eq hbus'

theorem Calm.updateRanks (h : Calm cfg s) {s₁ : MemorySystem}
    (h₁ : (List.range cfg.numRanks).foldlM (MemorySystem.updateRank cfg) s = .ok s₁) :
    Calm cfg (s₁.takePending cfg).idleBanks :=
  (foldlM_ok (fun _ _ _ hcalm hrank => Calm.updateRank hcalm hrank) h h₁).takePending

/-- Where the rows are left open the update of the ranks goes through. -/
theorem Calm.updateRanks_total (h : Calm cfg s) (hpolicy : cfg.rowBufferPolicy = .openPage) :
    ∃ s₁, (List.range cfg.numRanks).foldlM (MemorySystem.updateRank cfg) s = .ok s₁ := by
  obtain ⟨s₁, hs₁, -⟩ := foldlM_range_total (f := MemorySystem.updateRank cfg) (P := fun _ t => Calm cfg t)
      (n := cfg.numRanks) h
    fun i _ t ht => by
      obtain ⟨rank, hrank⟩ := (ht.ranks i).update_open hpolicy
      have hstep : t.updateRank cfg i = .ok { t with ranks := Function.update t.ranks i rank } := by
        rw [MemorySystem.updateRank, hrank]
        rfl
      exact ⟨_, hstep, ht.updateRank hstep⟩
  exact ⟨s₁, hs₁⟩

/-- A command that asks for an open row lies on the bus. -/
def Refusal (cfg : Config) (s : MemorySystem) : Prop :=
  cfg.rowBufferPolicy = .openPage ∧ ∃ p, s.memoryController.outgoingCmdPacket = some p ∧ p.IsCommand

theorem Legal.sends (h : Legal cfg s) (haccepts : ¬ Refusal cfg s) {p : BusPacket}
    (hp : s.memoryController.outgoingCmdPacket = some p) :
    cfg.Sends p ∧ ¬ (cfg.rowBufferPolicy = .openPage ∧ p.IsCommand) := by
  refine ⟨?_, fun hbad => haccepts ⟨hbad.1, p, hp, hbad.2⟩⟩
  rcases (h.bus p hp).2 with hissues | hrefresh
  · exact .inl hissues
  · exact .inr (.inl hrefresh)

theorem refusal_idleBanks {s₁ : MemorySystem}
    (h₁ : (List.range cfg.numRanks).foldlM (MemorySystem.updateRank cfg) s = .ok s₁) :
    Refusal cfg (s₁.takePending cfg).idleBanks ↔ Refusal cfg s := by
  have hbus : (s₁.takePending cfg).idleBanks.memoryController.outgoingCmdPacket =
      s.memoryController.outgoingCmdPacket :=
    ((waits_ranks h₁).2.trans (waits_takePending cfg s₁).2).1
  rw [Refusal, Refusal, hbus]

/-- Where no command asks for an open row an update fails for other reasons only. -/
theorem Calm.fails_otherwise (hcalm : Calm cfg s) (hlegal : Legal cfg s) (haccepts : ¬ Refusal cfg s)
    {e : Exit} (hupdate : s.update cfg = .error e) : ¬ e.NotAllowed := by
  have hsends {s₁ : MemorySystem} (h₁ : (List.range cfg.numRanks).foldlM (MemorySystem.updateRank cfg) s =
      .ok s₁) :
      ∃ t, (s₁.takePending cfg).idleBanks.sendCommand cfg = .ok t ∧ Calm cfg t :=
    (hcalm.updateRanks h₁).sendCommand fun p hp =>
      (hlegal.updateRanks h₁).sends (fun hbad => haccepts ((refusal_idleBanks h₁).mp hbad)) hp
  cases update_fails hupdate with
  | ranks h => rcases ranks_exits h with rfl | rfl <;> decide
  | sendCommand h₁ h =>
      obtain ⟨t, ht, -⟩ := hsends h₁
      rw [ht] at h
      cases h
  | sendWriteData h₁ h₂ h =>
      obtain ⟨t, ht, hcalm'⟩ := hsends h₁
      obtain rfl := Except.ok.inj (ht.symm.trans h₂)
      obtain ⟨t', ht', -⟩ := hcalm'.sendWriteData
      rw [ht'] at h
      cases h
  | startWriteData _ _ _ h => rcases startWriteData_exits h with rfl | rfl <;> decide
  | popCommand hprepared h => rcases popCommand_exits hprepared.idle h with rfl | rfl | rfl | rfl | rfl <;>
      decide
  | schedule _ _ h => rcases schedule_exits h with rfl | rfl | rfl <;> decide
  | returnData _ _ _ _ _ _ h =>
      rw [returnData_exits h]
      decide

/-- A command that asks for an open row is refused when it leaves the bus. -/
theorem Calm.refuses (hcalm : Calm cfg s) (hlegal : Legal cfg s) (hrefusal : Refusal cfg s) :
    ∃ e, s.update cfg = .error e ∧ e.NotAllowed := by
  obtain ⟨s₁, h₁⟩ := hcalm.updateRanks_total hrefusal.1
  obtain ⟨hpolicy, p, hp, hcommand⟩ := (refusal_idleBanks h₁).mpr hrefusal
  obtain ⟨hleft, hissues | hrefresh⟩ := (hlegal.updateRanks h₁).bus p hp
  · obtain ⟨e, he, hnot⟩ := ((hcalm.updateRanks h₁).ranks p.rank).refuses hpolicy hissues
    have hsend : (s₁.takePending cfg).idleBanks.sendCommand cfg = .error e := by
      rw [MemorySystem.sendCommand, hp]
      dsimp only
      rw [hleft, if_pos (show decrement 1 = 0 from rfl), he]
      rfl
    refine ⟨e, ?_, hnot⟩
    rw [MemorySystem.update, h₁]
    change ((s₁.takePending cfg).updateController cfg >>= _) = _
    rw [updateController]
    change (((s₁.takePending cfg).idleBanks.sendCommand cfg >>= _) >>= _) = _
    rw [hsend]
    rfl
  · rcases hcommand with (hbad | hbad) | (hbad | hbad) <;>
    · rw [hrefresh] at hbad
      cases hbad

/-- **What an update refuses**, and nothing else: a command on the bus that asks for an open row. -/
theorem update_refuses_iff (hcalm : Calm cfg s) (hlegal : Legal cfg s) :
    (∃ e, s.update cfg = .error e ∧ e.NotAllowed) ↔ Refusal cfg s := by
  constructor
  · rintro ⟨e, hupdate, he⟩
    by_contra haccepts
    exact hcalm.fails_otherwise hlegal haccepts hupdate he
  · exact hcalm.refuses hlegal

theorem Calm.update (hlegal : Legal cfg s) (h : Calm cfg s) (hupdate : s.update cfg = .ok s') :
    Calm cfg s' := by
  obtain ⟨s₁, s₂, s₃, s₄, s₅, s₆, s₇, h₁, h₂, h₃, h₄, h₅, h₆, h₇, rfl⟩ := update_ok hupdate
  have haccepts : ¬ Refusal cfg s := by
    intro hrefusal
    obtain ⟨e, he, -⟩ := (update_refuses_iff h hlegal).mpr hrefusal
    rw [he] at hupdate
    cases hupdate
  obtain ⟨t, ht, hcalm⟩ := (h.updateRanks h₁).sendCommand fun p hp =>
    (hlegal.updateRanks h₁).sends (fun hbad => haccepts ((refusal_idleBanks h₁).mp hbad)) hp
  obtain rfl := Except.ok.inj (ht.symm.trans h₂)
  obtain ⟨t', ht', hcalm'⟩ := hcalm.sendWriteData
  obtain rfl := Except.ok.inj (ht'.symm.trans h₃)
  exact (((hcalm'.startWriteData h₄).checkRefresh.popCommand h₅).schedule h₆).returnData h₇

theorem Calm.act (htCMD : cfg.tCMD = 1) (h : Calm cfg s ∧ Legal cfg s) {action : Action}
    (hact : s.act cfg action = .ok s') : Calm cfg s' ∧ Legal cfg s' := by
  obtain ⟨hcalm, hlegal⟩ := h
  cases action with
  | update => exact ⟨hcalm.update hlegal hact, hlegal.update htCMD hact⟩
  | addTransaction transaction =>
      cases hact
      obtain ⟨taken, -, htaken⟩ := addTransaction_eq cfg s transaction
      rw [htaken]
      exact ⟨hcalm.of_same rfl rfl rfl, hlegal.of_same rfl ⟨rfl, rfl⟩⟩
  | request isWrite addr =>
      cases hact
      obtain ⟨taken, pending, -, htaken⟩ := request_eq cfg s isWrite addr
      rw [htaken]
      exact ⟨hcalm.of_same rfl rfl rfl, hlegal.of_same rfl ⟨rfl, rfl⟩⟩
  | resetStats =>
      cases hact
      exact ⟨hcalm.of_same rfl rfl rfl, hlegal.of_same rfl ⟨rfl, rfl⟩⟩

/-- **The ranks are calm in every state a run reaches.** -/
theorem calm_run (htCMD : cfg.tCMD = 1) {actions : List Action} (h : run cfg actions = .ok s) :
    Calm cfg s ∧ Legal cfg s := by
  have hstart : Calm cfg (init cfg) ∧ Legal cfg (init cfg) :=
    ⟨⟨fun _ => ⟨fun _ => rfl, fun _ => ⟨rfl, rfl, rfl⟩⟩, (fun p hp => by cases hp),
      (fun p hp => by cases hp)⟩,
      ⟨(fun r b p hp => by cases hp), (fun p hp => by cases hp)⟩⟩
  exact foldlM_ok (P := fun s => Calm cfg s ∧ Legal cfg s)
    (fun _ _ _ hinv hact => Calm.act htCMD hinv hact) hstart h

/-- **Which runs the ranks accept**: those under the close-page policy, and those under the open-page policy
in which no update starts with a read or a write on the command bus. -/
theorem accepts_iff (cfg : Config) (htCMD : cfg.tCMD = 1) (actions : List Action) :
    (∀ e, run cfg actions = .error e → ¬ e.NotAllowed) ↔
      (cfg.rowBufferPolicy = .closePage ∨ ∀ before after s p, actions = before ++ .update :: after →
        run cfg before = .ok s → s.memoryController.outgoingCmdPacket = some p →
        ¬ (p.IsRead ∨ p.IsWrite)) := by
  constructor
  · intro haccepts
    cases hpolicy : cfg.rowBufferPolicy with
    | closePage => exact .inl rfl
    | openPage =>
        refine .inr fun before after s p hsplit hrun hp hcommand => ?_
        obtain ⟨hcalm, hlegal⟩ := calm_run htCMD hrun
        obtain ⟨e, he, hnot⟩ := (update_refuses_iff hcalm hlegal).mpr ⟨hpolicy, p, hp, hcommand⟩
        refine haccepts e ?_ hnot
        rw [hsplit, run, List.foldlM_append]
        change (run cfg before >>= _) = _
        rw [hrun]
        change (List.foldlM (MemorySystem.act cfg) s (.update :: after)) = _
        rw [List.foldlM_cons]
        change (s.update cfg >>= _) = _
        rw [he]
        rfl
  · intro hcondition e hrun hnot
    obtain ⟨before, action, after, s, hsplit, hbefore, hfails⟩ := foldlM_error hrun
    cases action with
    | update =>
        obtain ⟨hcalm, hlegal⟩ := calm_run htCMD hbefore
        obtain ⟨hpolicy, p, hp, hcommand⟩ := (update_refuses_iff hcalm hlegal).mp ⟨e, hfails, hnot⟩
        rcases hcondition with hclose | hnone
        · rw [hpolicy] at hclose
          cases hclose
        · exact hnone before after s p hsplit hbefore hp hcommand
    | addTransaction transaction => cases hfails
    | request isWrite addr => cases hfails
    | resetStats => cases hfails

/-- A read that has been issued and has not arrived. -/
def readOnBus : List Action := [.addTransaction ⟨.dataRead, 0, 0, 0⟩, .update, .update]

/-- With the devices of the example, under the close-page policy over a client that writes and reads, and
under the open-page policy until the first read is on its way. -/
theorem accepts_iff_ddr2 :
    ((∃ s, run (ddr2Micron 1 (by decide)) writeThenRead = .ok s ∧ s.history.issued.length = 2) ∧
        ∀ e, run (ddr2Micron 1 (by decide)) writeThenRead = .error e → ¬ e.NotAllowed) ∧
      (∃ s, run { ddr2Micron 1 (by decide) with rowBufferPolicy := .openPage } readOnBus = .ok s ∧
          s.history.issued.length = 1) ∧
        ∀ e, run { ddr2Micron 1 (by decide) with rowBufferPolicy := .openPage } readOnBus = .error e →
          ¬ e.NotAllowed := by
  refine ⟨⟨by decide +kernel, (accepts_iff (ddr2Micron 1 (by decide)) rfl writeThenRead).mpr (.inl rfl)⟩,
    by decide +kernel, ?_⟩
  refine (accepts_iff { ddr2Micron 1 (by decide) with rowBufferPolicy := .openPage } rfl readOnBus).mpr
    (.inr ?_)
  have halong : Along (act { ddr2Micron 1 (by decide) with rowBufferPolicy := .openPage })
      (fun s action => action = .update → ∀ p ∈ s.memoryController.outgoingCmdPacket,
        ¬ (p.IsRead ∨ p.IsWrite))
      (init { ddr2Micron 1 (by decide) with rowBufferPolicy := .openPage }) readOnBus := by decide +kernel
  intro before after s p hsplit hbefore hp
  rw [hsplit] at halong
  exact halong.holds hbefore rfl p hp

/-- Under the open-page policy the first read is refused when it arrives. -/
theorem open_page_refuses :
    ¬ ∀ (cfg : Config) (actions : List Action) (e : Exit), cfg.tCMD = 1 → run cfg actions = .error e →
      ¬ e.NotAllowed := by
  intro h
  have hrun : ∃ e, run { ddr2Micron 1 (by decide) with rowBufferPolicy := .openPage }
      ([.addTransaction ⟨.dataRead, 0, 0, 0⟩] ++ List.replicate 3 .update) = .error e ∧ e.NotAllowed := by
    decide +kernel
  obtain ⟨e, he, hnot⟩ := hrun
  exact h _ _ e rfl he hnot

end MemorySystem

end RacerArtifacts.Mram
