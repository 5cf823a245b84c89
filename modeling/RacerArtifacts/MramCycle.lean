import RacerArtifacts.MramController
import RacerArtifacts.MramPop

/-! What each phase of an update does: one lemma for each, with the state after it. The invariants of the
later modules go through an update phase by phase. -/

namespace RacerArtifacts.Mram

open Fallible

variable {cfg : Config}

/-- The commands that bring data back. -/
def BusPacket.IsRead (p : BusPacket) : Prop :=
  p.busPacketType = .read ∨ p.busPacketType = .readP

instance (p : BusPacket) : Decidable p.IsRead :=
  inferInstanceAs (Decidable (_ ∨ _))

/-- The commands that send data out. -/
def BusPacket.IsWrite (p : BusPacket) : Prop :=
  p.busPacketType = .write ∨ p.busPacketType = .writeP

instance (p : BusPacket) : Decidable p.IsWrite :=
  inferInstanceAs (Decidable (_ ∨ _))

/-- The data packet of a command. -/
def BusPacket.toData (p : BusPacket) : BusPacket :=
  { p with busPacketType := .data }

theorem BusPacket.IsRead.isColumn_of_not_read {p : BusPacket} (hp : p.IsColumn) :
    (p.IsRead ↔ p.busPacketType = .readP) ∧ (p.IsWrite ↔ p.busPacketType = .writeP) := by
  rcases hp with h | h
  · refine ⟨⟨fun _ => h, .inr⟩, fun hw => ?_, .inr⟩
    rcases hw with hw | hw
    · rw [h] at hw
      cases hw
    · exact hw
  · refine ⟨⟨fun hr => ?_, .inr⟩, fun _ => h, .inr⟩
    rcases hr with hr | hr
    · rw [h] at hr
      cases hr
    · exact hr

namespace Rank

variable {rank rank' : Rank}

/-- What a packet from the bus changes of a rank, apart from its bank states: a read waits for `RL`. -/
theorem receiveFromBus_ok {p : BusPacket} (h : rank.receiveFromBus cfg p = .ok rank') :
    ∃ banks waiting,
      rank' = if p.IsRead then { rank with bankStates := banks, refreshWaiting := waiting }.returnLater p
        else { rank with bankStates := banks, refreshWaiting := waiting } := by
  rw [receiveFromBus] at h
  cases htype : p.busPacketType with
  | read =>
      simp only [htype] at h
      split_ifs at h
      cases h
      exact ⟨_, _, (if_pos (.inl htype)).symm⟩
  | readP =>
      simp only [htype] at h
      cases h
      exact ⟨_, _, (if_pos (.inr htype)).symm⟩
  | write =>
      simp only [htype] at h
      split_ifs at h
      cases h
      exact ⟨_, _, (if_neg (by simp [BusPacket.IsRead, htype])).symm⟩
  | writeP =>
      simp only [htype] at h
      cases h
      exact ⟨_, _, (if_neg (by simp [BusPacket.IsRead, htype])).symm⟩
  | activate =>
      simp only [htype] at h
      split_ifs at h
      cases h
      exact ⟨_, _, (if_neg (by simp [BusPacket.IsRead, htype])).symm⟩
  | precharge =>
      simp only [htype] at h
      split_ifs at h
      cases h
      exact ⟨_, _, (if_neg (by simp [BusPacket.IsRead, htype])).symm⟩
  | refresh =>
      simp only [htype] at h
      split_ifs at h
      cases h
      exact ⟨_, _, (if_neg (by simp [BusPacket.IsRead, htype])).symm⟩
  | data =>
      simp only [htype] at h
      cases h
      exact ⟨_, _, (if_neg (by simp [BusPacket.IsRead, htype])).symm⟩

end Rank

namespace MemoryController

variable {mc mc' : MemoryController}

/-- The delay between two commands to one rank. -/
def sameRankDelay (cfg : Config) (first second : BusPacketType) : ℕ :=
  if first = second then cfg.sameTypeDelay
  else if first = .readP then cfg.readToWriteDelay
  else cfg.writeToReadDelayB

/-- The update for a popped command changes bank states and energies only. -/
theorem updateBanks_frame {p : BusPacket} (h : mc.updateBanks cfg p = .ok mc') :
    ∃ bankStates burst actpre refresh, mc' = { mc with
      bankStates := bankStates, burstEnergy := burst, actpreEnergy := actpre, refreshEnergy := refresh } := by
  rw [updateBanks] at h
  cases htype : p.busPacketType with
  | data =>
      simp only [htype] at h
      cases h
  | _ =>
      simp only [htype] at h
      cases h
      exact ⟨_, _, _, _, rfl⟩

theorem not_isColumn {p : BusPacket} {type : BusPacketType} (htype : p.busPacketType = type)
    (hread : type ≠ .readP) (hwrite : type ≠ .writeP) : ¬ p.IsColumn := by
  rintro (hbad | hbad)
  · exact hread (htype.symm.trans hbad)
  · exact hwrite (htype.symm.trans hbad)

/-- Among idle banks the loop over the banks raises the timers of the rank of the command only. -/
theorem constrain_idle (hidle : ∀ r b, (mc.bankStates r b).currentBankState = .idle) (p : BusPacket)
    (target same other : BankState → BankState) (r b : ℕ)
    (hread : (target (mc.bankStates r b)).nextRead = (mc.bankStates r b).nextRead)
    (hwrite : (target (mc.bankStates r b)).nextWrite = (mc.bankStates r b).nextWrite) :
    ∃ bank, bank.nextRead = (mc.bankStates r b).nextRead ∧ bank.nextWrite = (mc.bankStates r b).nextWrite ∧
      mc.constrain p target same other r b = if r = p.rank then same bank else bank := by
  rw [constrain]
  by_cases hr : r = p.rank
  · by_cases hb : b = p.bank
    · exact ⟨target (mc.bankStates r b), hread, hwrite, by simp only [hr, hb, and_self, if_true]⟩
    · exact ⟨mc.bankStates r b, rfl, rfl, by simp only [hr, hb, and_false, if_false, if_true]⟩
  · refine ⟨mc.bankStates r b, rfl, rfl, ?_⟩
    simp only [hr, false_and, if_false, hidle, reduceCtorEq]

/-- What the update for a popped command changes: bank states and energies. Among idle banks a column
command raises the timers of the banks of its own rank, and of these only. -/
theorem updateBanks_ok (hidle : ∀ r b, (mc.bankStates r b).currentBankState = .idle) {p : BusPacket}
    (h : mc.updateBanks cfg p = .ok mc') :
    ∃ bankStates burst actpre refresh,
      mc' = { mc with
        bankStates := bankStates, burstEnergy := burst, actpreEnergy := actpre, refreshEnergy := refresh } ∧
      (p.IsColumn → ∀ r b command, command = .readP ∨ command = .writeP → (bankStates r b).next command =
        if r = p.rank then
          max (mc.currentClockCycle + sameRankDelay cfg p.busPacketType command)
            ((mc.bankStates r b).next command)
        else (mc.bankStates r b).next command) ∧
      (p.busPacketType = .refresh → ∀ r b command,
        (bankStates r b).next command = (mc.bankStates r b).next command) := by
  rw [updateBanks] at h
  cases htype : p.busPacketType with
  | readP =>
      simp only [htype] at h
      cases h
      refine ⟨_, _, _, _, rfl, fun _ r b command hcommand => ?_, fun hbad => by cases hbad⟩
      obtain ⟨bank, hread, hwrite, heq⟩ := constrain_idle hidle p
        (fun bank => { bank with lastCommand := .readP, currentBankState := .rowActive })
        (BankState.afterRead cfg mc.currentClockCycle)
        (fun bank => { bank with
          nextRead := max (mc.currentClockCycle + cfg.BL / 2 + cfg.tRTRS) bank.nextRead
          nextWrite := max (mc.currentClockCycle + cfg.readToWriteDelay) bank.nextWrite }) r b rfl rfl
      rw [heq]
      rcases hcommand with rfl | rfl
      · simp only [BankState.next, sameRankDelay, if_true, ← hread]
        split_ifs <;> rfl
      · simp only [BankState.next, sameRankDelay, if_true, reduceCtorEq, if_false, ← hwrite]
        split_ifs <;> rfl
  | writeP =>
      simp only [htype] at h
      cases h
      refine ⟨_, _, _, _, rfl, fun _ r b command hcommand => ?_, fun hbad => by cases hbad⟩
      obtain ⟨bank, hread, hwrite, heq⟩ := constrain_idle hidle p
        (fun bank => { bank with lastCommand := .writeP, currentBankState := .rowActive })
        (BankState.afterWrite cfg mc.currentClockCycle)
        (fun bank => { bank with
          nextWrite := max (mc.currentClockCycle + cfg.BL / 2 + cfg.tRTRS) bank.nextWrite
          nextRead := max (mc.currentClockCycle + cfg.writeToReadDelayR) bank.nextRead }) r b rfl rfl
      rw [heq]
      rcases hcommand with rfl | rfl
      · simp only [BankState.next, sameRankDelay, if_true, reduceCtorEq, if_false, ← hread]
        split_ifs <;> rfl
      · simp only [BankState.next, sameRankDelay, if_true, reduceCtorEq, if_false, ← hwrite]
        split_ifs <;> rfl
  | refresh =>
      simp only [htype] at h
      cases h
      refine ⟨_, _, _, _, rfl, fun hcolumn => ?_, fun _ r b command => ?_⟩
      · exact absurd hcolumn (not_isColumn htype (by decide) (by decide))
      · dsimp only [BankState.next]
        split_ifs <;> rfl
  | read | write | activate | precharge =>
      simp only [htype] at h
      cases h
      refine ⟨_, _, _, _, rfl, fun hcolumn => ?_, fun hbad => by cases hbad⟩
      exact absurd hcolumn (not_isColumn htype (by decide) (by decide))
  | data =>
      simp only [htype] at h
      cases h

theorem queueWriteData_eq (mc : MemoryController) (p : BusPacket) :
    mc.queueWriteData p = { mc with
      writeDataToSend := if p.IsWrite then mc.writeDataToSend ++ [p.toData] else mc.writeDataToSend
      writeDataCountdown := if p.IsWrite then mc.writeDataCountdown ++ [WL] else mc.writeDataCountdown } := by
  rw [queueWriteData]
  by_cases hwrite : p.IsWrite
  · have htype : p.busPacketType = .write ∨ p.busPacketType = .writeP := hwrite
    rw [if_pos htype, if_pos hwrite, if_pos hwrite]
    rfl
  · have htype : ¬ (p.busPacketType = .write ∨ p.busPacketType = .writeP) := hwrite
    rw [if_neg htype, if_neg hwrite, if_neg hwrite]

theorem issueCommand_ok {p : BusPacket} (h : mc.issueCommand cfg p = .ok mc') :
    mc.outgoingCmdPacket = none ∧ mc' =
      { mc with outgoingCmdPacket := some p, cmdCyclesLeft := cfg.tCMD } := by
  rw [issueCommand] at h
  split_ifs at h with hfree
  cases h
  exact ⟨Option.not_isSome_iff_eq_none.mp hfree, rfl⟩

/-- What starting the write data does: the countdowns go down, and the head whose time has come goes on the
free data bus. -/
theorem startWriteData_ok (h : mc.startWriteData cfg = .ok mc') :
    (mc.writeDataCountdown.map decrement = mc'.writeDataCountdown ∧
        (∀ rest, mc.writeDataCountdown.map decrement ≠ 0 :: rest) ∧
        mc' = { mc with writeDataCountdown := mc'.writeDataCountdown }) ∨
      ∃ packet packets countdown total writes,
        mc.writeDataCountdown.map decrement = 0 :: countdown ∧ mc.writeDataToSend = packet :: packets ∧
        mc.outgoingDataPacket = none ∧
        mc' = { mc with
          outgoingDataPacket := some packet, dataCyclesLeft := cfg.burst, totalTransactions := total,
          totalWritesPerBank := writes, writeDataCountdown := countdown, writeDataToSend := packets } := by
  rw [startWriteData] at h
  split at h
  · rename_i countdown packet packets hcountdown hpackets
    split_ifs at h with hbusy
    cases h
    refine .inr ⟨packet, packets, countdown, _, _, hcountdown, hpackets, ?_, rfl⟩
    rwa [Option.not_isSome_iff_eq_none] at hbusy
  · cases h
  · rename_i hnone hhead
    cases h
    refine .inl ⟨rfl, fun rest hrest => ?_, rfl⟩
    cases hpackets : mc.writeDataToSend with
    | nil => exact hhead _ hrest hpackets
    | cons packet packets => exact hnone _ _ _ hrest hpackets

/-- The commands of a scheduled transaction. -/
def requestType : TransactionType → BusPacketType
  | .dataRead => .readP
  | _ => .writeP

theorem enqueue_activate (cq : CommandQueue) (transaction : Transaction) :
    cq.enqueue cfg (transaction.packet cfg .activate 0) = .ok cq := by
  rw [CommandQueue.enqueue]
  exact if_pos (.inl rfl)

theorem hasRoomFor_ok {cq : CommandQueue} {n rank bank : ℕ} {room : Bool}
    (h : cq.hasRoomFor cfg n rank bank = .ok room) : cfg.HasQueue rank (cfg.slot bank) := by
  rw [CommandQueue.hasRoomFor] at h
  split_ifs at h with hqueue
  exact hqueue

/-- What a transaction asks of the memory, under either policy. -/
theorem getBusPacketType_ok {t : Transaction} {bpType : BusPacketType}
    (h : t.getBusPacketType cfg = .ok bpType) :
    t.transactionType ≠ .returnData ∧
    (bpType = .read ∨ bpType = .readP ∨ bpType = .write ∨ bpType = .writeP) ∧
      (cfg.rowBufferPolicy = .closePage → bpType = requestType t.transactionType) := by
  rw [Transaction.getBusPacketType] at h
  cases ht : t.transactionType with
  | dataRead =>
      rw [ht] at h
      cases hpolicy : cfg.rowBufferPolicy with
      | openPage =>
          rw [hpolicy] at h
          cases h
          exact ⟨(fun hbad => by cases hbad), .inl rfl, fun hbad => by cases hbad⟩
      | closePage =>
          rw [hpolicy] at h
          cases h
          exact ⟨(fun hbad => by cases hbad), .inr (.inl rfl), fun _ => rfl⟩
  | dataWrite =>
      rw [ht] at h
      cases hpolicy : cfg.rowBufferPolicy with
      | openPage =>
          rw [hpolicy] at h
          cases h
          exact ⟨(fun hbad => by cases hbad), .inr (.inr (.inl rfl)), fun hbad => by cases hbad⟩
      | closePage =>
          rw [hpolicy] at h
          cases h
          exact ⟨(fun hbad => by cases hbad), .inr (.inr (.inr rfl)), fun _ => rfl⟩
  | returnData =>
      rw [ht] at h
      cases h

/-- What scheduling does, under either policy: nothing, or one transaction leaves the queue, its command goes
behind its queue, and the read waits to be returned. Those passed over found no room. -/
theorem scheduleFrom_split {front queue : List Transaction}
    (hfront : ∀ t ∈ front, mc.commandQueue.hasRoomFor cfg 1 (addressMapping cfg t.address 0).rank
      (addressMapping cfg t.address 0).bank = .ok false)
    (hqueue : mc.transactionQueue = front ++ queue) (h : mc.scheduleFrom cfg front queue = .ok mc') :
    (mc' = mc ∧ ∀ t ∈ mc.transactionQueue,
      mc.commandQueue.hasRoomFor cfg 1 (addressMapping cfg t.address 0).rank
        (addressMapping cfg t.address 0).bank = .ok false) ∨
      ∃ before t rest bpType, mc.transactionQueue = before ++ t :: rest ∧
        (∀ t' ∈ before, mc.commandQueue.hasRoomFor cfg 1 (addressMapping cfg t'.address 0).rank
          (addressMapping cfg t'.address 0).bank = .ok false) ∧
        mc.commandQueue.hasRoomFor cfg 1 (addressMapping cfg t.address 0).rank
          (addressMapping cfg t.address 0).bank = .ok true ∧
        t.getBusPacketType cfg = .ok bpType ∧
        mc' = { mc with
          transactionQueue := before ++ rest
          commandQueue := mc.commandQueue.setCommandQueue cfg (addressMapping cfg t.address 0).rank
            (addressMapping cfg t.address 0).bank
            (mc.commandQueue.getCommandQueue cfg (addressMapping cfg t.address 0).rank
              (addressMapping cfg t.address 0).bank ++ [t.packet cfg bpType t.data])
          pendingReadTransactions :=
            if t.transactionType = .dataRead then mc.pendingReadTransactions ++ [t]
            else mc.pendingReadTransactions } := by
  induction queue generalizing front with
  | nil =>
      cases h
      rw [hqueue, List.append_nil]
      exact .inl ⟨rfl, hfront⟩
  | cons t rest ih =>
      rw [scheduleFrom] at h
      obtain ⟨room, hroom, h⟩ := bind_ok h
      cases room with
      | false =>
          refine ih (fun t' ht' => ?_) (by rw [hqueue, List.append_cons]) h
          rcases List.mem_append.mp ht' with ht' | ht'
          · exact hfront t' ht'
          · rw [List.mem_singleton.mp ht']
            exact hroom
      | true =>
          rw [if_pos rfl] at h
          obtain ⟨bpType, htype, h⟩ := bind_ok h
          refine .inr ⟨front, t, rest, bpType, hqueue, hfront, hroom, htype, ?_⟩
          obtain ⟨cq, hcq, h⟩ := bind_ok h
          rw [enqueue_activate] at hcq
          cases hcq
          obtain ⟨cq, hcq, h⟩ := bind_ok h
          cases h
          have hcommand : ¬ (bpType = .activate ∨ bpType = .precharge ∨ bpType = .refresh) := by
            rcases (getBusPacketType_ok htype).2.1 with rfl | rfl | rfl | rfl <;> simp
          rw [CommandQueue.enqueue] at hcq
          change (if bpType = .activate ∨ bpType = .precharge ∨ bpType = .refresh then _
            else if ¬ cfg.HasQueue (addressMapping cfg t.address 0).rank
              (cfg.slot (addressMapping cfg t.address 0).bank) then _ else _) = _ at hcq
          rw [if_neg hcommand, if_neg (not_not.mpr (hasRoomFor_ok hroom))] at hcq
          dsimp only at hcq
          split_ifs at hcq
          cases hcq
          rfl

theorem scheduleFrom_ok (hpolicy : cfg.rowBufferPolicy = .closePage) {front queue : List Transaction}
    (hfront : ∀ t ∈ front, mc.commandQueue.hasRoomFor cfg 1 (addressMapping cfg t.address 0).rank
      (addressMapping cfg t.address 0).bank = .ok false)
    (hqueue : mc.transactionQueue = front ++ queue) (h : mc.scheduleFrom cfg front queue = .ok mc') :
    mc' = mc ∨
      ∃ before t rest, mc.transactionQueue = before ++ t :: rest ∧
        (∀ t' ∈ before, mc.commandQueue.hasRoomFor cfg 1 (addressMapping cfg t'.address 0).rank
          (addressMapping cfg t'.address 0).bank = .ok false) ∧
        mc.commandQueue.hasRoomFor cfg 1 (addressMapping cfg t.address 0).rank
          (addressMapping cfg t.address 0).bank = .ok true ∧
        t.transactionType ≠ .returnData ∧
        mc' = { mc with
          transactionQueue := before ++ rest
          commandQueue := mc.commandQueue.setCommandQueue cfg (addressMapping cfg t.address 0).rank
            (addressMapping cfg t.address 0).bank
            (mc.commandQueue.getCommandQueue cfg (addressMapping cfg t.address 0).rank
              (addressMapping cfg t.address 0).bank ++ [t.packet cfg (requestType t.transactionType) t.data])
          pendingReadTransactions :=
            if t.transactionType = .dataRead then mc.pendingReadTransactions ++ [t]
            else mc.pendingReadTransactions } := by
  rcases scheduleFrom_split hfront hqueue h with
    ⟨rfl, -⟩ | ⟨before, t, rest, bpType, hsplit, hbefore, hroom, htype, hmc⟩
  · exact .inl rfl
  · obtain ⟨hne, -, hrequest⟩ := getBusPacketType_ok htype
    rw [hrequest hpolicy] at hmc
    exact .inr ⟨before, t, rest, hsplit, hbefore, hroom, hne, hmc⟩

/-- What returning data does: the first transaction to return goes with the first pending read of its
address. -/
theorem returnData_ok {returned : Option Transaction} (h : mc.returnData cfg = .ok (returned, mc')) :
    (mc.returnTransaction = [] ∧ returned = none ∧ mc' = mc) ∨
      ∃ r rest before pending behind latency latencies total,
        mc.returnTransaction = r :: rest ∧ mc.pendingReadTransactions = before ++ pending :: behind ∧
        (∀ t ∈ before, t.address ≠ r.address) ∧ pending.address = r.address ∧ returned = some pending ∧
        mc' = { mc with
          totalTransactions := total, totalEpochLatency := latency, latencies := latencies,
          pendingReadTransactions := before ++ behind, returnTransaction := rest } := by
  rw [returnData] at h
  cases hreturn : mc.returnTransaction with
  | nil =>
      rw [hreturn] at h
      cases h
      exact .inl ⟨rfl, rfl, rfl⟩
  | cons r rest =>
      rw [hreturn] at h
      dsimp only at h
      cases hfind : mc.pendingReadTransactions.find? fun pending => decide (pending.address = r.address) with
      | none =>
          rw [hfind] at h
          cases h
      | some pending =>
          rw [hfind] at h
          obtain ⟨hreturned, hmc⟩ := Prod.mk.inj (Except.ok.inj h)
          obtain ⟨haddress, before, behind, hsplit, hbefore⟩ := List.find?_eq_some_iff_append.mp hfind
          have hother : ∀ t ∈ before, t.address ≠ r.address := by
            intro t ht heq
            have := hbefore t ht
            rw [decide_eq_true heq] at this
            cases this
          have herase : (before ++ pending :: behind).eraseP (fun t => decide (t.address = r.address)) =
              before ++ behind := by
            rw [List.eraseP_append_right _ fun t ht => by simpa using hother t ht, List.eraseP_cons, haddress]
            rfl
          refine .inr ⟨r, rest, before, pending, behind, mc'.totalEpochLatency, mc'.latencies,
            mc'.totalTransactions,
            rfl, hsplit, hother, of_decide_eq_true haddress, hreturned.symm, ?_⟩
          rw [← herase, ← hsplit, ← hmc]
          rfl

/-- Only a transaction to return that no read waits for cannot be matched. -/
theorem returnData_error {e : Exit} (h : mc.returnData cfg = .error e) :
    ∃ r rest, mc.returnTransaction = r :: rest ∧ ∀ t ∈ mc.pendingReadTransactions, t.address ≠ r.address := by
  rw [returnData] at h
  cases hreturn : mc.returnTransaction with
  | nil =>
      rw [hreturn] at h
      cases h
  | cons r rest =>
      rw [hreturn] at h
      dsimp only at h
      cases hfind : mc.pendingReadTransactions.find? fun pending => decide (pending.address = r.address) with
      | some pending =>
          rw [hfind] at h
          cases h
      | none =>
          refine ⟨r, rest, rfl, fun t ht heq => ?_⟩
          have := List.find?_eq_none.mp hfind t ht
          exact this (decide_eq_true heq)

end MemoryController

namespace MemorySystem

variable {s s' : MemorySystem}

/-- The part of a rank that reads pass through is left alone. -/
structure SamePipes (ranks ranks' : ℕ → Rank) : Prop where
  outgoing_eq : ∀ i, (ranks' i).outgoingDataPacket = (ranks i).outgoingDataPacket
  left_eq : ∀ i, (ranks' i).dataCyclesLeft = (ranks i).dataCyclesLeft
  packets_eq : ∀ i, (ranks' i).readReturnPacket = (ranks i).readReturnPacket
  countdown_eq : ∀ i, (ranks' i).readReturnCountdown = (ranks i).readReturnCountdown
  clock_eq : ∀ i, (ranks' i).currentClockCycle = (ranks i).currentClockCycle

/-- The rank that a packet reaches, with the packet behind the reads that wait if it is one. -/
def receive (ranks : ℕ → Rank) (p : BusPacket) : ℕ → Rank :=
  if p.IsRead then Function.update ranks p.rank ((ranks p.rank).returnLater p) else ranks

theorem samePipes_receive {rank : Rank} {p : BusPacket}
    (h : (s.ranks p.rank).receiveFromBus cfg p = .ok rank) :
    SamePipes (receive s.ranks p) (Function.update s.ranks p.rank rank) := by
  obtain ⟨banks, waiting, rfl⟩ := Rank.receiveFromBus_ok h
  unfold receive
  split_ifs with hread
  · refine ⟨fun i => ?_, fun i => ?_, fun i => ?_, fun i => ?_, fun i => ?_⟩ <;>
    · by_cases hi : i = p.rank
      · subst hi
        rw [Function.update_self, Function.update_self]
        rfl
      · rw [Function.update_of_ne hi, Function.update_of_ne hi]
  · refine ⟨fun i => ?_, fun i => ?_, fun i => ?_, fun i => ?_, fun i => ?_⟩ <;>
    · by_cases hi : i = p.rank
      · subst hi
        rw [Function.update_self]
      · rw [Function.update_of_ne hi]

theorem sendCommand_ok (h : s.sendCommand cfg = .ok s') :
    (s.memoryController.outgoingCmdPacket = none ∧ s' = s) ∨
      ∃ p left, s.memoryController.outgoingCmdPacket = some p ∧
      left = decrement s.memoryController.cmdCyclesLeft ∧
        ((left ≠ 0 ∧ s' = { s with memoryController := { s.memoryController with cmdCyclesLeft := left } }) ∨
          left = 0 ∧ ∃ ranks, SamePipes (receive s.ranks p) ranks ∧
            s' = { s with
              memoryController := { s.memoryController with outgoingCmdPacket := none, cmdCyclesLeft := left }
              ranks := ranks }) := by
  rw [sendCommand] at h
  cases hbus : s.memoryController.outgoingCmdPacket with
  | none =>
      rw [hbus] at h
      cases h
      exact .inl ⟨rfl, rfl⟩
  | some p =>
      rw [hbus] at h
      dsimp only at h
      refine .inr ⟨p, _, rfl, rfl, ?_⟩
      split_ifs at h with hleft
      · obtain ⟨rank, hrank, rfl⟩ := map_ok h
        exact .inr ⟨hleft, _, samePipes_receive hrank, rfl⟩
      · cases h
        exact .inl ⟨hleft, rfl⟩

theorem sendWriteData_ok (h : s.sendWriteData cfg = .ok s') :
    (s.memoryController.outgoingDataPacket = none ∧ s' = s) ∨
      ∃ p left, s.memoryController.outgoingDataPacket = some p ∧
        left = decrement s.memoryController.dataCyclesLeft ∧
        ((left ≠ 0 ∧ s' = { s with memoryController := { s.memoryController with dataCyclesLeft := left } }) ∨
          left = 0 ∧ ∃ ranks, SamePipes (receive s.ranks p) ranks ∧
            s' = { s with
              memoryController := { s.memoryController with
                outgoingDataPacket := none, dataCyclesLeft := left }
              ranks := ranks
              history := { s.history with
                written := s.history.written ++ [(s.memoryController.currentClockCycle, p)] } }) := by
  rw [sendWriteData] at h
  cases hbus : s.memoryController.outgoingDataPacket with
  | none =>
      rw [hbus] at h
      cases h
      exact .inl ⟨rfl, rfl⟩
  | some p =>
      rw [hbus] at h
      dsimp only at h
      refine .inr ⟨p, _, rfl, rfl, ?_⟩
      split_ifs at h with hleft
      · obtain ⟨rank, hrank, rfl⟩ := map_ok h
        exact .inr ⟨hleft, _, samePipes_receive hrank, rfl⟩
      · cases h
        exact .inl ⟨hleft, rfl⟩

theorem checkRefresh_eq (cfg : Config) (s : MemorySystem) :
    ∃ ranks waiting rank countdown next, SamePipes s.ranks ranks ∧
      s.checkRefresh cfg = { s with
        memoryController := { s.memoryController with
          commandQueue := { s.memoryController.commandQueue with
            refreshWaiting := waiting, refreshRank := rank }
          refreshCountdown := countdown
          refreshRank := next }
        ranks := ranks } := by
  have hwait : ∀ r, SamePipes s.ranks (Function.update s.ranks r (s.ranks r).waitForRefresh) := by
    intro r
    refine ⟨fun i => ?_, fun i => ?_, fun i => ?_, fun i => ?_, fun i => ?_⟩ <;>
    · by_cases hi : i = r
      · subst hi
        rw [Function.update_self]
        rfl
      · rw [Function.update_of_ne hi]
  rw [checkRefresh]
  dsimp only
  by_cases hzero : s.memoryController.refreshCountdown s.memoryController.refreshRank = 0
  · rw [if_pos hzero]
    exact ⟨_, _, _, _, _, hwait _, rfl⟩
  · rw [if_neg hzero]
    split_ifs
    · exact ⟨_, s.memoryController.commandQueue.refreshWaiting, s.memoryController.commandQueue.refreshRank,
        s.memoryController.refreshCountdown, s.memoryController.refreshRank, hwait _, rfl⟩
    · exact ⟨s.ranks, s.memoryController.commandQueue.refreshWaiting,
        s.memoryController.commandQueue.refreshRank,
        s.memoryController.refreshCountdown, s.memoryController.refreshRank,
        ⟨fun _ => rfl, fun _ => rfl, fun _ => rfl, fun _ => rfl, fun _ => rfl⟩, rfl⟩

/-- What a pop does, under either policy: nothing, or the data of a write waits for `WL`, the banks and
energies are updated, and the command is on the bus, which was free. -/
theorem popCommand_split (h : s.popCommand cfg = .ok s') :
    ∃ found cq, s.memoryController.commandQueue.pop cfg s.memoryController.bankStates = .ok (found, cq) ∧
      ((found = none ∧ s' = { s with memoryController := { s.memoryController with commandQueue := cq } }) ∨
        ∃ p bankStates burst actpre refresh, found = some p ∧ s.memoryController.outgoingCmdPacket = none ∧
          (({ s.memoryController with commandQueue := cq }).queueWriteData p).updateBanks cfg p =
            .ok { ({ s.memoryController with commandQueue := cq }).queueWriteData p with
              bankStates := bankStates, burstEnergy := burst, actpreEnergy := actpre,
              refreshEnergy := refresh } ∧
          s' = { s with
            memoryController := { s.memoryController with
              commandQueue := cq
              writeDataToSend :=
                if p.IsWrite then s.memoryController.writeDataToSend ++ [p.toData]
                else s.memoryController.writeDataToSend
              writeDataCountdown :=
                if p.IsWrite then s.memoryController.writeDataCountdown ++ [WL]
                else s.memoryController.writeDataCountdown
              bankStates := bankStates
              burstEnergy := burst
              actpreEnergy := actpre
              refreshEnergy := refresh
              outgoingCmdPacket := some p
              cmdCyclesLeft := cfg.tCMD }
            history := { s.history with
              issued := s.history.issued ++ [(s.memoryController.currentClockCycle, p)] } }) := by
  rw [popCommand] at h
  obtain ⟨⟨found, cq⟩, hpop, h⟩ := bind_ok h
  refine ⟨found, cq, hpop, ?_⟩
  cases found with
  | none =>
      cases h
      exact .inl ⟨rfl, rfl⟩
  | some p =>
      obtain ⟨mc, hbanks, h⟩ := bind_ok h
      obtain ⟨mc', hbus, h⟩ := bind_ok h
      cases h
      obtain ⟨bankStates, burst, actpre, refresh, rfl⟩ := MemoryController.updateBanks_frame hbanks
      obtain ⟨hfree, rfl⟩ := MemoryController.issueCommand_ok hbus
      refine .inr ⟨p, bankStates, burst, actpre, refresh, rfl, ?_, hbanks, ?_⟩
      · rw [MemoryController.queueWriteData_eq] at hfree
        exact hfree
      · rw [MemoryController.queueWriteData_eq]

/-- What a cycle does with the command it has popped: the data of a write waits for `WL`, the timers of the
rank go up, and the command is on the bus. -/
def Issues (cfg : Config) (s : MemorySystem) (cq : CommandQueue) (p : BusPacket) (s' : MemorySystem) : Prop :=
  ∃ bankStates burst actpre refresh, s.memoryController.outgoingCmdPacket = none ∧
    (p.IsColumn → ∀ r b command, command = .readP ∨ command = .writeP → (bankStates r b).next command =
      if r = p.rank then
        max (s.memoryController.currentClockCycle +
          MemoryController.sameRankDelay cfg p.busPacketType command)
          ((s.memoryController.bankStates r b).next command)
      else (s.memoryController.bankStates r b).next command) ∧
    (p.busPacketType = .refresh → ∀ r b command,
      (bankStates r b).next command = (s.memoryController.bankStates r b).next command) ∧
    s' = { s with
      memoryController := { s.memoryController with
        commandQueue := cq
        writeDataToSend :=
          if p.IsWrite then s.memoryController.writeDataToSend ++ [p.toData]
          else s.memoryController.writeDataToSend
        writeDataCountdown :=
          if p.IsWrite then s.memoryController.writeDataCountdown ++ [WL]
          else s.memoryController.writeDataCountdown
        bankStates := bankStates
        burstEnergy := burst
        actpreEnergy := actpre
        refreshEnergy := refresh
        outgoingCmdPacket := some p
        cmdCyclesLeft := cfg.tCMD }
      history := { s.history with
        issued := s.history.issued ++ [(s.memoryController.currentClockCycle, p)] } }

/-- What the pop of a cycle does: a refresh goes out, or the search comes round with nothing, or it ends at a
column command. -/
inductive PopsCommand (cfg : Config) (s s' : MemorySystem) : Prop
  | refresh (hgoes : CommandQueue.RefreshGoes cfg s.memoryController.bankStates
      s.memoryController.commandQueue)
      {cq : CommandQueue} (hqueues : cq.queues = s.memoryController.commandQueue.queues)
      (hclock : cq.currentClockCycle = s.memoryController.commandQueue.currentClockCycle)
      (hissues : Issues cfg s cq (CommandQueue.refreshPacket s.memoryController.commandQueue.refreshRank) s')
  | nothing (hstays : ¬ CommandQueue.RefreshGoes cfg s.memoryController.bankStates
      s.memoryController.commandQueue)
      {k : ℕ} (hends : CommandQueue.SearchEnds cfg s.memoryController.bankStates
        s.memoryController.commandQueue k)
      (hpos : 0 < k)
      (hback : ((CommandQueue.advance cfg)^[k] s.memoryController.commandQueue).backAt cfg
        s.memoryController.commandQueue = true)
      {cq : CommandQueue} (hsame : CommandQueue.Same s.memoryController.commandQueue cq)
      (heq : s' = { s with memoryController := { s.memoryController with commandQueue := cq } })
  | column (hstays : ¬ CommandQueue.RefreshGoes cfg s.memoryController.bankStates
      s.memoryController.commandQueue)
      {k : ℕ} (hends : CommandQueue.SearchEnds cfg s.memoryController.bankStates
        s.memoryController.commandQueue k)
      (hlook : ((CommandQueue.advance cfg)^[k] s.memoryController.commandQueue).mayLook cfg = true)
      {front : List BusPacket} {p : BusPacket} {rest : List BusPacket}
      (hcandidate : CommandQueue.Candidate cfg s.memoryController.bankStates s.memoryController.commandQueue
        (((CommandQueue.advance cfg)^[k] s.memoryController.commandQueue).here cfg) front p rest)
      {cq : CommandQueue} (hsame : CommandQueue.Same (s.memoryController.commandQueue.setCommandQueue cfg
        ((CommandQueue.advance cfg)^[k] s.memoryController.commandQueue).nextRank
        ((CommandQueue.advance cfg)^[k] s.memoryController.commandQueue).nextBank (front ++ rest)) cq)
      (hissues : Issues cfg s cq p s')

theorem popCommand_ok (hpolicy : cfg.rowBufferPolicy = .closePage)
    (hidle : ∀ r b, (s.memoryController.bankStates r b).currentBankState = .idle)
    (hcolumn : ∀ r b, ∀ p ∈ s.memoryController.commandQueue.queues r b, p.IsColumn)
    (h : s.popCommand cfg = .ok s') : PopsCommand cfg s s' := by
  obtain ⟨found, cq, hpop, hcases⟩ := popCommand_split h
  have hpopped := CommandQueue.pop_ok hpolicy hidle hcolumn hpop
  rcases hcases with ⟨rfl, rfl⟩ | ⟨p, bankStates, burst, actpre, refresh, rfl, hfree, hbanks, rfl⟩
  · cases hpopped with
    | nothing hstays hends hpos hback hsame => exact .nothing hstays hends hpos hback hsame rfl
  · rw [MemoryController.queueWriteData_eq] at hbanks
    obtain ⟨_, _, _, _, heq, htimers, hrefresh⟩ := MemoryController.updateBanks_ok (by exact hidle) hbanks
    have hbankStates := congrArg MemoryController.bankStates heq
    dsimp only at hbankStates
    subst hbankStates
    cases hpopped with
    | refresh hgoes hqueues hclock hcounters hwaiting =>
        exact .refresh hgoes hqueues hclock ⟨_, burst, actpre, refresh, hfree, htimers, hrefresh, rfl⟩
    | column hstays hends hlook hcandidate hsame =>
        exact .column hstays hends hlook hcandidate hsame ⟨_, burst, actpre, refresh, hfree, htimers,
          hrefresh, rfl⟩

/-- What the update of a rank does: the rank goes on, and a data packet that leaves it is a transaction to
return. -/
theorem updateRank_ok {i : ℕ} (h : s.updateRank cfg i = .ok s') :
    ∃ received rank, (s.ranks i).update cfg = .ok (received, rank) ∧
      ((received = none ∧ s' = { s with ranks := Function.update s.ranks i rank }) ∨
        ∃ p reads, received = some p ∧
          s' = { s with
            memoryController := { s.memoryController with
              returnTransaction := s.memoryController.returnTransaction ++
                [{ transactionType := .returnData, address := p.physicalAddress,
                   data := p.data, timeAdded := 0 }]
              totalReadsPerBank := reads }
            ranks := Function.update s.ranks i rank }) := by
  rw [updateRank] at h
  obtain ⟨⟨received, rank⟩, hrank, h⟩ := bind_ok h
  refine ⟨received, rank, hrank, ?_⟩
  cases received with
  | none =>
      cases h
      exact .inl ⟨rfl, rfl⟩
  | some p =>
      obtain ⟨mc, hmc, h⟩ := bind_ok h
      cases h
      rw [MemoryController.receiveFromBus] at hmc
      split_ifs at hmc
      cases hmc
      exact .inr ⟨p, _, rfl, rfl⟩

/-- Transactions are accepted into the queue and into the history at once, with the time of the clock. -/
theorem addTransaction_eq (cfg : Config) (s : MemorySystem) (transaction : Transaction) :
    ∃ taken, (∀ t ∈ taken, t.timeAdded = s.memoryController.currentClockCycle) ∧
      s.addTransaction cfg transaction = { s with
        memoryController := { s.memoryController with
          transactionQueue := s.memoryController.transactionQueue ++ taken }
        history := { s.history with accepted := s.history.accepted ++ taken } } := by
  rw [addTransaction]
  split_ifs
  · exact ⟨[_], (fun t ht => by rw [List.mem_singleton.mp ht]), rfl⟩
  · exact ⟨[], (fun t ht => by cases ht), by simp only [List.append_nil]⟩

theorem takePending_eq (cfg : Config) (s : MemorySystem) :
    ∃ taken pending, (∀ t ∈ taken, t.timeAdded = s.memoryController.currentClockCycle) ∧
      s.takePending cfg = { s with
        memoryController := { s.memoryController with
          transactionQueue := s.memoryController.transactionQueue ++ taken }
        pendingTransactions := pending
        history := { s.history with accepted := s.history.accepted ++ taken } } := by
  rw [takePending]
  split
  · exact ⟨[], s.pendingTransactions, (fun t ht => by cases ht), by simp only [List.append_nil]⟩
  · rename_i transaction rest _
    split_ifs
    · obtain ⟨taken, htime, htaken⟩ := addTransaction_eq cfg s transaction
      rw [htaken]
      exact ⟨taken, rest, htime, rfl⟩
    · exact ⟨[], s.pendingTransactions, (fun t ht => by cases ht), by simp only [List.append_nil]⟩

theorem request_eq (cfg : Config) (s : MemorySystem) (isWrite : Bool) (addr : BitVec 64) :
    ∃ taken pending, (∀ t ∈ taken, t.timeAdded = s.memoryController.currentClockCycle) ∧
      s.request cfg isWrite addr = { s with
        memoryController := { s.memoryController with
          transactionQueue := s.memoryController.transactionQueue ++ taken }
        pendingTransactions := pending
        history := { s.history with accepted := s.history.accepted ++ taken } } := by
  let transaction : Transaction :=
    { transactionType := if isWrite then .dataWrite else .dataRead, address := addr, data := 0,
      timeAdded := 0 }
  change ∃ taken pending, _ ∧ (if s.memoryController.willAcceptTransaction cfg then
    s.addTransaction cfg transaction
    else { s with pendingTransactions := s.pendingTransactions ++ [transaction] }) = _
  split_ifs
  · obtain ⟨taken, htime, htaken⟩ := addTransaction_eq cfg s transaction
    exact ⟨taken, s.pendingTransactions, htime, htaken⟩
  · refine ⟨[], s.pendingTransactions ++ [transaction], (fun t ht => by cases ht), ?_⟩
    rw [List.append_nil, List.append_nil]

/-- The banks of the controller at the start of a cycle. -/
def idleBanks (s : MemorySystem) : MemorySystem :=
  { s with memoryController := s.memoryController.idleBanks }

/-- The end of the controller's update, and the clocks. -/
def stepClocks (s : MemorySystem) : MemorySystem :=
  step { s with memoryController :=
    { s.memoryController with commandQueue := s.memoryController.commandQueue.step } }

/-- **The phases of an update.** -/
theorem update_ok (h : s.update cfg = .ok s') :
    ∃ s₁ s₂ s₃ s₄ s₅ s₆ s₇,
      (List.range cfg.numRanks).foldlM (updateRank cfg) s = .ok s₁ ∧
      (s₁.takePending cfg).idleBanks.sendCommand cfg = .ok s₂ ∧
      s₂.sendWriteData cfg = .ok s₃ ∧
      s₃.startWriteData cfg = .ok s₄ ∧
      (s₄.checkRefresh cfg).popCommand cfg = .ok s₅ ∧
      s₅.schedule cfg = .ok s₆ ∧
      (s₆.addBackgroundEnergy cfg).returnData cfg = .ok s₇ ∧
      s' = s₇.stepClocks := by
  rw [update] at h
  obtain ⟨s₁, h₁, h⟩ := bind_ok h
  obtain ⟨t, hcontroller, h⟩ := bind_ok h
  cases h
  rw [updateController] at hcontroller
  obtain ⟨s₂, h₂, hcontroller⟩ := bind_ok hcontroller
  obtain ⟨s₃, h₃, hcontroller⟩ := bind_ok hcontroller
  obtain ⟨s₄, h₄, hcontroller⟩ := bind_ok hcontroller
  obtain ⟨s₅, h₅, hcontroller⟩ := bind_ok hcontroller
  obtain ⟨s₆, h₆, hcontroller⟩ := bind_ok hcontroller
  obtain ⟨s₇, h₇, hcontroller⟩ := bind_ok hcontroller
  cases hcontroller
  exact ⟨s₁, s₂, s₃, s₄, s₅, s₆, s₇, h₁, h₂, h₃, h₄, h₅, h₆, h₇, rfl⟩

end MemorySystem

end RacerArtifacts.Mram
