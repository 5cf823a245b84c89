import RacerArtifacts.MramDiscipline
import RacerArtifacts.MramPipes

/-! The statistics of the controller. Its counters are compared with an account of the same traffic that is
taken from what a run has returned and written: whatever a phase of an update adds to the ones it adds to the
other. Data is counted for the bank its packet names, latencies for the bank the address maps to, so the
account needs every packet to be at home in the bank of its address. -/

namespace RacerArtifacts.Mram

open Fallible MemoryController

variable {cfg : Config}

/-- The entry of the bank an address maps to. -/
def bankOf (cfg : Config) (address : BitVec 64) : ℕ :=
  sequential cfg (addressMapping cfg address 0).rank (addressMapping cfg address 0).bank

/-- A packet that is counted for the bank of its address. -/
def BusPacket.AtHome (cfg : Config) (p : BusPacket) : Prop :=
  sequential cfg p.rank p.bank = bankOf cfg p.physicalAddress

theorem atHome_packet (transaction : Transaction) (type : BusPacketType) (data : ℕ) :
    (transaction.packet cfg type data).AtHome cfg := rfl

/-- The data a rank has read, on its bus and waiting for it. -/
def Rank.packets (rank : Rank) : List BusPacket :=
  rank.outgoingDataPacket.toList ++ rank.readReturnPacket

theorem Rank.packets_update {rank rank' : Rank} {received : Option BusPacket}
    (h : rank.update cfg = .ok (received, rank')) : ∀ p ∈ received.toList ++ rank'.packets,
      p ∈ rank.packets := by
  obtain ⟨started, hstart, heq⟩ := map_ok h
  obtain ⟨hreceived, rfl⟩ := Prod.mk.inj heq
  rw [← hreceived]
  have hsend : ∀ p ∈ rank.sendData.1.toList ++ rank.sendData.2.packets, p ∈ rank.packets := by
    rw [sendData]
    cases hbus : rank.outgoingDataPacket with
    | none => exact fun p hp => hp
    | some packet =>
        dsimp only
        split_ifs
        · rw [packets, packets, hbus]
          exact fun p hp => hp
        · rw [packets, packets, hbus]
          exact fun p hp => hp
  have hkeep : ∀ p ∈ started.packets, p ∈ rank.sendData.2.packets := by
    rw [startData] at hstart
    split at hstart
    · rename_i countdown packet packets hcountdown hpackets
      cases hstart
      intro p hp
      rw [Rank.packets, hpackets]
      exact List.mem_append_right _ hp
    · cases hstart
    · cases hstart
      exact fun p hp => hp
  intro p hp
  rcases List.mem_append.mp hp with hp | hp
  · exact hsend p (List.mem_append_left _ hp)
  · exact hsend p (List.mem_append_right _ (hkeep p hp))

/-- The counters that the controller prints, each of the width it has there. -/
@[ext] structure Statistics where
  transactions : BitVec 64
  latencies : ℕ → BitVec 32
  latency : ℕ → BitVec 64
  reads : ℕ → BitVec 64
  writes : ℕ → BitVec 64

namespace Statistics

instance : Zero Statistics := ⟨⟨0, 0, 0, 0, 0⟩⟩

instance : Add Statistics :=
  ⟨fun a b => ⟨a.transactions + b.transactions, a.latencies + b.latencies, a.latency + b.latency,
    a.reads + b.reads,
    a.writes + b.writes⟩⟩

@[simp] theorem add_transactions (a b : Statistics) :
    (a + b).transactions = a.transactions + b.transactions := rfl
@[simp] theorem add_latencies (a b : Statistics) : (a + b).latencies = a.latencies + b.latencies := rfl
@[simp] theorem add_latency (a b : Statistics) : (a + b).latency = a.latency + b.latency := rfl
@[simp] theorem add_reads (a b : Statistics) : (a + b).reads = a.reads + b.reads := rfl
@[simp] theorem add_writes (a b : Statistics) : (a + b).writes = a.writes + b.writes := rfl

instance : AddCommMonoid Statistics where
  add_assoc a b c := Statistics.ext (add_assoc _ _ _) (add_assoc _ _ _) (add_assoc _ _ _) (add_assoc _ _ _)
    (add_assoc _ _ _)
  zero_add a := Statistics.ext (zero_add _) (zero_add _) (zero_add _) (zero_add _) (zero_add _)
  add_zero a := Statistics.ext (add_zero _) (add_zero _) (add_zero _) (add_zero _) (add_zero _)
  add_comm a b := Statistics.ext (add_comm _ _) (add_comm _ _) (add_comm _ _) (add_comm _ _) (add_comm _ _)
  nsmul := nsmulRec

end Statistics

/-- An amount at one entry. -/
def amountAt {w : ℕ} (k : ℕ) (n : BitVec w) : ℕ → BitVec w := fun i => if k = i then n else 0

theorem update_amount {w : ℕ} (f : ℕ → BitVec w) (k : ℕ) (n : BitVec w) :
    Function.update f k (f k + n) = f + amountAt k n := by
  funext i
  rw [Pi.add_apply, amountAt]
  by_cases hi : k = i
  · rw [if_pos hi, ← hi, Function.update_self]
  · rw [if_neg hi, Function.update_of_ne (Ne.symm hi), add_zero]

/-- How often each number occurs, to a counter of some width. -/
def occurrences (w : ℕ) (l : List ℕ) : ℕ → BitVec w := fun i => (l.count i : BitVec w)

theorem occurrences_snoc (w : ℕ) (l : List ℕ) (k : ℕ) :
    occurrences w (l ++ [k]) = occurrences w l + amountAt k 1 := by
  funext i
  rw [occurrences, Pi.add_apply, occurrences, amountAt, List.count_append, List.count_singleton, Nat.cast_add]
  congr 1
  by_cases hi : k = i
  · rw [if_pos hi, if_pos (beq_iff_eq.mpr hi), Nat.cast_one]
  · rw [if_neg hi, if_neg (mt beq_iff_eq.mp hi), Nat.cast_zero]

namespace MemorySystem

variable {s s' t u : MemorySystem}

def counters (s : MemorySystem) : Statistics where
  transactions := s.memoryController.totalTransactions
  latencies := s.memoryController.latencies
  latency := s.memoryController.totalEpochLatency
  reads := s.memoryController.totalReadsPerBank
  writes := s.memoryController.totalWritesPerBank

/-- The latency of a read that was returned. -/
def latencyOf (e : ℕ × Transaction) : ℕ := unsigned (e.1 - e.2.timeAdded)

/-- The banks that read data has come from, returned to the client or not yet. -/
def readBanks (cfg : Config) (s : MemorySystem) : List ℕ :=
  (s.history.returned.map fun e => bankOf cfg e.2.address) ++
    s.memoryController.returnTransaction.map fun x => bankOf cfg x.address

/-- The banks that write data has gone to, done or on the bus. -/
def writeBanks (cfg : Config) (s : MemorySystem) : List ℕ :=
  (s.history.written.map fun e => bankOf cfg e.2.physicalAddress) ++
    s.memoryController.outgoingDataPacket.toList.map fun p => bankOf cfg p.physicalAddress

/-- The bins of the latencies of the reads that were returned. -/
def bins (s : MemorySystem) : List ℕ :=
  s.history.returned.map fun e => latencyOf e / 10 * 10

/-- The latency spent on the reads of a bank. -/
def latencySpent (cfg : Config) (s : MemorySystem) (i : ℕ) : ℕ :=
  ((s.history.returned.filter fun e => decide (bankOf cfg e.2.address = i)).map latencyOf).sum

/-- What the counters are to say of a run. -/
def account (cfg : Config) (s : MemorySystem) : Statistics where
  transactions := (s.history.returned.length + (writeBanks cfg s).length : ℕ)
  latencies := occurrences 32 (bins s)
  latency := fun i => (latencySpent cfg s i : BitVec 64)
  reads := occurrences 64 (readBanks cfg s)
  writes := occurrences 64 (writeBanks cfg s)

/-- The packets that are counted are at home. -/
structure Located (cfg : Config) (s : MemorySystem) : Prop where
  queued : ∀ r b, ∀ p ∈ s.memoryController.commandQueue.queues r b, p.AtHome cfg
  bus : ∀ p, s.memoryController.outgoingCmdPacket = some p → p.IsCommand → p.AtHome cfg
  writes : ∀ p ∈ s.memoryController.writeDataToSend, p.AtHome cfg
  outgoing : ∀ p, s.memoryController.outgoingDataPacket = some p → p.AtHome cfg
  reads : ∀ r, ∀ p ∈ (s.ranks r).packets, p.AtHome cfg

/-- From packets at home, the counters and the account grow alike, and the packets stay at home. -/
def Keeps (cfg : Config) (s t : MemorySystem) : Prop :=
  Located cfg s → Located cfg t ∧
    (∃ grown, t.counters = s.counters + grown ∧ account cfg t = account cfg s + grown) ∧
    t.memoryController.grandTotalBankAccesses = s.memoryController.grandTotalBankAccesses

theorem Keeps.trans (h : Keeps cfg s t) (h' : Keeps cfg t u) : Keeps cfg s u := by
  intro hs
  obtain ⟨ht, ⟨grown, hcounters, haccount⟩, hgrand⟩ := h hs
  obtain ⟨hu, ⟨grown', hcounters', haccount'⟩, hgrand'⟩ := h' ht
  refine ⟨hu, ⟨grown + grown', ?_, ?_⟩, hgrand'.trans hgrand⟩
  · rw [hcounters', hcounters, add_assoc]
  · rw [haccount', haccount, add_assoc]

theorem Keeps.of_same (hlocated : Located cfg s → Located cfg t) (hcounters : t.counters = s.counters)
    (haccount : account cfg t = account cfg s)
    (hgrand : t.memoryController.grandTotalBankAccesses = s.memoryController.grandTotalBankAccesses) :
    Keeps cfg s t :=
  fun hs => ⟨hlocated hs, ⟨0, by rw [hcounters, add_zero], by rw [haccount, add_zero]⟩, hgrand⟩

theorem packets_same {ranks ranks' : ℕ → Rank} (h : SamePipes ranks ranks') (r : ℕ) :
    (ranks' r).packets = (ranks r).packets := by
  rw [Rank.packets, Rank.packets, h.outgoing_eq, h.packets_eq]

theorem atHome_receive {ranks : ℕ → Rank} {p : BusPacket} (hp : p.IsCommand → p.AtHome cfg)
    (h : ∀ r, ∀ x ∈ (ranks r).packets, x.AtHome cfg) : ∀ r, ∀ x ∈ (receive ranks p r).packets,
      x.AtHome cfg := by
  rw [receive]
  split_ifs with hread
  · intro r x hx
    by_cases hr : r = p.rank
    · rw [hr, Function.update_self, Rank.packets, Rank.returnLater, ← List.append_assoc] at hx
      rcases List.mem_append.mp hx with hx | hx
      · exact h p.rank x hx
      · rw [List.mem_singleton.mp hx]
        exact hp (.inl hread)
    · rw [Function.update_of_ne hr] at hx
      exact h r x hx
  · exact h

theorem readBanks_snoc {x : Transaction} (hreturned : t.history.returned = s.history.returned)
    (hreturn : t.memoryController.returnTransaction = s.memoryController.returnTransaction ++ [x]) :
    readBanks cfg t = readBanks cfg s ++ [bankOf cfg x.address] := by
  rw [readBanks, readBanks, hreturned, hreturn, List.map_append, List.append_assoc]
  rfl

theorem readBanks_moved {e : ℕ × Transaction} {r : Transaction} {rest : List Transaction}
    (hreturn : s.memoryController.returnTransaction = r :: rest)
    (hrest : t.memoryController.returnTransaction = rest)
    (hreturned : t.history.returned = s.history.returned ++ [e]) (haddress : e.2.address = r.address) :
    readBanks cfg t = readBanks cfg s := by
  rw [readBanks, readBanks, hreturned, hreturn, hrest, List.map_append, List.append_assoc,
    List.map_cons, haddress]
  rfl

theorem latencySpent_snoc {e : ℕ × Transaction} (hreturned : t.history.returned = s.history.returned ++ [e]) :
    (account cfg t).latency = (account cfg s).latency +
      amountAt (bankOf cfg e.2.address) (BitVec.ofNat 64 (latencyOf e)) := by
  funext i
  change (latencySpent cfg t i : BitVec 64) = (latencySpent cfg s i : BitVec 64) + _
  rw [latencySpent, hreturned, List.filter_append, List.map_append, List.sum_append, Nat.cast_add, amountAt]
  congr 1
  by_cases hi : bankOf cfg e.2.address = i
  · rw [if_pos hi, List.filter_cons, if_pos (decide_eq_true hi)]
    exact congrArg Nat.cast List.sum_singleton
  · rw [if_neg hi, List.filter_cons, if_neg (by rwa [decide_eq_true_eq])]
    exact Nat.cast_zero

theorem writeBanks_moved {p : BusPacket} {n : ℕ} (hbus : s.memoryController.outgoingDataPacket = some p)
    (hfree : t.memoryController.outgoingDataPacket = none)
    (hwritten : t.history.written = s.history.written ++ [(n, p)]) : writeBanks cfg t = writeBanks cfg s := by
  rw [writeBanks, writeBanks, hbus, hfree, hwritten, List.map_append, List.append_assoc]
  rfl

/-! ### The phases of an update -/

theorem keeps_updateRank {i : ℕ} (h : s.updateRank cfg i = .ok t) : Keeps cfg s t := by
  intro hs
  rw [updateRank] at h
  obtain ⟨⟨received, rank⟩, hrank, h⟩ := bind_ok h
  have hhad := Rank.packets_update hrank
  have hreads : ∀ r, ∀ p ∈ (Function.update s.ranks i rank r).packets, p.AtHome cfg := by
    intro r p hp
    by_cases hr : r = i
    · rw [hr, Function.update_self] at hp
      exact hs.reads i p (hhad p (List.mem_append_right _ hp))
    · rw [Function.update_of_ne hr] at hp
      exact hs.reads r p hp
  cases received with
  | none =>
      cases h
      exact ⟨⟨hs.queued, hs.bus, hs.writes, hs.outgoing, hreads⟩,
        ⟨0, (add_zero _).symm, (add_zero _).symm⟩, rfl⟩
  | some p =>
      obtain ⟨mc, hmc, h⟩ := bind_ok h
      cases h
      have hp : p.AtHome cfg := hs.reads i p (hhad p (List.mem_append_left _ (List.mem_singleton_self p)))
      rw [MemoryController.receiveFromBus] at hmc
      split_ifs at hmc
      cases hmc
      refine ⟨⟨hs.queued, hs.bus, hs.writes, hs.outgoing, hreads⟩,
        ⟨⟨0, 0, 0, amountAt (bankOf cfg p.physicalAddress) 1, 0⟩, ?_, ?_⟩, rfl⟩
      · refine Statistics.ext (add_zero _).symm (add_zero _).symm (add_zero _).symm ?_ (add_zero _).symm
        rw [BusPacket.AtHome] at hp
        change Function.update _ _ _ = s.memoryController.totalReadsPerBank + _
        rw [hp, update_amount]
      · refine Statistics.ext (add_zero _).symm (add_zero _).symm (add_zero _).symm ?_ (add_zero _).symm
        refine (congrArg (occurrences 64) ?_).trans (occurrences_snoc 64 (readBanks cfg s) _)
        exact @readBanks_snoc cfg s _ ⟨.returnData, p.physicalAddress, p.data, 0⟩ rfl rfl

theorem keeps_takePending (cfg : Config) (s : MemorySystem) : Keeps cfg s (s.takePending cfg) := by
  obtain ⟨taken, pending, -, heq⟩ := takePending_eq cfg s
  rw [heq]
  exact Keeps.of_same (fun hs => ⟨hs.queued, hs.bus, hs.writes, hs.outgoing, hs.reads⟩) rfl rfl rfl

theorem keeps_sendCommand (h : s.sendCommand cfg = .ok t) : Keeps cfg s t := by
  rcases sendCommand_ok h with ⟨-, rfl⟩ | ⟨p, left, hbus, -, ⟨-, rfl⟩ | ⟨-, ranks, hsame, rfl⟩⟩
  · exact Keeps.of_same id rfl rfl rfl
  · exact Keeps.of_same (fun hs => ⟨hs.queued, hs.bus, hs.writes, hs.outgoing, hs.reads⟩) rfl rfl rfl
  · refine Keeps.of_same (fun hs => ⟨hs.queued, (fun q hq => by cases hq), hs.writes, hs.outgoing,
      fun r => ?_⟩) rfl rfl rfl
    rw [packets_same hsame]
    exact atHome_receive (hs.bus p hbus) hs.reads r

/-- Write data that has been sent is done, and was counted before. -/
theorem keeps_sendWriteData (h : s.sendWriteData cfg = .ok t) : Keeps cfg s t := by
  rcases sendWriteData_ok h with ⟨-, rfl⟩ | ⟨p, left, hbus, -, ⟨-, rfl⟩ | ⟨-, ranks, hsame, rfl⟩⟩
  · exact Keeps.of_same id rfl rfl rfl
  · exact Keeps.of_same (fun hs => ⟨hs.queued, hs.bus, hs.writes, hs.outgoing, hs.reads⟩) rfl rfl rfl
  · refine Keeps.of_same (fun hs => ⟨hs.queued, hs.bus, hs.writes, (fun q hq => by cases hq),
      fun r => ?_⟩) rfl ?_ rfl
    · rw [packets_same hsame]
      exact atHome_receive (fun _ => hs.outgoing p hbus) hs.reads r
    · have hbanks := @writeBanks_moved cfg s { s with
        memoryController := { s.memoryController with outgoingDataPacket := none, dataCyclesLeft := left }
        ranks := ranks
        history := { s.history with written := s.history.written ++
          [(s.memoryController.currentClockCycle, p)] } } p _
        hbus rfl rfl
      exact Statistics.ext (congrArg
        (fun l : List ℕ => ((s.history.returned.length + l.length : ℕ) : BitVec 64)) hbanks) rfl
        rfl rfl
        (congrArg (occurrences 64) hbanks)

theorem keeps_startWriteData (h : s.startWriteData cfg = .ok t) : Keeps cfg s t := by
  intro hs
  obtain ⟨mc, hmc, rfl⟩ := map_ok h
  rw [MemoryController.startWriteData] at hmc
  split at hmc
  · rename_i countdown packet packets hcountdown hpackets
    split_ifs at hmc with hbusy
    cases hmc
    rw [Option.not_isSome_iff_eq_none] at hbusy
    have hhad : ∀ p ∈ packet :: packets, p.AtHome cfg := by
      rw [← hpackets]
      exact hs.writes
    obtain ⟨hpacket, hrest⟩ := List.forall_mem_cons.mp hhad
    refine ⟨⟨hs.queued, hs.bus, hrest, fun q hq => ?_, hs.reads⟩,
      ⟨⟨1, 0, 0, 0, amountAt (bankOf cfg packet.physicalAddress) 1⟩, ?_, ?_⟩, rfl⟩
    · cases hq
      exact hpacket
    · refine Statistics.ext rfl (add_zero _).symm (add_zero _).symm (add_zero _).symm ?_
      rw [BusPacket.AtHome] at hpacket
      change Function.update _ _ _ = s.memoryController.totalWritesPerBank + _
      rw [hpacket, update_amount]
    · have hbanks : writeBanks cfg { s with memoryController := { s.memoryController with
          outgoingDataPacket := some packet } } =
            writeBanks cfg s ++ [bankOf cfg packet.physicalAddress] := by
        rw [writeBanks, writeBanks, hbusy, Option.toList_none, List.map_nil, List.append_nil]
        rfl
      refine Statistics.ext ?_ (add_zero _).symm (add_zero _).symm (add_zero _).symm
        ((congrArg (occurrences 64) hbanks).trans (occurrences_snoc 64 _ _))
      refine (congrArg (fun l : List ℕ => ((s.history.returned.length + l.length : ℕ) : BitVec 64))
        hbanks).trans ?_
      rw [List.length_append, ← add_assoc, Nat.cast_add]
      rfl
  · cases hmc
  · cases hmc
    exact ⟨⟨hs.queued, hs.bus, hs.writes, hs.outgoing, hs.reads⟩,
      ⟨0, (add_zero _).symm, (add_zero _).symm⟩, rfl⟩

theorem keeps_checkRefresh (cfg : Config) (s : MemorySystem) : Keeps cfg s (s.checkRefresh cfg) := by
  obtain ⟨ranks, waiting, rank, countdown, next, hsame, heq⟩ := checkRefresh_eq cfg s
  rw [heq]
  refine Keeps.of_same (fun hs => ⟨hs.queued, hs.bus, hs.writes, hs.outgoing, fun r => ?_⟩) rfl rfl rfl
  rw [packets_same hsame]
  exact hs.reads r

/-- A command that is popped comes from the queues, or is a refresh. -/
theorem keeps_popCommand (hidle : ∀ r b, (s.memoryController.bankStates r b).currentBankState = .idle)
    (h : s.popCommand cfg = .ok t) : Keeps cfg s t := by
  obtain ⟨found, cq, hpop, hcases⟩ := popCommand_split h
  have hdrawn := CommandQueue.pop_drawn hidle hpop
  rcases hcases with ⟨-, rfl⟩ | ⟨p, _, _, _, _, rfl, -, -, rfl⟩
  · exact Keeps.of_same (fun hs => ⟨fun r b p hp => hs.queued r b p (hdrawn.queues r b p hp),
      hs.bus, hs.writes,
      hs.outgoing, hs.reads⟩) rfl rfl rfl
  · refine Keeps.of_same (fun hs => ?_) rfl rfl rfl
    have hp : p.IsCommand → p.AtHome cfg := by
      intro hcommand
      rcases hdrawn.found p rfl with ⟨r, b, hp⟩ | ⟨-, rfl⟩
      · exact hs.queued r b p hp
      · rcases hcommand with (hbad | hbad) | (hbad | hbad) <;> cases hbad
    refine ⟨fun r b x hx => hs.queued r b x (hdrawn.queues r b x hx), fun q hq => ?_, ?_,
      hs.outgoing, hs.reads⟩
    · cases hq
      exact hp
    · dsimp only
      split_ifs with hwrite
      · intro x hx
        rcases List.mem_append.mp hx with hx | hx
        · exact hs.writes x hx
        · rw [List.mem_singleton.mp hx]
          exact hp (.inr hwrite)
      · exact hs.writes

theorem keeps_schedule (h : s.schedule cfg = .ok t) : Keeps cfg s t := by
  obtain ⟨mc, hmc, rfl⟩ := map_ok h
  rcases scheduleFrom_split (fun x hx => by cases hx) rfl hmc with
    ⟨rfl, -⟩ | ⟨before, x, rest, bpType, -, -, -, -, rfl⟩
  · exact Keeps.of_same id rfl rfl rfl
  · refine Keeps.of_same (fun hs => ⟨CommandQueue.forall_setCommandQueue hs.queued fun p hp => ?_,
      hs.bus, hs.writes,
      hs.outgoing, hs.reads⟩) rfl rfl rfl
    rcases List.mem_append.mp hp with hp | hp
    · exact hs.queued _ _ p hp
    · rw [List.mem_singleton.mp hp]
      exact atHome_packet x bpType x.data

/-- A read that is returned goes from one part of the account to the other, and its latency is counted. -/
theorem keeps_returnData (h : s.returnData cfg = .ok t) : Keeps cfg s t := by
  obtain ⟨⟨returned, mc⟩, hr, rfl⟩ := map_ok h
  rw [MemoryController.returnData] at hr
  split at hr
  · cases hr
    exact Keeps.of_same id rfl rfl rfl
  · rename_i r rest hreturn
    dsimp only at hr
    split at hr
    · cases hr
    · rename_i pending hfind
      cases hr
      have haddress := List.find?_some hfind
      rw [decide_eq_true_eq] at haddress
      intro hs
      let e : ℕ × Transaction := (s.memoryController.currentClockCycle, pending)
      refine ⟨⟨hs.queued, hs.bus, hs.writes, hs.outgoing, hs.reads⟩,
        ⟨⟨1, amountAt (latencyOf e / 10 * 10) 1,
          amountAt (bankOf cfg r.address) (BitVec.ofNat 64 (latencyOf e)), 0, 0⟩, ?_, ?_⟩, rfl⟩
      · exact Statistics.ext rfl (update_amount _ _ _) (update_amount _ _ _) (add_zero _).symm
          (add_zero _).symm
      · refine Statistics.ext ?_ ?_ ?_ ?_ (add_zero _).symm
        · change (((s.history.returned ++ [e]).length + (writeBanks cfg s).length : ℕ) : BitVec 64) =
            ((s.history.returned.length + (writeBanks cfg s).length : ℕ) : BitVec 64) + 1
          rw [List.length_append, add_right_comm, Nat.cast_add]
          rfl
        · change occurrences 32 ((s.history.returned ++ [e]).map _) = _
          rw [List.map_append]
          exact occurrences_snoc 32 _ _
        · rw [← haddress]
          exact @latencySpent_snoc cfg s _ e rfl
        · refine Eq.trans ?_ (add_zero _).symm
          exact congrArg (occurrences 64) (readBanks_moved hreturn rfl (show _ = _ ++ [e] from rfl) haddress)

theorem keeps_update (h : s.update cfg = .ok s') : Keeps cfg s s' := by
  obtain ⟨s₁, s₂, s₃, s₄, s₅, s₆, s₇, h₁, h₂, h₃, h₄, h₅, h₆, h₇, rfl⟩ := update_ok h
  have hidle := (prepared_of_phases h₁ h₂ h₃ h₄).idle
  have hranks : Keeps cfg s s₁ := foldlM_ok (P := Keeps cfg s)
    (fun _ _ _ hbefore hrank => hbefore.trans (keeps_updateRank hrank)) (Keeps.of_same id rfl rfl rfl) h₁
  have hopened : Keeps cfg s₁ (s₁.takePending cfg).idleBanks := (keeps_takePending cfg s₁).trans
    (Keeps.of_same (fun hs => ⟨hs.queued, hs.bus, hs.writes, hs.outgoing, hs.reads⟩) rfl rfl rfl)
  have hsent : Keeps cfg (s₁.takePending cfg).idleBanks (s₄.checkRefresh cfg) :=
    (((keeps_sendCommand h₂).trans (keeps_sendWriteData h₃)).trans (keeps_startWriteData h₄)).trans
      (keeps_checkRefresh cfg s₄)
  have hcharged : Keeps cfg s₆ (s₆.addBackgroundEnergy cfg) :=
    Keeps.of_same (fun hs => ⟨hs.queued, hs.bus, hs.writes, hs.outgoing, hs.reads⟩) rfl rfl rfl
  have hstepped : Keeps cfg s₇ s₇.stepClocks :=
    Keeps.of_same (fun hs => ⟨hs.queued, hs.bus, hs.writes, hs.outgoing, hs.reads⟩) rfl rfl rfl
  have hissued : Keeps cfg (s₄.checkRefresh cfg) s₆ := (keeps_popCommand hidle h₅).trans (keeps_schedule h₆)
  have hreturned : Keeps cfg s₆ s₇.stepClocks := (hcharged.trans (keeps_returnData h₇)).trans hstepped
  exact (((hranks.trans hopened).trans hsent).trans hissued).trans hreturned

theorem keeps_act {action : Action} (hne : action ≠ .resetStats) (h : s.act cfg action = .ok s') :
    Keeps cfg s s' := by
  cases action with
  | update => exact keeps_update h
  | resetStats => exact absurd rfl hne
  | addTransaction transaction =>
      cases h
      obtain ⟨taken, -, heq⟩ := addTransaction_eq cfg s transaction
      rw [heq]
      exact Keeps.of_same (fun hs => ⟨hs.queued, hs.bus, hs.writes, hs.outgoing, hs.reads⟩) rfl rfl rfl
  | request isWrite addr =>
      cases h
      obtain ⟨taken, pending, -, heq⟩ := request_eq cfg s isWrite addr
      rw [heq]
      exact Keeps.of_same (fun hs => ⟨hs.queued, hs.bus, hs.writes, hs.outgoing, hs.reads⟩) rfl rfl rfl

/-! ### Runs -/

theorem keeps_acts {actions : List Action} (hnone : Action.resetStats ∉ actions)
    (h : actions.foldlM (act cfg) s = .ok s') : Keeps cfg s s' := by
  induction actions generalizing s with
  | nil =>
      cases h
      exact Keeps.of_same id rfl rfl rfl
  | cons action actions ih =>
      rw [List.foldlM_cons] at h
      obtain ⟨t, ht, h⟩ := bind_ok h
      obtain ⟨hne, hnone⟩ := List.ne_and_not_mem_of_not_mem_cons hnone
      exact (keeps_act hne.symm ht).trans (ih hnone h)

/-- What a whole run has counted, whatever resets were among its actions. -/
structure Booked (cfg : Config) (s : MemorySystem) : Prop where
  located : Located cfg s
  transactions : s.counters.transactions = (account cfg s).transactions
  latencies : s.counters.latencies = (account cfg s).latencies
  accesses : s.memoryController.grandTotalBankAccesses + (s.counters.reads + s.counters.writes) =
    (account cfg s).reads + (account cfg s).writes

theorem Booked.init (cfg : Config) : Booked cfg (init cfg) where
  located := by
    refine ⟨fun r b p hp => ?_, fun p hp => ?_, fun p hp => ?_, fun p hp => ?_, fun r p hp => ?_⟩ <;> cases hp
  transactions := rfl
  latencies := rfl
  accesses := rfl

theorem Booked.keeps (h : Booked cfg s) (hkeeps : Keeps cfg s t) : Booked cfg t := by
  obtain ⟨hlocated, ⟨grown, hcounters, haccount⟩, hgrand⟩ := hkeeps h.located
  refine ⟨hlocated, ?_, ?_, ?_⟩
  · rw [hcounters, haccount, Statistics.add_transactions, Statistics.add_transactions, h.transactions]
  · rw [hcounters, haccount, Statistics.add_latencies, Statistics.add_latencies, h.latencies]
  · have haccesses := h.accesses
    rw [hgrand, hcounters, haccount, Statistics.add_reads, Statistics.add_writes, Statistics.add_reads,
      Statistics.add_writes, add_add_add_comm, ← add_assoc, haccesses, add_add_add_comm]

theorem Booked.act (h : Booked cfg s) {action : Action} (hact : s.act cfg action = .ok s') :
    Booked cfg s' := by
  by_cases hreset : action = .resetStats
  · subst hreset
    cases hact
    refine ⟨⟨h.located.queued, h.located.bus, h.located.writes, h.located.outgoing, h.located.reads⟩,
      h.transactions,
      h.latencies, ?_⟩
    -- The reset adds the current counts to the grand total and sets them to 0.
    change (s.memoryController.grandTotalBankAccesses + (s.counters.reads + s.counters.writes)) + (0 + 0) = _
    rw [add_zero, add_zero]
    exact h.accesses
  · exact h.keeps (keeps_act hreset hact)

theorem booked_run {actions : List Action} (h : run cfg actions = .ok s) : Booked cfg s :=
  foldlM_ok (P := Booked cfg) (fun _ _ _ hs hact => hs.act hact) (Booked.init cfg) h

/-- The counters of an epoch are 0 where it starts. -/
def Fresh (s : MemorySystem) : Prop :=
  s.counters.latency = 0 ∧ s.counters.reads = 0 ∧ s.counters.writes = 0

theorem fresh_run {actions : List Action} (hlast : ∀ action ∈ actions.getLast?, action = .resetStats)
    (h : run cfg actions = .ok s) : Fresh s := by
  induction actions using List.reverseRecOn with
  | nil =>
      cases h
      exact ⟨rfl, rfl, rfl⟩
  | append_singleton acts action _ =>
      rw [run_concat] at h
      obtain ⟨t, -, hact⟩ := bind_ok h
      rw [hlast action (List.getLast?_concat)] at hact
      cases hact
      exact ⟨rfl, rfl, rfl⟩

/-- **The statistics account for the traffic**, as far as counters of 64 bits, and of 32 for the bins, can. In
every state a run reaches, the transactions are those returned, written or on the data bus; every read
returned is in the bin of its latency, once; and what was counted for a bank, now and in the epochs before, is
the data that came from it and went to it. Since the last reset the reads, the writes and the latencies of a
bank are those of its own traffic since then. -/
theorem statistics_account (cfg : Config) (actions : List Action) (s : MemorySystem)
    (h : run cfg actions = .ok s) :
    s.memoryController.totalTransactions = (s.history.returned.length + s.history.written.length +
        s.memoryController.outgoingDataPacket.toList.length : ℕ) ∧
      (∀ bin, s.memoryController.latencies bin = ((bins s).count bin : BitVec 32)) ∧
      (∀ i, s.memoryController.grandTotalBankAccesses i +
          (s.memoryController.totalReadsPerBank i + s.memoryController.totalWritesPerBank i) =
        ((readBanks cfg s).count i + (writeBanks cfg s).count i : ℕ)) ∧
      ∀ before after, actions = before ++ after → Action.resetStats ∉ after →
        (∀ action ∈ before.getLast?, action = .resetStats) → ∃ s₀, run cfg before = .ok s₀ ∧ ∀ i,
          ((readBanks cfg s).count i : BitVec 64) =
            (readBanks cfg s₀).count i + s.memoryController.totalReadsPerBank i ∧
          ((writeBanks cfg s).count i : BitVec 64) =
            (writeBanks cfg s₀).count i + s.memoryController.totalWritesPerBank i ∧
          (latencySpent cfg s i : BitVec 64) =
            latencySpent cfg s₀ i + s.memoryController.totalEpochLatency i := by
  have hbooked := booked_run h
  refine ⟨?_, fun bin => congrFun hbooked.latencies bin, fun i => ?_, ?_⟩
  · have htransactions := hbooked.transactions
    rw [account, counters, writeBanks, List.length_append, List.length_map, List.length_map,
      ← add_assoc] at htransactions
    exact htransactions
  · rw [Nat.cast_add]
    exact congrFun hbooked.accesses i
  · intro before after hactions hafter hlast
    rw [hactions, run, List.foldlM_append] at h
    obtain ⟨s₀, hbefore, hrest⟩ := bind_ok h
    obtain ⟨hlatency, hreads, hwrites⟩ := fresh_run hlast hbefore
    obtain ⟨-, ⟨grown, hcounters, haccount⟩, -⟩ := keeps_acts hafter hrest (booked_run hbefore).located
    refine ⟨s₀, hbefore, fun i => ⟨?_, ?_, ?_⟩⟩
    · have hgrown : s.counters.reads = grown.reads :=
          by rw [hcounters, Statistics.add_reads, hreads, zero_add]
      exact (congrFun (congrArg Statistics.reads haccount) i).trans
        (congrArg (((readBanks cfg s₀).count i : BitVec 64) + ·) (congrFun hgrown i).symm)
    · have hgrown : s.counters.writes = grown.writes :=
          by rw [hcounters, Statistics.add_writes, hwrites, zero_add]
      exact (congrFun (congrArg Statistics.writes haccount) i).trans
        (congrArg (((writeBanks cfg s₀).count i : BitVec 64) + ·) (congrFun hgrown i).symm)
    · have hgrown : s.counters.latency = grown.latency :=
          by rw [hcounters, Statistics.add_latency, hlatency, zero_add]
      exact (congrFun (congrArg Statistics.latency haccount) i).trans
        (congrArg ((latencySpent cfg s₀ i : BitVec 64) + ·) (congrFun hgrown i).symm)

/-- With the devices of the example, after a reset between the write and the return of the read. -/
theorem statistics_account_ddr2 : ∃ s s₀,
    run (ddr2Micron 1 (by decide)) (writeThenRead ++ .resetStats :: List.replicate 30 .update) = .ok s ∧
      run (ddr2Micron 1 (by decide)) (writeThenRead ++ [.resetStats]) = .ok s₀ ∧
      s.memoryController.totalReadsPerBank 0 = 1 ∧ s.memoryController.grandTotalBankAccesses 0 = 1 ∧
      ((readBanks (ddr2Micron 1 (by decide)) s).count 0 : BitVec 64) =
        (readBanks (ddr2Micron 1 (by decide)) s₀).count 0 + 1 := by
  have hrun : ∃ s, run (ddr2Micron 1 (by decide))
      (writeThenRead ++ .resetStats :: List.replicate 30 .update) = .ok s ∧
      s.memoryController.totalReadsPerBank 0 = 1 ∧ s.memoryController.grandTotalBankAccesses 0 = 1 := by
    decide +kernel
  obtain ⟨s, hs, hreads, hgrand⟩ := hrun
  obtain ⟨-, -, -, hepoch⟩ := statistics_account (ddr2Micron 1 (by decide)) _ s hs
  obtain ⟨s₀, hs₀, hbanks⟩ := hepoch (writeThenRead ++ [.resetStats]) (List.replicate 30 .update)
    (by rw [List.append_assoc]; rfl) (by decide) fun action haction => by
      rw [List.getLast?_concat] at haction
      exact (Option.mem_some.mp haction).symm
  refine ⟨s, s₀, hs, hs₀, hreads, hgrand, ?_⟩
  rw [(hbanks 0).1, hreads]

end MemorySystem

end RacerArtifacts.Mram
