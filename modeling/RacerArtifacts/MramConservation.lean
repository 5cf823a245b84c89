import RacerArtifacts.LibCensus
import RacerArtifacts.MramLatency

/-! The conservation of transactions. A ledger is kept of what was accepted, queued, issued and done, an
update at a time; what lies in which container at a state follows from it and from the pipes. -/

namespace RacerArtifacts.Mram

open Fallible MemoryController Pipe Census

variable {cfg : Config}

/-- All that lies in the queues of the constructor. -/
def CommandQueue.packets (cfg : Config) (cq : CommandQueue) : Multiset BusPacket :=
  ∑ r ∈ Finset.range cfg.numRanks, ∑ b ∈ Finset.range ((r + 1) * cfg.numBankQueues), ↑(cq.queues r b)

theorem CommandQueue.packets_congr {cq cq' : CommandQueue} (h : cq'.queues = cq.queues) :
    cq'.packets cfg = cq.packets cfg := by
  rw [packets, packets, h]

/-- A queue that is set to others changes what lies in the queues by these. -/
theorem CommandQueue.packets_setCommandQueue (cq : CommandQueue) {rank bank : ℕ}
    (hqueue : cfg.HasQueue rank (cfg.slot bank)) (queue : List BusPacket) :
    (cq.setCommandQueue cfg rank bank queue).packets cfg + ↑(cq.getCommandQueue cfg rank bank) =
      cq.packets cfg + ↑queue := by
  have hset : ((cq.setCommandQueue cfg rank bank queue).queues rank (cfg.slot bank) : Multiset BusPacket) =
      ↑queue := by
    rw [setCommandQueue_queues, if_pos ⟨rfl, rfl⟩]
  rw [← hset]
  refine sum_set (Finset.range cfg.numRanks) (fun r => Finset.range ((r + 1) * cfg.numBankQueues))
    (f := fun r b => (cq.queues r b : Multiset BusPacket))
    (g := fun r b => ((cq.setCommandQueue cfg rank bank queue).queues r b : Multiset BusPacket))
    (Finset.mem_range.mpr hqueue.1) (Finset.mem_range.mpr hqueue.2) fun r b hother => ?_
  rw [setCommandQueue_queues, if_neg hother]

/-- An address and data, as a write has them. -/
def BusPacket.written (p : BusPacket) : BitVec 64 × ℕ :=
  (p.physicalAddress, p.data)

def Transaction.written (transaction : Transaction) : BitVec 64 × ℕ :=
  (transaction.address, transaction.data)

namespace MemorySystem

variable {s s' t t' u : MemorySystem} {sent : List (ℕ × BusPacket)}

/-- The transactions of a type. -/
def ofType (type : TransactionType) (transactions : List Transaction) : List Transaction :=
  transactions.filter fun t => decide (t.transactionType = type)

/-- The addresses of the reads between the scheduler and their return: in the queues, on the command bus, in
the ranks, on their data buses, and with the controller. -/
def readsOnTheirWay (cfg : Config) (s : MemorySystem) : Multiset (BitVec 64) :=
  ((s.memoryController.commandQueue.packets cfg).filter BusPacket.IsRead).map BusPacket.physicalAddress +
    ((s.memoryController.outgoingCmdPacket.toList : Multiset BusPacket).filter BusPacket.IsRead).map
      BusPacket.physicalAddress +
    ∑ r ∈ Finset.range cfg.numRanks,
      ((s.ranks r).readReturnPacket : Multiset BusPacket).map BusPacket.physicalAddress +
    ∑ r ∈ Finset.range cfg.numRanks,
      ((s.ranks r).outgoingDataPacket.toList : Multiset BusPacket).map BusPacket.physicalAddress +
    (s.memoryController.returnTransaction : Multiset Transaction).map Transaction.address

/-- The writes in the places where an accepted write can be. -/
def writesInPlaces (cfg : Config) (s : MemorySystem) : Multiset (BitVec 64 × ℕ) :=
  (ofType .dataWrite s.memoryController.transactionQueue : Multiset Transaction).map Transaction.written +
    ((s.memoryController.commandQueue.packets cfg).filter BusPacket.IsWrite).map BusPacket.written +
    (s.memoryController.writeDataToSend : Multiset BusPacket).map BusPacket.written +
    (s.memoryController.outgoingDataPacket.toList : Multiset BusPacket).map BusPacket.written +
    (s.history.written.map Prod.snd : Multiset BusPacket).map BusPacket.written

/-- **Every transaction is somewhere, once.** -/
structure Conserved (cfg : Config) (s : MemorySystem) : Prop where
  pending : (s.memoryController.pendingReadTransactions : Multiset Transaction).map Transaction.address =
    readsOnTheirWay cfg s
  reads : (ofType .dataRead s.history.accepted : Multiset Transaction) =
    ofType .dataRead s.memoryController.transactionQueue + ↑s.memoryController.pendingReadTransactions +
      ↑(s.history.returned.map Prod.snd)
  writes : (ofType .dataWrite s.history.accepted : Multiset Transaction).map Transaction.written =
    writesInPlaces cfg s

/-- Values of data, whatever its times. -/
def values {β : Type} (g : BusPacket → β) (entries : List (ℕ × BusPacket)) : Multiset β :=
  ↑(entries.map fun e => g e.2)

/-- What was asked of the memory by commands of a kind: those in the queues and those issued. -/
def asked {β : Type} (cfg : Config) (kind : BusPacket → Prop) [DecidablePred kind] (g : BusPacket → β)
    (s : MemorySystem) :
    Multiset β :=
  ((s.memoryController.commandQueue.packets cfg).filter kind).map g + values g (dataOf kind s.history.issued)

theorem packets_pop (hshape : Shape cfg t) {k : ℕ} {front rest : List BusPacket} {p : BusPacket}
    {cq : CommandQueue}
    (hqueue : ((CommandQueue.advance cfg)^[k] t.memoryController.commandQueue).here cfg = front ++ p :: rest)
    (hqueues : cq.queues = (t.memoryController.commandQueue.setCommandQueue cfg
      ((CommandQueue.advance cfg)^[k] t.memoryController.commandQueue).nextRank
      ((CommandQueue.advance cfg)^[k] t.memoryController.commandQueue).nextBank (front ++ rest)).queues) :
    t.memoryController.commandQueue.packets cfg = cq.packets cfg + {p} := by
  have hp : Placed cfg _ _ p := hshape.middle hqueue
  have hset := CommandQueue.packets_setCommandQueue t.memoryController.commandQueue hp.hasQueue
      (front ++ rest)
  have hhere : t.memoryController.commandQueue.getCommandQueue cfg
      ((CommandQueue.advance cfg)^[k] t.memoryController.commandQueue).nextRank
      ((CommandQueue.advance cfg)^[k] t.memoryController.commandQueue).nextBank = front ++ p :: rest := by
    rw [← hqueue, CommandQueue.here, CommandQueue.getCommandQueue, CommandQueue.getCommandQueue,
      (CommandQueue.same_iterate cfg _ k).queues_eq]
  rw [CommandQueue.packets_congr hqueues]
  rw [hhere, coe_middle, ← add_assoc, add_right_comm] at hset
  exact (add_right_cancel hset).symm

section asked

variable {β : Type} {kind : BusPacket → Prop} [DecidablePred kind] {g : BusPacket → β}

theorem asked_congr (hqueues : t.memoryController.commandQueue.queues =
    s.memoryController.commandQueue.queues)
    (hissued : t.history.issued = s.history.issued) : asked cfg kind g t = asked cfg kind g s := by
  rw [asked, asked, CommandQueue.packets_congr hqueues, hissued]

theorem values_append (l l' : List (ℕ × BusPacket)) : values g (l ++ l') = values g l + values g l' := by
  rw [values, List.map_append, ← Multiset.coe_add]
  rfl

theorem popCommand_asked (hpolicy : cfg.rowBufferPolicy = .closePage) (hshape : Shape cfg t)
    (hidle : ∀ r b, (t.memoryController.bankStates r b).currentBankState = .idle)
    (hrefresh : ∀ r, ¬ kind (CommandQueue.refreshPacket r)) (hdata : ∀ p, g p.toData = g p)
    (h : t.popCommand cfg = .ok t') : asked cfg kind g t' = asked cfg kind g t := by
  cases popCommand_ok hpolicy hidle (fun r b p hp => (hshape.placed r b p hp).column) h with
  | refresh hgoes hqueues hclock hissues =>
      obtain ⟨_, _, _, _, -, -, -, rfl⟩ := hissues
      rw [asked, asked]
      dsimp only
      rw [CommandQueue.packets_congr hqueues, dataOf_append_other (hrefresh _)]
  | nothing hstays hends hpos hback hsame heq =>
      subst heq
      exact asked_congr hsame.queues_eq rfl
  | @column hstays k hends hlook front p rest hcandidate cq hsame hissues =>
      obtain ⟨_, _, _, _, -, -, -, rfl⟩ := hissues
      have hpackets := packets_pop hshape hcandidate.queue_eq hsame.queues_eq
      rw [asked, asked]
      dsimp only
      rw [hpackets, Multiset.filter_add, Multiset.map_add]
      by_cases hkind : kind p
      · rw [dataOf_append_self hkind, values_append, Multiset.filter_singleton, if_pos hkind,
          Multiset.map_singleton,
          add_right_comm, ← add_assoc]
        apply congrArg _
        show ({g p.toData} : Multiset β) = {g p}
        rw [hdata]
      · rw [dataOf_append_other hkind, Multiset.filter_singleton, if_neg hkind]
        show _ = _ + (0 : Multiset β) + _
        rw [add_zero]

theorem packets_enqueue {rank bank : ℕ} (cq : CommandQueue) (hqueue : cfg.HasQueue rank (cfg.slot bank))
    (p : BusPacket) :
    (cq.setCommandQueue cfg rank bank (cq.getCommandQueue cfg rank bank ++ [p])).packets cfg =
      cq.packets cfg + {p} := by
  have hset := CommandQueue.packets_setCommandQueue cq hqueue (cq.getCommandQueue cfg rank bank ++ [p])
  rw [← Multiset.coe_add, add_comm (cq.getCommandQueue cfg rank bank : Multiset BusPacket),
    ← add_assoc] at hset
  exact add_right_cancel hset

theorem asked_enqueue {p : BusPacket}
    (hpackets : u.memoryController.commandQueue.packets cfg =
      s.memoryController.commandQueue.packets cfg + {p})
    (hissued : u.history.issued = s.history.issued) :
    asked cfg kind g u = asked cfg kind g s + if kind p then {g p} else 0 := by
  rw [asked, asked, hpackets, hissued, Multiset.filter_add, Multiset.map_add, Multiset.filter_singleton,
    add_right_comm]
  split_ifs <;> rfl

theorem refresh_moves (r : ℕ) : ¬ (CommandQueue.refreshPacket r).IsRead ∧
    ¬ (CommandQueue.refreshPacket r).IsWrite := by
  constructor
  · rintro (h | h) <;> cases h
  · rintro (h | h) <;> cases h

end asked

/-- The addresses of the reads that were returned. -/
def returnedAddresses (s : MemorySystem) : Multiset (BitVec 64) :=
  (s.history.returned : Multiset (ℕ × Transaction)).map fun e => e.2.address

theorem returnedAddresses_eq (s : MemorySystem) :
    returnedAddresses s = (s.history.returned.map Prod.snd : Multiset Transaction).map
      Transaction.address := by
  rw [returnedAddresses, Multiset.map_coe, Multiset.map_coe, List.map_map]
  rfl

/-- What was accepted against what waits, is queued, was issued and was returned. -/
structure Requests (cfg : Config) (s : MemorySystem) : Prop where
  pending : (s.memoryController.pendingReadTransactions : Multiset Transaction).map Transaction.address +
    returnedAddresses s = asked cfg BusPacket.IsRead BusPacket.physicalAddress s
  reads : (ofType .dataRead s.history.accepted : Multiset Transaction) =
    ofType .dataRead s.memoryController.transactionQueue + ↑s.memoryController.pendingReadTransactions +
      ↑(s.history.returned.map Prod.snd)
  writes : (ofType .dataWrite s.history.accepted : Multiset Transaction).map Transaction.written =
    (ofType .dataWrite s.memoryController.transactionQueue : Multiset Transaction).map Transaction.written +
      asked cfg BusPacket.IsWrite BusPacket.written s

theorem ofType_append (type : TransactionType) (l l' : List Transaction) :
    (ofType type (l ++ l') : Multiset Transaction) = ↑(ofType type l) + ↑(ofType type l') := by
  rw [ofType, List.filter_append, ← Multiset.coe_add]
  rfl

theorem Requests.init (cfg : Config) : Requests cfg (init cfg) := by
  have hempty : ∀ {β : Type} {kind : BusPacket → Prop} [DecidablePred kind] {g : BusPacket → β},
      asked cfg kind g (MemorySystem.init cfg) = 0 := by
    intro β kind _ g
    have hpackets : (CommandQueue.init).packets cfg = 0 :=
      Finset.sum_eq_zero fun r _ => Finset.sum_eq_zero fun b _ => rfl
    change ((CommandQueue.init.packets cfg).filter kind).map g + 0 = 0
    rw [hpackets]
    rfl
  refine ⟨?_, rfl, ?_⟩
  · rw [hempty]
    rfl
  · rw [hempty]
    rfl

theorem Requests.taken (h : Requests cfg s)
    (hqueues : t.memoryController.commandQueue.queues = s.memoryController.commandQueue.queues)
    (hissued : t.history.issued = s.history.issued)
    (hpending : t.memoryController.pendingReadTransactions = s.memoryController.pendingReadTransactions)
    (hreturned : t.history.returned = s.history.returned)
    (htaken : ∃ taken, t.memoryController.transactionQueue = s.memoryController.transactionQueue ++ taken ∧
      t.history.accepted = s.history.accepted ++ taken) : Requests cfg t := by
  obtain ⟨taken, hqueue, haccepted⟩ := htaken
  refine ⟨?_, ?_, ?_⟩
  · rw [hpending, returnedAddresses, hreturned, asked_congr hqueues hissued]
    exact h.pending
  · rw [haccepted, hqueue, hpending, hreturned, ofType_append, ofType_append, h.reads]
    abel
  · rw [haccepted, hqueue, asked_congr hqueues hissued, ofType_append, ofType_append, Multiset.map_add,
      Multiset.map_add,
      h.writes, add_right_comm]

theorem Requests.popCommand (hpolicy : cfg.rowBufferPolicy = .closePage) (hshape : Shape cfg t)
    (hidle : ∀ r b, (t.memoryController.bankStates r b).currentBankState = .idle) (h : Requests cfg t)
    (hpop : t.popCommand cfg = .ok t') : Requests cfg t' := by
  have hsame : t'.memoryController.pendingReadTransactions = t.memoryController.pendingReadTransactions ∧
      t'.history.returned = t.history.returned ∧ t'.history.accepted = t.history.accepted ∧
      t'.memoryController.transactionQueue = t.memoryController.transactionQueue := by
    obtain ⟨found, cq, -, ⟨-, rfl⟩ | ⟨p, _, _, _, _, -, -, -, rfl⟩⟩ := popCommand_split hpop <;>
      exact ⟨rfl, rfl, rfl, rfl⟩
  obtain ⟨hpending, hreturned, haccepted, hqueue⟩ := hsame
  refine ⟨?_, ?_, ?_⟩
  · rw [hpending, returnedAddresses, hreturned,
      popCommand_asked hpolicy hshape hidle (fun r => (refresh_moves r).1) (fun _ => rfl) hpop]
    exact h.pending
  · rw [hpending, hreturned, haccepted, hqueue]
    exact h.reads
  · rw [haccepted, hqueue, popCommand_asked hpolicy hshape hidle (fun r => (refresh_moves r).2)
      (fun _ => rfl) hpop]
    exact h.writes

theorem ofType_middle (type : TransactionType) (before rest : List Transaction) (transaction : Transaction) :
    (ofType type (before ++ transaction :: rest) : Multiset Transaction) =
      ↑(ofType type (before ++ rest)) + if transaction.transactionType = type then {transaction} else 0 := by
  have hsplit : (ofType type (transaction :: rest) : Multiset Transaction) =
      (if transaction.transactionType = type then {transaction} else 0) + ↑(ofType type rest) := by
    rw [ofType, List.filter_cons]
    by_cases htype : transaction.transactionType = type
    · rw [if_pos (decide_eq_true htype), if_pos htype, Multiset.singleton_add, Multiset.cons_coe]
      rfl
    · rw [if_neg (by rwa [decide_eq_true_eq]), if_neg htype, zero_add]
      rfl
  rw [ofType_append, ofType_append, hsplit, add_assoc, add_comm (ofType type rest : Multiset Transaction)]

/-- A read that is scheduled is pending, and a transaction that is scheduled is asked for. -/
theorem Requests.schedule (hpolicy : cfg.rowBufferPolicy = .closePage) (h : Requests cfg s)
    (hschedule : s.schedule cfg = .ok u) : Requests cfg u := by
  rcases schedule_ok hpolicy hschedule with
    rfl | ⟨before, transaction, rest, pending, hsplit, -, hroom, htype, hpending, hu⟩
  · exact h
  have hpackets : u.memoryController.commandQueue.packets cfg = s.memoryController.commandQueue.packets cfg +
      {transaction.packet cfg (requestType transaction.transactionType) transaction.data} := by
    rw [hu]
    exact packets_enqueue s.memoryController.commandQueue (hasRoomFor_ok hroom) _
  have hissued : u.history.issued = s.history.issued := by rw [hu]
  have haccepted : u.history.accepted = s.history.accepted ∧ u.history.returned = s.history.returned ∧
      u.memoryController.transactionQueue = before ++ rest ∧
      u.memoryController.pendingReadTransactions = pending := by
    rw [hu]
    exact ⟨rfl, rfl, rfl, rfl⟩
  obtain ⟨haccepted, hreturned, hqueue, hpending'⟩ := haccepted
  have hreads := h.reads
  have hwrites := h.writes
  rw [hsplit, ofType_middle] at hreads hwrites
  refine ⟨?_, ?_, ?_⟩
  · rw [asked_enqueue hpackets hissued, ← h.pending, hpending', hpending, returnedAddresses,
      returnedAddresses, hreturned]
    cases hkind : transaction.transactionType with
    | dataRead =>
        rw [if_pos rfl, if_pos (.inr rfl), ← Multiset.coe_add, Multiset.map_add, add_right_comm]
        rfl
    | dataWrite =>
        rw [if_neg (by decide), if_neg (by rintro (hbad | hbad) <;> cases hbad), add_zero]
    | returnData => exact absurd hkind htype
  · rw [haccepted, hqueue, hreturned, hpending', hreads, hpending]
    cases hkind : transaction.transactionType with
    | dataRead =>
        rw [if_pos rfl, if_pos rfl, ← Multiset.coe_add]
        change _ + {transaction} + _ + _ = _ + (_ + {transaction}) + _
        abel
    | dataWrite => rw [if_neg (by decide), if_neg (by decide), add_zero]
    | returnData => exact absurd hkind htype
  · rw [haccepted, hqueue, asked_enqueue hpackets hissued, hwrites]
    cases hkind : transaction.transactionType with
    | dataRead =>
        rw [if_neg (by decide), if_neg (by rintro (hbad | hbad) <;> cases hbad), add_zero, add_zero]
    | dataWrite =>
        rw [if_pos rfl, if_pos (.inr rfl), Multiset.map_add, add_right_comm, add_assoc]
        rfl
    | returnData => exact absurd hkind htype

theorem Requests.returnData (h : Requests cfg u) {s₇ : MemorySystem}
    (h₇ : (u.addBackgroundEnergy cfg).returnData cfg = .ok s₇) : Requests cfg s₇.stepClocks := by
  have hfinished := finished_of_phases h₇
  have hmoved : (↑s₇.stepClocks.memoryController.pendingReadTransactions : Multiset Transaction) +
      ↑(s₇.stepClocks.history.returned.map Prod.snd) =
      ↑u.memoryController.pendingReadTransactions + ↑(u.history.returned.map Prod.snd) := by
    rcases returnData_returns h₇ with ⟨-, -, hpending, hreturned⟩ |
      ⟨r, rest, before, pending, behind, -, hpending, -, -, hpending', hreturned⟩
    · rw [hpending, hreturned]
    · have hlast : (↑((u.history.returned ++
          [(s₇.memoryController.currentClockCycle, pending)]).map Prod.snd) :
          Multiset Transaction) = ↑(u.history.returned.map Prod.snd) + {pending} := by
        rw [List.map_append, ← Multiset.coe_add]
        rfl
      rw [hpending, hpending', hreturned, hlast, coe_middle]
      abel
  refine ⟨?_, ?_, ?_⟩
  · rw [asked_congr hfinished.queues_eq hfinished.issued_eq, ← h.pending, returnedAddresses_eq,
      returnedAddresses_eq,
      ← Multiset.map_add, hmoved, Multiset.map_add]
  · rw [hfinished.accepted_eq, hfinished.transactionQueue_eq, h.reads, add_assoc, add_assoc, hmoved]
  · rw [hfinished.accepted_eq, hfinished.transactionQueue_eq,
      asked_congr hfinished.queues_eq hfinished.issued_eq]
    exact h.writes

/-- The ranks return no read and leave the pending ones alone. -/
theorem ranks_pending (h : (List.range cfg.numRanks).foldlM (updateRank cfg) s = .ok t) :
    t.memoryController.pendingReadTransactions = s.memoryController.pendingReadTransactions ∧
      t.history.returned = s.history.returned := by
  refine foldlM_ok (P := fun t => t.memoryController.pendingReadTransactions =
    s.memoryController.pendingReadTransactions ∧ t.history.returned = s.history.returned)
    (fun t i t' ih hstep => ?_) ⟨rfl, rfl⟩ h
  obtain ⟨received, rank, -, ⟨-, rfl⟩ | ⟨p, reads, -, rfl⟩⟩ := updateRank_ok hstep <;> exact ih

theorem Requests.update (hpolicy : cfg.rowBufferPolicy = .closePage) (hcontrol : Control cfg s)
    (h : Requests cfg s) (hupdate : s.update cfg = .ok s') : Requests cfg s' := by
  obtain ⟨s₁, s₂, s₃, s₄, s₅, s₆, s₇, h₁, h₂, h₃, h₄, h₅, h₆, h₇, rfl⟩ := update_ok hupdate
  have hprepared := prepared_of_phases h₁ h₂ h₃ h₄
  obtain ⟨hpending, hreturned⟩ := ranks_pending h₁
  have hsame := sameReturns_of_phases h₂ h₃ h₄
  have hqueues : (s₄.checkRefresh cfg).memoryController.commandQueue.queues =
      s.memoryController.commandQueue.queues := by
    rw [hprepared.queue_eq]
    exact (checkRefresh_same cfg s).1
  have htaken := h.taken hqueues hprepared.issued_eq (hsame.pending_eq.trans hpending)
    (hsame.returned_eq.trans hreturned) hprepared.taken
  exact ((htaken.popCommand hpolicy (hcontrol.prepared hprepared).1 hprepared.idle h₅).schedule hpolicy
    h₆).returnData h₇

/-- The data of the writes issued, in order: what was reported done, what is on the bus and what waits. -/
def Sent (s : MemorySystem) : Prop :=
  (dataOf BusPacket.IsWrite s.history.issued).map Prod.snd = s.history.written.map Prod.snd ++
    (s.memoryController.outgoingDataPacket.toList ++ s.memoryController.writeDataToSend)

theorem Sent.of_same (h : Sent s) (hissued : t.history.issued = s.history.issued)
    (hsame : SameWrites s t) : Sent t := by
  rw [Sent, hissued, hsame.written_eq, hsame.outgoing_eq, hsame.packets_eq]
  exact h

theorem Sent.update (h : Sent s) (hupdate : s.update cfg = .ok s') : Sent s' := by
  obtain ⟨s₁, s₂, s₃, s₄, s₅, s₆, s₇, h₁, h₂, h₃, h₄, h₅, h₆, h₇, rfl⟩ := update_ok hupdate
  have hsent₂ : Sent s₂ := h.of_same (record_of_phases h₁ h₂).1 (sameWrites_of_phases h₁ h₂)
  have hsent₃ : Sent s₃ := by
    rcases sendWriteData_ok h₃ with ⟨-, rfl⟩ | ⟨p, left, hp, -, ⟨-, rfl⟩ | ⟨-, ranks, -, rfl⟩⟩
    · exact hsent₂
    · exact hsent₂
    · rw [Sent, hp] at hsent₂
      rw [Sent]
      dsimp only
      rw [List.map_append, List.append_assoc]
      exact hsent₂
  have hsent₄ : Sent s₄ := by
    obtain ⟨mc, hmc, rfl⟩ := map_ok h₄
    rcases startWriteData_ok hmc with ⟨-, -, hmc⟩ | ⟨packet, packets, _, _, _, -, hpackets, hfree, rfl⟩
    · rw [hmc]
      exact hsent₃
    · rw [Sent, hpackets, hfree] at hsent₃
      exact hsent₃
  rcases writes_of_phases h₅ h₆ h₇ with ⟨hissued, hsame⟩ | ⟨p, hissued, hsame⟩
  · exact hsent₄.of_same hissued hsame
  · rw [Sent, hissued, hsame.written_eq, hsame.outgoing_eq, hsame.packets_eq]
    dsimp only
    by_cases hwrite : p.IsWrite
    · rw [dataOf_append_self hwrite, List.map_append, hsent₄, if_pos hwrite, List.append_assoc,
        List.append_assoc]
      rfl
    · rw [dataOf_append_other hwrite, if_neg hwrite]
      exact hsent₄

section classes

variable {β : Type} {g : BusPacket → β} {issued : List (ℕ × BusPacket)}

theorem sum_readOf (hranks : ∀ e ∈ issued, e.2.IsRead → e.2.rank < cfg.numRanks) :
    ∑ r ∈ Finset.range cfg.numRanks,
      values g (dataOf (ReadOf r) issued) = values g (dataOf BusPacket.IsRead issued) := by
  have hreads : ∀ e ∈ issued.filter fun e => decide e.2.IsRead, e.2.rank < cfg.numRanks := fun e he =>
    hranks e (List.mem_filter.mp he).1 (of_decide_eq_true (List.mem_filter.mp he).2)
  have hclasses := sum_classes (fun e : ℕ × BusPacket => e.2.rank) (fun e => g e.2.toData) hreads
  rw [values, dataOf, List.map_map]
  refine Eq.trans (Finset.sum_congr rfl fun r _ => ?_) hclasses
  rw [values, dataOf, List.map_map, List.filter_filter]
  refine congrArg _ (congrArg₂ List.map rfl (List.filter_congr fun e _ => ?_))
  show decide (e.2.IsRead ∧ e.2.rank = r) = (decide (e.2.rank = r) && decide e.2.IsRead)
  rw [Bool.decide_and, Bool.and_comm]

theorem sum_readOf_filter (q : ℕ → Prop) [DecidablePred q]
    (hranks : ∀ e ∈ issued, e.2.IsRead → e.2.rank < cfg.numRanks) :
    ∑ r ∈ Finset.range cfg.numRanks, values g ((dataOf (ReadOf r) issued).filter fun e => decide (q e.1)) =
      values g ((dataOf BusPacket.IsRead issued).filter fun e => decide (q e.1)) := by
  rw [dataOf_filter, ← sum_readOf fun e he => hranks e (List.mem_filter.mp he).1]
  exact Finset.sum_congr rfl fun r _ => by rw [dataOf_filter]

/-- What is done by the next update is what is done by this one, and what is done in it. -/
theorem values_due (T : ℕ) : values g (due cfg BusPacket.IsRead (T + 1) issued) = values g
    (due cfg BusPacket.IsRead T issued) +
    values g ((dataOf BusPacket.IsRead issued).filter fun e =>
      decide (e.1 + cfg.readLine + cfg.burst = T + 1)) := by
  have hperm := List.filter_append_perm (fun e : ℕ × BusPacket => decide (e.1 + cfg.readLine + cfg.burst ≤ T))
    (due cfg BusPacket.IsRead (T + 1) issued)
  have hbefore : (due cfg BusPacket.IsRead (T + 1) issued).filter
      (fun e => decide (e.1 + cfg.readLine + cfg.burst ≤ T)) = due cfg BusPacket.IsRead T issued := by
    rw [due, due, List.filter_filter]
    apply List.filter_congr
    intro e _
    rw [← Bool.decide_and, decide_eq_decide]
    omega
  have hnow : (due cfg BusPacket.IsRead (T + 1) issued).filter
      (fun e => !decide (e.1 + cfg.readLine + cfg.burst ≤ T)) =
      (dataOf BusPacket.IsRead issued).filter fun e => decide (e.1 + cfg.readLine + cfg.burst = T + 1) := by
    rw [due, List.filter_filter]
    apply List.filter_congr
    intro e _
    rw [← decide_not, ← Bool.decide_and, decide_eq_decide]
    omega
  rw [hbefore, hnow] at hperm
  rw [← values_append]
  exact Multiset.coe_eq_coe.mpr (hperm.map _).symm

end classes

theorem returningAt_addresses (hranks : ∀ e ∈ sent, e.2.IsRead → e.2.rank < cfg.numRanks) (T : ℕ) :
    (returningAt cfg T cfg.numRanks sent : Multiset Transaction).map Transaction.address =
      values BusPacket.physicalAddress
        ((dataOf BusPacket.IsRead sent).filter fun e => decide (e.1 + cfg.readLine + cfg.burst = T)) := by
  rw [← sum_readOf_filter (fun t => t + cfg.readLine + cfg.burst = T) hranks, returningAt, Multiset.map_coe,
    List.map_flatMap, coe_flatMap_range]
  apply Finset.sum_congr rfl
  intro r _
  rw [List.map_map]
  rfl

theorem Returns.addresses (h : Returns cfg sent s s') :
    returnedAddresses s' + (s'.memoryController.returnTransaction : Multiset Transaction).map
      Transaction.address =
        returnedAddresses s + (toReturn cfg sent s : Multiset Transaction).map Transaction.address := by
  cases h with
  | nothing hnone hreturn hreturned => rw [returnedAddresses, hreturn, hreturned, hnone, returnedAddresses]
  | @first r rest pending hfirst haddress hreturn hreturned =>
      have hlast : returnedAddresses s' = returnedAddresses s + {r.address} := by
        rw [returnedAddresses, hreturned, ← Multiset.coe_add, Multiset.map_add, ← haddress]
        rfl
      rw [hlast, hreturn, hfirst, add_assoc]
      rfl

/-- The reads that are done were returned, or are to be. -/
def Home (cfg : Config) (s : MemorySystem) : Prop :=
  returnedAddresses s + (s.memoryController.returnTransaction : Multiset Transaction).map
    Transaction.address =
      values BusPacket.physicalAddress
      (due cfg BusPacket.IsRead s.memoryController.currentClockCycle s.history.issued)

theorem Arrived.ranks {T : ℕ} (h : Arrived T s sent)
    (hranks : ∀ e ∈ s.history.issued, e.2.IsColumn → e.2.rank < cfg.numRanks)
    (hcontrol : Control cfg s) : ∀ e ∈ sent, e.2.IsRead → e.2.rank < cfg.numRanks := by
  have hsent : ∀ e ∈ sent, e ∈ s.history.issued := by
    intro e he
    rcases h with ⟨-, hissued⟩ | ⟨t, p, -, -, -, hissued⟩
    · rwa [hissued]
    · rw [hissued]
      exact List.mem_append_left _ he
  intro e he hread
  exact hranks e (hsent e he) (hcontrol.timed.isColumn (hsent e he) (.inl hread))

/-- What was returned before an update and what there is to return in it are the reads that are done
by its end. -/
theorem Home.toReturn (hranks : ∀ e ∈ s.history.issued, e.2.IsColumn → e.2.rank < cfg.numRanks)
    (hcontrol : Control cfg s) (hflight : InFlight cfg sent s) (h : Home cfg s) :
    returnedAddresses s + (MemorySystem.toReturn cfg sent s : Multiset Transaction).map Transaction.address =
      values BusPacket.physicalAddress
        (due cfg BusPacket.IsRead (s.memoryController.currentClockCycle + 1) s.history.issued) := by
  have hreads := hflight.arrived.ranks hranks hcontrol
  rw [MemorySystem.toReturn, ← Multiset.coe_add, Multiset.map_add, ← add_assoc, h,
    returningAt_addresses hreads,
    due_arrived hflight.arrived (Nat.le_succ _), due_arrived hflight.arrived le_rfl, values_due]

theorem Home.update (hpolicy : cfg.rowBufferPolicy = .closePage) (htCMD : cfg.tCMD = 1)
    (hcontrol : Control cfg s)
    (hdata : ∀ p, s.memoryController.outgoingDataPacket = some p → p.busPacketType = .data)
    (hranks : ∀ e ∈ s.history.issued, e.2.IsColumn → e.2.rank < cfg.numRanks) (hflight : InFlight cfg sent s)
    (h : Home cfg s) (hupdate : s.update cfg = .ok s') : Home cfg s' := by
  obtain ⟨hflight', hreturns⟩ := hflight.update hpolicy htCMD hcontrol hdata hupdate
  rw [Home, hreturns.addresses, h.toReturn hranks hcontrol hflight,
    due_arrived hflight'.arrived (Nat.le_succ _),
    update_clock hupdate]

/-- The reads issued are on the bus or were sent to the ranks. -/
theorem values_arrived {β : Type} (g : BusPacket → β) (hdata : ∀ p, g p.toData = g p) {T : ℕ}
    (h : Arrived T s sent) :
    values g (dataOf BusPacket.IsRead s.history.issued) =
      ((s.memoryController.outgoingCmdPacket.toList : Multiset BusPacket).filter BusPacket.IsRead).map g +
        values g (dataOf BusPacket.IsRead sent) := by
  rcases h with ⟨hbus, hissued⟩ | ⟨t, p, hbus, -, -, hissued⟩
  · rw [hbus, hissued]
    exact (zero_add _).symm
  · rw [hbus, hissued, Option.toList_some, Multiset.coe_singleton, Multiset.filter_singleton]
    by_cases hread : p.IsRead
    · rw [dataOf_append_self hread, values_append, if_pos hread, add_comm, Multiset.map_singleton, ← hdata]
      rfl
    · rw [dataOf_append_other hread, if_neg hread]
      exact (zero_add _).symm

theorem values_sent (hranks : ∀ e ∈ sent, e.2.IsRead → e.2.rank < cfg.numRanks) {T : ℕ}
    (h : ReadPipes cfg T sent s.ranks) :
    values BusPacket.physicalAddress (dataOf BusPacket.IsRead sent) =
      values BusPacket.physicalAddress (due cfg BusPacket.IsRead T sent) +
        ∑ r ∈ Finset.range cfg.numRanks,
          ((s.ranks r).readReturnPacket : Multiset BusPacket).map BusPacket.physicalAddress +
        ∑ r ∈ Finset.range cfg.numRanks,
          ((s.ranks r).outgoingDataPacket.toList : Multiset BusPacket).map BusPacket.physicalAddress := by
  rw [due, ← sum_readOf hranks, ← sum_readOf_filter (fun t => t + cfg.readLine + cfg.burst ≤ T) hranks,
    ← Finset.sum_add_distrib, ← Finset.sum_add_distrib]
  apply Finset.sum_congr rfl
  intro r hr
  obtain ⟨done, slot, wait, hflow, hcarries⟩ := h r (Finset.mem_range.mp hr)
  rw [← hflow.done_eq, hflow.entries_eq, values_append, values_append, hcarries.bus_eq,
    hcarries.packets_eq, add_assoc,
    add_comm (values BusPacket.physicalAddress slot.toList)]
  refine congrArg (_ + ·) (congrArg₂ (· + ·) ?_ ?_)
  · rw [Multiset.map_coe, List.map_map]
    rfl
  · cases slot with
    | none => rfl
    | some e => rfl

/-- **The ledger of a run.** -/
structure Ledger (cfg : Config) (s : MemorySystem) : Prop where
  requests : Requests cfg s
  home : Home cfg s
  sent : Sent s

theorem ledger_run (hpolicy : cfg.rowBufferPolicy = .closePage) (htCMD : cfg.tCMD = 1) {actions : List Action}
    (h : run cfg actions = .ok s) : Ledger cfg s := by
  induction actions using List.reverseRecOn generalizing s with
  | nil =>
      cases h
      exact ⟨Requests.init cfg, rfl, rfl⟩
  | append_singleton acts action ih =>
      rw [run_concat] at h
      obtain ⟨t, ht, hact⟩ := bind_ok h
      obtain ⟨hrequests, hhome, hsent⟩ := ih ht
      rcases act_ok hact with ⟨-, hupdate⟩ | ⟨hne, hwaits, -⟩
      · obtain ⟨sent, hflight⟩ := inFlight_run hpolicy htCMD ht
        have hcontrol := control_run hpolicy htCMD ht
        exact ⟨hrequests.update hpolicy hcontrol hupdate,
          hhome.update hpolicy htCMD hcontrol (calm_run htCMD ht).1.data
          (issued_ranks hpolicy htCMD ht) hflight hupdate, hsent.update hupdate⟩
      · obtain ⟨hwrites, hreturns, -⟩ := act_frame hne hact
        refine ⟨hrequests.taken (congrArg _ hwaits.queue_eq) hwaits.issued_eq hreturns.pending_eq
          hreturns.returned_eq
          hwaits.taken, ?_, hsent.of_same hwaits.issued_eq hwrites⟩
        rw [Home, returnedAddresses, hreturns.returned_eq, hreturns.return_eq, hwaits.clock_eq,
          hwaits.issued_eq]
        exact hhome

theorem Ledger.conserved (hranks : ∀ e ∈ s.history.issued, e.2.IsColumn → e.2.rank < cfg.numRanks)
    (hcontrol : Control cfg s)
    (hflight : InFlight cfg sent s) (h : Ledger cfg s) : Conserved cfg s where
  pending := by
    have hsent := hflight.arrived.ranks hranks hcontrol
    have hpending := h.requests.pending
    rw [asked, values_arrived _ (fun _ => rfl) hflight.arrived, values_sent hsent hflight.pipes,
      ← due_arrived hflight.arrived (Nat.le_succ _), ← h.home] at hpending
    rw [readsOnTheirWay]
    refine add_right_cancel (b := returnedAddresses s) (hpending.trans ?_)
    abel
  reads := h.requests.reads
  writes := by
    have hvalues : values BusPacket.written (dataOf BusPacket.IsWrite s.history.issued) =
        (s.history.written.map Prod.snd : Multiset BusPacket).map BusPacket.written +
          ((s.memoryController.outgoingDataPacket.toList : Multiset BusPacket).map BusPacket.written +
            (s.memoryController.writeDataToSend : Multiset BusPacket).map BusPacket.written) := by
      rw [← Multiset.map_add, ← Multiset.map_add, Multiset.coe_add, Multiset.coe_add, ← h.sent,
        Multiset.map_coe,
        List.map_map]
      rfl
    rw [h.requests.writes, asked, hvalues, writesInPlaces]
    abel

theorem Ledger.toReturn_le (hranks : ∀ e ∈ s.history.issued, e.2.IsColumn → e.2.rank < cfg.numRanks)
    (hcontrol : Control cfg s) (hflight : InFlight cfg sent s) (h : Ledger cfg s) :
    (toReturn cfg sent s : Multiset Transaction).map Transaction.address ≤
      (s.memoryController.pendingReadTransactions : Multiset Transaction).map Transaction.address := by
  have hdue : values BusPacket.physicalAddress
        (due cfg BusPacket.IsRead (s.memoryController.currentClockCycle + 1) s.history.issued) ≤
      values BusPacket.physicalAddress (dataOf BusPacket.IsRead s.history.issued) :=
    Multiset.coe_le.mpr ((List.filter_sublist).map _).subperm
  apply le_of_add_le_add_left (a := returnedAddresses s)
  calc returnedAddresses s + (toReturn cfg sent s : Multiset Transaction).map Transaction.address
      = values BusPacket.physicalAddress
          (due cfg BusPacket.IsRead (s.memoryController.currentClockCycle + 1) s.history.issued) :=
        h.home.toReturn hranks hcontrol hflight
    _ ≤ asked cfg BusPacket.IsRead BusPacket.physicalAddress s := hdue.trans (Multiset.le_add_left _ _)
    _ = returnedAddresses s +
          (s.memoryController.pendingReadTransactions : Multiset Transaction).map Transaction.address := by
        rw [← h.requests.pending, add_comm]

/-- **What comes back is matched**: no update looks in vain for a pending read. -/
theorem Ledger.no_unmatched (htCMD : cfg.tCMD = 1)
    (hranks : ∀ e ∈ s.history.issued, e.2.IsColumn → e.2.rank < cfg.numRanks) (hcontrol : Control cfg s)
    (hflight : InFlight cfg sent s) (h : Ledger cfg s) :
    s.update cfg ≠ .error .noMatchingTransaction := by
  intro hupdate
  cases update_fails hupdate with
  | ranks h => rcases ranks_exits h with h | h <;> cases h
  | sendCommand _ h => exact absurd (sendCommand_exits h) (by decide)
  | sendWriteData _ _ h => exact absurd (sendWriteData_exits h) (by decide)
  | startWriteData _ _ _ h => rcases startWriteData_exits h with h | h <;> cases h
  | popCommand hprepared h => rcases popCommand_exits hprepared.idle h with h | h | h | h | h <;> cases h
  | schedule _ _ h => rcases schedule_exits h with h | h | h <;> cases h
  | returnData h₁ h₂ h₃ h₄ h₅ h₆ hreturn =>
      obtain ⟨-, hback, -⟩ := hflight.phases htCMD hcontrol h₁ h₂
      obtain ⟨hpending, -⟩ := ranks_pending h₁
      have hsame := (sameReturns_of_phases h₂ h₃ h₄).trans (sameReturns_popCommand h₅)
      obtain ⟨hreturn₆, -, hinit⟩ := schedule_returns h₆
      obtain ⟨r, rest, hfirst, hnone⟩ := returnData_error (map_error hreturn)
      have hmem : r.address ∈ (toReturn cfg sent s : Multiset Transaction).map Transaction.address := by
        rw [← hback, ← hsame.return_eq, ← hreturn₆]
        change r.address ∈ (((_ : MemorySystem).addBackgroundEnergy cfg).memoryController.returnTransaction :
          Multiset Transaction).map _
        rw [hfirst]
        exact Multiset.mem_map_of_mem _ (List.mem_cons_self)
      obtain ⟨x, hx, haddress⟩ := Multiset.mem_map.mp
          (Multiset.mem_of_le (h.toReturn_le hranks hcontrol hflight) hmem)
      refine hnone x (hinit.subset ?_) haddress
      rw [hsame.pending_eq, hpending]
      exact hx

/-- **The conservation of transactions.** In every state that a run reaches, each accepted read and write is
in one place, and the abort for want of a matching transaction is not reached. -/
theorem conservation (cfg : Config) (hpolicy : cfg.rowBufferPolicy = .closePage) (htCMD : cfg.tCMD = 1)
    (actions : List Action) : (∀ s, run cfg actions = .ok s → Conserved cfg s) ∧
      run cfg actions ≠ .error .noMatchingTransaction := by
  constructor
  · intro s h
    obtain ⟨sent, hflight⟩ := inFlight_run hpolicy htCMD h
    exact (ledger_run hpolicy htCMD h).conserved (issued_ranks hpolicy htCMD h)
      (control_run hpolicy htCMD h) hflight
  · intro h
    obtain ⟨before, action, behind, s, -, hbefore, hfails⟩ := foldlM_error h
    cases action with
    | update =>
        obtain ⟨sent, hflight⟩ := inFlight_run hpolicy htCMD hbefore
        exact (ledger_run hpolicy htCMD hbefore).no_unmatched htCMD (issued_ranks hpolicy htCMD hbefore)
          (control_run hpolicy htCMD hbefore) hflight hfails
    | addTransaction transaction => cases hfails
    | request isWrite addr => cases hfails
    | resetStats => cases hfails

/-- With the devices of the example, while the read of a client is on its way. -/
theorem conservation_ddr2 : ∃ s, run (ddr2Micron 1 (by decide)) writeThenRead = .ok s ∧
    s.memoryController.pendingReadTransactions.length = 1 ∧ Conserved (ddr2Micron 1 (by decide)) s := by
  have hrun : ∃ s, run (ddr2Micron 1 (by decide)) writeThenRead = .ok s ∧
      s.memoryController.pendingReadTransactions.length = 1 := by decide +kernel
  obtain ⟨s, hs, hpending⟩ := hrun
  exact ⟨s, hs, hpending, (conservation (ddr2Micron 1 (by decide)) rfl rfl writeThenRead).1 s hs⟩

end MemorySystem

end RacerArtifacts.Mram
