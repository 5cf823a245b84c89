import RacerArtifacts.MramDataLine

/-! What the schedule of the close-page policy does not depend on: rows, columns, addresses and data. A pop
of queues without them pops the same command without them, so that two runs whose transactions agree in
their cycles, types, ranks and banks issue the same commands in the same cycles. -/

namespace RacerArtifacts.Mram

open Fallible RoundRobin MemoryController

variable {cfg : Config}

/-- A packet without its row, column, address and data. -/
def BusPacket.erase (p : BusPacket) : BusPacket :=
  { p with column := 0, row := 0, physicalAddress := 0, data := 0 }

theorem BusPacket.erase_eq_iff {p q : BusPacket} :
    p.erase = q.erase ↔ p.busPacketType = q.busPacketType ∧ p.rank = q.rank ∧ p.bank = q.bank := by
  constructor
  · intro h
    change p.erase.busPacketType = q.erase.busPacketType ∧ p.erase.rank = q.erase.rank ∧
      p.erase.bank = q.erase.bank
    rw [h]
    exact ⟨rfl, rfl, rfl⟩
  · rintro ⟨htype, hrank, hbank⟩
    rw [erase, erase, htype, hrank, hbank]

theorem first_unique {α : Type*} {P : α → Prop} {front front' rest rest' : List α} {x x' : α}
    (h : front ++ x :: rest = front' ++ x' :: rest') (hfront : ∀ y ∈ front, ¬ P y)
    (hfront' : ∀ y ∈ front', ¬ P y)
    (hx : P x) (hx' : P x') : front = front' ∧ x = x' ∧ rest = rest' := by
  induction front generalizing front' with
  | nil =>
      cases front' with
      | nil =>
          cases h
          exact ⟨rfl, rfl, rfl⟩
      | cons y front' =>
          cases h
          exact absurd hx (hfront' x List.mem_cons_self)
  | cons y front ih =>
      cases front' with
      | nil =>
          cases h
          exact absurd hx' (hfront x' List.mem_cons_self)
      | cons y' front' =>
          rw [List.cons_append, List.cons_append] at h
          obtain ⟨rfl, htail⟩ := List.cons.inj h
          obtain ⟨rfl, hrest⟩ := ih htail (fun z hz => hfront z (List.mem_cons_of_mem _ hz))
            fun z hz => hfront' z (List.mem_cons_of_mem _ hz)
          exact ⟨rfl, hrest⟩

namespace CommandQueue

variable {bankStates : BankStates} {cq : CommandQueue}

/-- The queues without rows, columns, addresses and data. -/
def erase (cq : CommandQueue) : CommandQueue :=
  { cq with queues := fun r b => (cq.queues r b).map BusPacket.erase }

theorem isIssuable_erase (p : BusPacket) :
    cq.erase.isIssuable cfg bankStates p.erase = cq.isIssuable cfg bankStates p :=
  rfl

theorem erase_setCommandQueue (cq : CommandQueue) (rank bank : ℕ) (queue : List BusPacket) :
    (cq.setCommandQueue cfg rank bank queue).erase =
      cq.erase.setCommandQueue cfg rank bank (queue.map BusPacket.erase) := by
  rw [erase, setCommandQueue, setCommandQueue]
  congr 1
  funext r b
  dsimp only
  by_cases hr : r = rank
  · subst hr
    rw [Function.update_self, Function.update_self]
    by_cases hb : b = cfg.slot bank
    · subst hb
      rw [Function.update_self, Function.update_self]
    · rw [Function.update_of_ne hb, Function.update_of_ne hb]
      rfl
  · rw [Function.update_of_ne hr, Function.update_of_ne hr]
    rfl

theorem hasRoomFor_erase (cq : CommandQueue) (n rank bank : ℕ) :
    cq.erase.hasRoomFor cfg n rank bank = cq.hasRoomFor cfg n rank bank := by
  have hlength : (cq.erase.getCommandQueue cfg rank bank).length =
      (cq.getCommandQueue cfg rank bank).length :=
    List.length_map _
  rw [hasRoomFor, hasRoomFor, hlength]

theorem erase_advance (cq : CommandQueue) : (cq.advance cfg).erase = cq.erase.advance cfg := by
  rw [advance, advance]
  cases cfg.queuingStructure with
  | perRank => rfl
  | perRankPerBank => rfl

theorem erase_afterPop (cq : CommandQueue) (p : BusPacket) :
    (cq.afterPop cfg p).erase = cq.erase.afterPop cfg p.erase := by
  let window : CommandQueue → BusPacket → CommandQueue := fun t p =>
    if p.busPacketType = .activate then
      { t with
        tFAWCountdown := Function.update t.tFAWCountdown p.rank (t.tFAWCountdown p.rank ++ [cfg.tFAW]) }
    else t
  have hlast : ∀ t : CommandQueue, (window t p).erase = window t.erase p.erase := by
    intro t
    dsimp only [window]
    by_cases htype : p.busPacketType = .activate
    · rw [if_pos htype, if_pos (show p.erase.busPacketType = .activate from htype)]
      rfl
    · rw [if_neg htype, if_neg (show ¬ p.erase.busPacketType = .activate from htype)]
  rw [afterPop, afterPop]
  by_cases hact : cfg.AL > 0 ∧ cq.sendAct = true
  · rw [if_pos hact, if_pos (show cfg.AL > 0 ∧ cq.erase.sendAct = true from hact)]
    exact hlast _
  · rw [if_neg hact, if_neg (show ¬ (cfg.AL > 0 ∧ cq.erase.sendAct = true) from hact)]
    exact hlast _

/-- The search through a queue, where no packet is paired with an activate. -/
theorem takeIssuable_erase {issuable issuable' : BusPacket → Except Exit Bool} {front queue : List BusPacket}
    (hissuable : ∀ p, issuable' p.erase = issuable p) (hfront : ∀ p ∈ front, p.IsColumn)
    (hqueue : ∀ p ∈ queue, p.IsColumn) :
    takeIssuable issuable' pairedWithActivate (front.map BusPacket.erase) (queue.map BusPacket.erase) =
      (takeIssuable issuable pairedWithActivate front queue).map (Option.map fun found =>
        (found.1.map BusPacket.erase, found.2.1.erase, found.2.2.map BusPacket.erase)) := by
  induction queue generalizing front with
  | nil => rfl
  | cons p queue ih =>
      have hfront' : ∀ x ∈ front ++ [p], x.IsColumn := by
        intro x hx
        rcases List.mem_append.mp hx with hx | hx
        · exact hfront x hx
        · rw [List.mem_singleton.mp hx]
          exact hqueue p List.mem_cons_self
      have hnext := ih hfront' fun x hx => hqueue x (List.mem_cons_of_mem _ hx)
      rw [List.map_append, List.map_singleton] at hnext
      have herased : ∀ x ∈ front.map BusPacket.erase, x.IsColumn := by
        intro x hx
        obtain ⟨y, hy, rfl⟩ := List.mem_map.mp hx
        exact hfront y hy
      rw [List.map_cons, takeIssuable, takeIssuable, hissuable, pairedWithActivate_eq_false hfront,
        pairedWithActivate_eq_false herased]
      cases issuable p with
      | error e => rfl
      | ok b =>
          cases b with
          | true => rfl
          | false => exact hnext

/-- A look at queues without rows finds the same command, without its row. -/
theorem findClosePage_erase (hcolumn : ∀ r b, ∀ p ∈ cq.queues r b, p.IsColumn) :
    cq.erase.findClosePage cfg bankStates =
      (cq.findClosePage cfg bankStates).map (Option.map (Prod.map BusPacket.erase erase)) := by
  have hqueue : cq.erase.getCommandQueue cfg cq.nextRank cq.nextBank =
      (cq.getCommandQueue cfg cq.nextRank cq.nextBank).map BusPacket.erase := rfl
  have hlook : cq.erase.mayLook cfg = cq.mayLook cfg := by
    rw [mayLook, mayLook]
    change (!(cq.erase.getCommandQueue cfg cq.nextRank cq.nextBank).isEmpty && _) = _
    rw [hqueue, List.isEmpty_map]
    rfl
  rw [findClosePage, findClosePage, hlook]
  by_cases hmay : cq.mayLook cfg = true
  swap
  · rw [if_neg hmay, if_neg hmay]
    rfl
  rw [if_pos hmay, if_pos hmay]
  rw [show cq.erase.getCommandQueue cfg cq.erase.nextRank cq.erase.nextBank =
    (cq.getCommandQueue cfg cq.nextRank cq.nextBank).map BusPacket.erase from rfl]
  cases cfg.queuingStructure with
  | perRank =>
      dsimp only
      have htake : takeIssuable (cq.erase.isIssuable cfg bankStates) pairedWithActivate []
          ((cq.getCommandQueue cfg cq.nextRank cq.nextBank).map BusPacket.erase) =
          (takeIssuable (cq.isIssuable cfg bankStates) pairedWithActivate []
            (cq.getCommandQueue cfg cq.nextRank cq.nextBank)).map (Option.map fun found =>
              (found.1.map BusPacket.erase, found.2.1.erase, found.2.2.map BusPacket.erase)) :=
        takeIssuable_erase isIssuable_erase (fun p (hp : p ∈ []) => by cases hp)
          (hcolumn cq.nextRank (cfg.slot cq.nextBank))
      rw [htake]
      cases takeIssuable (cq.isIssuable cfg bankStates) pairedWithActivate []
          (cq.getCommandQueue cfg cq.nextRank cq.nextBank) with
      | error e => rfl
      | ok found =>
          cases found with
          | none => rfl
          | some found =>
              obtain ⟨front, p, rest⟩ := found
              change Except.ok (some (p.erase, cq.erase.setCommandQueue cfg cq.nextRank cq.nextBank
                (front.map BusPacket.erase ++ rest.map BusPacket.erase))) = Except.ok (some (p.erase,
                  (cq.setCommandQueue cfg cq.nextRank cq.nextBank (front ++ rest)).erase))
              rw [erase_setCommandQueue, List.map_append]
  | perRankPerBank =>
      cases hlist : cq.getCommandQueue cfg cq.nextRank cq.nextBank with
      | nil => rfl
      | cons p rest =>
          change (cq.erase.isIssuable cfg bankStates p.erase).map _ =
            ((cq.isIssuable cfg bankStates p).map _).map _
          rw [isIssuable_erase]
          cases cq.isIssuable cfg bankStates p with
          | error e => rfl
          | ok issuable =>
              cases issuable with
              | false => rfl
              | true =>
                  change Except.ok (some (p.erase, cq.erase.setCommandQueue cfg cq.nextRank cq.nextBank
                    (rest.map BusPacket.erase))) = Except.ok (some (p.erase,
                      (cq.setCommandQueue cfg cq.nextRank cq.nextBank rest).erase))
                  rw [erase_setCommandQueue]

/-- **A pop without rows** pops the same command, without its row. -/
theorem pop_erase (hpolicy : cfg.rowBufferPolicy = .closePage)
    (hidle : ∀ r b, (bankStates r b).currentBankState = .idle)
    (hcolumn : ∀ r b, ∀ p ∈ cq.queues r b, p.IsColumn) :
    cq.erase.pop cfg bankStates = (cq.pop cfg bankStates).map
      (Prod.map (Option.map BusPacket.erase) erase) := by
  have hsearch : cq.erase.tickWindow.search cfg bankStates =
      (cq.tickWindow.search cfg bankStates).map (Prod.map (Option.map BusPacket.erase) erase) := by
    have hscan : scan (findClosePage cfg bankStates) (advance cfg) (fun t => t.backAt cfg cq.erase.tickWindow)
        .scanDoesNotEnd (cfg.numRanks * cfg.numBanks) cq.tickWindow.erase =
          (scan (findClosePage cfg bankStates) (advance cfg)
          (fun t => t.backAt cfg cq.tickWindow) .scanDoesNotEnd
          (cfg.numRanks * cfg.numBanks) cq.tickWindow).map
            (Prod.map (Option.map (Prod.map BusPacket.erase erase)) erase) := by
      refine scan_map (fun t : CommandQueue => ∀ r b, ∀ p ∈ t.queues r b, p.IsColumn) erase
        (Prod.map BusPacket.erase erase) (fun t ht => ?_) (fun t ht => findClosePage_erase ht)
        (fun t => (erase_advance t).symm) (fun t => rfl) (by exact hcolumn)
      rw [(same_advance cfg t).queues_eq]
      exact ht
    rw [search, search, hpolicy]
    change cq.erase.tickWindow.roundRobin cfg _ = (cq.tickWindow.roundRobin cfg _).map _
    rw [roundRobin, roundRobin]
    change Except.map _ (scan (findClosePage cfg bankStates) (advance cfg)
      (fun t => t.backAt cfg cq.erase.tickWindow) .scanDoesNotEnd (cfg.numRanks * cfg.numBanks)
      cq.tickWindow.erase) = _
    rw [hscan]
    cases scan (findClosePage cfg bankStates) (advance cfg)
      (fun t => t.backAt cfg cq.tickWindow) .scanDoesNotEnd
        (cfg.numRanks * cfg.numBanks) cq.tickWindow with
    | error e => rfl
    | ok found =>
        obtain ⟨found, t⟩ := found
        cases found with
        | none => rfl
        | some found => rfl
  rw [pop_idle hidle, pop_idle hidle, hsearch]
  by_cases hgoes : RefreshGoes cfg bankStates cq
  · rw [if_pos hgoes, if_pos (show RefreshGoes cfg bankStates cq.erase from hgoes)]
    refine congrArg Except.ok (Prod.ext rfl ?_)
    exact (erase_afterPop { cq.tickWindow with refreshRank := 2 ^ 32 - 1, refreshWaiting := false }
      (refreshPacket cq.refreshRank)).symm
  · rw [if_neg hgoes, if_neg (show ¬ RefreshGoes cfg bankStates cq.erase from hgoes)]
    cases cq.tickWindow.search cfg bankStates with
    | error e => rfl
    | ok found =>
        obtain ⟨sent, t⟩ := found
        cases sent with
        | none => rfl
        | some p =>
            refine congrArg Except.ok (Prod.ext rfl ?_)
            exact (erase_afterPop t p).symm

end CommandQueue

namespace MemoryController

variable {mc mc' u u' : MemoryController}

/-- The banks after a command depend on its type, rank and bank only, unless it opens a row. -/
theorem updateBanks_erase {p p' : BusPacket} (hbanks : mc'.bankStates = mc.bankStates)
    (hclock : mc'.currentClockCycle = mc.currentClockCycle) (hp : p'.erase = p.erase)
    (hrow : p.busPacketType ≠ .activate) (h : mc.updateBanks cfg p = .ok u)
    (h' : mc'.updateBanks cfg p' = .ok u') :
    u'.bankStates = u.bankStates := by
  obtain ⟨htype, hrank, hbank⟩ := BusPacket.erase_eq_iff.mp hp
  have hconstrain : ∀ target same other,
      mc'.constrain p' target same other = mc.constrain p target same other := by
    intro target same other
    funext i j
    rw [constrain, constrain, hbanks, hrank, hbank]
  rw [updateBanks] at h h'
  cases hcommand : p.busPacketType with
  | activate => exact absurd hcommand hrow
  | data =>
      simp only [hcommand] at h
      cases h
  | refresh =>
      simp only [htype, hcommand] at h h'
      cases h
      cases h'
      dsimp only
      rw [hbanks, hclock, hrank]
  | precharge =>
      simp only [htype, hcommand] at h h'
      cases h
      cases h'
      dsimp only
      rw [hbanks, hclock, hrank, hbank]
  | _ =>
      simp only [htype, hcommand] at h h'
      cases h
      cases h'
      dsimp only
      rw [hconstrain, hclock]

end MemoryController

/-- What the schedule sees of a transaction. -/
def Transaction.view (cfg : Config) (transaction : Transaction) : ℕ × TransactionType × ℕ × ℕ :=
  let place := addressMapping cfg transaction.address 0
  (transaction.timeAdded, transaction.transactionType, place.rank, place.bank)

/-- What is compared of a command that was issued. -/
def BusPacket.view (issued : ℕ × BusPacket) : ℕ × BusPacketType × ℕ × ℕ :=
  (issued.1, issued.2.busPacketType, issued.2.rank, issued.2.bank)

namespace MemorySystem

variable {s s' t t' u u' : MemorySystem}

/-- Two states at which the same command comes next, if the transactions of the cycle agree. -/
structure Alike (cfg : Config) (s s' : MemorySystem) : Prop where
  queue_eq : s'.memoryController.commandQueue.erase = s.memoryController.commandQueue.erase
  banks_eq : s'.memoryController.bankStates = s.memoryController.bankStates
  clock_eq : s'.memoryController.currentClockCycle = s.memoryController.currentClockCycle
  refreshRank_eq : s'.memoryController.refreshRank = s.memoryController.refreshRank
  countdown_eq : s'.memoryController.refreshCountdown = s.memoryController.refreshCountdown
  issued_eq : s'.history.issued.map BusPacket.view = s.history.issued.map BusPacket.view

theorem checkRefresh_erase (h : Alike cfg s s') :
    (s'.checkRefresh cfg).memoryController.commandQueue.erase =
      (s.checkRefresh cfg).memoryController.commandQueue.erase ∧
      (s'.checkRefresh cfg).memoryController.refreshRank = (s.checkRefresh cfg).memoryController.refreshRank ∧
      (s'.checkRefresh cfg).memoryController.refreshCountdown =
        (s.checkRefresh cfg).memoryController.refreshCountdown := by
  refine ⟨?_, checkRefresh_bookkeeping cfg h.refreshRank_eq h.countdown_eq⟩
  rw [checkRefresh, checkRefresh, h.countdown_eq, h.refreshRank_eq]
  by_cases hzero : s.memoryController.refreshCountdown s.memoryController.refreshRank = 0
  · rw [if_pos hzero, if_pos hzero]
    change s'.memoryController.commandQueue.erase.needRefresh s.memoryController.refreshRank =
      s.memoryController.commandQueue.erase.needRefresh s.memoryController.refreshRank
    rw [h.queue_eq]
  · rw [if_neg hzero, if_neg hzero]
    split_ifs <;> exact h.queue_eq

/-- **The pops of two states that are alike** find the same command, without its row. -/
theorem popCommand_alike (hpolicy : cfg.rowBufferPolicy = .closePage) (h : Alike cfg t t')
    (hidle : ∀ r b, (t.memoryController.bankStates r b).currentBankState = .idle)
    (hcolumn : ∀ r b, ∀ p ∈ t.memoryController.commandQueue.queues r b, p.IsColumn)
    (hcolumn' : ∀ r b, ∀ p ∈ t'.memoryController.commandQueue.queues r b, p.IsColumn)
    (hpop : t.popCommand cfg = .ok u) (hpop' : t'.popCommand cfg = .ok u') : Alike cfg u u' := by
  have hidle' : ∀ r b, (t'.memoryController.bankStates r b).currentBankState = .idle := by
    rw [h.banks_eq]
    exact hidle
  obtain ⟨found, cq, hfound, hcases⟩ := popCommand_split hpop
  obtain ⟨found', cq', hfound', hcases'⟩ := popCommand_split hpop'
  have hsame : found'.map BusPacket.erase = found.map BusPacket.erase ∧ cq'.erase = cq.erase := by
    have herased := CommandQueue.pop_erase hpolicy hidle hcolumn
    have herased' := CommandQueue.pop_erase hpolicy hidle' hcolumn'
    rw [hfound] at herased
    rw [hfound', h.queue_eq, h.banks_eq, herased] at herased'
    have heq := Except.ok.inj herased'
    exact ⟨(congrArg Prod.fst heq).symm, (congrArg Prod.snd heq).symm⟩
  obtain ⟨hpacket, hqueue⟩ := hsame
  rcases hcases with ⟨rfl, rfl⟩ | ⟨p, banks, burst, actpre, refresh, rfl, -, hupdate, rfl⟩
  · rcases hcases' with ⟨-, rfl⟩ | ⟨_, _, _, _, _, rfl, -⟩
    · exact ⟨hqueue, h.banks_eq, h.clock_eq, h.refreshRank_eq, h.countdown_eq, h.issued_eq⟩
    · cases hpacket
  · rcases hcases' with ⟨rfl, -⟩ | ⟨p', banks', burst', actpre', refresh', rfl, -, hupdate', rfl⟩
    · cases hpacket
    · have hp : p'.erase = p.erase := Option.some.inj hpacket
      have hrow : p.busPacketType ≠ .activate := by
        intro hactivate
        rcases (CommandQueue.pop_drawn hidle hfound).found p rfl with ⟨r, b, hmem⟩ | ⟨-, hrefresh⟩
        · rcases hcolumn r b p hmem with htype | htype
          · rw [htype] at hactivate
            cases hactivate
          · rw [htype] at hactivate
            cases hactivate
        · rw [hrefresh] at hactivate
          cases hactivate
      rw [queueWriteData_eq] at hupdate hupdate'
      have hbanks := updateBanks_erase (by exact h.banks_eq) (by exact h.clock_eq) hp hrow hupdate hupdate'
      obtain ⟨htype, hrank, hbank⟩ := BusPacket.erase_eq_iff.mp hp
      refine ⟨hqueue, hbanks, h.clock_eq, h.refreshRank_eq, h.countdown_eq, ?_⟩
      change (t'.history.issued ++ [(t'.memoryController.currentClockCycle, p')]).map BusPacket.view =
        (t.history.issued ++ [(t.memoryController.currentClockCycle, p)]).map BusPacket.view
      rw [List.map_append, List.map_append, h.issued_eq, List.map_singleton, List.map_singleton,
        BusPacket.view,
        BusPacket.view, h.clock_eq, htype, hrank, hbank]

/-- What waits to be scheduled is alike. -/
def WaitsAlike (cfg : Config) (s s' : MemorySystem) : Prop :=
  s'.memoryController.transactionQueue.map (Transaction.view cfg) =
    s.memoryController.transactionQueue.map (Transaction.view cfg)

/-- **Of two queues that are alike the same transaction is scheduled**, without its row. -/
theorem schedule_alike (hpolicy : cfg.rowBufferPolicy = .closePage) (h : Alike cfg t t')
    (hwaits : WaitsAlike cfg t t') (hschedule : t.schedule cfg = .ok u)
    (hschedule' : t'.schedule cfg = .ok u') :
    Alike cfg u u' ∧ WaitsAlike cfg u u' := by
  let Room : ℕ × TransactionType × ℕ × ℕ → Prop := fun view =>
    t.memoryController.commandQueue.hasRoomFor cfg 1 view.2.2.1 view.2.2.2 = .ok true
  have hroom : ∀ rank bank, t'.memoryController.commandQueue.hasRoomFor cfg 1 rank bank =
      t.memoryController.commandQueue.hasRoomFor cfg 1 rank bank := by
    intro rank bank
    rw [← CommandQueue.hasRoomFor_erase, h.queue_eq, CommandQueue.hasRoomFor_erase]
  have hfull : ∀ {front : List Transaction}, (∀ x ∈ front, t.memoryController.commandQueue.hasRoomFor cfg 1
      (addressMapping cfg x.address 0).rank (addressMapping cfg x.address 0).bank = .ok false) →
      ∀ view ∈ front.map (Transaction.view cfg), ¬ Room view := by
    intro front hfront view hview hroom
    obtain ⟨x, hx, rfl⟩ := List.mem_map.mp hview
    have hbad := (hfront x hx).symm.trans hroom
    cases hbad
  obtain ⟨mc, hmc, rfl⟩ := map_ok hschedule
  obtain ⟨mc', hmc', rfl⟩ := map_ok hschedule'
  rw [WaitsAlike] at hwaits
  rcases scheduleFrom_split (fun x hx => by cases hx) rfl hmc with
    ⟨rfl, hnone⟩ | ⟨before, x, rest, bpType, hsplit, hbefore, hx, htype, rfl⟩
  · rcases scheduleFrom_split (fun x hx => by cases hx) rfl hmc' with
      ⟨rfl, -⟩ | ⟨before', x', rest', _, hsplit', -, hx', -, -⟩
    · exact ⟨h, hwaits⟩
    · rw [hroom] at hx'
      refine absurd hx' (hfull hnone (x'.view cfg) ?_)
      rw [← hwaits, hsplit']
      exact List.mem_map_of_mem (List.mem_append_right _ List.mem_cons_self)
  · rcases scheduleFrom_split (fun x hx => by cases hx) rfl hmc' with
      ⟨rfl, hnone'⟩ | ⟨before', x', rest', bpType', hsplit', hbefore', hx', htype', rfl⟩
    · simp only [hroom] at hnone'
      refine absurd hx (hfull hnone' (x.view cfg) ?_)
      rw [hwaits, hsplit]
      exact List.mem_map_of_mem (List.mem_append_right _ List.mem_cons_self)
    · simp only [hroom] at hbefore' hx'
      rw [hsplit, hsplit', List.map_append, List.map_append, List.map_cons, List.map_cons] at hwaits
      obtain ⟨hfront, hview, hrest⟩ := first_unique (P := Room) hwaits (hfull hbefore') (hfull hbefore) hx' hx
      have htransaction : x'.transactionType = x.transactionType := congrArg (fun view => view.2.1) hview
      have hrank : (addressMapping cfg x'.address 0).rank = (addressMapping cfg x.address 0).rank :=
        congrArg (fun view => view.2.2.1) hview
      have hbank : (addressMapping cfg x'.address 0).bank = (addressMapping cfg x.address 0).bank :=
        congrArg (fun view => view.2.2.2) hview
      refine ⟨⟨?_, h.banks_eq, h.clock_eq, h.refreshRank_eq, h.countdown_eq, h.issued_eq⟩, ?_⟩
      · have hpacket : (x'.packet cfg bpType' x'.data).erase = (x.packet cfg bpType x.data).erase := by
          rw [(getBusPacketType_ok htype).2.2 hpolicy, (getBusPacketType_ok htype').2.2 hpolicy]
          exact BusPacket.erase_eq_iff.mpr ⟨congrArg requestType htransaction, hrank, hbank⟩
        have hqueue : (t'.memoryController.commandQueue.getCommandQueue cfg
            (addressMapping cfg x.address 0).rank
            (addressMapping cfg x.address 0).bank).map BusPacket.erase =
            (t.memoryController.commandQueue.getCommandQueue cfg (addressMapping cfg x.address 0).rank
              (addressMapping cfg x.address 0).bank).map BusPacket.erase :=
          congrArg (fun cq : CommandQueue => cq.getCommandQueue cfg (addressMapping cfg x.address 0).rank
            (addressMapping cfg x.address 0).bank) h.queue_eq
        dsimp only
        rw [hrank, hbank, CommandQueue.erase_setCommandQueue, CommandQueue.erase_setCommandQueue, h.queue_eq,
          List.map_append, List.map_append, hqueue, List.map_singleton, List.map_singleton, hpacket]
      · rw [WaitsAlike]
        dsimp only
        rw [List.map_append, List.map_append, hfront, hrest]

/-- The transactions that a cycle takes, in its queue and in its record. -/
theorem Opened.takes (h : Opened cfg s t) :
    ∃ taken, t.memoryController.transactionQueue = s.memoryController.transactionQueue ++ taken ∧
      t.history.accepted = s.history.accepted ++ taken ∧
      ∀ x ∈ taken, x.timeAdded = s.memoryController.currentClockCycle := by
  obtain ⟨taken, hqueue, haccepted⟩ := h.taken
  obtain ⟨taken', haccepted', htime⟩ := h.taken_time
  obtain rfl := List.append_cancel_left (haccepted.symm.trans haccepted')
  exact ⟨taken, hqueue, haccepted, htime⟩

theorem popCommand_transactions (h : t.popCommand cfg = .ok u) :
    u.memoryController.transactionQueue = t.memoryController.transactionQueue ∧
      u.history.accepted = t.history.accepted := by
  obtain ⟨found, cq, -, ⟨-, rfl⟩ | ⟨p, _, _, _, _, -, -, -, rfl⟩⟩ := popCommand_split h
  · exact ⟨rfl, rfl⟩
  · exact ⟨rfl, rfl⟩

theorem schedule_accepted (h : t.schedule cfg = .ok u) : u.history.accepted = t.history.accepted := by
  obtain ⟨mc, -, rfl⟩ := map_ok h
  rfl

/-- What an update adds to the record of the transactions is of its cycle. -/
theorem update_takes (h : s.update cfg = .ok s') :
    s'.memoryController.currentClockCycle = s.memoryController.currentClockCycle + 1 ∧
      ∃ taken, s'.history.accepted = s.history.accepted ++ taken ∧
        ∀ x ∈ taken, x.timeAdded = s.memoryController.currentClockCycle := by
  obtain ⟨t, t', u, hopened, hpop, hschedule, hclosed⟩ := update_cycle h
  obtain ⟨taken, -, haccepted, htime⟩ := hopened.takes
  refine ⟨?_, taken, ?_, htime⟩
  · obtain ⟨mc, hmc, rfl⟩ := map_ok hschedule
    have hclock : mc.currentClockCycle = t'.memoryController.currentClockCycle := by
      rcases scheduleFrom_split (fun x hx => by cases hx) rfl hmc with
        ⟨rfl, -⟩ | ⟨_, _, _, _, -, -, -, -, rfl⟩
      · rfl
      · rfl
    rw [hclosed.clock_eq, ← hopened.clock_eq]
    obtain ⟨found, cq, -, ⟨-, rfl⟩ | ⟨p, _, _, _, _, -, -, -, rfl⟩⟩ := popCommand_split hpop
    · exact congrArg (· + 1) hclock
    · exact congrArg (· + 1) hclock
  · rw [hclosed.accepted_eq, schedule_accepted hschedule, (popCommand_transactions hpop).2, haccepted]

/-- **The updates of two states that are alike**, if the transactions of the cycle agree: they issue the same
command, and what they leave is alike. -/
theorem update_alike (hpolicy : cfg.rowBufferPolicy = .closePage) (h : Alike cfg s s')
    (hshape : Shape cfg s) (hshape' : Shape cfg s') (hupdate : s.update cfg = .ok u)
    (hupdate' : s'.update cfg = .ok u')
    (hwaits : ∀ taken taken', u.history.accepted = s.history.accepted ++ taken →
      u'.history.accepted = s'.history.accepted ++ taken' →
      (s'.memoryController.transactionQueue ++ taken').map (Transaction.view cfg) =
        (s.memoryController.transactionQueue ++ taken).map (Transaction.view cfg)) :
    Alike cfg u u' ∧ WaitsAlike cfg u u' := by
  obtain ⟨t, t₂, v, hopened, hpop, hschedule, hclosed⟩ := update_cycle hupdate
  obtain ⟨t', t₂', v', hopened', hpop', hschedule', hclosed'⟩ := update_cycle hupdate'
  obtain ⟨hqueue, hrank, hcountdown⟩ := checkRefresh_erase h
  have hprepared : Alike cfg t t' := by
    refine ⟨?_, ?_, ?_, ?_, ?_, ?_⟩
    · rw [hopened.queue_eq, hopened'.queue_eq, hqueue]
    · rw [hopened.banks_eq, hopened'.banks_eq, MemoryController.idleBanks,
        MemoryController.idleBanks, h.banks_eq]
    · rw [hopened.clock_eq, hopened'.clock_eq, h.clock_eq]
    · rw [hopened.refreshRank_eq, hopened'.refreshRank_eq, hrank]
    · rw [hopened.countdown_eq, hopened'.countdown_eq, hcountdown]
    · rw [hopened.issued_eq, hopened'.issued_eq, h.issued_eq]
  obtain ⟨taken, hqueue, haccepted, -⟩ := hopened.takes
  obtain ⟨taken', hqueue', haccepted', -⟩ := hopened'.takes
  obtain ⟨hpopQueue, hpopAccepted⟩ := popCommand_transactions hpop
  obtain ⟨hpopQueue', hpopAccepted'⟩ := popCommand_transactions hpop'
  have hpopped : Alike cfg t₂ t₂' := by
    refine popCommand_alike hpolicy hprepared hopened.idle ?_ ?_ hpop hpop'
    · rw [hopened.queue_eq, (checkRefresh_same cfg s).1]
      exact fun r b p hp => (hshape.placed r b p hp).column
    · rw [hopened'.queue_eq, (checkRefresh_same cfg s').1]
      exact fun r b p hp => (hshape'.placed r b p hp).column
  have hpoppedWaits : WaitsAlike cfg t₂ t₂' := by
    rw [WaitsAlike, hpopQueue, hpopQueue', hqueue, hqueue']
    apply hwaits
    · rw [hclosed.accepted_eq, schedule_accepted hschedule, hpopAccepted, haccepted]
    · rw [hclosed'.accepted_eq, schedule_accepted hschedule', hpopAccepted', haccepted']
  obtain ⟨hscheduled, hscheduledWaits⟩ := schedule_alike hpolicy hpopped hpoppedWaits hschedule hschedule'
  refine ⟨⟨?_, ?_, ?_, ?_, ?_, ?_⟩, ?_⟩
  · rw [hclosed.queue_eq, hclosed'.queue_eq]
    exact congrArg CommandQueue.step hscheduled.queue_eq
  · rw [hclosed.banks_eq, hclosed'.banks_eq, hscheduled.banks_eq]
  · rw [hclosed.clock_eq, hclosed'.clock_eq, hscheduled.clock_eq]
  · rw [hclosed.refreshRank_eq, hclosed'.refreshRank_eq, hscheduled.refreshRank_eq]
  · rw [hclosed.countdown_eq, hclosed'.countdown_eq, hscheduled.countdown_eq]
  · rw [hclosed.issued_eq, hclosed'.issued_eq, hscheduled.issued_eq]
  · rw [WaitsAlike, hclosed.transactionQueue_eq, hclosed'.transactionQueue_eq]
    exact hscheduledWaits

theorem dataLine_alike (hline : s'.dataLine = s.dataLine)
    (hissued : s'.history.issued.map BusPacket.view = s.history.issued.map BusPacket.view)
    (hupdate : s.update cfg = .ok u) (hupdate' : s'.update cfg = .ok u')
    (hissued' : u'.history.issued.map BusPacket.view = u.history.issued.map BusPacket.view) :
    u'.dataLine = u.dataLine := by
  obtain ⟨added, hadded, hu⟩ := dataLine_update hupdate
  obtain ⟨added', hadded', hu'⟩ := dataLine_update hupdate'
  rw [hadded, hadded', List.map_append, List.map_append, hissued] at hissued'
  have htypes : added'.map (fun e => e.2.busPacketType) = added.map fun e => e.2.busPacketType := by
    have hviews := congrArg (List.map fun view : ℕ × BusPacketType × ℕ × ℕ => view.2.1)
        (List.append_cancel_left hissued')
    rw [List.map_map, List.map_map] at hviews
    exact hviews
  rw [hu, hu', hline, htypes]

/-- What happens between two updates: transactions are taken, of the time of the clock. -/
structure Later (s t : MemorySystem) : Prop extends Waits s t where
  line_eq : t.dataLine = s.dataLine
  newer : ∃ newer, t.memoryController.transactionQueue = s.memoryController.transactionQueue ++ newer ∧
    t.history.accepted = s.history.accepted ++ newer ∧
    ∀ x ∈ newer, x.timeAdded = s.memoryController.currentClockCycle

theorem Later.refl (s : MemorySystem) : Later s s :=
  ⟨⟨rfl, rfl, rfl, rfl, rfl, rfl, taken_nil rfl rfl⟩, rfl, [], (List.append_nil _).symm,
    (List.append_nil _).symm,
    fun x hx => by cases hx⟩

theorem Later.trans (h : Later s t) (h' : Later t u) : Later s u := by
  refine ⟨h.toWaits.trans h'.toWaits, h'.line_eq.trans h.line_eq, ?_⟩
  obtain ⟨newer, hqueue, haccepted, htime⟩ := h.newer
  obtain ⟨newer', hqueue', haccepted', htime'⟩ := h'.newer
  refine ⟨newer ++ newer', ?_, ?_, fun x hx => ?_⟩
  · rw [hqueue', hqueue, List.append_assoc]
  · rw [haccepted', haccepted, List.append_assoc]
  · rcases List.mem_append.mp hx with hx | hx
    · exact htime x hx
    · exact (htime' x hx).trans h.clock_eq

theorem act_later {action : Action} (hne : action ≠ .update) (h : s.act cfg action = .ok t) : Later s t := by
  have hwaits : Waits s t := by
    rcases act_ok h with ⟨hupdate, -⟩ | ⟨-, hwaits, -⟩
    · exact absurd hupdate hne
    · exact hwaits
  refine ⟨hwaits, (act_frame hne h).1.dataLine_eq, ?_⟩
  cases action with
  | update => exact absurd rfl hne
  | addTransaction transaction =>
      cases h
      obtain ⟨taken, htime, htaken⟩ := addTransaction_eq cfg s transaction
      rw [htaken]
      exact ⟨taken, rfl, rfl, htime⟩
  | request isWrite addr =>
      cases h
      obtain ⟨taken, pending, htime, htaken⟩ := request_eq cfg s isWrite addr
      rw [htaken]
      exact ⟨taken, rfl, rfl, htime⟩
  | resetStats =>
      cases h
      exact ⟨[], (List.append_nil _).symm, (List.append_nil _).symm, fun x hx => by cases hx⟩

theorem last_update {actions : List Action} (h : run cfg actions = .ok s) :
    Later (init cfg) s ∨
      ∃ before s₀ s₁, run cfg before = .ok s₀ ∧ s₀.update cfg = .ok s₁ ∧ Later s₁ s := by
  induction actions using List.reverseRecOn generalizing s with
  | nil =>
      cases h
      exact .inl (Later.refl _)
  | append_singleton actions action ih =>
      rw [run_concat] at h
      obtain ⟨t, ht, hact⟩ := bind_ok h
      by_cases hupdate : action = .update
      · subst hupdate
        exact .inr ⟨actions, t, s, ht, hact, Later.refl s⟩
      · have hlater := act_later hupdate hact
        rcases ih ht with hinit | ⟨before, s₀, s₁, hbefore, hs₁, hlater'⟩
        · exact .inl (hinit.trans hlater)
        · exact .inr ⟨before, s₀, s₁, hbefore, hs₁, hlater'.trans hlater⟩

/-- What was accepted before a cycle. -/
def acceptedBefore (cfg : Config) (T : ℕ) (s : MemorySystem) : List (ℕ × TransactionType × ℕ × ℕ) :=
  (s.history.accepted.map (Transaction.view cfg)).filter fun view => decide (view.1 < T)

/-- What was issued before a cycle. -/
def issuedBefore (T : ℕ) (s : MemorySystem) : List (ℕ × BusPacketType × ℕ × ℕ) :=
  (s.history.issued.map BusPacket.view).filter fun view => decide (view.1 < T)

theorem filter_views {T : ℕ} {early late : List Transaction} (hearly : ∀ x ∈ early, x.timeAdded < T)
    (hlate : ∀ x ∈ late, T ≤ x.timeAdded) :
    ((early ++ late).map (Transaction.view cfg)).filter (fun view => decide (view.1 < T)) =
        early.map (Transaction.view cfg) ∧
      ((early ++ late).map (Transaction.view cfg)).filter (fun view => decide (T ≤ view.1)) =
        late.map (Transaction.view cfg) := by
  rw [List.map_append, List.filter_append, List.filter_append]
  have hbefore : ∀ view ∈ early.map (Transaction.view cfg), view.1 < T := by
    intro view hview
    obtain ⟨x, hx, rfl⟩ := List.mem_map.mp hview
    exact hearly x hx
  have hsince : ∀ view ∈ late.map (Transaction.view cfg), T ≤ view.1 := by
    intro view hview
    obtain ⟨x, hx, rfl⟩ := List.mem_map.mp hview
    exact hlate x hx
  constructor
  · rw [List.filter_eq_self.mpr fun view hview => decide_eq_true (hbefore view hview),
      List.filter_eq_nil_iff.mpr fun view hview => by simpa using hsince view hview, List.append_nil]
  · rw [List.filter_eq_nil_iff.mpr fun view hview => by simpa using hbefore view hview,
      List.filter_eq_self.mpr fun view hview => decide_eq_true (hsince view hview), List.nil_append]

theorem acceptedBefore_append {T : ℕ} {late : List Transaction}
    (haccepted : t.history.accepted = s.history.accepted ++ late)
    (hlate : ∀ x ∈ late, T ≤ x.timeAdded) : acceptedBefore cfg T t = acceptedBefore cfg T s := by
  have hnone : (late.map (Transaction.view cfg)).filter (fun view => decide (view.1 < T)) = [] := by
    apply List.filter_eq_nil_iff.mpr
    intro view hview
    obtain ⟨x, hx, rfl⟩ := List.mem_map.mp hview
    rw [decide_eq_true_eq]
    exact not_lt.mpr (hlate x hx)
  rw [acceptedBefore, acceptedBefore, haccepted, List.map_append, List.filter_append, hnone, List.append_nil]

theorem acceptedBefore_filter {T T' : ℕ} (hle : T ≤ T') :
    acceptedBefore cfg T s = (acceptedBefore cfg T' s).filter fun view => decide (view.1 < T) := by
  rw [acceptedBefore, acceptedBefore, List.filter_filter]
  apply List.filter_congr
  intro view _
  rw [← Bool.decide_and]
  refine decide_eq_decide.mpr ⟨fun h => ⟨h, Nat.lt_of_lt_of_le h hle⟩, fun h => h.1⟩

theorem later_init {actions : List Action} (h : run cfg actions = .ok s)
    (hzero : s.memoryController.currentClockCycle = 0) : Later (init cfg) s := by
  rcases last_update h with hinit | ⟨before, s₀, s₁, -, hs₁, hlater⟩
  · exact hinit
  · have hclock := (update_takes hs₁).1
    rw [← hlater.clock_eq, hzero] at hclock
    cases hclock

/-- In a later cycle the last update was made in the cycle before. -/
theorem later_update {T : ℕ} {actions : List Action} (h : run cfg actions = .ok s)
    (hsucc : s.memoryController.currentClockCycle = T + 1) :
    ∃ before s₀ s₁, run cfg before = .ok s₀ ∧ s₀.update cfg = .ok s₁ ∧ Later s₁ s ∧
      s₀.memoryController.currentClockCycle = T := by
  rcases last_update h with hinit | ⟨before, s₀, s₁, hbefore, hs₁, hlater⟩
  · rw [hinit.clock_eq] at hsucc
    cases hsucc
  · refine ⟨before, s₀, s₁, hbefore, hs₁, hlater, ?_⟩
    have hclock := (update_takes hs₁).1
    rw [← hlater.clock_eq, hsucc] at hclock
    exact (Nat.succ.inj hclock).symm

/-- What is accepted in a cycle, or behind it, does not count before it. -/
theorem acceptedBefore_cycle {s₀ s₁ : MemorySystem} {T : ℕ} (hupdate : s₀.update cfg = .ok s₁)
    (hlater : Later s₁ s)
    (hle : T ≤ s₀.memoryController.currentClockCycle) : acceptedBefore cfg T s = acceptedBefore cfg T s₀ := by
  obtain ⟨hclock, taken, htaken, htime⟩ := update_takes hupdate
  obtain ⟨since, -, hsince, hsinceTime⟩ := hlater.newer
  calc acceptedBefore cfg T s
      = acceptedBefore cfg T s₁ := acceptedBefore_append hsince fun x hx => by
        rw [hsinceTime x hx, hclock]
        exact Nat.le_succ_of_le hle
    _ = acceptedBefore cfg T s₀ := acceptedBefore_append htaken fun x hx => by
        rw [htime x hx]
        exact hle

/-- What a run takes in a cycle: all of it since the update before. -/
structure CycleTakes (T : ℕ) (u s₀ s₁ : MemorySystem) (cycle : List Transaction) : Prop where
  accepted_eq : s₁.history.accepted = u.history.accepted ++ cycle
  queue_eq : ∀ taken, s₁.history.accepted = s₀.history.accepted ++ taken →
    s₀.memoryController.transactionQueue ++ taken = u.memoryController.transactionQueue ++ cycle
  time : ∀ x ∈ cycle, x.timeAdded = T

theorem cycle_takes {s₀ s₁ : MemorySystem} {T : ℕ} (hlater : Later u s₀) (hupdate : s₀.update cfg = .ok s₁)
    (hT : s₀.memoryController.currentClockCycle = T) : ∃ cycle, CycleTakes T u s₀ s₁ cycle := by
  obtain ⟨-, taken, htaken, htime⟩ := update_takes hupdate
  obtain ⟨newer, hqueue, hnewer, hnewerTime⟩ := hlater.newer
  rw [hT] at htime
  rw [← hlater.clock_eq, hT] at hnewerTime
  refine ⟨newer ++ taken, ?_, fun first hfirst => ?_, fun x hx => ?_⟩
  · rw [htaken, hnewer, List.append_assoc]
  · rw [htaken] at hfirst
    rw [hqueue, List.append_assoc, List.append_cancel_left hfirst]
  · rcases List.mem_append.mp hx with hx | hx
    · exact hnewerTime x hx
    · exact htime x hx

namespace CycleTakes

variable {s₀ s₁ : MemorySystem} {T : ℕ} {cycle : List Transaction}

theorem past (h : CycleTakes T u s₀ s₁ cycle) (hpast : ∀ x ∈ u.history.accepted, x.timeAdded < T) :
    ∀ x ∈ s₁.history.accepted, x.timeAdded < T + 1 := by
  rw [h.accepted_eq]
  intro x hx
  rcases List.mem_append.mp hx with hx | hx
  · exact Nat.lt_succ_of_lt (hpast x hx)
  · rw [h.time x hx]
    exact Nat.lt_succ_self T

/-- What was accepted before the next cycle is what was accepted by the end of this one. -/
theorem views_eq (h : CycleTakes T u s₀ s₁ cycle) (hpast : ∀ x ∈ u.history.accepted, x.timeAdded < T)
    (hlater : Later s₁ s) (hclock : s.memoryController.currentClockCycle = T + 1) :
    acceptedBefore cfg (T + 1) s = s₁.history.accepted.map (Transaction.view cfg) := by
  obtain ⟨since, -, hsince, htime⟩ := hlater.newer
  rw [acceptedBefore, hsince]
  refine (filter_views (h.past hpast) fun x hx => ?_).1
  rw [htime x hx, ← hlater.clock_eq, hclock]

/-- The transactions of the cycle are those accepted since it began. -/
theorem cycle_eq (h : CycleTakes T u s₀ s₁ cycle) (hpast : ∀ x ∈ u.history.accepted, x.timeAdded < T) :
    cycle.map (Transaction.view cfg) =
      (s₁.history.accepted.map (Transaction.view cfg)).filter fun view => decide (T ≤ view.1) := by
  rw [h.accepted_eq]
  exact (filter_views hpast fun x hx => (h.time x hx).ge).2.symm

end CycleTakes

theorem Alike.later (h : Alike cfg u u') (hlater : Later u s) (hlater' : Later u' s') : Alike cfg s s' where
  queue_eq := by rw [hlater.queue_eq, hlater'.queue_eq, h.queue_eq]
  banks_eq := by rw [hlater.banks_eq, hlater'.banks_eq, h.banks_eq]
  clock_eq := by rw [hlater.clock_eq, hlater'.clock_eq, h.clock_eq]
  refreshRank_eq := by rw [hlater.refreshRank_eq, hlater'.refreshRank_eq, h.refreshRank_eq]
  countdown_eq := by rw [hlater.countdown_eq, hlater'.countdown_eq, h.countdown_eq]
  issued_eq := by rw [hlater.issued_eq, hlater'.issued_eq, h.issued_eq]

/-- The states behind the last updates of two runs, and what the runs have done since. -/
structure Paired (cfg : Config) (T : ℕ) (s s' u u' : MemorySystem) : Prop where
  later : Later u s
  later' : Later u' s'
  alike : Alike cfg u u'
  waits : WaitsAlike cfg u u'
  line_eq : u'.dataLine = u.dataLine
  accepted_lt : ∀ x ∈ u.history.accepted, x.timeAdded < T
  accepted_lt' : ∀ x ∈ u'.history.accepted, x.timeAdded < T

/-- **Runs whose transactions agree are alike**, cycle by cycle. -/
theorem paired_run (hpolicy : cfg.rowBufferPolicy = .closePage) {T : ℕ} {actions actions' : List Action}
    (h : run cfg actions = .ok s) (h' : run cfg actions' = .ok s')
    (hclock : s.memoryController.currentClockCycle = T) (hclock' : s'.memoryController.currentClockCycle = T)
    (haccepted : acceptedBefore cfg T s' = acceptedBefore cfg T s) : ∃ u u', Paired cfg T s s' u u' := by
  induction T generalizing s s' actions actions' with
  | zero =>
      exact ⟨init cfg, init cfg, later_init h hclock, later_init h' hclock',
        ⟨rfl, rfl, rfl, rfl, rfl, rfl⟩, rfl, rfl,
        (fun x hx => by cases hx), fun x hx => by cases hx⟩
  | succ T ih =>
      obtain ⟨before, s₀, s₁, hs₀, hs₁, hlater, hT⟩ := later_update h hclock
      obtain ⟨before', s₀', s₁', hs₀', hs₁', hlater', hT'⟩ := later_update h' hclock'
      -- Before this cycle the transactions agree as well.
      have hearlier : acceptedBefore cfg T s₀' = acceptedBefore cfg T s₀ := by
        rw [← acceptedBefore_cycle hs₁ hlater hT.ge, ← acceptedBefore_cycle hs₁' hlater' hT'.ge,
          acceptedBefore_filter (Nat.le_succ T), haccepted, ← acceptedBefore_filter (Nat.le_succ T)]
      obtain ⟨u, u', hpaired⟩ := ih hs₀ hs₀' hT hT' hearlier
      obtain ⟨cycle, htakes⟩ := cycle_takes hpaired.later hs₁ hT
      obtain ⟨cycle', htakes'⟩ := cycle_takes hpaired.later' hs₁' hT'
      -- The transactions of this cycle are those that were taken since the update before.
      have hnow : cycle'.map (Transaction.view cfg) = cycle.map (Transaction.view cfg) := by
        rw [htakes.cycle_eq hpaired.accepted_lt, htakes'.cycle_eq hpaired.accepted_lt',
          ← htakes.views_eq hpaired.accepted_lt hlater hclock,
            ← htakes'.views_eq hpaired.accepted_lt' hlater' hclock',
          haccepted]
      have halike := hpaired.alike.later hpaired.later hpaired.later'
      have hupdates : Alike cfg s₁ s₁' ∧ WaitsAlike cfg s₁ s₁' := by
        refine update_alike hpolicy halike (timed_run hpolicy hs₀).1
          (timed_run hpolicy hs₀').1 hs₁ hs₁' fun taken taken' htaken htaken' => ?_
        rw [htakes.queue_eq taken htaken, htakes'.queue_eq taken' htaken']
        calc (u'.memoryController.transactionQueue ++ cycle').map (Transaction.view cfg)
            = u'.memoryController.transactionQueue.map (Transaction.view cfg) ++
                cycle'.map (Transaction.view cfg) := List.map_append
          _ = u.memoryController.transactionQueue.map (Transaction.view cfg) ++
                cycle.map (Transaction.view cfg) := by rw [hnow, hpaired.waits]
          _ = (u.memoryController.transactionQueue ++ cycle).map (Transaction.view cfg) :=
          List.map_append.symm
      have hline : s₀'.dataLine = s₀.dataLine := by
        rw [hpaired.later.line_eq, hpaired.later'.line_eq, hpaired.line_eq]
      exact ⟨s₁, s₁', hlater, hlater', hupdates.1, hupdates.2,
        dataLine_alike hline halike.issued_eq hs₁ hs₁' hupdates.1.issued_eq, htakes.past hpaired.accepted_lt,
        htakes'.past hpaired.accepted_lt'⟩

/-- What a run has issued before a cycle it has issued when it was there. -/
theorem run_at {T : ℕ} {actions : List Action} (h : run cfg actions = .ok s)
    (hle : T ≤ s.memoryController.currentClockCycle) :
    ∃ before t, run cfg before = .ok t ∧ t.memoryController.currentClockCycle = T ∧
      acceptedBefore cfg T t = acceptedBefore cfg T s ∧ issuedBefore T t = issuedBefore T s := by
  obtain ⟨n, hn⟩ := Nat.exists_eq_add_of_le hle
  induction n generalizing s actions with
  | zero => exact ⟨actions, s, h, hn, rfl, rfl⟩
  | succ n ih =>
      rcases last_update h with hinit | ⟨before, s₀, s₁, hs₀, hs₁, hlater⟩
      · rw [hinit.clock_eq] at hn
        cases hn
      have hclock₀ : s₀.memoryController.currentClockCycle = T + n := by
        rw [hlater.clock_eq, (update_takes hs₁).1] at hn
        omega
      have hle₀ : T ≤ s₀.memoryController.currentClockCycle := hclock₀ ▸ Nat.le_add_right T n
      obtain ⟨before', t, ht, hT, haccepted, hissued⟩ := ih hs₀ hle₀ hclock₀
      refine ⟨before', t, ht, hT, haccepted.trans (acceptedBefore_cycle hs₁ hlater hle₀).symm,
        hissued.trans ?_⟩
      obtain ⟨found, cq, -, hadded⟩ := update_nextPop hs₁
      have hnone : ((found.toList.map fun p =>
          (s₀.memoryController.currentClockCycle, p)).map BusPacket.view).filter
          (fun view => decide (view.1 < T)) = [] := by
        apply List.filter_eq_nil_iff.mpr
        intro view hview
        obtain ⟨e, he, rfl⟩ := List.mem_map.mp hview
        obtain ⟨p, -, rfl⟩ := List.mem_map.mp he
        rw [decide_eq_true_eq]
        change ¬ s₀.memoryController.currentClockCycle < T
        omega
      rw [issuedBefore, issuedBefore, hlater.issued_eq, hadded, List.map_append, List.filter_append, hnone,
        List.append_nil]

theorem update_error_alike (hregular : cfg.Regular) {actions actions' : List Action}
    (hactions : ∀ action ∈ actions, action.IsRequest)
    (hactions' : ∀ action ∈ actions', action.IsRequest) (h : run cfg actions = .ok s)
    (h' : run cfg actions' = .ok s') (hline : s'.dataLine = s.dataLine) (e : Exit) :
    s'.update cfg = .error e ↔ s.update cfg = .error e := by
  have hfails : ∀ {acts acts' : List Action} {t t' : MemorySystem}, (∀ action ∈ acts, action.IsRequest) →
      (∀ action ∈ acts', action.IsRequest) → run cfg acts = .ok t → run cfg acts' = .ok t' →
      t'.dataLine = t.dataLine →
      t.update cfg = .error e → t'.update cfg = .error e := by
    intro acts acts' t t' hacts hacts' ht ht' hsame hupdate
    cases hupdate' : t'.update cfg with
    | ok u => exact absurd hupdate' (update_fails_alike hregular ht (requested_run hacts ht) hsame hupdate)
    | error e' =>
        rw [update_fails_at_bus hregular ht (requested_run hacts ht) hupdate,
          update_fails_at_bus hregular ht' (requested_run hacts' ht') hupdate']
  exact ⟨hfails hactions' hactions h' h hline.symm, hfails hactions hactions' h h' hline⟩

/-- **Rows do not matter.** Two runs whose transactions accepted before a cycle agree in their cycles, types,
ranks and banks have issued commands of the same types to the same ranks and banks in the same cycles before
it. Runs of one length whose transactions all agree have issued the same altogether. Where the data bus is the
only place to fail at, the next update of one of two such runs fails if that of the other does. -/
theorem no_row_buffer_effect (cfg : Config) (hpolicy : cfg.rowBufferPolicy = .closePage)
    (actions actions' : List Action) (s s' : MemorySystem) (h : run cfg actions = .ok s)
    (h' : run cfg actions' = .ok s') :
    (∀ T ≤ s.memoryController.currentClockCycle, T ≤ s'.memoryController.currentClockCycle →
      acceptedBefore cfg T s' = acceptedBefore cfg T s → issuedBefore T s' = issuedBefore T s) ∧
    (s'.memoryController.currentClockCycle = s.memoryController.currentClockCycle →
      s'.history.accepted.map (Transaction.view cfg) = s.history.accepted.map (Transaction.view cfg) →
      s'.history.issued.map BusPacket.view = s.history.issued.map BusPacket.view) ∧
    (cfg.Regular → (∀ action ∈ actions, action.IsRequest) → (∀ action ∈ actions', action.IsRequest) →
      s'.memoryController.currentClockCycle = s.memoryController.currentClockCycle →
      acceptedBefore cfg s.memoryController.currentClockCycle s' =
        acceptedBefore cfg s.memoryController.currentClockCycle s →
      ∀ e, s'.update cfg = .error e ↔ s.update cfg = .error e) := by
  have hinit : ∀ T ≤ s.memoryController.currentClockCycle, T ≤ s'.memoryController.currentClockCycle →
      acceptedBefore cfg T s' = acceptedBefore cfg T s → issuedBefore T s' = issuedBefore T s := by
    intro T hle hle' haccepted
    obtain ⟨before, t, ht, hT, htaccepted, htissued⟩ := run_at h hle
    obtain ⟨before', t', ht', hT', htaccepted', htissued'⟩ := run_at h' hle'
    obtain ⟨u, u', hpaired⟩ := paired_run hpolicy ht ht' hT hT' (by rw [htaccepted, htaccepted', haccepted])
    have hissued := (hpaired.alike.later hpaired.later hpaired.later').issued_eq
    rw [← htissued, ← htissued', issuedBefore, issuedBefore, hissued]
  refine ⟨hinit, fun hclock haccepted => ?_, fun hregular hactions hactions' hclock haccepted => ?_⟩
  swap
  · obtain ⟨u, u', hpaired⟩ := paired_run hpolicy h h' rfl hclock haccepted
    refine update_error_alike hregular hactions hactions' h h' ?_
    rw [hpaired.later.line_eq, hpaired.later'.line_eq, hpaired.line_eq]
  have hall : ∀ {acts : List Action} {t : MemorySystem}, run cfg acts = .ok t →
      issuedBefore t.memoryController.currentClockCycle t = t.history.issued.map BusPacket.view := by
    intro acts t ht
    apply List.filter_eq_self.mpr
    intro view hview
    obtain ⟨e, he, rfl⟩ := List.mem_map.mp hview
    exact decide_eq_true ((timed_run hpolicy ht).2.past e he)
  rw [← hall h, ← hall h', hclock]
  apply hinit _ le_rfl hclock.ge
  rw [acceptedBefore, acceptedBefore, haccepted]

/-- A client that reads a row, and one that reads another row of the same bank. -/
def readsRow (address : BitVec 64) : List Action :=
  [.addTransaction ⟨.dataRead, address, 0, 0⟩] ++ List.replicate 3 .update

/-- A client that writes a row of each of two ranks, up to the cycle in which the second write is due. -/
def writesRow (address : BitVec 64) : List Action :=
  [.addTransaction ⟨.dataWrite, address, 0, 0⟩, .addTransaction ⟨.dataWrite, address + 0x40000, 0, 0⟩] ++
    List.replicate 9 .update

/-- With the devices of the example, over reads of two rows of one bank, and over writes to two ranks
that collide. -/
theorem no_row_buffer_effect_ddr2 :
    (∃ s s', run (ddr2Micron 1 (by decide)) (readsRow 0) = .ok s ∧
      run (ddr2Micron 1 (by decide)) (readsRow (2 ^ 30)) = .ok s' ∧ s.history.issued ≠ s'.history.issued ∧
      s'.history.issued.map BusPacket.view = s.history.issued.map BusPacket.view) ∧
    ∃ s s', run (ddr2Micron 2 (by decide)) (writesRow 0) = .ok s ∧
      run (ddr2Micron 2 (by decide)) (writesRow (2 ^ 30)) = .ok s' ∧
      s.history.accepted ≠ s'.history.accepted ∧
      s'.update (ddr2Micron 2 (by decide)) = .error .dataBusCollision := by
  constructor
  · have hrun : ∃ s, run (ddr2Micron 1 (by decide)) (readsRow 0) = .ok s ∧
        s.memoryController.currentClockCycle = 3 ∧ s.history.accepted = [⟨.dataRead, 0, 0, 0⟩] ∧
        s.history.issued = [(1, ⟨.readP, 0, 0, 0, 0, 0, 0⟩)] := by decide +kernel
    have hrun' : ∃ s, run (ddr2Micron 1 (by decide)) (readsRow (2 ^ 30)) = .ok s ∧
        s.memoryController.currentClockCycle = 3 ∧ s.history.accepted = [⟨.dataRead, 2 ^ 30, 0, 0⟩] ∧
        s.history.issued.map (fun e => e.2.row) = [16] := by decide +kernel
    obtain ⟨s, hs, hclock, haccepted, hissued⟩ := hrun
    obtain ⟨s', hs', hclock', haccepted', hrow⟩ := hrun'
    refine ⟨s, s', hs, hs', fun hbad => ?_,
      (no_row_buffer_effect _ rfl _ _ s s' hs hs').2.1 (by rw [hclock, hclock']) ?_⟩
    · rw [← hbad, hissued] at hrow
      exact absurd hrow (by decide)
    · rw [haccepted, haccepted']
      decide +kernel
  · have hrun : ∃ s, run (ddr2Micron 2 (by decide)) (writesRow 0) = .ok s ∧
        s.memoryController.currentClockCycle = 9 ∧
        s.history.accepted = [⟨.dataWrite, 0, 0, 0⟩, ⟨.dataWrite, 0x40000, 0, 0⟩] ∧
        ∃ e, s.update (ddr2Micron 2 (by decide)) = .error e ∧ e = .dataBusCollision := by decide +kernel
    have hrun' : ∃ s, run (ddr2Micron 2 (by decide)) (writesRow (2 ^ 30)) = .ok s ∧
        s.memoryController.currentClockCycle = 9 ∧
        s.history.accepted = [⟨.dataWrite, 2 ^ 30, 0, 0⟩, ⟨.dataWrite, 2 ^ 30 + 0x40000, 0, 0⟩] := by
      decide +kernel
    obtain ⟨s, hs, hclock, haccepted, e, hupdate, rfl⟩ := hrun
    obtain ⟨s', hs', hclock', haccepted'⟩ := hrun'
    have halike := (no_row_buffer_effect _ rfl _ _ s s' hs hs').2.2 ⟨rfl, rfl, by decide, by decide, 3, rfl⟩
      (by simp [writesRow, Action.IsRequest]) (by simp [writesRow, Action.IsRequest])
      (by rw [hclock, hclock']) (by
        rw [acceptedBefore, acceptedBefore, haccepted, haccepted', hclock]
        decide +kernel) .dataBusCollision
    refine ⟨s, s', hs, hs', ?_, halike.mpr hupdate⟩
    rw [haccepted, haccepted']
    decide

end MemorySystem

end RacerArtifacts.Mram
