import RacerArtifacts.MramCapacity
import RacerArtifacts.MramConservation

/-! What an update does with the transactions that wait, and the ways a run can end early under the close-page
policy: at the data bus only, and with one rank not at all. -/

namespace RacerArtifacts.Mram

open Fallible MemoryController Pipe

/-- The close-page configurations whose commands hold the bus for one cycle and whose addresses all have a
rank and a bank; no refresh is asked for. -/
structure Config.Regular (cfg : Config) : Prop where
  policy : cfg.rowBufferPolicy = .closePage
  tCMD_eq : cfg.tCMD = 1
  refresh_ne : cfg.refreshCountdown 0 ≠ 0
  powers : cfg.PowersOfTwo

/-- A client hands over reads and writes only. -/
def Action.IsRequest : Action → Prop
  | .addTransaction transaction => transaction.transactionType ≠ .returnData
  | _ => True

variable {cfg : Config}

theorem Config.PowersOfTwo.hasQueue (h : cfg.PowersOfTwo) (address : BitVec 64) :
    cfg.HasQueue (addressMapping cfg address 0).rank (cfg.slot (addressMapping cfg address 0).bank) := by
  obtain ⟨hrank, hbank⟩ := h.inRange address 0
  refine ⟨hrank, ?_⟩
  rw [Config.slot, Config.numBankQueues]
  cases cfg.queuingStructure with
  | perRank => exact Nat.succ_mul_pos _ Nat.one_pos
  | perRankPerBank => exact hbank.trans_le (Nat.le_mul_of_pos_left _ (Nat.succ_pos _))

/-- A packet whose queue exists is only refused for want of room. -/
theorem CommandQueue.enqueue_fails {cq : CommandQueue} {p : BusPacket} {e : Exit}
    (hqueue : cfg.HasQueue p.rank (cfg.slot p.bank)) (h : cq.enqueue cfg p = .error e) :
    e = .enqueuedMoreThanAllowed := by
  rw [CommandQueue.enqueue, if_neg (not_not.mpr hqueue)] at h
  split at h
  · cases h
  · dsimp only at h
    split_ifs at h
    cases h
    rfl

namespace MemorySystem

variable {s s' t t' u : MemorySystem} {e : Exit}

/-- The transactions that wait, with the controller and before it, and those accepted. -/
structure SameWaiting (s t : MemorySystem) : Prop where
  queue_eq : t.memoryController.transactionQueue = s.memoryController.transactionQueue
  pending_eq : t.pendingTransactions = s.pendingTransactions
  accepted_eq : t.history.accepted = s.history.accepted

theorem SameWaiting.refl (s : MemorySystem) : SameWaiting s s := ⟨rfl, rfl, rfl⟩

theorem SameWaiting.trans (h : SameWaiting s t) (h' : SameWaiting t u) : SameWaiting s u where
  queue_eq := h'.queue_eq.trans h.queue_eq
  pending_eq := h'.pending_eq.trans h.pending_eq
  accepted_eq := h'.accepted_eq.trans h.accepted_eq

/-- The first pending transaction is taken, if there is one and room for it. -/
inductive Takes (cfg : Config) (s t : MemorySystem) : Prop
  | nothing (hsame : SameWaiting s t)
      (hstays : s.pendingTransactions = [] ∨ cfg.transQueueDepth ≤ s.memoryController.transactionQueue.length)
  | first {x : Transaction} {rest : List Transaction} {time : ℕ}
      (hpending : s.pendingTransactions = x :: rest)
      (hqueue : t.memoryController.transactionQueue =
        s.memoryController.transactionQueue ++ [{ x with timeAdded := time }])
      (hrest : t.pendingTransactions = rest)
      (haccepted : t.history.accepted = s.history.accepted ++ [{ x with timeAdded := time }])

theorem takes_takePending (cfg : Config) (s : MemorySystem) : Takes cfg s (s.takePending cfg) := by
  rw [takePending]
  cases hpending : s.pendingTransactions with
  | nil => exact .nothing (SameWaiting.refl s) (.inl hpending)
  | cons x rest =>
      dsimp only
      by_cases hroom : s.memoryController.willAcceptTransaction cfg = true
      · rw [if_pos hroom, MemorySystem.addTransaction, if_pos hroom]
        exact .first hpending rfl rfl rfl
      · rw [if_neg hroom]
        rw [willAcceptTransaction, decide_eq_true_eq] at hroom
        exact .nothing (SameWaiting.refl s) (.inr (Nat.not_lt.mp hroom))

theorem Takes.after (h : Takes cfg s t) (hsame : SameWaiting t u) : Takes cfg s u := by
  cases h with
  | nothing hsame' hstays => exact .nothing (hsame'.trans hsame) hstays
  | first hpending hqueue hrest haccepted =>
      exact .first hpending (hsame.queue_eq.trans hqueue) (hsame.pending_eq.trans hrest)
        (hsame.accepted_eq.trans haccepted)

theorem Takes.before (hsame : SameWaiting s t) (h : Takes cfg t u) : Takes cfg s u := by
  cases h with
  | nothing hsame' hstays =>
      rw [hsame.pending_eq, hsame.queue_eq] at hstays
      exact .nothing (hsame.trans hsame') hstays
  | first hpending hqueue hrest haccepted =>
      rw [hsame.pending_eq] at hpending
      rw [hsame.queue_eq] at hqueue
      rw [hsame.accepted_eq] at haccepted
      exact .first hpending hqueue hrest haccepted

theorem waiting_ranks (h : (List.range cfg.numRanks).foldlM (updateRank cfg) s = .ok t) :
    SameWaiting s t := by
  refine foldlM_ok (P := SameWaiting s) (fun t i t' ht hrank => ht.trans ?_) (SameWaiting.refl s) h
  obtain ⟨received, rank, -, ⟨-, rfl⟩ | ⟨p, reads, -, rfl⟩⟩ := updateRank_ok hrank
  · exact ⟨rfl, rfl, rfl⟩
  · exact ⟨rfl, rfl, rfl⟩

theorem waiting_sendCommand (h : s.sendCommand cfg = .ok t) : SameWaiting s t := by
  rcases sendCommand_ok h with ⟨-, rfl⟩ | ⟨p, left, -, -, ⟨-, rfl⟩ | ⟨-, ranks, -, rfl⟩⟩
  · exact ⟨rfl, rfl, rfl⟩
  · exact ⟨rfl, rfl, rfl⟩
  · exact ⟨rfl, rfl, rfl⟩

theorem waiting_sendWriteData (h : s.sendWriteData cfg = .ok t) : SameWaiting s t := by
  rcases sendWriteData_ok h with ⟨-, rfl⟩ | ⟨p, left, -, -, ⟨-, rfl⟩ | ⟨-, ranks, -, rfl⟩⟩
  · exact ⟨rfl, rfl, rfl⟩
  · exact ⟨rfl, rfl, rfl⟩
  · exact ⟨rfl, rfl, rfl⟩

theorem waiting_startWriteData (h : s.startWriteData cfg = .ok t) : SameWaiting s t := by
  obtain ⟨mc, hmc, rfl⟩ := map_ok h
  rcases startWriteData_ok hmc with ⟨-, -, hmc⟩ | ⟨_, _, _, _, _, -, -, -, rfl⟩
  · rw [hmc]
    exact ⟨rfl, rfl, rfl⟩
  · exact ⟨rfl, rfl, rfl⟩

theorem waiting_checkRefresh (cfg : Config) (s : MemorySystem) : SameWaiting s (s.checkRefresh cfg) := by
  obtain ⟨ranks, waiting, rank, countdown, next, -, heq⟩ := checkRefresh_eq cfg s
  rw [heq]
  exact ⟨rfl, rfl, rfl⟩

theorem waiting_popCommand (h : s.popCommand cfg = .ok t) : SameWaiting s t := by
  obtain ⟨found, cq, -, ⟨-, rfl⟩ | ⟨p, _, _, _, _, -, -, -, rfl⟩⟩ := popCommand_split h
  · exact ⟨rfl, rfl, rfl⟩
  · exact ⟨rfl, rfl, rfl⟩

theorem waiting_returnData {s₇ : MemorySystem} (h₇ : (u.addBackgroundEnergy cfg).returnData cfg = .ok s₇) :
    SameWaiting u s₇.stepClocks := by
  obtain ⟨⟨returned, mc⟩, hr, rfl⟩ := map_ok h₇
  rcases returnData_ok hr with ⟨-, rfl, rfl⟩ | ⟨_, _, _, _, _, _, _, _, -, -, -, -, rfl, rfl⟩
  · exact ⟨rfl, rfl, rfl⟩
  · exact ⟨rfl, rfl, rfl⟩

theorem takes_of_phases {s₁ s₂ s₃ s₄ : MemorySystem}
    (h₁ : (List.range cfg.numRanks).foldlM (updateRank cfg) s = .ok s₁)
    (h₂ : (s₁.takePending cfg).idleBanks.sendCommand cfg = .ok s₂) (h₃ : s₂.sendWriteData cfg = .ok s₃)
    (h₄ : s₃.startWriteData cfg = .ok s₄) : Takes cfg s (s₄.checkRefresh cfg) := by
  have hidle : SameWaiting (s₁.takePending cfg) (s₁.takePending cfg).idleBanks := ⟨rfl, rfl, rfl⟩
  have hafter := (waiting_sendCommand h₂).trans ((waiting_sendWriteData h₃).trans (waiting_startWriteData h₄))
  exact ((takes_takePending cfg s₁).after (hidle.trans (hafter.trans (waiting_checkRefresh cfg s₄)))).before
    (waiting_ranks h₁)

/-- An update, as far as the waiting transactions and the command queue are concerned. -/
theorem update_waiting (h : s.update cfg = .ok s') :
    ∃ t t' u, Prepared cfg s t ∧ Takes cfg s t ∧ t.popCommand cfg = .ok t' ∧ t'.schedule cfg = .ok u ∧
      Finished u s' ∧ SameWaiting u s' := by
  obtain ⟨s₁, s₂, s₃, s₄, t', u, s₇, h₁, h₂, h₃, h₄, h₅, h₆, h₇, rfl⟩ := update_ok h
  exact ⟨s₄.checkRefresh cfg, t', u, prepared_of_phases h₁ h₂ h₃ h₄, takes_of_phases h₁ h₂ h₃ h₄, h₅, h₆,
    finished_of_phases h₇, waiting_returnData h₇⟩

/-- What is handed over and waits is a read or a write. -/
structure Requested (s : MemorySystem) : Prop where
  queue : ∀ x ∈ s.memoryController.transactionQueue, x.transactionType ≠ .returnData
  pending : ∀ x ∈ s.pendingTransactions, x.transactionType ≠ .returnData

theorem Requested.of_same (h : Requested s) (hsame : SameWaiting s t) : Requested t where
  queue := hsame.queue_eq ▸ h.queue
  pending := hsame.pending_eq ▸ h.pending

theorem Requested.takes (h : Requested s) (htakes : Takes cfg s t) : Requested t := by
  cases htakes with
  | nothing hsame _ => exact h.of_same hsame
  | @first y rest time hpending hqueue hrest _ =>
      have hall := h.pending
      rw [hpending] at hall
      refine ⟨?_, ?_⟩
      · rw [hqueue]
        intro x hx
        rcases List.mem_append.mp hx with hx | hx
        · exact h.queue x hx
        · rw [List.mem_singleton.mp hx]
          exact hall y List.mem_cons_self
      · rw [hrest]
        exact fun x hx => hall x (List.mem_cons_of_mem _ hx)

theorem Requested.schedule (h : Requested s) (hschedule : s.schedule cfg = .ok u) : Requested u := by
  obtain ⟨mc, hmc, rfl⟩ := map_ok hschedule
  rcases scheduleFrom_split (fun x hx => by cases hx) rfl hmc with
    ⟨rfl, -⟩ | ⟨before, x, rest, bpType, hqueue, -, -, -, rfl⟩
  · exact h
  · refine ⟨fun y hy => h.queue y ?_, h.pending⟩
    rw [hqueue]
    rcases List.mem_append.mp hy with hy | hy
    · exact List.mem_append_left _ hy
    · exact List.mem_append_right _ (List.mem_cons_of_mem _ hy)

/-- The scheduling of reads and writes, each of which has a queue, can only fail for want of room. -/
theorem scheduleFrom_fails (hpowers : cfg.PowersOfTwo) {mc : MemoryController}
    {front queue : List Transaction} (hqueue : ∀ x ∈ queue, x.transactionType ≠ .returnData)
    (h : mc.scheduleFrom cfg front queue = .error e) :
    e = .enqueuedMoreThanAllowed := by
  induction queue generalizing front with
  | nil => cases h
  | cons x rest ih =>
      obtain ⟨hx, hrest⟩ := List.forall_mem_cons.mp hqueue
      have hplace := hpowers.hasQueue x.address
      rw [scheduleFrom] at h
      rcases bind_error h with hroom | ⟨room, -, h⟩
      · rw [CommandQueue.hasRoomFor, if_pos hplace] at hroom
        cases hroom
      cases room with
      | false => exact ih hrest h
      | true =>
          rw [if_pos rfl] at h
          rcases bind_error h with htype | ⟨bpType, -, h⟩
          · rw [Transaction.getBusPacketType] at htype
            split at htype
            · cases htype
            · cases htype
            · cases htype
            · cases htype
            · exact absurd ‹_› hx
          rcases bind_error h with hactivate | ⟨cq, hactivate, h⟩
          · rw [enqueue_activate] at hactivate
            cases hactivate
          rcases bind_error h with hcommand | ⟨cq, -, hbad⟩
          · exact CommandQueue.enqueue_fails hplace hcommand
          · cases hbad

/-- The lines of the write data are of one length. -/
def Matched (s : MemorySystem) : Prop :=
  s.memoryController.writeDataToSend.length = s.memoryController.writeDataCountdown.length

theorem startWriteData_fails (h : Matched s) (hstart : s.startWriteData cfg = .error e) :
    e = .dataBusCollision := by
  have hstart := map_error hstart
  rw [MemoryController.startWriteData] at hstart
  split at hstart
  · split_ifs at hstart
    cases hstart
    rfl
  · rename_i hcountdown hsend
    have hlength := congrArg List.length hcountdown
    rw [List.length_map, ← h, hsend] at hlength
    cases hlength
  · cases hstart

/-- The phases of an update behind the sending of the write data. -/
theorem update_of_phases {s₁ s₂ s₃ : MemorySystem}
    (h₁ : (List.range cfg.numRanks).foldlM (updateRank cfg) s = .ok s₁)
    (h₂ : (s₁.takePending cfg).idleBanks.sendCommand cfg = .ok s₂) (h₃ : s₂.sendWriteData cfg = .ok s₃) :
    s.update cfg = (do
      let s₄ ← s₃.startWriteData cfg
      let s₅ ← (s₄.checkRefresh cfg).popCommand cfg
      let s₆ ← s₅.schedule cfg
      let s₇ ← (s₆.addBackgroundEnergy cfg).returnData cfg
      pure s₇.stepClocks) := by
  rw [update_eq_phases, phases, List.foldlM_append, List.foldlM_map, h₁, ok_bind]
  simp only [List.foldlM_cons, List.foldlM_nil, ok_bind, h₂, h₃]

theorem Matched.of_same (h : Matched s) (hsame : SameWrites s t) : Matched t := by
  rw [Matched, hsame.packets_eq, hsame.countdown_eq]
  exact h

theorem Matched.sendWriteData (h : Matched s) (hsend : s.sendWriteData cfg = .ok t) : Matched t := by
  rcases sendWriteData_ok hsend with ⟨-, rfl⟩ | ⟨p, left, -, -, ⟨-, rfl⟩ | ⟨-, ranks, -, rfl⟩⟩
  · exact h
  · exact h
  · exact h

theorem Matched.startWriteData (h : Matched s) (hstart : s.startWriteData cfg = .ok t) : Matched t := by
  obtain ⟨mc, hmc, rfl⟩ := map_ok hstart
  rw [Matched] at h
  rcases startWriteData_ok hmc with ⟨hcountdown, -, hmc⟩ | ⟨countdown, p, rest, total, writes, hcountdown,
    hsend, -, rfl⟩
  · have hlength := congrArg List.length hcountdown
    rw [List.length_map] at hlength
    rw [Matched, ← hlength, hmc]
    exact h
  · have hlength := congrArg List.length hcountdown
    rw [List.length_map, ← h, hsend] at hlength
    exact Nat.succ_injective hlength

theorem Matched.update (h : Matched s) (hupdate : s.update cfg = .ok s') : Matched s' := by
  obtain ⟨s₁, s₂, s₃, s₄, s₅, s₆, s₇, h₁, h₂, h₃, h₄, h₅, h₆, h₇, rfl⟩ := update_ok hupdate
  have hstart := ((h.of_same (sameWrites_of_phases h₁ h₂)).sendWriteData h₃).startWriteData h₄
  rcases writes_of_phases h₅ h₆ h₇ with ⟨-, hsame⟩ | ⟨p, -, hsame⟩
  · exact hstart.of_same hsame
  · refine Matched.of_same ?_ hsame
    rw [Matched] at hstart ⊢
    dsimp only
    split_ifs
    · rw [List.length_append, List.length_append, hstart]
      rfl
    · exact hstart

theorem matched_run {actions : List Action} (h : run cfg actions = .ok s) : Matched s := by
  refine foldlM_ok (P := Matched) (fun s action s' hs hact => ?_) (show Matched (init cfg) from rfl) h
  rcases act_ok hact with ⟨-, hupdate⟩ | ⟨hne, -, -⟩
  · exact hs.update hupdate
  · exact hs.of_same (act_frame hne hact).1

/-- The pop finds packets of places that exist only, and the command bus is free. -/
theorem popCommand_total (hregular : cfg.Regular) (hshape : Shape cfg t)
    (hidle : ∀ r b, (t.memoryController.bankStates r b).currentBankState = .idle)
    (hin : t.memoryController.commandQueue.InRange cfg)
    (hwaiting : t.memoryController.commandQueue.refreshWaiting = false)
    (hbus : t.memoryController.outgoingCmdPacket = none) : t.popCommand cfg ≠ .error e := by
  intro h
  rw [popCommand] at h
  rcases bind_error h with hpop | ⟨⟨found, cq⟩, hpop, h⟩
  · obtain ⟨-, r, b, p, hp, hout⟩ := CommandQueue.pop_error hregular.policy hin hwaiting hidle
      (fun r b p hp => (hshape.placed r b p hp).column) hpop
    have hplaced := hshape.placed r b p hp
    have hrange := hregular.powers.inRange p.physicalAddress 0
    rw [← hplaced.mapped_rank, ← hplaced.mapped_bank] at hrange
    exact hout hrange
  cases found with
  | none => cases h
  | some p =>
      have hcolumn : p.IsColumn := by
        rcases (CommandQueue.pop_drawn hidle hpop).found p rfl with ⟨r, b, hp⟩ | ⟨hbad, -⟩
        · exact (hshape.placed r b p hp).column
        · rw [hwaiting] at hbad
          cases hbad
      rcases bind_error h with hbanks | ⟨mc, hbanks, h⟩
      · rw [updateBanks] at hbanks
        rcases hcolumn with htype | htype <;> rw [htype] at hbanks <;> cases hbanks
      · obtain ⟨_, _, _, _, rfl⟩ := updateBanks_frame hbanks
        rw [queueWriteData_eq] at h
        rcases bind_error h with hissue | ⟨mc, -, h⟩
        · rw [issueCommand, hbus] at hissue
          cases hissue
        · cases h

/-- An update with reads and writes that fails fails when the write data starts. -/
theorem update_collides (hregular : cfg.Regular) {actions : List Action} (h : run cfg actions = .ok s)
    (hrequested : Requested s) (hupdate : s.update cfg = .error e) :
    ∃ s₁ s₂ s₃, (List.range cfg.numRanks).foldlM (updateRank cfg) s = .ok s₁ ∧
      (s₁.takePending cfg).idleBanks.sendCommand cfg = .ok s₂ ∧ s₂.sendWriteData cfg = .ok s₃ ∧
      s₃.startWriteData cfg = .error e ∧ Matched s₃ := by
  obtain ⟨sent, hflight⟩ := inFlight_run hregular.policy hregular.tCMD_eq h
  obtain ⟨hcalm, hlegal⟩ := calm_run hregular.tCMD_eq h
  have hcontrol := control_run hregular.policy hregular.tCMD_eq h
  have hdisciplined := disciplined_run hregular.refresh_ne h
  have haccepts : ¬ Refusal cfg s := fun hbad => by
    have hopen := hbad.1
    rw [hregular.policy] at hopen
    cases hopen
  obtain ⟨ranks, reads, -, h₁⟩ := updateRanks_tick hflight.pipes
  obtain ⟨s₂, h₂, hcalm₂⟩ := (hcalm.updateRanks h₁).sendCommand fun p hp =>
    (hlegal.updateRanks h₁).sends (fun hbad => haccepts ((refusal_idleBanks h₁).mp hbad)) hp
  obtain ⟨s₃, h₃, -⟩ := hcalm₂.sendWriteData
  have hmatched := ((matched_run h).of_same (sameWrites_of_phases h₁ h₂)).sendWriteData h₃
  have hphases := update_of_phases h₁ h₂ h₃
  rw [hupdate] at hphases
  rcases bind_error hphases.symm with hstart | ⟨s₄, h₄, hrest⟩
  · exact ⟨_, s₂, s₃, h₁, h₂, h₃, hstart, hmatched⟩
  have hprepared := prepared_of_phases h₁ h₂ h₃ h₄
  obtain ⟨hshape, -, hbus⟩ := hcontrol.prepared hprepared
  have hqueue : (s₄.checkRefresh cfg).memoryController.commandQueue = s.memoryController.commandQueue := by
    rw [hprepared.queue_eq, hdisciplined.checkRefresh hregular.refresh_ne]
  rcases bind_error hrest with hpop | ⟨s₅, h₅, hrest⟩
  · exact absurd hpop (popCommand_total hregular hshape hprepared.idle (hqueue ▸ hdisciplined.inRange)
      (hqueue ▸ hdisciplined.waiting) hbus)
  have hwaiting := (hrequested.takes (takes_of_phases h₁ h₂ h₃ h₄)).of_same (waiting_popCommand h₅)
  rcases bind_error hrest with hschedule | ⟨s₆, h₆, hrest⟩
  · exact absurd (scheduleFrom_fails hregular.powers hwaiting.queue (map_error hschedule))
      (update_room (withinDepth_run h) hupdate)
  rcases bind_error hrest with hreturn | ⟨s₇, -, hbad⟩
  · obtain rfl := returnData_exits hreturn
    exact absurd hupdate ((ledger_run hregular.policy hregular.tCMD_eq h).no_unmatched hregular.tCMD_eq
      (issued_ranks hregular.policy hregular.tCMD_eq h) hcontrol hflight)
  · cases hbad

theorem update_fails_at_bus (hregular : cfg.Regular) {actions : List Action} (h : run cfg actions = .ok s)
    (hrequested : Requested s) (hupdate : s.update cfg = .error e) : e = .dataBusCollision := by
  obtain ⟨_, _, s₃, -, -, -, hstart, hmatched⟩ := update_collides hregular h hrequested hupdate
  exact startWriteData_fails hmatched hstart

theorem Requested.update (h : Requested s) (hupdate : s.update cfg = .ok s') : Requested s' := by
  obtain ⟨t, t', u, -, htakes, hpop, hschedule, -, hsame⟩ := update_waiting hupdate
  exact (((h.takes htakes).of_same (waiting_popCommand hpop)).schedule hschedule).of_same hsame

theorem Requested.addTransaction (h : Requested s) {x : Transaction} (hx : x.transactionType ≠ .returnData) :
    Requested (s.addTransaction cfg x) := by
  rw [MemorySystem.addTransaction]
  split_ifs
  · refine ⟨fun y hy => ?_, h.pending⟩
    rcases List.mem_append.mp hy with hy | hy
    · exact h.queue y hy
    · rw [List.mem_singleton.mp hy]
      exact hx
  · exact h

theorem Requested.act (h : Requested s) {action : Action} (haction : action.IsRequest)
    (hact : s.act cfg action = .ok s') :
    Requested s' := by
  cases action with
  | update => exact h.update hact
  | addTransaction x =>
      cases hact
      exact h.addTransaction haction
  | request isWrite addr =>
      cases hact
      have hx : (if isWrite then TransactionType.dataWrite else .dataRead) ≠ .returnData := by
        cases isWrite <;> decide
      rw [request]
      by_cases hroom : s.memoryController.willAcceptTransaction cfg = true
      · rw [if_pos hroom]
        exact h.addTransaction hx
      · rw [if_neg hroom]
        refine ⟨h.queue, fun y hy => ?_⟩
        rcases List.mem_append.mp hy with hy | hy
        · exact h.pending y hy
        · rw [List.mem_singleton.mp hy]
          exact hx
  | resetStats =>
      cases hact
      exact ⟨h.queue, h.pending⟩

theorem requested_run {actions : List Action} (hactions : ∀ action ∈ actions, action.IsRequest)
    (h : run cfg actions = .ok s) : Requested s := by
  induction actions using List.reverseRecOn generalizing s with
  | nil =>
      cases h
      exact ⟨fun x hx => absurd hx List.not_mem_nil, fun x hx => absurd hx List.not_mem_nil⟩
  | append_singleton acts action ih =>
      rw [run_concat] at h
      obtain ⟨t, ht, hact⟩ := bind_ok h
      refine (ih (fun a ha => hactions a (List.mem_append_left _ ha)) ht).act ?_ hact
      exact hactions action (List.mem_append_right _ (List.mem_singleton_self action))

theorem run_fails {actions : List Action} (hactions : ∀ action ∈ actions, action.IsRequest)
    (h : run cfg actions = .error e) :
    ∃ before s, run cfg before = .ok s ∧ s.update cfg = .error e ∧ Requested s := by
  obtain ⟨before, action, behind, s, rfl, hbefore, hact⟩ := foldlM_error h
  have hrequested := requested_run (fun a ha => hactions a (List.mem_append_left _ ha)) hbefore
  cases action with
  | update => exact ⟨before, s, hbefore, hact, hrequested⟩
  | addTransaction x => cases hact
  | request isWrite addr => cases hact
  | resetStats => cases hact

/-- With one rank an update succeeds, behind every run of requests. -/
theorem update_total (hregular : cfg.Regular) (hone : cfg.numRanks = 1) {actions : List Action}
    (h : run cfg actions = .ok s) (hrequested : Requested s) : ∃ s', s.update cfg = .ok s' := by
  cases hupdate : s.update cfg with
  | ok s' => exact ⟨s', rfl⟩
  | error e =>
      obtain rfl := update_fails_at_bus hregular h hrequested hupdate
      have hspaced := (timed_run hregular.policy h).2.one_rank_spaced hone
          (issued_ranks hregular.policy hregular.tCMD_eq h)
      exact absurd hupdate (writesFlow_run h hspaced).no_collision

theorem run_total (hregular : cfg.Regular) (hone : cfg.numRanks = 1) {actions : List Action}
    (hactions : ∀ action ∈ actions, action.IsRequest) : ∃ s, run cfg actions = .ok s := by
  cases h : run cfg actions with
  | ok s => exact ⟨s, rfl⟩
  | error e =>
      obtain ⟨before, s, hbefore, hupdate, hrequested⟩ := run_fails hactions h
      obtain ⟨s', hs'⟩ := update_total hregular hone hbefore hrequested
      rw [hupdate] at hs'
      cases hs'

/-- **A run ends early at the data bus, if at all.** Where a client hands over reads and writes, the only exit
that the close-page policy leaves is the collision on the data bus, and with one rank there is none. -/
theorem fails_at_bus_only (cfg : Config) (hregular : cfg.Regular) (actions : List Action)
    (hactions : ∀ action ∈ actions, action.IsRequest) :
    (∀ e, run cfg actions = .error e → e = .dataBusCollision) ∧
      (cfg.numRanks = 1 → ∃ s, run cfg actions = .ok s) := by
  refine ⟨fun e h => ?_, fun hone => run_total hregular hone hactions⟩
  obtain ⟨before, s, hbefore, hupdate, hrequested⟩ := run_fails hactions h
  exact update_fails_at_bus hregular hbefore hrequested hupdate

theorem fails_at_bus_only_ddr2 : ∃ s, run (ddr2Micron 1 (by decide)) writeThenRead = .ok s :=
  (fails_at_bus_only (ddr2Micron 1 (by decide)) ⟨rfl, rfl, by decide, by decide, 3, rfl⟩ writeThenRead
    (by simp [writeThenRead, Action.IsRequest])).2 rfl

end MemorySystem

end RacerArtifacts.Mram
