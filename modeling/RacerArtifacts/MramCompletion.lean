import RacerArtifacts.MramDrain

/-! Every request is answered. What a client asks for is handed over, and with one rank it is all answered,
each request once, in a time that the number of requests and the longest delay bound. -/

namespace RacerArtifacts.Mram

open Fallible MemoryController Pacing Pipe

variable {cfg : Config}

namespace MemorySystem

variable {s s' t u : MemorySystem}

/-- The addresses that a client asks to read or to write. -/
def requested (isWrite : Bool) (actions : List Action) : List (BitVec 64) :=
  actions.filterMap fun
    | .request w addr => if w = isWrite then some addr else none
    | _ => none

/-- The type of the transactions of a kind of request. -/
def typeOf (isWrite : Bool) : TransactionType :=
  if isWrite then .dataWrite else .dataRead

/-- The transactions of a kind of request that were accepted or are pending. -/
def handedOver (isWrite : Bool) (s : MemorySystem) : List (BitVec 64) :=
  (ofType (typeOf isWrite) (s.history.accepted ++ s.pendingTransactions)).map Transaction.address

theorem waiting_schedule (h : s.schedule cfg = .ok u) :
    u.history.accepted = s.history.accepted ∧ u.pendingTransactions = s.pendingTransactions := by
  obtain ⟨mc, -, rfl⟩ := map_ok h
  exact ⟨rfl, rfl⟩

theorem handedOver_update (isWrite : Bool) (h : s.update cfg = .ok s') :
    handedOver isWrite s' = handedOver isWrite s := by
  obtain ⟨t, t', u, -, htakes, hpop, hschedule, -, hsame⟩ := update_waiting h
  have hpopped := waiting_popCommand hpop
  obtain ⟨haccepted, hpending⟩ := waiting_schedule hschedule
  have ht : handedOver isWrite s' = handedOver isWrite t := by
    rw [handedOver, handedOver, hsame.accepted_eq, hsame.pending_eq, haccepted, hpending, hpopped.accepted_eq,
      hpopped.pending_eq]
  rw [ht, handedOver, handedOver]
  cases htakes with
  | nothing hsame _ => rw [hsame.accepted_eq, hsame.pending_eq]
  | @first x rest time hpending _ hrest haccepted =>
      rw [haccepted, hpending, hrest, List.append_assoc, List.singleton_append, ofType, ofType,
        List.filter_append,
        List.filter_append, List.map_append, List.map_append, List.filter_cons, List.filter_cons]
      split_ifs <;> rfl

theorem request_cases (cfg : Config) (s : MemorySystem) (isWrite : Bool) (addr : BitVec 64) :
    ∃ x : Transaction, x.transactionType = typeOf isWrite ∧ x.address = addr ∧
      (s.request cfg isWrite addr = { s with
          memoryController := { s.memoryController with transactionQueue :=
            s.memoryController.transactionQueue ++ [x] }
          history := { s.history with accepted := s.history.accepted ++ [x] } } ∨
        s.request cfg isWrite addr = { s with pendingTransactions := s.pendingTransactions ++ [x] }) := by
  rw [request]
  by_cases hroom : s.memoryController.willAcceptTransaction cfg = true
  · rw [if_pos hroom, MemorySystem.addTransaction, if_pos hroom]
    exact ⟨_, rfl, rfl, .inl rfl⟩
  · rw [if_neg hroom]
    exact ⟨_, rfl, rfl, .inr rfl⟩

theorem ofType_snoc (isWrite w : Bool) (l l' : List Transaction) {x : Transaction}
    (hx : x.transactionType = typeOf w) :
    ((ofType (typeOf isWrite) (l ++ x :: l')).map Transaction.address).Perm
      ((ofType (typeOf isWrite) (l ++ l')).map Transaction.address ++
        requested isWrite [.request w x.address]) := by
  have hkind : (x.transactionType = typeOf isWrite) ↔ w = isWrite := by
    rw [hx]
    cases w <;> cases isWrite <;> decide
  rw [requested, List.filterMap_cons, List.filterMap_nil, ofType, ofType, List.filter_append,
    List.filter_append,
    List.filter_cons, List.map_append, List.map_append]
  by_cases hw : w = isWrite
  · simp only [hw, hkind, decide_true, if_true, List.map_cons]
    rw [List.append_assoc]
    refine List.Perm.append_left _ ?_
    exact (List.perm_append_singleton _ _).symm
  · simp only [hw, hkind, decide_false, if_false, Bool.false_eq_true, List.append_nil]
    rfl

/-- A client that calls `addTransaction(isWrite, addr)` only has each of its requests taken. -/
theorem handedOver_act (isWrite : Bool) {action : Action} (hclient : ∀ x, action ≠ .addTransaction x)
    (hact : s.act cfg action = .ok s') :
    (handedOver isWrite s').Perm (handedOver isWrite s ++ requested isWrite [action]) := by
  cases action with
  | addTransaction x => exact absurd rfl (hclient x)
  | update =>
      rw [handedOver_update isWrite hact, requested, List.filterMap_cons, List.filterMap_nil, List.append_nil]
  | resetStats =>
      cases hact
      rw [requested, List.filterMap_cons, List.filterMap_nil, List.append_nil]
      rfl
  | request w addr =>
      cases hact
      obtain ⟨x, htype, rfl, heq | heq⟩ := request_cases cfg s w addr
      · rw [heq, handedOver, handedOver, List.append_assoc]
        exact ofType_snoc isWrite w _ _ htype
      · rw [heq, handedOver, handedOver, ← List.append_assoc]
        have hsnoc := ofType_snoc isWrite w (s.history.accepted ++ s.pendingTransactions) [] htype
        rwa [List.append_nil] at hsnoc

theorem requested_append (isWrite : Bool) (actions actions' : List Action) :
    requested isWrite (actions ++ actions') = requested isWrite actions ++ requested isWrite actions' :=
  List.filterMap_append

theorem handedOver_run (isWrite : Bool) {actions : List Action} (hclient : ∀ x, .addTransaction x ∉ actions)
    (h : run cfg actions = .ok s) : (handedOver isWrite s).Perm (requested isWrite actions) := by
  induction actions using List.reverseRecOn generalizing s with
  | nil =>
      cases h
      exact List.Perm.refl _
  | append_singleton acts action ih =>
      rw [run_concat] at h
      obtain ⟨t, ht, hact⟩ := bind_ok h
      rw [requested_append]
      have hacts := ih (fun x hx => hclient x (List.mem_append_left _ hx)) ht
      refine (handedOver_act isWrite (fun x hx => ?_) hact).trans (hacts.append_right _)
      exact hclient x (List.mem_append_right _ (List.mem_singleton.mpr hx.symm))

/-- How many requests a client makes. -/
def requests (actions : List Action) : ℕ :=
  (requested false actions).length + (requested true actions).length

theorem work_act (hregular : cfg.Regular) (h : Smooth cfg s)
    {action : Action} (hclient : ∀ x, action ≠ .addTransaction x)
    (hact : s.act cfg action = .ok s') : work cfg s' ≤ work cfg s + 3 * requests [action] := by
  cases action with
  | addTransaction x => exact absurd rfl (hclient x)
  | update =>
      obtain ⟨t, t', u, hcycle⟩ := h.cycle hregular hact
      exact hcycle.work_le.trans (Nat.le_add_right _ _)
  | resetStats =>
      cases hact
      exact Nat.le_add_right _ _
  | request w addr =>
      cases hact
      have hone : requests [.request w addr] = 1 := by cases w <;> rfl
      rw [hone]
      obtain ⟨x, -, -, heq | heq⟩ := request_cases cfg s w addr
      · rw [heq, work, work]
        simp only [List.length_append, List.length_singleton]
        omega
      · rw [heq, work, work]
        simp only [List.length_append, List.length_singleton]
        omega

theorem work_run (hregular : cfg.Regular) (hroomy : cfg.Roomy) {actions : List Action}
    (hclient : ∀ x, .addTransaction x ∉ actions) (h : run cfg actions = .ok s) :
    work cfg s ≤ 3 * requests actions := by
  induction actions using List.reverseRecOn generalizing s with
  | nil =>
      cases h
      exact (work_init cfg).le.trans (Nat.zero_le _)
  | append_singleton acts action ih =>
      rw [run_concat] at h
      obtain ⟨t, ht, hact⟩ := bind_ok h
      have hacts := ih (fun x hx => hclient x (List.mem_append_left _ hx)) ht
      have hlast := work_act hregular (smooth_run hregular hroomy ht).1
        (fun x hx => hclient x (List.mem_append_right _ (List.mem_singleton.mpr hx.symm))) hact
      have hsum : requests (acts ++ [action]) = requests acts + requests [action] := by
        rw [requests, requests, requests, requested_append, requested_append, List.length_append,
          List.length_append]
        omega
      rw [hsum]
      omega

/-- A state without work in which everything was issued long ago. -/
structure Settled (cfg : Config) (s : MemorySystem) : Prop where
  work_eq : work cfg s = 0
  past : ∀ e ∈ s.history.issued, e.1 + 1 + WL + cfg.burst ≤ s.memoryController.currentClockCycle

theorem settled_run (hregular : cfg.Regular) (hroomy : cfg.Roomy) {actions : List Action}
    (hclient : ∀ x, .addTransaction x ∉ actions) {n : ℕ}
    (hn : 3 * requests actions * (cfg.longestDelay + 1) + WL + cfg.burst ≤ n)
    (h : run cfg (actions ++ List.replicate n .update) = .ok s) : Settled cfg s := by
  obtain ⟨m, rfl⟩ := Nat.exists_eq_add_of_le ((Nat.add_assoc _ _ _) ▸ hn)
  rw [run_updates] at h
  obtain ⟨t, ht, htimes⟩ := bind_ok h
  rw [Nat.add_assoc, times_add] at htimes
  obtain ⟨t', ht', htimes⟩ := bind_ok htimes
  have hwork := Nat.mul_le_mul_right (cfg.longestDelay + 1) (work_run hregular hroomy hclient ht)
  obtain ⟨hsmooth, hzero⟩ := drained hregular hroomy ht hwork ht'
  -- From then on nothing is issued, and the clock goes on.
  obtain ⟨-, hzero', hissued⟩ := times_ok
    (P := fun u => Smooth cfg u ∧ work cfg u = 0 ∧ u.history.issued = t'.history.issued)
    (fun u u' hu hupdate => by
      obtain ⟨hwork, hissued⟩ := hu.1.quiet hregular hu.2.1 hupdate
      exact ⟨hu.1.update hregular hupdate, hwork, hissued.trans hu.2.2⟩)
    ⟨hsmooth, hzero, rfl⟩ htimes
  have hclock := times_clock (fun _ _ hupdate => update_clock hupdate) htimes
  refine ⟨hzero', fun e he => ?_⟩
  rw [hissued] at he
  have hpast := hsmooth.control.timed.past e he
  rw [hclock]
  omega

theorem Settled.empty (h : Settled cfg s) : s.pendingTransactions = [] ∧
    s.memoryController.transactionQueue = [] ∧
    s.memoryController.commandQueue.packets cfg = 0 := by
  have hwork := h.work_eq
  rw [work] at hwork
  refine ⟨List.length_eq_zero_iff.mp ?_, List.length_eq_zero_iff.mp ?_, Multiset.card_eq_zero.mp ?_⟩ <;> omega

theorem Settled.due_eq (htCMD : cfg.tCMD = 1) (h : Settled cfg s) :
    due cfg BusPacket.IsRead s.memoryController.currentClockCycle s.history.issued =
      dataOf BusPacket.IsRead s.history.issued := by
  rw [due]
  refine List.filter_eq_self.mpr fun e he => ?_
  obtain ⟨f, hf, -, rfl⟩ := mem_dataOf.mp he
  have hpast := h.past f hf
  rw [decide_eq_true_eq, Config.readLine, htCMD]
  simp only [RL, WL] at hpast ⊢
  omega

theorem Settled.reads (hregular : cfg.Regular) (hone : cfg.numRanks = 1) {actions : List Action}
    (hrun : run cfg actions = .ok s) (h : Settled cfg s) : s.memoryController.pendingReadTransactions = [] ∧
      s.memoryController.returnTransaction = [] ∧
      (ofType .dataRead s.history.accepted : Multiset Transaction) = ↑(s.history.returned.map Prod.snd) := by
  have hledger := ledger_run hregular.policy hregular.tCMD_eq hrun
  have hempty := (answered_run hregular.policy hregular.tCMD_eq hone hrun).empty
  obtain ⟨-, hqueue, hpackets⟩ := h.empty
  have hhome := hledger.home
  rw [Home, hempty, h.due_eq hregular.tCMD_eq, Multiset.coe_nil, Multiset.map_zero, add_zero] at hhome
  have hpending := hledger.requests.pending
  rw [asked, hpackets, Multiset.filter_zero, Multiset.map_zero, zero_add, hhome] at hpending
  have hnone : s.memoryController.pendingReadTransactions = [] := by
    have hzero := add_eq_right.mp hpending
    rw [Multiset.map_eq_zero, Multiset.coe_eq_zero] at hzero
    exact hzero
  refine ⟨hnone, hempty, ?_⟩
  have hreads := hledger.requests.reads
  rw [hqueue, hnone] at hreads
  rw [hreads]
  rfl

theorem Settled.writes_past (h : Settled cfg s) :
    ∀ e ∈ dataOf BusPacket.IsWrite s.history.issued,
      e.1 + writeLine + cfg.burst ≤ s.memoryController.currentClockCycle := by
  intro e he
  obtain ⟨f, hf, -, rfl⟩ := mem_dataOf.mp he
  have hpast := h.past f hf
  rw [writeLine]
  omega

/-- In a settled state every accepted write was reported done. -/
theorem Settled.writes (hregular : cfg.Regular) (hone : cfg.numRanks = 1) {actions : List Action}
    (hrun : run cfg actions = .ok s) (h : Settled cfg s) :
    (ofType .dataWrite s.history.accepted : Multiset Transaction).map Transaction.written =
      (s.history.written.map Prod.snd : Multiset BusPacket).map BusPacket.written := by
  have hledger := ledger_run hregular.policy hregular.tCMD_eq hrun
  obtain ⟨-, hqueue, hpackets⟩ := h.empty
  have hspaced := (timed_run hregular.policy hrun).2.one_rank_spaced hone
    (issued_ranks hregular.policy hregular.tCMD_eq hrun)
  obtain ⟨done, slot, wait, hflow, -, hwritten⟩ := writesFlow_run hrun hspaced
  obtain ⟨hdone, -, -⟩ := hflow.drained h.writes_past
  have hwrites := hledger.requests.writes
  rw [hqueue, asked, hpackets, Multiset.filter_zero, Multiset.map_zero, zero_add] at hwrites
  rw [hwrites, hwritten, hdone, List.map_map, Multiset.map_coe (l := List.map _ _), List.map_map]
  exact zero_add _

/-- Nothing is left in any place of the memory system. -/
structure Vacant (cfg : Config) (s : MemorySystem) : Prop where
  pending : s.pendingTransactions = []
  transactions : s.memoryController.transactionQueue = []
  commands : s.memoryController.commandQueue.packets cfg = 0
  reads : s.memoryController.pendingReadTransactions = []
  returns : s.memoryController.returnTransaction = []
  commandBus : s.memoryController.outgoingCmdPacket = none
  dataBus : s.memoryController.outgoingDataPacket = none
  writes : s.memoryController.writeDataToSend = []
  countdowns : s.memoryController.writeDataCountdown = []
  rankBuses : ∀ r < cfg.numRanks, (s.ranks r).outgoingDataPacket = none
  rankReads : ∀ r < cfg.numRanks, (s.ranks r).readReturnPacket = []
  rankCountdowns : ∀ r < cfg.numRanks, (s.ranks r).readReturnCountdown = []

/-- In a settled state the buses and the pipes are empty as well. -/
theorem Settled.vacant (hregular : cfg.Regular) (hone : cfg.numRanks = 1) {actions : List Action}
    (hrun : run cfg actions = .ok s) (h : Settled cfg s) : Vacant cfg s := by
  obtain ⟨hpending, hqueue, hpackets⟩ := h.empty
  obtain ⟨hreads, hreturn, -⟩ := h.reads hregular hone hrun
  have hspaced := (timed_run hregular.policy hrun).2.one_rank_spaced hone
    (issued_ranks hregular.policy hregular.tCMD_eq hrun)
  obtain ⟨done, slot, wait, hflow, hcarries, -⟩ := writesFlow_run hrun hspaced
  obtain ⟨-, rfl, rfl⟩ := hflow.drained h.writes_past
  obtain ⟨sent, harrived, hpipes⟩ := inFlight_run hregular.policy hregular.tCMD_eq hrun
  obtain ⟨hbus, hsent⟩ : s.memoryController.outgoingCmdPacket = none ∧ s.history.issued = sent := by
    rcases harrived with harrived | ⟨t, p, -, -, htime, hissued⟩
    · exact harrived
    · have hpast := h.past (t, p) (hissued ▸ List.mem_append_right _ (List.mem_singleton_self _))
      simp only [WL] at hpast
      omega
  have hranks : ∀ r < cfg.numRanks, (s.ranks r).outgoingDataPacket = none ∧
      (s.ranks r).readReturnPacket = [] ∧
      (s.ranks r).readReturnCountdown = [] := by
    intro r hr
    obtain ⟨done, slot, wait, hflow, hcarries⟩ := hpipes r hr
    obtain ⟨-, rfl, rfl⟩ := hflow.drained fun e he => by
      obtain ⟨f, hf, -, rfl⟩ := mem_dataOf.mp he
      have hpast := h.past f (hsent ▸ hf)
      rw [Config.readLine, hregular.tCMD_eq]
      simp only [RL, WL] at hpast ⊢
      omega
    exact ⟨hcarries.bus_eq, hcarries.packets_eq, hcarries.line_eq⟩
  exact ⟨hpending, hqueue, hpackets, hreads, hreturn, hbus, hcarries.bus_eq, hcarries.packets_eq,
    hcarries.line_eq,
    fun r hr => (hranks r hr).1, fun r hr => (hranks r hr).2.1, fun r hr => (hranks r hr).2.2⟩

/-- **Every request is answered.** With one rank, reads and writes that a client asks for with
`addTransaction(isWrite, addr)` are all answered, each once, after as many updates more as their number and
the longest delay ask for; nothing is left anywhere. -/
theorem every_request_answered (cfg : Config) (hregular : cfg.Regular) (hroomy : cfg.Roomy)
    (hone : cfg.numRanks = 1) (actions : List Action) (hclient : ∀ x, .addTransaction x ∉ actions)
    (n : ℕ) (hn : 3 * requests actions * (cfg.longestDelay + 1) + WL + cfg.burst ≤ n) :
    ∃ s, run cfg (actions ++ List.replicate n .update) = .ok s ∧
      (s.history.returned.map fun e => e.2.address).Perm (requested false actions) ∧
      (s.history.written.map fun e => e.2.physicalAddress).Perm (requested true actions) ∧ Vacant cfg s := by
  have hclient' : ∀ x, .addTransaction x ∉ actions ++ List.replicate n .update := by
    intro x hx
    rcases List.mem_append.mp hx with hx | hx
    · exact hclient x hx
    · cases List.eq_of_mem_replicate hx
  have hrequests : ∀ action ∈ actions ++ List.replicate n .update, action.IsRequest := by
    intro action haction
    cases action with
    | addTransaction x => exact absurd haction (hclient' x)
    | update => trivial
    | request isWrite addr => trivial
    | resetStats => trivial
  have hlater : ∀ isWrite, requested isWrite (actions ++ List.replicate n .update) =
      requested isWrite actions := by
    intro isWrite
    have hnone : requested isWrite (List.replicate n .update) = [] := by
      rw [requested, List.filterMap_eq_nil_iff]
      intro action haction
      rw [List.eq_of_mem_replicate haction]
    rw [requested_append, hnone, List.append_nil]
  obtain ⟨s, hrun⟩ := run_total hregular hone hrequests
  have hsettled := settled_run hregular hroomy hclient hn hrun
  obtain ⟨-, -, hreturned⟩ := hsettled.reads hregular hone hrun
  have hwritten := hsettled.writes hregular hone hrun
  have hvacant := hsettled.vacant hregular hone hrun
  have htaken : ∀ isWrite, ((ofType (typeOf isWrite) s.history.accepted).map Transaction.address).Perm
      (requested isWrite actions) := by
    intro isWrite
    have hover := handedOver_run isWrite hclient' hrun
    rwa [handedOver, hvacant.pending, List.append_nil, hlater] at hover
  refine ⟨s, hrun, ?_, ?_, hvacant⟩
  · refine List.Perm.trans ?_ (htaken false)
    have hperm := (Multiset.coe_eq_coe.mp hreturned).symm.map Transaction.address
    rwa [List.map_map] at hperm
  · refine List.Perm.trans ?_ (htaken true)
    have hperm := congrArg (Multiset.map Prod.fst) hwritten.symm
    rw [Multiset.map_coe, Multiset.map_coe, Multiset.map_coe, Multiset.map_coe, Multiset.coe_eq_coe] at hperm
    rwa [List.map_map, List.map_map, List.map_map] at hperm

theorem regular_ddr2 : (ddr2Micron 1 (by decide)).Regular where
  policy := rfl
  tCMD_eq := rfl
  refresh_ne := by decide
  powers := ⟨by decide, 3, rfl⟩

/-- A client that writes to a line and reads it and another one. -/
def writeReadRead : List Action :=
  [.request true 0, .request false 0, .update, .request false 0x40]

theorem every_request_answered_ddr2 :
    ∃ s, run (ddr2Micron 1 (by decide)) (writeReadRead ++ List.replicate 126 .update) = .ok s ∧
      (s.history.returned.map fun e => e.2.address).Perm [0, 0x40] ∧
      (s.history.written.map fun e => e.2.physicalAddress).Perm [0] ∧ Vacant (ddr2Micron 1 (by decide)) s :=
  every_request_answered (ddr2Micron 1 (by decide)) regular_ddr2 ⟨by decide, by decide, by decide,
    by decide⟩ rfl
    writeReadRead (by simp [writeReadRead]) 126 (by decide)

end MemorySystem

end RacerArtifacts.Mram
