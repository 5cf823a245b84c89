import RacerArtifacts.MramTimers

/-! The order of the requests to one address. Scheduling keeps it, and so does a queue for each bank; the
search through a rank's queue keeps it as long as the candidate it takes has no earlier command of its
address in front of it. -/

namespace RacerArtifacts.Mram

open CommandQueue MemoryController

/-- What is asked of the memory: a read or a write, its address and its data. -/
abbrev Request := TransactionType × BitVec 64 × ℕ

def Transaction.request (transaction : Transaction) : Request :=
  (transaction.transactionType, transaction.address, transaction.data)

def BusPacket.request (p : BusPacket) : Request :=
  (if p.busPacketType = .readP then .dataRead else .dataWrite, p.physicalAddress, p.data)

theorem Transaction.request_packet (cfg : Config) {transaction : Transaction}
    (htype : transaction.transactionType ≠ .returnData) :
    (transaction.packet cfg (requestType transaction.transactionType) transaction.data).request =
      transaction.request := by
  rw [BusPacket.request, Transaction.request]
  refine congrArg₂ Prod.mk ?_ rfl
  change (if requestType transaction.transactionType = .readP then _ else _) = _
  cases ht : transaction.transactionType with
  | dataRead => rfl
  | dataWrite => rfl
  | returnData => exact absurd ht htype

/-- The requests to an address among transactions. -/
def requestsOf (a : BitVec 64) (transactions : List Transaction) : List Request :=
  (transactions.filter fun t => decide (t.address = a)).map Transaction.request

/-- The requests to an address among packets. -/
def commandsOf (a : BitVec 64) (packets : List BusPacket) : List Request :=
  (packets.filter fun p => decide (p.physicalAddress = a)).map BusPacket.request

theorem requestsOf_append (a : BitVec 64) (l l' : List Transaction) :
    requestsOf a (l ++ l') = requestsOf a l ++ requestsOf a l' := by
  rw [requestsOf, List.filter_append, List.map_append]
  rfl

theorem commandsOf_append (a : BitVec 64) (l l' : List BusPacket) :
    commandsOf a (l ++ l') = commandsOf a l ++ commandsOf a l' := by
  rw [commandsOf, List.filter_append, List.map_append]
  rfl

theorem requestsOf_eq_nil {a : BitVec 64} {l : List Transaction} (h : ∀ t ∈ l, t.address ≠ a) :
    requestsOf a l = [] := by
  rw [requestsOf, List.filter_eq_nil_iff.mpr fun t ht => by simpa using h t ht]
  rfl

theorem commandsOf_eq_nil {a : BitVec 64} {l : List BusPacket} (h : ∀ p ∈ l, p.physicalAddress ≠ a) :
    commandsOf a l = [] := by
  rw [commandsOf, List.filter_eq_nil_iff.mpr fun p hp => by simpa using h p hp]
  rfl

theorem requestsOf_singleton_self {a : BitVec 64} {t : Transaction} (h : t.address = a) :
    requestsOf a [t] = [t.request] := by
  simp only [requestsOf, List.filter_cons, h, decide_true, if_true, List.filter_nil,
    List.map_cons, List.map_nil]

theorem mem_commandsOf {a : BitVec 64} {r : Request} {l : List BusPacket} :
    r ∈ commandsOf a l ↔ ∃ p ∈ l, p.physicalAddress = a ∧ p.request = r := by
  simp only [commandsOf, List.mem_map, List.mem_filter, decide_eq_true_eq, and_assoc]

/-- A request cannot come next where another one of its address stands before it. -/
theorem not_prefix_of_overtaken {a : BitVec 64} {r : Request} {x : BusPacket} {front : List BusPacket}
    (hx : x ∈ front) (ha : x.physicalAddress = a) (hne : ∀ y ∈ front, y.physicalAddress = a → y.request ≠ r)
    (tail : List Request) : ¬ [r] <+: commandsOf a front ++ tail := by
  intro hinit
  have hmem : x.request ∈ commandsOf a front := mem_commandsOf.mpr ⟨x, hx, ha, rfl⟩
  cases hfront : commandsOf a front with
  | nil =>
      rw [hfront] at hmem
      cases hmem
  | cons y l =>
      rw [hfront, List.cons_append, List.cons_prefix_cons] at hinit
      obtain ⟨z, hz, hza, hzy⟩ := mem_commandsOf.mp (hfront ▸ List.mem_cons_self : y ∈ commandsOf a front)
      exact hne z hz hza (hzy.trans hinit.1.symm)

theorem commandsOf_singleton_self {a : BitVec 64} {p : BusPacket} (h : p.physicalAddress = a) :
    commandsOf a [p] = [p.request] := by
  simp only [commandsOf, List.filter_cons, h, decide_true, if_true, List.filter_nil,
    List.map_cons, List.map_nil]

namespace MemorySystem

variable {cfg : Config} {s s' t t' u : MemorySystem} {a : BitVec 64}

/-- The requests to an address that were accepted. -/
def acceptedOf (a : BitVec 64) (s : MemorySystem) : List Request :=
  requestsOf a s.history.accepted

/-- The requests to an address whose commands were popped and issued. -/
def issuedOf (a : BitVec 64) (s : MemorySystem) : List Request :=
  commandsOf a ((s.history.issued.map Prod.snd).filter fun p => decide p.IsColumn)

/-- The requests to an address whose commands are in the queue of its place. -/
def queuedOf (cfg : Config) (a : BitVec 64) (s : MemorySystem) : List Request :=
  commandsOf a (s.memoryController.commandQueue.getCommandQueue cfg (addressMapping cfg a 0).rank
    (addressMapping cfg a 0).bank)

/-- The requests to an address whose transactions wait to be scheduled. -/
def waitingOf (a : BitVec 64) (s : MemorySystem) : List Request :=
  requestsOf a s.memoryController.transactionQueue

/-- **The commands of each address have been issued in the order in which its transactions were accepted.** -/
def InOrder (s : MemorySystem) : Prop :=
  ∀ a, issuedOf a s <+: acceptedOf a s

/-- The requests to an address, in the order of acceptance, are those issued, those in its queue and those
that wait. -/
def Ordered (cfg : Config) (s : MemorySystem) : Prop :=
  ∀ a, acceptedOf a s = issuedOf a s ++ queuedOf cfg a s ++ waitingOf a s

/-- A column command that is issued comes last for its address. -/
theorem issuedOf_push {time : ℕ} {p : BusPacket} (h : t'.history.issued = t.history.issued ++ [(time, p)])
    (hp : p.IsColumn) (a : BitVec 64) : issuedOf a t' = issuedOf a t ++ commandsOf a [p] := by
  rw [issuedOf, h, List.map_append, List.filter_append, commandsOf_append]
  exact congrArg (_ ++ commandsOf a ·) (List.filter_cons_of_pos (decide_eq_true hp))

theorem Ordered.inOrder (h : Ordered cfg s) : InOrder s := by
  intro a
  rw [h a, List.append_assoc]
  exact List.prefix_append _ _

theorem Ordered.taken (h : Ordered cfg s)
    (hqueues : t.memoryController.commandQueue.queues = s.memoryController.commandQueue.queues)
    (hissued : t.history.issued = s.history.issued)
    (htaken : ∃ taken, t.memoryController.transactionQueue = s.memoryController.transactionQueue ++ taken ∧
      t.history.accepted = s.history.accepted ++ taken) : Ordered cfg t := by
  obtain ⟨taken, hqueue, haccepted⟩ := htaken
  intro a
  have hs := h a
  rw [acceptedOf, issuedOf, queuedOf, getCommandQueue, waitingOf] at hs ⊢
  rw [haccepted, hissued, hqueues, hqueue, requestsOf_append, requestsOf_append, hs]
  exact List.append_assoc _ _ _

/-- Two addresses with commands in one queue have the same queue. -/
theorem queue_of_placed {r b : ℕ} {p : BusPacket} (h : Placed cfg r b p) :
    (addressMapping cfg p.physicalAddress 0).rank = r ∧
    cfg.slot (addressMapping cfg p.physicalAddress 0).bank = b := by
  rw [← h.mapped_rank, ← h.mapped_bank]
  exact ⟨h.rank_eq, h.slot_eq⟩

/-- Setting a queue changes the commands of an address in its own queue only. -/
theorem commandsOf_setCommandQueue (cq : CommandQueue) (rank bank : ℕ) (queue : List BusPacket) (r b : ℕ) :
    commandsOf a ((cq.setCommandQueue cfg rank bank queue).queues r b) =
      if r = rank ∧ b = cfg.slot bank then commandsOf a queue else commandsOf a (cq.queues r b) := by
  rw [setCommandQueue_queues]
  split_ifs <;> rfl

/-- **The candidate a cycle takes has no earlier command of its address in front of it**: where the search
ends, if it is not a refresh that goes out. -/
def CandidateFirst (cfg : Config) (s : MemorySystem) : Prop :=
  let cq := (s.checkRefresh cfg).memoryController.commandQueue
  let bankStates := s.memoryController.idleBanks.bankStates
  ¬ RefreshGoes cfg bankStates cq → ∀ k front p rest, SearchEnds cfg bankStates cq k →
    ((advance cfg)^[k] cq).mayLook cfg = true →
    Candidate cfg bankStates cq (((advance cfg)^[k] cq).here cfg) front p rest →
    ∀ x ∈ front, x.physicalAddress ≠ p.physicalAddress

/-- With a queue for each bank there is nothing in front of a candidate. -/
theorem candidateFirst_of_perRankPerBank (hstructure : cfg.queuingStructure = .perRankPerBank)
    (s : MemorySystem) :
    CandidateFirst cfg s := by
  intro _ k front p rest _ _ hcandidate x hx
  rw [hcandidate.front_eq hstructure] at hx
  cases hx

/-- The candidate a cycle takes, in the queue of its own rank and bank. -/
theorem candidate_queued (hshape : Shape cfg s) {k : ℕ} {front rest : List BusPacket} {p : BusPacket}
    (h : Candidate cfg s.memoryController.idleBanks.bankStates
      (s.checkRefresh cfg).memoryController.commandQueue
      (((advance cfg)^[k] (s.checkRefresh cfg).memoryController.commandQueue).here cfg) front p rest) :
    p.IsColumn ∧ p.rank < cfg.numRanks ∧ p.bank < cfg.numBanks ∧
      Candidate cfg s.memoryController.idleBanks.bankStates s.memoryController.commandQueue
        (s.memoryController.commandQueue.getCommandQueue cfg p.rank p.bank) front p rest := by
  obtain ⟨ranks, waiting, rank, countdown, next, -, heq⟩ := checkRefresh_eq cfg s
  rw [heq, here, getCommandQueue, (same_iterate cfg _ k).queues_eq] at h
  have hmem := List.mem_append_right front (List.mem_cons_self (a := p) (l := rest))
  rw [← h.queue_eq] at hmem
  have hplaced : Placed cfg _ _ p := hshape.placed _ _ p hmem
  obtain ⟨hrank, hbank, -, -⟩ := isIssuable_true hplaced.column h.issuable
  refine ⟨hplaced.column, hrank, hbank, ?_, h.issuable, h.first, h.front_eq⟩
  rw [getCommandQueue, hplaced.slot_eq, hplaced.rank_eq]
  exact h.queue_eq

/-- A later command of the same address may not be issued before the earlier one may. -/
def KeepsTurn (cfg : Config) (bankStates : BankStates) (cq : CommandQueue) (x p : BusPacket) : Prop :=
  x.physicalAddress = p.physicalAddress → cq.isIssuable cfg bankStates p = .ok true →
    cq.isIssuable cfg bankStates x = .ok true

instance (cfg : Config) (bankStates : BankStates) (cq : CommandQueue) (x p : BusPacket) :
    Decidable (KeepsTurn cfg bankStates cq x p) :=
  inferInstanceAs (Decidable (_ → _ → _))

/-- The commands of every queue keep their turn. -/
def QueuesInOrder (cfg : Config) (s : MemorySystem) : Prop :=
  ∀ rank < cfg.numRanks, ∀ bank < cfg.numBanks,
    (s.memoryController.commandQueue.getCommandQueue cfg rank bank).Pairwise
      (KeepsTurn cfg s.memoryController.idleBanks.bankStates s.memoryController.commandQueue)

instance (cfg : Config) (s : MemorySystem) : Decidable (QueuesInOrder cfg s) :=
  inferInstanceAs (Decidable (∀ rank < cfg.numRanks, ∀ bank < cfg.numBanks, List.Pairwise _ _))

theorem QueuesInOrder.candidateFirst (hshape : Shape cfg s) (h : QueuesInOrder cfg s) :
    CandidateFirst cfg s := by
  intro _ k front p rest _ _ hcandidate x hx haddress
  obtain ⟨-, hrank, hbank, hqueued⟩ := candidate_queued hshape hcandidate
  have hqueue := h p.rank hrank p.bank hbank
  rw [hqueued.queue_eq, List.pairwise_append] at hqueue
  have hissuable := hqueue.2.2 x hx p List.mem_cons_self haddress hqueued.issuable
  rw [hqueued.first x hx] at hissuable
  cases hissuable

/-- What a pop does to the requests of an address: it moves the candidate's request from its queue to those
issued. -/
theorem ordered_pop_column (hshape : Shape cfg t) (hordered : Ordered cfg t) {k : ℕ}
    {front rest : List BusPacket} {p : BusPacket} {time : ℕ}
    (hqueue : ((advance cfg)^[k] t.memoryController.commandQueue).here cfg = front ++ p :: rest)
    (hqueues : t'.memoryController.commandQueue.queues = (t.memoryController.commandQueue.setCommandQueue cfg
      ((advance cfg)^[k] t.memoryController.commandQueue).nextRank
      ((advance cfg)^[k] t.memoryController.commandQueue).nextBank (front ++ rest)).queues)
    (hissued : t'.history.issued = t.history.issued ++ [(time, p)])
    (hwaiting : t'.memoryController.transactionQueue = t.memoryController.transactionQueue)
    (haccepted : t'.history.accepted = t.history.accepted)
    (hfirst : ∀ x ∈ front, x.physicalAddress ≠ p.physicalAddress) : Ordered cfg t' := by
  intro a
  have ha := hordered a
  have hp : Placed cfg _ _ p := hshape.middle hqueue
  rw [acceptedOf, queuedOf, getCommandQueue, waitingOf] at ha ⊢
  rw [issuedOf_push hissued hp.column, haccepted, hwaiting, hqueues, commandsOf_setCommandQueue, ha]
  refine congrArg (· ++ _) ?_
  rw [List.append_assoc]
  refine congrArg (_ ++ ·) ?_
  have hiter := (same_iterate cfg t.memoryController.commandQueue k).queues_eq
  by_cases hplace : (addressMapping cfg a 0).rank =
    ((advance cfg)^[k] t.memoryController.commandQueue).nextRank ∧
      cfg.slot (addressMapping cfg a 0).bank =
        cfg.slot ((advance cfg)^[k] t.memoryController.commandQueue).nextBank
  · rw [if_pos hplace, hplace.1, hplace.2, ← hiter]
    change commandsOf a (((advance cfg)^[k] t.memoryController.commandQueue).here cfg) = _
    rw [hqueue, List.append_cons, commandsOf_append, commandsOf_append, commandsOf_append]
    by_cases haddress : p.physicalAddress = a
    · rw [commandsOf_eq_nil fun x hx => haddress ▸ hfirst x hx]
      rfl
    · have hnil : commandsOf a [p] = [] := commandsOf_eq_nil fun x hx => by
        rw [List.mem_singleton.mp hx]
        exact haddress
      rw [hnil, List.append_nil, List.nil_append]
  · rw [if_neg hplace]
    have hnil : commandsOf a [p] = [] := commandsOf_eq_nil fun x hx haddress => hplace (by
      rw [List.mem_singleton.mp hx] at haddress
      rw [← haddress]
      exact queue_of_placed hp)
    rw [hnil]
    rfl

/-- Scheduling takes the first waiting transaction of an address. -/
theorem ordered_schedule (hpolicy : cfg.rowBufferPolicy = .closePage) (hordered : Ordered cfg s)
    (h : s.schedule cfg = .ok u) : Ordered cfg u := by
  rcases schedule_ok hpolicy h with rfl | ⟨before, transaction, rest, pending, hsplit, hbefore, hroom,
    htype, -, rfl⟩
  · exact hordered
  intro a
  have ha := hordered a
  simp only [acceptedOf, issuedOf, queuedOf, getCommandQueue, waitingOf] at ha ⊢
  rw [commandsOf_setCommandQueue, ha, hsplit, List.append_assoc, List.append_assoc, List.append_cons]
  refine congrArg (_ ++ ·) ?_
  rw [requestsOf_append, requestsOf_append, requestsOf_append, commandsOf_append]
  by_cases haddress : transaction.address = a
  · subst haddress
    -- An earlier transaction of the address would have found the same room.
    have hnil : requestsOf transaction.address before = [] := by
      apply requestsOf_eq_nil
      intro x hx hsame
      have hfull := hbefore x hx
      rw [hsame, hroom] at hfull
      cases hfull
    have hcommand : commandsOf transaction.address
        [transaction.packet cfg (requestType transaction.transactionType) transaction.data] =
          [transaction.request] := by
      rw [← Transaction.request_packet cfg htype]
      exact commandsOf_singleton_self rfl
    rw [if_pos ⟨rfl, rfl⟩, hnil, requestsOf_singleton_self rfl, hcommand]
    simp only [List.nil_append, List.append_assoc]
  · have hnil : requestsOf a [transaction] = [] := requestsOf_eq_nil fun x hx => by
      rw [List.mem_singleton.mp hx]
      exact haddress
    have hnil' : commandsOf a [transaction.packet cfg
        (requestType transaction.transactionType) transaction.data] = [] :=
      commandsOf_eq_nil fun x hx => by
        rw [List.mem_singleton.mp hx]
        exact haddress
    rw [hnil, hnil', List.append_nil]
    split_ifs with hplace
    · rw [hplace.1, hplace.2, List.append_nil]
    · rfl

theorem Candidate.unique {bankStates : BankStates} {cq : CommandQueue}
    {queue front front' rest rest' : List BusPacket}
    {p p' : BusPacket} (h : Candidate cfg bankStates cq queue front p rest)
    (h' : Candidate cfg bankStates cq queue front' p' rest') : front' = front ∧ p' = p ∧ rest' = rest := by
  rcases List.append_eq_append_iff.mp (h.queue_eq.symm.trans h'.queue_eq) with
    ⟨c, hfront, hrest⟩ | ⟨c, hfront, hrest⟩
  · cases c with
    | nil =>
        cases hrest
        exact ⟨by rw [hfront, List.append_nil], rfl, rfl⟩
    | cons x c =>
        cases hrest
        have hbad := h'.first p (hfront ▸ List.mem_append_right _ List.mem_cons_self)
        rw [h.issuable] at hbad
        cases hbad
  · cases c with
    | nil =>
        cases hrest
        exact ⟨by rw [hfront, List.append_nil], rfl, rfl⟩
    | cons x c =>
        cases hrest
        have hbad := h.first p' (hfront ▸ List.mem_append_right _ List.mem_cons_self)
        rw [h'.issuable] at hbad
        cases hbad

theorem iterate_backAt {cq : CommandQueue} {k : ℕ} (h : ((advance cfg)^[k] cq).backAt cfg cq = true) :
    (advance cfg)^[k] cq = cq := by
  have hiter : ∀ j, ∃ rank bank, (advance cfg)^[j] cq = { cq with nextRank := rank, nextBank := bank } ∧
      (cfg.queuingStructure = .perRank → bank = cq.nextBank) := by
    intro j
    induction j with
    | zero => exact ⟨cq.nextRank, cq.nextBank, rfl, fun _ => rfl⟩
    | succ j ih =>
        obtain ⟨rank, bank, heq, hbank⟩ := ih
        rw [Function.iterate_succ_apply', heq, advance]
        cases hstructure : cfg.queuingStructure with
        | perRank => exact ⟨_, bank, rfl, fun _ => hbank hstructure⟩
        | perRankPerBank => exact ⟨_, _, rfl, fun hbad => by cases hbad⟩
  obtain ⟨rank, bank, heq, hbank⟩ := hiter k
  rw [heq] at h ⊢
  rw [backAt] at h
  cases hstructure : cfg.queuingStructure with
  | perRank =>
      rw [hstructure] at h
      have hrank : cq.nextRank = rank := of_decide_eq_true h
      rw [← hrank, hbank hstructure]
  | perRankPerBank =>
      rw [hstructure] at h
      obtain ⟨hrank, hbank⟩ : cq.nextRank = rank ∧ cq.nextBank = bank := of_decide_eq_true h
      rw [← hrank, ← hbank]

/-- The first queue in the round robin that has a candidate is the one the search ends at. -/
theorem search_unique {bankStates : BankStates} {cq : CommandQueue} {k k' : ℕ} {front rest : List BusPacket}
    {p : BusPacket} (hends : SearchEnds cfg bankStates cq k)
    (hlook : ((advance cfg)^[k] cq).mayLook cfg = true)
    (hcandidate : Candidate cfg bankStates cq (((advance cfg)^[k] cq).here cfg) front p rest)
    (hends' : SearchEnds cfg bankStates cq k') :
    (∀ front' p' rest', ((advance cfg)^[k'] cq).mayLook cfg = true →
        Candidate cfg bankStates cq (((advance cfg)^[k'] cq).here cfg) front' p' rest' → k' = k) ∧
      ¬ (0 < k' ∧ ((advance cfg)^[k'] cq).backAt cfg cq = true) := by
  have hle : k' ≤ k := by
    by_contra hlt
    exact hends'.before k (not_le.mp hlt) hlook front p rest hcandidate
  refine ⟨fun front' p' rest' hlook' hcandidate' => ?_, fun ⟨hpos, hback⟩ => ?_⟩
  · apply le_antisymm hle
    by_contra hlt
    exact hends.before k' (not_le.mp hlt) hlook' front' p' rest' hcandidate'
  · -- Going round, the search would have met the candidate in its first round.
    have hround : (advance cfg)^[k % k'] cq = (advance cfg)^[k] cq := by
      conv_rhs => rw [← Nat.mod_add_div k k', Function.iterate_add_apply]
      rw [Function.iterate_mul, Function.iterate_fixed (iterate_backAt hback)]
    refine hends'.before (k % k') (Nat.mod_lt k hpos) ?_ front p rest ?_
    · rw [hround]
      exact hlook
    · rw [hround]
      exact hcandidate

/-- Two commands of one queue that ask for the same are issuable alike. -/
theorem isIssuable_eq_of_request {bankStates : BankStates} {cq : CommandQueue} {r b : ℕ} {p q : BusPacket}
    (hp : Placed cfg r b p) (hq : Placed cfg r b q) (haddress : p.physicalAddress = q.physicalAddress)
    (hrequest : p.request = q.request) : cq.isIssuable cfg bankStates p = cq.isIssuable cfg bankStates q := by
  have htype : p.busPacketType = q.busPacketType := by
    have hkind := congrArg Prod.fst hrequest
    rw [BusPacket.request, BusPacket.request] at hkind
    rcases hp.column with h | h
    · rcases hq.column with h' | h'
      · rw [h, h']
      · rw [h, h'] at hkind
        cases hkind
    · rcases hq.column with h' | h'
      · rw [h, h'] at hkind
        cases hkind
      · rw [h, h']
  rw [isIssuable_column hp.column, isIssuable_column hq.column, timer, timer, hp.mapped_rank, hp.mapped_bank,
    hq.mapped_rank, hq.mapped_bank, haddress, htype]

/-- Where the order is kept, the candidate that has been issued is the first of its address: what is issued
next to the address would otherwise have to be the request of the earlier command. -/
theorem candidate_first_of_inOrder (hshape : Shape cfg t) (hordered : Ordered cfg t) {bankStates : BankStates}
    {cq : CommandQueue} {k time : ℕ} {front rest : List BusPacket} {p : BusPacket}
    (hcandidate : Candidate cfg bankStates cq
      (((advance cfg)^[k] t.memoryController.commandQueue).here cfg) front p
      rest)
    (hissued : s'.history.issued = t.history.issued ++ [(time, p)])
    (haccepted : s'.history.accepted = t.history.accepted) (hinOrder : InOrder s') :
    ∀ x ∈ front, x.physicalAddress ≠ p.physicalAddress := by
  intro x hx haddress
  have hqueue : ∀ y ∈ front, y.physicalAddress = p.physicalAddress → y.request ≠ p.request := by
    intro y hy hya hrequest
    have hfalse := hcandidate.first y hy
    rw [isIssuable_eq_of_request (hshape.here (k := k) ?_) (hshape.here (k := k) ?_) hya hrequest,
      hcandidate.issuable] at hfalse
    · cases hfalse
    · rw [hcandidate.queue_eq]
      exact List.mem_append_left _ hy
    · rw [hcandidate.queue_eq]
      exact List.mem_append_right _ List.mem_cons_self
  have hplaced : Placed cfg _ _ p := hshape.middle hcandidate.queue_eq
  obtain ⟨hrank, hslot⟩ := queue_of_placed hplaced
  have hinit := hinOrder p.physicalAddress
  have ha := hordered p.physicalAddress
  rw [acceptedOf, haccepted] at hinit
  rw [issuedOf_push hissued hplaced.column, commandsOf_singleton_self rfl] at hinit
  rw [acceptedOf, queuedOf, getCommandQueue, hrank, hslot, ← (same_iterate cfg _ k).queues_eq] at ha
  change _ <+: requestsOf _ t.history.accepted at hinit
  change _ = _ ++ commandsOf _ (((advance cfg)^[k] t.memoryController.commandQueue).here cfg) ++ _ at ha
  rw [ha, List.append_assoc, List.prefix_append_right_inj, hcandidate.queue_eq, commandsOf_append,
    List.append_assoc] at hinit
  exact not_prefix_of_overtaken hx haddress hqueue _ hinit

/-- **A cycle keeps the order** if the candidate it takes is first for its address, and only then: one that
overtakes a command of its address shows in the order of the commands issued. -/
theorem ordered_update (hpolicy : cfg.rowBufferPolicy = .closePage) (hcontrol : Control cfg s)
    (hordered : Ordered cfg s) (h : s.update cfg = .ok s') :
    (CandidateFirst cfg s → Ordered cfg s') ∧ (InOrder s' → CandidateFirst cfg s) := by
  obtain ⟨t, t', u, hprepared, hpop, hschedule, hfinished⟩ := update_control h
  obtain ⟨hshape, htimed, hbus⟩ := hcontrol.prepared hprepared
  have hordered₀ : Ordered cfg t := hordered.taken (by rw [hprepared.queue_eq, (checkRefresh_same cfg s).1])
    hprepared.issued_eq hprepared.taken
  have hafter : Ordered cfg t' → Ordered cfg s' := fun ht' =>
    (ordered_schedule hpolicy ht' hschedule).taken hfinished.queues_eq hfinished.issued_eq
      (taken_nil hfinished.transactionQueue_eq hfinished.accepted_eq)
  have hissued : s'.history.issued = t'.history.issued ∧ s'.history.accepted = t'.history.accepted := by
    rw [hfinished.issued_eq, hfinished.accepted_eq]
    rcases schedule_ok hpolicy hschedule with rfl | ⟨_, _, _, _, -, -, -, -, -, rfl⟩ <;> exact ⟨rfl, rfl⟩
  unfold CandidateFirst
  dsimp only
  rw [← hprepared.queue_eq, ← hprepared.banks_eq]
  cases popCommand_ok hpolicy hprepared.idle (fun r b p hp => (hshape.placed r b p hp).column) hpop with
  | refresh hgoes hqueues hclock hissues =>
      obtain ⟨_, _, _, _, -, -, -, rfl⟩ := hissues
      refine ⟨fun _ => hafter fun a => ?_, fun _ hstays => absurd hgoes hstays⟩
      have ha := hordered₀ a
      simp only [acceptedOf, issuedOf, queuedOf, getCommandQueue, waitingOf] at ha ⊢
      rw [ha, hqueues, List.map_append, List.filter_append, commandsOf_append]
      refine congrArg (· ++ _ ++ _) ?_
      exact (List.append_nil _).symm
  | nothing hstays hends hpos hback hsame heq =>
      subst heq
      refine ⟨fun _ => hafter (hordered₀.taken hsame.queues_eq rfl (taken_nil rfl rfl)), ?_⟩
      intro _ _ k front p rest hends' hlook hcandidate
      exact absurd ⟨hpos, hback⟩ (search_unique hends' hlook hcandidate hends).2
  | @column hstays k hends hlook front p rest hcandidate cq hsame hissues =>
      obtain ⟨_, _, _, _, -, -, -, rfl⟩ := hissues
      constructor
      · intro hfirst
        exact hafter (ordered_pop_column hshape hordered₀ hcandidate.queue_eq hsame.queues_eq rfl rfl rfl
          (hfirst hstays k front p rest hends hlook hcandidate))
      · intro hinOrder _ k' front' p' rest' hends' hlook' hcandidate'
        obtain rfl := (search_unique hends' hlook' hcandidate' hends).1 front p rest hlook hcandidate
        obtain ⟨rfl, rfl, rfl⟩ := Candidate.unique hcandidate hcandidate'
        exact candidate_first_of_inOrder hshape hordered₀ hcandidate hissued.1 hissued.2 hinOrder

theorem ordered_act (hpolicy : cfg.rowBufferPolicy = .closePage) (hcontrol : Control cfg s)
    (hordered : Ordered cfg s) {action : Action} (h : s.act cfg action = .ok s')
    (hkeeps : InOrder s' ∨ (action = .update → CandidateFirst cfg s)) : Ordered cfg s' := by
  rcases act_ok h with ⟨haction, hupdate⟩ | ⟨-, hsame, -⟩
  · obtain ⟨hto, hof⟩ := ordered_update hpolicy hcontrol hordered hupdate
    rcases hkeeps with hinOrder | hfirst
    · exact hto (hof hinOrder)
    · exact hto (hfirst haction)
  · exact hordered.taken (congrArg _ hsame.queue_eq) hsame.issued_eq hsame.taken

theorem ordered_run (hpolicy : cfg.rowBufferPolicy = .closePage) (htCMD : cfg.tCMD = 1)
    {actions : List Action} (h : run cfg actions = .ok s)
    (hkeeps : ∀ acts action t t', acts ++ [action] <+: actions → run cfg acts = .ok t →
      run cfg (acts ++ [action]) = .ok t' → InOrder t' ∨ (action = .update → CandidateFirst cfg t)) :
    Ordered cfg s := by
  induction actions using List.reverseRecOn generalizing s with
  | nil =>
      cases h
      exact fun a => rfl
  | append_singleton acts action ih =>
      have hlast := h
      rw [run_concat] at hlast
      obtain ⟨t, ht, hact⟩ := Fallible.bind_ok hlast
      refine ordered_act hpolicy (control_run hpolicy htCMD ht) (ih ht ?_) hact
        (hkeeps acts action t s ?_ ht h)
      · exact fun acts' action' u u' hinit => hkeeps acts' action' u u' (hinit.trans (List.prefix_append _ _))
      · exact List.prefix_rfl

/-- A client that writes, reads and writes one address. -/
def overtaking : List Action :=
  [.addTransaction ⟨.dataWrite, 0, 1, 0⟩, .addTransaction ⟨.dataRead, 0, 0, 0⟩,
    .addTransaction ⟨.dataWrite, 0, 2, 0⟩] ++ List.replicate 5 .update

/-- **The order of the requests to one address.** In a run, the commands of each address are issued in the
order of acceptance all along exactly if each update finds its candidate first for its address. With a queue
for each bank it always does. -/
theorem same_address_order (cfg : Config) (hpolicy : cfg.rowBufferPolicy = .closePage) (htCMD : cfg.tCMD = 1)
    (actions : List Action) :
    ((∀ acts t, acts <+: actions → run cfg acts = .ok t → InOrder t) ↔
        ∀ acts t t', acts ++ [.update] <+: actions → run cfg acts = .ok t → t.update cfg = .ok t' →
          CandidateFirst cfg t) ∧
      (cfg.queuingStructure = .perRankPerBank → ∀ acts t, acts <+: actions → run cfg acts = .ok t →
        InOrder t) := by
  have hall : (∀ acts t t', acts ++ [.update] <+: actions → run cfg acts = .ok t → t.update cfg = .ok t' →
      CandidateFirst cfg t) → ∀ acts t, acts <+: actions → run cfg acts = .ok t → InOrder t := by
    intro hfirst acts t hinit ht
    refine (ordered_run hpolicy htCMD ht fun acts' action u u' hinit' hu hu' => .inr ?_).inOrder
    rintro rfl
    rw [run_concat] at hu'
    obtain ⟨v, hv, hupdate⟩ := Fallible.bind_ok hu'
    obtain rfl : u = v := Except.ok.inj (hu.symm.trans hv)
    exact hfirst acts' u u' (hinit'.trans hinit) hu hupdate
  refine ⟨⟨fun hinOrder acts t t' hinit ht hupdate => ?_, hall⟩, fun hstructure => hall ?_⟩
  · have hordered : Ordered cfg t := by
      refine ordered_run hpolicy htCMD ht fun acts' action u u' hinit' _ hu' => .inl ?_
      exact hinOrder _ _ ((hinit'.trans (List.prefix_append _ _)).trans hinit) hu'
    refine (ordered_update hpolicy (control_run hpolicy htCMD ht) hordered hupdate).2 (hinOrder _ _ hinit ?_)
    rw [run_concat, ht]
    exact hupdate
  · exact fun _ t _ _ _ _ => candidateFirst_of_perRankPerBank hstructure t

/-- A client that writes one address twice and then reads it. -/
def writesThenRead : List Action :=
  [.addTransaction ⟨.dataWrite, 0, 1, 0⟩, .addTransaction ⟨.dataWrite, 0, 2, 0⟩,
    .addTransaction ⟨.dataRead, 0, 0, 0⟩] ++ List.replicate 16 .update

/-- With a queue for each bank that client is served in order, and with a queue for each rank one that writes
before it reads. -/
theorem same_address_order_perRankPerBank :
    (∃ s, run { ddr2Micron 1 (by decide) with queuingStructure := .perRankPerBank }
          (overtaking ++ List.replicate 16 .update) = .ok s ∧
        (issuedOf 0 s).map Prod.fst = [.dataWrite, .dataRead, .dataWrite] ∧ InOrder s) ∧
      (∃ s, run (ddr2Micron 1 (by decide)) writesThenRead = .ok s ∧
          (issuedOf 0 s).map Prod.fst = [.dataWrite, .dataWrite, .dataRead]) ∧
        ∀ acts t, acts <+: writesThenRead → run (ddr2Micron 1 (by decide)) acts = .ok t → InOrder t := by
  refine ⟨?_, by decide +kernel, ?_⟩
  · have hrun : ∃ s, run { ddr2Micron 1 (by decide) with queuingStructure := .perRankPerBank }
          (overtaking ++ List.replicate 16 .update) = .ok s ∧
        (issuedOf 0 s).map Prod.fst = [.dataWrite, .dataRead, .dataWrite] := by decide +kernel
    obtain ⟨s, hs, hissued⟩ := hrun
    have horder := same_address_order
        { ddr2Micron 1 (by decide) with queuingStructure := .perRankPerBank } rfl rfl
      (overtaking ++ List.replicate 16 .update)
    exact ⟨s, hs, hissued, horder.2 rfl _ s List.prefix_rfl hs⟩
  · refine (same_address_order (ddr2Micron 1 (by decide)) rfl rfl writesThenRead).1.mpr
      fun acts t _ hinit ht _ => ?_
    have halong : Fallible.Along (act (ddr2Micron 1 (by decide)))
        (fun s action => action = .update → QueuesInOrder (ddr2Micron 1 (by decide)) s)
        (init (ddr2Micron 1 (by decide))) writesThenRead := by decide +kernel
    obtain ⟨rest, hsplit⟩ := hinit
    rw [← hsplit, List.append_assoc] at halong
    exact (halong.holds ht rfl).candidateFirst (control_run rfl rfl ht).shape

/-- With a queue for each rank the second write overtakes the read, which waits longer after the first. -/
theorem write_overtakes_read :
    ¬ ∀ (cfg : Config) (actions : List Action) (s : MemorySystem), cfg.rowBufferPolicy = .closePage →
      cfg.tCMD = 1 → run cfg actions = .ok s → InOrder s := by
  intro h
  have hrun : ∃ s, run (ddr2Micron 1 (by decide)) overtaking = .ok s ∧ ¬ issuedOf 0 s <+: acceptedOf 0 s := by
    decide +kernel
  obtain ⟨s, hs, hbad⟩ := hrun
  exact hbad (h _ _ s rfl rfl hs 0)

end MemorySystem

end RacerArtifacts.Mram
