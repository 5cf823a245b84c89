import RacerArtifacts.MramCommandQueue

/-! What `pop` does under the close-page policy, when all banks are idle and the queues hold reads and
writes with automatic precharge only: a refresh goes out if one waits and no bank stands against it, and
otherwise the first queue of the round robin with a candidate gives that candidate up. -/

namespace RacerArtifacts.Mram

open RoundRobin Fallible

/-- The commands that the close-page policy queues. -/
def BusPacket.IsColumn (p : BusPacket) : Prop :=
  p.busPacketType = .readP ∨ p.busPacketType = .writeP

instance (p : BusPacket) : Decidable p.IsColumn :=
  inferInstanceAs (Decidable (_ ∨ _))

/-- When the next read, or else the next write, may go to a bank. -/
def BankState.next (bank : BankState) (command : BusPacketType) : ℕ :=
  if command = .readP then bank.nextRead else bank.nextWrite

namespace CommandQueue

variable {cfg : Config} {bankStates : BankStates} {cq cq' : CommandQueue}

/-- The timer a column command has to wait for. -/
def timer (bankStates : BankStates) (p : BusPacket) : ℕ :=
  (bankStates p.rank p.bank).next p.busPacketType

theorem isIssuable_column {p : BusPacket} (hp : p.IsColumn) :
    cq.isIssuable cfg bankStates p =
      if p.rank < cfg.numRanks ∧ p.bank < cfg.numBanks then
        .ok (decide (timer bankStates p ≤ cq.currentClockCycle ∧
          cq.rowAccessCounters p.rank p.bank < cfg.totalRowAccesses))
      else .error .outOfRange := by
  rcases hp with h | h
  · simp only [isIssuable, timer, BankState.next, h, if_true]
  · simp only [isIssuable, timer, BankState.next, h, reduceCtorEq, if_false]

/-- Whether a column command is issuable depends on the clock, the counters and its timer. -/
theorem isIssuable_congr {p : BusPacket} (hp : p.IsColumn)
    (hclock : cq'.currentClockCycle = cq.currentClockCycle)
    (hcounters : cq'.rowAccessCounters = cq.rowAccessCounters) {bankStates' : BankStates}
    (htimer : timer bankStates' p = timer bankStates p) :
    cq'.isIssuable cfg bankStates' p = cq.isIssuable cfg bankStates p := by
  rw [isIssuable_column hp, isIssuable_column hp, hclock, hcounters, htimer]

theorem isIssuable_true {p : BusPacket} (hp : p.IsColumn) (h : cq.isIssuable cfg bankStates p = .ok true) :
    p.rank < cfg.numRanks ∧ p.bank < cfg.numBanks ∧ timer bankStates p ≤ cq.currentClockCycle ∧
      cq.rowAccessCounters p.rank p.bank < cfg.totalRowAccesses := by
  rw [isIssuable_column hp] at h
  split_ifs at h with hrange
  have hready := of_decide_eq_true (Except.ok.inj h)
  exact ⟨hrange.1, hrange.2, hready.1, hready.2⟩

/-- Nothing in `queue` is issuable, apart from what `skip` excludes. -/
def Passed (issuable : BusPacket → Except Exit Bool) (skip : List BusPacket → BusPacket → Bool)
    (queue : List BusPacket) : Prop :=
  ∀ front p rest, queue = front ++ p :: rest →
    issuable p = .ok false ∨ issuable p = .ok true ∧ skip front p = true

theorem Passed.snoc {issuable : BusPacket → Except Exit Bool} {skip : List BusPacket → BusPacket → Bool}
    {front : List BusPacket} {p : BusPacket} (h : Passed issuable skip front)
    (hp : issuable p = .ok false ∨ issuable p = .ok true ∧ skip front p = true) :
    Passed issuable skip (front ++ [p]) := by
  intro front' q rest heq
  rcases List.eq_nil_or_concat rest with rfl | ⟨rest', last, rfl⟩
  · obtain ⟨rfl, hq⟩ := List.append_inj' heq rfl
    cases hq
    exact hp
  · rw [List.concat_eq_append, ← List.cons_append, ← List.append_assoc] at heq
    exact h front' q rest' (List.append_inj_left' heq rfl)

/-- What the search through a queue has found, behind what it has passed. -/
theorem takeIssuable_ok {issuable : BusPacket → Except Exit Bool} {skip : List BusPacket → BusPacket → Bool}
    {front queue : List BusPacket} (hpassed : Passed issuable skip front)
    {found : Option (List BusPacket × BusPacket × List BusPacket)}
    (h : takeIssuable issuable skip front queue = .ok found) :
    (found = none ∧ Passed issuable skip (front ++ queue)) ∨
      ∃ f p rest, found = some (f, p, rest) ∧ front ++ queue = f ++ p :: rest ∧ Passed issuable skip f ∧
        issuable p = .ok true ∧ skip f p = false := by
  induction queue generalizing front with
  | nil =>
      cases h
      rw [List.append_nil]
      exact .inl ⟨rfl, hpassed⟩
  | cons p queue ih =>
      rw [List.append_cons]
      rw [takeIssuable] at h
      cases hissuable : issuable p with
      | error e =>
          rw [hissuable] at h
          cases h
      | ok b =>
          rw [hissuable] at h
          cases b with
          | false => exact ih (hpassed.snoc (.inl hissuable)) h
          | true =>
              dsimp only at h
              cases hskip : skip front p with
              | true =>
                  rw [hskip] at h
                  exact ih (hpassed.snoc (.inr ⟨hissuable, hskip⟩)) h
              | false =>
                  rw [hskip] at h
                  cases h
                  exact .inr ⟨front, p, queue, rfl, (List.append_cons _ _ _).symm, hpassed, hissuable, hskip⟩

theorem pairedWithActivate_eq_false {front : List BusPacket} (hfront : ∀ x ∈ front, x.IsColumn)
    (p : BusPacket) :
    pairedWithActivate front p = false := by
  rw [pairedWithActivate]
  cases hlast : front.getLast? with
  | none => rfl
  | some x =>
      dsimp only
      apply decide_eq_false
      intro hx
      rcases hfront x (List.mem_of_getLast? hlast) with h | h
      · rw [h] at hx
        cases hx.1
      · rw [h] at hx
        cases hx.1

/-- The candidate of a queue: its first issuable packet, or its front where each bank has a queue. -/
structure Candidate (cfg : Config) (bankStates : BankStates) (cq : CommandQueue)
    (queue front : List BusPacket)
    (p : BusPacket) (rest : List BusPacket) : Prop where
  queue_eq : queue = front ++ p :: rest
  issuable : cq.isIssuable cfg bankStates p = .ok true
  first : ∀ x ∈ front, cq.isIssuable cfg bankStates x = .ok false
  front_eq : cfg.queuingStructure = .perRankPerBank → front = []

/-- The queue the search is at. -/
def here (cfg : Config) (cq : CommandQueue) : List BusPacket :=
  cq.getCommandQueue cfg cq.nextRank cq.nextBank

/-- Among column commands the search passes only what may not be issued: there is no activate to be
paired with. -/
theorem Passed.refused {issuable : BusPacket → Except Exit Bool} {front : List BusPacket}
    (hpassed : Passed issuable pairedWithActivate front) (hcolumn : ∀ x ∈ front, x.IsColumn) :
    ∀ x ∈ front, issuable x = .ok false := by
  intro x hx
  obtain ⟨before, rest, rfl⟩ := List.append_of_mem hx
  rcases hpassed before x rest rfl with hfalse | ⟨-, hskip⟩
  · exact hfalse
  · rw [pairedWithActivate_eq_false fun y hy => hcolumn y (List.mem_append_left _ hy)] at hskip
    cases hskip

theorem findClosePage_perRank (hstructure : cfg.queuingStructure = .perRank) (hlook : cq.mayLook cfg = true)
    (hcolumn : ∀ p ∈ cq.here cfg, p.IsColumn) {found : Option (BusPacket × CommandQueue)}
    (h : cq.findClosePage cfg bankStates = .ok found) :
    (found = none ∧ ∀ front p rest, ¬ Candidate cfg bankStates cq (cq.here cfg) front p rest) ∨
      ∃ front p rest, found = some (p, cq.setCommandQueue cfg cq.nextRank cq.nextBank (front ++ rest)) ∧
        Candidate cfg bankStates cq (cq.here cfg) front p rest := by
  rw [findClosePage, hlook, if_pos rfl, hstructure] at h
  change Except.map _ (takeIssuable _ _ [] (cq.here cfg)) = _ at h
  obtain ⟨r, htake, h⟩ := map_ok h
  have hnil : Passed (cq.isIssuable cfg bankStates) pairedWithActivate [] := fun front p rest hbad => by
    simp at hbad
  rcases takeIssuable_ok hnil htake with ⟨rfl, hpassed⟩ | ⟨f, p, rest, rfl, hqueue, hpassed, hp, -⟩
  · cases h
    refine .inl ⟨rfl, fun front p rest hcand => ?_⟩
    have hmem : p ∈ cq.here cfg := hcand.queue_eq ▸ List.mem_append_right _ List.mem_cons_self
    have hrefused := hpassed.refused hcolumn p hmem
    rw [hcand.issuable] at hrefused
    cases hrefused
  · cases h
    have hfront : ∀ x ∈ f, x ∈ cq.here cfg := by
      intro x hx
      change x ∈ [] ++ cq.here cfg
      rw [hqueue]
      exact List.mem_append_left _ hx
    refine .inr ⟨f, p, rest, rfl, hqueue, hp, hpassed.refused fun x hx => hcolumn x (hfront x hx),
      fun hbad => ?_⟩
    rw [hstructure] at hbad
    cases hbad

/-- The search through the queue of a bank looks at its front only. -/
theorem findClosePage_perRankPerBank (hstructure : cfg.queuingStructure = .perRankPerBank)
    (hlook : cq.mayLook cfg = true) {found : Option (BusPacket × CommandQueue)}
    (h : cq.findClosePage cfg bankStates = .ok found) :
    (found = none ∧ ∀ front p rest, ¬ Candidate cfg bankStates cq (cq.here cfg) front p rest) ∨
      ∃ front p rest, found = some (p, cq.setCommandQueue cfg cq.nextRank cq.nextBank (front ++ rest)) ∧
        Candidate cfg bankStates cq (cq.here cfg) front p rest := by
  rw [findClosePage, hlook, if_pos rfl, hstructure] at h
  rw [show cq.getCommandQueue cfg cq.nextRank cq.nextBank = cq.here cfg from rfl] at h
  cases hhere : cq.here cfg with
  | nil =>
      rw [hhere] at h
      cases h
      refine .inl ⟨rfl, fun front p rest hcand => ?_⟩
      have hqueue := hcand.queue_eq
      simp at hqueue
  | cons packet rest =>
      rw [hhere] at h
      change Except.map _ (cq.isIssuable cfg bankStates packet) = _ at h
      obtain ⟨issuable, hissuable, h⟩ := map_ok h
      cases issuable with
      | false =>
          cases h
          refine .inl ⟨rfl, fun front p rest' hcand => ?_⟩
          have hqueue := hcand.queue_eq
          rw [hcand.front_eq hstructure] at hqueue
          cases hqueue
          have hp := hcand.issuable
          rw [hissuable] at hp
          cases hp
      | true =>
          cases h
          exact .inr ⟨[], packet, rest, rfl, rfl, hissuable, List.forall_mem_nil _, fun _ => rfl⟩

theorem findClosePage_ok (hcolumn : ∀ p ∈ cq.here cfg, p.IsColumn) {found : Option (BusPacket × CommandQueue)}
    (h : cq.findClosePage cfg bankStates = .ok found) :
    (found = none ∧ (cq.mayLook cfg = true → ∀ front p rest,
      ¬ Candidate cfg bankStates cq (cq.here cfg) front p rest)) ∨
      ∃ front p rest, found = some (p, cq.setCommandQueue cfg cq.nextRank cq.nextBank (front ++ rest)) ∧
        cq.mayLook cfg = true ∧ Candidate cfg bankStates cq (cq.here cfg) front p rest := by
  cases hlook : cq.mayLook cfg with
  | false =>
      rw [findClosePage, hlook] at h
      cases h
      exact .inl ⟨rfl, fun hbad => by cases hbad⟩
  | true =>
      have hfound : (found = none ∧ ∀ front p rest,
          ¬ Candidate cfg bankStates cq (cq.here cfg) front p rest) ∨
          ∃ front p rest, found = some (p, cq.setCommandQueue cfg cq.nextRank cq.nextBank (front ++ rest)) ∧
            Candidate cfg bankStates cq (cq.here cfg) front p rest := by
        cases hstructure : cfg.queuingStructure with
        | perRank => exact findClosePage_perRank hstructure hlook hcolumn h
        | perRankPerBank => exact findClosePage_perRankPerBank hstructure hlook h
      rcases hfound with ⟨rfl, hnone⟩ | ⟨front, p, rest, rfl, hcand⟩
      · exact .inl ⟨rfl, fun _ => hnone⟩
      · exact .inr ⟨front, p, rest, rfl, rfl, hcand⟩

/-- What the search and the bookkeeping of `pop` leave alone. -/
structure Same (cq cq' : CommandQueue) : Prop where
  queues_eq : cq'.queues = cq.queues
  refreshRank_eq : cq'.refreshRank = cq.refreshRank
  refreshWaiting_eq : cq'.refreshWaiting = cq.refreshWaiting
  clock_eq : cq'.currentClockCycle = cq.currentClockCycle
  counters_eq : cq'.rowAccessCounters = cq.rowAccessCounters

theorem Same.trans {cq'' : CommandQueue} (h : Same cq cq') (h' : Same cq' cq'') : Same cq cq'' where
  queues_eq := h'.queues_eq.trans h.queues_eq
  refreshRank_eq := h'.refreshRank_eq.trans h.refreshRank_eq
  refreshWaiting_eq := h'.refreshWaiting_eq.trans h.refreshWaiting_eq
  clock_eq := h'.clock_eq.trans h.clock_eq
  counters_eq := h'.counters_eq.trans h.counters_eq

theorem Same.isIssuable (h : Same cq cq') {p : BusPacket} (hp : p.IsColumn) :
    cq'.isIssuable cfg bankStates p = cq.isIssuable cfg bankStates p :=
  isIssuable_congr hp h.clock_eq h.counters_eq rfl

theorem Same.candidate (h : Same cq cq') {queue front rest : List BusPacket} {p : BusPacket}
    (hcolumn : ∀ x ∈ queue, x.IsColumn) :
    Candidate cfg bankStates cq' queue front p rest ↔ Candidate cfg bankStates cq queue front p rest := by
  constructor
  · rintro ⟨rfl, hissuable, hfirst, hfront⟩
    refine ⟨rfl, ?_, fun x hx => ?_, hfront⟩
    · rw [← h.isIssuable (hcolumn p (List.mem_append_right _ List.mem_cons_self))]
      exact hissuable
    · rw [← h.isIssuable (hcolumn x (List.mem_append_left _ hx))]
      exact hfirst x hx
  · rintro ⟨rfl, hissuable, hfirst, hfront⟩
    refine ⟨rfl, ?_, fun x hx => ?_, hfront⟩
    · rw [h.isIssuable (hcolumn p (List.mem_append_right _ List.mem_cons_self))]
      exact hissuable
    · rw [h.isIssuable (hcolumn x (List.mem_append_left _ hx))]
      exact hfirst x hx

theorem same_advance (cfg : Config) (cq : CommandQueue) : Same cq (cq.advance cfg) := by
  rw [advance]
  cases cfg.queuingStructure with
  | perRank => exact ⟨rfl, rfl, rfl, rfl, rfl⟩
  | perRankPerBank => exact ⟨rfl, rfl, rfl, rfl, rfl⟩

theorem same_iterate (cfg : Config) (cq : CommandQueue) (j : ℕ) : Same cq ((advance cfg)^[j] cq) := by
  induction j with
  | zero => exact ⟨rfl, rfl, rfl, rfl, rfl⟩
  | succ j ih =>
      rw [Function.iterate_succ_apply']
      exact ih.trans (same_advance cfg _)

/-- The queue the search comes to is one of those it started with. -/
theorem mem_here {k : ℕ} {p : BusPacket} (hp : p ∈ ((advance cfg)^[k] cq).here cfg) :
    p ∈ cq.queues ((advance cfg)^[k] cq).nextRank (cfg.slot ((advance cfg)^[k] cq).nextBank) := by
  rw [← (same_iterate cfg cq k).queues_eq]
  exact hp

theorem same_afterPop (cfg : Config) (cq : CommandQueue) (p : BusPacket) :
    Same cq (cq.afterPop cfg p) := by
  rw [afterPop]
  split_ifs
  · exact ⟨rfl, rfl, rfl, rfl, rfl⟩
  · exact ⟨rfl, rfl, rfl, rfl, rfl⟩
  · exact ⟨rfl, rfl, rfl, rfl, rfl⟩
  · exact ⟨rfl, rfl, rfl, rfl, rfl⟩

/-- The refresh that waits goes out: its time has come for all banks of its rank. -/
def RefreshGoes (cfg : Config) (bankStates : BankStates) (cq : CommandQueue) : Prop :=
  cq.refreshWaiting = true ∧
    ∀ b < cfg.numBanks, (bankStates cq.refreshRank b).nextActivate ≤ cq.currentClockCycle

/-- Among idle banks the refresh is only held back by `nextActivate`. -/
theorem refreshScan_idle (hidle : ∀ r b, (bankStates r b).currentBankState = .idle)
    (onOpenRow : ℕ → Except Exit (Option (BusPacket × CommandQueue))) (banks : List ℕ) :
    refreshScan bankStates cq onOpenRow banks =
      .ok (decide (∃ b ∈ banks, cq.currentClockCycle < (bankStates cq.refreshRank b).nextActivate),
        none) := by
  induction banks with
  | nil => rw [refreshScan, decide_eq_false fun ⟨b, hb, _⟩ => by cases hb]
  | cons b banks ih =>
      rw [refreshScan, if_neg (by rw [hidle]; exact fun hbad => by cases hbad)]
      split_ifs with hearly
      · rw [decide_eq_true ⟨b, List.mem_cons_self, hearly⟩]
      · rw [ih]
        congr 3
        refine propext ⟨fun ⟨b', hb', h⟩ => ⟨b', List.mem_cons_of_mem _ hb', h⟩, fun ⟨b', hb', h⟩ => ?_⟩
        rcases List.mem_cons.mp hb' with rfl | hb'
        · exact absurd h hearly
        · exact ⟨b', hb', h⟩

open Classical in
theorem sendRefresh_idle (hidle : ∀ r b, (bankStates r b).currentBankState = .idle)
    (hwaiting : cq.refreshWaiting = true)
    (onOpenRow : ℕ → Except Exit (Option (BusPacket × CommandQueue))) :
    cq.sendRefresh cfg bankStates onOpenRow =
      if RefreshGoes cfg bankStates cq then
        .ok (some (refreshPacket cq.refreshRank),
          { cq with refreshRank := 2 ^ 32 - 1, refreshWaiting := false })
      else .ok (none, cq) := by
  rw [sendRefresh, refreshScan_idle hidle]
  by_cases hgoes : RefreshGoes cfg bankStates cq
  · have hnone : ¬ ∃ b ∈ List.range cfg.numBanks,
        cq.currentClockCycle < (bankStates cq.refreshRank b).nextActivate := by
      rintro ⟨b, hb, hearly⟩
      exact absurd (hgoes.2 b (List.mem_range.mp hb)) (Nat.not_le.mpr hearly)
    rw [decide_eq_false hnone, if_pos hgoes]
    dsimp only
    rw [hidle, if_pos (fun hbad => by cases hbad)]
  · have hsome : ∃ b ∈ List.range cfg.numBanks,
        cq.currentClockCycle < (bankStates cq.refreshRank b).nextActivate := by
      by_contra hnone
      refine hgoes ⟨hwaiting, fun b hb => ?_⟩
      by_contra hearly
      exact hnone ⟨b, List.mem_range.mpr hb, Nat.not_le.mp hearly⟩
    rw [decide_eq_true hsome, if_neg hgoes]

/-- Where the search of a cycle ends: the queues it passes have no candidate, or their rank waits for a
refresh. -/
structure SearchEnds (cfg : Config) (bankStates : BankStates) (cq : CommandQueue) (k : ℕ) : Prop where
  before : ∀ j < k, ((advance cfg)^[j] cq).mayLook cfg = true →
    ∀ front p rest, ¬ Candidate cfg bankStates cq (((advance cfg)^[j] cq).here cfg) front p rest

/-- What a search that comes back has found. -/
inductive Found (cfg : Config) (bankStates : BankStates) (cq : CommandQueue) :
    Option BusPacket → CommandQueue → Prop
  | nothing {k : ℕ} (hends : SearchEnds cfg bankStates cq k) (hpos : 0 < k)
      (hback : ((advance cfg)^[k] cq).backAt cfg cq = true) :
      Found cfg bankStates cq none ((advance cfg)^[k] cq)
  | candidate {k : ℕ} (hends : SearchEnds cfg bankStates cq k)
      (hlook : ((advance cfg)^[k] cq).mayLook cfg = true) {front : List BusPacket} {p : BusPacket}
      {rest : List BusPacket} (hcandidate : Candidate cfg bankStates cq
        (((advance cfg)^[k] cq).here cfg) front p rest) :
      Found cfg bankStates cq (some p)
        (((advance cfg)^[k] cq).setCommandQueue cfg ((advance cfg)^[k] cq).nextRank
        ((advance cfg)^[k] cq).nextBank (front ++ rest))

theorem roundRobin_ok (hcolumn : ∀ r b, ∀ p ∈ cq.queues r b, p.IsColumn) {found : Option BusPacket}
    (h : cq.roundRobin cfg (findClosePage cfg bankStates) = .ok (found, cq')) :
    Found cfg bankStates cq found cq' := by
  rw [roundRobin] at h
  cases hscan : scan (findClosePage cfg bankStates) (advance cfg) (fun t => t.backAt cfg cq) .scanDoesNotEnd
      (cfg.numRanks * cfg.numBanks) cq with
  | error e =>
      rw [hscan] at h
      cases h
  | ok r =>
      obtain ⟨r, t⟩ := r
      rw [hscan] at h
      obtain ⟨k, hstop⟩ := scan_ok hscan
      have hhere : ∀ j, ∀ p ∈ ((advance cfg)^[j] cq).here cfg, p.IsColumn := by
        intro j p hp
        exact hcolumn _ _ p (mem_here hp)
      have hends : SearchEnds cfg bankStates cq k := by
        refine ⟨fun j hj hlook front p rest hcand => ?_⟩
        rcases findClosePage_ok (hhere j) (hstop.before j hj) with ⟨-, hnone⟩ | ⟨_, _, _, hbad, -⟩
        · exact hnone hlook front p rest (((same_iterate cfg cq j).candidate (hhere j)).mpr hcand)
        · cases hbad
      have hat := hstop.at_eq
      subst hat
      cases r with
      | none =>
          cases h
          obtain ⟨hpos, hback⟩ := hstop.home_eq rfl
          exact .nothing hends hpos hback
      | some r =>
          obtain ⟨p, t'⟩ := r
          cases h
          rcases findClosePage_ok (hhere k) (hstop.found_eq _ rfl) with
            ⟨hbad, -⟩ | ⟨front, p', rest, heq, hlook, hcand⟩
          · cases hbad
          · cases heq
            exact .candidate hends hlook (((same_iterate cfg cq k).candidate (hhere k)).mp hcand)

/-- What `pop` does under the close-page policy. -/
inductive Popped (cfg : Config) (bankStates : BankStates) (cq : CommandQueue) :
    Option BusPacket → CommandQueue → Prop
  | refresh (hgoes : RefreshGoes cfg bankStates cq) {cq' : CommandQueue} (hqueues : cq'.queues = cq.queues)
      (hclock : cq'.currentClockCycle = cq.currentClockCycle)
      (hcounters : cq'.rowAccessCounters = cq.rowAccessCounters)
      (hwaiting : cq'.refreshWaiting = false) :
      Popped cfg bankStates cq (some (refreshPacket cq.refreshRank)) cq'
  | nothing (hstays : ¬ RefreshGoes cfg bankStates cq) {k : ℕ} (hends : SearchEnds cfg bankStates cq k)
      (hpos : 0 < k)
      (hback : ((advance cfg)^[k] cq).backAt cfg cq = true) {cq' : CommandQueue} (hsame : Same cq cq') :
      Popped cfg bankStates cq none cq'
  | column (hstays : ¬ RefreshGoes cfg bankStates cq) {k : ℕ} (hends : SearchEnds cfg bankStates cq k)
      (hlook : ((advance cfg)^[k] cq).mayLook cfg = true) {front : List BusPacket} {p : BusPacket}
      {rest : List BusPacket}
      (hcandidate : Candidate cfg bankStates cq (((advance cfg)^[k] cq).here cfg) front p rest)
      {cq' : CommandQueue} (hsame : Same (cq.setCommandQueue cfg ((advance cfg)^[k] cq).nextRank
        ((advance cfg)^[k] cq).nextBank (front ++ rest)) cq') :
      Popped cfg bankStates cq (some p) cq'

/-- `pop` without the window of four activates, which only delays activates. -/
def tickWindow (cq : CommandQueue) : CommandQueue :=
  { cq with tFAWCountdown := fun rank => tickFAW (cq.tFAWCountdown rank) }

theorem same_tickWindow (cq : CommandQueue) : Same cq cq.tickWindow :=
  ⟨rfl, rfl, rfl, rfl, rfl⟩

theorem iterate_tickWindow (cq : CommandQueue) (j : ℕ) :
    (advance cfg)^[j] cq.tickWindow = ((advance cfg)^[j] cq).tickWindow := by
  refine (Function.Semiconj.iterate_right (f := tickWindow) (fun t => ?_) j cq).symm
  rw [advance, advance]
  cases cfg.queuingStructure with
  | perRank => rfl
  | perRankPerBank => rfl

theorem popClosePage_ok (hidle : ∀ r b, (bankStates r b).currentBankState = .idle)
    (hcolumn : ∀ r b, ∀ p ∈ cq.queues r b, p.IsColumn) {found : Option BusPacket}
    (h : cq.popClosePage cfg bankStates = .ok (found, cq')) :
    (RefreshGoes cfg bankStates cq ∧ found = some (refreshPacket cq.refreshRank) ∧
        cq' = { cq with refreshRank := 2 ^ 32 - 1, refreshWaiting := false }) ∨
      ¬ RefreshGoes cfg bankStates cq ∧ Found cfg bankStates cq found cq' := by
  rw [popClosePage] at h
  cases hwaiting : cq.refreshWaiting with
  | false =>
      rw [hwaiting, if_neg (by simp)] at h
      refine .inr ⟨fun hgoes => ?_, roundRobin_ok hcolumn h⟩
      have hbad := hgoes.1
      rw [hwaiting] at hbad
      cases hbad
  | true =>
      rw [hwaiting, if_pos rfl, sendRefresh_idle hidle hwaiting] at h
      by_cases hgoes : RefreshGoes cfg bankStates cq
      · rw [if_pos hgoes] at h
        cases h
        exact .inl ⟨hgoes, rfl, rfl⟩
      · rw [if_neg hgoes] at h
        exact .inr ⟨hgoes, roundRobin_ok hcolumn h⟩

/-- **What `pop` does under the close-page policy.** -/
theorem pop_ok (hpolicy : cfg.rowBufferPolicy = .closePage)
    (hidle : ∀ r b, (bankStates r b).currentBankState = .idle)
    (hcolumn : ∀ r b, ∀ p ∈ cq.queues r b, p.IsColumn) {found : Option BusPacket}
    (h : cq.pop cfg bankStates = .ok (found, cq')) : Popped cfg bankStates cq found cq' := by
  rw [pop, hpolicy] at h
  obtain ⟨⟨sent, t⟩, hpop, h⟩ := bind_ok h
  change cq.tickWindow.popClosePage cfg bankStates = _ at hpop
  have hsearch : ∀ {k : ℕ}, SearchEnds cfg bankStates cq.tickWindow k → SearchEnds cfg bankStates cq k := by
    intro k hends
    refine ⟨fun j hj hlook front p rest hcand => ?_⟩
    have := hends.before j hj
    rw [iterate_tickWindow] at this
    refine this hlook front p rest (((same_tickWindow cq).candidate fun x hx => ?_).mpr hcand)
    exact hcolumn _ _ x (mem_here hx)
  rcases popClosePage_ok hidle (by exact hcolumn) hpop with ⟨hgoes, rfl, rfl⟩ | ⟨hstays, hfound⟩
  · cases h
    have hsame := same_afterPop cfg { cq.tickWindow with refreshRank := 2 ^ 32 - 1, refreshWaiting := false }
      (refreshPacket cq.tickWindow.refreshRank)
    change RefreshGoes cfg bankStates cq at hgoes
    exact .refresh hgoes hsame.queues_eq hsame.clock_eq hsame.counters_eq hsame.refreshWaiting_eq
  · change ¬ RefreshGoes cfg bankStates cq at hstays
    cases hfound with
    | @nothing k hends hpos hback =>
        cases h
        rw [iterate_tickWindow] at hback ⊢
        exact .nothing hstays (hsearch hends) hpos hback
          ((same_iterate cfg cq k).trans (same_tickWindow _))
    | @candidate k hends hlook front p rest hcand =>
        cases h
        rw [iterate_tickWindow] at hlook hcand ⊢
        have hhere : ∀ x ∈ ((advance cfg)^[k] cq).here cfg, x.IsColumn := by
          intro x hx
          exact hcolumn _ _ x (mem_here hx)
        refine .column hstays (hsearch hends) hlook (((same_tickWindow cq).candidate hhere).mp hcand) ?_
        refine Same.trans ?_ (same_afterPop cfg _ p)
        have hiter := same_iterate cfg cq k
        refine ⟨?_, hiter.refreshRank_eq, hiter.refreshWaiting_eq, hiter.clock_eq, hiter.counters_eq⟩
        change Function.update ((advance cfg)^[k] cq).queues _
          (Function.update (((advance cfg)^[k] cq).queues _) _ _) = _
        rw [hiter.queues_eq]
        rfl

end CommandQueue

end RacerArtifacts.Mram
