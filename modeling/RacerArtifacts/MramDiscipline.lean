import RacerArtifacts.MramRounds

/-! The discipline of the commands, under either policy: the queues hold reads and writes only, and what a
pop takes is one of them, or the refresh that was asked for. With a first countdown that is not 0 no refresh
is ever asked for. Under the close-page policy a pop finds a command exactly if a queue has a candidate. -/

namespace RacerArtifacts.Mram

open Fallible RoundRobin MemoryController

/-- A read or a write, with or without the automatic precharge. -/
def BusPacket.IsCommand (p : BusPacket) : Prop :=
  p.IsRead ∨ p.IsWrite

instance (p : BusPacket) : Decidable p.IsCommand :=
  inferInstanceAs (Decidable (_ ∨ _))

namespace CommandQueue

variable {cfg : Config} {bankStates : BankStates} {cq cq' cq'' : CommandQueue}

/-- The round robin is at a rank and a bank that there are. -/
structure InRange (cfg : Config) (cq : CommandQueue) : Prop where
  rank_lt : cq.nextRank < cfg.numRanks
  bank_lt : cq.nextBank < cfg.numBanks

theorem inRange_nextRankAndBank {rank bank : ℕ} (hrank : rank < cfg.numRanks) (hbank : bank < cfg.numBanks) :
    (nextRankAndBank cfg rank bank).1 < cfg.numRanks ∧ (nextRankAndBank cfg rank bank).2 < cfg.numBanks := by
  rw [nextRankAndBank]
  cases cfg.schedulingPolicy with
  | rankThenBankRoundRobin =>
      dsimp only
      split_ifs
      · exact ⟨cfg.ranks_pos, cfg.banks_pos⟩
      · exact ⟨cfg.ranks_pos, by dsimp only; omega⟩
      · exact ⟨by dsimp only; omega, hbank⟩
  | bankThenRankRoundRobin =>
      dsimp only
      split_ifs
      · exact ⟨cfg.ranks_pos, cfg.banks_pos⟩
      · exact ⟨by dsimp only; omega, cfg.banks_pos⟩
      · exact ⟨hrank, by dsimp only; omega⟩

theorem InRange.advance (h : cq.InRange cfg) : (cq.advance cfg).InRange cfg := by
  rw [CommandQueue.advance]
  cases cfg.queuingStructure with
  | perRank => exact ⟨Nat.mod_lt _ cfg.ranks_pos, h.bank_lt⟩
  | perRankPerBank =>
      obtain ⟨hrank, hbank⟩ := inRange_nextRankAndBank h.rank_lt h.bank_lt
      exact ⟨hrank, hbank⟩

theorem InRange.iterate (h : cq.InRange cfg) (j : ℕ) : ((CommandQueue.advance cfg)^[j] cq).InRange cfg :=
  good_iterate (InRange cfg) (fun _ => InRange.advance) h j

theorem InRange.afterPop (h : cq.InRange cfg) (p : BusPacket) : (cq.afterPop cfg p).InRange cfg := by
  obtain ⟨hrank, hbank⟩ := inRange_nextRankAndBank h.rank_lt h.bank_lt
  rw [CommandQueue.afterPop]
  split_ifs
  · exact ⟨h.rank_lt, h.bank_lt⟩
  · exact ⟨hrank, hbank⟩
  · exact ⟨h.rank_lt, h.bank_lt⟩
  · exact ⟨hrank, hbank⟩

/-- What a pop may take out of the queues: a packet of theirs, or the refresh that waits. -/
structure Drawn (cfg : Config) (cq : CommandQueue) (found : Option BusPacket)
    (cq' : CommandQueue) : Prop where
  queues : ∀ r b, ∀ p ∈ cq'.queues r b, p ∈ cq.queues r b
  found : ∀ p, found = some p →
    (∃ r b, p ∈ cq.queues r b) ∨ cq.refreshWaiting = true ∧ p = refreshPacket cq.refreshRank
  waiting : cq.refreshWaiting = false → cq'.refreshWaiting = false
  inRange : cq.InRange cfg → cq'.InRange cfg

theorem Drawn.of_same (hqueues : cq'.queues = cq.queues) (hwaiting : cq'.refreshWaiting = cq.refreshWaiting)
    (hrange : cq.InRange cfg → cq'.InRange cfg) : Drawn cfg cq none cq' where
  queues := fun r b p hp => by
    rw [← hqueues]
    exact hp
  found := fun p hp => by cases hp
  waiting := fun h => hwaiting.trans h
  inRange := hrange

theorem Drawn.after {found : Option BusPacket} (h : Drawn cfg cq' found cq'') (hsame : Same cq cq')
    (hrange : cq.InRange cfg → cq'.InRange cfg) : Drawn cfg cq found cq'' where
  queues := fun r b p hp => by
    rw [← hsame.queues_eq]
    exact h.queues r b p hp
  found := fun p hp => by
    rw [← hsame.queues_eq, ← hsame.refreshWaiting_eq, ← hsame.refreshRank_eq]
    exact h.found p hp
  waiting := fun hfalse => h.waiting (hsame.refreshWaiting_eq.trans hfalse)
  inRange := fun hin => h.inRange (hrange hin)

theorem Drawn.before {found : Option BusPacket} (h : Drawn cfg cq found cq')
    (hqueues : cq''.queues = cq'.queues) (hwaiting : cq''.refreshWaiting = cq'.refreshWaiting)
    (hrange : cq'.InRange cfg → cq''.InRange cfg) :
    Drawn cfg cq found cq'' where
  queues := fun r b p hp => by
    rw [hqueues] at hp
    exact h.queues r b p hp
  found := h.found
  waiting := fun hfalse => hwaiting.trans (h.waiting hfalse)
  inRange := fun hin => hrange (h.inRange hin)

theorem drawn_setCommandQueue {rank bank : ℕ} {queue : List BusPacket} {p : BusPacket}
    (hp : p ∈ cq.getCommandQueue cfg rank bank) (hqueue : ∀ x ∈ queue, x ∈ cq.getCommandQueue cfg rank bank) :
    Drawn cfg cq (some p) (cq.setCommandQueue cfg rank bank queue) where
  queues := fun r b x hx => by
    rw [setCommandQueue_queues] at hx
    split_ifs at hx with heq
    · obtain ⟨rfl, rfl⟩ := heq
      exact hqueue x hx
    · exact hx
  found := fun x hx => by
    cases hx
    exact .inl ⟨_, _, hp⟩
  waiting := fun hfalse => hfalse
  inRange := fun hin => ⟨hin.rank_lt, hin.bank_lt⟩

theorem takeIssuable_split {issuable : BusPacket → Except Exit Bool}
    {skip : List BusPacket → BusPacket → Bool}
    {queue front rest : List BusPacket} {p : BusPacket}
    (h : takeIssuable issuable skip [] queue = .ok (some (front, p, rest))) : queue = front ++ p :: rest := by
  have hnil : Passed issuable skip [] := fun front p rest hbad => by simp at hbad
  rcases takeIssuable_ok hnil h with ⟨hbad, -⟩ | ⟨f, p', rest', hfound, hqueue, -⟩
  · cases hbad
  · cases hfound
    exact hqueue

/-- A packet is taken out of the queue the search is at, maybe with others in front of it, and the access to
its row may be counted. -/
def TakesHere (cfg : Config) (cq : CommandQueue) (p : BusPacket) (cq' : CommandQueue) : Prop :=
  ∃ front left rest counters, cq.here cfg = front ++ p :: rest ∧ left.Sublist front ∧
    cq' = { cq.setCommandQueue cfg cq.nextRank cq.nextBank (left ++ rest) with rowAccessCounters := counters }

theorem findClosePage_takes {p : BusPacket} (h : cq.findClosePage cfg bankStates = .ok (some (p, cq'))) :
    TakesHere cfg cq p cq' := by
  rw [findClosePage] at h
  by_cases hlook : cq.mayLook cfg = true
  swap
  · rw [if_neg hlook] at h
    cases h
  rw [if_pos hlook] at h
  cases hstructure : cfg.queuingStructure with
  | perRank =>
      rw [hstructure] at h
      obtain ⟨taken, htake, hmap⟩ := map_ok h
      obtain ⟨⟨front, q, rest⟩, rfl, heq⟩ := Option.map_eq_some_iff.mp hmap
      cases heq
      exact ⟨front, front, rest, _, takeIssuable_split htake, List.Sublist.refl _, rfl⟩
  | perRankPerBank =>
      rw [hstructure] at h
      cases hqueue : cq.getCommandQueue cfg cq.nextRank cq.nextBank with
      | nil =>
          rw [hqueue] at h
          cases h
      | cons q rest =>
          rw [hqueue] at h
          obtain ⟨issuable, -, hif⟩ := map_ok h
          split_ifs at hif
          cases hif
          exact ⟨[], [], rest, _, hqueue, List.Sublist.refl _, rfl⟩

theorem findOpenPage_takes {p : BusPacket} (h : cq.findOpenPage cfg bankStates = .ok (some (p, cq'))) :
    TakesHere cfg cq p cq' := by
  rw [findOpenPage] at h
  by_cases hlook : cq.mayLook cfg = true
  swap
  · rw [if_neg hlook] at h
    cases h
  rw [if_pos hlook] at h
  obtain ⟨taken, htake, hmap⟩ := map_ok h
  obtain ⟨⟨front, q, rest⟩, rfl, heq⟩ := Option.map_eq_some_iff.mp hmap
  have hsplit := takeIssuable_split htake
  dsimp only at heq
  cases hlast : front.getLast? with
  | none =>
      rw [hlast] at heq
      cases heq
      exact ⟨front, front, rest, _, hsplit, List.Sublist.refl _, rfl⟩
  | some before =>
      rw [hlast] at heq
      dsimp only at heq
      split_ifs at heq
      · -- The activate in front of the packet goes with it.
        cases heq
        exact ⟨front, front.dropLast, rest, _, hsplit, List.dropLast_sublist front, rfl⟩
      · cases heq
        exact ⟨front, front, rest, _, hsplit, List.Sublist.refl _, rfl⟩

theorem TakesHere.drawn {p : BusPacket} (h : TakesHere cfg cq p cq') : Drawn cfg cq (some p) cq' := by
  obtain ⟨front, left, rest, counters, hsplit, hleft, rfl⟩ := h
  have hp : p ∈ cq.here cfg := by
    rw [hsplit]
    exact List.mem_append_right _ List.mem_cons_self
  have hqueue : ∀ x ∈ left ++ rest, x ∈ cq.here cfg := by
    intro x hx
    rw [hsplit]
    rcases List.mem_append.mp hx with hx | hx
    · exact List.mem_append_left _ (hleft.subset hx)
    · exact List.mem_append_right _ (List.mem_cons_of_mem _ hx)
  exact (drawn_setCommandQueue hp hqueue).before rfl rfl fun hin => ⟨hin.rank_lt, hin.bank_lt⟩

/-- The search over the queues takes what it finds at one of them. -/
theorem roundRobin_drawn {find : CommandQueue → Except Exit (Option (BusPacket × CommandQueue))}
    (hfind : ∀ cq p cq', find cq = .ok (some (p, cq')) → TakesHere cfg cq p cq') {found : Option BusPacket}
    (h : cq.roundRobin cfg find = .ok (found, cq')) : Drawn cfg cq found cq' := by
  rw [roundRobin] at h
  obtain ⟨⟨r, t⟩, hscan, heq⟩ := map_ok h
  obtain ⟨k, hstop⟩ := scan_ok hscan
  have hsame := same_iterate cfg cq k
  rw [← hstop.at_eq] at hsame
  have hrange : cq.InRange cfg → t.InRange cfg := by
    rw [hstop.at_eq]
    exact fun hin => hin.iterate k
  cases r with
  | none =>
      cases heq
      exact .of_same hsame.queues_eq hsame.refreshWaiting_eq hrange
  | some r =>
      obtain ⟨p, t'⟩ := r
      cases heq
      exact (hfind t p _ (hstop.found_eq _ rfl)).drawn.after hsame hrange

theorem popPrecharge_idle (hidle : ∀ r b, (bankStates r b).currentBankState = .idle)
    {found : Option BusPacket}
    (h : cq.popPrecharge cfg bankStates = .ok (found, cq')) : found = none ∧ Drawn cfg cq none cq' := by
  have hnone : ∀ t : CommandQueue, t.findPrecharge cfg bankStates = .ok none := by
    intro t
    rw [findPrecharge]
    dsimp only
    rw [hidle]
    exact if_neg (by decide)
  have hsame : ∀ j, ((advancePRE cfg)^[j] cq).queues = cq.queues ∧
      ((advancePRE cfg)^[j] cq).refreshWaiting = cq.refreshWaiting ∧
      (cq.InRange cfg → ((advancePRE cfg)^[j] cq).InRange cfg) := by
    intro j
    induction j with
    | zero => exact ⟨rfl, rfl, fun hin => hin⟩
    | succ j ih =>
        rw [Function.iterate_succ_apply']
        exact ⟨ih.1, ih.2.1, fun hin => ⟨(ih.2.2 hin).rank_lt, (ih.2.2 hin).bank_lt⟩⟩
  rw [popPrecharge] at h
  obtain ⟨⟨r, t⟩, hscan, heq⟩ := map_ok h
  obtain ⟨k, hstop⟩ := scan_ok hscan
  cases r with
  | none =>
      cases heq
      rw [hstop.at_eq]
      exact ⟨rfl, .of_same (hsame k).1 (hsame k).2.1 (hsame k).2.2⟩
  | some r =>
      have hbad := hstop.found_eq r rfl
      rw [hnone] at hbad
      cases hbad

/-- Open page: the search over the queues, and then the one for a row to close. -/
def searchOpenPage (cfg : Config) (bankStates : BankStates) (cq : CommandQueue) :
    Except Exit (Option BusPacket × CommandQueue) := do
  let (sent, cq) ← cq.roundRobin cfg (findOpenPage cfg bankStates)
  match sent with
  | some packet => pure (some packet, cq)
  | none => cq.popPrecharge cfg bankStates

/-- The search of a pop, where no refresh goes out. -/
def search (cfg : Config) (bankStates : BankStates) (cq : CommandQueue) :
    Except Exit (Option BusPacket × CommandQueue) :=
  match cfg.rowBufferPolicy with
  | .closePage => cq.roundRobin cfg (findClosePage cfg bankStates)
  | .openPage => cq.searchOpenPage cfg bankStates

open Classical in
/-- **A pop among idle banks**: the refresh that waits, if it goes, and otherwise what the search finds. -/
theorem pop_idle (hidle : ∀ r b, (bankStates r b).currentBankState = .idle) :
    cq.pop cfg bankStates = (if RefreshGoes cfg bankStates cq then
        .ok (some (refreshPacket cq.refreshRank),
          { cq.tickWindow with refreshRank := 2 ^ 32 - 1, refreshWaiting := false })
      else cq.tickWindow.search cfg bankStates).map
        fun found => (found.1, found.1.elim found.2 (found.2.afterPop cfg)) := by
  let refreshed : Option BusPacket × CommandQueue := (some (refreshPacket cq.refreshRank),
    { cq.tickWindow with refreshRank := 2 ^ 32 - 1, refreshWaiting := false })
  have hfirst : ∀ (onOpenRow : ℕ → Except Exit (Option (BusPacket × CommandQueue)))
      (next : Option BusPacket × CommandQueue → Except Exit (Option BusPacket × CommandQueue)),
      (if cq.tickWindow.refreshWaiting = true then cq.tickWindow.sendRefresh cfg bankStates onOpenRow >>= next
        else pure (none, cq.tickWindow) >>= next) =
        if RefreshGoes cfg bankStates cq then next refreshed else next (none, cq.tickWindow) := by
    intro onOpenRow next
    cases hwaiting : cq.refreshWaiting with
    | false =>
        rw [show cq.tickWindow.refreshWaiting = false from hwaiting, if_neg (by decide)]
        refine (if_neg fun hgoes => ?_).symm
        have hbad := hgoes.1
        rw [hwaiting] at hbad
        cases hbad
    | true =>
        rw [show cq.tickWindow.refreshWaiting = true from hwaiting, if_pos rfl,
          sendRefresh_idle hidle (by exact hwaiting)]
        change (if RefreshGoes cfg bankStates cq then .ok refreshed
          else .ok (none, cq.tickWindow)) >>= next = _
        split_ifs
        · rfl
        · rfl
  have hlast : ∀ x : Except Exit (Option BusPacket × CommandQueue), (x >>= fun found => match found with
      | (sent, cq) => match sent with
        | some packet => pure (some packet, cq.afterPop cfg packet)
        | none => pure (none, cq)) = x.map fun found =>
            (found.1, found.1.elim found.2 (found.2.afterPop cfg)) := by
    intro x
    cases x with
    | error e => rfl
    | ok found =>
        obtain ⟨sent, t⟩ := found
        cases sent with
        | none => rfl
        | some p => rfl
  rw [pop, search]
  cases cfg.rowBufferPolicy with
  | closePage =>
      have hpop : cq.tickWindow.popClosePage cfg bankStates =
          if RefreshGoes cfg bankStates cq then .ok refreshed
          else cq.tickWindow.roundRobin cfg (findClosePage cfg bankStates) := by
        rw [popClosePage]
        exact hfirst _ _
      change (cq.tickWindow.popClosePage cfg bankStates >>= _) = _
      rw [hpop]
      exact hlast _
  | openPage =>
      have hpop : cq.tickWindow.popOpenPage cfg bankStates =
          if RefreshGoes cfg bankStates cq then .ok refreshed
          else cq.tickWindow.searchOpenPage cfg bankStates := by
        rw [popOpenPage]
        exact hfirst _ _
      change (cq.tickWindow.popOpenPage cfg bankStates >>= _) = _
      rw [hpop]
      exact hlast _

/-- **What a pop takes among idle banks**, under either policy. -/
theorem pop_drawn (hidle : ∀ r b, (bankStates r b).currentBankState = .idle) {found : Option BusPacket}
    (h : cq.pop cfg bankStates = .ok (found, cq')) : Drawn cfg cq found cq' := by
  rw [pop_idle hidle] at h
  obtain ⟨⟨sent, t⟩, hsent, heq⟩ := map_ok h
  obtain ⟨rfl, rfl⟩ := Prod.mk.inj heq
  have hdrawn : Drawn cfg cq sent t := by
    split_ifs at hsent with hgoes
    · cases hsent
      refine ⟨fun r b p hp => hp, fun p hp => .inr ⟨hgoes.1, ?_⟩, fun _ => rfl,
        fun hin => ⟨hin.rank_lt, hin.bank_lt⟩⟩
      cases hp
      rfl
    · refine Drawn.after ?_ (same_tickWindow cq) fun hin => ⟨hin.rank_lt, hin.bank_lt⟩
      rw [search] at hsent
      cases hpolicy : cfg.rowBufferPolicy with
      | closePage =>
          rw [hpolicy] at hsent
          exact roundRobin_drawn (fun _ _ _ => findClosePage_takes) hsent
      | openPage =>
          rw [hpolicy] at hsent
          obtain ⟨⟨first, t₁⟩, hsearch, hsent⟩ := bind_ok hsent
          have hdrawn := roundRobin_drawn (fun _ _ _ => findOpenPage_takes) hsearch
          cases first with
          | some p =>
              cases hsent
              exact hdrawn
          | none =>
              obtain ⟨rfl, hlast⟩ := popPrecharge_idle hidle (by exact hsent)
              exact ⟨fun r b p hp => hdrawn.queues r b p (hlast.queues r b p hp), (fun p hp => by cases hp),
                (fun hfalse => hlast.waiting (hdrawn.waiting hfalse)),
                  fun hin => hlast.inRange (hdrawn.inRange hin)⟩
  cases sent with
  | none => exact hdrawn
  | some p =>
      have hsame := same_afterPop cfg t p
      exact hdrawn.before hsame.queues_eq hsame.refreshWaiting_eq fun hin => hin.afterPop p

/-- The number of a queue in the order of the round robin. -/
def place (cfg : Config) (rank bank : ℕ) : ℕ :=
  match cfg.queuingStructure, cfg.schedulingPolicy with
  | .perRank, _ => rank
  | .perRankPerBank, .rankThenBankRoundRobin => rank + cfg.numRanks * bank
  | .perRankPerBank, .bankThenRankRoundRobin => bank + cfg.numBanks * rank

/-- The number of the queues. -/
def places (cfg : Config) : ℕ :=
  match cfg.queuingStructure with
  | .perRank => cfg.numRanks
  | .perRankPerBank => cfg.numRanks * cfg.numBanks

theorem places_le (cfg : Config) : places cfg ≤ cfg.numRanks * cfg.numBanks := by
  rw [places]
  cases cfg.queuingStructure with
  | perRank => exact Nat.le_mul_of_pos_right _ cfg.banks_pos
  | perRankPerBank => exact le_rfl

theorem place_lt {rank bank : ℕ} (hrank : rank < cfg.numRanks) (hbank : bank < cfg.numBanks) :
    place cfg rank bank < places cfg := by
  rw [place, places]
  cases cfg.queuingStructure with
  | perRank => exact hrank
  | perRankPerBank =>
      cases cfg.schedulingPolicy with
      | rankThenBankRoundRobin =>
          calc rank + cfg.numRanks * bank < cfg.numRanks + cfg.numRanks * bank := Nat.add_lt_add_right hrank _
            _ = cfg.numRanks * (bank + 1) := by rw [Nat.mul_succ, Nat.add_comm]
            _ ≤ cfg.numRanks * cfg.numBanks := Nat.mul_le_mul_left _ hbank
      | bankThenRankRoundRobin =>
          calc bank + cfg.numBanks * rank < cfg.numBanks + cfg.numBanks * rank := Nat.add_lt_add_right hbank _
            _ = cfg.numBanks * (rank + 1) := by rw [Nat.mul_succ, Nat.add_comm]
            _ ≤ cfg.numBanks * cfg.numRanks := Nat.mul_le_mul_left _ hrank
            _ = cfg.numRanks * cfg.numBanks := Nat.mul_comm _ _

theorem place_inj {rank bank rank' bank' : ℕ} (hrank : rank < cfg.numRanks) (hbank : bank < cfg.numBanks)
    (hrank' : rank' < cfg.numRanks) (hbank' : bank' < cfg.numBanks)
    (h : place cfg rank bank = place cfg rank' bank') :
    rank = rank' ∧ (cfg.queuingStructure = .perRankPerBank → bank = bank') := by
  rw [place, place] at h
  cases hstructure : cfg.queuingStructure with
  | perRank =>
      rw [hstructure] at h
      exact ⟨h, fun hbad => by cases hbad⟩
  | perRankPerBank =>
      rw [hstructure] at h
      cases hpolicy : cfg.schedulingPolicy with
      | rankThenBankRoundRobin =>
          rw [hpolicy] at h
          obtain ⟨hlow, hhigh⟩ := digits_inj hrank hrank' h
          exact ⟨hlow, fun _ => hhigh⟩
      | bankThenRankRoundRobin =>
          rw [hpolicy] at h
          obtain ⟨hlow, hhigh⟩ := digits_inj hbank hbank' h
          exact ⟨hhigh, fun _ => hlow⟩

/-- The round robin counts through the queues, in either order. -/
theorem place_advance (hin : cq.InRange cfg) :
    place cfg (cq.advance cfg).nextRank (cq.advance cfg).nextBank =
      (place cfg cq.nextRank cq.nextBank + 1) % places cfg := by
  rw [advance, place, place, places]
  cases cfg.queuingStructure with
  | perRank => rfl
  | perRankPerBank =>
      dsimp only
      rw [nextRankAndBank]
      cases cfg.schedulingPolicy with
      | rankThenBankRoundRobin =>
          dsimp only
          rw [succ_digits hin.rank_lt hin.bank_lt]
          split_ifs <;> simp
      | bankThenRankRoundRobin =>
          dsimp only
          rw [Nat.mul_comm cfg.numRanks, succ_digits hin.bank_lt hin.rank_lt]
          split_ifs <;> simp

theorem backAt_iff (hin : cq.InRange cfg) (hin' : cq'.InRange cfg) :
    cq'.backAt cfg cq = true ↔ place cfg cq'.nextRank cq'.nextBank = place cfg cq.nextRank cq.nextBank := by
  constructor
  · intro hback
    rw [backAt] at hback
    rw [place, place]
    cases hstructure : cfg.queuingStructure with
    | perRank =>
        rw [hstructure] at hback
        exact (of_decide_eq_true hback).symm
    | perRankPerBank =>
        rw [hstructure] at hback
        obtain ⟨hrank, hbank⟩ := of_decide_eq_true hback
        rw [hrank, hbank]
  · intro hplace
    obtain ⟨hrank, hbank⟩ := place_inj hin'.rank_lt hin'.bank_lt hin.rank_lt hin.bank_lt hplace
    rw [backAt]
    cases hstructure : cfg.queuingStructure with
    | perRank => exact decide_eq_true hrank.symm
    | perRankPerBank => exact decide_eq_true ⟨hrank.symm, (hbank hstructure).symm⟩

/-- **A search that is back where it started has been at every queue.** -/
theorem search_everywhere (hin : cq.InRange cfg) {k : ℕ} (hpos : 0 < k)
    (hback : ((advance cfg)^[k] cq).backAt cfg cq = true) {rank bank : ℕ} (hrank : rank < cfg.numRanks)
    (hbank : bank < cfg.numBanks) :
    ∃ j < k, ((advance cfg)^[j] cq).here cfg = cq.getCommandQueue cfg rank bank := by
  obtain ⟨j, hj, hplace⟩ := visits (fun t : CommandQueue => place cfg t.nextRank t.nextBank)
    (InRange cfg) (fun _ => InRange.advance) (fun _ => place_advance) hin (place_lt hin.rank_lt hin.bank_lt)
    hpos ((backAt_iff hin (hin.iterate k)).mp hback) (place_lt hrank hbank)
  refine ⟨j, hj, ?_⟩
  have hat := hin.iterate j
  obtain ⟨hrank', hbank'⟩ := place_inj hat.rank_lt hat.bank_lt hrank hbank hplace
  rw [here, getCommandQueue, getCommandQueue, (same_iterate cfg cq j).queues_eq, hrank',
    Config.slot, Config.slot]
  cases hstructure : cfg.queuingStructure with
  | perRank => rfl
  | perRankPerBank => rw [hbank' hstructure]

theorem takeIssuable_error {issuable : BusPacket → Except Exit Bool}
    {skip : List BusPacket → BusPacket → Bool} {front queue : List BusPacket} {e : Exit}
    (h : takeIssuable issuable skip front queue = .error e) :
    ∃ p ∈ queue, issuable p = .error e := by
  induction queue generalizing front with
  | nil => cases h
  | cons p queue ih =>
      have hlater : (∃ p ∈ queue, issuable p = .error e) → ∃ q ∈ p :: queue, issuable q = .error e :=
        fun ⟨q, hq, he⟩ => ⟨q, List.mem_cons_of_mem _ hq, he⟩
      rw [takeIssuable] at h
      cases hissuable : issuable p with
      | error e' =>
          rw [hissuable] at h
          cases h
          exact ⟨p, List.mem_cons_self, hissuable⟩
      | ok b =>
          rw [hissuable] at h
          cases b with
          | false => exact hlater (ih h)
          | true =>
              dsimp only at h
              split_ifs at h
              exact hlater (ih h)

/-- A look fails only at a packet that is asked about and cannot be. -/
theorem findClosePage_error {e : Exit} (h : cq.findClosePage cfg bankStates = .error e) :
    ∃ p ∈ cq.here cfg, cq.isIssuable cfg bankStates p = .error e := by
  rw [findClosePage] at h
  by_cases hlook : cq.mayLook cfg = true
  swap
  · rw [if_neg hlook] at h
    cases h
  rw [if_pos hlook] at h
  rw [here]
  cases hstructure : cfg.queuingStructure with
  | perRank =>
      rw [hstructure] at h
      exact takeIssuable_error (map_error h)
  | perRankPerBank =>
      rw [hstructure] at h
      cases hqueue : cq.getCommandQueue cfg cq.nextRank cq.nextBank with
      | nil =>
          rw [hqueue] at h
          cases h
      | cons p rest =>
          rw [hqueue] at h
          exact ⟨p, List.mem_cons_self, map_error h⟩

/-- Without a refresh that waits, a pop of the close-page policy is the search. -/
theorem pop_search (hpolicy : cfg.rowBufferPolicy = .closePage) (hwaiting : cq.refreshWaiting = false)
    (hidle : ∀ r b, (bankStates r b).currentBankState = .idle) :
    cq.pop cfg bankStates = (cq.tickWindow.roundRobin cfg (findClosePage cfg bankStates)).map
      fun found => (found.1, found.1.elim found.2 (found.2.afterPop cfg)) := by
  have hstays : ¬ RefreshGoes cfg bankStates cq := by
    intro hgoes
    have hbad := hgoes.1
    rw [hwaiting] at hbad
    cases hbad
  rw [pop_idle hidle, if_neg hstays, search, hpolicy]

/-- **The search ends**: a pop of the close-page policy fails only at a packet whose place does not exist. -/
theorem pop_error (hpolicy : cfg.rowBufferPolicy = .closePage) (hin : cq.InRange cfg)
    (hwaiting : cq.refreshWaiting = false) (hidle : ∀ r b, (bankStates r b).currentBankState = .idle)
    (hcolumn : ∀ r b, ∀ p ∈ cq.queues r b, p.IsColumn) {e : Exit}
    (h : cq.pop cfg bankStates = .error e) :
    e = .outOfRange ∧ ∃ r b, ∃ p ∈ cq.queues r b, ¬ (p.rank < cfg.numRanks ∧ p.bank < cfg.numBanks) := by
  rw [pop_search hpolicy hwaiting hidle] at h
  have hsearch := map_error h
  rw [roundRobin] at hsearch
  have hin' : cq.tickWindow.InRange cfg := ⟨hin.rank_lt, hin.bank_lt⟩
  obtain ⟨j, hfind⟩ := scan_error (fun t : CommandQueue => place cfg t.nextRank t.nextBank)
    (InRange cfg) (fun _ => InRange.advance) (fun _ => place_advance) hin'
    (place_lt hin'.rank_lt hin'.bank_lt) (fun t ht hplace => (backAt_iff hin' ht).mpr hplace) (places_le cfg)
    (map_error hsearch)
  obtain ⟨p, hp, hissuable⟩ := findClosePage_error hfind
  have hmem : p ∈ cq.queues ((advance cfg)^[j] cq.tickWindow).nextRank
      (cfg.slot ((advance cfg)^[j] cq.tickWindow).nextBank) := by
    rw [← (same_tickWindow cq).queues_eq]
    exact mem_here hp
  rw [isIssuable_column (hcolumn _ _ p hmem)] at hissuable
  split_ifs at hissuable with hrange
  cases hissuable
  exact ⟨rfl, _, _, p, hmem, hrange⟩

/-- What a queue offers to the search: any of its packets, or its front where each bank has a queue. -/
def Offers (cfg : Config) (queue : List BusPacket) (p : BusPacket) : Prop :=
  match cfg.queuingStructure with
  | .perRank => p ∈ queue
  | .perRankPerBank => queue.head? = some p

theorem Offers.mem {queue : List BusPacket} {p : BusPacket} (h : Offers cfg queue p) : p ∈ queue := by
  rw [Offers] at h
  cases hstructure : cfg.queuingStructure with
  | perRank =>
      rw [hstructure] at h
      exact h
  | perRankPerBank =>
      rw [hstructure] at h
      exact List.mem_of_mem_head? h

/-- A look that finds nothing, where no refresh waits, has found that nothing the queue offers is issuable. -/
theorem findClosePage_none (hwaiting : cq.refreshWaiting = false) (hcolumn : ∀ p ∈ cq.here cfg, p.IsColumn)
    (h : cq.findClosePage cfg bankStates = .ok none) {p : BusPacket} (hp : Offers cfg (cq.here cfg) p) :
    cq.isIssuable cfg bankStates p = .ok false := by
  have hlook : cq.mayLook cfg = true := by
    rw [mayLook, hwaiting, Bool.and_false, Bool.not_false, Bool.and_true, Bool.not_eq_true']
    exact List.isEmpty_eq_false_iff.mpr (List.ne_nil_of_mem hp.mem)
  rw [findClosePage, if_pos hlook] at h
  rw [Offers] at hp
  rw [here] at hp hcolumn
  cases hstructure : cfg.queuingStructure with
  | perRank =>
      rw [hstructure] at h hp
      obtain ⟨taken, htake, hmap⟩ := map_ok h
      rw [Option.map_eq_none_iff] at hmap
      subst hmap
      have hnil : Passed (cq.isIssuable cfg bankStates) pairedWithActivate [] :=
        fun front p rest hbad => by simp at hbad
      rcases takeIssuable_ok hnil htake with ⟨-, hpassed⟩ | ⟨_, _, _, hbad, -⟩
      · obtain ⟨front, rest, hsplit⟩ := List.append_of_mem hp
        rcases hpassed front p rest hsplit with hfalse | ⟨-, hskip⟩
        · exact hfalse
        · rw [pairedWithActivate_eq_false (fun x hx => hcolumn x (by
            rw [hsplit]
            exact List.mem_append_left _ hx)) p] at hskip
          cases hskip
      · cases hbad
  | perRankPerBank =>
      rw [hstructure] at h hp
      obtain ⟨rest, hqueue⟩ := List.head?_eq_some_iff.mp hp
      rw [hqueue] at h
      obtain ⟨issuable, hissuable, hif⟩ := map_ok h
      cases issuable with
      | true => cases hif
      | false => exact hissuable

/-- A pop that finds nothing, where no refresh waits, has refused what each queue offers. -/
theorem pop_none_refuses (hpolicy : cfg.rowBufferPolicy = .closePage) (hin : cq.InRange cfg)
    (hwaiting : cq.refreshWaiting = false) (hidle : ∀ r b, (bankStates r b).currentBankState = .idle)
    (hcolumn : ∀ r b, ∀ p ∈ cq.queues r b, p.IsColumn) (h : cq.pop cfg bankStates = .ok (none, cq'))
    {rank bank : ℕ} (hrank : rank < cfg.numRanks) (hbank : bank < cfg.numBanks) {p : BusPacket}
    (hoffers : Offers cfg (cq.getCommandQueue cfg rank bank) p) : cq.isIssuable cfg bankStates p =
      .ok false := by
  rw [pop_search hpolicy hwaiting hidle] at h
  obtain ⟨⟨sent, t⟩, hsearch, heq⟩ := map_ok h
  obtain ⟨rfl, -⟩ := Prod.mk.inj heq
  rw [roundRobin] at hsearch
  obtain ⟨⟨r, t'⟩, hscan, hr⟩ := map_ok hsearch
  cases r with
  | some r => cases hr
  | none =>
      obtain ⟨k, hstop⟩ := scan_ok hscan
      obtain ⟨hpos, hback⟩ := hstop.home_eq rfl
      rw [hstop.at_eq] at hback
      have hin' : cq.tickWindow.InRange cfg := ⟨hin.rank_lt, hin.bank_lt⟩
      obtain ⟨j, hj, hhere⟩ := search_everywhere hin' hpos hback hrank hbank
      have hsame := (same_tickWindow cq).trans (same_iterate cfg cq.tickWindow j)
      change _ = cq.getCommandQueue cfg rank bank at hhere
      have hcolumn' : ∀ x ∈ cq.getCommandQueue cfg rank bank, x.IsColumn := fun x hx => hcolumn _ _ x hx
      have hfalse := findClosePage_none (hsame.refreshWaiting_eq.trans hwaiting)
        (by rw [hhere]; exact hcolumn') (hstop.before j hj) (by rw [hhere]; exact hoffers)
      rwa [hsame.isIssuable (hcolumn' p hoffers.mem)] at hfalse

/-- **What a pop finds**, where no refresh waits: a command, if and only if a queue offers an issuable one. -/
theorem pop_isSome_iff (hpolicy : cfg.rowBufferPolicy = .closePage) (hin : cq.InRange cfg)
    (hwaiting : cq.refreshWaiting = false) (hidle : ∀ r b, (bankStates r b).currentBankState = .idle)
    (hcolumn : ∀ r b, ∀ p ∈ cq.queues r b, p.IsColumn) {found : Option BusPacket}
    (h : cq.pop cfg bankStates = .ok (found, cq')) :
    found.isSome ↔ ∃ rank < cfg.numRanks, ∃ bank < cfg.numBanks, ∃ p,
      Offers cfg (cq.getCommandQueue cfg rank bank) p ∧ cq.isIssuable cfg bankStates p = .ok true := by
  constructor
  · intro hsome
    cases pop_ok hpolicy hidle hcolumn h with
    | refresh hgoes =>
        have hbad := hgoes.1
        rw [hwaiting] at hbad
        cases hbad
    | nothing => cases hsome
    | @column _ k _ hlook front p rest hcand =>
        have hmem : p ∈ cq.queues ((advance cfg)^[k] cq).nextRank
            (cfg.slot ((advance cfg)^[k] cq).nextBank) := by
          apply mem_here
          rw [hcand.queue_eq]
          exact List.mem_append_right _ List.mem_cons_self
        have hat := hin.iterate k
        refine ⟨_, hat.rank_lt, _, hat.bank_lt, p, ?_, hcand.issuable⟩
        have hqueue : cq.getCommandQueue cfg ((advance cfg)^[k] cq).nextRank ((advance cfg)^[k] cq).nextBank =
            front ++ p :: rest := by
          rw [getCommandQueue, ← (same_iterate cfg cq k).queues_eq]
          exact hcand.queue_eq
        rw [hqueue, Offers]
        cases hstructure : cfg.queuingStructure with
        | perRank => exact List.mem_append_right _ List.mem_cons_self
        | perRankPerBank =>
            rw [hcand.front_eq hstructure]
            rfl
  · rintro ⟨rank, hrank, bank, hbank, p, hoffers, hissuable⟩
    cases found with
    | some _ => rfl
    | none =>
        have hfalse := pop_none_refuses hpolicy hin hwaiting hidle hcolumn h hrank hbank hoffers
        rw [hissuable] at hfalse
        cases hfalse

end CommandQueue

namespace MemorySystem

variable {s s' t u : MemorySystem}

/-- The pop of the next update, at the state between two updates. -/
def nextPop (cfg : Config) (s : MemorySystem) : Except Exit (Option BusPacket × CommandQueue) :=
  (s.checkRefresh cfg).memoryController.commandQueue.pop cfg s.memoryController.idleBanks.bankStates

/-- An update that goes through issues what its pop has found, and nothing else. -/
theorem update_nextPop (h : s.update cfg = .ok s') : ∃ found cq, s.nextPop cfg = .ok (found, cq) ∧
    s'.history.issued = s.history.issued ++ found.toList.map fun p =>
    (s.memoryController.currentClockCycle, p) := by
  obtain ⟨t, t', u, hopened, hpop, hschedule, hclosed⟩ := update_cycle h
  obtain ⟨found, cq, hfound, hcases⟩ := popCommand_split hpop
  rw [hopened.queue_eq, hopened.banks_eq] at hfound
  refine ⟨found, cq, hfound, ?_⟩
  obtain ⟨mc, -, rfl⟩ := map_ok hschedule
  rw [hclosed.issued_eq]
  rcases hcases with ⟨rfl, rfl⟩ | ⟨p, _, _, _, _, rfl, -, -, rfl⟩
  · rw [← hopened.issued_eq]
    exact (List.append_nil _).symm
  · rw [← hopened.issued_eq, ← hopened.clock_eq]
    rfl

/-- The queues hold reads and writes, no other command was issued, and no refresh is asked for. -/
structure Disciplined (cfg : Config) (s : MemorySystem) : Prop where
  queued : ∀ r b, ∀ p ∈ s.memoryController.commandQueue.queues r b, p.IsCommand
  issued : ∀ e ∈ s.history.issued, e.2.IsCommand
  refreshRank_eq : s.memoryController.refreshRank = 0
  countdown_eq : s.memoryController.refreshCountdown = cfg.refreshCountdown
  waiting : s.memoryController.commandQueue.refreshWaiting = false
  inRange : s.memoryController.commandQueue.InRange cfg

theorem Disciplined.init (cfg : Config) : Disciplined cfg (init cfg) where
  queued := fun r b p hp => by cases hp
  issued := fun e he => by cases he
  refreshRank_eq := rfl
  countdown_eq := rfl
  waiting := rfl
  inRange := ⟨cfg.ranks_pos, cfg.banks_pos⟩

/-- The first countdown is never counted down, and the others are never looked at. -/
theorem Disciplined.checkRefresh (hzero : cfg.refreshCountdown 0 ≠ 0) (h : Disciplined cfg s) :
    (s.checkRefresh cfg).memoryController = s.memoryController := by
  rw [MemorySystem.checkRefresh, h.countdown_eq, h.refreshRank_eq]
  rw [if_neg hzero]
  split_ifs <;> rfl

theorem Disciplined.nextPop (hzero : cfg.refreshCountdown 0 ≠ 0) (h : Disciplined cfg s)
    {found : Option BusPacket} {cq : CommandQueue} (hpop : s.nextPop cfg = .ok (found, cq)) :
    CommandQueue.Drawn cfg s.memoryController.commandQueue found cq ∧ ∀ p, found = some p → p.IsCommand := by
  rw [MemorySystem.nextPop, h.checkRefresh hzero] at hpop
  have hdrawn := CommandQueue.pop_drawn (fun r b => rfl) hpop
  refine ⟨hdrawn, fun p hp => ?_⟩
  rcases hdrawn.found p hp with ⟨r, b, hmem⟩ | ⟨hwaiting, -⟩
  · exact h.queued r b p hmem
  · rw [h.waiting] at hwaiting
    cases hwaiting

theorem isCommand_packet {transaction : Transaction} {bpType : BusPacketType} {data : ℕ}
    (htype : transaction.getBusPacketType cfg = .ok bpType) :
    (transaction.packet cfg bpType data).IsCommand := by
  rcases (getBusPacketType_ok htype).2.1 with rfl | rfl | rfl | rfl
  · exact .inl (.inl rfl)
  · exact .inl (.inr rfl)
  · exact .inr (.inl rfl)
  · exact .inr (.inr rfl)

theorem Disciplined.update (hzero : cfg.refreshCountdown 0 ≠ 0) (h : Disciplined cfg s)
    (hupdate : s.update cfg = .ok s') : Disciplined cfg s' := by
  have hnever := h.checkRefresh hzero
  obtain ⟨found', cq', hnext, hissued⟩ := update_nextPop hupdate
  obtain ⟨hdrawn, hfound⟩ := h.nextPop hzero hnext
  obtain ⟨t, t', u, hopened, hpop, hschedule, hclosed⟩ := update_cycle hupdate
  obtain ⟨found, cq, hpopped, hcases⟩ := popCommand_split hpop
  rw [hopened.queue_eq, hopened.banks_eq] at hpopped
  obtain ⟨rfl, rfl⟩ := Prod.mk.inj (Except.ok.inj (hpopped.symm.trans hnext))
  have hbook : t'.memoryController.commandQueue = cq ∧
      t'.memoryController.refreshRank = t.memoryController.refreshRank ∧
      t'.memoryController.refreshCountdown = t.memoryController.refreshCountdown := by
    rcases hcases with ⟨-, rfl⟩ | ⟨p, _, _, _, _, -, -, -, rfl⟩
    · exact ⟨rfl, rfl, rfl⟩
    · exact ⟨rfl, rfl, rfl⟩
  obtain ⟨hqueue, hrank, hcountdown⟩ := hbook
  rw [hopened.refreshRank_eq, hnever] at hrank
  rw [hopened.countdown_eq, hnever] at hcountdown
  have hqueued : ∀ r b, ∀ p ∈ t'.memoryController.commandQueue.queues r b, p.IsCommand := by
    rw [hqueue]
    exact fun r b p hp => h.queued r b p (hdrawn.queues r b p hp)
  -- The scheduling puts a read or a write behind one of the queues.
  have hscheduled : (∀ r b, ∀ p ∈ u.memoryController.commandQueue.queues r b, p.IsCommand) ∧
      u.memoryController.refreshRank = t'.memoryController.refreshRank ∧
      u.memoryController.refreshCountdown = t'.memoryController.refreshCountdown ∧
      u.memoryController.commandQueue.refreshWaiting = t'.memoryController.commandQueue.refreshWaiting ∧
      (t'.memoryController.commandQueue.InRange cfg → u.memoryController.commandQueue.InRange cfg) := by
    obtain ⟨mc, hmc, rfl⟩ := map_ok hschedule
    rcases scheduleFrom_split (fun x hx => by cases hx) rfl hmc with
      ⟨rfl, -⟩ | ⟨before, x, rest, bpType, -, -, -, htype, rfl⟩
    · exact ⟨hqueued, rfl, rfl, rfl, fun hin => hin⟩
    · refine ⟨CommandQueue.forall_setCommandQueue hqueued fun p hp => ?_, rfl, rfl, rfl,
        fun hin => ⟨hin.rank_lt, hin.bank_lt⟩⟩
      rcases List.mem_append.mp hp with hp | hp
      · exact hqueued _ _ p hp
      · rw [List.mem_singleton.mp hp]
        exact isCommand_packet htype
  obtain ⟨hqueuedu, hranku, hcountdownu, hwaitingu, hrangeu⟩ := hscheduled
  refine ⟨?_, ?_, ?_, ?_, ?_, ?_⟩
  · rw [hclosed.queues_eq]
    exact hqueuedu
  · rw [hissued]
    intro e he
    rcases List.mem_append.mp he with he | he
    · exact h.issued e he
    · obtain ⟨p, hp, rfl⟩ := List.mem_map.mp he
      exact hfound p (Option.mem_toList.mp hp)
  · rw [hclosed.refreshRank_eq, hranku, hrank, h.refreshRank_eq]
  · rw [hclosed.countdown_eq, hcountdownu, hcountdown, h.countdown_eq]
  · rw [hclosed.queue_eq]
    change u.memoryController.commandQueue.refreshWaiting = false
    rw [hwaitingu, hqueue]
    exact hdrawn.waiting h.waiting
  · rw [hclosed.queue_eq]
    rw [hqueue] at hrangeu
    have hin := hrangeu (hdrawn.inRange h.inRange)
    exact ⟨hin.rank_lt, hin.bank_lt⟩

theorem Disciplined.act (hzero : cfg.refreshCountdown 0 ≠ 0) (h : Disciplined cfg s) {action : Action}
    (hact : s.act cfg action = .ok s') : Disciplined cfg s' := by
  rcases act_ok hact with ⟨-, hupdate⟩ | ⟨-, hsame, -⟩
  · exact h.update hzero hupdate
  · refine ⟨?_, ?_, ?_, ?_, ?_, ?_⟩
    · rw [hsame.queue_eq]
      exact h.queued
    · rw [hsame.issued_eq]
      exact h.issued
    · rw [hsame.refreshRank_eq]
      exact h.refreshRank_eq
    · rw [hsame.countdown_eq]
      exact h.countdown_eq
    · rw [hsame.queue_eq]
      exact h.waiting
    · rw [hsame.queue_eq]
      exact h.inRange

/-- **The discipline holds in every state a run reaches.** -/
theorem disciplined_run (hzero : cfg.refreshCountdown 0 ≠ 0) {actions : List Action}
    (h : run cfg actions = .ok s) :
    Disciplined cfg s :=
  foldlM_ok (fun _ _ _ hinv hact => Disciplined.act hzero hinv hact) (Disciplined.init cfg) h

/-- **The discipline of the commands.** The queues hold reads and writes, no refresh waits, and every command
popped is a read or a write. Under the close-page policy a pop finds a command if and only if a queue offers
an issuable one, and its search ends: it fails only at a bank that does not exist, which takes a number of
banks that is not a power of two. -/
theorem command_discipline (cfg : Config) (hzero : cfg.refreshCountdown 0 ≠ 0) (actions : List Action)
    (s : MemorySystem) (h : run cfg actions = .ok s) :
    (∀ r b, ∀ p ∈ s.memoryController.commandQueue.queues r b, p.IsRead ∨ p.IsWrite) ∧
      s.memoryController.commandQueue.refreshWaiting = false ∧
      (∀ e ∈ s.history.issued, e.2.IsRead ∨ e.2.IsWrite) ∧
      (∀ p cq, s.nextPop cfg = .ok (some p, cq) → p.IsRead ∨ p.IsWrite) ∧
      (∀ s', s.update cfg = .ok s' → ∃ found cq, s.nextPop cfg = .ok (found, cq) ∧
        s'.history.issued =
          s.history.issued ++ found.toList.map fun p => (s.memoryController.currentClockCycle, p)) ∧
      (cfg.rowBufferPolicy = .closePage →
        (∀ found cq, s.nextPop cfg = .ok (found, cq) →
          (found.isSome ↔ ∃ rank < cfg.numRanks, ∃ bank < cfg.numBanks, ∃ p,
            CommandQueue.Offers cfg (s.memoryController.commandQueue.getCommandQueue cfg rank bank) p ∧
            s.memoryController.commandQueue.isIssuable cfg s.memoryController.idleBanks.bankStates p =
              .ok true)) ∧
        (∀ e, s.nextPop cfg = .error e → e = .outOfRange ∧
          ∃ r b, ∃ p ∈ s.memoryController.commandQueue.queues r b, cfg.numBanks ≤ p.bank) ∧
        ((∃ k, cfg.numBanks = 2 ^ k) → ∃ found cq, s.nextPop cfg = .ok (found, cq))) := by
  have hinv := disciplined_run hzero h
  refine ⟨hinv.queued, hinv.waiting, hinv.issued, fun p cq hpop => (hinv.nextPop hzero hpop).2 p rfl,
    fun s' hupdate => update_nextPop hupdate, fun hpolicy => ?_⟩
  obtain ⟨hshape, -⟩ := timed_run hpolicy h
  have hcolumn : ∀ r b, ∀ p ∈ s.memoryController.commandQueue.queues r b, p.IsColumn :=
    fun r b p hp => (hshape.placed r b p hp).column
  have hnext : s.nextPop cfg = s.memoryController.commandQueue.pop cfg
      s.memoryController.idleBanks.bankStates := by
    rw [nextPop, hinv.checkRefresh hzero]
  have herror : ∀ e, s.nextPop cfg = .error e → e = .outOfRange ∧
      ∃ r b, ∃ p ∈ s.memoryController.commandQueue.queues r b, cfg.numBanks ≤ p.bank := by
    intro e he
    rw [hnext] at he
    obtain ⟨hrange, r, b, p, hp, hplace⟩ :=
      CommandQueue.pop_error hpolicy hinv.inRange hinv.waiting (fun r b => rfl) hcolumn he
    refine ⟨hrange, r, b, p, hp, ?_⟩
    have hplaced := hshape.placed r b p hp
    by_contra hlt
    refine hplace ⟨?_, not_le.mp hlt⟩
    rw [hplaced.rank_eq]
    exact hplaced.hasQueue.1
  refine ⟨fun found cq hpop => ?_, herror, fun ⟨k, hk⟩ => ?_⟩
  · rw [hnext] at hpop
    exact CommandQueue.pop_isSome_iff hpolicy hinv.inRange hinv.waiting (fun r b => rfl) hcolumn hpop
  · cases hpop : s.nextPop cfg with
    | ok found => exact ⟨found.1, found.2, rfl⟩
    | error e =>
        obtain ⟨-, r, b, p, hp, hge⟩ := herror e hpop
        have hlt := (addressMapping_lt cfg p.physicalAddress 0).2
        rw [Config.numBanksLog, hk, dramsimLog2_two_pow, ← hk, ← (hshape.placed r b p hp).mapped_bank] at hlt
        exact absurd hlt (not_lt.mpr hge)

/-- With the devices of the example, over a client that writes and reads. -/
theorem command_discipline_ddr2 : ∃ s, run (ddr2Micron 1 (by decide)) writeThenRead = .ok s ∧
    ∀ e ∈ s.history.issued, e.2.IsRead ∨ e.2.IsWrite := by
  have hrun : ∃ s, run (ddr2Micron 1 (by decide)) writeThenRead = .ok s ∧ True := by decide +kernel
  obtain ⟨s, hs, -⟩ := hrun
  exact ⟨s, hs, (command_discipline _ (by decide) writeThenRead s hs).2.2.1⟩

end MemorySystem

end RacerArtifacts.Mram
