import RacerArtifacts.MramConservation
import RacerArtifacts.MramOrdering

/-! The turnaround between ranks. The timers of the other ranks are raised for active banks only, and no bank
is active when a command is popped: nothing holds back a command for another rank. Where nothing had to be
held back, the delays between ranks are kept all the same, and the data bus of the controller is free whenever
it is needed. -/

namespace RacerArtifacts.Mram

open Fallible CommandQueue MemoryController Pipe

variable {cfg : Config}

namespace MemorySystem

variable {s s' t : MemorySystem}

/-- The delay from a command to one of another rank, as the update of the banks has it. -/
def otherRankDelay (cfg : Config) (first second : BusPacketType) : ℕ :=
  if first = second then cfg.BL / 2 + cfg.tRTRS
  else if first = .readP then cfg.readToWriteDelay
  else cfg.writeToReadDelayR

/-- The timer of a rank that the loop over the other ranks would have raised, did it not ask for an
active bank. -/
def otherRanksTimer (cfg : Config) (issued : List (ℕ × BusPacket)) (rank : ℕ) (command : BusPacketType) : ℕ :=
  issued.foldr (fun e timer =>
    if e.2.IsColumn ∧ e.2.rank ≠ rank then max (e.1 + otherRankDelay cfg e.2.busPacketType command) timer
    else timer) 0

theorem otherRanksTimer_le {issued : List (ℕ × BusPacket)} {rank : ℕ} {command : BusPacketType} {T : ℕ} :
    otherRanksTimer cfg issued rank command ≤ T ↔ ∀ e ∈ issued, e.2.IsColumn → e.2.rank ≠ rank →
      e.1 + otherRankDelay cfg e.2.busPacketType command ≤ T := by
  induction issued with
  | nil => exact ⟨fun _ e he => (by cases he), fun _ => Nat.zero_le T⟩
  | cons e issued ih =>
      rw [List.forall_mem_cons, ← ih]
      show (if e.2.IsColumn ∧ e.2.rank ≠ rank then max (e.1 + otherRankDelay cfg e.2.busPacketType command)
        (otherRanksTimer cfg issued rank command) else otherRanksTimer cfg issued rank command) ≤ T ↔ _
      by_cases hother : e.2.IsColumn ∧ e.2.rank ≠ rank
      · rw [if_pos hother, max_le_iff]
        exact and_congr_left fun _ => ⟨fun h _ _ => h, fun h => h hother.1 hother.2⟩
      · rw [if_neg hother]
        exact ⟨fun h => ⟨fun hcolumn hrank => absurd ⟨hcolumn, hrank⟩ hother, h⟩, And.right⟩

/-- **Commands to different ranks keep the delays between ranks.** -/
def TurnsAround (cfg : Config) (s : MemorySystem) : Prop :=
  ∀ e ∈ s.history.issued, ∀ f ∈ s.history.issued, e.1 < f.1 → e.2.rank ≠ f.2.rank →
    (e.2.IsRead → f.2.IsRead → e.1 + (cfg.BL / 2 + cfg.tRTRS) ≤ f.1) ∧
      (e.2.IsWrite → f.2.IsWrite → e.1 + (cfg.BL / 2 + cfg.tRTRS) ≤ f.1) ∧
      (e.2.IsRead → f.2.IsWrite → e.1 + cfg.readToWriteDelay ≤ f.1) ∧
      (e.2.IsWrite → f.2.IsRead → e.1 + cfg.writeToReadDelayR ≤ f.1)

/-- The command that a cycle takes is one that the timers of the other ranks would not have held back: where
the search ends, if it is not a refresh that goes out. -/
def CandidateWaited (cfg : Config) (s : MemorySystem) : Prop :=
  let cq := (s.checkRefresh cfg).memoryController.commandQueue
  let bankStates := s.memoryController.idleBanks.bankStates
  ¬ RefreshGoes cfg bankStates cq → ∀ k front p rest, SearchEnds cfg bankStates cq k →
    ((advance cfg)^[k] cq).mayLook cfg = true →
    Candidate cfg bankStates cq (((advance cfg)^[k] cq).here cfg) front p rest →
    otherRanksTimer cfg s.history.issued p.rank p.busPacketType ≤ s.memoryController.currentClockCycle

/-- The banks with the timers of the other ranks raised for every command issued. -/
def raisedBanks (cfg : Config) (s : MemorySystem) : BankStates := fun rank bank =>
  let state := s.memoryController.idleBanks.bankStates rank bank
  { state with
    nextRead := max (otherRanksTimer cfg s.history.issued rank .readP) state.nextRead
    nextWrite := max (otherRanksTimer cfg s.history.issued rank .writeP) state.nextWrite }

/-- The timers that the loop does not raise hold nothing back: what `isIssuable` allows of the queued
commands, it would allow with them too. -/
def NothingMissed (cfg : Config) (s : MemorySystem) : Prop :=
  let cq := s.memoryController.commandQueue
  ∀ rank < cfg.numRanks, ∀ bank < cfg.numBanks, ∀ p ∈ cq.getCommandQueue cfg rank bank,
    cq.isIssuable cfg s.memoryController.idleBanks.bankStates p = .ok true →
      cq.isIssuable cfg (s.raisedBanks cfg) p = .ok true

instance (cfg : Config) (s : MemorySystem) : Decidable (NothingMissed cfg s) :=
  inferInstanceAs (Decidable (∀ rank < cfg.numRanks, ∀ bank < cfg.numBanks, ∀ p ∈ _, _ → _))

/-- The state in which an update looks at the head of `writeDataCountdown`. -/
def atWriteData (cfg : Config) (s : MemorySystem) : Except Exit MemorySystem := do
  let s ← (List.range cfg.numRanks).foldlM (updateRank cfg) s
  let s ← (s.takePending cfg).idleBanks.sendCommand cfg
  s.sendWriteData cfg

/-- The data bus is free whenever the head of `writeDataCountdown` reaches 0. -/
def BusFree (cfg : Config) (s : MemorySystem) : Prop :=
  ∀ t rest, s.atWriteData cfg = .ok t → t.memoryController.writeDataCountdown.map decrement = 0 :: rest →
    t.memoryController.outgoingDataPacket = none

theorem turnsAround_iff {T : ℕ} (htimed : Timed cfg T s) :
    TurnsAround cfg s ↔ ∀ e ∈ s.history.issued, ∀ f ∈ s.history.issued, e.1 < f.1 → e.2.rank ≠ f.2.rank →
      e.2.IsColumn → f.2.IsColumn → e.1 + otherRankDelay cfg e.2.busPacketType f.2.busPacketType ≤ f.1 := by
  constructor
  · intro h e he f hf hlt hrank hecolumn hfcolumn
    obtain ⟨hreads, hwrites, hreadWrite, hwriteRead⟩ := h e he f hf hlt hrank
    rcases hecolumn with he' | he' <;> rcases hfcolumn with hf' | hf' <;> rw [he', hf']
    · exact hreads (.inr he') (.inr hf')
    · exact hreadWrite (.inr he') (.inr hf')
    · exact hwriteRead (.inr he') (.inr hf')
    · exact hwrites (.inr he') (.inr hf')
  · intro h e he f hf hlt hrank
    have hdelay : ∀ p q, e.2.IsRead ∨ e.2.IsWrite → f.2.IsRead ∨ f.2.IsWrite → e.2.busPacketType = p →
        f.2.busPacketType = q → e.1 + otherRankDelay cfg p q ≤ f.1 := by
      rintro p q hemoves hfmoves rfl rfl
      exact h e he f hf hlt hrank (htimed.isColumn he hemoves) (htimed.isColumn hf hfmoves)
    have hread : ∀ x ∈ s.history.issued, x.2.IsRead → x.2.busPacketType = .readP := fun x hx hmoves =>
      (BusPacket.IsRead.isColumn_of_not_read (htimed.isColumn hx (.inl hmoves))).1.mp hmoves
    have hwrite : ∀ x ∈ s.history.issued, x.2.IsWrite → x.2.busPacketType = .writeP := fun x hx hmoves =>
      (BusPacket.IsRead.isColumn_of_not_read (htimed.isColumn hx (.inr hmoves))).2.mp hmoves
    exact ⟨fun hr hr' => hdelay .readP .readP (.inl hr) (.inl hr') (hread e he hr) (hread f hf hr'),
      fun hw hw' => hdelay .writeP .writeP (.inr hw) (.inr hw') (hwrite e he hw) (hwrite f hf hw'),
      fun hr hw => hdelay .readP .writeP (.inl hr) (.inr hw) (hread e he hr) (hwrite f hf hw),
      fun hw hr => hdelay .writeP .readP (.inr hw) (.inl hr) (hwrite e he hw) (hread f hf hr)⟩

theorem update_candidate (hpolicy : cfg.rowBufferPolicy = .closePage) (hcontrol : Control cfg s)
    (h : s.update cfg = .ok s') :
    (∃ p, p.IsColumn ∧ s'.history.issued = s.history.issued ++ [(s.memoryController.currentClockCycle, p)] ∧
        (CandidateWaited cfg s ↔
          otherRanksTimer cfg s.history.issued p.rank p.busPacketType ≤
            s.memoryController.currentClockCycle)) ∨
      (CandidateWaited cfg s ∧ ∀ e ∈ s'.history.issued, e.2.IsColumn → e ∈ s.history.issued) := by
  obtain ⟨t, t', u, hprepared, hpop, hschedule, hfinished⟩ := update_control h
  obtain ⟨hshape, htimed, hbus⟩ := hcontrol.prepared hprepared
  have hissued : s'.history.issued = t'.history.issued := by
    rw [hfinished.issued_eq]
    rcases schedule_ok hpolicy hschedule with rfl | ⟨_, _, _, _, -, -, -, -, -, rfl⟩ <;> rfl
  unfold CandidateWaited
  dsimp only
  rw [← hprepared.queue_eq, ← hprepared.banks_eq, hissued, ← hprepared.issued_eq, ← hprepared.clock_eq]
  cases popCommand_ok hpolicy hprepared.idle (fun r b p hp => (hshape.placed r b p hp).column) hpop with
  | refresh hgoes hqueues hclock hissues =>
      obtain ⟨_, _, _, _, -, -, -, rfl⟩ := hissues
      refine .inr ⟨fun hstays => absurd hgoes hstays, fun e he hcolumn => ?_⟩
      rcases List.mem_append.mp he with he | he
      · exact he
      · rw [List.mem_singleton.mp he] at hcolumn
        rcases hcolumn with hbad | hbad <;> cases hbad
  | nothing hstays hends hpos hback hsame heq =>
      subst heq
      refine .inr ⟨fun _ k front p rest hends' hlook hcandidate => ?_, fun e he _ => he⟩
      exact absurd ⟨hpos, hback⟩ (search_unique hends' hlook hcandidate hends).2
  | @column hstays k hends hlook front p rest hcandidate cq hsame hissues =>
      obtain ⟨_, _, _, _, -, -, -, rfl⟩ := hissues
      have hplaced : Placed cfg _ _ p := hshape.middle hcandidate.queue_eq
      refine .inl ⟨p, hplaced.column, rfl, fun hwaited => ?_,
        fun hwaited _ k' front' p' rest' hends' hlook' hcandidate' => ?_⟩
      · exact hwaited hstays k front p rest hends hlook hcandidate
      · obtain rfl := (search_unique hends' hlook' hcandidate' hends).1 front p rest hlook hcandidate
        obtain ⟨-, rfl, -⟩ := Candidate.unique hcandidate hcandidate'
        exact hwaited

/-- **An update keeps the delays between ranks** if the command it takes has waited, and only then. -/
theorem turnsAround_update (hpolicy : cfg.rowBufferPolicy = .closePage) (htCMD : cfg.tCMD = 1)
    (hcontrol : Control cfg s)
    (hturns : TurnsAround cfg s) (h : s.update cfg = .ok s') : TurnsAround cfg s' ↔
    CandidateWaited cfg s := by
  have htimed' := (hcontrol.update hpolicy htCMD h).timed
  rw [turnsAround_iff htimed']
  rw [turnsAround_iff hcontrol.timed] at hturns
  rcases update_candidate hpolicy hcontrol h with ⟨p, hcolumn, hissued, hwaited⟩ | ⟨hwaited, hissued⟩
  · rw [hwaited, otherRanksTimer_le, hissued]
    constructor
    · intro h e he hecolumn hrank
      exact h e (List.mem_append_left _ he) _ (List.mem_append_right _ (List.mem_singleton_self _))
        (hcontrol.timed.past e he) hrank hecolumn hcolumn
    · intro h e he f hf hlt hrank hecolumn hfcolumn
      rcases List.mem_append.mp he with he | he
      · rcases List.mem_append.mp hf with hf | hf
        · exact hturns e he f hf hlt hrank hecolumn hfcolumn
        · obtain rfl := List.mem_singleton.mp hf
          exact h e he hecolumn hrank
      · obtain rfl := List.mem_singleton.mp he
        rcases List.mem_append.mp hf with hf | hf
        · exact absurd (hcontrol.timed.past f hf) (Nat.lt_asymm hlt)
        · rw [List.mem_singleton.mp hf] at hlt
          exact absurd hlt (lt_irrefl _)
  · refine ⟨fun _ => hwaited, fun _ e he f hf hlt hrank hecolumn hfcolumn => ?_⟩
    exact hturns e (hissued e he hecolumn) f (hissued f hf hfcolumn) hlt hrank hecolumn hfcolumn

/-- Writes that keep the delays, within a rank and between ranks, come a burst apart. -/
theorem TurnsAround.writes_spaced {T : ℕ} (htimed : Timed cfg T s) (h : TurnsAround cfg s) :
    (dataOf BusPacket.IsWrite s.history.issued).Pairwise fun e f => e.1 + cfg.burst ≤ f.1 := by
  refine dataOf_pairwise (htimed.ordered.imp_of_mem fun {e f} he hf hlt hew hfw => ?_)
  by_cases hrank : e.2.rank = f.2.rank
  · exact htimed.burst_spaced he hf hlt hrank (.inr ⟨hew, hfw⟩)
  · have hdelay := (h e he f hf hlt hrank).2.1 hew hfw
    rw [Config.burst]
    split_ifs <;> omega

theorem WritesFlow.busFree (h : WritesFlow cfg s) : BusFree cfg s := by
  intro t rest ht hhead
  rw [atWriteData] at ht
  obtain ⟨s₁, h₁, ht⟩ := bind_ok ht
  obtain ⟨s₂, h₂, h₃⟩ := bind_ok ht
  obtain ⟨_, _, _, s₄, -, h₄, -, -⟩ := h.phases h₁ h₂ h₃
  obtain ⟨mc, hmc, -⟩ := map_ok h₄
  rcases startWriteData_ok hmc with ⟨-, hnot, -⟩ | ⟨_, _, _, _, _, -, -, hfree, -⟩
  · exact absurd hhead (hnot rest)
  · exact hfree

/-- The ranks of a run have the bus to themselves: in all its states the delays between ranks are kept and the
data bus is free when it is needed, and it does not end in a collision. -/
def Exclusive (cfg : Config) (actions : List Action) : Prop :=
  (∀ acts s, acts <+: actions → run cfg acts = .ok s → TurnsAround cfg s ∧ BusFree cfg s) ∧
    run cfg actions ≠ .error .dataBusCollision

theorem turnsAround_run (hpolicy : cfg.rowBufferPolicy = .closePage) (htCMD : cfg.tCMD = 1)
    {actions : List Action}
    (hwaited : ∀ acts t t', acts ++ [.update] <+: actions → run cfg acts = .ok t → t.update cfg = .ok t' →
      CandidateWaited cfg t) (h : run cfg actions = .ok s) : TurnsAround cfg s := by
  induction actions using List.reverseRecOn generalizing s with
  | nil =>
      cases h
      intro e he
      cases he
  | append_singleton acts action ih =>
      have hlast := h
      rw [run_concat] at hlast
      obtain ⟨t, ht, hact⟩ := bind_ok hlast
      have hturns : TurnsAround cfg t := ih
        (fun acts' u u' hinit => hwaited acts' u u' (hinit.trans (List.prefix_append _ _))) ht
      rcases act_ok hact with ⟨rfl, hupdate⟩ | ⟨-, hwaits, -⟩
      · exact (turnsAround_update hpolicy htCMD (control_run hpolicy htCMD ht) hturns hupdate).mpr
          (hwaited acts t s List.prefix_rfl ht hupdate)
      · rw [TurnsAround, hwaits.issued_eq]
        exact hturns

/-- In a run the delays between ranks are kept, the data bus is free for the write data and no collision is
reached, exactly if each update takes a command that has waited. -/
theorem exclusive_iff_waited (cfg : Config) (hpolicy : cfg.rowBufferPolicy = .closePage)
    (htCMD : cfg.tCMD = 1) (actions : List Action) :
    Exclusive cfg actions ↔ ∀ acts t t', acts ++ [.update] <+: actions → run cfg acts = .ok t →
      t.update cfg = .ok t' → CandidateWaited cfg t := by
  constructor
  · intro hexclusive acts t t' hinit ht hupdate
    have hturns : TurnsAround cfg t :=
      (hexclusive.1 acts t ((List.prefix_append _ _).trans hinit) ht).1
    refine (turnsAround_update hpolicy htCMD (control_run hpolicy htCMD ht) hturns hupdate).mp
      (hexclusive.1 _ t' hinit ?_).1
    rw [run_concat, ht]
    exact hupdate
  · intro hwaited
    have hturns : ∀ acts s, acts <+: actions → run cfg acts = .ok s → TurnsAround cfg s := by
      intro acts s hinit h
      exact turnsAround_run hpolicy htCMD
        (fun acts' t t' hinit' => hwaited acts' t t' (hinit'.trans hinit)) h
    have hflow : ∀ acts s, acts <+: actions → run cfg acts = .ok s → WritesFlow cfg s := fun acts s hinit h =>
      writesFlow_run h ((hturns acts s hinit h).writes_spaced (control_run hpolicy htCMD h).timed)
    refine ⟨fun acts s hinit h => ⟨hturns acts s hinit h, (hflow acts s hinit h).busFree⟩, fun h => ?_⟩
    obtain ⟨before, action, behind, s, hsplit, hbefore, hfails⟩ := foldlM_error h
    cases action with
    | update => exact (hflow before s (hsplit ▸ List.prefix_append _ _) hbefore).no_collision hfails
    | addTransaction transaction => cases hfails
    | request isWrite addr => cases hfails
    | resetStats => cases hfails

/-- Raised timers cover the commands issued to the other ranks. -/
theorem otherRanksTimer_le_timer {p : BusPacket} (hp : p.IsColumn) :
    otherRanksTimer cfg s.history.issued p.rank p.busPacketType ≤ timer (s.raisedBanks cfg) p := by
  rw [timer, BankState.next, raisedBanks]
  rcases hp with htype | htype <;> rw [htype]
  · exact le_max_left _ _
  · exact le_max_left _ _

/-- Where the timers miss nothing, the command that a cycle takes has waited. -/
theorem NothingMissed.candidateWaited (hshape : Shape cfg s) (h : NothingMissed cfg s) :
    CandidateWaited cfg s := by
  intro _ k front p rest _ _ hcandidate
  obtain ⟨hcolumn, hrank, hbank, hqueued⟩ := candidate_queued hshape hcandidate
  have hmem : p ∈ s.memoryController.commandQueue.getCommandQueue cfg p.rank p.bank := by
    rw [hqueued.queue_eq]
    exact List.mem_append_right front List.mem_cons_self
  obtain ⟨-, -, htimer, -⟩ := isIssuable_true hcolumn (h p.rank hrank p.bank hbank p hmem hqueued.issuable)
  rw [← hshape.clock_eq]
  exact (otherRanksTimer_le_timer hcolumn).trans htimer

/-- **The turnaround between ranks.** In a run in which the timers of the other ranks, which are not raised,
would have held back no queued command, the delays between ranks are kept, the data bus is free for the write
data and no collision is reached. -/
theorem exclusive_of_nothingMissed (cfg : Config) (hpolicy : cfg.rowBufferPolicy = .closePage)
    (htCMD : cfg.tCMD = 1) (actions : List Action)
    (hmissed : ∀ acts t, acts ++ [.update] <+: actions → run cfg acts = .ok t → NothingMissed cfg t) :
    Exclusive cfg actions :=
  (exclusive_iff_waited cfg hpolicy htCMD actions).mpr fun acts t _ hinit ht _ =>
    (hmissed acts t hinit ht).candidateWaited (control_run hpolicy htCMD ht).shape

theorem nothingMissed_of_one_rank (hpolicy : cfg.rowBufferPolicy = .closePage) (htCMD : cfg.tCMD = 1)
    (hone : cfg.numRanks = 1) {actions : List Action} (h : run cfg actions = .ok s) :
    NothingMissed cfg s := by
  intro rank hrank bank hbank p hp hissuable
  have hplaced : Placed cfg _ _ p := (control_run hpolicy htCMD h).shape.placed _ _ p hp
  have htimer : ∀ command, otherRanksTimer cfg s.history.issued p.rank command = 0 := by
    intro command
    refine Nat.le_zero.mp (otherRanksTimer_le.mpr fun e he hcolumn hother => absurd ?_ hother)
    have := issued_ranks hpolicy htCMD h e he hcolumn
    rw [hplaced.rank_eq]
    omega
  rw [← hissuable]
  apply isIssuable_congr hplaced.column rfl rfl
  simp only [timer, BankState.next, raisedBanks, htimer, Nat.zero_max]

/-- A client that writes to two ranks and reads from one of them, slowly enough. -/
def spacedClient : List Action :=
  [.addTransaction ⟨.dataWrite, 0, 1, 0⟩] ++ List.replicate 4 .update ++
    [.addTransaction ⟨.dataWrite, 0x40000, 2, 0⟩] ++ List.replicate 8 .update ++
    [.addTransaction ⟨.dataRead, 0, 0, 0⟩] ++ List.replicate 12 .update

/-- With the devices of the example in two ranks that client misses nothing. -/
theorem exclusive_of_nothingMissed_ddr2 :
    (∃ s, run (ddr2Micron 2 (by decide)) spacedClient = .ok s ∧
        s.history.issued.map (fun e => (e.1, e.2.busPacketType, e.2.rank)) =
          [(1, .writeP, 0), (5, .writeP, 1), (13, .readP, 0)]) ∧
      Exclusive (ddr2Micron 2 (by decide)) spacedClient := by
  refine ⟨by decide +kernel, exclusive_of_nothingMissed (ddr2Micron 2 (by decide)) rfl rfl spacedClient ?_⟩
  have halong : Along (act (ddr2Micron 2 (by decide)))
      (fun s action => action = .update → NothingMissed (ddr2Micron 2 (by decide)) s)
      (init (ddr2Micron 2 (by decide))) spacedClient := by decide +kernel
  rintro acts t ⟨rest, hsplit⟩ ht
  rw [← hsplit, List.append_assoc] at halong
  exact halong.holds ht rfl

/-- A client that writes to each of two ranks. -/
def writeBothRanks : List Action :=
  [.addTransaction ⟨.dataWrite, 0, 1, 0⟩, .addTransaction ⟨.dataWrite, 0x40000, 2, 0⟩] ++
  List.replicate 12 .update

/-- With two ranks two writes in a row are issued a cycle apart, and their bursts collide on the data bus. -/
theorem data_bus_collides :
    ¬ ∀ (cfg : Config) (actions : List Action), cfg.rowBufferPolicy = .closePage → cfg.tCMD = 1 →
      Exclusive cfg actions := by
  intro h
  have hrun : ∃ e, run (ddr2Micron 2 (by decide)) writeBothRanks = .error e ∧ e = .dataBusCollision := by
    decide +kernel
  obtain ⟨e, he, rfl⟩ := hrun
  exact (h _ writeBothRanks rfl rfl).2 he

end MemorySystem

end RacerArtifacts.Mram
