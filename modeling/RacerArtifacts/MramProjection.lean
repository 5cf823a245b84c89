import RacerArtifacts.MramChannels

/-! A run of several channels, channel by channel. What a channel is told follows from the calls alone: which
of the transactions go to it, and when the statistics are printed. The channels do not see each other: a run
of all of them is a run of each. -/

namespace RacerArtifacts.Mram

namespace MultiChannelMemorySystem

/-- The searches for a channel that a call makes. -/
def Call.searches : Call → ℕ
  | .addTransaction _ | .request _ _ => 1
  | _ => 0

/-- The updates of the channels that a call makes. -/
def Call.cycles : Call → ℕ
  | .update => 1
  | _ => 0

/-- What a channel is told in a call, behind `count` searches and `cycle` updates. -/
def Call.actions (cfg : Config) (epochLength c count cycle : ℕ) : Call → List Action
  | .addTransaction transaction =>
      if channelOf cfg count transaction.address = c then [.addTransaction transaction] else []
  | .request isWrite addr => if channelOf cfg count addr = c then [.request isWrite addr] else []
  | .willAcceptTransactionFor _ | .willAcceptTransaction => []
  | .update => if cycle % epochLength = 0 then [.resetStats, .update] else [.update]
  | .printStats => [.resetStats]

/-- What a channel is told in a list of calls. -/
def projection (cfg : Config) (epochLength c : ℕ) : ℕ → ℕ → List Call → List Action
  | _, _, [] => []
  | count, cycle, call :: calls =>
      call.actions cfg epochLength c count cycle ++
        projection cfg epochLength c (count + call.searches) (cycle + call.cycles) calls

end MultiChannelMemorySystem

namespace MultiChannelMemorySystem

open Fallible

variable {cfg : Config} {epochLength count : ℕ} {m m' : MultiChannelMemorySystem}

/-- The channel that is found next is the one of the number of searches so far. -/
theorem Recorded.nextChannel_eq (h : Recorded cfg m) (addr : BitVec 64) :
    nextChannel cfg m addr = channelOf cfg m.sent.length addr := by
  rw [nextChannel, channelOf]
  by_cases hone : cfg.numChans = 1
  · rw [if_pos hone, if_pos hone]
  · rw [if_neg hone, if_neg hone, h.count_eq hone]

theorem updateChannels_iff (m : MultiChannelMemorySystem) :
    ((∀ c < cfg.numChans, ∃ s, (m.channels c).update cfg = .ok s) →
        ∃ m', (List.range cfg.numChans).foldlM (updateChannel cfg) m = .ok m') ∧
      ∀ m', (List.range cfg.numChans).foldlM (updateChannel cfg) m = .ok m' →
        (∀ c < cfg.numChans, (m.channels c).update cfg = .ok (m'.channels c)) ∧ m'.sent = m.sent ∧
          m'.transactionCount = m.transactionCount ∧ m'.currentClockCycle = m.currentClockCycle := by
  let Before : ℕ → MultiChannelMemorySystem → Prop := fun i t =>
    (∀ c < i, (m.channels c).update cfg = .ok (t.channels c)) ∧ (∀ c, i ≤ c → t.channels c = m.channels c) ∧
      t.sent = m.sent ∧ t.transactionCount = m.transactionCount ∧ t.currentClockCycle = m.currentClockCycle
  have hstart : Before 0 m :=
    ⟨fun c hc => absurd hc c.not_lt_zero, fun _ _ => rfl, rfl, rfl, rfl⟩
  have hnext : ∀ {i : ℕ} {t : MultiChannelMemorySystem} {channel : MemorySystem}, Before i t →
      (m.channels i).update cfg = .ok channel →
        Before (i + 1) { t with channels := Function.update t.channels i channel } := by
    rintro i t channel ⟨hdone, htodo, hsame⟩ hchannel
    refine ⟨fun c hc => ?_, fun c hc => ?_, hsame⟩
    · dsimp only
      rcases Nat.lt_succ_iff_lt_or_eq.mp hc with hlt | rfl
      · rw [Function.update_of_ne (Nat.ne_of_lt hlt)]
        exact hdone c hlt
      · rw [Function.update_self]
        exact hchannel
    · dsimp only
      rw [Function.update_of_ne (by omega)]
      exact htodo c (by omega)
  constructor
  · intro hchannels
    obtain ⟨m', hfold, -⟩ := foldlM_range_total (P := Before) hstart fun i hi t ht => by
      obtain ⟨channel, hchannel⟩ := hchannels i hi
      have hupdate : t.updateChannel cfg i =
          .ok { t with channels := Function.update t.channels i channel } := by
        rw [updateChannel, ht.2.1 i (le_refl i), hchannel]
      exact ⟨_, hupdate, hnext ht hchannel⟩
    exact ⟨m', hfold⟩
  · intro m' hfold
    obtain ⟨hdone, -, hsame⟩ := foldlM_range_ok (P := Before) hstart (fun i _ t t' ht hstep => by
      rw [updateChannel, ht.2.1 i (le_refl i)] at hstep
      cases hchannel : (m.channels i).update cfg with
      | error exit =>
          rw [hchannel] at hstep
          cases hstep
      | ok channel =>
          rw [hchannel] at hstep
          cases hstep
          exact hnext ht hchannel) hfold
    exact ⟨hdone, hsame⟩

/-- Beside the run of the channels: the searches and the cycles so far. -/
structure Counted (cfg : Config) (count cycle : ℕ) (m : MultiChannelMemorySystem) : Prop where
  recorded : Recorded cfg m
  length_eq : m.sent.length = count
  clock_eq : m.currentClockCycle = cycle

theorem Counted.init (cfg : Config) : Counted cfg 0 0 (init cfg) where
  recorded := Recorded.init cfg
  length_eq := rfl
  clock_eq := rfl

/-- A search moves the count on, and the channel it finds gets one action. -/
theorem Counted.setChannel {count cycle : ℕ} (h : Counted cfg count cycle m)
    (hchans : ∃ j, cfg.numChans = 2 ^ j) (addr : BitVec 64) (act : MemorySystem → MemorySystem) :
    Counted cfg (count + 1) cycle ((m.counted cfg addr).setChannel (nextChannel cfg m addr)
        (act (m.channels (nextChannel cfg m addr)))) ∧
      ∀ c, ((m.counted cfg addr).setChannel (nextChannel cfg m addr)
        (act (m.channels (nextChannel cfg m addr)))).channels c =
          if channelOf cfg count addr = c then act (m.channels c) else m.channels c := by
  have hfind := findChannelNumber_eq hchans m addr
  obtain ⟨hrecorded, hsent, -⟩ := h.recorded.findChannelNumber hfind
  have hnext := h.recorded.nextChannel_eq addr
  rw [h.length_eq] at hnext
  refine ⟨⟨hrecorded.of_same rfl rfl, ?_, h.clock_eq⟩, fun c => ?_⟩
  · change (m.sent ++ [_]).length = _
    rw [List.length_append, h.length_eq]
    rfl
  · change Function.update m.channels _ _ c = _
    split_ifs with hc
    · rw [← hc, ← hnext, Function.update_self]
    · rw [hnext, Function.update_of_ne (Ne.symm hc)]

theorem update_split (hepoch : 0 < epochLength) (m : MultiChannelMemorySystem) : m.update cfg epochLength =
    ((List.range cfg.numChans).foldlM (updateChannel cfg)
      (if m.currentClockCycle % epochLength = 0 then m.printStats cfg else m)).map fun m =>
        { m with currentClockCycle := m.currentClockCycle + 1 } := by
  rw [update, if_neg (Nat.ne_of_gt hepoch)]
  dsimp only
  cases List.foldlM (updateChannel cfg)
    (if m.currentClockCycle % epochLength = 0 then m.printStats cfg else m)
    (List.range cfg.numChans) <;> rfl

theorem printStats_channel {c : ℕ} (hc : c < cfg.numChans) (m : MultiChannelMemorySystem) :
    (m.channels c).act cfg .resetStats = .ok ((m.printStats cfg).channels c) := by
  rw [printStats]
  dsimp only
  rw [if_pos hc]
  rfl

/-- What a channel is told in an update leads to its update, behind the printing of the statistics. -/
theorem updateActions_eq {c cycle : ℕ} (hc : c < cfg.numChans) (hclock : m.currentClockCycle = cycle) :
    (Call.update.actions cfg epochLength c count cycle).foldlM (MemorySystem.act cfg) (m.channels c) =
      ((if m.currentClockCycle % epochLength = 0 then m.printStats cfg else m).channels c).update cfg := by
  rw [hclock]
  change (if cycle % epochLength = 0 then [Action.resetStats, .update] else [.update]).foldlM _ _ = _
  split_ifs
  · rw [List.foldlM_cons, printStats_channel hc, ok_bind, List.foldlM_cons]
    exact bind_pure _
  · rw [List.foldlM_cons]
    exact bind_pure _

/-- **One call.** It succeeds if what each channel is told succeeds, and leads each channel to where
that leads. -/
theorem serve_iff (hchans : ∃ j, cfg.numChans = 2 ^ j) (hepoch : 0 < epochLength) {count cycle : ℕ}
    (h : Counted cfg count cycle m) (call : Call) :
    ((∀ c < cfg.numChans, ∃ s, (call.actions cfg epochLength c count cycle).foldlM (MemorySystem.act cfg)
        (m.channels c) = .ok s) → ∃ r, m.serve cfg epochLength call = .ok r) ∧
      ∀ reply m', m.serve cfg epochLength call = .ok (reply, m') →
        Counted cfg (count + call.searches) (cycle + call.cycles) m' ∧
          ∀ c < cfg.numChans, (call.actions cfg epochLength c count cycle).foldlM (MemorySystem.act cfg)
            (m.channels c) = .ok (m'.channels c) := by
  have hone : ∀ {c : ℕ} {addr : BitVec 64} {action : Action} (act : MemorySystem → MemorySystem),
      (∀ s, MemorySystem.act cfg s action = .ok (act s)) →
        (if channelOf cfg count addr = c then [action] else []).foldlM (MemorySystem.act cfg) (m.channels c) =
          .ok (if channelOf cfg count addr = c then act (m.channels c) else m.channels c) := by
    intro c addr action act hact
    split_ifs
    · rw [List.foldlM_cons, hact]
      rfl
    · rfl
  cases call with
  | addTransaction transaction =>
      have hserve : m.serve cfg epochLength (.addTransaction transaction) = .ok (_, _) :=
        congrArg (Except.map _) (addTransaction_eq hchans m transaction)
      refine ⟨fun _ => ⟨_, hserve⟩, fun reply m' hm' => ?_⟩
      rw [hserve] at hm'
      cases hm'
      obtain ⟨hcounted, hchannels⟩ :=
        h.setChannel hchans transaction.address fun s => s.addTransaction cfg transaction
      refine ⟨hcounted, fun c _ => ?_⟩
      rw [hchannels c]
      exact hone (fun s => s.addTransaction cfg transaction) fun s => rfl
  | request isWrite addr =>
      have hserve : m.serve cfg epochLength (.request isWrite addr) = .ok (_, _) :=
        congrArg (Except.map _) (request_eq hchans m isWrite addr)
      refine ⟨fun _ => ⟨_, hserve⟩, fun reply m' hm' => ?_⟩
      rw [hserve] at hm'
      cases hm'
      obtain ⟨hcounted, hchannels⟩ := h.setChannel hchans addr fun s => s.request cfg isWrite addr
      refine ⟨hcounted, fun c _ => ?_⟩
      rw [hchannels c]
      exact hone (fun s => s.request cfg isWrite addr) fun s => rfl
  | willAcceptTransactionFor addr =>
      have hserve : m.serve cfg epochLength (.willAcceptTransactionFor addr) = .ok (_, m) :=
        congrArg (Except.map _) (willAcceptTransactionFor_eq hchans m addr)
      refine ⟨fun _ => ⟨_, hserve⟩, fun reply m' hm' => ?_⟩
      rw [hserve] at hm'
      cases hm'
      exact ⟨h, fun c _ => rfl⟩
  | willAcceptTransaction =>
      refine ⟨fun _ => ⟨_, rfl⟩, fun reply m' hm' => ?_⟩
      cases hm'
      exact ⟨h, fun c _ => rfl⟩
  | update =>
      obtain ⟨htotal, hchannels⟩ := @updateChannels_iff cfg
        (if m.currentClockCycle % epochLength = 0 then m.printStats cfg else m)
      constructor
      · intro hactions
        obtain ⟨m', hm'⟩ := htotal fun c hc => by
          obtain ⟨s, hs⟩ := hactions c hc
          rw [updateActions_eq hc h.clock_eq] at hs
          exact ⟨s, hs⟩
        refine ⟨(.done, { m' with currentClockCycle := m'.currentClockCycle + 1 }), ?_⟩
        rw [serve, update_split hepoch, hm']
        rfl
      · intro reply m' hm'
        obtain ⟨m₁, hm₁, heq⟩ := map_ok hm'
        cases heq
        rw [update_split hepoch] at hm₁
        obtain ⟨m₂, hm₂, rfl⟩ := map_ok hm₁
        obtain ⟨hupdates, hsent, hcount, hclock⟩ := hchannels m₂ hm₂
        have hprinted :
            (if m.currentClockCycle % epochLength = 0 then m.printStats cfg else m).sent = m.sent ∧
            (if m.currentClockCycle % epochLength = 0 then m.printStats cfg else m).transactionCount =
              m.transactionCount ∧
            (if m.currentClockCycle % epochLength = 0 then m.printStats cfg else m).currentClockCycle =
              m.currentClockCycle := by
          split_ifs <;> exact ⟨rfl, rfl, rfl⟩
        refine ⟨⟨h.recorded.of_same (hcount.trans hprinted.2.1) (hsent.trans hprinted.1), ?_, ?_⟩,
          fun c hc => ?_⟩
        · exact (congrArg List.length (hsent.trans hprinted.1)).trans h.length_eq
        · exact congrArg (· + 1) ((hclock.trans hprinted.2.2).trans h.clock_eq)
        · rw [updateActions_eq hc h.clock_eq]
          exact hupdates c hc
  | printStats =>
      refine ⟨fun _ => ⟨_, rfl⟩, fun reply m' hm' => ?_⟩
      cases hm'
      refine ⟨⟨h.recorded.of_same rfl rfl, h.length_eq, h.clock_eq⟩, fun c hc => ?_⟩
      change [Action.resetStats].foldlM _ _ = _
      rw [List.foldlM_cons, printStats_channel hc]
      rfl

theorem serves_iff (hchans : ∃ j, cfg.numChans = 2 ^ j) (hepoch : 0 < epochLength) (calls : List Call)
    {count cycle : ℕ} (h : Counted cfg count cycle m) :
    ((∀ c < cfg.numChans, ∃ s, (projection cfg epochLength c count cycle calls).foldlM (MemorySystem.act cfg)
        (m.channels c) = .ok s) →
          ∃ m', calls.foldlM (fun m call => (m.serve cfg epochLength call).map Prod.snd) m = .ok m') ∧
      ∀ m', calls.foldlM (fun m call => (m.serve cfg epochLength call).map Prod.snd) m = .ok m' →
        Counted cfg (count + (calls.map Call.searches).sum) (cycle + (calls.map Call.cycles).sum) m' ∧
          ∀ c < cfg.numChans, (projection cfg epochLength c count cycle calls).foldlM (MemorySystem.act cfg)
            (m.channels c) = .ok (m'.channels c) := by
  induction calls generalizing m count cycle with
  | nil =>
      refine ⟨fun _ => ⟨m, rfl⟩, fun m' hm' => ?_⟩
      cases hm'
      exact ⟨h, fun c _ => rfl⟩
  | cons call calls ih =>
      obtain ⟨htotal, hstep⟩ := serve_iff hchans hepoch h call
      constructor
      · intro hactions
        obtain ⟨⟨reply, m₁⟩, hm₁⟩ := htotal fun c hc => by
          obtain ⟨s, hs⟩ := hactions c hc
          rw [projection, List.foldlM_append] at hs
          obtain ⟨s₁, hs₁, -⟩ := bind_ok hs
          exact ⟨s₁, hs₁⟩
        obtain ⟨hcounted, hchannels⟩ := hstep reply m₁ hm₁
        obtain ⟨m', hm'⟩ := (ih hcounted).1 fun c hc => by
          obtain ⟨s, hs⟩ := hactions c hc
          rw [projection, List.foldlM_append, hchannels c hc] at hs
          exact ⟨s, hs⟩
        refine ⟨m', ?_⟩
        rw [List.foldlM_cons, hm₁]
        exact hm'
      · intro m' hm'
        rw [List.foldlM_cons] at hm'
        obtain ⟨m₁, hm₁, hm'⟩ := bind_ok hm'
        obtain ⟨⟨reply, m₂⟩, hserve, rfl⟩ := map_ok hm₁
        obtain ⟨hcounted, hchannels⟩ := hstep reply m₂ hserve
        obtain ⟨hcounted', hrest⟩ := (ih hcounted).2 m' hm'
        refine ⟨?_, fun c hc => ?_⟩
        · rw [List.map_cons, List.map_cons, List.sum_cons, List.sum_cons, ← Nat.add_assoc, ← Nat.add_assoc]
          exact hcounted'
        · rw [projection, List.foldlM_append, hchannels c hc]
          exact hrest c hc

/-- **The channels are independent.** A run of all channels leads each of them to where its own run leads, of
what it is told; and the run of all succeeds exactly if the run of each does. -/
theorem channels_independent (cfg : Config) (hchans : ∃ j, cfg.numChans = 2 ^ j) (epochLength : ℕ)
    (hepoch : 0 < epochLength) (calls : List Call) :
    (∀ m, run cfg epochLength calls = .ok m → ∀ c < cfg.numChans,
        MemorySystem.run cfg (projection cfg epochLength c 0 0 calls) = .ok (m.channels c)) ∧
      ((∃ m, run cfg epochLength calls = .ok m) ↔
        ∀ c < cfg.numChans, ∃ s, MemorySystem.run cfg (projection cfg epochLength c 0 0 calls) = .ok s) := by
  obtain ⟨htotal, hchannels⟩ := serves_iff hchans hepoch calls (Counted.init cfg)
  exact ⟨fun m hm => (hchannels m hm).2, fun ⟨m, hm⟩ c hc => ⟨_, (hchannels m hm).2 c hc⟩, htotal⟩

/-- Two reads, for two of the 16 channels, and some updates. -/
def readsAndUpdates : List Call :=
  [.request false 0, .request false 2048] ++ List.replicate 8 .update

theorem channels_independent_ddr2 : ∃ m, run (ddr2Micron 1 (by decide)) 5 readsAndUpdates = .ok m ∧
    ∀ c < 16, MemorySystem.run (ddr2Micron 1 (by decide))
      (projection (ddr2Micron 1 (by decide)) 5 c 0 0 readsAndUpdates) =
        .ok (m.channels c) := by
  have hrun : ∃ m, run (ddr2Micron 1 (by decide)) 5 readsAndUpdates = .ok m ∧ True := by decide +kernel
  obtain ⟨m, hm, -⟩ := hrun
  exact ⟨m, hm, (channels_independent (ddr2Micron 1 (by decide)) ⟨4, rfl⟩ 5
    (by decide) readsAndUpdates).1 m hm⟩

end MultiChannelMemorySystem

end RacerArtifacts.Mram
