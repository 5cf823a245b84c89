import RacerArtifacts.MramTrace

/-! Every transaction of a trace is answered. What is left of the file, what waits and the work of the
channels are one load, which the cycles of the loop drain once the cycles that the lines ask for are past. -/

namespace RacerArtifacts.Mram

open Fallible Pacing

variable {cfg : Config}

namespace MemorySystem

variable {s s' t : MemorySystem} {k : ℕ}

/-- A run of requests reaches the state. -/
def Reached (cfg : Config) (s : MemorySystem) : Prop :=
  ∃ actions : List Action, (∀ action ∈ actions, action.IsRequest) ∧ run cfg actions = .ok s

theorem Reached.init (cfg : Config) : Reached cfg (init cfg) :=
  ⟨[], fun _ h => (List.not_mem_nil h).elim, rfl⟩

theorem Reached.act (h : Reached cfg s) {action : Action} (haction : action.IsRequest)
    (hact : s.act cfg action = .ok t) :
    Reached cfg t := by
  obtain ⟨actions, hactions, hrun⟩ := h
  refine ⟨actions ++ [action], fun a ha => ?_, ?_⟩
  · rcases List.mem_append.mp ha with ha | ha
    · exact hactions a ha
    · rw [List.mem_singleton.mp ha]
      exact haction
  · rw [run_concat, hrun]
    exact hact

theorem Reached.printed (h : Reached cfg s) (hprinted : Printed cfg s t) : Reached cfg t := by
  rcases hprinted with rfl | hact
  · exact h
  · exact h.act (show Action.IsRequest .resetStats from trivial) hact

theorem HeldUp.waits (h : HeldUp k s) (hwaits : Waits s t) : HeldUp k t := by
  rw [HeldUp, hwaits.banks_eq, hwaits.clock_eq]
  exact h

theorem HeldUp.printed (h : HeldUp k s) (hprinted : Printed cfg s t) : HeldUp k t := by
  rcases hprinted with rfl | hact
  · exact h
  · rcases act_ok hact with ⟨hbad, -⟩ | ⟨-, hwaits, -⟩
    · cases hbad
    · exact h.waits hwaits

theorem Printed.work_eq (h : Printed cfg s t) : work cfg t = work cfg s := by
  rcases h with rfl | h
  · rfl
  · cases h
    rfl

theorem work_addTransaction {x : Transaction} (hroom : s.memoryController.willAcceptTransaction cfg = true) :
    work cfg (s.addTransaction cfg x) = work cfg s + 2 := by
  rw [MemorySystem.addTransaction, if_pos hroom, work, work]
  simp only [List.length_append, List.length_singleton]
  omega

theorem work_ne_zero (hroomy : cfg.Roomy) (hfull : s.memoryController.willAcceptTransaction cfg = false) :
    work cfg s ≠ 0 := by
  have hlong : ¬ s.memoryController.transactionQueue.length < cfg.transQueueDepth := of_decide_eq_false hfull
  have hpos := hroomy.transactions_pos
  rw [work]
  omega

end MemorySystem

namespace TraceBasedSim

open MemorySystem (Reached HeldUp Printed work Smooth Settled)

variable {epochLength : ℕ} {traceType : TraceType} {useClockCycle : Bool} {s s' t : TraceBasedSim}
  {trans : Transaction}
  {dramsimClkFreqHz addr : BitVec 64} {transType : TransactionType} {lines : List (List Char)}
  {transactions : List (ℕ × Transaction)} {last : TraceReader} {i k T : ℕ}

/-- The lines, the transaction that waits and the work of the channels. -/
def load (cfg : Config) (s : TraceBasedSim) : ℕ :=
  4 * s.traceFile.length + 3 * s.trans.toList.length + ∑ c ∈ Finset.range cfg.numChans,
    work cfg (s.channels c)

theorem load_start (cfg : Config) (dramsimClkFreqHz addr : BitVec 64) (transType : TransactionType)
    (lines : List (List Char)) : load cfg (start cfg dramsimClkFreqHz addr transType lines) =
      4 * lines.length := by
  have hwork : ∑ c ∈ Finset.range cfg.numChans,
      work cfg ((start cfg dramsimClkFreqHz addr transType lines).channels c) = 0 :=
    Finset.sum_eq_zero fun c _ => MemorySystem.work_init cfg
  rw [load, hwork]
  rfl

/-- A hand-over adds no load. Once its time has come it takes some away, or a channel has work. -/
theorem HandsOver.load_le (hroomy : cfg.Roomy) (h : HandsOver cfg trans s t) (htrans : s.trans = some trans) :
    load cfg t ≤ load cfg s ∧ (s.reader.clockCycle.toNat ≤ s.i →
      load cfg t < load cfg s ∨ ∃ c < cfg.numChans, work cfg (t.channels c) ≠ 0) := by
  cases h with
  | waits hearly heq =>
      have hsame : load cfg t = load cfg s := by
        rw [heq, load, load, htrans]
        rfl
      exact ⟨hsame.le, fun htime => absurd htime (Nat.not_le.mpr hearly)⟩
  | @refused c m hc hfull hchannels heq =>
      have ht : t.channels = s.channels := by
        rw [heq]
        exact hchannels
      have hsame : load cfg t = load cfg s := by
        rw [load, load, ht, htrans, heq]
      refine ⟨hsame.le, fun _ => .inr ⟨c, hc, ?_⟩⟩
      rw [ht]
      exact MemorySystem.work_ne_zero hroomy hfull
  | @accepted c m _ hc hroom hchannels heq =>
      have ht : t.channels = Function.update s.channels c ((s.channels c).addTransaction cfg trans) := by
        rw [heq]
        exact hchannels
      have hsum := sum_update hc s.channels (work cfg) (MemorySystem.work_addTransaction (x := trans) hroom)
      have hless : load cfg t < load cfg s := by
        rw [load, load, ht, hsum, htrans, heq]
        change 4 * s.traceFile.length + 3 * 0 + _ < 4 * s.traceFile.length + 3 * 1 + _
        omega
      exact ⟨hless.le, fun _ => .inl hless⟩

theorem Turn.load_le (hroomy : cfg.Roomy) (h : Turn cfg traceType useClockCycle s t) :
    load cfg t ≤ load cfg s ∧ ((∀ trans, s.trans = some trans → s.reader.clockCycle.toNat ≤ s.i) →
      load cfg t < load cfg s ∨ ((∀ c < cfg.numChans, work cfg (t.channels c) = 0) → load cfg s = 0)) := by
  cases h with
  | spins htrans hend heq =>
      rw [heq]
      refine ⟨le_refl _, fun _ => .inr fun hzero => ?_⟩
      rw [load, htrans, hend, Finset.sum_eq_zero fun c hc => hzero c (Finset.mem_range.mp hc)]
      rfl
  | @skips rest htrans hline heq =>
      have hless : load cfg t < load cfg s := by
        rw [load, load, hline, heq, List.length_cons]
        change 4 * rest.length + 3 * s.trans.toList.length + ∑ c ∈ Finset.range cfg.numChans,
          work cfg (s.channels c) < _
        omega
      exact ⟨hless.le, fun _ => .inl hless⟩
  | @reads line rest reader htrans hline _ _ hover =>
      have hless : load cfg t < load cfg s := by
        refine lt_of_le_of_lt (hover.of_trans (x := some (reader.transaction cfg)).load_le hroomy rfl).1 ?_
        rw [load, load, htrans, hline, List.length_cons]
        change 4 * rest.length + 3 * 1 + ∑ c ∈ Finset.range cfg.numChans, work cfg (s.channels c) < _
        omega
      exact ⟨hless.le, fun _ => .inl hless⟩
  | @retries trans htrans hover =>
      obtain ⟨hle, htime⟩ := hover.load_le hroomy htrans
      refine ⟨hle, fun hdue => ?_⟩
      rcases htime (hdue trans htrans) with hless | ⟨c, hc, hne⟩
      · exact .inl hless
      · exact .inr fun hzero => absurd (hzero c hc) hne

/-- What every cycle keeps where a trace asks for reads and writes. -/
structure Runs (cfg : Config) (traceType : TraceType) (useClockCycle : Bool) (addr : BitVec 64)
    (transType : TransactionType)
    (lines : List (List Char)) (s : TraceBasedSim) : Prop where
  driven : Driven cfg traceType useClockCycle addr transType lines s
  reached : ∀ c < cfg.numChans, Reached cfg (s.channels c)

theorem transactionsOf_before {read rest : List (List Char)} {r : List (ℕ × Transaction) × TraceReader}
    (hread : transactionsOf cfg traceType useClockCycle addr transType read = .ok r)
    (hall : transactionsOf cfg traceType useClockCycle addr transType (read ++ rest) =
      .ok (transactions, last)) :
    r.1 <+: transactions := by
  rw [transactionsOf, List.foldlM_append] at hall
  obtain ⟨r', hr', hrest⟩ := bind_ok hall
  cases hread.symm.trans hr'
  refine foldlM_ok (P := fun u => r.1 <+: u.1) (fun u line u' hu hstep => ?_) (List.prefix_refl _) hrest
  rw [readTransaction] at hstep
  split_ifs at hstep
  · cases hstep
    exact hu
  · obtain ⟨reader, -, rfl⟩ := map_ok hstep
    exact hu.trans (List.prefix_append _ _)

theorem InOrder.waiting_mem (h : InOrder cfg traceType useClockCycle addr transType lines i s)
    (htrace : transactionsOf cfg traceType useClockCycle addr transType lines = .ok (transactions, last))
    (htrans : s.trans = some trans) : (s.reader.clockCycle.toNat, trans) ∈ transactions := by
  obtain ⟨read, done, rfl, hread, -⟩ := h.consumed
  refine (transactionsOf_before hread htrace).subset (List.mem_append_right _ ?_)
  rw [waiting, htrans]
  exact List.mem_singleton_self _

theorem InOrder.parses (h : InOrder cfg traceType useClockCycle addr transType lines i s)
    (htrace : transactionsOf cfg traceType useClockCycle addr transType lines = .ok (transactions, last))
    {line : List Char} {rest : List (List Char)} (hline : s.traceFile = line :: rest) (hne : line ≠ []) :
    ∃ reader, parseTraceFileLine useClockCycle s.reader traceType line = .ok reader := by
  obtain ⟨read, done, hlines, hread, -⟩ := h.consumed
  rw [hlines, hline, transactionsOf, List.foldlM_append] at htrace
  obtain ⟨r, hr, htrace⟩ := bind_ok htrace
  cases hread.symm.trans hr
  rw [List.foldlM_cons] at htrace
  obtain ⟨r', hr', -⟩ := bind_ok htrace
  rw [readTransaction, if_neg hne] at hr'
  obtain ⟨reader, hreader, -⟩ := map_ok hr'
  exact ⟨reader, hreader⟩

/-- What a turn tells the channels: at most one is handed a transaction, one of the trace's. -/
theorem Turn.channels (hturn : Turn cfg traceType useClockCycle s t)
    (h : InOrder cfg traceType useClockCycle addr transType lines i s)
    (htrace : transactionsOf cfg traceType useClockCycle addr transType lines = .ok (transactions, last))
    (c : ℕ) : t.channels c = s.channels c ∨
      ∃ r ∈ transactions, (s.channels c).act cfg (.addTransaction r.2) = .ok (t.channels c) := by
  have hover : ∀ {u : TraceBasedSim} {trans : Transaction},
      (u.reader.clockCycle.toNat, trans) ∈ transactions →
      HandsOver cfg trans u t → t.channels c = u.channels c ∨
        ∃ r ∈ transactions, (u.channels c).act cfg (.addTransaction r.2) = .ok (t.channels c) := by
    intro u trans hmem hover
    cases hover with
    | waits _ heq =>
        rw [heq]
        exact .inl rfl
    | refused _ _ hchannels heq =>
        rw [heq]
        exact .inl (congrFun hchannels c)
    | @accepted c' m _ _ _ hchannels heq =>
        have ht : t.channels c = Function.update u.channels c'
            ((u.channels c').addTransaction cfg trans) c := by
          rw [heq]
          exact congrFun hchannels c
        by_cases hc : c = c'
        · subst hc
          rw [Function.update_self] at ht
          exact .inr ⟨_, hmem, congrArg Except.ok ht.symm⟩
        · rw [Function.update_of_ne hc] at ht
          exact .inl ht
  cases hturn with
  | spins _ _ heq => exact .inl (by rw [heq])
  | skips _ _ heq => exact .inl (by rw [heq]; rfl)
  | @reads line rest reader htrans hline hne hparse hands =>
      let u : TraceBasedSim := { s with traceFile := rest, reader, trans := some (reader.transaction cfg) }
      exact hover (u := u) (InOrder.waiting_mem (s := u) (h.reads htrans hline hne hparse) htrace rfl)
        hands.of_trans
  | retries htrans hands => exact hover (h.waiting_mem htrace htrans) hands

/-- An update of the channels does some of their work, or each waits for the end of a delay. -/
theorem update_works (hregular : cfg.Regular) (hroomy : cfg.Roomy) {m m' : MultiChannelMemorySystem}
    (hreached : ∀ c < cfg.numChans, Reached cfg (m.channels c)) (hk : k ≤ cfg.longestDelay)
    (hheld : ∀ c < cfg.numChans, HeldUp k (m.channels c)) (hupdate : m.update cfg epochLength = .ok m') :
    (∑ c ∈ Finset.range cfg.numChans, work cfg (m'.channels c) < ∑ c ∈ Finset.range cfg.numChans,
      work cfg (m.channels c) ∧
        ∀ c < cfg.numChans, HeldUp cfg.longestDelay (m'.channels c)) ∨
      ∑ c ∈ Finset.range cfg.numChans, work cfg (m'.channels c) ≤ ∑ c ∈ Finset.range cfg.numChans,
        work cfg (m.channels c) ∧
        (∀ c < cfg.numChans, HeldUp (k - 1) (m'.channels c)) ∧
        (k = 0 → ∀ c < cfg.numChans, work cfg (m.channels c) = 0) := by
  have hworks : ∀ c < cfg.numChans,
      work cfg (m'.channels c) < work cfg (m.channels c) ∧ HeldUp cfg.longestDelay (m'.channels c) ∨
        work cfg (m'.channels c) ≤ work cfg (m.channels c) ∧ HeldUp (k - 1) (m'.channels c) ∧
          (k = 0 → work cfg (m.channels c) = 0) := by
    intro c hc
    obtain ⟨printed, hprinted, hc'⟩ := MultiChannelMemorySystem.update_channels hupdate c hc
    obtain ⟨actions, -, hrun⟩ := (hreached c hc).printed hprinted
    rw [← hprinted.work_eq]
    exact (MemorySystem.smooth_run hregular hroomy hrun).1.works hregular hroomy hk
      ((hheld c hc).printed hprinted) hc'
  have hle : ∀ c ∈ Finset.range cfg.numChans, work cfg (m'.channels c) ≤ work cfg (m.channels c) := by
    intro c hc
    rcases hworks c (Finset.mem_range.mp hc) with ⟨hless, -⟩ | ⟨hle, -⟩
    · exact hless.le
    · exact hle
  by_cases hsome : ∃ c < cfg.numChans, work cfg (m'.channels c) < work cfg (m.channels c)
  · obtain ⟨c, hc, hless⟩ := hsome
    refine .inl ⟨Finset.sum_lt_sum hle ⟨c, Finset.mem_range.mpr hc, hless⟩, fun c hc => ?_⟩
    rcases hworks c hc with ⟨-, hheld⟩ | ⟨-, hheld, -⟩
    · exact hheld
    · exact hheld.mono ((Nat.sub_le k 1).trans hk)
  · have hwaits : ∀ c < cfg.numChans, HeldUp (k - 1) (m'.channels c) ∧
        (k = 0 → work cfg (m.channels c) = 0) := by
      intro c hc
      rcases hworks c hc with ⟨hless, -⟩ | ⟨-, hwait⟩
      · exact absurd ⟨c, hc, hless⟩ hsome
      · exact hwait
    exact .inr ⟨Finset.sum_le_sum hle, fun c hc => (hwaits c hc).1, fun hzero c hc => (hwaits c hc).2 hzero⟩

theorem Runs.start (cfg : Config) (traceType : TraceType) (useClockCycle : Bool)
    (dramsimClkFreqHz addr : BitVec 64) (transType : TransactionType) (lines : List (List Char)) :
    Runs cfg traceType useClockCycle addr transType lines
      (start cfg dramsimClkFreqHz addr transType lines) where
  driven := Driven.start cfg traceType useClockCycle dramsimClkFreqHz addr transType lines
  reached := fun _ _ => Reached.init cfg

theorem Runs.heldUp (hregular : cfg.Regular) (hroomy : cfg.Roomy)
    (h : Runs cfg traceType useClockCycle addr transType lines s) :
    ∀ c < cfg.numChans, HeldUp cfg.longestDelay (s.channels c) := by
  intro c hc
  obtain ⟨actions, -, hrun⟩ := h.reached c hc
  exact (MemorySystem.smooth_run hregular hroomy hrun).2

section Runs

variable (hregular : cfg.Regular) (hroomy : cfg.Roomy) (hone : cfg.numRanks = 1)
  (hchans : ∃ j, cfg.numChans = 2 ^ j)
  (hepoch : 0 < epochLength)
  (htrace : transactionsOf cfg traceType useClockCycle addr transType lines = .ok (transactions, last))
  (hrequests : ∀ r ∈ transactions, r.2.transactionType ≠ .returnData)

include htrace hrequests

theorem Runs.turn (h : Runs cfg traceType useClockCycle addr transType lines s)
    (hturn : Turn cfg traceType useClockCycle s t) {c : ℕ} (hc : c < cfg.numChans) :
    Reached cfg (t.channels c) := by
  rcases hturn.channels h.driven.inOrder htrace c with hsame | ⟨r, hr, hact⟩
  · rw [hsame]
    exact h.reached c hc
  · exact (h.reached c hc).act (show Action.IsRequest (.addTransaction r.2) from hrequests r hr) hact

include hchans in
theorem Runs.cycle_ok (h : Runs cfg traceType useClockCycle addr transType lines s)
    (hcycle : s.cycle cfg epochLength traceType useClockCycle = .ok s') :
    Runs cfg traceType useClockCycle addr transType lines s' := by
  refine ⟨(h.driven.cycle hchans hcycle).1, fun c hc => ?_⟩
  obtain ⟨t, m, hturn, hupdate, rfl⟩ := TraceBasedSim.cycle_ok hchans h.driven.level hcycle
  obtain ⟨printed, hprinted, hc'⟩ := MultiChannelMemorySystem.update_channels hupdate c hc
  exact ((h.turn htrace hrequests hturn hc).printed hprinted).act
    (show Action.IsRequest .update from trivial) hc'

include hregular hone hchans hepoch in
/-- **Every cycle succeeds.** -/
theorem Runs.cycle (h : Runs cfg traceType useClockCycle addr transType lines s) :
    ∃ s', s.cycle cfg epochLength traceType useClockCycle = .ok s' ∧
      Runs cfg traceType useClockCycle addr transType lines s' := by
  obtain ⟨t, ht⟩ : ∃ t, s.turn cfg traceType useClockCycle = .ok t := by
    rw [TraceBasedSim.turn]
    cases htrans : s.trans with
    | some trans =>
        obtain ⟨t, ht, -⟩ := handOver_ok hchans s trans
        exact ⟨t, ht⟩
    | none =>
        dsimp only
        rw [readLine]
        cases hfile : s.traceFile with
        | nil => exact ⟨s, rfl⟩
        | cons line rest =>
            dsimp only
            split_ifs with hline
            · exact ⟨_, rfl⟩
            · obtain ⟨reader, hreader⟩ := h.driven.inOrder.parses htrace hfile hline
              obtain ⟨t, ht, -⟩ := handOver_ok hchans { s with traceFile := rest, reader }
                  (reader.transaction cfg)
              refine ⟨t, ?_⟩
              rw [hreader]
              exact ht
  have hturn := turn_ok hchans ht
  obtain ⟨m, hm⟩ := MultiChannelMemorySystem.update_total (m := t.memorySystem.memorySystem) hepoch
    fun c hc printed hprinted => by
      obtain ⟨actions, hactions, hrun⟩ := (h.turn htrace hrequests hturn hc).printed hprinted
      exact MemorySystem.update_total hregular hone hrun (MemorySystem.requested_run hactions hrun)
  have hlevel := h.driven.level
  rw [← hturn.same.1] at hlevel
  have hcycle : s.cycle cfg epochLength traceType useClockCycle =
      .ok { t with memorySystem := { t.memorySystem with memorySystem := m }, i := t.i + 1 } := by
    rw [TraceBasedSim.cycle, ht, ok_bind, update_level hlevel, hm]
    rfl
  exact ⟨_, hcycle, h.cycle_ok hchans htrace hrequests hcycle⟩

include hregular hroomy hchans in
/-- **One cycle takes some of the load, or it waits.** -/
theorem Runs.drains (h : Runs cfg traceType useClockCycle addr transType lines s) (hk : k ≤ cfg.longestDelay)
    (hheld : ∀ c < cfg.numChans, HeldUp k (s.channels c))
    (hcycle : s.cycle cfg epochLength traceType useClockCycle = .ok s') :
    load cfg s' ≤ load cfg s ∧ ((∀ r ∈ transactions, r.1 ≤ s.i) →
      load cfg s' < load cfg s ∧ (∀ c < cfg.numChans, HeldUp cfg.longestDelay (s'.channels c)) ∨
        load cfg s' ≤ load cfg s ∧ (∀ c < cfg.numChans, HeldUp (k - 1) (s'.channels c)) ∧
          (k = 0 → load cfg s = 0)) := by
  obtain ⟨t, m, hturn, hupdate, heq⟩ := TraceBasedSim.cycle_ok hchans h.driven.level hcycle
  have hturned : ∀ c < cfg.numChans, HeldUp k (t.channels c) := by
    intro c hc
    rcases hturn.channels h.driven.inOrder htrace c with hsame | ⟨r, -, hact⟩
    · rw [hsame]
      exact hheld c hc
    · rcases MemorySystem.act_ok hact with ⟨hbad, -⟩ | ⟨-, hwaits, -⟩
      · cases hbad
      · exact (hheld c hc).waits hwaits
  have hend : s'.channels = m.channels ∧ load cfg s' + ∑ c ∈ Finset.range cfg.numChans,
      work cfg (t.channels c) =
        load cfg t + ∑ c ∈ Finset.range cfg.numChans, work cfg (m.channels c) := by
    rw [heq]
    refine ⟨rfl, ?_⟩
    rw [load, load]
    exact Nat.add_right_comm _ _ _
  obtain ⟨hchannels, hsum⟩ := hend
  obtain ⟨hle, hdrains⟩ := hturn.load_le hroomy
  rw [hchannels]
  rcases update_works hregular hroomy (fun c hc => h.turn htrace hrequests hturn hc) hk hturned hupdate with
    ⟨hless, hheld'⟩ | ⟨hwork, hheld', hidle⟩
  · change _ < ∑ c ∈ Finset.range cfg.numChans, work cfg (t.channels c) at hless
    exact ⟨by omega, fun _ => .inl ⟨by omega, hheld'⟩⟩
  · change _ ≤ ∑ c ∈ Finset.range cfg.numChans, work cfg (t.channels c) at hwork
    refine ⟨by omega, fun hdue => ?_⟩
    rcases hdrains fun trans htrans => hdue _ (h.driven.inOrder.waiting_mem htrace htrans) with hless | hzero
    · exact .inl ⟨by omega, fun c hc => (hheld' c hc).mono ((Nat.sub_le k 1).trans hk)⟩
    · exact .inr ⟨by omega, hheld', fun hk => hzero (hidle hk)⟩

include hregular hroomy hchans in
theorem Runs.quiet (h : Runs cfg traceType useClockCycle addr transType lines s) (hzero : load cfg s = 0)
    (hcycle : s.cycle cfg epochLength traceType useClockCycle = .ok s') :
    load cfg s' = 0 ∧ ∀ c < cfg.numChans, (s'.channels c).history.issued = (s.channels c).history.issued := by
  have hle := (h.drains hregular hroomy hchans htrace hrequests (le_refl _)
      (h.heldUp hregular hroomy) hcycle).1
  refine ⟨by omega, fun c hc => ?_⟩
  obtain ⟨t, m, hturn, hupdate, rfl⟩ := TraceBasedSim.cycle_ok hchans h.driven.level hcycle
  have hnothing : t = s := by
    rw [load] at hzero
    cases hturn with
    | spins _ _ heq => exact heq
    | skips _ hline _ =>
        rw [hline, List.length_cons] at hzero
        omega
    | reads _ hline _ _ _ =>
        rw [hline, List.length_cons] at hzero
        omega
    | retries htrans _ =>
        rw [htrans] at hzero
        simp at hzero
  rw [hnothing] at hupdate
  have hwork : work cfg (s.channels c) = 0 := by
    rw [load] at hzero
    exact Finset.sum_eq_zero_iff.mp (Nat.add_eq_zero_iff.mp hzero).2 c (Finset.mem_range.mpr hc)
  obtain ⟨printed, hprinted, hc'⟩ := MultiChannelMemorySystem.update_channels hupdate c hc
  obtain ⟨actions, -, hrun⟩ := (h.reached c hc).printed hprinted
  have hquiet := (MemorySystem.smooth_run hregular hroomy hrun).1.quiet hregular
      (hprinted.work_eq.trans hwork) hc'
  exact hquiet.2.trans (congrArg History.issued hprinted.same.2.1)

end Runs

/-- What was asked for of a type, by address. -/
def askedFor (type : TransactionType) (transactions : List Transaction) : List (BitVec 64) :=
  (MemorySystem.ofType type transactions).map Transaction.address

theorem askedFor_sum (type : TransactionType) (n : ℕ) (accepted : ℕ → List Transaction)
    {all : List Transaction} (hall : ∑ c ∈ Finset.range n, (accepted c : Multiset Transaction) = all) :
    ∑ c ∈ Finset.range n, (askedFor type (accepted c) : Multiset (BitVec 64)) = askedFor type all := by
  let addresses : Multiset Transaction →+ Multiset (BitVec 64) :=
    { toFun := fun l => (l.filter fun x => x.transactionType = type).map Transaction.address
      map_zero' := rfl
      map_add' := fun l l' => by rw [Multiset.filter_add, Multiset.map_add] }
  exact (map_sum addresses (fun c => (accepted c : Multiset Transaction)) (Finset.range n)).symm.trans
    (congrArg addresses hall)

/-- Once the cycles that the lines ask for are past, the load is drained. -/
theorem drained_times (hregular : cfg.Regular) (hroomy : cfg.Roomy) (hchans : ∃ j, cfg.numChans = 2 ^ j)
    (htrace : transactionsOf cfg traceType useClockCycle addr transType lines = .ok (transactions, last))
    (hrequests : ∀ r ∈ transactions, r.2.transactionType ≠ .returnData)
    (h : Runs cfg traceType useClockCycle addr transType lines s) (hdue : ∀ r ∈ transactions, r.1 ≤ s.i)
    {n : ℕ} (hn : load cfg s * (cfg.longestDelay + 1) ≤ n)
    (htimes : times (cycle cfg epochLength traceType useClockCycle) n s = .ok s') :
    Runs cfg traceType useClockCycle addr transType lines s' ∧ load cfg s' = 0 := by
  let P : TraceBasedSim → Prop := fun u =>
    Runs cfg traceType useClockCycle addr transType lines u ∧ ∀ r ∈ transactions, r.1 ≤ u.i
  let H : ℕ → TraceBasedSim → Prop := fun k u => ∀ c < cfg.numChans, HeldUp k (u.channels c)
  have hstep : ∀ u u' k, P u → k ≤ cfg.longestDelay → H k u →
      u.cycle cfg epochLength traceType useClockCycle = .ok u' →
      P u' ∧ (load cfg u' < load cfg u ∧ H cfg.longestDelay u' ∨
        load cfg u' ≤ load cfg u ∧ H (k - 1) u' ∧ (k = 0 → load cfg u = 0)) := by
    intro u u' k hu hk hheld hcycle
    obtain ⟨hruns, hdue⟩ := hu
    refine ⟨⟨hruns.cycle_ok hchans htrace hrequests hcycle, fun r hr => ?_⟩,
      (hruns.drains hregular hroomy hchans htrace hrequests hk hheld hcycle).2 hdue⟩
    rw [(hruns.driven.cycle hchans hcycle).2]
    exact (hdue r hr).trans (Nat.le_succ _)
  obtain ⟨hP, hzero⟩ := times_drained hstep ⟨h, hdue⟩ (le_refl _) (h.heldUp hregular hroomy)
    (Nat.add_le_add_right hn _) htimes
  exact ⟨hP.1, hzero⟩

/-- The load is gone and everything was issued long ago: every channel is settled. -/
theorem settled_times (hregular : cfg.Regular) (hroomy : cfg.Roomy) (hchans : ∃ j, cfg.numChans = 2 ^ j)
    (htrace : transactionsOf cfg traceType useClockCycle addr transType lines = .ok (transactions, last))
    (hrequests : ∀ r ∈ transactions, r.2.transactionType ≠ .returnData) {n : ℕ} (hn : WL + cfg.burst ≤ n)
    (h : Runs cfg traceType useClockCycle addr transType lines s) (hzero : load cfg s = 0)
    (htimes : times (cycle cfg epochLength traceType useClockCycle) n s = .ok s') :
    Runs cfg traceType useClockCycle addr transType lines s' ∧ load cfg s' = 0 ∧
      ∀ c < cfg.numChans, Settled cfg (s'.channels c) := by
  obtain ⟨hruns, hzero', hi, hissued⟩ := times_counted (P := fun j u =>
    Runs cfg traceType useClockCycle addr transType lines u ∧ load cfg u = 0 ∧ u.i = s.i + j ∧
      ∀ c < cfg.numChans, (u.channels c).history.issued = (s.channels c).history.issued)
    (fun j u u' hu hcycle => by
      obtain ⟨hruns, hzero, hi, hissued⟩ := hu
      obtain ⟨hzero', hquiet⟩ := hruns.quiet hregular hroomy hchans htrace hrequests hzero hcycle
      refine ⟨hruns.cycle_ok hchans htrace hrequests hcycle, hzero', ?_,
        fun c hc => (hquiet c hc).trans (hissued c hc)⟩
      rw [(hruns.driven.cycle hchans hcycle).2, hi]
      omega) (i := 0) ⟨h, hzero, rfl, fun _ _ => rfl⟩ htimes
  rw [Nat.zero_add] at hi
  refine ⟨hruns, hzero', fun c hc => ⟨?_, fun e he => ?_⟩⟩
  · rw [load] at hzero'
    exact Finset.sum_eq_zero_iff.mp (Nat.add_eq_zero_iff.mp hzero').2 c (Finset.mem_range.mpr hc)
  · rw [hissued c hc] at he
    obtain ⟨actions, -, hrun⟩ := h.reached c hc
    have hpast := (MemorySystem.smooth_run hregular hroomy hrun).1.control.timed.past e he
    rw [h.driven.fed.clock_eq c hc] at hpast
    rw [hruns.driven.fed.clock_eq c hc, hi]
    omega

/-- **The run of a trace ends with nothing left.** -/
theorem run_settles (dramsimClkFreqHz : BitVec 64) (hregular : cfg.Regular) (hroomy : cfg.Roomy)
    (hone : cfg.numRanks = 1) (hchans : ∃ j, cfg.numChans = 2 ^ j) (hepoch : 0 < epochLength)
    (htrace : transactionsOf cfg traceType useClockCycle addr transType lines = .ok (transactions, last))
    (hrequests : ∀ r ∈ transactions, r.2.transactionType ≠ .returnData)
    (hlatest : ∀ r ∈ transactions, r.1 ≤ T) {numCycles : ℕ}
    (hn : T + 4 * lines.length * (cfg.longestDelay + 1) + WL + cfg.burst ≤ numCycles) :
    ∃ s, run cfg epochLength traceType useClockCycle dramsimClkFreqHz addr transType lines numCycles = .ok s ∧
      Runs cfg traceType useClockCycle addr transType lines s ∧ load cfg s = 0 ∧
      ∀ c < cfg.numChans, Settled cfg (s.channels c) := by
  have hstart := Runs.start cfg traceType useClockCycle dramsimClkFreqHz addr transType lines
  obtain ⟨s, hs, -⟩ := times_total
    (fun u hu => Runs.cycle hregular hone hchans hepoch htrace hrequests hu) numCycles hstart
  refine ⟨s, hs, ?_⟩
  obtain ⟨m, rfl⟩ := Nat.exists_eq_add_of_le ((Nat.add_assoc _ _ _) ▸ hn)
  rw [Nat.add_assoc, Nat.add_assoc, times_add] at hs
  -- The cycles that the lines ask for go by, and no load is added.
  obtain ⟨s₁, hs₁, hs⟩ := bind_ok hs
  obtain ⟨hruns₁, hload₁, hi₁⟩ := times_counted (P := fun j u =>
    Runs cfg traceType useClockCycle addr transType lines u ∧ load cfg u ≤ 4 * lines.length ∧ u.i = j)
    (fun j u u' hu hcycle => by
      obtain ⟨hruns, hload, hi⟩ := hu
      have hle := (hruns.drains hregular hroomy hchans htrace hrequests (le_refl _)
          (hruns.heldUp hregular hroomy) hcycle).1
      refine ⟨hruns.cycle_ok hchans htrace hrequests hcycle, hle.trans hload, ?_⟩
      rw [(hruns.driven.cycle hchans hcycle).2, hi]) (i := 0)
        ⟨hstart, (load_start cfg dramsimClkFreqHz addr transType lines).le, rfl⟩ hs₁
  rw [Nat.zero_add] at hi₁
  -- Then the load is drained, and the last answers come.
  rw [times_add] at hs
  obtain ⟨s₂, hs₂, hs⟩ := bind_ok hs
  obtain ⟨hruns₂, hzero₂⟩ := drained_times hregular hroomy hchans htrace hrequests hruns₁
    (fun r hr => hi₁ ▸ hlatest r hr) (Nat.mul_le_mul_right _ hload₁) hs₂
  exact settled_times hregular hroomy hchans htrace hrequests (Nat.le_add_right _ _) hruns₂ hzero₂ hs

/-- What was handed over is what the whole trace asks for, once nothing is left of it. -/
theorem Driven.complete (h : Driven cfg traceType useClockCycle addr transType lines s)
    (htrace : transactionsOf cfg traceType useClockCycle addr transType lines = .ok (transactions, last))
    (hend : s.traceFile = []) (htrans : s.trans = none) :
    s.handedOver.map Prod.snd = transactions.map Prod.snd := by
  obtain ⟨read, done, hlines, hread, hdone⟩ := h.inOrder.consumed
  rw [hend, List.append_nil] at hlines
  subst hlines
  rw [waiting, htrans] at hread
  have hall : done ++ [] = transactions := congrArg Prod.fst (Except.ok.inj (hread.symm.trans htrace))
  rw [← hall, List.append_nil]
  have hsame : List.Forall₂ (fun a b => a = b) (done.map Prod.snd) (s.handedOver.map Prod.snd) := by
    rw [List.forall₂_map_left_iff, List.forall₂_map_right_iff]
    exact hdone.imp fun _ _ h => h.1
  exact (List.forall₂_eq_eq_eq ▸ hsame : done.map Prod.snd = s.handedOver.map Prod.snd).symm

theorem Driven.took (h : Driven cfg traceType useClockCycle addr transType lines s)
    (htrace : transactionsOf cfg traceType useClockCycle addr transType lines = .ok (transactions, last))
    (hend : s.traceFile = []) (htrans : s.trans = none) (type : TransactionType) :
    ∑ c ∈ Finset.range cfg.numChans, (askedFor type (s.channels c).history.accepted : Multiset (BitVec 64)) =
      askedFor type (transactions.map Prod.snd) := by
  rw [askedFor_sum type cfg.numChans (fun c => (s.channels c).history.accepted) h.fed.ledger,
    ← h.complete htrace hend htrans]
  apply congrArg
  rw [askedFor, askedFor, MemorySystem.ofType, MemorySystem.ofType, List.filter_map,
    List.filter_map, List.map_map,
    List.map_map]
  rfl

/-- **Every transaction of a trace is answered.** With one rank, a run that is long enough, by the latest
cycle that a line asks for, the number of lines and the longest delay, returns each read of the trace and
reports each of its writes done, each once, and leaves nothing in the memory system. -/
theorem trace_answered (cfg : Config) (hregular : cfg.Regular) (hroomy : cfg.Roomy) (hone : cfg.numRanks = 1)
    (hchans : ∃ j, cfg.numChans = 2 ^ j) (epochLength : ℕ) (hepoch : 0 < epochLength)
    (traceType : TraceType) (useClockCycle : Bool) (dramsimClkFreqHz addr : BitVec 64)
    (transType : TransactionType) (lines : List (List Char)) (transactions : List (ℕ × Transaction))
    (last : TraceReader)
    (htrace : transactionsOf cfg traceType useClockCycle addr transType lines = .ok (transactions, last))
    (hrequests : ∀ r ∈ transactions, r.2.transactionType ≠ .returnData) (T : ℕ)
    (hlatest : ∀ r ∈ transactions, r.1 ≤ T) (numCycles : ℕ)
    (hn : T + 4 * lines.length * (cfg.longestDelay + 1) + WL + cfg.burst ≤ numCycles) :
    ∃ s, run cfg epochLength traceType useClockCycle dramsimClkFreqHz addr transType lines numCycles = .ok s ∧
      ∑ c ∈ Finset.range cfg.numChans,
          (((s.channels c).history.returned.map fun e => e.2.address : List _) : Multiset (BitVec 64)) =
        askedFor .dataRead (transactions.map Prod.snd) ∧
      ∑ c ∈ Finset.range cfg.numChans,
          (((s.channels c).history.written.map fun e => e.2.physicalAddress : List _) : Multiset
            (BitVec 64)) =
        askedFor .dataWrite (transactions.map Prod.snd) ∧
      s.traceFile = [] ∧ s.trans = none ∧
      ∀ c < cfg.numChans, MemorySystem.Vacant cfg (s.channels c) := by
  obtain ⟨s, hs, hruns, hzero, hsettled⟩ :=
    run_settles dramsimClkFreqHz hregular hroomy hone hchans hepoch htrace
      hrequests hlatest hn
  have hend : s.traceFile = [] ∧ s.trans = none := by
    rw [load] at hzero
    refine ⟨List.length_eq_zero_iff.mp (by omega), ?_⟩
    have hnone : s.trans.toList = [] := List.length_eq_zero_iff.mp (by omega)
    exact Option.toList_eq_nil_iff.mp hnone
  refine ⟨s, hs, ?_, ?_, hend.1, hend.2, fun c hc => ?_⟩
  · rw [← hruns.driven.took htrace hend.1 hend.2]
    refine Finset.sum_congr rfl fun c hc => ?_
    have hc := Finset.mem_range.mp hc
    obtain ⟨actions, -, hrun⟩ := hruns.reached c hc
    have hreturned := congrArg (Multiset.map Transaction.address)
        ((hsettled c hc).reads hregular hone hrun).2.2
    rw [Multiset.map_coe, Multiset.map_coe, List.map_map] at hreturned
    exact hreturned.symm
  · rw [← hruns.driven.took htrace hend.1 hend.2]
    refine Finset.sum_congr rfl fun c hc => ?_
    have hc := Finset.mem_range.mp hc
    obtain ⟨actions, -, hrun⟩ := hruns.reached c hc
    have hwritten := congrArg (Multiset.map Prod.fst) ((hsettled c hc).writes hregular hone hrun)
    rw [Multiset.map_coe, Multiset.map_coe, Multiset.map_coe, Multiset.map_coe, List.map_map, List.map_map,
      List.map_map] at hwritten
    exact hwritten.symm
  · obtain ⟨actions, -, hrun⟩ := hruns.reached c hc
    exact (hsettled c hc).vacant hregular hone hrun

theorem trace_answered_ddr2 :
    ∃ s, run (ddr2Micron 1 (by decide)) 100000 .k6 true 333333333 0 .dataRead writeAndRead 1000 = .ok s ∧
      ∑ c ∈ Finset.range 16, (((s.channels c).history.returned.map fun e => e.2.address : List _) :
        Multiset (BitVec 64)) = {2048} ∧
      ∑ c ∈ Finset.range 16, (((s.channels c).history.written.map fun e => e.2.physicalAddress : List _) :
        Multiset (BitVec 64)) = {4096} := by
  have hread : ∃ r, transactionsOf (ddr2Micron 1 (by decide)) .k6 true 0 .dataRead writeAndRead = .ok r ∧
      (∀ x ∈ r.1, x.2.transactionType ≠ .returnData) ∧ (∀ x ∈ r.1, x.1 ≤ 4) ∧
        askedFor .dataRead (r.1.map Prod.snd) = [2048] ∧ askedFor .dataWrite (r.1.map Prod.snd) = [4096] := by
    decide +kernel
  obtain ⟨⟨transactions, last⟩, htrace, hrequests, hlatest, hreads, hwrites⟩ := hread
  obtain ⟨s, hs, hreturned, hwritten, -⟩ :=
    trace_answered (ddr2Micron 1 (by decide)) MemorySystem.regular_ddr2
      ⟨by decide, by decide, by decide, by decide⟩ rfl ⟨4, rfl⟩ 100000
      (by decide) .k6 true 333333333 0 .dataRead writeAndRead
      transactions last htrace hrequests 4 hlatest 1000 (by decide)
  rw [hreads] at hreturned
  rw [hwrites] at hwritten
  exact ⟨s, hs, hreturned, hwritten⟩

end TraceBasedSim

end RacerArtifacts.Mram
