import RacerArtifacts.MramClient
import RacerArtifacts.MramCompletion
import RacerArtifacts.MramTraceText

/-! The main loop of the trace-based simulator, which hands the memory system the transactions of a trace
file. The file is the list of its lines. What is handed over, in which cycle, is in a record that the program
does not read. -/

namespace RacerArtifacts.Mram

inductive SimExit where
  | trace (exit : TraceExit)
  | client (exit : ClientExit)
  deriving DecidableEq, Repr

/-- Whether the memory system takes a transaction, and the system behind it. -/
def ClockedMemorySystem.addTransaction (cfg : Config) (transaction : Transaction) (s : ClockedMemorySystem) :
    Except ClientExit (Bool × ClockedMemorySystem) :=
  ((s.memorySystem.addTransaction cfg transaction).mapError .memory).map fun (r, m) =>
  (r.2, { s with memorySystem := m })

/-- The low bits of an address, which say where in a transaction it is, are zeroed out. -/
def alignTransactionAddress (cfg : Config) (trans : Transaction) : Transaction :=
  { trans with address := trans.address >>> cfg.throwAwayBits <<< cfg.throwAwayBits }

/-- The transaction of the line that was read last; its time is set when it is accepted. -/
def TraceReader.transaction (cfg : Config) (reader : TraceReader) : Transaction :=
  alignTransactionAddress cfg
    { transactionType := reader.transType, address := reader.addr, data := 0, timeAdded := 0 }

structure TraceBasedSim where
  memorySystem : ClockedMemorySystem
  traceFile : List (List Char)
  reader : TraceReader
  trans : Option Transaction
  i : ℕ
  handedOver : List (ℕ × Transaction)

namespace TraceBasedSim

/-- The state before the loop; the clocks are 1:1, and a reader's address and type are not initialized. -/
def start (cfg : Config) (dramsimClkFreqHz : BitVec 64) (addr : BitVec 64) (transType : TransactionType)
    (traceFile : List (List Char)) : TraceBasedSim :=
  { memorySystem := (ClockedMemorySystem.init cfg).setCPUClockSpeed dramsimClkFreqHz 0, traceFile
    reader := { addr, transType, clockCycle := 0 }, trans := none, i := 0, handedOver := [] }

variable (cfg : Config) (epochLength : ℕ) (traceType : TraceType) (useClockCycle : Bool) (s : TraceBasedSim)

/-- A transaction waits for the cycle of its line, and for the memory system to take it. -/
def handOver (trans : Transaction) : Except SimExit TraceBasedSim :=
  if s.i ≥ s.reader.clockCycle.toNat then do
    let (accepted, memorySystem) ← (s.memorySystem.addTransaction cfg trans).mapError .client
    pure (if accepted then
        { s with memorySystem, trans := none, handedOver := s.handedOver ++ [(s.i, trans)] }
      else { s with memorySystem, trans := some trans })
  else pure { s with trans := some trans }

/-- Empty lines are skipped; behind the last line nothing is read. -/
def readLine : Except SimExit TraceBasedSim :=
  match s.traceFile with
  | [] => .ok s
  | line :: rest =>
      if line = [] then .ok { s with traceFile := rest }
      else do
        let reader ← (parseTraceFileLine useClockCycle s.reader traceType line).mapError .trace
        { s with traceFile := rest, reader }.handOver cfg (reader.transaction cfg)

/-- What the body of the loop does before it updates the memory system. -/
def turn : Except SimExit TraceBasedSim :=
  match s.trans with
  | none => s.readLine cfg traceType useClockCycle
  | some trans => s.handOver cfg trans

/-- The body of the loop. -/
def cycle : Except SimExit TraceBasedSim := do
  let s ← s.turn cfg traceType useClockCycle
  let memorySystem ← (s.memorySystem.update cfg epochLength).mapError .client
  pure { s with memorySystem, i := s.i + 1 }

/-- The loop. -/
def run (dramsimClkFreqHz addr : BitVec 64) (transType : TransactionType) (traceFile : List (List Char))
    (numCycles : ℕ) : Except SimExit TraceBasedSim :=
  Pacing.times (cycle cfg epochLength traceType useClockCycle) numCycles
    (start cfg dramsimClkFreqHz addr transType traceFile)

/-- The transactions of some lines, each with the cycle it waits for, and the reader behind them. -/
def readTransaction (r : List (ℕ × Transaction) × TraceReader) (line : List Char) :
    Except TraceExit (List (ℕ × Transaction) × TraceReader) :=
  if line = [] then .ok r
  else (parseTraceFileLine useClockCycle r.2 traceType line).map fun reader =>
    (r.1 ++ [(reader.clockCycle.toNat, reader.transaction cfg)], reader)

def transactionsOf (addr : BitVec 64) (transType : TransactionType) (lines : List (List Char)) :
    Except TraceExit (List (ℕ × Transaction) × TraceReader) :=
  lines.foldlM (readTransaction cfg traceType useClockCycle) ([], { addr, transType, clockCycle := 0 })

def channels : ℕ → MemorySystem :=
  s.memorySystem.memorySystem.channels

end TraceBasedSim

namespace MemorySystem

open Fallible

variable {cfg : Config} {s s' t : MemorySystem}

theorem update_accepted (h : s.update cfg = .ok s') (hnone : s.pendingTransactions = []) :
    s'.pendingTransactions = [] ∧ s'.history.accepted = s.history.accepted := by
  obtain ⟨t, t', u, -, htakes, hpop, hschedule, -, hsame⟩ := update_waiting h
  have hpopped := waiting_popCommand hpop
  obtain ⟨haccepted, hpending⟩ := waiting_schedule hschedule
  cases htakes with
  | nothing hwaiting _ =>
      rw [hsame.pending_eq, hpending, hpopped.pending_eq, hwaiting.pending_eq, hsame.accepted_eq, haccepted,
        hpopped.accepted_eq, hwaiting.accepted_eq]
      exact ⟨hnone, rfl⟩
  | first hsome _ _ _ =>
      rw [hnone] at hsome
      cases hsome

/-- The statistics may have been printed. -/
def Printed (cfg : Config) (s t : MemorySystem) : Prop :=
  t = s ∨ s.act cfg .resetStats = .ok t

theorem Printed.same (h : Printed cfg s t) : t.pendingTransactions = s.pendingTransactions ∧
    t.history = s.history ∧
    t.memoryController.currentClockCycle = s.memoryController.currentClockCycle := by
  rcases h with rfl | h
  · exact ⟨rfl, rfl, rfl⟩
  · cases h
    exact ⟨rfl, rfl, rfl⟩

end MemorySystem

namespace MultiChannelMemorySystem

open Fallible

variable {cfg : Config} {epochLength : ℕ} {m m' : MultiChannelMemorySystem}

/-- An update updates each channel, behind the printing of the statistics. -/
theorem update_channels (h : m.update cfg epochLength = .ok m') :
    ∀ c < cfg.numChans, ∃ t, MemorySystem.Printed cfg (m.channels c) t ∧
    t.update cfg = .ok (m'.channels c) := by
  have hepoch : 0 < epochLength := by
    apply Nat.pos_of_ne_zero
    intro hzero
    rw [update, if_pos hzero] at h
    cases h
  rw [update_split hepoch] at h
  obtain ⟨m₁, hm₁, rfl⟩ := map_ok h
  obtain ⟨hupdates, -⟩ := (updateChannels_iff _).2 m₁ hm₁
  intro c hc
  refine ⟨_, ?_, hupdates c hc⟩
  split_ifs
  · exact .inr (printStats_channel hc m)
  · exact .inl rfl

theorem update_total (hepoch : 0 < epochLength) (h : ∀ c < cfg.numChans, ∀ t,
    MemorySystem.Printed cfg (m.channels c) t → ∃ s, t.update cfg = .ok s) : ∃ m',
      m.update cfg epochLength = .ok m' := by
  obtain ⟨m₁, hm₁⟩ := (@updateChannels_iff cfg
    (if m.currentClockCycle % epochLength = 0 then m.printStats cfg else m)).1 fun c hc => by
      apply h c hc
      split_ifs
      · exact .inr (printStats_channel hc m)
      · exact .inl rfl
  exact ⟨_, by rw [update_split hepoch, hm₁]; rfl⟩

end MultiChannelMemorySystem

namespace TraceBasedSim

open Fallible MultiChannelMemorySystem

variable {cfg : Config} {epochLength : ℕ} {traceType : TraceType} {useClockCycle : Bool}
  {s s' t : TraceBasedSim}
  {trans : Transaction}

/-- What becomes of a transaction: it waits for its cycle, its channel has no room, or it is accepted. -/
inductive HandsOver (cfg : Config) (trans : Transaction) (s t : TraceBasedSim) : Prop
  | waits (hearly : s.i < s.reader.clockCycle.toNat) (heq : t = { s with trans := some trans })
  | refused {c : ℕ} {m : MultiChannelMemorySystem} (hc : c < cfg.numChans)
      (hfull : (s.channels c).memoryController.willAcceptTransaction cfg = false)
      (hchannels : m.channels = s.channels)
      (heq : t = { s with memorySystem := { s.memorySystem with memorySystem := m }, trans := some trans })
  | accepted {c : ℕ} {m : MultiChannelMemorySystem} (htime : s.reader.clockCycle.toNat ≤ s.i)
      (hc : c < cfg.numChans)
      (hroom : (s.channels c).memoryController.willAcceptTransaction cfg = true)
      (hchannels : m.channels = Function.update s.channels c ((s.channels c).addTransaction cfg trans))
      (heq : t = { s with
        memorySystem := { s.memorySystem with memorySystem := m }, trans := none
        handedOver := s.handedOver ++ [(s.i, trans)] })

theorem handOver_ok (hchans : ∃ j, cfg.numChans = 2 ^ j) (s : TraceBasedSim) (trans : Transaction) :
    ∃ t, s.handOver cfg trans = .ok t ∧ HandsOver cfg trans s t := by
  rw [handOver]
  split_ifs with htime
  · rw [ClockedMemorySystem.addTransaction, addTransaction_eq hchans]
    set c := nextChannel cfg s.memorySystem.memorySystem trans.address with hc
    have hlt : c < cfg.numChans := nextChannel_lt hchans _ _
    cases hroom : (s.channels c).memoryController.willAcceptTransaction cfg with
    | true =>
        refine ⟨_, rfl, ?_⟩
        change HandsOver cfg trans s
          (if (s.channels c).memoryController.willAcceptTransaction cfg = true then _ else _)
        rw [if_pos hroom]
        exact .accepted htime hlt hroom rfl rfl
    | false =>
        refine ⟨_, rfl, ?_⟩
        change HandsOver cfg trans s
          (if (s.channels c).memoryController.willAcceptTransaction cfg = true then _ else _)
        rw [if_neg (by rw [hroom]; decide)]
        refine .refused hlt hroom ?_ rfl
        exact (congrArg MultiChannelMemorySystem.channels (setChannel_refused hroom trans.address)).trans rfl
  · exact ⟨_, rfl, .waits (Nat.lt_of_not_le htime) rfl⟩

theorem HandsOver.same (h : HandsOver cfg trans s t) :
    t.memorySystem.clockDomainCrosser = s.memorySystem.clockDomainCrosser ∧ t.traceFile = s.traceFile ∧
      t.reader = s.reader ∧ t.i = s.i := by
  cases h with
  | waits _ heq => rw [heq]; exact ⟨rfl, rfl, rfl, rfl⟩
  | refused _ _ _ heq => rw [heq]; exact ⟨rfl, rfl, rfl, rfl⟩
  | accepted _ _ _ _ heq => rw [heq]; exact ⟨rfl, rfl, rfl, rfl⟩

/-- What a turn can be. -/
inductive Turn (cfg : Config) (traceType : TraceType) (useClockCycle : Bool) (s t : TraceBasedSim) : Prop
  | spins (htrans : s.trans = none) (hend : s.traceFile = []) (heq : t = s)
  | skips {rest : List (List Char)} (htrans : s.trans = none) (hline : s.traceFile = [] :: rest)
      (heq : t = { s with traceFile := rest })
  | reads {line : List Char} {rest : List (List Char)} {reader : TraceReader} (htrans : s.trans = none)
      (hline : s.traceFile = line :: rest) (hne : line ≠ [])
      (hparse : parseTraceFileLine useClockCycle s.reader traceType line = .ok reader)
      (hover : HandsOver cfg (reader.transaction cfg) { s with traceFile := rest, reader } t)
  | retries {trans : Transaction} (htrans : s.trans = some trans) (hover : HandsOver cfg trans s t)

theorem Turn.same (h : Turn cfg traceType useClockCycle s t) :
    t.memorySystem.clockDomainCrosser = s.memorySystem.clockDomainCrosser ∧ t.i = s.i := by
  cases h with
  | spins _ _ heq => rw [heq]; exact ⟨rfl, rfl⟩
  | skips _ _ heq => rw [heq]; exact ⟨rfl, rfl⟩
  | reads _ _ _ _ hover => exact ⟨hover.same.1, hover.same.2.2.2⟩
  | retries _ hover => exact ⟨hover.same.1, hover.same.2.2.2⟩

theorem turn_ok (hchans : ∃ j, cfg.numChans = 2 ^ j) (h : s.turn cfg traceType useClockCycle = .ok t) :
    Turn cfg traceType useClockCycle s t := by
  rw [turn] at h
  cases htrans : s.trans with
  | some trans =>
      rw [htrans] at h
      obtain ⟨t', ht', hover⟩ := handOver_ok hchans s trans
      cases ht'.symm.trans h
      exact .retries htrans hover
  | none =>
      rw [htrans] at h
      dsimp only at h
      rw [readLine] at h
      cases hfile : s.traceFile with
      | nil =>
          rw [hfile] at h
          cases h
          exact .spins htrans hfile rfl
      | cons line rest =>
          rw [hfile] at h
          dsimp only at h
          split_ifs at h with hline
          · subst hline
            cases h
            exact .skips htrans hfile rfl
          · obtain ⟨reader, hreader, h⟩ := bind_ok h
            obtain ⟨t', ht', hover⟩ :=
              handOver_ok hchans { s with traceFile := rest, reader } (reader.transaction cfg)
            cases ht'.symm.trans h
            exact .reads htrans hfile hline (mapError_ok hreader) hover

/-- With clocks of 1:1, an update of the client is one of the channels. -/
theorem update_level {s : ClockedMemorySystem}
    (hlevel : s.clockDomainCrosser.clock1 = s.clockDomainCrosser.clock2) :
    s.update cfg epochLength =
      ((s.memorySystem.update cfg epochLength).mapError .memory).map fun m =>
      { s with memorySystem := m } := by
  rw [ClockedMemorySystem.update, ClockDomainCrosser.update, if_pos hlevel]
  cases s.memorySystem.update cfg epochLength <;> rfl

theorem cycle_ok (hchans : ∃ j, cfg.numChans = 2 ^ j)
    (hlevel : s.memorySystem.clockDomainCrosser.clock1 = s.memorySystem.clockDomainCrosser.clock2)
    (h : s.cycle cfg epochLength traceType useClockCycle = .ok s') :
    ∃ t m, Turn cfg traceType useClockCycle s t ∧ t.memorySystem.memorySystem.update cfg epochLength = .ok m ∧
      s' = { t with memorySystem := { t.memorySystem with memorySystem := m }, i := t.i + 1 } := by
  obtain ⟨t, ht, h⟩ := bind_ok h
  obtain ⟨memorySystem, hupdate, h⟩ := bind_ok h
  have hturn := turn_ok hchans ht
  rw [← hturn.same.1] at hlevel
  rw [update_level hlevel] at hupdate
  obtain ⟨m, hm, rfl⟩ := map_ok (mapError_ok hupdate)
  cases h
  exact ⟨t, m, hturn, mapError_ok hm, rfl⟩

/-- The transaction that was read and waits, with its cycle. -/
def waiting (s : TraceBasedSim) : List (ℕ × Transaction) :=
  (s.trans.map fun trans => (s.reader.clockCycle.toNat, trans)).toList

/-- Up to cycle `i`, what was read was handed over in its order, each transaction in a cycle of its own and
not before the one it waits for; at most one waits. -/
structure InOrder (cfg : Config) (traceType : TraceType) (useClockCycle : Bool) (addr : BitVec 64)
    (transType : TransactionType) (lines : List (List Char)) (i : ℕ) (s : TraceBasedSim) : Prop where
  consumed : ∃ read done, lines = read ++ s.traceFile ∧
    transactionsOf cfg traceType useClockCycle addr transType read = .ok (done ++ s.waiting, s.reader) ∧
      List.Forall₂ (fun r e => r.2 = e.2 ∧ r.1 ≤ e.1) done s.handedOver
  ascending : s.handedOver.Pairwise fun e f => e.1 < f.1
  before : ∀ e ∈ s.handedOver, e.1 < i

section InOrder

variable {addr : BitVec 64} {transType : TransactionType} {lines : List (List Char)} {i : ℕ}

theorem InOrder.start (cfg : Config) (traceType : TraceType) (useClockCycle : Bool)
    (dramsimClkFreqHz addr : BitVec 64) (transType : TransactionType) (lines : List (List Char)) :
    InOrder cfg traceType useClockCycle addr transType lines 0
      (start cfg dramsimClkFreqHz addr transType lines) where
  consumed := ⟨[], [], rfl, rfl, .nil⟩
  ascending := .nil
  before := fun _ he => by cases he

theorem InOrder.of_same (h : InOrder cfg traceType useClockCycle addr transType lines i s)
    (hfile : t.traceFile = s.traceFile) (hreader : t.reader = s.reader) (htrans : t.trans = s.trans)
    (hover : t.handedOver = s.handedOver) {j : ℕ} (hle : i ≤ j) :
    InOrder cfg traceType useClockCycle addr transType lines j t where
  consumed := by
    rw [hfile, hreader, hover, waiting, htrans, hreader]
    exact h.consumed
  ascending := by
    rw [hover]
    exact h.ascending
  before := fun e he => (h.before e (hover ▸ he)).trans_le hle

theorem InOrder.handsOver (h : InOrder cfg traceType useClockCycle addr transType lines s.i s)
    (htrans : s.trans = some trans) (hover : HandsOver cfg trans s t) :
    InOrder cfg traceType useClockCycle addr transType lines (s.i + 1) t := by
  cases hover with
  | waits _ heq =>
      rw [heq]
      refine h.of_same ?_ ?_ htrans.symm ?_ (Nat.le_succ _) <;> rfl
  | refused _ _ _ heq =>
      rw [heq]
      refine h.of_same ?_ ?_ htrans.symm ?_ (Nat.le_succ _) <;> rfl
  | accepted htime _ _ _ heq =>
      rw [heq]
      obtain ⟨read, done, hlines, hread, hdone⟩ := h.consumed
      rw [waiting, htrans] at hread
      refine ⟨⟨read, done ++ [(s.reader.clockCycle.toNat, trans)], hlines, ?_, ?_⟩, ?_, fun e he => ?_⟩
      · rw [waiting]
        exact hread.trans (by simp)
      · exact List.rel_append hdone (.cons ⟨rfl, htime⟩ .nil)
      · refine List.pairwise_append.mpr ⟨h.ascending, List.pairwise_singleton _ _, fun e he f hf => ?_⟩
        rw [List.mem_singleton.mp hf]
        exact h.before e he
      · rcases List.mem_append.mp he with he | he
        · exact (h.before e he).trans (Nat.lt_succ_self _)
        · rw [List.mem_singleton.mp he]
          exact Nat.lt_succ_self _

theorem transactionsOf_append (lines : List (List Char)) (line : List Char) :
    transactionsOf cfg traceType useClockCycle addr transType (lines ++ [line]) =
      transactionsOf cfg traceType useClockCycle addr transType lines >>= fun r =>
        readTransaction cfg traceType useClockCycle r line := by
  rw [transactionsOf, List.foldlM_append]
  apply bind_congr
  intro r
  exact bind_pure _

theorem InOrder.reads (h : InOrder cfg traceType useClockCycle addr transType lines i s) {line : List Char}
    {rest : List (List Char)} {reader : TraceReader} (htrans : s.trans = none)
    (hline : s.traceFile = line :: rest) (hne : line ≠ [])
    (hparse : parseTraceFileLine useClockCycle s.reader traceType line = .ok reader) :
    InOrder cfg traceType useClockCycle addr transType lines i
      { s with traceFile := rest, reader, trans := some (reader.transaction cfg) } := by
  obtain ⟨read, done, hlines, hread, hdone⟩ := h.consumed
  refine ⟨⟨read ++ [line], done, ?_, ?_, hdone⟩, h.ascending, h.before⟩
  · rw [hlines, hline, List.append_assoc]
    rfl
  · rw [transactionsOf_append, hread, waiting, htrans, ok_bind, readTransaction, if_neg hne, hparse]
    simp only [Option.map_none, Option.toList_none, List.append_nil]
    rfl

theorem HandsOver.of_trans {x : Option Transaction} (h : HandsOver cfg trans s t) :
    HandsOver cfg trans { s with trans := x } t := by
  cases h with
  | waits hearly heq => exact .waits hearly heq
  | refused hc hfull hchannels heq => exact .refused hc hfull hchannels heq
  | accepted htime hc hroom hchannels heq => exact .accepted htime hc hroom hchannels heq

theorem InOrder.turn (h : InOrder cfg traceType useClockCycle addr transType lines s.i s)
    (hturn : Turn cfg traceType useClockCycle s t) :
    InOrder cfg traceType useClockCycle addr transType lines (s.i + 1) t := by
  cases hturn with
  | spins _ _ heq =>
      rw [heq]
      exact h.of_same rfl rfl rfl rfl (Nat.le_succ _)
  | retries htrans hover => exact h.handsOver htrans hover
  | @skips rest htrans hline heq =>
      rw [heq]
      obtain ⟨read, done, hlines, hread, hdone⟩ := h.consumed
      refine ⟨⟨read ++ [[]], done, ?_, ?_, hdone⟩, h.ascending,
        fun e he => (h.before e he).trans (Nat.lt_succ_self _)⟩
      · rw [hlines, hline, List.append_assoc]
        rfl
      · rw [transactionsOf_append, hread]
        rfl
  | @reads line rest reader htrans hline hne hparse hover =>
      let u : TraceBasedSim := { s with traceFile := rest, reader, trans := some (reader.transaction cfg) }
      exact InOrder.handsOver (s := u) (h.reads htrans hline hne hparse) rfl hover.of_trans

end InOrder

/-- The channels at cycle `i`: nothing is pending in them, and together they have accepted what was handed
over, each transaction in the cycle in which it was. -/
structure Fed (cfg : Config) (i : ℕ) (s : TraceBasedSim) : Prop where
  pending : ∀ c < cfg.numChans, (s.channels c).pendingTransactions = []
  clock_eq : ∀ c < cfg.numChans, (s.channels c).memoryController.currentClockCycle = i
  ledger : ∑ c ∈ Finset.range cfg.numChans, ((s.channels c).history.accepted : Multiset Transaction) =
    (s.handedOver.map fun e => { e.2 with timeAdded := e.1 } : List Transaction)

theorem sum_update {M : Type*} [AddCommMonoid M] {n c : ℕ} (hc : c < n) (channels : ℕ → MemorySystem)
    (f : MemorySystem → M) {channel : MemorySystem} {d : M} (h : f channel = f (channels c) + d) :
    ∑ c' ∈ Finset.range n, f (Function.update channels c channel c') =
      ∑ c' ∈ Finset.range n, f (channels c') + d := by
  have hmem := Finset.mem_range.mpr hc
  have hrest : ∀ c' ∈ (Finset.range n).erase c,
      f (Function.update channels c channel c') = f (channels c') := by
    intro c' hc'
    rw [Function.update_of_ne (Finset.ne_of_mem_erase hc')]
  rw [← Finset.add_sum_erase _ _ hmem, ← Finset.add_sum_erase _ (fun c' => f (channels c')) hmem,
    Finset.sum_congr rfl hrest, Function.update_self, h]
  exact add_right_comm _ _ _

theorem Fed.start (cfg : Config) (dramsimClkFreqHz addr : BitVec 64) (transType : TransactionType)
    (lines : List (List Char)) : Fed cfg 0 (start cfg dramsimClkFreqHz addr transType lines) where
  pending := fun _ _ => rfl
  clock_eq := fun _ _ => rfl
  ledger := Finset.sum_eq_zero fun _ _ => rfl

theorem Fed.of_same {i : ℕ} (h : Fed cfg i s) (hchannels : t.channels = s.channels)
    (hover : t.handedOver = s.handedOver) : Fed cfg i t where
  pending := hchannels ▸ h.pending
  clock_eq := hchannels ▸ h.clock_eq
  ledger := by
    rw [hchannels, hover]
    exact h.ledger

theorem Fed.handsOver (h : Fed cfg s.i s) (hover : HandsOver cfg trans s t) : Fed cfg s.i t := by
  cases hover with
  | waits _ heq =>
      rw [heq]
      exact h.of_same rfl rfl
  | refused _ _ hchannels heq =>
      rw [heq]
      exact h.of_same hchannels rfl
  | @accepted c m _ hc hroom hchannels heq =>
      have hadd : (s.channels c).addTransaction cfg trans = { s.channels c with
          memoryController := { (s.channels c).memoryController with
            transactionQueue := (s.channels c).memoryController.transactionQueue ++
              [{ trans with timeAdded := s.i }] }
          history := { (s.channels c).history with
            accepted := (s.channels c).history.accepted ++ [{ trans with timeAdded := s.i }] } } := by
        rw [MemorySystem.addTransaction, if_pos hroom, h.clock_eq c hc]
      have ht : t.channels = Function.update s.channels c ((s.channels c).addTransaction cfg trans) := by
        rw [heq]
        exact hchannels
      refine ⟨fun c' hc' => ?_, fun c' hc' => ?_, ?_⟩
      · rw [ht]
        by_cases hne : c' = c
        · rw [hne, Function.update_self, hadd]
          exact h.pending c hc
        · rw [Function.update_of_ne hne]
          exact h.pending c' hc'
      · rw [ht]
        by_cases hne : c' = c
        · rw [hne, Function.update_self, hadd]
          exact h.clock_eq c hc
        · rw [Function.update_of_ne hne]
          exact h.clock_eq c' hc'
      · rw [ht, sum_update hc s.channels (fun channel => (channel.history.accepted : Multiset Transaction))
          (d := {{ trans with timeAdded := s.i }}) (by rw [hadd]; rfl), h.ledger, heq]
        change _ = (((s.handedOver ++ [(s.i, trans)]).map _ : List Transaction) : Multiset Transaction)
        rw [List.map_append]
        rfl

theorem Fed.turn (h : Fed cfg s.i s) (hturn : Turn cfg traceType useClockCycle s t) : Fed cfg s.i t := by
  cases hturn with
  | spins _ _ heq =>
      rw [heq]
      exact h
  | skips _ _ heq =>
      rw [heq]
      exact h.of_same rfl rfl
  | @reads _ rest reader _ _ _ _ hover =>
      exact Fed.handsOver (s := { s with traceFile := rest, reader }) (h.of_same rfl rfl) hover
  | retries _ hover => exact h.handsOver hover

theorem Fed.update {i : ℕ} (h : Fed cfg i t) {m : MultiChannelMemorySystem}
    (hupdate : t.memorySystem.memorySystem.update cfg epochLength = .ok m)
    (hchannels : s'.channels = m.channels) (hover : s'.handedOver = t.handedOver) : Fed cfg (i + 1) s' := by
  have hall : ∀ c < cfg.numChans, (s'.channels c).pendingTransactions = [] ∧
      (s'.channels c).memoryController.currentClockCycle = i + 1 ∧
        (s'.channels c).history.accepted = (t.channels c).history.accepted := by
    intro c hc
    obtain ⟨printed, hprinted, hc'⟩ := update_channels hupdate c hc
    obtain ⟨hpending, hhistory, hclock⟩ := hprinted.same
    obtain ⟨hnone, haccepted⟩ := MemorySystem.update_accepted hc' (hpending.trans (h.pending c hc))
    rw [hchannels]
    refine ⟨hnone, ?_, ?_⟩
    · rw [MemorySystem.update_clock hc', hclock]
      exact congrArg (· + 1) (h.clock_eq c hc)
    · rw [haccepted, hhistory]
      rfl
  refine ⟨fun c hc => (hall c hc).1, fun c hc => (hall c hc).2.1, ?_⟩
  rw [hover, ← h.ledger]
  refine Finset.sum_congr rfl fun c hc => ?_
  rw [(hall c (Finset.mem_range.mp hc)).2.2]

/-- What every cycle of the loop keeps. -/
structure Driven (cfg : Config) (traceType : TraceType) (useClockCycle : Bool) (addr : BitVec 64)
    (transType : TransactionType) (lines : List (List Char)) (s : TraceBasedSim) : Prop where
  level : s.memorySystem.clockDomainCrosser.clock1 = s.memorySystem.clockDomainCrosser.clock2
  inOrder : InOrder cfg traceType useClockCycle addr transType lines s.i s
  fed : Fed cfg s.i s

variable {dramsimClkFreqHz addr : BitVec 64} {transType : TransactionType} {lines : List (List Char)}
  {numCycles : ℕ}

theorem Driven.start (cfg : Config) (traceType : TraceType) (useClockCycle : Bool)
    (dramsimClkFreqHz addr : BitVec 64) (transType : TransactionType) (lines : List (List Char)) :
    Driven cfg traceType useClockCycle addr transType lines
      (start cfg dramsimClkFreqHz addr transType lines) where
  level := rfl
  inOrder := InOrder.start cfg traceType useClockCycle dramsimClkFreqHz addr transType lines
  fed := Fed.start cfg dramsimClkFreqHz addr transType lines

/-- **One cycle of the loop.** -/
theorem Driven.cycle (hchans : ∃ j, cfg.numChans = 2 ^ j)
    (h : Driven cfg traceType useClockCycle addr transType lines s)
    (hcycle : s.cycle cfg epochLength traceType useClockCycle = .ok s') :
    Driven cfg traceType useClockCycle addr transType lines s' ∧ s'.i = s.i + 1 := by
  obtain ⟨t, m, hturn, hupdate, heq⟩ := cycle_ok hchans h.level hcycle
  obtain ⟨hcrosser, hi⟩ := hturn.same
  have hnext : s'.i = s.i + 1 := by rw [heq, ← hi]
  refine ⟨⟨?_, ?_, ?_⟩, hnext⟩
  · rw [heq]
    change t.memorySystem.clockDomainCrosser.clock1 = t.memorySystem.clockDomainCrosser.clock2
    rw [hcrosser]
    exact h.level
  · rw [hnext]
    refine (h.inOrder.turn hturn).of_same ?_ ?_ ?_ ?_ (le_refl _) <;> rw [heq]
  · rw [hnext]
    refine (h.fed.turn hturn).update hupdate ?_ ?_ <;> rw [heq]
    rfl

theorem driven_run (hchans : ∃ j, cfg.numChans = 2 ^ j)
    (h : run cfg epochLength traceType useClockCycle dramsimClkFreqHz addr transType lines
      numCycles = .ok s) :
    Driven cfg traceType useClockCycle addr transType lines s ∧ s.i = numCycles := by
  have hstart := Driven.start cfg traceType useClockCycle dramsimClkFreqHz addr transType lines
  have hkept := Pacing.times_counted
      (P := fun i u => Driven cfg traceType useClockCycle addr transType lines u ∧ u.i = i)
    (fun i u u' hu hcycle => by
      obtain ⟨hu', hi⟩ := hu.1.cycle hchans hcycle
      exact ⟨hu', hi.trans (congrArg (· + 1) hu.2)⟩) ⟨hstart, rfl⟩ h
  exact ⟨hkept.1, hkept.2.trans (Nat.zero_add _)⟩

/-- **The transactions of a trace are handed over in order.** Whatever the channels do, those of the lines
read so far were handed over in the order of the file, each in a cycle of its own and not before its line's,
except for the last, which may wait; and together the channels have accepted these, each once and in the cycle
it was handed over in. -/
theorem handed_over_in_order (cfg : Config) (hchans : ∃ j, cfg.numChans = 2 ^ j) (epochLength : ℕ)
    (traceType : TraceType) (useClockCycle : Bool) (dramsimClkFreqHz addr : BitVec 64)
    (transType : TransactionType) (lines : List (List Char)) (numCycles : ℕ) (s : TraceBasedSim)
    (h : run cfg epochLength traceType useClockCycle dramsimClkFreqHz addr transType lines
      numCycles = .ok s) :
    (∃ read done, lines = read ++ s.traceFile ∧
        transactionsOf cfg traceType useClockCycle addr transType read = .ok (done ++ s.waiting, s.reader) ∧
          List.Forall₂ (fun r e => r.2 = e.2 ∧ r.1 ≤ e.1) done s.handedOver) ∧
      (s.handedOver.Pairwise fun e f => e.1 < f.1) ∧ (∀ e ∈ s.handedOver, e.1 < numCycles) ∧
      (∀ c < cfg.numChans, (s.channels c).pendingTransactions = []) ∧
      ∑ c ∈ Finset.range cfg.numChans, ((s.channels c).history.accepted : Multiset Transaction) =
        (s.handedOver.map fun e => { e.2 with timeAdded := e.1 } : List Transaction) := by
  obtain ⟨hdriven, hi⟩ := driven_run hchans h
  refine ⟨hdriven.inOrder.consumed, hdriven.inOrder.ascending, fun e he => ?_, hdriven.fed.pending,
    hdriven.fed.ledger⟩
  rw [← hi]
  exact hdriven.inOrder.before e he

/-- A write and a read of a `k6` trace, for cycles 1 and 4, with an empty line between them. -/
def writeAndRead : List (List Char) :=
  ["0x1000 P_MEM_WR 1".toList, [], "0x800 P_FETCH 4".toList]

theorem handed_over_in_order_ddr2 :
    ∃ s, run (ddr2Micron 1 (by decide)) 100000 .k6 true 333333333 0 .dataRead writeAndRead 6 = .ok s ∧
      ∑ c ∈ Finset.range 16, ((s.channels c).history.accepted : Multiset Transaction) =
        (s.handedOver.map fun e => { e.2 with timeAdded := e.1 } : List Transaction) := by
  have hrun : ∃ s, run (ddr2Micron 1 (by decide)) 100000 .k6 true 333333333 0 .dataRead writeAndRead 6 =
      .ok s ∧ True := by
    decide +kernel
  obtain ⟨s, hs, -⟩ := hrun
  exact ⟨s, hs, (handed_over_in_order (ddr2Micron 1 (by decide))
    ⟨4, rfl⟩ 100000 .k6 true 333333333 0 .dataRead
    writeAndRead 6 s hs).2.2.2.2⟩

end TraceBasedSim

end RacerArtifacts.Mram
