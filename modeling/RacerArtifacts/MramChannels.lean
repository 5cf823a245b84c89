import RacerArtifacts.LibTurns
import RacerArtifacts.MramController

/-! The memory system of several channels: which channel a transaction is sent to, and whether the check
for acceptance says what the call does. The clock domain crosser decides how often a client's update
updates the channels; here any number of times. -/

namespace RacerArtifacts.Mram

/-- The ways the channels end a run: an `abort`, an access past the channels or a division by zero, which
C++ leaves undefined, and the ends of one channel. -/
inductive ChannelExit where
  | notPowerOfTwo
  | channelIndex
  | outOfRange
  | divisionByZero
  | channel (exit : Exit)
  deriving DecidableEq, Repr

def isPowerOfTwo (x : ℕ) : Bool :=
  decide (2 ^ dramsimLog2 x = x)

/-- `sent` is a record that no function of the simulator reads: the addresses in the order of the calls of
`findChannelNumber`, and their channels. -/
structure MultiChannelMemorySystem where
  channels : ℕ → MemorySystem
  transactionCount : ℕ
  currentClockCycle : ℕ
  sent : List (BitVec 64 × ℕ)

namespace MultiChannelMemorySystem

def init (cfg : Config) : MultiChannelMemorySystem :=
  { channels := fun _ => MemorySystem.init cfg, transactionCount := 0, currentClockCycle := 0, sent := [] }

variable (cfg : Config) (epochLength : ℕ) (m : MultiChannelMemorySystem)

/-- The channel of a transaction; the count, a `uint64_t`, goes up whether the channel takes it or not. -/
def findChannelNumber (addr : BitVec 64) : Except ChannelExit (ℕ × MultiChannelMemorySystem) :=
  if cfg.numChans = 1 then
    .ok (0, { m with sent := m.sent ++ [(addr, 0)] })
  else if ¬ isPowerOfTwo cfg.numChans then
    .error .notPowerOfTwo
  else
    let channelNumber := (addressMapping cfg addr m.transactionCount).chan
    if channelNumber ≥ cfg.numChans then
      .error .channelIndex
    else
      .ok (channelNumber, { m with
        transactionCount := (m.transactionCount + 1) % 2 ^ 64
        sent := m.sent ++ [(addr, channelNumber)] })

/-- The channel it was sent to, whether it was accepted, and the system after it. -/
def addTransaction (transaction : Transaction) : Except ChannelExit ((ℕ × Bool) × MultiChannelMemorySystem) :=
  (m.findChannelNumber cfg transaction.address).map fun (channelNumber, m) =>
    ((channelNumber, (m.channels channelNumber).memoryController.willAcceptTransaction cfg),
      { m with
        channels := Function.update m.channels channelNumber
          ((m.channels channelNumber).addTransaction cfg transaction) })

/-- `addTransaction(isWrite, addr)`, which a channel never refuses. -/
def request (isWrite : Bool) (addr : BitVec 64) :
    Except ChannelExit ((ℕ × Bool) × MultiChannelMemorySystem) :=
  (m.findChannelNumber cfg addr).map fun (channelNumber, m) =>
    ((channelNumber, true),
      { m with channels :=
          Function.update m.channels channelNumber ((m.channels channelNumber).request cfg isWrite addr) })

/-- `willAcceptTransaction(addr)` -/
def willAcceptTransactionFor (addr : BitVec 64) : Except ChannelExit Bool :=
  let chan := (addressMapping cfg addr 0).chan
  if chan < cfg.numChans then .ok ((m.channels chan).memoryController.willAcceptTransaction cfg)
  else .error .outOfRange

def willAcceptTransaction : Bool :=
  (List.range cfg.numChans).all fun c => (m.channels c).memoryController.willAcceptTransaction cfg

/-- What printing the statistics does to the channels. -/
def printStats : MultiChannelMemorySystem :=
  { m with channels := fun c => if c < cfg.numChans then
      { m.channels c with memoryController := (m.channels c).memoryController.resetStats } else m.channels c }

/-- The update of the channel of an index. -/
def updateChannel (c : ℕ) : Except ChannelExit MultiChannelMemorySystem :=
  match (m.channels c).update cfg with
  | .ok channel => .ok { m with channels := Function.update m.channels c channel }
  | .error exit => .error (.channel exit)

/-- `actual_update` -/
def update : Except ChannelExit MultiChannelMemorySystem :=
  if epochLength = 0 then
    .error .divisionByZero
  else do
    let m := if m.currentClockCycle % epochLength = 0 then m.printStats cfg else m
    let m ← (List.range cfg.numChans).foldlM (updateChannel cfg) m
    pure { m with currentClockCycle := m.currentClockCycle + 1 }

/-- What a client calls. -/
inductive Call where
  | addTransaction (transaction : Transaction)
  | request (isWrite : Bool) (addr : BitVec 64)
  | willAcceptTransactionFor (addr : BitVec 64)
  | willAcceptTransaction
  | update
  | printStats
  deriving DecidableEq, Repr

/-- What it is told, and the channel its transaction went to. -/
inductive Reply where
  | sent (channel : ℕ) (accepted : Bool)
  | answer (willAccept : Bool)
  | done
  deriving DecidableEq, Repr

def serve : Call → Except ChannelExit (Reply × MultiChannelMemorySystem)
  | .addTransaction transaction => (m.addTransaction cfg transaction).map fun (r, m) => (.sent r.1 r.2, m)
  | .request isWrite addr => (m.request cfg isWrite addr).map fun (r, m) => (.sent r.1 r.2, m)
  | .willAcceptTransactionFor addr => (m.willAcceptTransactionFor cfg addr).map fun b => (.answer b, m)
  | .willAcceptTransaction => .ok (.answer (m.willAcceptTransaction cfg), m)
  | .update => (m.update cfg epochLength).map fun m => (.done, m)
  | .printStats => .ok (.done, m.printStats cfg)

/-- The replies to a list of calls. -/
def replies : MultiChannelMemorySystem → List Call → Except ChannelExit (List Reply)
  | _, [] => .ok []
  | m, call :: calls => do
      let (reply, m) ← m.serve cfg epochLength call
      let rest ← replies m calls
      pure (reply :: rest)

/-- The run of a list of calls from the initial state. -/
def run (calls : List Call) : Except ChannelExit MultiChannelMemorySystem :=
  calls.foldlM (fun m call => (m.serve cfg epochLength call).map Prod.snd) (init cfg)

/-- The channel that the `k`-th call of `findChannelNumber` finds. -/
def channelOf (k : ℕ) (addr : BitVec 64) : ℕ :=
  if cfg.numChans = 1 then 0 else (addressMapping cfg addr (k % 2 ^ 64)).chan

end MultiChannelMemorySystem

namespace MultiChannelMemorySystem

open Fallible

variable {cfg : Config} {epochLength : ℕ} {m m' : MultiChannelMemorySystem}

/-- The record has the channels of all calls so far, and the count is their number. -/
structure Recorded (cfg : Config) (m : MultiChannelMemorySystem) : Prop where
  count_eq : cfg.numChans ≠ 1 → m.transactionCount = m.sent.length % 2 ^ 64
  sent_eq : ∀ k (hk : k < m.sent.length), m.sent[k].2 = channelOf cfg k m.sent[k].1

theorem Recorded.init (cfg : Config) : Recorded cfg (init cfg) where
  count_eq := fun _ => rfl
  sent_eq := fun _ hk => absurd hk (Nat.not_lt_zero _)

theorem Recorded.of_same (h : Recorded cfg m) (hcount : m'.transactionCount = m.transactionCount)
    (hsent : m'.sent = m.sent) : Recorded cfg m' where
  count_eq := by
    rw [hcount, hsent]
    exact h.count_eq
  sent_eq := by
    rw [hsent]
    exact h.sent_eq

theorem Recorded.findChannelNumber (h : Recorded cfg m) {addr : BitVec 64} {c : ℕ}
    (hfind : m.findChannelNumber cfg addr = .ok (c, m')) :
    Recorded cfg m' ∧ m'.sent = m.sent ++ [(addr, c)] ∧ m'.channels = m.channels := by
  have hpush : ∀ {count : ℕ}, c = channelOf cfg m.sent.length addr →
      (cfg.numChans ≠ 1 → count = (m.sent.length + 1) % 2 ^ 64) →
      Recorded cfg { m with transactionCount := count, sent := m.sent ++ [(addr, c)] } := by
    intro count hc hcount
    refine ⟨fun hne => ?_, fun k hk => ?_⟩
    · rw [hcount hne, List.length_append, List.length_singleton]
    · simp only [List.getElem_append]
      split_ifs with hlt
      · exact h.sent_eq k hlt
      · have hlast : k = m.sent.length := by
          rw [List.length_append, List.length_singleton] at hk
          omega
        subst hlast
        simpa using hc
  rw [MultiChannelMemorySystem.findChannelNumber] at hfind
  by_cases hone : cfg.numChans = 1
  · rw [if_pos hone] at hfind
    cases hfind
    exact ⟨hpush (by rw [channelOf, if_pos hone]) fun hne => absurd hone hne, rfl, rfl⟩
  · rw [if_neg hone] at hfind
    dsimp only at hfind
    split_ifs at hfind
    cases hfind
    refine ⟨hpush ?_ fun hne => ?_, rfl, rfl⟩
    · rw [channelOf, if_neg hone, h.count_eq hone]
    · rw [h.count_eq hne]
      omega

theorem update_sent (h : m.update cfg epochLength = .ok m') :
    m'.transactionCount = m.transactionCount ∧ m'.sent = m.sent := by
  rw [update] at h
  by_cases hzero : epochLength = 0
  · rw [if_pos hzero] at h
    cases h
  rw [if_neg hzero] at h
  obtain ⟨m'', hfold, h⟩ := bind_ok h
  cases h
  have hstart : (if m.currentClockCycle % epochLength = 0 then m.printStats cfg else m).transactionCount =
      m.transactionCount ∧
        (if m.currentClockCycle % epochLength = 0 then m.printStats cfg else m).sent = m.sent := by
    split_ifs <;> exact ⟨rfl, rfl⟩
  have hlast : m''.transactionCount = m.transactionCount ∧ m''.sent = m.sent := by
    refine foldlM_range_ok
      (P := fun _ (t : MultiChannelMemorySystem) => t.transactionCount = m.transactionCount ∧ t.sent = m.sent)
      hstart (fun c _ t t' ht hstep => ?_) hfold
    rw [updateChannel] at hstep
    cases hchannel : (t.channels c).update cfg with
    | error exit =>
        rw [hchannel] at hstep
        cases hstep
    | ok channel =>
        rw [hchannel] at hstep
        cases hstep
        exact ht
  exact hlast

theorem Recorded.serve (h : Recorded cfg m) {call : Call} {reply : Reply}
    (hserve : m.serve cfg epochLength call = .ok (reply, m')) : Recorded cfg m' := by
  cases call with
  | addTransaction transaction =>
      obtain ⟨⟨r, m₁⟩, hadd, heq⟩ := map_ok hserve
      obtain ⟨⟨c, m₂⟩, hfind, heq'⟩ := map_ok hadd
      cases heq
      cases heq'
      exact (h.findChannelNumber hfind).1.of_same rfl rfl
  | request isWrite addr =>
      obtain ⟨⟨r, m₁⟩, hadd, heq⟩ := map_ok hserve
      obtain ⟨⟨c, m₂⟩, hfind, heq'⟩ := map_ok hadd
      cases heq
      cases heq'
      exact (h.findChannelNumber hfind).1.of_same rfl rfl
  | willAcceptTransactionFor addr =>
      obtain ⟨b, -, heq⟩ := map_ok hserve
      cases heq
      exact h
  | willAcceptTransaction =>
      cases hserve
      exact h
  | update =>
      obtain ⟨m₁, hupdate, heq⟩ := map_ok hserve
      cases heq
      obtain ⟨hcount, hsent⟩ := update_sent hupdate
      exact h.of_same hcount hsent
  | printStats =>
      cases hserve
      exact h.of_same rfl rfl

theorem recorded_run {calls : List Call} (h : run cfg epochLength calls = .ok m) : Recorded cfg m := by
  refine foldlM_ok (fun m call m' hm hstep => ?_) (Recorded.init cfg) h
  obtain ⟨⟨reply, m₁⟩, hserve, heq⟩ := map_ok hstep
  cases heq
  exact hm.serve hserve

/-- **The channel of an address.** Outside scheme 8, and with one channel, two transactions of one address go
to one channel. Scheme 8 takes the channels in turn: a call goes to the channel of its count, whatever its
address is, where the count is not 0. -/
theorem channel_of_address (cfg : Config) (epochLength : ℕ) (calls : List Call) (m : MultiChannelMemorySystem)
    (h : run cfg epochLength calls = .ok m) :
    (cfg.addressMappingScheme ≠ .scheme8 ∨ cfg.numChans = 1 →
        ∀ p ∈ m.sent, ∀ q ∈ m.sent, p.1 = q.1 → p.2 = q.2) ∧
      (cfg.addressMappingScheme = .scheme8 → cfg.numChans ≠ 1 → ∀ k (hk : k < m.sent.length), k % 2 ^ 64 ≠ 0 →
        m.sent[k].2 = k % 2 ^ 64 % cfg.numChans) := by
  have hrecorded := recorded_run h
  refine ⟨fun hfixed p hp q hq haddress => ?_, fun hscheme hne k hk hcount => ?_⟩
  · obtain ⟨i, hi, rfl⟩ := List.getElem_of_mem hp
    obtain ⟨j, hj, rfl⟩ := List.getElem_of_mem hq
    rw [hrecorded.sent_eq i hi, hrecorded.sent_eq j hj, channelOf, channelOf, haddress]
    rcases hfixed with hscheme | hone
    · rw [addressMapping_count hscheme _ (i % 2 ^ 64), addressMapping_count hscheme _ (j % 2 ^ 64)]
    · rw [if_pos hone, if_pos hone]
  · rw [hrecorded.sent_eq k hk, channelOf, if_neg hne, addressMapping_scheme8 hscheme, if_neg hcount]

/-- A client that reads one address twice. -/
def twoReads : List Call :=
  [.addTransaction ⟨.dataRead, 2048, 0, 0⟩, .addTransaction ⟨.dataRead, 2048, 0, 0⟩]

theorem channel_of_address_scheme7 :
    ∃ m, run { ddr2Micron 1 (by decide) with addressMappingScheme := .scheme7 } 100000 twoReads = .ok m ∧
      m.sent.length = 2 ∧ ∀ p ∈ m.sent, ∀ q ∈ m.sent, p.1 = q.1 → p.2 = q.2 := by
  have hrun : ∃ m,
      run { ddr2Micron 1 (by decide) with addressMappingScheme := .scheme7 } 100000 twoReads = .ok m ∧
        m.sent.length = 2 := by decide +kernel
  obtain ⟨m, hm, hlength⟩ := hrun
  exact ⟨m, hm, hlength, (channel_of_address _ 100000 twoReads m hm).1 (.inl (by decide))⟩

/-- Under scheme 8 with 16 channels the second read may go elsewhere. -/
theorem channel_depends_on_count :
    ¬ ∀ (cfg : Config) (epochLength : ℕ) (calls : List Call) (m : MultiChannelMemorySystem),
      (∃ j, cfg.numChans = 2 ^ j) → run cfg epochLength calls = .ok m →
        ∀ p ∈ m.sent, ∀ q ∈ m.sent, p.1 = q.1 → p.2 = q.2 := by
  intro h
  have hrun : ∃ m, run (ddr2Micron 1 (by decide)) 100000 (.request false 0 :: twoReads) = .ok m ∧
      m.sent = [(0, 0), (2048, 1), (2048, 2)] := by decide +kernel
  obtain ⟨m, hm, hsent⟩ := hrun
  have hbad := h _ 100000 _ m ⟨4, rfl⟩ hm (2048, 1) (by rw [hsent]; decide) (2048, 2)
      (by rw [hsent]; decide) rfl
  exact absurd hbad (by decide)

/-- `isPowerOfTwo` on powers of two. -/
theorem isPowerOfTwo_two_pow (j : ℕ) : isPowerOfTwo (2 ^ j) = true := by
  rw [isPowerOfTwo, dramsimLog2_two_pow]
  exact decide_eq_true rfl

/-- With a power of two every address has a channel that exists. -/
theorem chan_lt (hchans : ∃ j, cfg.numChans = 2 ^ j) (addr : BitVec 64) :
    (addressMapping cfg addr 0).chan < cfg.numChans := by
  obtain ⟨j, hj⟩ := hchans
  have hlt := addressMapping_chan_lt cfg addr
  rwa [Config.numChansLog, hj, dramsimLog2_two_pow, ← hj] at hlt

/-- The channel that the next call finds. -/
def nextChannel (cfg : Config) (m : MultiChannelMemorySystem) (addr : BitVec 64) : ℕ :=
  if cfg.numChans = 1 then 0 else (addressMapping cfg addr m.transactionCount).chan

theorem nextChannel_scheme8 (hscheme : cfg.addressMappingScheme = .scheme8) (hne : cfg.numChans ≠ 1)
    (m : MultiChannelMemorySystem) (addr : BitVec 64) : nextChannel cfg m addr =
      if m.transactionCount = 0 then (addressMapping cfg addr 0).chan
        else m.transactionCount % cfg.numChans := by
  rw [nextChannel, if_neg hne, addressMapping_scheme8 hscheme]

/-- Outside scheme 8, and with one channel, it is the channel of the address. -/
theorem nextChannel_fixed (hchans : ∃ j, cfg.numChans = 2 ^ j)
    (hfixed : cfg.addressMappingScheme ≠ .scheme8 ∨ cfg.numChans = 1) (m : MultiChannelMemorySystem)
    (addr : BitVec 64) : nextChannel cfg m addr = (addressMapping cfg addr 0).chan := by
  rw [nextChannel]
  by_cases hone : cfg.numChans = 1
  · have hlt := chan_lt hchans addr
    rw [if_pos hone]
    omega
  · rw [if_neg hone, addressMapping_count (hfixed.resolve_right hone) addr m.transactionCount]

theorem nextChannel_lt (hchans : ∃ j, cfg.numChans = 2 ^ j) (m : MultiChannelMemorySystem)
    (addr : BitVec 64) :
    nextChannel cfg m addr < cfg.numChans := by
  have hpos : 0 < cfg.numChans := lt_of_le_of_lt (Nat.zero_le _) (chan_lt hchans addr)
  by_cases hfixed : cfg.addressMappingScheme ≠ .scheme8 ∨ cfg.numChans = 1
  · rw [nextChannel_fixed hchans hfixed]
    exact chan_lt hchans addr
  · obtain ⟨hscheme, hne⟩ := not_or.mp hfixed
    rw [nextChannel_scheme8 (not_not.mp hscheme) hne]
    split_ifs
    · exact chan_lt hchans addr
    · exact Nat.mod_lt _ hpos

/-- The search for a channel always ends in one that exists, and moves the count on. -/
theorem findChannelNumber_eq (hchans : ∃ j, cfg.numChans = 2 ^ j) (m : MultiChannelMemorySystem)
    (addr : BitVec 64) :
    m.findChannelNumber cfg addr = .ok (nextChannel cfg m addr, { m with
      transactionCount := if cfg.numChans = 1 then m.transactionCount else (m.transactionCount + 1) % 2 ^ 64
      sent := m.sent ++ [(addr, nextChannel cfg m addr)] }) := by
  have hlt := nextChannel_lt hchans m addr
  rw [findChannelNumber]
  rw [nextChannel] at hlt ⊢
  by_cases hone : cfg.numChans = 1
  · rw [if_pos hone, if_pos hone, if_pos hone]
  · rw [if_neg hone] at hlt
    obtain ⟨j, hj⟩ := hchans
    have hpow : ¬ ¬ isPowerOfTwo cfg.numChans = true := by
      rw [not_not, hj]
      exact isPowerOfTwo_two_pow j
    simp only [if_neg hone, if_neg hpow, if_neg (not_le.mpr hlt)]

/-- The count and the record after a call. -/
def counted (cfg : Config) (m : MultiChannelMemorySystem) (addr : BitVec 64) : MultiChannelMemorySystem :=
  { m with
    transactionCount := if cfg.numChans = 1 then m.transactionCount else (m.transactionCount + 1) % 2 ^ 64
    sent := m.sent ++ [(addr, nextChannel cfg m addr)] }

/-- A system with another channel. -/
def setChannel (m : MultiChannelMemorySystem) (c : ℕ) (channel : MemorySystem) : MultiChannelMemorySystem :=
  { m with channels := Function.update m.channels c channel }

theorem addTransaction_eq (hchans : ∃ j, cfg.numChans = 2 ^ j) (m : MultiChannelMemorySystem)
    (transaction : Transaction) :
    m.addTransaction cfg transaction = .ok ((nextChannel cfg m transaction.address,
      (m.channels (nextChannel cfg m transaction.address)).memoryController.willAcceptTransaction cfg),
      (m.counted cfg transaction.address).setChannel (nextChannel cfg m transaction.address)
        ((m.channels (nextChannel cfg m transaction.address)).addTransaction cfg transaction)) := by
  rw [addTransaction, findChannelNumber_eq hchans]
  rfl

theorem request_eq (hchans : ∃ j, cfg.numChans = 2 ^ j) (m : MultiChannelMemorySystem) (isWrite : Bool)
    (addr : BitVec 64) :
    m.request cfg isWrite addr = .ok ((nextChannel cfg m addr, true),
      (m.counted cfg addr).setChannel (nextChannel cfg m addr)
        ((m.channels (nextChannel cfg m addr)).request cfg isWrite addr)) := by
  rw [request, findChannelNumber_eq hchans]
  rfl

theorem willAcceptTransactionFor_eq (hchans : ∃ j, cfg.numChans = 2 ^ j) (m : MultiChannelMemorySystem)
    (addr : BitVec 64) : m.willAcceptTransactionFor cfg addr =
      .ok ((m.channels (addressMapping cfg addr 0).chan).memoryController.willAcceptTransaction cfg) :=
  if_pos (chan_lt hchans addr)

/-- The search for the channels of a list of addresses. -/
def findChannels (cfg : Config) (addrs : List (BitVec 64)) : Except ChannelExit MultiChannelMemorySystem :=
  addrs.foldlM (fun m addr => (m.findChannelNumber cfg addr).map Prod.snd) (init cfg)

/-- The search succeeds for every list, and its record has the addresses in order. -/
theorem findChannels_ok (hchans : ∃ j, cfg.numChans = 2 ^ j) (addrs : List (BitVec 64)) :
    ∃ m, findChannels cfg addrs = .ok m ∧ Recorded cfg m ∧ m.sent.map Prod.fst = addrs := by
  induction addrs using List.reverseRecOn with
  | nil => exact ⟨init cfg, rfl, Recorded.init cfg, rfl⟩
  | append_singleton addrs addr ih =>
      obtain ⟨m, hm, hrecorded, haddrs⟩ := ih
      have hfind := findChannelNumber_eq hchans m addr
      refine ⟨_, ?_, (hrecorded.findChannelNumber hfind).1, ?_⟩
      · rw [findChannels] at hm ⊢
        simp only [List.foldlM_append, hm, List.foldlM_cons, List.foldlM_nil]
        exact congrArg (fun r => Except.map Prod.snd r >>= pure) hfind
      · rw [List.map_append, haddrs]
        rfl

/-- The numbers of transactions sent to any two channels differ by at most one. -/
def Balanced (cfg : Config) (m : MultiChannelMemorySystem) : Prop :=
  ∀ c < cfg.numChans, ∀ c' < cfg.numChans,
    (m.sent.map Prod.snd).count c ≤ (m.sent.map Prod.snd).count c' + 1

/-- A call that finds the count 0 and an address of another channel than 0. -/
def Misled (cfg : Config) (addrs : List (BitVec 64)) (k : ℕ) : Prop :=
  k % 2 ^ 64 = 0 ∧ ∃ addr, addrs[k]? = some addr ∧ (addressMapping cfg addr 0).chan ≠ 0

/-- A number of channels that is a power of two divides the range of the count. -/
theorem numChans_dvd (hchans : ∃ j, cfg.numChans = 2 ^ j) (hunsigned : cfg.numChans < 2 ^ 32) :
    cfg.numChans ∣ 2 ^ 64 := by
  obtain ⟨j, hj⟩ := hchans
  rw [hj] at hunsigned ⊢
  have hlt : j < 32 := (Nat.pow_lt_pow_iff_right (by omega)).mp hunsigned
  exact pow_dvd_pow 2 (by omega)

/-- Scheme 8 takes turns, but for the calls that find a count of 0. -/
theorem inTurn_sent (hscheme : cfg.addressMappingScheme = .scheme8) (hchans : ∃ j, cfg.numChans = 2 ^ j)
    (hne : cfg.numChans ≠ 1) (hunsigned : cfg.numChans < 2 ^ 32) (hrecorded : Recorded cfg m) :
    Turns.InTurn cfg.numChans fun k => (m.sent.map Prod.snd).getD k (k % cfg.numChans) := by
  have hpos : 0 < cfg.numChans := lt_of_le_of_lt (Nat.zero_le _) (chan_lt hchans 0)
  have hsent : ∀ k (hk : k < m.sent.length), (m.sent.map Prod.snd).getD k (k % cfg.numChans) =
      if k % 2 ^ 64 = 0 then (addressMapping cfg m.sent[k].1 0).chan else k % 2 ^ 64 % cfg.numChans := by
    intro k hk
    rw [List.getD_eq_getElem _ _ (by rwa [List.length_map]), List.getElem_map,
      hrecorded.sent_eq k hk, channelOf,
      if_neg hne, addressMapping_scheme8 hscheme]
  have hbeyond : ∀ k, ¬ k < m.sent.length →
      (m.sent.map Prod.snd).getD k (k % cfg.numChans) = k % cfg.numChans := by
    intro k hk
    exact List.getD_eq_default _ _ (by rw [List.length_map]; exact not_lt.mp hk)
  have hmod : ∀ k, k % 2 ^ 64 % cfg.numChans = k % cfg.numChans := fun k =>
    Nat.mod_mod_of_dvd k (numChans_dvd hchans hunsigned)
  refine ⟨fun k => ?_, fun k hk => ?_⟩
  · by_cases hlt : k < m.sent.length
    · rw [hsent k hlt]
      split_ifs
      · exact chan_lt hchans _
      · exact Nat.mod_lt _ hpos
    · rw [hbeyond k hlt]
      exact Nat.mod_lt _ hpos
  · by_cases hlt : k < m.sent.length
    · have hcount : k % 2 ^ 64 ≠ 0 := by
        intro hzero
        rw [← hmod k, hzero] at hk
        exact hk (Nat.zero_mod _)
      rw [hsent k hlt, if_neg hcount, hmod]
    · exact hbeyond k hlt

/-- **The balance of scheme 8.** The channels are balanced exactly if no call is misled, or one is, to a
channel that the last round has not come to. -/
theorem round_robin_balanced_iff (cfg : Config) (hscheme : cfg.addressMappingScheme = .scheme8)
    (hchans : ∃ j, cfg.numChans = 2 ^ j) (hseveral : 2 ≤ cfg.numChans) (hunsigned : cfg.numChans < 2 ^ 32)
    (addrs : List (BitVec 64)) :
    ∃ m, findChannels cfg addrs = .ok m ∧ m.sent.map Prod.fst = addrs ∧
      (Balanced cfg m ↔ (∀ k < addrs.length, ¬ Misled cfg addrs k) ∨
        ∃ k < addrs.length, Misled cfg addrs k ∧ (∀ j < addrs.length, Misled cfg addrs j → j = k) ∧
          0 < addrs.length % cfg.numChans ∧
          ∃ addr, addrs[k]? = some addr ∧
          addrs.length % cfg.numChans ≤ (addressMapping cfg addr 0).chan) := by
  obtain ⟨m, hm, hrecorded, haddrs⟩ := findChannels_ok hchans addrs
  refine ⟨m, hm, haddrs, ?_⟩
  have hne : cfg.numChans ≠ 1 := by omega
  have hturns := inTurn_sent hscheme hchans hne hunsigned hrecorded
  let goes := fun k => (m.sent.map Prod.snd).getD k (k % cfg.numChans)
  have hlength : (m.sent.map Prod.snd).length = addrs.length := by
    rw [List.length_map, ← haddrs, List.length_map]
  have hcount : ∀ c, (m.sent.map Prod.snd).count c = Nat.count (fun k => goes k = c) addrs.length := by
    intro c
    rw [← hlength]
    exact Turns.count_list (fun k hk => (List.getD_eq_getElem _ _ hk).symm) c
  have hbalanced : Balanced cfg m ↔ Turns.Fair cfg.numChans goes addrs.length := by
    unfold Balanced Turns.Fair
    simp only [hcount]
  have hgoes : ∀ k < addrs.length, ∃ addr, addrs[k]? = some addr ∧
      goes k = if k % 2 ^ 64 = 0 then (addressMapping cfg addr 0).chan else k % cfg.numChans := by
    intro k hk
    have hk' : k < m.sent.length := by rwa [← hlength, List.length_map] at hk
    refine ⟨m.sent[k].1, ?_, ?_⟩
    · rw [← haddrs, List.getElem?_map, List.getElem?_eq_getElem hk']
      rfl
    · change (m.sent.map Prod.snd).getD k _ = _
      rw [List.getD_eq_getElem _ _ (by rwa [List.length_map]), List.getElem_map,
        hrecorded.sent_eq k hk', channelOf,
        if_neg hne, addressMapping_scheme8 hscheme, Nat.mod_mod_of_dvd k (numChans_dvd hchans hunsigned)]
  have hslip : ∀ k < addrs.length, Turns.Slip cfg.numChans goes k ↔ Misled cfg addrs k := by
    intro k hk
    obtain ⟨addr, haddr, hgo⟩ := hgoes k hk
    rw [Turns.Slip, Misled, hgo]
    by_cases hzero : k % 2 ^ 64 = 0
    · have hturn : k % cfg.numChans = 0 := by
        rw [← Nat.mod_mod_of_dvd k (numChans_dvd hchans hunsigned), hzero, Nat.zero_mod]
      simp only [hzero, hturn, if_true, true_and, haddr, Option.some.injEq, exists_eq_left']
    · simp only [hzero, if_false, false_and, iff_false, not_and, not_not]
      exact fun hturn => hturn
  rw [hbalanced, hturns.fair_iff]
  apply or_congr
  · exact forall₂_congr fun k hk => not_congr (hslip k hk)
  · refine exists_congr fun k => and_congr_right fun hk => ?_
    obtain ⟨addr, haddr, hgo⟩ := hgoes k hk
    rw [hslip k hk]
    refine and_congr_right fun hmisled => and_congr (forall₂_congr fun j hj => imp_congr_left (hslip j hj)) ?_
    apply and_congr_right
    intro _
    have hgo' : goes k = (addressMapping cfg addr 0).chan := by
      rw [hgo, if_pos hmisled.1]
    change _ ≤ goes k ↔ _
    rw [hgo', haddr]
    simp only [Option.some.injEq, exists_eq_left']

theorem round_robin_balanced_three : ∃ m, findChannels (ddr2Micron 1 (by decide)) [0, 2048, 4096] = .ok m ∧
    Balanced (ddr2Micron 1 (by decide)) m := by
  obtain ⟨m, hm, -, hbalanced⟩ := round_robin_balanced_iff (ddr2Micron 1 (by decide)) rfl ⟨4, rfl⟩ (by decide)
    (by decide) [0, 2048, 4096]
  refine ⟨m, hm, hbalanced.mpr (.inl ?_)⟩
  rintro k hk ⟨hcount, addr, haddr, hchan⟩
  have hzero : k = 0 := by
    rw [← hcount]
    exact (Nat.mod_eq_of_lt (hk.trans (by decide))).symm
  subst hzero
  cases haddr
  exact hchan (by decide +kernel)

/-- The first call takes the channel of its address, and the second call takes channel 1. -/
theorem round_robin_unbalanced :
    ¬ ∀ (cfg : Config) (addrs : List (BitVec 64)) (m : MultiChannelMemorySystem),
      cfg.addressMappingScheme = .scheme8 → (∃ j, cfg.numChans = 2 ^ j) → 2 ≤ cfg.numChans →
        findChannels cfg addrs = .ok m → Balanced cfg m := by
  intro h
  have hrun : ∃ m, findChannels (ddr2Micron 1 (by decide)) [2048, 0] = .ok m ∧
      m.sent.map Prod.snd = [1, 1] := by
    decide +kernel
  obtain ⟨m, hm, hsent⟩ := hrun
  have hbad := h _ _ m rfl ⟨4, rfl⟩ (by decide) hm 1 (by decide) 0 (by decide)
  rw [hsent] at hbad
  exact absurd hbad (by decide)

/-- A system with another count and record. -/
def withCount (m : MultiChannelMemorySystem) (count : ℕ) (sent : List (BitVec 64 × ℕ)) :
    MultiChannelMemorySystem :=
  { m with transactionCount := count, sent := sent }

theorem update_withCount (m : MultiChannelMemorySystem) (count : ℕ) (sent : List (BitVec 64 × ℕ)) :
    (m.withCount count sent).update cfg epochLength =
      (m.update cfg epochLength).map fun m => m.withCount count sent := by
  have hchannel : ∀ (m : MultiChannelMemorySystem) (c : ℕ), (m.withCount count sent).updateChannel cfg c =
      (m.updateChannel cfg c).map fun m => m.withCount count sent := by
    intro m c
    rw [updateChannel, updateChannel]
    change (match (m.channels c).update cfg with
      | .ok channel => _
      | .error exit => _) = _
    cases (m.channels c).update cfg <;> rfl
  have hfold : ∀ (l : List ℕ) (m : MultiChannelMemorySystem),
      l.foldlM (updateChannel cfg) (m.withCount count sent) =
        (l.foldlM (updateChannel cfg) m).map fun m => m.withCount count sent := by
    intro l
    induction l with
    | nil => exact fun m => rfl
    | cons c l ih =>
        intro m
        rw [List.foldlM_cons, List.foldlM_cons, hchannel]
        cases m.updateChannel cfg c with
        | error exit => rfl
        | ok m₁ => exact ih m₁
  rw [update, update]
  by_cases hzero : epochLength = 0
  · rw [if_pos hzero, if_pos hzero]
    rfl
  rw [if_neg hzero, if_neg hzero]
  have hstats : (if (m.withCount count sent).currentClockCycle % epochLength = 0 then
      (m.withCount count sent).printStats cfg else m.withCount count sent) =
        (if m.currentClockCycle % epochLength = 0 then m.printStats cfg else m).withCount count sent := by
    change (if m.currentClockCycle % epochLength = 0 then _ else _) = _
    split_ifs <;> rfl
  dsimp only
  rw [hstats, hfold]
  cases List.foldlM (updateChannel cfg)
    (if m.currentClockCycle % epochLength = 0 then m.printStats cfg else m)
    (List.range cfg.numChans) <;> rfl

/-- Where the channel is a function of the address the replies do not depend on the count. -/
theorem replies_withCount (hchans : ∃ j, cfg.numChans = 2 ^ j)
    (hfixed : cfg.addressMappingScheme ≠ .scheme8 ∨ cfg.numChans = 1) (calls : List Call)
    (m : MultiChannelMemorySystem) (count : ℕ) (sent : List (BitVec 64 × ℕ)) :
    (m.withCount count sent).replies cfg epochLength calls = m.replies cfg epochLength calls := by
  have hnext : ∀ (m m' : MultiChannelMemorySystem) addr,
      nextChannel cfg m addr = nextChannel cfg m' addr := by
    intro m m' addr
    rw [nextChannel_fixed hchans hfixed, nextChannel_fixed hchans hfixed]
  induction calls generalizing m count sent with
  | nil => rfl
  | cons call calls ih =>
      -- Both systems serve the call with one reply, and differ in the count and the record again.
      have hstep : ∀ {s s' : Except ChannelExit (Reply × MultiChannelMemorySystem)},
          (∃ e, s = .error e ∧ s' = .error e) ∨
            (∃ reply m₁ count sent, s = .ok (reply, m₁) ∧ s' = .ok (reply, m₁.withCount count sent)) →
          (s' >>= fun r => (r.2.replies cfg epochLength calls) >>= fun rest => pure (r.1 :: rest)) =
            (s >>= fun r => (r.2.replies cfg epochLength calls) >>= fun rest => pure (r.1 :: rest)) := by
        rintro s s' (⟨e, rfl, rfl⟩ | ⟨reply, m₁, count, sent, rfl, rfl⟩)
        · rfl
        · exact congrArg (fun r => r >>= fun rest => pure (reply :: rest)) (ih m₁ count sent)
      rw [replies, replies]
      apply hstep
      cases call with
      | addTransaction transaction =>
          refine .inr ⟨_, _, ((m.withCount count sent).counted cfg transaction.address).transactionCount,
            ((m.withCount count sent).counted cfg transaction.address).sent,
            congrArg (Except.map _) (addTransaction_eq hchans m transaction), ?_⟩
          rw [serve, addTransaction_eq hchans, hnext (m.withCount count sent) m]
          rfl
      | request isWrite addr =>
          refine .inr ⟨_, _, ((m.withCount count sent).counted cfg addr).transactionCount,
            ((m.withCount count sent).counted cfg addr).sent,
            congrArg (Except.map _) (request_eq hchans m isWrite addr), ?_⟩
          rw [serve, request_eq hchans, hnext (m.withCount count sent) m]
          rfl
      | willAcceptTransactionFor addr =>
          refine .inr ⟨_, m, count, sent,
            congrArg (Except.map _) (willAcceptTransactionFor_eq hchans m addr), ?_⟩
          rw [serve, willAcceptTransactionFor_eq hchans]
          rfl
      | willAcceptTransaction => exact .inr ⟨_, m, count, sent, rfl, rfl⟩
      | update =>
          rw [serve, serve, update_withCount]
          cases m.update cfg epochLength with
          | error e => exact .inl ⟨e, rfl, rfl⟩
          | ok m₁ => exact .inr ⟨_, m₁, count, sent, rfl, rfl⟩
      | printStats => exact .inr ⟨_, m.printStats cfg, count, sent, rfl, rfl⟩

/-- The check for an address says whether the call for it is accepted, and a call that is refused changes
nothing that later calls are told or where they are sent. -/
def Honest (cfg : Config) (epochLength : ℕ) (m : MultiChannelMemorySystem)
    (transaction : Transaction) : Prop :=
  ∃ channel accepted m', m.addTransaction cfg transaction = .ok ((channel, accepted), m') ∧
    m.willAcceptTransactionFor cfg transaction.address = .ok accepted ∧
    (accepted = false → ∀ calls, m'.replies cfg epochLength calls = m.replies cfg epochLength calls)

theorem setChannel_refused {c : ℕ} {transaction : Transaction}
    (h : (m.channels c).memoryController.willAcceptTransaction cfg = false) (addr : BitVec 64) :
    (m.counted cfg addr).setChannel c ((m.channels c).addTransaction cfg transaction) =
      m.counted cfg addr := by
  have hsame : (m.channels c).addTransaction cfg transaction = m.channels c := by
    rw [MemorySystem.addTransaction, h]
    exact if_neg (by decide)
  rw [hsame, setChannel]
  change { m.counted cfg addr with channels := Function.update m.channels c (m.channels c) } = _
  rw [Function.update_eq_self]
  rfl

/-- With several channels under scheme 8 a call moves the next one to another channel. -/
theorem nextChannel_counted_ne (hscheme : cfg.addressMappingScheme = .scheme8)
    (hchans : ∃ j, cfg.numChans = 2 ^ j) (hne : cfg.numChans ≠ 1) (hunsigned : cfg.numChans < 2 ^ 32)
    (m : MultiChannelMemorySystem) (addr : BitVec 64) :
    nextChannel cfg (m.counted cfg addr) 0 ≠ nextChannel cfg m 0 := by
  have hpos : 0 < cfg.numChans := lt_of_le_of_lt (Nat.zero_le _) (chan_lt hchans 0)
  have hdvd := numChans_dvd hchans hunsigned
  rw [nextChannel_scheme8 hscheme hne, nextChannel_scheme8 hscheme hne, addressMapping_zero,
    counted, if_neg hne]
  dsimp only
  have hsucc : (m.transactionCount + 1) % cfg.numChans ≠ m.transactionCount % cfg.numChans := by
    intro heq
    have hone := (Nat.modEq_iff_dvd' (Nat.le_succ m.transactionCount)).mp (Eq.symm heq)
    rw [Nat.succ_sub (le_refl _), Nat.sub_self, Nat.dvd_one] at hone
    exact hne hone
  have hmod := Nat.mod_mod_of_dvd (m.transactionCount + 1) hdvd
  by_cases hcount : m.transactionCount = 0
  · rw [if_pos hcount]
    rw [hcount] at hsucc ⊢
    rw [if_neg (by decide)]
    intro hbad
    rw [Nat.zero_mod] at hsucc
    exact hsucc hbad
  · rw [if_neg hcount]
    by_cases hwraps : (m.transactionCount + 1) % 2 ^ 64 = 0
    · rw [if_pos hwraps]
      rw [hwraps, Nat.zero_mod] at hmod
      rw [← hmod] at hsucc
      exact hsucc
    · rw [if_neg hwraps, hmod]
      exact hsucc

/-- **When the check is honest**: outside scheme 8 or with one channel always; otherwise while both the
channel of the address and the channel of the count have room. -/
theorem acceptance_honest_iff (cfg : Config) (hchans : ∃ j, cfg.numChans = 2 ^ j)
    (hunsigned : cfg.numChans < 2 ^ 32) (epochLength : ℕ) (m : MultiChannelMemorySystem)
    (transaction : Transaction) :
    Honest cfg epochLength m transaction ↔ cfg.addressMappingScheme ≠ .scheme8 ∨ cfg.numChans = 1 ∨
      ∀ c, c = (addressMapping cfg transaction.address 0).chan ∨
          (m.transactionCount ≠ 0 ∧ c = m.transactionCount % cfg.numChans) →
        (m.channels c).memoryController.willAcceptTransaction cfg = true := by
  have hadd := addTransaction_eq hchans m transaction
  have hcheck := willAcceptTransactionFor_eq hchans m transaction.address
  constructor
  · rintro ⟨channel, accepted, m', hadd', hcheck', hrefused⟩
    by_contra hnot
    obtain ⟨hscheme, hnot⟩ := not_or.mp hnot
    obtain ⟨hne, hnot⟩ := not_or.mp hnot
    rw [not_not] at hscheme
    rw [hadd] at hadd'
    rw [hcheck] at hcheck'
    cases hadd'
    have hsame := Except.ok.inj hcheck'
    cases hroom :
        (m.channels (nextChannel cfg m transaction.address)).memoryController.willAcceptTransaction cfg with
    | true =>
        rw [hroom] at hsame
        apply hnot
        intro c hc
        rcases hc with rfl | ⟨hcount, rfl⟩
        · exact hsame
        · rw [nextChannel_scheme8 hscheme hne, if_neg hcount] at hroom
          exact hroom
    | false =>
        -- The next call shows that the count has moved on.
        have hreplies := hrefused hroom [.addTransaction { transaction with address := 0 }]
        rw [setChannel_refused hroom, replies, replies, serve, serve, addTransaction_eq hchans,
          addTransaction_eq hchans] at hreplies
        have hchannels := List.head_eq_of_cons_eq (Except.ok.inj hreplies)
        exact nextChannel_counted_ne hscheme hchans hne hunsigned m transaction.address
          (Reply.sent.inj hchannels).1
  · intro hcases
    have hnext (hturns : ¬ (cfg.addressMappingScheme ≠ .scheme8 ∨ cfg.numChans = 1)) :
        (m.channels (addressMapping cfg transaction.address 0).chan).memoryController.willAcceptTransaction
          cfg = true ∧
          (m.channels (nextChannel cfg m transaction.address)).memoryController.willAcceptTransaction cfg =
            true := by
      obtain ⟨hscheme, hne⟩ := not_or.mp hturns
      have hroom := (hcases.resolve_left hscheme).resolve_left hne
      refine ⟨hroom _ (.inl rfl), ?_⟩
      rw [nextChannel_scheme8 (not_not.mp hscheme) hne]
      by_cases hcount : m.transactionCount = 0
      · rw [if_pos hcount]
        exact hroom _ (.inl rfl)
      · rw [if_neg hcount]
        exact hroom _ (.inr ⟨hcount, rfl⟩)
    refine ⟨_, _, _, hadd, ?_, fun hroom calls => ?_⟩
    · rw [hcheck]
      apply congrArg Except.ok
      by_cases hfixed : cfg.addressMappingScheme ≠ .scheme8 ∨ cfg.numChans = 1
      · rw [nextChannel_fixed hchans hfixed]
      · rw [(hnext hfixed).1, (hnext hfixed).2]
    · rw [setChannel_refused hroom]
      by_cases hfixed : cfg.addressMappingScheme ≠ .scheme8 ∨ cfg.numChans = 1
      · exact replies_withCount hchans hfixed calls m _ _
      · rw [(hnext hfixed).2] at hroom
        cases hroom

theorem acceptance_honest_first :
    Honest (ddr2Micron 1 (by decide)) 100000 (init (ddr2Micron 1 (by decide))) ⟨.dataRead, 2048, 0, 0⟩ :=
  (acceptance_honest_iff (ddr2Micron 1 (by decide)) ⟨4, rfl⟩ (by decide) 100000 _ _).mpr
    (.inr (.inr fun _ _ => rfl))

/-- With room for one transaction in each channel: the check looks at the full channel of the address, and the
call takes the next one. -/
theorem acceptance_dishonest :
    ¬ ∀ (cfg : Config) (epochLength : ℕ) (calls : List Call) (m : MultiChannelMemorySystem)
        (transaction : Transaction),
      (∃ j, cfg.numChans = 2 ^ j) → run cfg epochLength calls = .ok m →
      Honest cfg epochLength m transaction := by
  intro h
  have hrun : ∃ m, run { ddr2Micron 1 (by decide) with transQueueDepth := 1 } 100000
      [.addTransaction ⟨.dataRead, 0, 0, 0⟩] = .ok m ∧
        (∃ r, m.addTransaction { ddr2Micron 1 (by decide) with transQueueDepth := 1 }
          ⟨.dataRead, 0, 0, 0⟩ = .ok r ∧
          r.1.2 = true) ∧
        ∃ b, m.willAcceptTransactionFor { ddr2Micron 1 (by decide) with transQueueDepth := 1 } 0 = .ok b ∧
        b = false := by
    decide +kernel
  obtain ⟨m, hm, ⟨r, hadd, haccepted⟩, b, hcheck, rfl⟩ := hrun
  obtain ⟨channel, accepted, m', hadd', hcheck', -⟩ := h _ 100000 _ m ⟨.dataRead, 0, 0, 0⟩ ⟨4, rfl⟩ hm
  rw [hadd] at hadd'
  rw [hcheck] at hcheck'
  cases hadd'
  cases hcheck'
  cases haccepted

end MultiChannelMemorySystem

end RacerArtifacts.Mram
