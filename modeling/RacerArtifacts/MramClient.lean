import RacerArtifacts.MramCapacity
import RacerArtifacts.MramClock
import RacerArtifacts.MramProjection

/-! The memory system as its client sees it: the client updates it at its own clock, and the clock domain
crosser says how often the channels are updated. A client's run is a run of the channels with those updates in
it, and every clock in it is where the client's clock puts it. -/

namespace RacerArtifacts.Mram

/-- The ways a client's run ends: those of the channels, and a loop of the crosser without an end. -/
inductive ClientExit where
  | loopDoesNotEnd
  | memory (exit : ChannelExit)
  deriving DecidableEq, Repr

/-- The memory system with its crosser, a field of it in the source. -/
structure ClockedMemorySystem where
  clockDomainCrosser : ClockDomainCrosser
  memorySystem : MultiChannelMemorySystem

namespace ClockedMemorySystem

open MultiChannelMemorySystem (Call Reply)

def init (cfg : Config) : ClockedMemorySystem :=
  { clockDomainCrosser := ClockDomainCrosser.init, memorySystem := MultiChannelMemorySystem.init cfg }

/-- The clock of the memory, which comes out of a floating-point quotient, is an argument here. A clock of 0
asks for a ratio of 1:1. -/
def setCPUClockSpeed (dramsimClkFreqHz cpuClkFreqHz : BitVec 64) (s : ClockedMemorySystem) :
    ClockedMemorySystem :=
  { s with clockDomainCrosser := { s.clockDomainCrosser with
      clock1 := dramsimClkFreqHz
      clock2 := if cpuClkFreqHz = 0 then dramsimClkFreqHz else cpuClkFreqHz } }

variable (cfg : Config) (epochLength : ℕ) (s : ClockedMemorySystem)

/-- The client's update. -/
def update : Except ClientExit ClockedMemorySystem :=
  (s.clockDomainCrosser.update (fun m => (m.update cfg epochLength).mapError .memory) .loopDoesNotEnd
    s.memorySystem).map fun (c, m) => { clockDomainCrosser := c, memorySystem := m }

/-- A call of the client, with an update at its clock. -/
def serve : Call → Except ClientExit ClockedMemorySystem
  | .update => s.update cfg epochLength
  | call => ((s.memorySystem.serve cfg epochLength call).mapError .memory).map fun (_, m) =>
      { s with memorySystem := m }

/-- The run of a client's calls, once it has set the clocks. -/
def run (dramsimClkFreqHz cpuClkFreqHz : BitVec 64) (calls : List Call) :
    Except ClientExit ClockedMemorySystem :=
  calls.foldlM (fun s call => s.serve cfg epochLength call)
    ((init cfg).setCPUClockSpeed dramsimClkFreqHz cpuClkFreqHz)

/-- The calls that reach the channels, behind `k` updates of the client. -/
def memoryCalls (clock1 clock2 : BitVec 64) : ℕ → List Call → List Call
  | _, [] => []
  | k, .update :: calls =>
      List.replicate (ClockDomainCrosser.ticks clock1 clock2 (k + 1) -
        ClockDomainCrosser.ticks clock1 clock2 k) .update ++
        memoryCalls clock1 clock2 (k + 1) calls
  | k, call :: calls => call :: memoryCalls clock1 clock2 k calls

end ClockedMemorySystem

namespace MemorySystem

open Fallible

variable {cfg : Config} {s s' t : MemorySystem}

/-- The clocks of a memory system, its controller and its ranks. -/
structure ClocksAt (T : ℕ) (s : MemorySystem) : Prop where
  system_eq : s.currentClockCycle = T
  controller_eq : s.memoryController.currentClockCycle = T
  ranks_eq : ∀ i, (s.ranks i).currentClockCycle = T

theorem ClocksAt.of_same {T : ℕ} (h : ClocksAt T s) (hsystem : t.currentClockCycle = s.currentClockCycle)
    (hcontroller : t.memoryController.currentClockCycle = s.memoryController.currentClockCycle)
    (hranks : ∀ i, (t.ranks i).currentClockCycle = (s.ranks i).currentClockCycle) : ClocksAt T t where
  system_eq := hsystem.trans h.system_eq
  controller_eq := hcontroller.trans h.controller_eq
  ranks_eq := fun i => (hranks i).trans (h.ranks_eq i)

theorem rank_clock {rank rank' : Rank} {received : Option BusPacket}
    (h : rank.update cfg = .ok (received, rank')) :
    rank'.currentClockCycle = rank.currentClockCycle := by
  obtain ⟨rank₁, hstart, heq⟩ := map_ok h
  cases heq
  have hsend : rank.sendData.2.currentClockCycle = rank.currentClockCycle := by
    rw [Rank.sendData]
    split
    · rfl
    · dsimp only
      split_ifs <;> rfl
  rw [← hsend]
  rw [Rank.startData] at hstart
  split at hstart <;> cases hstart <;> rfl

theorem receive_clock (ranks : ℕ → Rank) (p : BusPacket) (i : ℕ) :
    (receive ranks p i).currentClockCycle = (ranks i).currentClockCycle := by
  rw [receive]
  split_ifs
  · by_cases hi : i = p.rank
    · subst hi
      rw [Function.update_self]
      rfl
    · rw [Function.update_of_ne hi]
  · rfl

theorem ClocksAt.update {T : ℕ} (h : ClocksAt T s) (hupdate : s.update cfg = .ok s') :
    ClocksAt (T + 1) s' := by
  obtain ⟨s₁, s₂, s₃, s₄, s₅, s₆, s₇, h₁, h₂, h₃, h₄, h₅, h₆, h₇, rfl⟩ := update_ok hupdate
  have hranks : ClocksAt T s₁ := by
    refine foldlM_range_ok (P := fun _ t => ClocksAt T t) h (fun i _ t t' ht hstep => ?_) h₁
    obtain ⟨received, rank, hrank, hcases⟩ := updateRank_ok hstep
    have hclock : ∀ j, (Function.update t.ranks i rank j).currentClockCycle =
        (t.ranks j).currentClockCycle := by
      intro j
      by_cases hj : j = i
      · subst hj
        rw [Function.update_self]
        exact rank_clock hrank
      · rw [Function.update_of_ne hj]
    rcases hcases with ⟨-, rfl⟩ | ⟨p, reads, -, rfl⟩
    · exact ht.of_same rfl rfl hclock
    · exact ht.of_same rfl rfl hclock
  have hcommand : ClocksAt T s₂ := by
    have hpending : ClocksAt T (s₁.takePending cfg).idleBanks := by
      obtain ⟨taken, pending, -, htaken⟩ := takePending_eq cfg s₁
      rw [htaken]
      exact hranks.of_same rfl rfl fun _ => rfl
    rcases sendCommand_ok h₂ with ⟨-, rfl⟩ | ⟨p, left, -, -, ⟨-, rfl⟩ | ⟨-, ranks, hpipes, rfl⟩⟩
    · exact hpending
    · exact hpending.of_same rfl rfl fun _ => rfl
    · exact hpending.of_same rfl rfl fun i => (hpipes.clock_eq i).trans (receive_clock _ p i)
  have hwrite : ClocksAt T s₃ := by
    rcases sendWriteData_ok h₃ with ⟨-, rfl⟩ | ⟨p, left, -, -, ⟨-, rfl⟩ | ⟨-, ranks, hpipes, rfl⟩⟩
    · exact hcommand
    · exact hcommand.of_same rfl rfl fun _ => rfl
    · exact hcommand.of_same rfl rfl fun i => (hpipes.clock_eq i).trans (receive_clock _ p i)
  have hrefresh : ClocksAt T (s₄.checkRefresh cfg) := by
    obtain ⟨mc, hmc, rfl⟩ := map_ok h₄
    have hstarted : ClocksAt T { s₃ with memoryController := mc } := by
      rcases MemoryController.startWriteData_ok hmc with ⟨-, -, heq⟩ | ⟨_, _, _, _, _, -, -, -, rfl⟩
      · rw [heq]
        exact hwrite.of_same rfl rfl fun _ => rfl
      · exact hwrite.of_same rfl rfl fun _ => rfl
    obtain ⟨ranks, waiting, rank, countdown, next, hpipes, heq⟩ :=
      checkRefresh_eq cfg { s₃ with memoryController := mc }
    rw [heq]
    exact hstarted.of_same rfl rfl hpipes.clock_eq
  have hpopped : ClocksAt T s₅ := by
    obtain ⟨found, cq, -, ⟨-, rfl⟩ | ⟨p, _, _, _, _, -, -, -, rfl⟩⟩ := popCommand_split h₅
    · exact hrefresh.of_same rfl rfl fun _ => rfl
    · exact hrefresh.of_same rfl rfl fun _ => rfl
  have hscheduled : ClocksAt T s₆ := by
    obtain ⟨mc, hmc, rfl⟩ := map_ok h₆
    rcases MemoryController.scheduleFrom_split (fun x hx => by cases hx) rfl hmc with
      ⟨rfl, -⟩ | ⟨before, x, rest, bpType, -, -, -, -, rfl⟩
    · exact hpopped.of_same rfl rfl fun _ => rfl
    · exact hpopped.of_same rfl rfl fun _ => rfl
  have hreturned : ClocksAt T s₇ := by
    obtain ⟨⟨returned, mc⟩, hmc, rfl⟩ := map_ok h₇
    rcases MemoryController.returnData_ok hmc with
      ⟨-, rfl, rfl⟩ | ⟨_, _, _, _, _, _, _, _, -, -, -, -, rfl, rfl⟩
    · exact hscheduled.of_same rfl rfl fun _ => rfl
    · exact hscheduled.of_same rfl rfl fun _ => rfl
  exact ⟨congrArg (· + 1) hreturned.system_eq, congrArg (· + 1) hreturned.controller_eq,
    fun i => congrArg (· + 1) (hreturned.ranks_eq i)⟩

theorem clocksAt_run {actions : List Action} (h : run cfg actions = .ok s) :
    ClocksAt (actions.count .update) s := by
  induction actions using List.reverseRecOn generalizing s with
  | nil =>
      cases h
      exact ⟨rfl, rfl, fun _ => rfl⟩
  | append_singleton actions action ih =>
      rw [run_concat] at h
      obtain ⟨t, ht, hact⟩ := bind_ok h
      have hclocks := ih ht
      rw [List.count_append, List.count_singleton]
      cases action with
      | update => exact hclocks.update hact
      | addTransaction transaction =>
          obtain ⟨taken, -, htaken⟩ := addTransaction_eq cfg t transaction
          cases hact
          rw [htaken]
          exact hclocks.of_same rfl rfl fun _ => rfl
      | request isWrite addr =>
          obtain ⟨taken, pending, -, htaken⟩ := request_eq cfg t isWrite addr
          cases hact
          rw [htaken]
          exact hclocks.of_same rfl rfl fun _ => rfl
      | resetStats =>
          cases hact
          exact hclocks.of_same rfl rfl fun _ => rfl

end MemorySystem

namespace MultiChannelMemorySystem

variable {cfg : Config} {epochLength : ℕ} {m : MultiChannelMemorySystem}

theorem count_update_projection (cfg : Config) (epochLength c : ℕ) (calls : List Call) (count cycle : ℕ) :
    (projection cfg epochLength c count cycle calls).count .update = (calls.map Call.cycles).sum := by
  induction calls generalizing count cycle with
  | nil => rfl
  | cons call calls ih =>
      rw [projection, List.count_append, ih, List.map_cons, List.sum_cons]
      congr 1
      cases call with
      | addTransaction transaction =>
          rw [Call.actions]
          split_ifs <;> rfl
      | request isWrite addr =>
          rw [Call.actions]
          split_ifs <;> rfl
      | update =>
          rw [Call.actions]
          split_ifs <;> rfl
      | willAcceptTransactionFor addr => rfl
      | willAcceptTransaction => rfl
      | printStats => rfl

theorem clocks_run (hchans : ∃ j, cfg.numChans = 2 ^ j) (hepoch : 0 < epochLength) {calls : List Call}
    (h : run cfg epochLength calls = .ok m) : m.currentClockCycle = (calls.map Call.cycles).sum ∧
      ∀ c < cfg.numChans, MemorySystem.ClocksAt (calls.map Call.cycles).sum (m.channels c) := by
  obtain ⟨hcounted, hchannels⟩ := (serves_iff hchans hepoch calls (Counted.init cfg)).2 m h
  refine ⟨hcounted.clock_eq.trans (Nat.zero_add _), fun c hc => ?_⟩
  have hclocks := MemorySystem.clocksAt_run (hchannels c hc)
  rwa [count_update_projection] at hclocks

end MultiChannelMemorySystem

namespace ClockedMemorySystem

open Fallible Pacing

open MultiChannelMemorySystem (Call)

variable {cfg : Config} {epochLength : ℕ} {clock1 clock2 : BitVec 64} {s : ClockedMemorySystem}

/-- The run of the channels from a state, with its failures as the client sees them. -/
def memoryRun (cfg : Config) (epochLength : ℕ) (m : MultiChannelMemorySystem) (calls : List Call) :
    Except ClientExit MultiChannelMemorySystem :=
  (calls.foldlM (fun m call => (MultiChannelMemorySystem.serve cfg epochLength m call).map Prod.snd)
    m).mapError .memory

theorem memoryRun_append (m : MultiChannelMemorySystem) (calls calls' : List Call) :
    memoryRun cfg epochLength m (calls ++ calls') =
      memoryRun cfg epochLength m calls >>= fun m => memoryRun cfg epochLength m calls' := by
  rw [memoryRun, List.foldlM_append, bind_mapError]
  rfl

theorem memoryRun_updates (m : MultiChannelMemorySystem) (n : ℕ) :
    memoryRun cfg epochLength m (List.replicate n .update) =
      times (fun m => (m.update cfg epochLength).mapError ClientExit.memory) n m := by
  rw [memoryRun, foldlM_replicate, times_mapError]
  congr 2
  funext m
  rw [MultiChannelMemorySystem.serve]
  cases m.update cfg epochLength <;> rfl

theorem serve_of_ne {call : Call} (hcall : call ≠ .update) (s : ClockedMemorySystem) :
    s.serve cfg epochLength call =
      (memoryRun cfg epochLength s.memorySystem [call]).map fun m => { s with memorySystem := m } := by
  have hone : s.serve cfg epochLength call =
      ((s.memorySystem.serve cfg epochLength call).mapError .memory).map fun r =>
      { s with memorySystem := r.2 } := by
    cases call with
    | update => exact absurd rfl hcall
    | _ => rfl
  rw [hone, memoryRun, List.foldlM_cons]
  cases s.memorySystem.serve cfg epochLength call <;> rfl

theorem serves_eq (hpos : clock2 ≠ 0) (hkeeps : clock1 = clock2 ∨ Nat.lcm clock1.toNat clock2.toNat < 2 ^ 64)
    (calls : List Call) {k : ℕ} (s : ClockedMemorySystem)
    (hpaced : ClockDomainCrosser.Paced clock1 clock2 k s.clockDomainCrosser) :
    ∃ c, calls.foldlM (fun s call => serve cfg epochLength s call) s =
      (memoryRun cfg epochLength s.memorySystem (memoryCalls clock1 clock2 k calls)).map
      (ClockedMemorySystem.mk c) := by
  induction calls generalizing k s with
  | nil => exact ⟨s.clockDomainCrosser, rfl⟩
  | cons call calls ih =>
      by_cases hcall : call = .update
      · subst hcall
        obtain ⟨c₁, hpaced', hupdate⟩ := hpaced.update hpos hkeeps
        have hserve : s.serve cfg epochLength .update =
            (memoryRun cfg epochLength s.memorySystem (List.replicate
            (ClockDomainCrosser.ticks clock1 clock2 (k + 1) -
              ClockDomainCrosser.ticks clock1 clock2 k) .update)).map
              (ClockedMemorySystem.mk c₁) := by
          rw [memoryRun_updates]
          change s.update cfg epochLength = _
          rw [update, hupdate]
          cases times _ _ s.memorySystem <;> rfl
        rw [List.foldlM_cons, hserve, memoryCalls, memoryRun_append]
        exact exists_map_bind c₁ fun m => ih ⟨c₁, m⟩ hpaced'
      · have hcalls : memoryCalls clock1 clock2 k (call :: calls) =
            [call] ++ memoryCalls clock1 clock2 k calls := by
          cases call with
          | update => exact absurd rfl hcall
          | _ => rfl
        rw [List.foldlM_cons, serve_of_ne hcall, hcalls, memoryRun_append]
        exact exists_map_bind s.clockDomainCrosser fun m => ih ⟨s.clockDomainCrosser, m⟩ hpaced

/-- The clock of the client that the crosser is given. -/
def clientClock (dramsimClkFreqHz cpuClkFreqHz : BitVec 64) : BitVec 64 :=
  if cpuClkFreqHz = 0 then dramsimClkFreqHz else cpuClkFreqHz

section Runs

variable {dramsimClkFreqHz cpuClkFreqHz : BitVec 64} (hclock : dramsimClkFreqHz ≠ 0)
  (hkeeps : cpuClkFreqHz = 0 ∨ dramsimClkFreqHz = cpuClkFreqHz ∨
    Nat.lcm dramsimClkFreqHz.toNat cpuClkFreqHz.toNat < 2 ^ 64)

include hclock in
theorem clientClock_ne_zero : clientClock dramsimClkFreqHz cpuClkFreqHz ≠ 0 := by
  rw [clientClock]
  split_ifs with hzero
  · exact hclock
  · exact hzero

include hkeeps in
theorem clientClock_keeps : dramsimClkFreqHz = clientClock dramsimClkFreqHz cpuClkFreqHz ∨
    Nat.lcm dramsimClkFreqHz.toNat (clientClock dramsimClkFreqHz cpuClkFreqHz).toNat < 2 ^ 64 := by
  rw [clientClock]
  split_ifs with hzero
  · exact .inl rfl
  · exact hkeeps.resolve_left hzero

end Runs

/-- **A client's run** is the run of the channels with as many of their updates in it as keep up with the
client's clock: it ends in the same state of the channels, or in the same way. -/
theorem client_run (cfg : Config) (epochLength : ℕ) (dramsimClkFreqHz cpuClkFreqHz : BitVec 64)
    (hclock : dramsimClkFreqHz ≠ 0)
    (hkeeps : cpuClkFreqHz = 0 ∨ dramsimClkFreqHz = cpuClkFreqHz ∨
      Nat.lcm dramsimClkFreqHz.toNat cpuClkFreqHz.toNat < 2 ^ 64)
    (calls : List Call) :
    ∃ c, run cfg epochLength dramsimClkFreqHz cpuClkFreqHz calls =
      ((MultiChannelMemorySystem.run cfg epochLength (memoryCalls dramsimClkFreqHz
        (clientClock dramsimClkFreqHz cpuClkFreqHz) 0 calls)).mapError ClientExit.memory).map
          (ClockedMemorySystem.mk c) :=
  serves_eq (clientClock_ne_zero hclock) (clientClock_keeps hkeeps) calls
    ((init cfg).setCPUClockSpeed dramsimClkFreqHz cpuClkFreqHz)
    (ClockDomainCrosser.paced_ofClocks (clientClock_ne_zero hclock))

/-- A client at 2.4 GHz reads an address and updates a memory with cycles of 3 ns. -/
def readAtClient : List Call :=
  .request false 0 :: List.replicate 8 .update

theorem client_run_ddr2 : ∃ c, run (ddr2Micron 1 (by decide)) 100000 333333333 2400000000 readAtClient =
    ((MultiChannelMemorySystem.run (ddr2Micron 1 (by decide)) 100000 (memoryCalls 333333333
      (clientClock 333333333 2400000000) 0 readAtClient)).mapError ClientExit.memory).map
        (ClockedMemorySystem.mk c) :=
  client_run (ddr2Micron 1 (by decide)) 100000 333333333 2400000000 (by decide)
    (.inr (.inr (by decide))) readAtClient

/-- The updates of the channels in a client's run keep up with its clock. -/
theorem cycles_memoryCalls (hpos : clock2 ≠ 0) (k : ℕ) (calls : List Call) :
    ((memoryCalls clock1 clock2 k calls).map Call.cycles).sum =
      ClockDomainCrosser.ticks clock1 clock2 (k + calls.count .update) -
      ClockDomainCrosser.ticks clock1 clock2 k := by
  induction calls generalizing k with
  | nil => exact (Nat.sub_self _).symm
  | cons call calls ih =>
      by_cases hcall : call = .update
      · subst hcall
        have hfirst : ClockDomainCrosser.ticks clock1 clock2 k ≤
            ClockDomainCrosser.ticks clock1 clock2 (k + 1) :=
          ClockDomainCrosser.ticks_mono hpos (Nat.le_succ k)
        have hrest : ClockDomainCrosser.ticks clock1 clock2 (k + 1) ≤
            ClockDomainCrosser.ticks clock1 clock2 (k + 1 + calls.count Call.update) :=
          ClockDomainCrosser.ticks_mono hpos (Nat.le_add_right _ _)
        rw [memoryCalls, List.map_append, List.sum_append, ih, List.map_replicate, List.sum_replicate,
          List.count_cons_self, show k + (calls.count Call.update + 1) =
            k + 1 + calls.count Call.update by omega]
        change _ • 1 + _ = _
        rw [smul_eq_mul, Nat.mul_one]
        omega
      · have hcalls : memoryCalls clock1 clock2 k (call :: calls) =
            call :: memoryCalls clock1 clock2 k calls := by
          cases call with
          | update => exact absurd rfl hcall
          | _ => rfl
        have hcycles : call.cycles = 0 := by
          cases call with
          | update => exact absurd rfl hcall
          | _ => rfl
        rw [hcalls, List.map_cons, List.sum_cons, hcycles, Nat.zero_add, ih, List.count_cons_of_ne hcall]

/-- **The clocks of a client's run.** Behind `k` updates of the client every clock of the memory system, of
each channel, its controller and its ranks, is at `k` ticks of the client's clock in its own, rounded up. -/
theorem client_clocks (cfg : Config) (hchans : ∃ j, cfg.numChans = 2 ^ j) (epochLength : ℕ)
    (hepoch : 0 < epochLength) (dramsimClkFreqHz cpuClkFreqHz : BitVec 64)
    (hclock : dramsimClkFreqHz ≠ 0)
    (hkeeps : cpuClkFreqHz = 0 ∨ dramsimClkFreqHz = cpuClkFreqHz ∨
      Nat.lcm dramsimClkFreqHz.toNat cpuClkFreqHz.toNat < 2 ^ 64)
    (calls : List Call) (s : ClockedMemorySystem)
    (h : run cfg epochLength dramsimClkFreqHz cpuClkFreqHz calls = .ok s) :
    s.memorySystem.currentClockCycle = calls.count .update * dramsimClkFreqHz.toNat ⌈/⌉
        (clientClock dramsimClkFreqHz cpuClkFreqHz).toNat ∧
      ∀ c < cfg.numChans, MemorySystem.ClocksAt (calls.count .update * dramsimClkFreqHz.toNat ⌈/⌉
        (clientClock dramsimClkFreqHz cpuClkFreqHz).toNat) (s.memorySystem.channels c) := by
  have hpos : clientClock dramsimClkFreqHz cpuClkFreqHz ≠ 0 := clientClock_ne_zero hclock
  obtain ⟨c, hc⟩ : ∃ c, run cfg epochLength dramsimClkFreqHz cpuClkFreqHz calls = (memoryRun cfg epochLength _
      (memoryCalls dramsimClkFreqHz (clientClock dramsimClkFreqHz cpuClkFreqHz) 0 calls)).map (mk c) :=
    serves_eq hpos (clientClock_keeps hkeeps) calls
      ((init cfg).setCPUClockSpeed dramsimClkFreqHz cpuClkFreqHz)
      (ClockDomainCrosser.paced_ofClocks hpos)
  obtain ⟨m, hm, rfl⟩ := map_ok (hc.symm.trans h)
  have hclocks := MultiChannelMemorySystem.clocks_run hchans hepoch (mapError_ok hm)
  rw [cycles_memoryCalls hpos, Nat.zero_add, ClockDomainCrosser.ticks, ClockDomainCrosser.ticks, Nat.zero_mul,
    zero_ceilDiv, Nat.sub_zero] at hclocks
  exact hclocks

theorem client_clocks_ddr2 : ∃ s, run
    (ddr2Micron 1 (by decide)) 100000 333333333 2400000000 readAtClient = .ok s ∧
    s.memorySystem.currentClockCycle = 8 * 333333333 ⌈/⌉ 2400000000 := by
  have hrun : ∃ s, run (ddr2Micron 1 (by decide)) 100000 333333333 2400000000 readAtClient =
      .ok s ∧ True := by
    decide +kernel
  obtain ⟨s, hs, -⟩ := hrun
  exact ⟨s, hs, (client_clocks (ddr2Micron 1 (by decide)) ⟨4, rfl⟩ 100000
    (by decide) 333333333 2400000000 (by decide)
    (.inr (.inr (by decide))) readAtClient s hs).1⟩

end ClockedMemorySystem

end RacerArtifacts.Mram
