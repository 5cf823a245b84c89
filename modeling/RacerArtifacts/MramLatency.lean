import RacerArtifacts.MramWriteData

/-! The service time with one rank. All commands go to one bank group, so that reads come at least a burst
apart and writes do, and everything in flight arrives a fixed time behind its command. -/

namespace RacerArtifacts.Mram

open Fallible MemoryController Pipe

variable {cfg : Config}

/-- The reads of a kind that are done by the end of an update. -/
def due (cfg : Config) (kind : BusPacket → Prop) [DecidablePred kind] (T : ℕ)
    (issued : List (ℕ × BusPacket)) :
    List (ℕ × BusPacket) :=
  (dataOf kind issued).filter fun e => decide (e.1 + cfg.readLine + cfg.burst ≤ T)

theorem due_append (cfg : Config) {kind : BusPacket → Prop} [DecidablePred kind] {T t : ℕ} (p : BusPacket)
    (issued : List (ℕ × BusPacket)) (ht : T < t + cfg.readLine + cfg.burst) :
    due cfg kind T (issued ++ [(t, p)]) = due cfg kind T issued := by
  rw [due, due]
  by_cases hp : kind p
  · have hnot : [(t, p.toData)].filter (fun e => decide (e.1 + cfg.readLine + cfg.burst ≤ T)) = [] :=
      List.filter_cons_of_neg (by rw [decide_eq_true_eq]; exact not_le.mpr ht)
    rw [dataOf_append_self hp, List.filter_append, hnot, List.append_nil]
  · rw [dataOf_append_other hp]

namespace MemorySystem

variable {s s' t : MemorySystem} {sent : List (ℕ × BusPacket)}

/-- A read that is returned, with the cycle in which it is and its address. -/
def answer (cfg : Config) (e : ℕ × BusPacket) : ℕ × BitVec 64 :=
  (e.1 + cfg.tCMD + RL + cfg.burst, e.2.physicalAddress)

/-- With one rank, every read that is done was returned in the cycle in which it was. -/
structure Answered (cfg : Config) (s : MemorySystem) : Prop where
  empty : s.memoryController.returnTransaction = []
  returned_eq : (s.history.returned.map fun e => (e.1, e.2.address)) =
    (due cfg (ReadOf 0) s.memoryController.currentClockCycle s.history.issued).map (answer cfg)

theorem due_arrived {kind : BusPacket → Prop} [DecidablePred kind] {T : ℕ} (h : Arrived T s sent)
    {U : ℕ} (hU : U ≤ T + 1) :
    due cfg kind U s.history.issued = due cfg kind U sent := by
  rcases h with ⟨-, hissued⟩ | ⟨t, p, -, -, htime, hissued⟩
  · rw [hissued]
  · rw [hissued]
    apply due_append cfg p sent
    have := cfg.burst_pos
    rw [Config.readLine, RL]
    omega

theorem Answered.update (hpolicy : cfg.rowBufferPolicy = .closePage) (htCMD : cfg.tCMD = 1)
    (hone : cfg.numRanks = 1) (hcontrol : Control cfg s)
    (hdata : ∀ p, s.memoryController.outgoingDataPacket = some p → p.busPacketType = .data)
    (hflight : InFlight cfg sent s) (h : Answered cfg s) (hupdate : s.update cfg = .ok s') :
    Answered cfg s' := by
  obtain ⟨hflight', hreturns⟩ := hflight.update hpolicy htCMD hcontrol hdata hupdate
  have hclock := update_clock hupdate
  obtain ⟨done, slot, wait, hflow, -⟩ := hflight.pipes 0 (by rw [hone]; exact Nat.one_pos)
  obtain ⟨finished, hnow, hdue⟩ := hflow.due cfg.burst_pos
  have hback : toReturn cfg sent s = finished.toList.map returning := by
    rw [toReturn, h.empty, hone, returningAt, List.range_one, List.flatMap_singleton, hnow, List.nil_append]
  have hdone : due cfg (ReadOf 0) s'.memoryController.currentClockCycle s'.history.issued =
      due cfg (ReadOf 0) s.memoryController.currentClockCycle s.history.issued ++ finished.toList := by
    rw [due_arrived hflight'.arrived (Nat.le_succ _), hclock, due_arrived hflight.arrived le_rfl,
      due_arrived hflight.arrived (Nat.le_succ _)]
    exact hdue
  cases hreturns with
  | nothing hnone hreturn hreturned =>
      refine ⟨hreturn, ?_⟩
      rw [hback, List.map_eq_nil_iff] at hnone
      rw [hdone, hnone, List.append_nil, hreturned]
      exact h.returned_eq
  | @first r rest pending hfirst haddress hreturn hreturned =>
      rw [hback] at hfirst
      cases finished with
      | none => cases hfirst
      | some e =>
          obtain ⟨rfl, rfl⟩ := List.cons.inj hfirst
          refine ⟨hreturn, ?_⟩
          rw [hdone, hreturned, List.map_append, List.map_append, h.returned_eq]
          refine congrArg _ (congrArg (fun x => [x]) (Prod.ext ?_ haddress))
          have hmem : e ∈ (dataOf (ReadOf 0) sent).filter fun e =>
              decide (e.1 + cfg.readLine + cfg.burst = s.memoryController.currentClockCycle + 1) := by
            rw [hnow]
            exact List.mem_singleton_self e
          have htime := of_decide_eq_true (List.mem_filter.mp hmem).2
          rw [Config.readLine] at htime
          show s.memoryController.currentClockCycle = e.1 + cfg.tCMD + RL + cfg.burst
          omega

/-- **With one rank the reads of a run are answered in time.** -/
theorem answered_run (hpolicy : cfg.rowBufferPolicy = .closePage) (htCMD : cfg.tCMD = 1)
    (hone : cfg.numRanks = 1)
    {actions : List Action} (h : run cfg actions = .ok s) : Answered cfg s := by
  induction actions using List.reverseRecOn generalizing s with
  | nil =>
      cases h
      exact ⟨rfl, rfl⟩
  | append_singleton acts action ih =>
      rw [run_concat] at h
      obtain ⟨t, ht, hact⟩ := bind_ok h
      rcases act_ok hact with ⟨-, hupdate⟩ | ⟨hne, hwaits, -⟩
      · obtain ⟨sent, hflight⟩ := inFlight_run hpolicy htCMD ht
        exact (ih ht).update hpolicy htCMD hone (control_run hpolicy htCMD ht)
          (calm_run htCMD ht).1.data hflight hupdate
      · obtain ⟨-, hsame, -⟩ := act_frame hne hact
        refine ⟨hsame.return_eq.trans (ih ht).empty, ?_⟩
        rw [hsame.returned_eq, hwaits.clock_eq, hwaits.issued_eq]
        exact (ih ht).returned_eq

/-- With one rank two reads, or two writes, come a burst apart. -/
theorem Timed.one_rank_spaced {T : ℕ} (htimed : Timed cfg T s) (hone : cfg.numRanks = 1)
    (hranks : ∀ e ∈ s.history.issued, e.2.IsColumn → e.2.rank < cfg.numRanks) :
    (dataOf BusPacket.IsWrite s.history.issued).Pairwise fun e f => e.1 + cfg.burst ≤ f.1 := by
  have hzero : ∀ e ∈ s.history.issued, e.2.IsWrite → e.2.rank = 0 := fun e he hwrite =>
    Nat.lt_one_iff.mp (hone ▸ hranks e he (htimed.isColumn he (.inr hwrite)))
  refine dataOf_pairwise (htimed.ordered.imp_of_mem fun {e f} he hf hlt hew hfw => ?_)
  exact htimed.burst_spaced he hf hlt ((hzero e he hew).trans (hzero f hf hfw).symm) (.inr ⟨hew, hfw⟩)

/-- **The service time.** With one rank the reads are returned in the order of their commands, each exactly
`tCMD + RL + D` cycles behind its command, and each write is reported done exactly `WL + D` cycles behind its
command, whatever else is in flight. -/
theorem service_time (cfg : Config) (hpolicy : cfg.rowBufferPolicy = .closePage) (htCMD : cfg.tCMD = 1)
    (hone : cfg.numRanks = 1) (actions : List Action) (s : MemorySystem) (h : run cfg actions = .ok s) :
    s.history.returned.map (fun e => (e.1, e.2.address)) =
        (s.history.issued.filter fun e => decide (e.2.IsRead ∧
          e.1 + cfg.tCMD + RL + cfg.burst < s.memoryController.currentClockCycle)).map (answer cfg) ∧
      s.history.written =
        (s.history.issued.filter fun e => decide (e.2.IsWrite ∧
          e.1 + WL + cfg.burst < s.memoryController.currentClockCycle)).map fun e =>
            (e.1 + WL + cfg.burst, e.2.toData) := by
  have htimed := (control_run hpolicy htCMD h).timed
  have hranks := issued_ranks hpolicy htCMD h
  constructor
  · have hzero : ∀ e ∈ s.history.issued, e.2.IsRead → e.2.rank = 0 := fun e he hread =>
      Nat.lt_one_iff.mp (hone ▸ hranks e he (htimed.isColumn he (.inl hread)))
    rw [(answered_run hpolicy htCMD hone h).returned_eq, due,
      dataOf_filter fun t => t + cfg.readLine + cfg.burst ≤ s.memoryController.currentClockCycle, dataOf,
      List.filter_filter, List.map_map]
    refine congrArg₂ List.map (funext fun e => rfl) (List.filter_congr fun e he => ?_)
    rw [← Bool.decide_and, decide_eq_decide, Config.readLine]
    constructor
    · rintro ⟨⟨hread, -⟩, htime⟩
      exact ⟨hread, by omega⟩
    · rintro ⟨hread, htime⟩
      exact ⟨⟨hread, hzero e he hread⟩, by omega⟩
  · obtain ⟨done, slot, wait, hflow, -, hwritten⟩ := writesFlow_run h (htimed.one_rank_spaced hone hranks)
    rw [hwritten, hflow.done_eq,
      dataOf_filter fun t => t + writeLine + cfg.burst ≤ s.memoryController.currentClockCycle, dataOf,
      List.filter_filter, List.map_map]
    refine congrArg₂ List.map (funext fun e => rfl) (List.filter_congr fun e he => ?_)
    rw [← Bool.decide_and, decide_eq_decide, writeLine]
    apply and_congr_right
    intro _
    omega

/-- With the devices of the example, over a client that writes and reads: the write of cycle 1 is done
in cycle 10. -/
theorem service_time_ddr2 : ∃ s, run (ddr2Micron 1 (by decide))
    (writeThenRead ++ List.replicate 6 .update) = .ok s ∧
    s.history.issued = writeThenReadIssued 1 13 ∧
    s.history.returned.map (fun e => (e.1, e.2.address)) = [(18, 0)] ∧
    s.history.written.map Prod.fst = [10] := by
  have hrun : ∃ s, run (ddr2Micron 1 (by decide)) (writeThenRead ++ List.replicate 6 .update) = .ok s ∧
      s.history.issued = writeThenReadIssued 1 13 ∧ s.memoryController.currentClockCycle = 20 := by
    decide +kernel
  obtain ⟨s, hs, hissued, hclock⟩ := hrun
  obtain ⟨hreads, hwrites⟩ := service_time _ rfl rfl rfl _ s hs
  rw [hissued, hclock] at hreads hwrites
  refine ⟨s, hs, hissued, ?_, ?_⟩
  · rw [hreads]
    decide
  · rw [hwrites]
    decide

end MemorySystem

end RacerArtifacts.Mram
