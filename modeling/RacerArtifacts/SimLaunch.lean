import Mathlib
import RacerArtifacts.SimExecution

/-! The launch of a well-formed program on a fresh chip is its left-to-right reading. -/

namespace RacerArtifacts.Sim

open Charging Numeric

variable {dimx dimy : ℕ} {tab : CostTab}

/-- What the sums of `executeEpoch`'s costs are, with rationals. -/
theorem total_costs_eq {prog : List Instruction} (hwf : Sim.WellFormed (dimx * dimy * 64) tab prog)
    {es : List Epoch} (hes : epochs (dimx * dimy * 64) [] prog = .ok es) :
    total (Epoch.costs dimx dimy tab) es =
      .ok ((es.map fun e => epochLatency tab e.mask e.instructions).sum,
        (es.map fun e => epochEnergy tab e.mask e.instructions).sum) := by
  obtain ⟨es', hes', hepochs⟩ := ReadsOk.epochs_ok hwf
  obtain rfl : es' = es := Except.ok.inj (hes'.symm.trans hes)
  obtain ⟨t, ht, hlatency, henergy, -⟩ := total_tally_ok tab (fun e he => (hepochs e he).1)
    fun e he ins hins => ((hepochs e he).2 ins hins).1
  rw [total_costs (fun e he ins hins => ((hepochs e he).2 ins hins).2) ht, ← hlatency, ← henergy]
  rfl

/-- In an exact arithmetic a launch costs the sums of `executeEpoch`'s costs. -/
theorem exact_costs {N : Type} [Numbers N] {v : N → ℚ} (hv : Exact v) {prog : List Instruction}
    (hwf : Numeric.WellFormed N (dimx * dimy * 64) tab prog) (hend : EndsWell prog) {es : List Epoch}
    (hes : epochs (dimx * dimy * 64) [] prog = .ok es) {m : ℤ} (hm : 1 ≤ m) {c : Numeric.Chip N dimx dimy}
    (hlaunch : (Numeric.Chip.loaded tab prog : Numeric.Chip N dimx dimy).launch 0 m = some (.ok c)) :
    total (Epoch.costs dimx dimy tab) es = .ok (v c.getLatencyCost, v c.getEnergyCost / m) := by
  have hcosts := hv.launchCosts dimx dimy tab prog m
  rw [Numeric.launchCosts, hlaunch, launchCosts_eq (hv.wellFormed hwf) hend hes m] at hcosts
  obtain ⟨hlatency, henergy⟩ := Prod.mk.inj (Except.ok.inj (Option.some.inj hcosts))
  change v c.getLatencyCost = _ at hlatency
  change v c.getEnergyCost = _ at henergy
  rw [total_costs_eq (hv.wellFormed hwf) hes, hlatency, henergy,
    mul_div_cancel_right₀ _ (by exact_mod_cast (by omega : m ≠ 0))]

/-- **The launch refines the left-to-right reading**, in any arithmetic. The launch of a well-formed
program of at least two instructions on a fresh chip terminates. It fails, with an index error of the
fetch, exactly when the last instruction is not of the SET family or the last two both are; otherwise it
leaves what `executeEpoch` leaves of the maximal runs of compute instructions, executed in order, each
under the mask of the configuration instructions before it, and the runs are the compute instructions of
the program in order. In an exact arithmetic its latency and its energy per thread are the sums of
`executeEpoch`'s costs over the runs. -/
theorem launch_refines_reading {N : Type} [Numbers N] {prog : List Instruction}
    (hwf : Numeric.WellFormed N (dimx * dimy * 64) tab prog) (hlen : 2 ≤ prog.length) {m : ℤ} (hm : 1 ≤ m) :
    ∃ r, (Numeric.Chip.loaded tab prog : Numeric.Chip N dimx dimy).launch 0 m = some r ∧
      (r = .error .indexError ↔ BadEnd prog) ∧
      (¬BadEnd prog → ∃ c es, r = .ok c ∧ epochs (dimx * dimy * 64) [] prog = .ok es ∧
        (es.map Epoch.instructions).flatten = prog.filter (!·.isConfig) ∧
        (∃ c', executed N dimx dimy tab prog m es = .ok c' ∧ c = c'.moveTo c.pc c.mask) ∧
        ∀ v : N → ℚ, Exact v →
          total (Epoch.costs dimx dimy tab) es = .ok (v c.getLatencyCost, v c.getEnergyCost / m)) := by
  obtain ⟨es, hes, hepochs⟩ := ReadsOk.epochs_ok hwf
  have hlogs : ∀ e ∈ es, ∃ log, e.charges (epochLog N (dimx * dimy) tab) = .ok log := fun e he =>
    epochLog_ok (hepochs e he).1 fun ins hins => ((hepochs e he).2 ins hins).1
  rcases endsWell_or_badEnd hlen with hend | hend
  · obtain ⟨log, hlog⟩ := exists_total_ok hlogs
    obtain ⟨c', mask, hexecuted, hlaunch⟩ := launch_executes hend hes hlog m
    refine ⟨_, hlaunch, ⟨fun h => (by cases h), fun h => absurd h hend.not_badEnd⟩, fun _ => ?_⟩
    exact ⟨_, es, rfl, hes, epochs_flatten hes, ⟨c', hexecuted, rfl⟩,
      fun v hv => exact_costs hv hwf hend hes hm hlaunch⟩
  · have hrun := drives_of_badEnd hend hlen hes hlogs
    exact ⟨_, launch_loaded hrun m, ⟨fun _ => hend, fun _ => rfl⟩, fun h => absurd hend h⟩

/-- In doubles and exactly. -/
theorem launch_refines_reading_example :
    (∃ c es,
      (Numeric.Chip.loaded exampleTab exampleProg : Numeric.Chip PyNumber 1 1).launch 0 2 = some (.ok c) ∧
      epochs (1 * 1 * 64) [] exampleProg = .ok es ∧
      ∃ c', executed PyNumber 1 1 exampleTab exampleProg 2 es = .ok c' ∧ c = c'.moveTo c.pc c.mask) ∧
    ∃ c es,
      (Numeric.Chip.loaded exampleTab exampleProg : Numeric.Chip Fraction 1 1).launch 0 2 = some (.ok c) ∧
      epochs (1 * 1 * 64) [] exampleProg = .ok es ∧
      total (Epoch.costs 1 1 exampleTab) es =
        .ok (c.getLatencyCost.value, c.getEnergyCost.value / (2 : ℤ)) := by
  have hend := endsWell_exampleProg.not_badEnd
  obtain ⟨r, hr, -, hruns⟩ := @launch_refines_reading 1 1 exampleTab PyNumber _ exampleProg
    (Numeric.wellFormed_exampleProg PyNumber _) (by decide) 2 (by decide)
  obtain ⟨r', hr', -, hruns'⟩ := @launch_refines_reading 1 1 exampleTab Fraction _ exampleProg
    (Numeric.wellFormed_exampleProg Fraction _) (by decide) 2 (by decide)
  obtain ⟨c, es, rfl, hes, -, hexecuted, -⟩ := hruns hend
  obtain ⟨c', es', rfl, hes', -, -, hexact⟩ := hruns' hend
  exact ⟨⟨c, es, hr, hes, hexecuted⟩, c', es', hr', hes', hexact _ exact_fraction⟩

/-- Nine epochs in doubles: each costs 141.5 pJ alone, together they cost a little more than nine
times as much. -/
theorem launch_rounds :
    Numeric.WellFormed PyNumber 64 exampleTab (andEpochs 9) ∧ EndsWell (andEpochs 9) ∧
      ∃ es costs latency energy, epochs 64 [] (andEpochs 9) = .ok es ∧
        (es.mapM fun e => (executed PyNumber 1 1 exampleTab (andEpochs 9) 1 [e]).map Numeric.Chip.costs) =
          .ok costs ∧
        costs = List.replicate 9 (Numbers.float 13.2, Numbers.float 141.5) ∧
        Numeric.launchCosts PyNumber 1 1 exampleTab (andEpochs 9) 1 = some (.ok (latency, energy)) ∧
        energy ≠ Numbers.sum (costs.map Prod.snd) ∧ energy ≠ Numbers.float (9 * 141.5) := by
  refine ⟨wellFormed_andEpochs PyNumber 9, endsWell_andEpochs 8, List.replicate 9 ⟨[0], [and8]⟩, _,
    .double (.ofBits 4638060223745176372), .double (.ofBits 4653315727678242817), ?_, ?_, rfl, ?_, ?_, ?_⟩
  all_goals decide +kernel

end RacerArtifacts.Sim
