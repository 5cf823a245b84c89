import Mathlib
import RacerArtifacts.SimConcat

/-! A second program after a reset. `reset` empties the attribute `instructions`, which nothing reads, and
not `instructionMemory`; it leaves the mask and the bus counters as well. The second program is therefore
loaded behind the first, and its launch runs both. -/

namespace RacerArtifacts.Sim

open Charging

variable {dimx dimy : ℕ} {tab : CostTab}

/-- The costs of `Q` on a chip that has launched `P` and was reset. -/
def resetCosts (dimx dimy : ℕ) (tab : CostTab) (P Q : List Instruction) (m' m : ℤ) :
    Option (Except PyError (ℚ × ℚ)) :=
  match (Chip.loaded tab P : Chip dimx dimy).launch 0 m' with
  | some (.ok c) => ((c.reset.append Q).launch 0 m).map (·.map Chip.costs)
  | some (.error e) => some (.error e)
  | none => none

/-- After the reset the second launch runs both programs, from the mask the first one left, with the bus
counters the first one left. -/
theorem resetCosts_eq {P Q : List Instruction} {mask : List ℤ} {rest : List Instruction}
    {t : Tally (dimx * dimy)} (hP : Drives (dimx * dimy * 64) (epochTally (dimx * dimy) tab) [] P
      (.ok (mask, t, rest)))
    {r : Except PyError (List ℤ × Tally (dimx * dimy) × List Instruction)}
    (hPQ : Drives (dimx * dimy * 64) (epochTally (dimx * dimy) tab) mask (P ++ Q) r) (m' m : ℤ) :
    ∃ c : Chip dimx dimy, c.multithread = m ∧ (t.transfers = 0 → Chip.Blank tab c) ∧
      resetCosts dimx dimy tab P Q m' m = some (r.map fun p => (p.2.1 +ᵥ c).costs) := by
  let c : Chip dimx dimy :=
    (t +ᵥ { (Chip.loaded tab P : Chip dimx dimy) with multithread := m' }.seek mask rest).reset.append Q
  refine ⟨{ c with multithread := m }, rfl, fun htransfers => ?_, ?_⟩
  · obtain ⟨hlocal, hglobal⟩ := Prod.mk.inj htransfers
    refine ⟨rfl, rfl, rfl, funext fun i => ?_, ?_⟩
    · change Cluster.mk (fun _ => ⟨0⟩)
        { (MemBus.init tab.localMemBusTab) with transferCount := 0 + t.localTransfers i } = Cluster.init tab
      rw [hlocal]
      rfl
    · change { (MemBus.init tab.globalMemBusTab) with transferCount := 0 + t.globalTransfers } = MemBus.init _
      rw [hglobal]
      rfl
  · have hlaunch := Chip.launch_eq (c := c) rfl m hPQ
    rw [resetCosts, Chip.launch_loaded hP]
    change (c.launch 0 m).map _ = _
    rw [hlaunch]
    cases r with
    | error e => rfl
    | ok p => rfl

/-- With a single compute instruction behind it, a program that is not empty no longer launches. -/
theorem drives_append_compute_ne_ok {n : ℕ} {mask : List ℤ} {P : List Instruction} (hP : P ≠ [])
    {ins : Instruction} (hins : ins.isConfig = false)
    {r : Except PyError (List ℤ × Tally n × List Instruction)}
    (h : Drives (n * 64) (epochTally n tab) mask (P ++ [ins]) r) : ∃ e, r = .error e := by
  cases r with
  | error e => exact ⟨e, rfl⟩
  | ok q =>
      obtain ⟨mask', t, rest⟩ := q
      have hlen : 1 < (P ++ [ins]).length := by
        have := List.length_pos_iff.mpr hP
        rw [List.length_append, List.length_singleton]
        omega
      obtain ⟨p, last, hlast, -, hconfig⟩ := h.ok_rest hlen
      obtain ⟨-, hsame⟩ := List.append_inj' hlast rfl
      cases hsame
      rw [hins] at hconfig
      cases hconfig

theorem resetCosts_nil (Q : List Instruction) (m' m : ℤ) :
    resetCosts dimx dimy tab [] Q m' m = launchCosts dimx dimy tab Q m := by
  obtain ⟨r, hr⟩ := Drives.exists_outcome (dimx * dimy * 64) (epochTally (dimx * dimy) tab) [] Q
  obtain ⟨c, hthreads, hblank, hcosts⟩ := resetCosts_eq (Drives.stop (Nat.zero_le _)) (P := []) hr m' m
  rw [hcosts, launchCosts_of_drives hr m]
  cases r with
  | error e => rfl
  | ok p =>
      refine congrArg some (congrArg Except.ok ?_)
      change (p.2.1 +ᵥ c).costs = _
      rw [Chip.costs, (hblank rfl).getLatencyCost, (hblank rfl).getEnergyCost, hthreads]

/-- A well-formed program can be read again from the mask that all but its last instruction make. -/
theorem WellFormed.exists_rerun {units : ℕ} {P p : List Instruction} {last : Instruction}
    (hwf : WellFormed units tab P) (hsplit : P = p ++ [last]) :
    ∃ mask es, maskAfter units [] p = .ok mask ∧ epochs units mask P = .ok es ∧
      ∀ e ∈ es, (∀ id ∈ e.mask, InRange units id) ∧ ∀ ins ∈ e.instructions, ComputeOk tab ins := by
  obtain ⟨-, mask, hmask, hrange, -⟩ := ReadsOk.split (hsplit ▸ hwf) fun id hid => by cases hid
  obtain ⟨es, hes, hepochs⟩ := (ReadsOk.mono hwf (List.nil_subperm (l := mask))).epochs_ok_from hrange
  exact ⟨mask, es, hmask, hes, fun e he => ⟨(hepochs e he).1, fun ins hins => ((hepochs e he).2 ins hins).1⟩⟩

/-- What the second launch costs: the second program's own costs, and those of the first program run once
more from the mask it left. -/
theorem resetCosts_of_wellFormed {P p Q : List Instruction} {last : Instruction}
    (hwf : WellFormed (dimx * dimy * 64) tab P) (hend : EndsWell P) (hsplit : P = p ++ [last])
    (hlast : last.opCode = "UNSETALL") {mask : List ℤ} (hmask : maskAfter (dimx * dimy * 64) [] p = .ok mask)
    {es : List Epoch} (hes : epochs (dimx * dimy * 64) mask P = .ok es)
    (hepochs : ∀ e ∈ es, (∀ id ∈ e.mask, InRange (dimx * dimy * 64) id) ∧ ∀ ins ∈ e.instructions,
      ComputeOk tab ins)
    {m : ℤ} {b : ℚ × ℚ} (hlen : 2 ≤ Q.length) (hQ : launchCosts dimx dimy tab Q m = some (.ok b)) (m' : ℤ) :
    resetCosts dimx dimy tab P Q m' m =
      some (.ok (((es.map fun e => epochLatency tab e.mask e.instructions).sum,
        (es.map fun e => epochEnergy tab e.mask e.instructions).sum * m) + b)) := by
  obtain ⟨es₀, hes₀, hepochs₀⟩ := ReadsOk.epochs_ok hwf
  obtain ⟨t₀, ht₀, -, -, htransfers⟩ := total_tally_ok tab (fun e he => (hepochs₀ e he).1)
    fun e he ins hins => ((hepochs₀ e he).2 ins hins).1
  obtain ⟨mask₀, last₀, hrun₀⟩ := tallies_of_endsWell tab hend hes₀
  rw [ht₀] at hrun₀
  obtain ⟨q, hq, hmask₀⟩ := hrun₀.maskAfter
  obtain ⟨rfl, -⟩ := List.append_inj' (hsplit.symm.trans hq) rfl
  obtain rfl : mask₀ = mask := Except.ok.inj (hmask₀.symm.trans hmask)
  obtain ⟨t, ht, hlatency, henergy, -⟩ :=
    total_tally_ok tab (fun e he => (hepochs e he).1) fun e he => (hepochs e he).2
  obtain ⟨mask₁, last₁, hrun⟩ := tallies_of_endsWell tab hend hes
  rw [ht] at hrun
  obtain ⟨p₁, hp₁, -⟩ := hrun.maskAfter
  obtain ⟨-, hsame⟩ := List.append_inj' (hsplit.symm.trans hp₁) rfl
  cases hsame
  obtain ⟨maskQ, u, restQ, hrunQ, rfl⟩ := drives_of_launchCosts hQ
  have hboth := hrun.append hend.two_le_length (hrunQ.unsetall hlast hlen mask₁)
  obtain ⟨c, hthreads, hblank, hcosts⟩ := resetCosts_eq hrun₀ hboth m' m
  rw [hcosts, ← hlatency, ← henergy]
  refine congrArg some (congrArg Except.ok ?_)
  change ((t + u) +ᵥ c).costs = _
  rw [Chip.costs, (hblank htransfers).getLatencyCost, (hblank htransfers).getEnergyCost, hthreads,
    Tally.latencyCost_add, Tally.energyCost_add, add_mul, Prod.mk_add_mk]

/-- A lone compute instruction is never reached on a fresh chip, and fails behind any other program. -/
theorem reset_breaks_shift {P : List Instruction} {m' : ℤ} {a : ℚ × ℚ} (hne : P ≠ [])
    (hP : launchCosts dimx dimy tab P m' = some (.ok a)) (m : ℤ) :
    launchCosts dimx dimy tab [shift] m = some (.ok (0, 0)) ∧
      ∃ e, resetCosts dimx dimy tab P [shift] m' m = some (.error e) := by
  have hQ : Drives (dimx * dimy * 64) (epochTally (dimx * dimy) tab) [] [shift] (.ok ([], 0, [shift])) :=
    Drives.stop le_rfl
  obtain ⟨mask, t, rest, hrun, -⟩ := drives_of_launchCosts hP
  obtain ⟨r, hr⟩ := Drives.exists_outcome (dimx * dimy * 64) (epochTally (dimx * dimy) tab) mask
      (P ++ [shift])
  obtain ⟨e, rfl⟩ := drives_append_compute_ne_ok hne (by decide) hr
  obtain ⟨c, -, -, hcosts⟩ := resetCosts_eq hrun hr m' m
  refine ⟨?_, e, hcosts⟩
  rw [launchCosts_of_drives hQ m]
  simp [Except.map]

/-- **A reset does not make runs independent.** Of all programs that launch on a fresh chip only the
empty one leaves the costs of every program launched after it and a reset as they are on a fresh chip. A
well-formed program that ends in UNSETALL leaves those of a given program as they are exactly when it
costs nothing to run it again from the mask it left. -/
theorem reset_independent_iff {P : List Instruction} {m' : ℤ} {a : ℚ × ℚ}
    (hP : launchCosts dimx dimy tab P m' = some (.ok a)) (m : ℤ) :
    ((∀ Q b, launchCosts dimx dimy tab Q m = some (.ok b) →
        resetCosts dimx dimy tab P Q m' m = some (.ok b)) ↔ P = []) ∧
    ∀ p last, WellFormed (dimx * dimy * 64) tab P → EndsWell P → P = p ++ [last] → last.opCode = "UNSETALL" →
      ∃ mask es, maskAfter (dimx * dimy * 64) [] p = .ok mask ∧ epochs (dimx * dimy * 64) mask P = .ok es ∧
        ∀ Q b, 2 ≤ Q.length → launchCosts dimx dimy tab Q m = some (.ok b) →
          (resetCosts dimx dimy tab P Q m' m = some (.ok b) ↔
            (es.map fun e => epochLatency tab e.mask e.instructions).sum = 0 ∧
              (es.map fun e => epochEnergy tab e.mask e.instructions).sum * m = 0) := by
  refine ⟨⟨fun h => ?_, ?_⟩, fun p last hwf hend hsplit hlast => ?_⟩
  · by_contra hne
    obtain ⟨hfresh, e, hfail⟩ := reset_breaks_shift hne hP m
    have := hfail.symm.trans (h [shift] _ hfresh)
    cases this
  · rintro rfl Q b hQ
    rw [resetCosts_nil, hQ]
  · obtain ⟨mask, es, hmask, hes, hepochs⟩ := WellFormed.exists_rerun hwf hsplit
    refine ⟨mask, es, hmask, hes, fun Q b hlen hQ => ?_⟩
    rw [resetCosts_of_wellFormed hwf hend hsplit hlast hmask hes hepochs hlen hQ m']
    simp only [Option.some.injEq, Except.ok.injEq, add_eq_right, Prod.mk_eq_zero]

/-- After a program that shifts once, the same program costs twice as much. -/
theorem reset_not_independent :
    launchCosts 1 1 exampleTab shiftProg 1 = some (.ok (482, 8194)) ∧
      resetCosts 1 1 exampleTab shiftProg shiftProg 1 1 = some (.ok ((482, 8194) + (482, 8194))) := by
  have hwf : WellFormed (1 * 1 * 64) exampleTab shiftProg :=
    ReadsOk.compute (by decide) computeOk_shift
      (ReadsOk.config (by decide) (configOk_of_name (by decide)) rfl trivial)
  have hend : EndsWell shiftProg := ⟨[], shift, unsetall, rfl, by decide, by decide⟩
  have hes : epochs (1 * 1 * 64) [] shiftProg = .ok [⟨[], [shift]⟩] := by decide
  have hepochs : ∀ e ∈ [Epoch.mk [] [shift]], (∀ id ∈ e.mask, InRange (1 * 1 * 64) id) ∧
      ∀ ins ∈ e.instructions, ComputeOk exampleTab ins := by
    rw [List.forall_mem_singleton]
    refine ⟨fun id hid => (by cases hid), fun ins hins => ?_⟩
    rw [List.mem_singleton.mp hins]
    exact computeOk_shift
  have hsplit : shiftProg = [shift] ++ [unsetall] := rfl
  have hmask : maskAfter (1 * 1 * 64) [] [shift] = .ok [] := rfl
  have hfresh := standalone_shiftProg.launch
  refine ⟨hfresh, ?_⟩
  rw [resetCosts_of_wellFormed hwf hend hsplit rfl hmask hes hepochs (by decide) hfresh 1]
  decide +kernel

theorem reset_independent_shift : ¬∀ Q b, launchCosts 1 1 exampleTab Q 1 = some (.ok b) →
    resetCosts 1 1 exampleTab shiftProg Q 1 1 = some (.ok b) :=
  fun h => absurd ((reset_independent_iff standalone_shiftProg.launch 1).1.mp h) (by decide)

end RacerArtifacts.Sim
