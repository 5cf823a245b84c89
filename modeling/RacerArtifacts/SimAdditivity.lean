import Mathlib
import RacerArtifacts.SimPrograms

/-! Splitting an epoch. Latency is additive over the instructions of an epoch. Energy is not: a pipelined
operation is charged for the latency of everything before it in its epoch, where every other branch of
the first pass charges its own instruction only. The gap is computed exactly, and with it when two
epochs cost what one does. -/

namespace RacerArtifacts.Sim

open Charging

variable {tab : CostTab} {sequences active : ℕ}

/-- More latency before an instruction is charged again only by a pipelined operation. -/
theorem energyOf_add (latency before : ℚ) (ins : Instruction) :
    energyOf tab active (before + latency) ins =
      energyOf tab active latency ins + (if PipelinedOp tab ins then before * 0.79 * active else 0) := by
  unfold energyOf
  by_cases hshift : hasSub "SHIFT" ins.opCode = true
  · have hpipe : ¬PipelinedOp tab ins := fun h => by simp [PipelinedOp, Instruction.isTransfer, hshift] at h
    rw [if_pos hshift, if_pos hshift, if_neg hpipe, add_zero]
  by_cases hprop : hasSub "PROP" ins.opCode = true
  · have hpipe : ¬PipelinedOp tab ins := fun h => by simp [PipelinedOp, Instruction.isTransfer, hprop] at h
    simp only [if_neg hshift, if_pos hprop, if_neg hpipe, add_zero]
  have htransfer : ins.isTransfer = false := by simp [Instruction.isTransfer, hshift, hprop]
  by_cases hrow : (tab.row ins.opCode).Pipelined
  · have hpipe : PipelinedOp tab ins := ⟨htransfer, hrow⟩
    simp only [if_neg hshift, if_neg hprop, if_pos hrow, if_pos hpipe]
    ring
  · have hpipe : ¬PipelinedOp tab ins := fun h => hrow h.2
    simp only [if_neg hshift, if_neg hprop, if_neg hrow, if_neg hpipe, add_zero]

theorem runLatency_append (xs ys : List Instruction) :
    runLatency tab sequences (xs ++ ys) = runLatency tab sequences xs + runLatency tab sequences ys := by
  rw [runLatency, List.map_append, List.sum_append]
  rfl

theorem runWordEnergy_append (xs ys : List Instruction) :
    runWordEnergy tab (xs ++ ys) = runWordEnergy tab xs + runWordEnergy tab ys := by
  rw [runWordEnergy, List.map_append, List.sum_append]
  rfl

theorem chipEnergy_append (latency : ℚ) (xs ys : List Instruction) :
    chipEnergy tab sequences active latency (xs ++ ys) =
      chipEnergy tab sequences active latency xs +
        chipEnergy tab sequences active (latency + runLatency tab sequences xs) ys := by
  induction xs generalizing latency with
  | nil => simp [chipEnergy, runLatency]
  | cons ins xs ih =>
      have hassoc : latency + latencyOf tab sequences ins + runLatency tab sequences xs =
          latency + runLatency tab sequences (ins :: xs) := by
        rw [runLatency, runLatency, List.map_cons, List.sum_cons, add_assoc]
      rw [List.cons_append, chipEnergy, chipEnergy, ih, hassoc, add_assoc]

/-- How many operations of a run are charged as pipelined. -/
def pipelinedCount (tab : CostTab) (run : List Instruction) : ℕ := run.countP fun ins => PipelinedOp tab ins

theorem chipEnergy_before (tab : CostTab) (sequences active : ℕ) (before latency : ℚ)
    (run : List Instruction) :
    chipEnergy tab sequences active (before + latency) run =
      chipEnergy tab sequences active latency run + before * 0.79 * active * pipelinedCount tab run := by
  induction run generalizing latency with
  | nil => simp [chipEnergy, pipelinedCount]
  | cons ins run ih =>
      rw [chipEnergy, chipEnergy, add_assoc, energyOf_add, ih, pipelinedCount, pipelinedCount,
        List.countP_cons]
      by_cases hpipe : PipelinedOp tab ins
      · rw [if_pos hpipe, if_pos (decide_eq_true hpipe)]
        push_cast
        ring
      · rw [if_neg hpipe, if_neg (by simp [hpipe])]
        push_cast
        ring

variable {mask : List ℤ} {xs ys : List Instruction}

theorem epochLatency_append (mask : List ℤ) (xs ys : List Instruction) :
    epochLatency tab mask (xs ++ ys) = epochLatency tab mask xs + epochLatency tab mask ys :=
  runLatency_append xs ys

/-- **The gap**: one epoch costs more energy than two, by what the pipelined operations of the second
are charged for the latency of the first. -/
theorem epochEnergy_append (mask : List ℤ) (xs ys : List Instruction) :
    epochEnergy tab mask (xs ++ ys) = epochEnergy tab mask xs + epochEnergy tab mask ys +
      epochLatency tab mask xs * 0.79 * mask.length * pipelinedCount tab ys := by
  have hbefore := chipEnergy_before tab (serialisation mask) mask.length (epochLatency tab mask xs) 0 ys
  rw [add_zero] at hbefore
  have hstart : (0 : ℚ) + runLatency tab (serialisation mask) xs = epochLatency tab mask xs := zero_add _
  rw [epochEnergy, epochEnergy, epochEnergy, chipEnergy_append, runWordEnergy_append, hstart, hbefore]
  ring

/-- Nothing of the first run is charged again by the second: no multi-word is active, the first run adds
no latency, or the second has no pipelined operation. -/
def Separable (tab : CostTab) (mask : List ℤ) (xs ys : List Instruction) : Prop :=
  mask = [] ∨ (xs.map (latencyOf tab (serialisation mask))).sum = 0 ∨ ∀ ins ∈ ys, ¬PipelinedOp tab ins

theorem gap_eq_zero_iff :
    epochLatency tab mask xs * 0.79 * mask.length * pipelinedCount tab ys = 0 ↔ Separable tab mask xs ys := by
  have hnum : (0.79 : ℚ) ≠ 0 := by norm_num
  have hlength : (mask.length : ℚ) = 0 ↔ mask = [] := by
    rw [Nat.cast_eq_zero, List.length_eq_zero_iff]
  have hcount : (pipelinedCount tab ys : ℚ) = 0 ↔ ∀ ins ∈ ys, ¬PipelinedOp tab ins := by
    rw [Nat.cast_eq_zero, pipelinedCount, List.countP_eq_zero]
    simp
  have hlatency : epochLatency tab mask xs = (xs.map (latencyOf tab (serialisation mask))).sum := rfl
  rw [mul_eq_zero, mul_eq_zero, mul_eq_zero, hcount, hlength, hlatency, Separable]
  tauto

/-! ### Two epochs -/

variable {dimx dimy : ℕ}

/-- Compute instructions of an epoch. -/
def ComputeRun (tab : CostTab) (run : List Instruction) : Prop :=
  ∀ ins ∈ run, ComputeOk tab ins ∧ ins.isConfig = false

theorem ComputeRun.append {xs ys : List Instruction} (hxs : ComputeRun tab xs) (hys : ComputeRun tab ys) :
    ComputeRun tab (xs ++ ys) :=
  fun ins hins => (List.mem_append.mp hins).elim (hxs ins) (hys ins)

theorem Epoch.costs_ok {e : Epoch} (hrun : ComputeRun tab e.instructions)
    (hreach : Reaches (dimx * dimy) tab e.mask e.instructions) :
    e.costs dimx dimy tab = .ok (epochLatency tab e.mask e.instructions,
      epochEnergy tab e.mask e.instructions) := by
  obtain ⟨t, ht, hcosts, -⟩ := epochTally_ok (fun ins hins => (hrun ins hins).1) hreach
  rw [Epoch.costs_eq fun ins hins => (hrun ins hins).2, Epoch.tally, ht, ← hcosts]
  rfl

theorem Epoch.costs_error {e : Epoch} (hrun : ComputeRun tab e.instructions)
    (hreach : ¬Reaches (dimx * dimy) tab e.mask e.instructions) :
    e.costs dimx dimy tab = .error .indexError := by
  rw [Epoch.costs_eq fun ins hins => (hrun ins hins).2, Epoch.tally,
    epochTally_error (fun ins hins => (hrun ins hins).1) hreach]
  rfl

theorem reaches_append {n : ℕ} :
    Reaches n tab mask (xs ++ ys) ↔ Reaches n tab mask xs ∧ Reaches n tab mask ys := by
  constructor
  · intro h
    exact ⟨fun id hid ins hins => h id hid ins (List.mem_append_left ys hins),
      fun id hid ins hins => h id hid ins (List.mem_append_right xs hins)⟩
  · rintro ⟨hxs, hys⟩ id hid ins hins
    exact (List.mem_append.mp hins).elim (hxs id hid ins) (hys id hid ins)

/-- One epoch costs what two cost exactly when they are separable, or fail together. -/
theorem epoch_split_iff (hxs : ComputeRun tab xs) (hys : ComputeRun tab ys) (mask : List ℤ) :
    total (Epoch.costs dimx dimy tab) [⟨mask, xs⟩, ⟨mask, ys⟩] = Epoch.costs dimx dimy tab ⟨mask, xs ++ ys⟩ ↔
      Separable tab mask xs ys ∨ ¬Reaches (dimx * dimy) tab mask (xs ++ ys) := by
  have hnil : total (Epoch.costs dimx dimy tab) [] = .ok 0 := rfl
  by_cases hreach : Reaches (dimx * dimy) tab mask (xs ++ ys)
  · obtain ⟨hreachxs, hreachys⟩ := reaches_append.mp hreach
    rw [total_cons_ok (Epoch.costs_ok hxs hreachxs) (total_cons_ok (Epoch.costs_ok hys hreachys) hnil),
      Epoch.costs_ok (hxs.append hys) hreach, epochLatency_append, epochEnergy_append, add_zero,
        Prod.mk_add_mk,
      or_iff_left (not_not.mpr hreach), ← gap_eq_zero_iff]
    simp only [Except.ok.injEq, Prod.mk.injEq, true_and, left_eq_add]
  · rw [Epoch.costs_error (hxs.append hys) hreach]
    refine ⟨fun _ => Or.inr hreach, fun _ => ?_⟩
    by_cases hreachxs : Reaches (dimx * dimy) tab mask xs
    · have hreachys : ¬Reaches (dimx * dimy) tab mask ys := fun h => hreach (reaches_append.mpr ⟨hreachxs, h⟩)
      have hfail : Epoch.costs dimx dimy tab ⟨mask, ys⟩ = .error .indexError := Epoch.costs_error hys hreachys
      have hrest := total_cons_error [] hfail
      rw [total, hrest, Epoch.costs_ok hxs hreachxs]
      rfl
    · exact total_cons_error _ (Epoch.costs_error hxs hreachxs)

/-! ### An instruction between two instructions -/

/-- A place in a well-formed program between two compute instructions: `xs` and `ys` are what is before
and behind it in its run, and `mask` is the mask there. -/
structure InRun (units : ℕ) (tab : CostTab) (pre xs ys post : List Instruction) (mask : List ℤ) : Prop where
  wellFormed : WellFormed units tab (pre ++ (xs ++ (ys ++ post)))
  endsWell : EndsWell (pre ++ (xs ++ (ys ++ post)))
  start : pre = [] ∨ ∃ q b, pre = q ++ [b] ∧ b.isConfig = true
  stop : ∃ b tail, post = b :: tail ∧ b.isConfig = true
  before : xs ≠ [] ∧ ∀ ins ∈ xs, ins.isConfig = false
  behind : ys ≠ [] ∧ ∀ ins ∈ ys, ins.isConfig = false
  mask : maskAfter units [] pre = .ok mask

/-- The program reads as one epoch at that place, and as two with the instruction inserted. -/
theorem InRun.epochs {units : ℕ} {pre xs ys post : List Instruction} (h : InRun units tab pre xs ys post mask)
    {ins : Instruction} (hins : ins.isConfig = true) (hstep : configStep units mask ins = .ok mask) :
    ∃ es es', epochs units [] (pre ++ (xs ++ (ys ++ post))) = .ok (es ++ ⟨mask, xs ++ ys⟩ :: es') ∧
      epochs units [] (pre ++ (xs ++ ins :: (ys ++ post))) = .ok (es ++ ⟨mask, xs⟩ :: ⟨mask, ys⟩ :: es') := by
  have hnil : ∀ id ∈ ([] : List ℤ), InRange units id := fun id hid => by cases hid
  obtain ⟨hpre, mask', hmask', hrange, hrest⟩ := ReadsOk.split h.wellFormed hnil
  obtain rfl : mask' = mask := Except.ok.inj (hmask'.symm.trans h.mask)
  rw [← List.append_assoc] at hrest
  obtain ⟨hruns, mask₁, hmask₁, hrange₁, hpost⟩ := hrest.split hrange
  obtain ⟨b, tail, rfl, hb⟩ := h.stop
  have hcompute : ∀ i ∈ xs ++ ys, i.isConfig = false := fun i hi =>
    (List.mem_append.mp hi).elim (h.before.2 i) (h.behind.2 i)
  have hsame : maskAfter units mask' (xs ++ ys) = .ok mask' := maskAfter_all_compute hcompute mask'
  obtain rfl : mask₁ = mask' := Except.ok.inj (hmask₁.symm.trans hsame)
  obtain ⟨es', hes', -⟩ := hpost.epochsFrom_ok hrange []
  obtain ⟨es, hes, -⟩ := hpre.epochsFrom_ok hnil []
  change Sim.epochs units mask₁ (b :: tail) = .ok es' at hes'
  have hone : Sim.epochs units mask₁ (xs ++ (ys ++ b :: tail)) = .ok (⟨mask₁, xs ++ ys⟩ :: es') := by
    rw [← List.append_assoc, epochs_run hcompute (List.append_ne_nil_of_left_ne_nil h.before.1 ys) hb, hes']
    rfl
  have htwo : Sim.epochs units mask₁ (xs ++ ins :: (ys ++ b :: tail)) =
      .ok (⟨mask₁, xs⟩ :: ⟨mask₁, ys⟩ :: es') := by
    rw [epochs_run h.before.2 h.before.1 hins, epochs_config hins, hstep]
    change (Sim.epochs units mask₁ (ys ++ b :: tail)).map _ = _
    rw [epochs_run h.behind.2 h.behind.1 hb, hes']
    rfl
  refine ⟨es, es', ?_, ?_⟩
  · rcases h.start with rfl | ⟨q, a, rfl, ha⟩
    · cases hes
      cases hmask'
      exact hone
    · exact epochsFrom_append_config ha hes hmask' hone
  · rcases h.start with rfl | ⟨q, a, rfl, ha⟩
    · cases hes
      cases hmask'
      exact htwo
    · exact epochsFrom_append_config ha hes hmask' htwo

/-- The program with the instruction inserted is well formed and ends well. -/
theorem InRun.insert {units : ℕ} {pre xs ys post : List Instruction} (h : InRun units tab pre xs ys post mask)
    {ins : Instruction} (hins : ins.isConfig = true) (hok : ConfigOk units mask ins)
    (hstep : configStep units mask ins = .ok mask) :
    WellFormed units tab (pre ++ (xs ++ ins :: (ys ++ post))) ∧
    EndsWell (pre ++ (xs ++ ins :: (ys ++ post))) := by
  constructor
  · obtain ⟨hpre, mask', hmask', hrange, hrest⟩ := ReadsOk.split h.wellFormed fun id hid => by cases hid
    obtain rfl : mask' = mask := Except.ok.inj (hmask'.symm.trans h.mask)
    obtain ⟨hxs, mask₁, hmask₁, -, hys⟩ := hrest.split hrange
    have hsame : maskAfter units mask' xs = .ok mask' := maskAfter_all_compute h.before.2 mask'
    obtain rfl : mask₁ = mask' := Except.ok.inj (hmask₁.symm.trans hsame)
    exact hpre.join hmask' (hxs.join hsame (ReadsOk.config hins hok hstep hys))
  · obtain ⟨b, tail, hpost, -⟩ := h.stop
    have hlen : 2 ≤ (ys ++ post).length := by
      have := List.length_pos_iff.mpr h.behind.1
      rw [hpost, List.length_append, List.length_cons]
      omega
    have hsuf : ys ++ post <:+ pre ++ (xs ++ (ys ++ post)) :=
      (List.suffix_append xs _).trans (List.suffix_append pre _)
    have hend := h.endsWell.suffix hsuf hlen
    have happ := hend.append (l := pre ++ xs ++ [ins])
    simpa only [List.append_assoc, List.singleton_append] using happ

/-- Inserting an instruction that leaves the mask as it is leaves the costs of a launch as they are
exactly when the two halves of the run are separable. -/
theorem InRun.launchCosts_eq_iff {pre xs ys post : List Instruction}
    (h : InRun (dimx * dimy * 64) tab pre xs ys post mask) {ins : Instruction} (hins : ins.isConfig = true)
    (hok : ConfigOk (dimx * dimy * 64) mask ins) (hstep : configStep (dimx * dimy * 64) mask ins = .ok mask)
    {m : ℤ} (hm : 1 ≤ m) :
    launchCosts dimx dimy tab (pre ++ (xs ++ ins :: (ys ++ post))) m =
        launchCosts dimx dimy tab (pre ++ (xs ++ (ys ++ post))) m ↔ Separable tab mask xs ys := by
  obtain ⟨es, es', hone, htwo⟩ := h.epochs hins hstep
  obtain ⟨hwf, hend⟩ := h.insert hins hok hstep
  have hm0 : (m : ℚ) ≠ 0 := by exact_mod_cast (by omega : m ≠ 0)
  rw [launchCosts_eq hwf hend htwo, launchCosts_eq h.wellFormed h.endsWell hone, ← gap_eq_zero_iff]
  simp only [List.map_append, List.map_cons, List.sum_append, List.sum_cons, epochLatency_append,
    epochEnergy_append, Option.some.injEq, Except.ok.injEq, Prod.mk.injEq, mul_left_inj' hm0]
  constructor
  · rintro ⟨-, hgap⟩
    linarith
  · intro hgap
    rw [hgap]
    exact ⟨by ring, by ring⟩

/-- **Additivity of epochs.** Two epochs under one mask cost what one does, and inserting an instruction
that leaves the mask as it is into a well-formed program leaves its costs as they are, exactly when
nothing that is before the cut is charged again behind it. -/
theorem epoch_additive_iff (dimx dimy : ℕ) (tab : CostTab) :
    (∀ mask xs ys, ComputeRun tab xs → ComputeRun tab ys →
      (total (Epoch.costs dimx dimy tab) [⟨mask, xs⟩, ⟨mask, ys⟩] =
        Epoch.costs dimx dimy tab ⟨mask, xs ++ ys⟩ ↔
        Separable tab mask xs ys ∨ ¬Reaches (dimx * dimy) tab mask (xs ++ ys))) ∧
    (∀ pre xs ys post mask, InRun (dimx * dimy * 64) tab pre xs ys post mask →
      ∀ ins : Instruction, ins.isConfig = true → ConfigOk (dimx * dimy * 64) mask ins →
        configStep (dimx * dimy * 64) mask ins = .ok mask → ∀ m : ℤ, 1 ≤ m →
          (launchCosts dimx dimy tab (pre ++ (xs ++ ins :: (ys ++ post))) m =
            launchCosts dimx dimy tab (pre ++ (xs ++ (ys ++ post))) m ↔ Separable tab mask xs ys)) :=
  ⟨fun mask _ _ hxs hys => epoch_split_iff hxs hys mask,
    fun _ _ _ _ _ h _ hins hok hstep _ hm => h.launchCosts_eq_iff hins hok hstep hm⟩

theorem computeRun_add16 : ComputeRun exampleTab [add16] := fun ins hins => by
  rw [List.mem_singleton.mp hins]
  exact ⟨computeOk_add16, by decide⟩

theorem computeRun_and8 : ComputeRun exampleTab [and8] := fun ins hins => by
  rw [List.mem_singleton.mp hins]
  exact ⟨computeOk_and8, by decide⟩

theorem not_separable_add16 : ¬Separable exampleTab [0] [add16] [add16] := by
  rintro (h | h | h)
  · cases h
  · revert h
    decide +kernel
  · exact h add16 List.mem_cons_self (by decide +kernel)

/-- Two ADD16 on one multi-word cost more in one epoch than in two. -/
theorem epoch_not_additive_add16 :
    total (Epoch.costs 1 1 exampleTab) [⟨[0], [add16]⟩, ⟨[0], [add16]⟩] ≠
      Epoch.costs 1 1 exampleTab ⟨[0], [add16] ++ [add16]⟩ := by
  intro h
  rcases (epoch_split_iff computeRun_add16 computeRun_add16 [0]).mp h with h | h
  · exact not_separable_add16 h
  · refine h (reaches_of_inRange fun id hid => ?_)
    rw [List.mem_singleton.mp hid]
    decide

theorem inRun_add16_and8 :
    InRun (1 * 1 * 64) exampleTab [setall] [add16] [and8] [unsetall]
      ((List.range 64).map fun i : ℕ => (i : ℤ)) where
  wellFormed := by
    apply ReadsOk.config (by decide) (configOk_of_name (by decide)) rfl
    refine ReadsOk.compute (by decide) computeOk_add16 (ReadsOk.compute (by decide) computeOk_and8 ?_)
    exact ReadsOk.config (by decide) (configOk_of_name (by decide)) rfl trivial
  endsWell := ⟨[setall, add16], and8, unsetall, rfl, by decide, by decide⟩
  start := Or.inr ⟨[], setall, rfl, by decide⟩
  stop := ⟨unsetall, [], rfl, by decide⟩
  before := ⟨List.cons_ne_nil _ _, by decide⟩
  behind := ⟨List.cons_ne_nil _ _, by decide⟩
  mask := rfl

/-- An AND8, which is not pipelined, may be cut off, by a second SETALL for instance. -/
theorem epoch_additive_and8 :
    total (Epoch.costs 1 1 exampleTab) [⟨[0], [add16]⟩, ⟨[0], [and8]⟩] =
        Epoch.costs 1 1 exampleTab ⟨[0], [add16] ++ [and8]⟩ ∧
      launchCosts 1 1 exampleTab ([setall] ++ ([add16] ++ setall :: ([and8] ++ [unsetall]))) 1 =
        launchCosts 1 1 exampleTab ([setall] ++ ([add16] ++ ([and8] ++ [unsetall]))) 1 := by
  have hserial : ∀ ins ∈ [and8], ¬PipelinedOp exampleTab ins := fun ins hins => by
    rw [List.mem_singleton.mp hins]
    decide +kernel
  obtain ⟨hepochs, hinsert⟩ := epoch_additive_iff 1 1 exampleTab
  refine ⟨(hepochs [0] [add16] [and8] computeRun_add16 computeRun_and8).mpr
    (Or.inl (Or.inr (Or.inr hserial))), ?_⟩
  exact (hinsert _ _ _ _ _ inRun_add16_and8 setall (by decide)
    (configOk_of_name (by decide)) rfl 1 le_rfl).mpr
    (Or.inr (Or.inr hserial))

end RacerArtifacts.Sim
