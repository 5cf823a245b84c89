import Mathlib
import RacerArtifacts.SimExecution

/-! The energy ledger. The ledger charges every instruction by one formula that its name and its row choose,
once for each active multi-word. The code chooses twice: the first pass takes an operation to be pipelined
when one of its warmups is not zero, the second leaves it out when both are not; and the first takes for a
transfer what has SHIFT or PROP in its name, the second what has that name. It also charges a multi-word as
often as the mask has its id. What differs is computed instruction by instruction. -/

namespace RacerArtifacts.Sim

open Charging Numeric

variable {tab : CostTab}

/-- The ledger's charge for an instruction that brings its epoch to a latency. -/
def ledgerOf (tab : CostTab) (active : ℕ) (latency : ℚ) (ins : Instruction) : ℚ :=
  if ins.opCode = "SHIFT" then ins.hopEnergy * 4097
  else if ins.opCode = "PROP" then ins.hopEnergy * 3.2768
  else
    let row := tab.row ins.opCode
    if row.Pipelined then
      active * ((row.energyCost * ins.fleetSize + row.warmupEnergy) * ins.multiplicativeFactor +
        0.79 * latency)
    else active * (row.energyCost * ins.multiplicativeFactor + 0.79 * row.latency)

/-- A sum over a run of a charge that depends on the latency reached. -/
def runSum (tab : CostTab) (sequences : ℕ) (f : ℚ → Instruction → ℚ) : ℚ → List Instruction → ℚ
  | _, [] => 0
  | latency, ins :: run =>
    let reached := latency + latencyOf tab sequences ins
    f reached ins + runSum tab sequences f reached run

/-- The number of active multi-words: an id that the mask has twice names one. -/
def Epoch.activeWords (e : Epoch) : ℕ := e.mask.dedup.length

/-- The ledger of an epoch. -/
def Epoch.ledger (tab : CostTab) (e : Epoch) : ℚ :=
  runSum tab (serialisation e.mask) (ledgerOf tab e.activeWords) 0 e.instructions

/-- An operation whose name only contains SHIFT or PROP. -/
def Misnamed (ins : Instruction) : Prop := ins.isTransfer = true ∧ ins.isNamedTransfer = false

instance (ins : Instruction) : Decidable (Misnamed ins) := inferInstanceAs (Decidable (_ ∧ _))

theorem not_misnamed_of_named {ins : Instruction} (hnamed : ins.isNamedTransfer = true) : ¬Misnamed ins :=
  fun h => Bool.false_ne_true (h.2.symm.trans hnamed)

theorem not_misnamed_of_not_isTransfer {ins : Instruction} (htransfer : ins.isTransfer = false) :
    ¬Misnamed ins := fun h => Bool.false_ne_true (htransfer.symm.trans h.1)

/-- The warmups decide alike in both passes: both are zero or neither, and not both are non-zero for a
misnamed operation. -/
def ChargedOnce (tab : CostTab) (ins : Instruction) : Prop :=
  let row := tab.row ins.opCode
  if ins.isTransfer then row.warmupEnergy = 0 ∨ row.warmupLatency = 0
  else row.warmupEnergy = 0 ↔ row.warmupLatency = 0

/-- What a misnamed operation is charged as a transfer, less what the ledger has for it apart from the
energy of its multi-words. -/
def misnamedExcess (tab : CostTab) (active : ℕ) (latency : ℚ) (ins : Instruction) : ℚ :=
  let row := tab.row ins.opCode
  if Misnamed ins then
    (if hasSub "SHIFT" ins.opCode then ins.hopEnergy * 4097 else ins.hopEnergy * 3.2768) -
      active * (if row.Pipelined then
        (row.energyCost * (ins.fleetSize - 1) + row.warmupEnergy) * ins.multiplicativeFactor + 0.79 * latency
      else 0.79 * row.latency)
  else 0

def Epoch.misnamedExcess (tab : CostTab) (e : Epoch) : ℚ :=
  runSum tab (serialisation e.mask) (Sim.misnamedExcess tab e.activeWords) 0 e.instructions

/-- An operation is charged through exactly one of the pipelined formula and the accumulators when its
warmups decide alike. -/
theorem chargedOnce_iff {ins : Instruction} (hnamed : ins.isNamedTransfer = false) :
    (PipelinedOp tab ins ↔ ¬Accumulates tab ins) ↔ ChargedOnce tab ins := by
  unfold PipelinedOp Accumulates ChargedOnce OpCost.Pipelined OpCost.Skipped
  cases htransfer : ins.isTransfer with
  | true =>
      simp only [hnamed, if_true, Bool.true_eq_false, false_and, true_and, false_iff]
      tauto
  | false =>
      simp only [hnamed, Bool.false_eq_true, if_false, true_and]
      tauto

theorem accumulates_of_chargedOnce {ins : Instruction} (hnamed : ins.isNamedTransfer = false)
    (honce : ChargedOnce tab ins) (hserial : ins.isTransfer = true ∨ ¬(tab.row ins.opCode).Pipelined) :
    Accumulates tab ins := by
  by_contra hacc
  obtain ⟨htransfer, hpipe⟩ := ((chargedOnce_iff hnamed).mpr honce).mpr hacc
  rcases hserial with h | h
  · rw [htransfer] at h
    cases h
  · exact h hpipe

theorem energyOf_named {active : ℕ} {ins : Instruction} (latency : ℚ) (hnamed : ins.isNamedTransfer = true) :
    energyOf tab active latency ins + active * wordEnergyOf tab ins =
      ledgerOf tab active latency ins + misnamedExcess tab active latency ins := by
  have hword : wordEnergyOf tab ins = 0 := if_neg fun h => by
    have := h.1
    rw [hnamed] at this
    cases this
  have hexcess : misnamedExcess tab active latency ins = 0 := if_neg (not_misnamed_of_named hnamed)
  have hname : ins.opCode = "SHIFT" ∨ ins.opCode = "PROP" :=
    Instruction.isNamedTransfer_iff.mp hnamed
  rw [hword, hexcess, mul_zero, add_zero, add_zero]
  unfold energyOf ledgerOf
  rcases hname with h | h
  · rw [if_pos (by rw [h]; decide), if_pos h]
  · rw [if_neg (by rw [h]; decide), if_pos (by rw [h]; decide), if_neg (by rw [h]; decide), if_pos h]

/-- The accumulators of an operation that the passes decide alike, when it is not pipelined. -/
theorem wordEnergyOf_serial {active : ℕ} {ins : Instruction} (hnamed : ins.isNamedTransfer = false)
    (honce : active = 0 ∨ ChargedOnce tab ins) (hserial : ins.isTransfer = true ∨
      ¬(tab.row ins.opCode).Pipelined) :
    (active : ℚ) * wordEnergyOf tab ins =
      active * ((tab.row ins.opCode).energyCost * ins.multiplicativeFactor) := by
  rcases honce with h | h
  · rw [h, Nat.cast_zero, zero_mul, zero_mul]
  · rw [wordEnergyOf, if_pos (accumulates_of_chargedOnce hnamed h hserial)]

/-- A misnamed operation is charged as a transfer; the excess is the difference. -/
theorem energyOf_misnamed {active : ℕ} {ins : Instruction} (latency : ℚ) (hmisnamed : Misnamed ins)
    (honce : active = 0 ∨ ChargedOnce tab ins) :
    energyOf tab active latency ins + active * wordEnergyOf tab ins =
      ledgerOf tab active latency ins + misnamedExcess tab active latency ins := by
  have htransfer := hmisnamed.1
  have hnamed := hmisnamed.2
  have hname : ¬(ins.opCode = "SHIFT" ∨ ins.opCode = "PROP") :=
    Instruction.not_isNamedTransfer_iff.mp hnamed
  rw [not_or] at hname
  have henergy : energyOf tab active latency ins =
      if hasSub "SHIFT" ins.opCode then ins.hopEnergy * 4097 else ins.hopEnergy * 3.2768 := by
    unfold energyOf
    by_cases hshift : hasSub "SHIFT" ins.opCode = true
    · rw [if_pos hshift, if_pos hshift]
    · have hprop : hasSub "PROP" ins.opCode = true := by
        simpa [Instruction.isTransfer, hshift] using htransfer
      rw [if_neg hshift, if_neg hshift, if_pos hprop]
  unfold ledgerOf misnamedExcess
  rw [if_neg hname.1, if_neg hname.2, henergy, wordEnergyOf_serial hnamed honce (Or.inl htransfer)]
  by_cases hpipe : (tab.row ins.opCode).Pipelined
  · simp only [if_pos hmisnamed, if_pos hpipe]
    ring
  · simp only [if_pos hmisnamed, if_neg hpipe]
    ring

theorem energyOf_compute {active : ℕ} {ins : Instruction} (latency : ℚ) (htransfer : ins.isTransfer = false)
    (hnamed : ins.isNamedTransfer = false) (honce : active = 0 ∨ ChargedOnce tab ins) :
    energyOf tab active latency ins + active * wordEnergyOf tab ins =
      ledgerOf tab active latency ins + misnamedExcess tab active latency ins := by
  have hname : ¬(ins.opCode = "SHIFT" ∨ ins.opCode = "PROP") :=
    Instruction.not_isNamedTransfer_iff.mp hnamed
  rw [not_or] at hname
  have hsub := Instruction.not_isTransfer_iff.mp htransfer
  have hnot := not_misnamed_of_not_isTransfer htransfer
  unfold ledgerOf misnamedExcess
  rw [if_neg hname.1, if_neg hname.2, if_neg hnot, energyOf, if_neg (by simp [hsub.1]),
    if_neg (by simp [hsub.2])]
  by_cases hpipe : (tab.row ins.opCode).Pipelined
  · have hzero : (active : ℚ) * wordEnergyOf tab ins = 0 := by
      rcases honce with h | h
      · rw [h, Nat.cast_zero, zero_mul]
      · have hacc : ¬Accumulates tab ins := ((chargedOnce_iff hnamed).mpr h).mp ⟨htransfer, hpipe⟩
        rw [wordEnergyOf, if_neg hacc, mul_zero]
    simp only [if_pos hpipe]
    rw [hzero]
    ring
  · simp only [if_neg hpipe]
    rw [wordEnergyOf_serial hnamed honce (Or.inr hpipe)]
    ring

/-- Where no multi-word is active or the passes decide alike, the code charges the ledger and the excess
of misnamed operations. -/
theorem energyOf_eq_ledgerOf {active : ℕ} {ins : Instruction} (latency : ℚ)
    (honce : active = 0 ∨ ins.isNamedTransfer = true ∨ ChargedOnce tab ins) :
    energyOf tab active latency ins + active * wordEnergyOf tab ins =
      ledgerOf tab active latency ins + misnamedExcess tab active latency ins := by
  cases hnamed : ins.isNamedTransfer with
  | true => exact energyOf_named latency hnamed
  | false =>
      have honce' : active = 0 ∨ ChargedOnce tab ins := by simpa [hnamed] using honce
      cases htransfer : ins.isTransfer with
      | true => exact energyOf_misnamed latency ⟨htransfer, hnamed⟩ honce'
      | false => exact energyOf_compute latency htransfer hnamed honce'

/-! ### Epochs and programs -/

theorem runSum_add (sequences : ℕ) (f g : ℚ → Instruction → ℚ) (latency : ℚ) (run : List Instruction) :
    runSum tab sequences (fun l ins => f l ins + g l ins) latency run =
      runSum tab sequences f latency run + runSum tab sequences g latency run := by
  induction run generalizing latency with
  | nil => exact (add_zero 0).symm
  | cons ins run ih =>
      rw [runSum, runSum, runSum, ih]
      ring

theorem runSum_congr {sequences : ℕ} {f g : ℚ → Instruction → ℚ} {run : List Instruction}
    (h : ∀ ins ∈ run, ∀ latency, f latency ins = g latency ins) (latency : ℚ) :
    runSum tab sequences f latency run = runSum tab sequences g latency run := by
  induction run generalizing latency with
  | nil => rfl
  | cons ins run ih =>
      rw [runSum, runSum, h ins List.mem_cons_self, ih fun i hi => h i (List.mem_cons_of_mem ins hi)]

/-- The energy of an epoch is the sum of what both passes charge each instruction. -/
theorem epochEnergy_eq_runSum (mask : List ℤ) (run : List Instruction) :
    epochEnergy tab mask run = runSum tab (serialisation mask)
      (fun latency ins => energyOf tab mask.length latency ins + mask.length *
        wordEnergyOf tab ins) 0 run := by
  have hchip (latency : ℚ) : chipEnergy tab (serialisation mask) mask.length latency run +
      mask.length * runWordEnergy tab run = runSum tab (serialisation mask)
        (fun latency ins => energyOf tab mask.length latency ins + mask.length * wordEnergyOf tab ins)
          latency run := by
    induction run generalizing latency with
    | nil => simp [chipEnergy, runSum, runWordEnergy]
    | cons ins run ih =>
        rw [chipEnergy, runSum, ← ih, runWordEnergy, runWordEnergy, List.map_cons, List.sum_cons]
        ring
  exact hchip 0

/-- The charges for a named transfer do not depend on the mask. -/
theorem ledgerOf_named {ins : Instruction} (hnamed : ins.isNamedTransfer = true) (active active' : ℕ)
    (latency : ℚ) :
    ledgerOf tab active latency ins + misnamedExcess tab active latency ins =
      ledgerOf tab active' latency ins + misnamedExcess tab active' latency ins := by
  have hnot := not_misnamed_of_named hnamed
  have hname : ins.opCode = "SHIFT" ∨ ins.opCode = "PROP" :=
    Instruction.isNamedTransfer_iff.mp hnamed
  unfold ledgerOf misnamedExcess
  rw [if_neg hnot, if_neg hnot]
  rcases hname with h | h
  · rw [if_pos h, if_pos h]
  · rw [if_neg (by rw [h]; decide), if_pos h, if_neg (by rw [h]; decide), if_pos h]

/-- Every operation meets every active multi-word once, and is charged once. -/
theorem Epoch.energy_eq_ledger {e : Epoch}
    (honce : ∀ ins ∈ e.instructions, ins.isNamedTransfer = false →
      e.mask.Nodup ∧ (e.mask ≠ [] → ChargedOnce tab ins)) :
    epochEnergy tab e.mask e.instructions = e.ledger tab + e.misnamedExcess tab := by
  rw [epochEnergy_eq_runSum, Epoch.ledger, Epoch.misnamedExcess, ← runSum_add]
  refine runSum_congr (fun ins hins latency => ?_) 0
  cases hnamed : ins.isNamedTransfer with
  | true =>
      rw [energyOf_eq_ledgerOf latency (Or.inr (Or.inl hnamed))]
      exact ledgerOf_named hnamed _ _ latency
  | false =>
      obtain ⟨hnodup, honce⟩ := honce ins hins hnamed
      rw [Epoch.activeWords, hnodup.dedup]
      refine energyOf_eq_ledgerOf latency ?_
      by_cases hmask : e.mask = []
      · exact Or.inl (by rw [hmask]; rfl)
      · exact Or.inr (Or.inr (honce hmask))

/-! ### Charges on a multi-word -/

namespace Numeric

open Numbers

variable {N : Type} [Numbers N] {n : ℕ}

instance (row : OpCost) : Decidable (Pipelined N row) := inferInstanceAs (Decidable (_ ∨ _))

/-- The first pass charges the instruction by the pipelined formula, once for every id of the sequences. -/
def PipelinedOp (N : Type) [Numbers N] (tab : CostTab) (ins : Instruction) : Prop :=
  ins.isTransfer = false ∧ Pipelined N (tab.row ins.opCode)

instance (ins : Instruction) : Decidable (PipelinedOp N tab ins) := inferInstanceAs (Decidable (_ ∧ _))

/-- The second pass charges the instruction, each time it meets an id. -/
def Accumulates (N : Type) [Numbers N] (tab : CostTab) (ins : Instruction) : Prop :=
  ins.isNamedTransfer = false ∧ ¬(isZero (float (tab.row ins.opCode).warmupEnergy : N) = false ∧
    isZero (float (tab.row ins.opCode).warmupLatency : N) = false)

instance (ins : Instruction) : Decidable (Accumulates N tab ins) := inferInstanceAs (Decidable (_ ∧ _))

theorem Exact.pipelinedOp_iff {v : N → ℚ} (hv : Exact v) (ins : Instruction) :
    PipelinedOp N tab ins ↔ Sim.PipelinedOp tab ins := and_congr_right fun _ => hv.pipelined_iff _

theorem Exact.accumulates_iff {v : N → ℚ} (hv : Exact v) (ins : Instruction) :
    Accumulates N tab ins ↔ Sim.Accumulates tab ins :=
  and_congr_right fun _ => not_congr (and_congr (hv.isZero_float _) (hv.isZero_float _))

/-- How many charges the second pass makes for an instruction when it meets an id. -/
def wordCharges (N : Type) [Numbers N] (n : ℕ) (tab : CostTab) (id : ℤ) (ins : Instruction) : ℕ :=
  match wordLog N n tab id ins with
  | .ok log => log.toList.length
  | .error _ => 0

theorem wordCharges_eq {ins : Instruction} (hok : ComputeOk N tab ins) {id : ℤ} (hid : InRange (n * 64) id) :
    wordCharges N n tab id ins = if Accumulates N tab ins then 1 else 0 := by
  obtain ⟨i, hi⟩ := exists_index hid
  unfold wordCharges wordLog
  by_cases hname : ins.opCode = "SHIFT" ∨ ins.opCode = "PROP"
  · have hnot : ¬Accumulates N tab ins := fun h => Instruction.not_isNamedTransfer_iff.mp h.1 hname
    rw [if_pos hname, if_neg hnot]
    rfl
  · have hnamed : ins.isNamedTransfer = false := Instruction.not_isNamedTransfer_iff.mpr hname
    obtain ⟨⟨row, hrow⟩, k, hk⟩ := hok.operation hnamed
    rw [if_neg hname]
    simp only [hrow, bind, Except.bind, Accumulates, hnamed, true_and, CostTab.op_eq_row hrow]
    by_cases hskip : isZero (float row.warmupEnergy : N) = false ∧
      isZero (float row.warmupLatency : N) = false
    · rw [if_pos hskip, if_neg (not_not_intro hskip)]
      rfl
    · rw [if_neg hskip, if_pos hskip]
      simp only [opLog, hk, hok.notLoad, hok.notStore, Bool.not_false, Bool.and_self, if_true, hi, hrow, bind,
        Except.bind]
      rfl

end Numeric

/-- How often an epoch charges an instruction on a multi-word: by the factor of the pipelined formula, which
counts the ids of the sequences, and by the second pass over these. -/
def Epoch.timesCharged (N : Type) [Numbers N] (n : ℕ) (tab : CostTab) (e : Epoch) (ins : Instruction)
    (id : ℤ) : ℕ :=
  (executionSequences e.mask).flatten.count id *
    ((if Numeric.PipelinedOp N tab ins then 1 else 0) + Numeric.wordCharges N n tab id ins)

/-- Every operation is charged exactly once on every active multi-word. -/
def Epoch.PairsOnce (N : Type) [Numbers N] (n : ℕ) (tab : CostTab) (e : Epoch) : Prop :=
  ∀ ins ∈ e.instructions, ins.isNamedTransfer = false → ∀ id ∈ e.mask, e.timesCharged N n tab ins id = 1

/-- The warmups decide alike in both passes: both are zero or neither, and not both are non-zero for a
misnamed operation. -/
def Numeric.ChargedOnce (N : Type) [Numbers N] (tab : CostTab) (ins : Instruction) : Prop :=
  let energyZero := Numbers.isZero (Numbers.float (tab.row ins.opCode).warmupEnergy : N)
  let latencyZero := Numbers.isZero (Numbers.float (tab.row ins.opCode).warmupLatency : N)
  if ins.isTransfer then energyZero = true ∨ latencyZero = true else energyZero = latencyZero

/-- In an epoch with operations no id is active twice, and the warmups of those that meet one decide alike. -/
def Epoch.ChargedOnce (N : Type) [Numbers N] (tab : CostTab) (e : Epoch) : Prop :=
  ∀ ins ∈ e.instructions, ins.isNamedTransfer = false →
    e.mask.Nodup ∧ (e.mask ≠ [] → Numeric.ChargedOnce N tab ins)

section Pairs

variable {N : Type} [Numbers N] {n : ℕ}

instance (ins : Instruction) : Decidable (Numeric.ChargedOnce N tab ins) := by
  unfold Numeric.ChargedOnce
  infer_instance

instance (e : Epoch) : Decidable (e.ChargedOnce N tab) :=
    inferInstanceAs (Decidable (∀ ins ∈ e.instructions, _))

theorem Numeric.chargedOnce_iff {ins : Instruction} (hnamed : ins.isNamedTransfer = false) :
    (Numeric.PipelinedOp N tab ins ↔ ¬Numeric.Accumulates N tab ins) ↔ Numeric.ChargedOnce N tab ins := by
  unfold Numeric.PipelinedOp Numeric.Accumulates Numeric.ChargedOnce Numeric.Pipelined
  cases ins.isTransfer <;>
    cases Numbers.isZero (Numbers.float (tab.row ins.opCode).warmupEnergy : N) <;>
    cases Numbers.isZero (Numbers.float (tab.row ins.opCode).warmupLatency : N) <;> simp [hnamed]

theorem Numeric.Exact.chargedOnce_iff {v : N → ℚ} (hv : Exact v) {ins : Instruction}
    (hnamed : ins.isNamedTransfer = false) : Numeric.ChargedOnce N tab ins ↔ Sim.ChargedOnce tab ins := by
  rw [← Numeric.chargedOnce_iff hnamed, ← Sim.chargedOnce_iff hnamed, hv.pipelinedOp_iff, hv.accumulates_iff]

/-- The pairs of an epoch are charged once exactly when its mask repeats no id and its warmups
decide alike. -/
theorem Epoch.pairsOnce_iff {e : Epoch} (hmask : ∀ id ∈ e.mask, InRange (n * 64) id)
    (hok : ∀ ins ∈ e.instructions, Numeric.ComputeOk N tab ins) : e.PairsOnce N n tab ↔
    e.ChargedOnce N tab := by
  refine forall₂_congr fun ins hins => forall_congr' fun hnamed => ?_
  have hcharged : ∀ id ∈ e.mask, e.timesCharged N n tab ins id = 1 ↔
      e.mask.count id = 1 ∧ Numeric.ChargedOnce N tab ins := by
    intro id hid
    rw [Epoch.timesCharged, executionSequences_flatten, Numeric.wordCharges_eq (hok ins hins) (hmask id hid),
      mul_eq_one, ← Numeric.chargedOnce_iff hnamed]
    refine and_congr_right fun _ => ?_
    by_cases hp : Numeric.PipelinedOp N tab ins <;>
      by_cases ha : Numeric.Accumulates N tab ins <;> simp [hp, ha]
  rw [forall₂_congr hcharged]
  by_cases hnil : e.mask = []
  · simp [hnil]
  · obtain ⟨id, hid⟩ := List.exists_mem_of_ne_nil _ hnil
    refine ⟨fun h => ⟨List.nodup_iff_count_eq_one.mpr fun a ha => (h a ha).1, fun _ => (h id hid).2⟩,
      fun h a ha => ?_⟩
    exact ⟨List.count_eq_one_of_mem h.1 ha, h.2 hnil⟩

/-! ### The ledger's terms -/

namespace Numeric

open Numbers

/-- The ledger's charge of an instruction to the chip, behind the latency its epoch has reached with it. -/
def ledgerStep (tab : CostTab) (sequences active : ℕ) (acc : N × N) (ins : Instruction) : N × N :=
  let row := tab.row ins.opCode
  if ins.opCode = "SHIFT" then
    (acc.1 + float ins.hopLatency * float 482, acc.2 + float ins.hopEnergy * int 4097)
  else if ins.opCode = "PROP" then
    (acc.1 + float ins.hopLatency * float 12, acc.2 + float ins.hopEnergy * float 3.2768)
  else if Pipelined N row then
    let reached := acc.1 + (float row.latency * int ins.fleetSize + float row.warmupLatency) * int sequences
    (reached, acc.2 + ((float row.energyCost * int ins.fleetSize + float row.warmupEnergy) *
      int ins.multiplicativeFactor + reached * float 0.00079 * int 1000) * int active)
  else (acc.1 + float row.latency * int sequences,
    acc.2 + float row.latency * float 0.00079 * int 1000 * int active)

/-- The ledger's charge of an operation that is not pipelined to an active multi-word. -/
def ledgerWord (N : Type) [Numbers N] (n : ℕ) (tab : CostTab) (id : ℤ) (ins : Instruction) : Log N n :=
  if ins.isNamedTransfer = true ∨ Pipelined N (tab.row ins.opCode) then 0
  else match pyIndex n (clusterOf id) with
    | .ok i => .of (.word i (Sim.Chip.multiWordID id)
        (float (tab.row ins.opCode).energyCost * int ins.multiplicativeFactor))
    | .error _ => 0

/-- The terms of the ledger of an epoch: every instruction once, and every multi-word once. -/
def ledgerLog (N : Type) [Numbers N] (n : ℕ) (tab : CostTab) (e : Epoch) : Log N n :=
  let totals := e.instructions.foldl (ledgerStep tab (serialisation e.mask) e.activeWords)
      ((int 0, int 0) : N × N)
  .of (.totals totals.1 totals.2) +
    (e.mask.dedup.map fun id => (e.instructions.map (ledgerWord N n tab id)).sum).sum

theorem firstPassStep_ledger {ins : Instruction} (hok : ComputeOk N tab ins) (hmisnamed : ¬Misnamed ins)
    (sequences active : ℕ) (acc : N × N) :
    firstPassStep tab sequences active acc ins = .ok (ledgerStep tab sequences active acc ins) := by
  have hnamed : ins.isTransfer = ins.isNamedTransfer := by
    cases hnot : ins.isNamedTransfer with
    | true => exact Instruction.isTransfer_of_isNamedTransfer hnot
    | false => simpa [Misnamed, hnot] using hmisnamed
  unfold firstPassStep ledgerStep
  rw [if_neg (by simp [hok.notLoad])]
  cases htransfer : ins.isTransfer with
  | true =>
      obtain ⟨⟨a, ha⟩, b, hb⟩ := hok.transfer htransfer
      have hvalues : ins.hopLatency = a ∧ ins.hopEnergy = b := by
        rw [Instruction.hopLatency, Instruction.hopEnergy, ha, hb]
        exact ⟨rfl, rfl⟩
      rw [htransfer] at hnamed
      have hname : ins.opCode = "SHIFT" ∨ ins.opCode = "PROP" :=
        Instruction.isNamedTransfer_iff.mp hnamed.symm
      rw [hvalues.1, hvalues.2, ha, hb]
      rcases hname with h | h
      · rw [if_pos (by rw [h]; decide), if_pos h]
        rfl
      · rw [if_neg (by rw [h]; decide), if_pos (by rw [h]; decide), if_neg (by rw [h]; decide), if_pos h]
        rfl
  | false =>
      rw [htransfer] at hnamed
      have hname : ins.opCode ≠ "SHIFT" ∧ ins.opCode ≠ "PROP" :=
        not_or.mp (Instruction.not_isNamedTransfer_iff.mp hnamed.symm)
      have hsub := Instruction.not_isTransfer_iff.mp htransfer
      obtain ⟨⟨row, hrow⟩, k, hk⟩ := hok.operation hnamed.symm
      have hfleet := hok.fleet htransfer
      have hfactor : ins.multiplicativeFactor = k := by
        rw [Instruction.multiplicativeFactor, hk]
        rfl
      rw [CostTab.op_eq_row hrow] at hfleet ⊢
      rw [if_neg (by simp [hsub.1]), if_neg (by simp [hsub.2]), if_neg hname.1, if_neg hname.2, hfactor]
      simp only [hrow, hk, bind, Except.bind]
      by_cases hpipe : Pipelined N row
      · obtain ⟨f, hf⟩ := hfleet hpipe
        have hsize : ins.fleetSize = f := by
          rw [Instruction.fleetSize, hf]
          rfl
        have hwarm : isZero (float row.warmupEnergy : N) = false ∨
            isZero (float row.warmupLatency : N) = false := hpipe
        rw [if_pos hpipe, if_pos hwarm, hsize, hf]
        rfl
      · have hwarm : ¬(isZero (float row.warmupEnergy : N) = false ∨
            isZero (float row.warmupLatency : N) = false) :=
          hpipe
        rw [if_neg hpipe, if_neg hwarm]
        rfl

theorem firstPass_ledger {run : List Instruction} (hok : ∀ ins ∈ run, ComputeOk N tab ins)
    (hmisnamed : ∀ ins ∈ run, ¬Misnamed ins) (sequences active : ℕ) (acc : N × N) :
    run.foldlM (firstPassStep tab sequences active) acc =
      .ok (run.foldl (ledgerStep tab sequences active) acc) := by
  induction run generalizing acc with
  | nil => rfl
  | cons ins run ih =>
      rw [List.foldlM_cons, firstPassStep_ledger (hok ins List.mem_cons_self)
        (hmisnamed ins List.mem_cons_self)]
      exact ih (fun i hi => hok i (List.mem_cons_of_mem ins hi))
        (fun i hi => hmisnamed i (List.mem_cons_of_mem ins hi)) _

/-- The second pass charges the ledger to a multi-word, if the warmups decide alike. -/
theorem wordLog_ledger {ins : Instruction} (hok : ComputeOk N tab ins) (hmisnamed : ¬Misnamed ins)
    (honce : ins.isNamedTransfer = false → ChargedOnce N tab ins) {id : ℤ} (hid : InRange (n * 64) id) :
    wordLog N n tab id ins = .ok (ledgerWord N n tab id ins) := by
  unfold wordLog ledgerWord
  cases hnamed : ins.isNamedTransfer with
  | true =>
      have hname : ins.opCode = "SHIFT" ∨ ins.opCode = "PROP" :=
        Instruction.isNamedTransfer_iff.mp hnamed
      rw [if_pos hname, if_pos (.inl rfl)]
  | false =>
      have hname : ¬(ins.opCode = "SHIFT" ∨ ins.opCode = "PROP") :=
        Instruction.not_isNamedTransfer_iff.mp hnamed
      have htransfer : ins.isTransfer = false := by simpa [Misnamed, hnamed] using hmisnamed
      obtain ⟨⟨row, hrow⟩, k, hk⟩ := hok.operation hnamed
      obtain ⟨i, hi⟩ := exists_index hid
      have hfactor : ins.multiplicativeFactor = k := by
        rw [Instruction.multiplicativeFactor, hk]
        rfl
      have hdecide := honce hnamed
      rw [ChargedOnce, htransfer, CostTab.op_eq_row hrow] at hdecide
      rw [if_neg hname, CostTab.op_eq_row hrow, hi, hfactor]
      simp only [hrow, bind, Except.bind, Bool.false_eq_true, false_or]
      by_cases hpipe : Pipelined N row
      · have hskip : isZero (float row.warmupEnergy : N) = false ∧
            isZero (float row.warmupLatency : N) = false := by
          simp only [Bool.false_eq_true, if_false] at hdecide
          rw [Pipelined, hdecide, or_self] at hpipe
          exact ⟨hdecide.trans hpipe, hpipe⟩
        rw [if_pos hskip, if_pos hpipe]
        rfl
      · rw [if_neg fun hskip => hpipe (.inl hskip.1), if_neg hpipe]
        simp only [opLog, hk, hok.notLoad, hok.notStore, Bool.not_false, Bool.and_self, if_true,
          hi, hrow, bind, Except.bind]
        rfl

end Numeric

/-- **An epoch that charges every operation once charges the ledger**, in any arithmetic. -/
theorem Epoch.charges_ledger {e : Epoch} (hmask : ∀ id ∈ e.mask, InRange (n * 64) id)
    (hok : ∀ ins ∈ e.instructions, Numeric.ComputeOk N tab ins) (honce : e.ChargedOnce N tab)
    (hmisnamed : ∀ ins ∈ e.instructions, ¬Misnamed ins) :
    e.charges (epochLog N n tab) = .ok (ledgerLog N n tab e) := by
  have hword : ∀ id ∈ e.mask, total (wordLog N n tab id) e.instructions =
      .ok (e.instructions.map (ledgerWord N n tab id)).sum := fun id hid =>
    total_eq_ok fun ins hins => wordLog_ledger (hok ins hins) (hmisnamed ins hins)
      (fun hnamed => (honce ins hins hnamed).2 (List.ne_nil_of_mem hid)) (hmask id hid)
  rw [Epoch.charges, epochLog, Numeric.firstPass, ledgerLog, firstPass_ledger hok hmisnamed,
    total_eq_ok hword]
  by_cases hop : ∃ ins ∈ e.instructions, ins.isNamedTransfer = false
  · obtain ⟨ins, hins, hnamed⟩ := hop
    have hnodup := (honce ins hins hnamed).1
    rw [Epoch.activeWords, hnodup.dedup]
    rfl
  · -- Transfers are charged to the chip alone, however many multi-words are active.
    have hnamed : ∀ ins ∈ e.instructions, ins.isNamedTransfer = true := by
      intro ins hins
      by_contra hbad
      exact hop ⟨ins, hins, Bool.eq_false_iff.mpr hbad⟩
    have hzero : ∀ id : ℤ, (e.instructions.map (ledgerWord N n tab id)).sum = 0 := by
      intro id
      refine List.sum_eq_zero fun log hlog => ?_
      obtain ⟨ins, hins, rfl⟩ := List.mem_map.mp hlog
      exact if_pos (.inl (hnamed ins hins))
    have hstep : ∀ (acc : N × N), ∀ ins ∈ e.instructions,
        ledgerStep tab (serialisation e.mask) e.mask.length acc ins =
          ledgerStep tab (serialisation e.mask) e.activeWords acc ins := by
      intro acc ins hins
      have hname : ins.opCode = "SHIFT" ∨ ins.opCode = "PROP" :=
        Instruction.isNamedTransfer_iff.mp (hnamed ins hins)
      unfold ledgerStep
      rcases hname with h | h
      · rw [if_pos h, if_pos h]
      · rw [if_neg (by rw [h]; decide), if_pos h, if_neg (by rw [h]; decide), if_pos h]
    change (Except.ok _ : Except PyError (Log N n)) = _
    simp only [hzero, List.map_const', List.sum_replicate, smul_zero]
    rw [← List.foldl_ext _ _ _ hstep]
    rfl

end Pairs

/-! ### Programs -/

variable {dimx dimy : ℕ}

/-- **The energy ledger.** Of the launch of a well-formed program on a fresh chip, in any arithmetic: every
operation is charged exactly once to every active multi-word, by the pipelined formula or through the
accumulators, if and only if no epoch with operations has an id twice in its mask and the warmups of every
operation that meets an active multi-word decide alike in both passes; with that, and without misnamed
operations, the terms of the ledger are what is charged. In an exact arithmetic the energy per thread is then
the ledger's if and only if the excess of misnamed operations adds up to nothing. -/
theorem ledger_iff {N : Type} [Numbers N] {prog : List Instruction}
    (hwf : Numeric.WellFormed N (dimx * dimy * 64) tab prog) (hend : EndsWell prog) {m : ℤ} (hm : 1 ≤ m) :
    ∃ es c, epochs (dimx * dimy * 64) [] prog = .ok es ∧
      (Numeric.Chip.loaded tab prog : Numeric.Chip N dimx dimy).launch 0 m = some (.ok c) ∧
      ((∀ e ∈ es, e.PairsOnce N (dimx * dimy) tab) ↔ ∀ e ∈ es, e.ChargedOnce N tab) ∧
      ((∀ e ∈ es, e.ChargedOnce N tab) → (∀ e ∈ es, ∀ ins ∈ e.instructions, ¬Misnamed ins) →
        c = (Numeric.Chip.enter (es.map (ledgerLog N (dimx * dimy) tab)).sum
          { Numeric.Chip.loaded tab prog with multithread := m }).moveTo c.pc c.mask) ∧
      ∀ v : N → ℚ, Exact v →
        ((v c.getEnergyCost / m = (es.map (Epoch.ledger tab)).sum ∧ ∀ e ∈ es,
          e.PairsOnce N (dimx * dimy) tab) ↔
          (∀ e ∈ es, e.ChargedOnce N tab) ∧ (es.map (Epoch.misnamedExcess tab)).sum = 0) := by
  obtain ⟨es, hes, hepochs⟩ := ReadsOk.epochs_ok hwf
  obtain ⟨log, hlog⟩ : ∃ log, total (Epoch.charges (epochLog N (dimx * dimy) tab)) es = .ok log :=
    exists_total_ok fun e he => Numeric.epochLog_ok (hepochs e he).1 fun ins hins =>
    ((hepochs e he).2 ins hins).1
  obtain ⟨c, mask, hexecuted, hlaunch⟩ := launch_executes hend hes hlog m
  have hpairs : (∀ e ∈ es, e.PairsOnce N (dimx * dimy) tab) ↔ ∀ e ∈ es, e.ChargedOnce N tab :=
    forall₂_congr fun e he => Epoch.pairsOnce_iff (hepochs e he).1 fun ins hins =>
    ((hepochs e he).2 ins hins).1
  refine ⟨es, _, hes, hlaunch, hpairs, fun honce hmisnamed => ?_, fun v hv => ?_⟩
  · have hterms : log = (es.map (ledgerLog N (dimx * dimy) tab)).sum := by
      have hledger := total_eq_ok fun e he => Epoch.charges_ledger (hepochs e he).1
        (fun ins hins => ((hepochs e he).2 ins hins).1) (honce e he) (hmisnamed e he)
      exact Except.ok.inj (hlog.symm.trans hledger)
    let start : Numeric.Chip N dimx dimy := { Numeric.Chip.loaded tab prog with multithread := m }
    obtain ⟨last, hfold⟩ := foldlM_execute es start
    change executed N dimx dimy tab prog m es =
      (total (Epoch.charges (epochLog N (dimx * dimy) tab)) es).map _ at hfold
    rw [hexecuted, hlog, hterms] at hfold
    rw [Except.ok.inj hfold]
    rfl
  have hcosts := hv.launchCosts dimx dimy tab prog m
  rw [Numeric.launchCosts, hlaunch, launchCosts_eq (hv.wellFormed hwf) hend hes m] at hcosts
  obtain ⟨-, henergy⟩ := Prod.mk.inj (Except.ok.inj (Option.some.inj hcosts))
  change v (Numeric.Chip.getEnergyCost _) = _ at henergy
  have hm0 : (m : ℚ) ≠ 0 := by exact_mod_cast (by omega : m ≠ 0)
  rw [henergy, mul_div_cancel_right₀ _ hm0, hpairs, and_comm]
  refine and_congr_right fun hall => ?_
  have hledger : ∀ e ∈ es, epochEnergy tab e.mask e.instructions = e.ledger tab + e.misnamedExcess tab :=
    fun e he => Epoch.energy_eq_ledger fun ins hins hnamed =>
      (hall e he ins hins hnamed).imp_right fun honce hne => (hv.chargedOnce_iff hnamed).mp (honce hne)
  have hsum : (es.map fun e => epochEnergy tab e.mask e.instructions).sum =
      (es.map (Epoch.ledger tab)).sum + (es.map (Epoch.misnamedExcess tab)).sum := by
    rw [← List.sum_map_add]
    exact congrArg List.sum (List.map_congr_left hledger)
  rw [hsum, add_eq_left]

/-- A ReLU on one multi-word: its row has a warmup latency but no warmup energy. -/
def reluProg : List Instruction := [⟨"SET", ["0"]⟩, relu16, unsetall]

/-- An operation on one multi-word that is set twice. -/
def twiceProg : List Instruction := [⟨"SET", ["0"]⟩, ⟨"SET", ["0"]⟩, and8, unsetall]

/-- The ReLU is charged through both the pipelined formula and the accumulator, and a multi-word that is set
twice is charged twice, in doubles as well as exactly. -/
theorem ledger_fails_relu16 :
    (∃ latency energy, epochs 64 [] reluProg = .ok [⟨[0], [relu16]⟩] ∧
      Epoch.timesCharged PyNumber 1 exampleTab ⟨[0], [relu16]⟩ relu16 0 = 2 ∧
      Numeric.launchCosts Fraction 1 1 exampleTab reluProg 1 = some (.ok (latency, energy)) ∧
      energy.value ≠ Epoch.ledger exampleTab ⟨[0], [relu16]⟩) ∧
    ∃ latency energy, epochs 64 [] twiceProg = .ok [⟨[0, 0], [and8]⟩] ∧
      Epoch.timesCharged PyNumber 1 exampleTab ⟨[0, 0], [and8]⟩ and8 0 = 2 ∧
      Numeric.launchCosts Fraction 1 1 exampleTab twiceProg 1 = some (.ok (latency, energy)) ∧
      energy.value = 283 ∧ Epoch.ledger exampleTab ⟨[0, 0], [and8]⟩ = 141.5 := by
  refine ⟨⟨⟨703.4⟩, ⟨7635.686⟩, ?_, ?_, ?_, ?_⟩, ⟨26.4⟩, ⟨283⟩, ?_, ?_, ?_, ?_, ?_⟩
  all_goals decide +kernel

/-- A program whose additions meet every multi-word once and have both warmups. -/
theorem ledger_iff_example :
    (∃ es c, epochs (1 * 1 * 64) [] exampleProg = .ok es ∧
      (Numeric.Chip.loaded exampleTab exampleProg : Numeric.Chip PyNumber 1 1).launch 0 2 = some (.ok c) ∧
      (∀ e ∈ es, e.PairsOnce PyNumber 1 exampleTab) ∧
      c = (Numeric.Chip.enter (es.map (ledgerLog PyNumber (1 * 1) exampleTab)).sum
        { Numeric.Chip.loaded exampleTab exampleProg with multithread := 2 }).moveTo c.pc c.mask) ∧
    ∃ es c, epochs (1 * 1 * 64) [] exampleProg = .ok es ∧
      (Numeric.Chip.loaded exampleTab exampleProg : Numeric.Chip Fraction 1 1).launch 0 2 = some (.ok c) ∧
      c.getEnergyCost.value / (2 : ℤ) = (es.map (Epoch.ledger exampleTab)).sum ∧
      ∀ e ∈ es, e.PairsOnce Fraction 1 exampleTab := by
  obtain ⟨es, c, hes, hlaunch, hpairs, hterms, -⟩ := @ledger_iff exampleTab 1 1 PyNumber _ exampleProg
    (Numeric.wellFormed_exampleProg PyNumber _) endsWell_exampleProg 2 (by decide)
  obtain ⟨es', c', hes', hlaunch', -, -, hledger⟩ := @ledger_iff exampleTab 1 1 Fraction _ exampleProg
    (Numeric.wellFormed_exampleProg Fraction _) endsWell_exampleProg 2 (by decide)
  have hepochs : epochs (1 * 1 * 64) [] exampleProg =
      .ok [⟨(List.range 64).map fun i : ℕ => (i : ℤ), [add16, shift]⟩] := by
    decide +kernel
  cases hes.symm.trans hepochs
  cases hes'.symm.trans hepochs
  refine ⟨⟨_, c, hes, hlaunch, hpairs.mpr (by decide +kernel),
    hterms (by decide +kernel) (by decide +kernel)⟩, _, c', hes',
    hlaunch', ?_⟩
  exact (hledger _ exact_fraction).mpr ⟨by decide +kernel, by decide +kernel⟩

end RacerArtifacts.Sim
