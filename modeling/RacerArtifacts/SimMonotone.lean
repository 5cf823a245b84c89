import RacerArtifacts.LibFallible
import RacerArtifacts.SimPrograms

/-! More active multi-words never cost less. What an epoch charges is read off its instructions alone, whether
or not every operand can be read: an epoch that has been executed has read the operands it uses. Latency grows
with the number of execution sequences, which grows with the mask, and energy with the active ids and the
latency that has accumulated. -/

namespace RacerArtifacts.Sim

open Charging Fallible

/-! ### What an executed epoch has charged -/

/-- The readings of the first pass over one instruction. -/
def firstPassRead (tab : CostTab) (ins : Instruction) : Except PyError Unit :=
  (firstPassStep tab 0 0 (0, 0) ins).map fun _ => ()

variable {tab : CostTab} {ins : Instruction}

/-- The first pass fails for its readings alone, and charges what the instruction says. -/
theorem firstPassStep_read (hload : hasSub "LOAD" ins.opCode = false) (sequences active : ℕ) (acc : ℚ × ℚ) :
    firstPassStep tab sequences active acc ins = (firstPassRead tab ins).map fun _ =>
      (acc.1 + latencyOf tab sequences ins,
        acc.2 + energyOf tab active (acc.1 + latencyOf tab sequences ins) ins) := by
  have hpower (x : ℚ) : x * 0.00079 * 1000 = x * 0.79 := by
    norm_num
    ring
  unfold firstPassRead firstPassStep latencyOf energyOf
  simp only [hload, Bool.false_eq_true, if_false]
  by_cases hshift : hasSub "SHIFT" ins.opCode = true
  · simp only [if_pos hshift, Instruction.hopLatency, Instruction.hopEnergy]
    cases ins.float 1 with
    | error e => rfl
    | ok hops => cases ins.float 2 <;> rfl
  by_cases hprop : hasSub "PROP" ins.opCode = true
  · simp only [if_neg hshift, if_pos hprop, Instruction.hopLatency, Instruction.hopEnergy]
    cases ins.float 1 with
    | error e => rfl
    | ok props => cases ins.float 2 <;> rfl
  simp only [if_neg hshift, if_neg hprop]
  cases hrow : tab.op ins.opCode with
  | error e => rfl
  | ok row =>
      rw [CostTab.op_eq_row hrow, Instruction.multiplicativeFactor]
      cases ins.intFromEnd 1 with
      | error e => rfl
      | ok factor =>
          by_cases hpipe : row.Pipelined
          · have hbranch : row.warmupEnergy ≠ 0 ∨ row.warmupLatency ≠ 0 := hpipe
            simp only [bind, Except.bind, if_pos hbranch, if_pos hpipe, Instruction.fleetSize, hpower]
            cases ins.intFromEnd 2 <;> rfl
          · have hbranch : ¬(row.warmupEnergy ≠ 0 ∨ row.warmupLatency ≠ 0) := hpipe
            simp only [bind, Except.bind, if_neg hbranch, if_neg hpipe, hpower]
            rfl

/-- **The first pass of an epoch** without loads. -/
theorem firstPass_ok_iff {run : List Instruction} (hload : ∀ ins ∈ run, hasSub "LOAD" ins.opCode = false)
    (sequences active : ℕ) (p : ℚ × ℚ) :
    firstPass tab sequences active run = .ok p ↔
      (∀ ins ∈ run, firstPassRead tab ins = .ok ()) ∧
        p = (runLatency tab sequences run, chipEnergy tab sequences active 0 run) := by
  have hfold (run : List Instruction) (hload : ∀ ins ∈ run, hasSub "LOAD" ins.opCode = false)
      (acc p : ℚ × ℚ) :
      run.foldlM (firstPassStep tab sequences active) acc = .ok p ↔
        (∀ ins ∈ run, firstPassRead tab ins = .ok ()) ∧
          p = (acc.1 + runLatency tab sequences run, acc.2 + chipEnergy tab sequences active acc.1 run) := by
    induction run generalizing acc with
    | nil =>
        rw [runLatency, chipEnergy, List.map_nil, List.sum_nil, add_zero, add_zero]
        constructor
        · intro h
          exact ⟨List.forall_mem_nil _, (Except.ok.inj h).symm⟩
        · rintro ⟨-, rfl⟩
          rfl
    | cons ins run ih =>
        rw [List.foldlM_cons, firstPassStep_read (hload ins List.mem_cons_self), List.forall_mem_cons]
        cases hread : firstPassRead tab ins with
        | error e => exact iff_of_false (fun h => by cases h) fun h => by cases h.1.1
        | ok u =>
            change run.foldlM (firstPassStep tab sequences active) _ = _ ↔ _
            rw [ih fun i hi => hload i (List.mem_cons_of_mem ins hi), chipEnergy, runLatency, runLatency,
              List.map_cons, List.sum_cons, add_assoc, add_assoc,
                and_iff_right (show Except.ok u = .ok () from rfl)]
  rw [firstPass, hfold run hload, zero_add, zero_add]

namespace Tally

variable {n : ℕ}

/-- Latency, and the energy of the chip and its multi-words. -/
def added : Tally n →+ ℚ × ℚ where
  toFun t := (t.latency, t.energy + t.wordEnergy)
  map_zero' := by simp
  map_add' s t := by
    rw [add_latency, add_energy, wordEnergy_add, add_add_add_comm]
    rfl

theorem added_apply (t : Tally n) : added t = (t.latency, t.energy + t.wordEnergy) := rfl

theorem added_word (i : Fin n) (j : Fin 64) (e : ℚ) : added (word i j e) = (0, e) := by
  rw [added_apply, wordEnergy_word]
  simp [word]

theorem added_totals (latency energy : ℚ) : added (totals latency energy : Tally n) = (latency, energy) := by
  simp [added_apply, totals, wordEnergy]

end Tally

/-- The second pass over one instruction that has been executed has charged its energy. -/
theorem wordTally_added {n : ℕ} {id : ℤ} {t : Tally n} (hload : hasSub "LOAD" ins.opCode = false)
    (hstore : hasSub "STORE" ins.opCode = false) (h : wordTally n tab id ins = .ok t) :
    t.added = (0, wordEnergyOf tab ins) := by
  unfold wordTally at h
  cases hnamed : ins.isNamedTransfer with
  | true =>
      have hname : ins.opCode = "SHIFT" ∨ ins.opCode = "PROP" :=
        Instruction.isNamedTransfer_iff.mp hnamed
      have hacc : ¬Accumulates tab ins := fun h => by simp [h.1] at hnamed
      rw [if_pos hname] at h
      cases h
      rw [wordEnergyOf, if_neg hacc, map_zero]
      rfl
  | false =>
      have hname : ¬(ins.opCode = "SHIFT" ∨ ins.opCode = "PROP") :=
        Instruction.not_isNamedTransfer_iff.mp hnamed
      rw [if_neg hname] at h
      obtain ⟨row, hrow, h⟩ := bind_ok h
      have hrow' := CostTab.op_eq_row hrow
      by_cases hskip : row.warmupEnergy ≠ 0 ∧ row.warmupLatency ≠ 0
      · have hacc : ¬Accumulates tab ins := fun h => h.2 (by rw [hrow']; exact hskip)
        rw [if_pos hskip] at h
        cases h
        rw [wordEnergyOf, if_neg hacc, map_zero]
        rfl
      · have hacc : Accumulates tab ins := ⟨hnamed, by rw [hrow']; exact hskip⟩
        rw [if_neg hskip, opTally] at h
        obtain ⟨factor, hfactor, h⟩ := bind_ok h
        simp only [hload, hstore, Bool.not_false, Bool.and_self, if_true] at h
        obtain ⟨clusterID, -, h⟩ := bind_ok h
        obtain ⟨row', hrow'', h⟩ := bind_ok h
        cases h
        rw [hrow] at hrow''
        cases hrow''
        rw [Tally.added_word, wordEnergyOf, if_pos hacc, hrow', Instruction.multiplicativeFactor, hfactor]
        rfl

variable {n : ℕ} {mask mask' : List ℤ} {run : List Instruction}

/-- A run without loads and stores. -/
def ComputeOnly (run : List Instruction) : Prop :=
  ∀ ins ∈ run, hasSub "LOAD" ins.opCode = false ∧ hasSub "STORE" ins.opCode = false

/-- **What an executed epoch has added**, without loads and stores. -/
theorem epochTally_added {t : Tally n} (hrun : ComputeOnly run) (h : epochTally n tab mask run = .ok t) :
    t.added = (epochLatency tab mask run, epochEnergy tab mask run) := by
  obtain ⟨p, hfirst, h⟩ := bind_ok h
  obtain ⟨words, hwords, h⟩ := bind_ok h
  cases h
  obtain ⟨-, rfl⟩ := (firstPass_ok_iff (fun ins hins => (hrun ins hins).1) _ _ p).mp hfirst
  have hword : ∀ id ∈ mask, ∀ ins ∈ run,
      (wordTally n tab id ins).map Tally.added = .ok (0, wordEnergyOf tab ins) := by
    intro id hid ins hins
    obtain ⟨t, ht⟩ := ok_of_total_ok hwords id hid
    obtain ⟨t', ht'⟩ := ok_of_total_ok ht ins hins
    rw [ht']
    exact congrArg Except.ok (wordTally_added (hrun ins hins).1 (hrun ins hins).2 ht')
  have hmeasure := total_words_map Tally.added hword
  rw [hwords] at hmeasure
  rw [map_add, Tally.added_totals, Except.ok.inj hmeasure,
    sum_map_energy (wordEnergyOf tab) run, epochLatency,
    epochEnergy, runWordEnergy, serialisation]
  simp

/-- An epoch executed under a mask is executed under every part of the mask. -/
theorem epochTally_sublist {t' : Tally n} (hrun : ComputeOnly run) (hsub : mask.Sublist mask')
    (h : epochTally n tab mask' run = .ok t') : ∃ t, epochTally n tab mask run = .ok t := by
  obtain ⟨p, hfirst, h⟩ := bind_ok h
  obtain ⟨words, hwords, -⟩ := bind_ok h
  have hload : ∀ ins ∈ run, hasSub "LOAD" ins.opCode = false := fun ins hins => (hrun ins hins).1
  obtain ⟨hread, -⟩ := (firstPass_ok_iff hload _ _ p).mp hfirst
  obtain ⟨words', hwords'⟩ := exists_total_ok fun id hid => ok_of_total_ok hwords id (hsub.subset hid)
  have hfirst' := (firstPass_ok_iff hload (executionSequences mask).length mask.length _).mpr ⟨hread, rfl⟩
  refine ⟨Tally.totals (runLatency tab (serialisation mask) run)
    (chipEnergy tab (serialisation mask) mask.length 0 run) + words', ?_⟩
  simp only [epochTally, hfirst', hwords', bind, Except.bind]
  rfl

/-! ### Monotonicity -/

/-- A cost table of non-negative latencies and energies. -/
def CostTab.NonNegative (tab : CostTab) : Prop :=
  ∀ op row, tab.op op = .ok row → 0 ≤ row.latency ∧ 0 ≤ row.energyCost

/-- An instruction that is charged non-negative amounts: the hops of a transfer, the factor of an operation,
and the totals of a pipelined one. -/
structure Instruction.NonNegative (tab : CostTab) (ins : Instruction) : Prop where
  hops : ins.isTransfer = true → 0 ≤ ins.hopLatency
  factor : Accumulates tab ins → 0 ≤ ins.multiplicativeFactor
  latency : PipelinedOp tab ins →
    0 ≤ (tab.row ins.opCode).latency * ins.fleetSize + (tab.row ins.opCode).warmupLatency
  energy : PipelinedOp tab ins →
    0 ≤ ((tab.row ins.opCode).energyCost * ins.fleetSize + (tab.row ins.opCode).warmupEnergy) *
      ins.multiplicativeFactor

theorem CostTab.NonNegative.row (h : tab.NonNegative) (op : String) :
    0 ≤ (tab.row op).latency ∧ 0 ≤ (tab.row op).energyCost := by
  unfold CostTab.row
  cases hl : tab.opTab.lookup op with
  | none => exact ⟨le_rfl, le_rfl⟩
  | some row => exact h op row (by rw [CostTab.op, hl])

variable {sequences sequences' active active' : ℕ}

/-- The latency of an instruction is non-negative and grows with the sequences. -/
theorem latencyOf_mono (htab : tab.NonNegative) (hins : ins.NonNegative tab) (hle : sequences ≤ sequences') :
    0 ≤ latencyOf tab sequences ins ∧ latencyOf tab sequences ins ≤ latencyOf tab sequences' ins := by
  have hcast : (sequences : ℚ) ≤ sequences' := Nat.cast_le.mpr hle
  unfold latencyOf
  by_cases hshift : hasSub "SHIFT" ins.opCode = true
  · have hhops := hins.hops (by simp [Instruction.isTransfer, hshift])
    rw [if_pos hshift, if_pos hshift]
    exact ⟨mul_nonneg hhops (by norm_num), le_rfl⟩
  rw [if_neg hshift, if_neg hshift]
  by_cases hprop : hasSub "PROP" ins.opCode = true
  · have hhops := hins.hops (by simp [Instruction.isTransfer, hprop])
    rw [if_pos hprop, if_pos hprop]
    exact ⟨mul_nonneg hhops (by norm_num), le_rfl⟩
  rw [if_neg hprop, if_neg hprop]
  by_cases hpipe : (tab.row ins.opCode).Pipelined
  · have htotal := hins.latency ⟨by simp [Instruction.isTransfer, hshift, hprop], hpipe⟩
    simp only [if_pos hpipe]
    exact ⟨mul_nonneg htotal (Nat.cast_nonneg _), mul_le_mul_of_nonneg_left hcast htotal⟩
  · have hlatency := (htab.row ins.opCode).1
    simp only [if_neg hpipe]
    exact ⟨mul_nonneg hlatency (Nat.cast_nonneg _), mul_le_mul_of_nonneg_left hcast hlatency⟩

/-- The energy of an instruction grows with the active ids and with the latency accumulated before. -/
theorem energyOf_mono (htab : tab.NonNegative) (hins : ins.NonNegative tab) (hle : active ≤ active')
    {latency latency' : ℚ} (hnonneg : 0 ≤ latency) (hlatency : latency ≤ latency') :
    energyOf tab active latency ins ≤ energyOf tab active' latency' ins := by
  have hcast : (active : ℚ) ≤ active' := Nat.cast_le.mpr hle
  unfold energyOf
  by_cases hshift : hasSub "SHIFT" ins.opCode = true
  · rw [if_pos hshift, if_pos hshift]
  rw [if_neg hshift, if_neg hshift]
  by_cases hprop : hasSub "PROP" ins.opCode = true
  · rw [if_pos hprop, if_pos hprop]
  rw [if_neg hprop, if_neg hprop]
  by_cases hpipe : (tab.row ins.opCode).Pipelined
  · have htotal := hins.energy ⟨by simp [Instruction.isTransfer, hshift, hprop], hpipe⟩
    simp only [if_pos hpipe]
    gcongr
    · linarith
  · have hrow := (htab.row ins.opCode).1
    simp only [if_neg hpipe]
    gcongr

theorem wordEnergyOf_nonneg (htab : tab.NonNegative) (hins : ins.NonNegative tab) :
    0 ≤ wordEnergyOf tab ins := by
  unfold wordEnergyOf
  split
  · rename_i hacc
    exact mul_nonneg (htab.row ins.opCode).2 (Int.cast_nonneg (hins.factor hacc))
  · exact le_rfl

theorem runLatency_mono (htab : tab.NonNegative) (hrun : ∀ ins ∈ run, ins.NonNegative tab)
    (hle : sequences ≤ sequences') : runLatency tab sequences run ≤ runLatency tab sequences' run :=
  List.sum_le_sum fun ins hins => (latencyOf_mono htab (hrun ins hins) hle).2

/-- The chip's energy grows with the factor, the active ids and the latency it starts from. -/
theorem chipEnergy_mono (htab : tab.NonNegative) (hrun : ∀ ins ∈ run, ins.NonNegative tab)
    (hsequences : sequences ≤ sequences') (hactive : active ≤ active') {latency latency' : ℚ}
    (hnonneg : 0 ≤ latency) (hlatency : latency ≤ latency') :
    chipEnergy tab sequences active latency run ≤ chipEnergy tab sequences' active' latency' run := by
  induction run generalizing latency latency' with
  | nil => exact le_rfl
  | cons ins run ih =>
      have hins := hrun ins List.mem_cons_self
      obtain ⟨hpos, hgrow⟩ := latencyOf_mono htab hins hsequences
      have hreached : 0 ≤ latency + latencyOf tab sequences ins := add_nonneg hnonneg hpos
      have hreached' := add_le_add hlatency hgrow
      rw [chipEnergy, chipEnergy]
      apply add_le_add
      · exact energyOf_mono htab hins hactive hreached hreached'
      · exact ih (fun i hi => hrun i (List.mem_cons_of_mem ins hi)) hreached hreached'

theorem serialisation_sublist (h : mask.Sublist mask') : serialisation mask ≤ serialisation mask' := by
  rw [serialisation, serialisation, executionSequences_eq_cut, executionSequences_eq_cut]
  exact Split.cut_length_sublist h

theorem epochCosts_mono (htab : tab.NonNegative) (hrun : ∀ ins ∈ run, ins.NonNegative tab)
    (h : mask.Sublist mask') :
    epochLatency tab mask run ≤ epochLatency tab mask' run ∧
    epochEnergy tab mask run ≤ epochEnergy tab mask' run := by
  have hfactor := serialisation_sublist h
  have hwords : 0 ≤ runWordEnergy tab run := by
    apply List.sum_nonneg
    intro e he
    obtain ⟨ins, hins, rfl⟩ := List.mem_map.mp he
    exact wordEnergyOf_nonneg htab (hrun ins hins)
  refine ⟨runLatency_mono htab hrun hfactor, add_le_add ?_ ?_⟩
  · exact chipEnergy_mono htab hrun hfactor h.length_le le_rfl le_rfl
  · exact mul_le_mul_of_nonneg_right (Nat.cast_le.mpr h.length_le) hwords

namespace Chip

variable {dimx dimy : ℕ} {c c₂ : Chip dimx dimy}

theorem executeEpoch_eq {pc : ℕ} (hfetch : fetchLoop (c.instructionMemory.drop c.pc) c.pc [] =
    .ok (pc, run)) :
    c.executeEpoch = (epochTally (dimx * dimy) c.costTab c.mask run).map (· +ᵥ { c with pc := pc }) := by
  rw [executeEpoch, hfetch]
  exact runEpoch_eq { c with pc := pc } run

/-- **More active multi-words never cost less.** An epoch that `executeEpoch` completes under a mask it
completes under every part of it, and adds at most the latency and the energy, of the chip and its
multi-words. -/
theorem executeEpoch_mono {m m' : List ℤ} (hsub : m.Sublist m') {pc : ℕ}
    (hfetch : fetchLoop (c.instructionMemory.drop c.pc) c.pc [] = .ok (pc, run)) (hrun : ComputeOnly run)
    (htab : c.costTab.NonNegative) (hins : ∀ ins ∈ run, ins.NonNegative c.costTab)
    (hlarge : ({ c with mask := m' } : Chip dimx dimy).executeEpoch = .ok c₂) :
    ∃ c₁, ({ c with mask := m } : Chip dimx dimy).executeEpoch = .ok c₁ ∧
      c₁.latency - c.latency ≤ c₂.latency - c.latency ∧
      (c₁.energy + c₁.tally.wordEnergy) - (c.energy + c.tally.wordEnergy) ≤
        (c₂.energy + c₂.tally.wordEnergy) - (c.energy + c.tally.wordEnergy) := by
  rw [executeEpoch_eq (c := { c with mask := m' }) hfetch] at hlarge
  obtain ⟨t₂, ht₂, rfl⟩ := map_ok hlarge
  obtain ⟨t₁, ht₁⟩ := epochTally_sublist hrun hsub ht₂
  refine ⟨t₁ +ᵥ { c with mask := m, pc := pc }, ?_, ?_⟩
  · rw [executeEpoch_eq (c := { c with mask := m }) hfetch, ht₁]
    rfl
  obtain ⟨hlatency, henergy⟩ := epochCosts_mono htab hins hsub
  have h₁ := Prod.mk.inj ((Tally.added_apply t₁).symm.trans (epochTally_added hrun ht₁))
  have h₂ := Prod.mk.inj ((Tally.added_apply t₂).symm.trans (epochTally_added hrun ht₂))
  rw [← h₁.1, ← h₂.1] at hlatency
  rw [← h₁.2, ← h₂.2] at henergy
  have hwords : ∀ (t : Tally (dimx * dimy)) (m : List ℤ),
      (t +ᵥ ({ c with mask := m, pc := pc } : Chip dimx dimy)).tally.wordEnergy =
        c.tally.wordEnergy + t.wordEnergy := fun t m => by
    rw [tally_vadd, Tally.wordEnergy_add]
    rfl
  constructor
  · change c.latency + t₁.latency - c.latency ≤ c.latency + t₂.latency - c.latency
    linarith
  · rw [hwords, hwords]
    change c.energy + t₁.energy + _ - _ ≤ c.energy + t₂.energy + _ - _
    linarith

end Chip

theorem nonNegative_exampleTab : exampleTab.NonNegative := by
  have hrows : ∀ p ∈ exampleTab.opTab, 0 ≤ p.2.latency ∧ 0 ≤ p.2.energyCost := by
    simp only [exampleTab, List.forall_mem_cons]
    norm_num
  intro op row h
  unfold CostTab.op at h
  split at h
  · rename_i row' hlookup
    cases h
    obtain ⟨before, after, hsplit, -⟩ := List.lookup_eq_some_iff.mp hlookup
    exact hrows (op, row) (by rw [hsplit]; simp)
  · cases h

theorem nonNegative_add16 : add16.NonNegative exampleTab := by
  have hfactor : add16.multiplicativeFactor = 4 := by decide
  have hfleet : add16.fleetSize = 14 := by decide
  have hrow : exampleTab.row add16.opCode = ⟨352, 1024, 72.7, 4096, 1.22, 1015⟩ := rfl
  refine ⟨fun h => absurd h (by decide), fun _ => ?_, fun _ => ?_, fun _ => ?_⟩
  · rw [hfactor]
    norm_num
  · rw [hrow, hfleet]
    norm_num
  · rw [hrow, hfleet, hfactor]
    norm_num

/-- The chip in front of a pipelined addition. -/
def addEpoch : Chip 1 1 := (Chip.init exampleTab).append [add16, unsetall]

/-- One multi-word against two of one cluster. -/
theorem executeEpoch_mono_add16 :
    ∃ c₁ c₂ : Chip 1 1, ({ addEpoch with mask := [0] } : Chip 1 1).executeEpoch = .ok c₁ ∧
      ({ addEpoch with mask := [0, 1] } : Chip 1 1).executeEpoch = .ok c₂ ∧
      c₁.latency - addEpoch.latency ≤ c₂.latency - addEpoch.latency ∧
      (c₁.energy + c₁.tally.wordEnergy) - (addEpoch.energy + addEpoch.tally.wordEnergy) ≤
        (c₂.energy + c₂.tally.wordEnergy) - (addEpoch.energy + addEpoch.tally.wordEnergy) := by
  have hfetch : fetchLoop (addEpoch.instructionMemory.drop addEpoch.pc) addEpoch.pc [] =
      .ok (1, [add16]) := rfl
  have hids : ∀ id ∈ [0, 1], InRange (1 * 1 * 64) id := by decide
  obtain ⟨t, ht, -⟩ := epochTally_ok (List.forall_mem_singleton.mpr computeOk_add16) (reaches_of_inRange hids)
  have hlarge : ({ addEpoch with mask := [0, 1] } : Chip 1 1).executeEpoch =
      .ok (t +ᵥ { addEpoch with mask := [0, 1], pc := 1 }) := by
    rw [Chip.executeEpoch_eq (c := { addEpoch with mask := [0, 1] }) hfetch]
    change (epochTally (1 * 1) exampleTab [0, 1] [add16]).map _ = _
    rw [ht]
    rfl
  have hsub : [(0 : ℤ)].Sublist [0, 1] := by decide
  obtain ⟨c₁, hsmall, hcosts⟩ := Chip.executeEpoch_mono hsub hfetch
    (List.forall_mem_singleton.mpr ⟨by decide, by decide⟩) nonNegative_exampleTab
    (List.forall_mem_singleton.mpr nonNegative_add16) hlarge
  exact ⟨c₁, _, hsmall, hlarge, hcosts⟩

end RacerArtifacts.Sim
