import Mathlib
import RacerArtifacts.SimTally

/-! What each compute instruction charges. The four branches of the first pass and the accumulator of
the second are read off as one latency, one energy and one energy per multi-word for every
instruction; only the energy of a pipelined operation depends on the instructions before it, through
the latency the epoch has accumulated. -/

namespace RacerArtifacts.Sim

open Charging

/-! ### Operands and rows -/

/-- The value of a reading, nothing where it failed. -/
def valueOf {α : Type} [Zero α] : Except PyError α → α
  | .ok a => a
  | .error _ => 0

namespace Instruction

/-- `float(instruction[1])` of a SHIFT or PROP. -/
def hopLatency (ins : Instruction) : ℚ := valueOf (ins.float 1)

/-- `float(instruction[2])` of a SHIFT or PROP. -/
def hopEnergy (ins : Instruction) : ℚ := valueOf (ins.float 2)

def multiplicativeFactor (ins : Instruction) : ℤ := valueOf (ins.intFromEnd 1)

def fleetSize (ins : Instruction) : ℤ := valueOf (ins.intFromEnd 2)

/-- The name test of the first pass: the opcode contains SHIFT or PROP. -/
def isTransfer (ins : Instruction) : Bool := hasSub "SHIFT" ins.opCode || hasSub "PROP" ins.opCode

/-- The name test of the second pass: the opcode is SHIFT or PROP. -/
def isNamedTransfer (ins : Instruction) : Bool := ins.opCode = "SHIFT" || ins.opCode = "PROP"

theorem isNamedTransfer_iff {ins : Instruction} :
    ins.isNamedTransfer = true ↔ ins.opCode = "SHIFT" ∨ ins.opCode = "PROP" := by
  rw [isNamedTransfer, Bool.or_eq_true, decide_eq_true_eq, decide_eq_true_eq]

theorem not_isNamedTransfer_iff {ins : Instruction} :
    ins.isNamedTransfer = false ↔ ¬(ins.opCode = "SHIFT" ∨ ins.opCode = "PROP") := by
  rw [← isNamedTransfer_iff, Bool.not_eq_true]

theorem not_isTransfer_iff {ins : Instruction} :
    ins.isTransfer = false ↔ hasSub "SHIFT" ins.opCode = false ∧ hasSub "PROP" ins.opCode = false := by
  rw [isTransfer, Bool.or_eq_false_iff]

theorem isTransfer_of_isNamedTransfer {ins : Instruction} (h : ins.isNamedTransfer = true) :
    ins.isTransfer = true := by
  rcases isNamedTransfer_iff.mp h with h | h
  · simp [isTransfer, h, show hasSub "SHIFT" "SHIFT" = true by decide]
  · simp [isTransfer, h, show hasSub "PROP" "PROP" = true by decide]

theorem not_isNamedTransfer_of_not_isTransfer {ins : Instruction} (h : ins.isTransfer = false) :
    ins.isNamedTransfer = false := by
  by_contra hnamed
  rw [Bool.not_eq_false] at hnamed
  exact Bool.false_ne_true (h.symm.trans (isTransfer_of_isNamedTransfer hnamed))

end Instruction

/-- The row of an opcode, all zero where there is none. -/
def CostTab.row (tab : CostTab) (op : String) : OpCost :=
  (tab.opTab.lookup op).getD ⟨0, 0, 0, 0, 0, 0⟩

theorem CostTab.op_eq_row {tab : CostTab} {op : String} {row : OpCost} (h : tab.op op = .ok row) :
    tab.row op = row := by
  unfold CostTab.op at h
  unfold CostTab.row
  cases hl : tab.opTab.lookup op with
  | none => rw [hl] at h; cases h
  | some r =>
      rw [hl] at h
      cases h
      rfl

/-- The first pass takes an operation to be pipelined. -/
def OpCost.Pipelined (row : OpCost) : Prop := row.warmupEnergy ≠ 0 ∨ row.warmupLatency ≠ 0

/-- The second pass takes an operation to have been charged as pipelined. -/
def OpCost.Skipped (row : OpCost) : Prop := row.warmupEnergy ≠ 0 ∧ row.warmupLatency ≠ 0

instance (row : OpCost) : Decidable row.Pipelined := inferInstanceAs (Decidable (_ ∨ _))
instance (row : OpCost) : Decidable row.Skipped := inferInstanceAs (Decidable (_ ∧ _))

/-- A compute instruction other than a load or a store whose operands can be read: an opcode the second
pass does not take for a transfer is in the table. -/
structure ComputeOk (tab : CostTab) (ins : Instruction) : Prop where
  notLoad : hasSub "LOAD" ins.opCode = false
  notStore : hasSub "STORE" ins.opCode = false
  transfer : ins.isTransfer = true → (∃ a, ins.float 1 = .ok a) ∧ ∃ b, ins.float 2 = .ok b
  operation : ins.isNamedTransfer = false →
    (∃ row, tab.op ins.opCode = .ok row) ∧ ∃ k, ins.intFromEnd 1 = .ok k
  fleet : ins.isTransfer = false → (tab.row ins.opCode).Pipelined → ∃ k, ins.intFromEnd 2 = .ok k

/-! ### The charges of one instruction -/

/-- What an instruction adds to the latency of an epoch with so many sequences. -/
def latencyOf (tab : CostTab) (sequences : ℕ) (ins : Instruction) : ℚ :=
  if hasSub "SHIFT" ins.opCode then ins.hopLatency * 482
  else if hasSub "PROP" ins.opCode then ins.hopLatency * 12
  else
    let row := tab.row ins.opCode
    if row.Pipelined then (row.latency * ins.fleetSize + row.warmupLatency) * sequences
    else row.latency * sequences

/-- What it adds to the energy of an epoch with so many active ids, where `latency` is the latency
accumulated up to and including the instruction. -/
def energyOf (tab : CostTab) (active : ℕ) (latency : ℚ) (ins : Instruction) : ℚ :=
  if hasSub "SHIFT" ins.opCode then ins.hopEnergy * 4097
  else if hasSub "PROP" ins.opCode then ins.hopEnergy * 3.2768
  else
    let row := tab.row ins.opCode
    if row.Pipelined then
      ((row.energyCost * ins.fleetSize + row.warmupEnergy) * ins.multiplicativeFactor + latency *
        0.79) * active
    else row.latency * 0.79 * active

/-- The second pass charges the instruction to every active multi-word. -/
def Accumulates (tab : CostTab) (ins : Instruction) : Prop :=
  ins.isNamedTransfer = false ∧ ¬(tab.row ins.opCode).Skipped

instance (tab : CostTab) (ins : Instruction) : Decidable (Accumulates tab ins) :=
  inferInstanceAs (Decidable (_ ∧ _))

/-- What the second pass adds to the energy of each active multi-word. -/
def wordEnergyOf (tab : CostTab) (ins : Instruction) : ℚ :=
  if Accumulates tab ins then (tab.row ins.opCode).energyCost * ins.multiplicativeFactor else 0

/-- The first pass charges the instruction by the pipelined formula. -/
def PipelinedOp (tab : CostTab) (ins : Instruction) : Prop :=
  ins.isTransfer = false ∧ (tab.row ins.opCode).Pipelined

instance (tab : CostTab) (ins : Instruction) : Decidable (PipelinedOp tab ins) :=
  inferInstanceAs (Decidable (_ ∧ _))

variable {tab : CostTab}

theorem firstPassStep_eq {ins : Instruction} (hok : ComputeOk tab ins) (sequences active : ℕ) (acc : ℚ × ℚ) :
    firstPassStep tab sequences active acc ins =
      .ok (acc.1 + latencyOf tab sequences ins,
        acc.2 + energyOf tab active (acc.1 + latencyOf tab sequences ins) ins) := by
  unfold firstPassStep latencyOf energyOf
  rw [if_neg (by simp [hok.notLoad])]
  by_cases hshift : hasSub "SHIFT" ins.opCode = true
  · obtain ⟨⟨a, ha⟩, b, hb⟩ := hok.transfer (by simp [Instruction.isTransfer, hshift])
    simp only [if_pos hshift, ha, hb, Instruction.hopLatency, Instruction.hopEnergy, valueOf]
    rfl
  by_cases hprop : hasSub "PROP" ins.opCode = true
  · obtain ⟨⟨a, ha⟩, b, hb⟩ := hok.transfer (by simp [Instruction.isTransfer, hprop])
    simp only [if_neg hshift, if_pos hprop, ha, hb, Instruction.hopLatency, Instruction.hopEnergy, valueOf]
    rfl
  have htransfer : ins.isTransfer = false := by simp [Instruction.isTransfer, hshift, hprop]
  have hnamed := Instruction.not_isNamedTransfer_of_not_isTransfer htransfer
  obtain ⟨⟨row, hrow⟩, k, hk⟩ := hok.operation hnamed
  have hfleet := hok.fleet htransfer
  rw [CostTab.op_eq_row hrow] at hfleet ⊢
  simp only [if_neg hshift, if_neg hprop, hrow, hk, bind, Except.bind]
  have hpower (x : ℚ) : x * 0.00079 * 1000 = x * 0.79 := by
    norm_num
    ring
  by_cases hpipe : row.Pipelined
  · obtain ⟨f, hf⟩ := hfleet hpipe
    have hbranch : row.warmupEnergy ≠ 0 ∨ row.warmupLatency ≠ 0 := hpipe
    rw [if_pos hbranch, if_pos hpipe, if_pos hpipe]
    simp only [hf, hk, hpower, Instruction.fleetSize, Instruction.multiplicativeFactor, valueOf]
    rfl
  · have hbranch : ¬(row.warmupEnergy ≠ 0 ∨ row.warmupLatency ≠ 0) := hpipe
    rw [if_neg hbranch, if_neg hpipe, if_neg hpipe]
    simp only [hpower]
    rfl

theorem wordTally_eq {ins : Instruction} (hok : ComputeOk tab ins) (n : ℕ) (id : ℤ) :
    wordTally n tab id ins =
      if Accumulates tab ins then
        (pyIndex n (clusterOf id)).map fun i => Tally.word i (Chip.multiWordID id) (wordEnergyOf tab ins)
      else .ok 0 := by
  unfold wordTally
  cases hnamed : ins.isNamedTransfer with
  | true =>
      have hname : ins.opCode = "SHIFT" ∨ ins.opCode = "PROP" :=
        Instruction.isNamedTransfer_iff.mp hnamed
      have hacc : ¬Accumulates tab ins := fun h => by
        have := h.1
        rw [hnamed] at this
        cases this
      rw [if_pos hname, if_neg hacc]
  | false =>
      have hname : ¬(ins.opCode = "SHIFT" ∨ ins.opCode = "PROP") :=
        Instruction.not_isNamedTransfer_iff.mp hnamed
      obtain ⟨⟨row, hrow⟩, k, hk⟩ := hok.operation hnamed
      have hrow' := CostTab.op_eq_row hrow
      rw [if_neg hname]
      simp only [hrow, bind, Except.bind]
      by_cases hskip : row.warmupEnergy ≠ 0 ∧ row.warmupLatency ≠ 0
      · have hacc : ¬Accumulates tab ins := fun h => h.2 (by rw [hrow']; exact hskip)
        rw [if_pos hskip, if_neg hacc]
        rfl
      · have hacc : Accumulates tab ins := ⟨hnamed, by rw [hrow']; exact hskip⟩
        rw [if_neg hskip, if_pos hacc, wordEnergyOf, if_pos hacc, opTally]
        simp only [hok.notLoad, hok.notStore, Bool.not_false, Bool.and_self, if_true, hk, hrow, hrow',
          Instruction.multiplicativeFactor, valueOf, bind, Except.bind]
        cases pyIndex n (clusterOf id) with
        | error err => rfl
        | ok i => rfl

/-! ### The charges of an epoch -/

/-- What a run of instructions adds to the latency of its epoch. -/
def runLatency (tab : CostTab) (sequences : ℕ) (run : List Instruction) : ℚ :=
  (run.map (latencyOf tab sequences)).sum

/-- What the first pass adds to the chip's energy for a run that starts at an accumulated latency. -/
def chipEnergy (tab : CostTab) (sequences active : ℕ) : ℚ → List Instruction → ℚ
  | _, [] => 0
  | latency, ins :: run =>
    let reached := latency + latencyOf tab sequences ins
    energyOf tab active reached ins + chipEnergy tab sequences active reached run

/-- What the second pass adds to the energy of each active multi-word. -/
def runWordEnergy (tab : CostTab) (run : List Instruction) : ℚ := (run.map (wordEnergyOf tab)).sum

/-- The latency of an epoch. -/
def epochLatency (tab : CostTab) (mask : List ℤ) (run : List Instruction) : ℚ :=
  runLatency tab (serialisation mask) run

/-- The energy of an epoch, both passes together. -/
def epochEnergy (tab : CostTab) (mask : List ℤ) (run : List Instruction) : ℚ :=
  chipEnergy tab (serialisation mask) mask.length 0 run + mask.length * runWordEnergy tab run

theorem firstPass_eq {run : List Instruction} (hok : ∀ ins ∈ run, ComputeOk tab ins) (sequences active : ℕ) :
    firstPass tab sequences active run =
      .ok (runLatency tab sequences run, chipEnergy tab sequences active 0 run) := by
  have hfold (run : List Instruction) (hok : ∀ ins ∈ run, ComputeOk tab ins) (acc : ℚ × ℚ) :
      run.foldlM (firstPassStep tab sequences active) acc =
        .ok (acc.1 + runLatency tab sequences run, acc.2 + chipEnergy tab sequences active acc.1 run) := by
    induction run generalizing acc with
    | nil =>
        rw [runLatency, chipEnergy, List.map_nil, List.sum_nil, add_zero, add_zero]
        rfl
    | cons ins run ih =>
        rw [List.foldlM_cons, firstPassStep_eq (hok ins List.mem_cons_self)]
        change run.foldlM (firstPassStep tab sequences active) _ = _
        rw [ih fun i hi => hok i (List.mem_cons_of_mem ins hi), chipEnergy, runLatency, runLatency,
          List.map_cons,
          List.sum_cons, add_assoc, add_assoc]
  rw [firstPass, hfold run hok, zero_add, zero_add]

/-- Every id that the second pass charges something for names a multi-word. -/
def Reaches (n : ℕ) (tab : CostTab) (mask : List ℤ) (run : List Instruction) : Prop :=
  ∀ id ∈ mask, ∀ ins ∈ run, Accumulates tab ins → ∃ i, pyIndex n (clusterOf id) = .ok i

theorem pyIndex_error {n : ℕ} {i : ℤ} {e : PyError} (h : pyIndex n i = .error e) : e = .indexError := by
  by_cases hj : 0 ≤ (if i < 0 then i + n else i) ∧ (if i < 0 then i + n else i) < n
  · simp only [pyIndex, dif_pos hj] at h
    cases h
  · simp only [pyIndex, dif_neg hj] at h
    cases h
    rfl

theorem wordTally_error {ins : Instruction} (hok : ComputeOk tab ins) {n : ℕ} {id : ℤ} {e : PyError}
    (h : wordTally n tab id ins = .error e) : e = .indexError := by
  rw [wordTally_eq hok] at h
  split at h
  · cases hi : pyIndex n (clusterOf id) with
    | error e' =>
        rw [hi] at h
        cases h
        exact pyIndex_error hi
    | ok i => rw [hi] at h; cases h
  · cases h

variable {n : ℕ} {mask : List ℤ} {run : List Instruction}

/-- What a measure sees of the second pass, when it sees the same of an instruction on every id. -/
theorem total_words_map {γ : Type} [AddCommMonoid γ] (φ : Tally n →+ γ) {g : Instruction → γ}
    (h : ∀ id ∈ mask, ∀ ins ∈ run, (wordTally n tab id ins).map φ = .ok (g ins)) :
    (total (fun id => total (wordTally n tab id) run) mask).map φ = .ok (mask.length • (run.map g).sum) := by
  have hid : ∀ id ∈ mask, (total (wordTally n tab id) run).map φ = .ok (run.map g).sum := fun id hid => by
    rw [total_map]
    exact total_eq_ok fun ins hins => h id hid ins hins
  rw [total_map, total_eq_ok hid, List.map_const', List.sum_replicate]

theorem exists_of_map_eq_ok {α β : Type} {x : Except PyError α} {f : α → β} {b : β} (h : x.map f = .ok b) :
    ∃ a, x = .ok a ∧ f a = b := by
  cases x with
  | error e => cases h
  | ok a =>
      cases h
      exact ⟨a, rfl, rfl⟩

theorem wordTally_costs {ins : Instruction} (hok : ComputeOk tab ins) {id : ℤ}
    (hreach : Accumulates tab ins → ∃ i, pyIndex n (clusterOf id) = .ok i) :
    (wordTally n tab id ins).map (Tally.costs tab) = .ok (0, wordEnergyOf tab ins) := by
  rw [wordTally_eq hok]
  by_cases hacc : Accumulates tab ins
  · obtain ⟨i, hi⟩ := hreach hacc
    rw [if_pos hacc, hi]
    exact congrArg Except.ok (Tally.costs_word tab i _ _)
  · rw [if_neg hacc, wordEnergyOf, if_neg hacc]
    exact congrArg Except.ok (map_zero (Tally.costs tab))

theorem wordTally_transfers {ins : Instruction} (hok : ComputeOk tab ins) {id : ℤ}
    (hreach : Accumulates tab ins → ∃ i, pyIndex n (clusterOf id) = .ok i) :
    (wordTally n tab id ins).map Tally.transfers = .ok 0 := by
  rw [wordTally_eq hok]
  by_cases hacc : Accumulates tab ins
  · obtain ⟨i, hi⟩ := hreach hacc
    rw [if_pos hacc, hi]
    exact congrArg Except.ok (Tally.transfers_word i _ _)
  · rw [if_neg hacc]
    exact congrArg Except.ok (map_zero Tally.transfers)

theorem sum_map_energy {α : Type} (f : α → ℚ) (l : List α) :
    (l.map fun a => ((0 : ℚ), f a)).sum = (0, (l.map f).sum) := by
  induction l with
  | nil => rfl
  | cons a l ih => rw [List.map_cons, List.sum_cons, ih, Prod.mk_add_mk, zero_add, List.map_cons,
      List.sum_cons]

/-- **The charges of an epoch** all of whose charged ids name multi-words. -/
theorem epochTally_ok (hok : ∀ ins ∈ run, ComputeOk tab ins) (hreach : Reaches n tab mask run) :
    ∃ t, epochTally n tab mask run = .ok t ∧
      t.costs tab = (epochLatency tab mask run, epochEnergy tab mask run) ∧ t.transfers = 0 := by
  have hcosts := total_words_map (Tally.costs tab) (g := fun ins => (0, wordEnergyOf tab ins))
    fun id hid ins hins => wordTally_costs (n := n) (hok ins hins) (hreach id hid ins hins)
  have htransfers := total_words_map (Tally.transfers (n := n)) (g := fun _ => 0)
    fun id hid ins hins => wordTally_transfers (hok ins hins) (hreach id hid ins hins)
  obtain ⟨t, ht, htcosts⟩ := exists_of_map_eq_ok hcosts
  have htzero : t.transfers = 0 := by
    rw [ht] at htransfers
    have := Except.ok.inj htransfers
    rw [this, List.map_const', List.sum_replicate, smul_zero, smul_zero]
  have hsum := sum_map_energy (wordEnergyOf tab) run
  refine ⟨Tally.totals (runLatency tab (serialisation mask) run)
    (chipEnergy tab (serialisation mask) mask.length 0 run) + t, ?_, ?_, ?_⟩
  · unfold epochTally
    simp only [firstPass_eq hok, ht, bind, Except.bind]
    rfl
  · rw [map_add, Tally.costs_totals, htcosts, hsum, epochLatency, epochEnergy, runWordEnergy]
    simp
  · rw [map_add, Tally.transfers_totals, htzero, add_zero]

theorem epochTally_error (hok : ∀ ins ∈ run, ComputeOk tab ins) (hreach : ¬Reaches n tab mask run) :
    epochTally n tab mask run = .error .indexError := by
  have hwords : ∀ id ∈ mask, ∀ e, total (wordTally n tab id) run = .error e → e = .indexError := by
    intro id _ e he
    obtain ⟨ins, hins, hfail⟩ := exists_error he
    exact wordTally_error (hok ins hins) hfail
  simp only [Reaches, not_forall] at hreach
  obtain ⟨id, hid, ins, hins, hacc, hnone⟩ := hreach
  have hfail : wordTally n tab id ins = .error .indexError := by
    rw [wordTally_eq (hok ins hins), if_pos hacc]
    cases hi : pyIndex n (clusterOf id) with
    | ok i => exact absurd ⟨i, hi⟩ hnone
    | error e =>
        rw [pyIndex_error hi]
        rfl
  have hword : total (wordTally n tab id) run = .error .indexError :=
    total_eq_error (fun i hi e he => wordTally_error (hok i hi) he) hins hfail
  have hmask := total_eq_error hwords hid hword
  unfold epochTally
  simp only [firstPass_eq hok, hmask, bind, Except.bind]

/-- An id of a chip of `units` multi-words. -/
def InRange (units : ℕ) (id : ℤ) : Prop := 0 ≤ id ∧ id < units

instance (units : ℕ) (id : ℤ) : Decidable (InRange units id) := inferInstanceAs (Decidable (_ ∧ _))

theorem reaches_of_inRange (h : ∀ id ∈ mask, InRange (n * 64) id) : Reaches n tab mask run := by
  intro id hid _ _ _
  obtain ⟨h0, hn⟩ := h id hid
  push_cast at hn
  have hcluster : clusterOf id < n := by
    unfold clusterOf
    omega
  exact ⟨_, pyIndex_of_mem (Int.ediv_nonneg h0 (by norm_num)) hcluster⟩

end RacerArtifacts.Sim
