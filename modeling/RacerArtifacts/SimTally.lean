import Mathlib
import RacerArtifacts.LibCharging
import RacerArtifacts.SimSequences

/-! What an epoch charges. Everything a chip accumulates (its two totals, the energy of every
multi-word, the transfer count of every bus) forms a commutative monoid of tallies, and an epoch does
nothing but add a tally that its cost table, its mask and its instructions determine. -/

namespace RacerArtifacts.Sim

open Charging

/-- The accumulators of a chip with `n` clusters. -/
@[ext] structure Tally (n : ℕ) where
  latency : ℚ
  energy : ℚ
  words : Fin n → Fin 64 → ℚ
  localTransfers : Fin n → ℕ
  globalTransfers : ℕ

namespace Tally

variable {n : ℕ}

instance : Zero (Tally n) := ⟨⟨0, 0, 0, 0, 0⟩⟩

instance : Add (Tally n) :=
  ⟨fun s t => ⟨s.latency + t.latency, s.energy + t.energy, s.words + t.words,
    s.localTransfers + t.localTransfers, s.globalTransfers + t.globalTransfers⟩⟩

@[simp] theorem zero_latency : (0 : Tally n).latency = 0 := rfl
@[simp] theorem zero_energy : (0 : Tally n).energy = 0 := rfl
@[simp] theorem zero_words : (0 : Tally n).words = 0 := rfl
@[simp] theorem zero_localTransfers : (0 : Tally n).localTransfers = 0 := rfl
@[simp] theorem zero_globalTransfers : (0 : Tally n).globalTransfers = 0 := rfl
@[simp] theorem add_latency (s t : Tally n) : (s + t).latency = s.latency + t.latency := rfl
@[simp] theorem add_energy (s t : Tally n) : (s + t).energy = s.energy + t.energy := rfl
@[simp] theorem add_words (s t : Tally n) : (s + t).words = s.words + t.words := rfl
@[simp] theorem add_localTransfers (s t : Tally n) :
    (s + t).localTransfers = s.localTransfers + t.localTransfers := rfl
@[simp] theorem add_globalTransfers (s t : Tally n) :
    (s + t).globalTransfers = s.globalTransfers + t.globalTransfers := rfl

instance : AddCommMonoid (Tally n) where
  add_assoc s t u := Tally.ext (add_assoc _ _ _) (add_assoc _ _ _) (add_assoc _ _ _) (add_assoc _ _ _)
    (add_assoc _ _ _)
  zero_add s := Tally.ext (zero_add _) (zero_add _) (zero_add _) (zero_add _) (zero_add _)
  add_zero s := Tally.ext (add_zero _) (add_zero _) (add_zero _) (add_zero _) (add_zero _)
  add_comm s t := Tally.ext (add_comm _ _) (add_comm _ _) (add_comm _ _) (add_comm _ _) (add_comm _ _)
  nsmul := nsmulRec

/-- Energy charged to one multi-word. -/
def word (i : Fin n) (j : Fin 64) (e : ℚ) : Tally n :=
  { (0 : Tally n) with words := Pi.single i (Pi.single j e) }

/-- One transfer on a local bus. -/
def localTransfer (i : Fin n) : Tally n := { (0 : Tally n) with localTransfers := Pi.single i 1 }

/-- One transfer on the global bus. -/
def globalTransfer : Tally n := { (0 : Tally n) with globalTransfers := 1 }

/-- The two totals of a first pass. -/
def totals (latency energy : ℚ) : Tally n := { (0 : Tally n) with latency := latency, energy := energy }

/-- The energy of all multi-words. -/
def wordEnergy (t : Tally n) : ℚ := ∑ i, ∑ j, t.words i j

/-- `getEnergyCost` of a tally, for one thread. -/
def energyCost (tab : CostTab) (t : Tally n) : ℚ :=
  t.globalTransfers * tab.globalMemBusTab.transferEnergy +
    (∑ i, (t.localTransfers i : ℚ) * tab.localMemBusTab.transferEnergy + t.wordEnergy) + t.energy

/-- `getLatencyCost` of a tally: the local buses are not in it. -/
def latencyCost (tab : CostTab) (t : Tally n) : ℚ :=
  t.latency + t.globalTransfers * tab.globalMemBusTab.transferLatency

@[simp] theorem wordEnergy_zero : (0 : Tally n).wordEnergy = 0 := by simp [wordEnergy]

@[simp] theorem wordEnergy_add (s t : Tally n) : (s + t).wordEnergy = s.wordEnergy + t.wordEnergy := by
  simp only [wordEnergy, add_words, Pi.add_apply, Finset.sum_add_distrib]

theorem wordEnergy_word (i : Fin n) (j : Fin 64) (e : ℚ) : (word i j e).wordEnergy = e := by
  rw [wordEnergy, Finset.sum_eq_single i, Finset.sum_eq_single j]
  · simp [word]
  · intro k _ hk
    simp [word, hk]
  · simp
  · intro k _ hk
    simp [word, hk]
  · simp

theorem energyCost_add (tab : CostTab) (s t : Tally n) :
    energyCost tab (s + t) = energyCost tab s + energyCost tab t := by
  simp only [energyCost, add_globalTransfers, add_localTransfers, Pi.add_apply, wordEnergy_add, add_energy,
    Nat.cast_add, add_mul, Finset.sum_add_distrib]
  ring

theorem latencyCost_add (tab : CostTab) (s t : Tally n) :
    latencyCost tab (s + t) = latencyCost tab s + latencyCost tab t := by
  simp only [latencyCost, add_globalTransfers, add_latency, Nat.cast_add, add_mul]
  ring

@[simp] theorem energyCost_zero (tab : CostTab) : energyCost tab (0 : Tally n) = 0 := by
  simp [energyCost]

@[simp] theorem latencyCost_zero (tab : CostTab) : latencyCost tab (0 : Tally n) = 0 := by
  simp [latencyCost]

/-- Latency and energy cost together. -/
def costs (tab : CostTab) : Tally n →+ ℚ × ℚ where
  toFun t := (t.latencyCost tab, t.energyCost tab)
  map_zero' := by rw [latencyCost_zero, energyCost_zero]; rfl
  map_add' s t := by rw [latencyCost_add, energyCost_add]; rfl

theorem costs_apply (tab : CostTab) (t : Tally n) : costs tab t = (t.latencyCost tab, t.energyCost tab) := rfl

/-- The transfers of all buses. -/
def transfers : Tally n →+ (Fin n → ℕ) × ℕ where
  toFun t := (t.localTransfers, t.globalTransfers)
  map_zero' := rfl
  map_add' _ _ := rfl

theorem transfers_word (i : Fin n) (j : Fin 64) (e : ℚ) : transfers (word i j e) = 0 := rfl

theorem transfers_totals (latency energy : ℚ) : transfers (totals latency energy : Tally n) = 0 := rfl

theorem costs_word (tab : CostTab) (i : Fin n) (j : Fin 64) (e : ℚ) : costs tab (word i j e) = (0, e) := by
  have hword := wordEnergy_word i j e
  rw [costs_apply, latencyCost, energyCost, hword]
  simp [word]

theorem costs_totals (tab : CostTab) (latency energy : ℚ) :
    costs tab (totals latency energy : Tally n) = (latency, energy) := by
  simp [costs_apply, latencyCost, energyCost, totals, wordEnergy]

end Tally

namespace Chip

variable {dimx dimy : ℕ}

/-- The accumulators of a chip. -/
def tally (c : Chip dimx dimy) : Tally (dimx * dimy) where
  latency := c.latency
  energy := c.energy
  words i j := ((c.computeUnitGroups i).computeUnits j).energy
  localTransfers i := (c.computeUnitGroups i).localMemBus.transferCount
  globalTransfers := c.globalMemBus.transferCount

/-- Adding to the accumulators, everything else unchanged. -/
def charge (t : Tally (dimx * dimy)) (c : Chip dimx dimy) : Chip dimx dimy :=
  { c with
    latency := c.latency + t.latency
    energy := c.energy + t.energy
    computeUnitGroups := fun i =>
      { c.computeUnitGroups i with
        computeUnits := fun j => ⟨((c.computeUnitGroups i).computeUnits j).energy + t.words i j⟩
        localMemBus := { (c.computeUnitGroups i).localMemBus with
          transferCount := (c.computeUnitGroups i).localMemBus.transferCount + t.localTransfers i } }
    globalMemBus := { c.globalMemBus with
      transferCount := c.globalMemBus.transferCount + t.globalTransfers } }

instance : AddAction (Tally (dimx * dimy)) (Chip dimx dimy) where
  vadd := charge
  zero_vadd c := by
    change charge 0 c = c
    cases c
    simp [charge]
  add_vadd s t c := by
    change charge (s + t) c = charge s (charge t c)
    simp only [charge, Tally.add_latency, Tally.add_energy, Tally.add_words, Tally.add_localTransfers,
      Tally.add_globalTransfers, Pi.add_apply]
    congr 1
    · ring
    · ring
    · funext i
      congr 1
      · funext j
        congr 1
        ring
      · congr 1
        ring
    · congr 1
      ring

theorem vadd_def (t : Tally (dimx * dimy)) (c : Chip dimx dimy) : t +ᵥ c = charge t c := rfl

@[simp] theorem vadd_costTab (t : Tally (dimx * dimy)) (c : Chip dimx dimy) :
    (t +ᵥ c).costTab = c.costTab := rfl
@[simp] theorem vadd_mask (t : Tally (dimx * dimy)) (c : Chip dimx dimy) : (t +ᵥ c).mask = c.mask := rfl
@[simp] theorem vadd_pc (t : Tally (dimx * dimy)) (c : Chip dimx dimy) : (t +ᵥ c).pc = c.pc := rfl
@[simp] theorem vadd_instSize (t : Tally (dimx * dimy)) (c : Chip dimx dimy) :
    (t +ᵥ c).instSize = c.instSize := rfl
@[simp] theorem vadd_instructionMemory (t : Tally (dimx * dimy)) (c : Chip dimx dimy) :
    (t +ᵥ c).instructionMemory = c.instructionMemory := rfl
@[simp] theorem vadd_multithread (t : Tally (dimx * dimy)) (c : Chip dimx dimy) :
    (t +ᵥ c).multithread = c.multithread := rfl

@[simp] theorem tally_vadd (t : Tally (dimx * dimy)) (c : Chip dimx dimy) :
    (t +ᵥ c).tally = c.tally + t := rfl

end Chip

/-! ### The tally of an epoch -/

/-- What `Chip.executeOp` charges. -/
def opTally (n : ℕ) (tab : CostTab) (id : ℤ) (ins : Instruction) : Except PyError (Tally n) := do
  let multiplicativeFactor ← ins.intFromEnd 1
  if !hasSub "LOAD" ins.opCode && !hasSub "STORE" ins.opCode then
    let clusterID ← pyIndex n (clusterOf id)
    let row ← tab.op ins.opCode
    return Tally.word clusterID (Chip.multiWordID id) (row.energyCost * multiplicativeFactor)
  else if ins.opCode = "SLLOAD" then
    let localMemBusID ← ins.int 1
    let i ← pyIndex n (localMemBusID / 64)
    return Tally.localTransfer i
  else if ins.opCode = "SGLOAD" then return Tally.globalTransfer
  else return 0

/-- What the second pass charges for one instruction on one active multi-word. -/
def wordTally (n : ℕ) (tab : CostTab) (id : ℤ) (ins : Instruction) : Except PyError (Tally n) :=
  if ins.opCode = "SHIFT" ∨ ins.opCode = "PROP" then .ok 0
  else do
    let row ← tab.op ins.opCode
    if row.warmupEnergy ≠ 0 ∧ row.warmupLatency ≠ 0 then return 0
    else opTally n tab id ins

/-- What a whole epoch charges. -/
def epochTally (n : ℕ) (tab : CostTab) (mask : List ℤ) (computeInstructions : List Instruction) :
    Except PyError (Tally n) := do
  let (epochLatency, epochEnergy) ←
    firstPass tab (executionSequences mask).length mask.length computeInstructions
  let words ← total (fun id => total (wordTally n tab id) computeInstructions) mask
  return Tally.totals epochLatency epochEnergy + words

namespace Chip

variable {dimx dimy : ℕ}

theorem charge_word (c : Chip dimx dimy) (i : Fin (dimx * dimy)) (j : Fin 64) (e : ℚ) :
    (Tally.word i j e : Tally (dimx * dimy)) +ᵥ c =
      { c with
        computeUnitGroups := Function.update c.computeUnitGroups i
          { c.computeUnitGroups i with
            computeUnits := Function.update (c.computeUnitGroups i).computeUnits j
              ⟨((c.computeUnitGroups i).computeUnits j).energy + e⟩ } } := by
  rw [vadd_def, charge]
  simp only [Tally.word, Tally.zero_latency, Tally.zero_energy, Tally.zero_localTransfers,
    Tally.zero_globalTransfers, Pi.zero_apply, add_zero]
  congr 1
  funext k
  by_cases hk : k = i
  · subst hk
    rw [Function.update_self]
    congr 1
    funext l
    by_cases hl : l = j
    · subst hl
      simp
    · simp [hl]
  · simp [hk]

theorem charge_localTransfer (c : Chip dimx dimy) (i : Fin (dimx * dimy)) :
    (Tally.localTransfer i : Tally (dimx * dimy)) +ᵥ c =
      { c with
        computeUnitGroups := Function.update c.computeUnitGroups i
          { c.computeUnitGroups i with
            localMemBus := (c.computeUnitGroups i).localMemBus.executeTransfer } } := by
  rw [vadd_def, charge]
  simp only [Tally.localTransfer, Tally.zero_latency, Tally.zero_energy, Tally.zero_words,
    Tally.zero_globalTransfers, Pi.zero_apply, add_zero]
  congr 1
  funext k
  by_cases hk : k = i
  · subst hk
    rw [Function.update_self]
    simp [MemBus.executeTransfer]
  · simp [hk]

theorem charge_globalTransfer (c : Chip dimx dimy) :
    (Tally.globalTransfer : Tally (dimx * dimy)) +ᵥ c =
      { c with globalMemBus := c.globalMemBus.executeTransfer } := by
  rw [vadd_def, charge]
  simp [Tally.globalTransfer, MemBus.executeTransfer]

theorem charge_totals (c : Chip dimx dimy) (latency energy : ℚ) :
    (Tally.totals latency energy : Tally (dimx * dimy)) +ᵥ c =
      { c with latency := c.latency + latency, energy := c.energy + energy } := by
  rw [vadd_def, charge]
  simp [Tally.totals]

theorem executeOp_eq (c : Chip dimx dimy) (ins : Instruction) (id : ℤ) :
    c.executeOp ins id = (opTally (dimx * dimy) c.costTab id ins).map (· +ᵥ c) := by
  unfold executeOp opTally
  cases ins.intFromEnd 1 with
  | error err => rfl
  | ok multiplicativeFactor =>
      simp only [Except.bind, bind]
      split
      · cases pyIndex (dimx * dimy) (clusterOf id) with
        | error err => rfl
        | ok clusterID =>
            simp only [Cluster.executeOp, MultiWord.executeOp, Except.bind, bind]
            cases c.costTab.op ins.opCode with
            | error err => rfl
            | ok row => exact congrArg Except.ok (charge_word c clusterID _ _).symm
      · split
        · cases ins.int 1 with
          | error err => rfl
          | ok localMemBusID =>
              simp only
              cases pyIndex (dimx * dimy) (localMemBusID / 64) with
              | error err => rfl
              | ok i => exact congrArg Except.ok (charge_localTransfer c i).symm
        · split
          · exact congrArg Except.ok (charge_globalTransfer c).symm
          · exact congrArg Except.ok (zero_vadd _ c).symm

theorem secondPassStep_eq (c : Chip dimx dimy) (ins : Instruction) (id : ℤ) :
    c.secondPassStep id ins = (wordTally (dimx * dimy) c.costTab id ins).map (· +ᵥ c) := by
  unfold secondPassStep wordTally
  split
  · exact congrArg Except.ok (zero_vadd _ c).symm
  · cases c.costTab.op ins.opCode with
    | error err => rfl
    | ok row =>
        simp only [Except.bind, bind]
        split
        · exact congrArg Except.ok (zero_vadd _ c).symm
        · exact executeOp_eq c ins id

/-- The second pass charges the active multi-words one after the other. -/
theorem secondPass_eq (c : Chip dimx dimy) (executionSquences : List (List ℤ))
    (computeInstructions : List Instruction) :
    c.secondPass executionSquences computeInstructions =
      (total (fun id => total (wordTally (dimx * dimy) c.costTab id) computeInstructions)
        executionSquences.flatten).map (· +ᵥ c) := by
  have hkeep : ∀ (d : Tally (dimx * dimy)) (s : Chip dimx dimy), s.costTab = c.costTab →
      (d +ᵥ s).costTab = c.costTab := fun d s hs => hs
  have hinstructions (id : ℤ) (s : Chip dimx dimy) (hs : s.costTab = c.costTab) :
      computeInstructions.foldlM (secondPassStep id) s =
        (total (wordTally (dimx * dimy) c.costTab id) computeInstructions).map (· +ᵥ s) := by
    refine foldlM_eq_total acts_vadd hkeep (fun s' ins hs' => ?_) _ hs
    rw [← hs']
    exact secondPassStep_eq s' ins id
  have hsequence (sequence : List ℤ) (s : Chip dimx dimy) (hs : s.costTab = c.costTab) :
      sequence.foldlM (fun c id => computeInstructions.foldlM (secondPassStep id) c) s =
        (total (fun id => total (wordTally (dimx * dimy) c.costTab id) computeInstructions) sequence).map
          (· +ᵥ s) :=
    foldlM_eq_total acts_vadd hkeep (fun s' id hs' => hinstructions id s' hs') sequence hs
  rw [← total_flatten]
  exact foldlM_eq_total acts_vadd hkeep
    (fun s' sequence hs' => hsequence sequence s' hs') executionSquences rfl

/-- **An epoch charges its tally**, whatever the chip has accumulated before. -/
theorem runEpoch_eq (c : Chip dimx dimy) (computeInstructions : List Instruction) :
    c.runEpoch computeInstructions =
      (epochTally (dimx * dimy) c.costTab c.mask computeInstructions).map (· +ᵥ c) := by
  unfold runEpoch epochTally
  simp only [sum_length_executionSequences]
  cases firstPass c.costTab (executionSequences c.mask).length c.mask.length computeInstructions with
  | error err => rfl
  | ok totals =>
      obtain ⟨epochLatency, epochEnergy⟩ := totals
      change secondPass { c with
        latency := c.latency + epochLatency, energy := c.energy + epochEnergy } _ _ = _
      rw [← charge_totals, secondPass_eq, executionSequences_flatten, vadd_costTab]
      simp only [Except.bind, bind]
      cases total (fun id => total (wordTally (dimx * dimy) c.costTab id) computeInstructions) c.mask with
      | error err => rfl
      | ok words =>
          apply congrArg Except.ok
          change words +ᵥ (Tally.totals epochLatency epochEnergy +ᵥ c) =
            (Tally.totals epochLatency epochEnergy + words) +ᵥ c
          rw [vadd_vadd, add_comm]

end Chip

end RacerArtifacts.Sim
