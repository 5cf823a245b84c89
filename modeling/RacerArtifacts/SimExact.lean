import Mathlib
import RacerArtifacts.LibFallible
import RacerArtifacts.SimLog

/-! The chip in an exact arithmetic. Where the numbers stand for rationals and every operation computes with
these, a chip stands for the chip that computes with rationals, and a launch for its launch. -/

namespace RacerArtifacts.Sim.Numeric

open Charging Fallible

variable {N : Type} [Numbers N] {n dimx dimy : ℕ}

/-- The numbers stand for rationals, and the operations compute with these. -/
structure Exact (v : N → ℚ) : Prop where
  int : ∀ k, v (Numbers.int k) = k
  float : ∀ q, v (Numbers.float q) = q
  add : ∀ x y, v (x + y) = v x + v y
  mul : ∀ x y, v (x * y) = v x * v y
  sum : ∀ l, v (Numbers.sum l) = (l.map v).sum
  isZero : ∀ x, Numbers.isZero x = true ↔ v x = 0

/-- Numbers that are not rounded. -/
structure Fraction where
  value : ℚ
  deriving DecidableEq

instance : Numbers Fraction where
  add x y := ⟨x.value + y.value⟩
  mul x y := ⟨x.value * y.value⟩
  int k := ⟨k⟩
  float q := ⟨q⟩
  sum l := ⟨(l.map Fraction.value).sum⟩
  isZero x := decide (x.value = 0)

theorem exact_fraction : Exact Fraction.value :=
  ⟨fun _ => rfl, fun _ => rfl, fun _ _ => rfl, fun _ _ => rfl, fun _ => rfl, fun _ => decide_eq_true_iff⟩

variable {v : N → ℚ}

theorem Exact.isZero_float (hv : Exact v) (q : ℚ) : Numbers.isZero (Numbers.float q : N) = false ↔ q ≠ 0 := by
  rw [← Bool.not_eq_true, hv.isZero, hv.float]

/-! ### What a chip and a log stand for -/

def MultiWord.exact (v : N → ℚ) (word : MultiWord N) : Sim.MultiWord := ⟨v word.energy⟩

def Cluster.exact (v : N → ℚ) (cluster : Cluster N) : Sim.Cluster :=
  ⟨fun i => (cluster.computeUnits i).exact v, cluster.localMemBus⟩

def Chip.exact (v : N → ℚ) (c : Chip N dimx dimy) : Sim.Chip dimx dimy where
  latency := v c.latency
  energy := v c.energy
  outBits := c.outBits
  instSize := c.instSize
  multithread := c.multithread
  costTab := c.costTab
  computeUnitGroups := fun i => (c.computeUnitGroups i).exact v
  globalMemBus := c.globalMemBus
  instructionMemory := c.instructionMemory
  instructions := c.instructions
  pc := c.pc
  mask := c.mask

def Charge.tally (v : N → ℚ) : Charge N n → Tally n
  | .totals latency energy => Tally.totals (v latency) (v energy)
  | .word i j energy => Tally.word i j (v energy)
  | .localTransfer i => Tally.localTransfer i
  | .globalTransfer => Tally.globalTransfer

/-- What the charges of a log add up to. -/
def tallyOf (v : N → ℚ) : Log N n →+ Tally n := FreeAddMonoid.lift (Charge.tally v)

theorem Exact.charged (hv : Exact v) (c : Chip N dimx dimy) (d : Charge N (dimx * dimy)) :
    (c.charged d).exact v = d.tally v +ᵥ c.exact v := by
  cases d with
  | totals latency energy =>
      rw [Charge.tally, Sim.Chip.charge_totals]
      simp only [Chip.exact, Chip.charged, hv.add]
  | word i j energy =>
      rw [Charge.tally, Sim.Chip.charge_word]
      simp only [Chip.exact, Chip.charged]
      congr 1
      funext k
      by_cases hk : k = i
      · subst hk
        simp only [Function.update_self, Cluster.exact]
        congr 1
        funext l
        by_cases hl : l = j
        · subst hl
          simp only [Function.update_self, MultiWord.exact, hv.add]
        · simp only [Function.update_of_ne hl]
      · simp only [Function.update_of_ne hk]
  | localTransfer i =>
      rw [Charge.tally, Sim.Chip.charge_localTransfer]
      simp only [Chip.exact, Chip.charged]
      congr 1
      funext k
      by_cases hk : k = i
      · subst hk
        simp only [Function.update_self, Cluster.exact]
      · simp only [Function.update_of_ne hk]
  | globalTransfer =>
      rw [Charge.tally, Sim.Chip.charge_globalTransfer]
      rfl

theorem Exact.enter (hv : Exact v) (log : Log N (dimx * dimy)) (c : Chip N dimx dimy) :
    (c.enter log).exact v = tallyOf v log +ᵥ c.exact v := by
  induction log using FreeAddMonoid.inductionOn' generalizing c with
  | zero => rw [Chip.acts_enter.zero, map_zero, zero_vadd]
  | of_add d log ih =>
      have hd : tallyOf v (FreeAddMonoid.of d) = d.tally v := FreeAddMonoid.lift_eval_of _ d
      change ((c.charged d).enter log).exact v = _
      rw [ih, hv.charged, map_add, hd, vadd_vadd, add_comm]

/-! ### Epochs -/

theorem Exact.firstPassStep (hv : Exact v) (tab : CostTab) (sequences active : ℕ) (acc : N × N)
    (ins : Instruction) :
    (firstPassStep tab sequences active acc ins).map (Prod.map v v) =
      Sim.firstPassStep tab sequences active (Prod.map v v acc) ins := by
  unfold Numeric.firstPassStep Sim.firstPassStep
  split_ifs with hload hshift hprop
  · rfl
  · cases ins.float 1 with
    | error e => rfl
    | ok hops =>
        cases ins.float 2 with
        | error e => rfl
        | ok hopEnergy =>
            simp only [bind, Except.bind, pure, Except.pure, Except.map, Prod.map, hv.add, hv.mul,
              hv.float, hv.int]
            norm_cast
  · cases ins.float 1 with
    | error e => rfl
    | ok props =>
        cases ins.float 2 with
        | error e => rfl
        | ok propEnergy =>
            simp only [bind, Except.bind, pure, Except.pure, Except.map, Prod.map, hv.add, hv.mul, hv.float]
  · cases tab.op ins.opCode with
    | error e => rfl
    | ok row =>
        cases ins.intFromEnd 1 with
        | error e => rfl
        | ok multiplicativeFactor =>
            simp only [bind, Except.bind, hv.isZero_float]
            split_ifs with hpipe
            · cases ins.intFromEnd 2 with
              | error e => rfl
              | ok fleetSize =>
                  simp only [pure, Except.pure, Except.map, Prod.map, hv.add, hv.mul, hv.float, hv.int]
                  norm_cast
            · simp only [pure, Except.pure, Except.map, Prod.map, hv.add, hv.mul, hv.float, hv.int]
              norm_cast

theorem Exact.firstPass (hv : Exact v) (tab : CostTab) (sequences active : ℕ) (run : List Instruction) :
    (firstPass tab sequences active run).map (Prod.map v v) = Sim.firstPass tab sequences active run := by
  have hfold (acc : N × N) : (run.foldlM (Numeric.firstPassStep tab sequences active) acc).map
      (Prod.map v v) =
        run.foldlM (Sim.firstPassStep tab sequences active) (Prod.map v v acc) := by
    induction run generalizing acc with
    | nil => rfl
    | cons ins run ih =>
        rw [List.foldlM_cons, List.foldlM_cons, ← hv.firstPassStep]
        cases Numeric.firstPassStep tab sequences active acc ins with
        | error e => rfl
        | ok acc' => exact ih acc'
  refine (hfold _).trans ?_
  simp only [Prod.map, hv.int, Int.cast_zero]
  rfl

theorem Exact.opLog (hv : Exact v) (tab : CostTab) (id : ℤ) (ins : Instruction) :
    (opLog N n tab id ins).map (tallyOf v) = opTally n tab id ins := by
  unfold Numeric.opLog opTally
  cases ins.intFromEnd 1 with
  | error e => rfl
  | ok multiplicativeFactor =>
      simp only [bind, Except.bind]
      split_ifs
      · cases pyIndex n (clusterOf id) with
        | error e => rfl
        | ok clusterID =>
            cases tab.op ins.opCode with
            | error e => rfl
            | ok row =>
                refine congrArg Except.ok ((FreeAddMonoid.lift_eval_of _ _).trans ?_)
                rw [Charge.tally, hv.mul, hv.float, hv.int]
      · cases ins.int 1 with
        | error e => rfl
        | ok localMemBusID =>
            simp only
            cases pyIndex n (localMemBusID / 64) with
            | error e => rfl
            | ok i => exact congrArg Except.ok (FreeAddMonoid.lift_eval_of _ _)
      · exact congrArg Except.ok (FreeAddMonoid.lift_eval_of _ _)
      · exact congrArg Except.ok (map_zero _)

theorem Exact.wordLog (hv : Exact v) (tab : CostTab) (id : ℤ) (ins : Instruction) :
    (wordLog N n tab id ins).map (tallyOf v) = wordTally n tab id ins := by
  unfold Numeric.wordLog wordTally
  split_ifs
  · exact congrArg Except.ok (map_zero _)
  · cases tab.op ins.opCode with
    | error e => rfl
    | ok row =>
        simp only [bind, Except.bind, hv.isZero_float]
        split_ifs
        · exact congrArg Except.ok (map_zero _)
        · exact hv.opLog tab id ins

theorem Exact.epochLog (hv : Exact v) (tab : CostTab) (mask : List ℤ) (run : List Instruction) :
    (epochLog N n tab mask run).map (tallyOf v) = epochTally n tab mask run := by
  have hwords : (total (fun id => total (Numeric.wordLog N n tab id) run) mask).map (tallyOf v) =
      total (fun id => total (wordTally n tab id) run) mask := by
    rw [total_map]
    refine total_congr fun id _ => ?_
    rw [total_map]
    exact total_congr fun ins _ => hv.wordLog tab id ins
  unfold Numeric.epochLog epochTally
  rw [← hv.firstPass, ← hwords]
  cases (Numeric.firstPass tab (executionSequences mask).length mask.length run : Except PyError (N × N)) with
  | error e => rfl
  | ok totals =>
      cases total (fun id => total (Numeric.wordLog N n tab id) run) mask with
      | error e => rfl
      | ok words =>
          refine congrArg Except.ok ((map_add _ _ _).trans ?_)
          rw [tallyOf, FreeAddMonoid.lift_eval_of]
          rfl

/-! ### Launches -/

theorem Exact.runEpoch (hv : Exact v) (c : Chip N dimx dimy) (run : List Instruction) :
    (c.runEpoch run).map (Chip.exact v) = (c.exact v).runEpoch run := by
  rw [Chip.runEpoch_eq, Sim.Chip.runEpoch_eq]
  change _ = (epochTally (dimx * dimy) c.costTab c.mask run).map _
  rw [← hv.epochLog]
  cases Numeric.epochLog N (dimx * dimy) c.costTab c.mask run with
  | error e => rfl
  | ok log => exact congrArg Except.ok (hv.enter log c)

theorem Exact.iteration (hv : Exact v) (c : Chip N dimx dimy) :
    (c.configSetup >>= Chip.executeEpoch).map (Chip.exact v) =
      (c.exact v).configSetup >>= Sim.Chip.executeEpoch := by
  unfold Chip.configSetup Sim.Chip.configSetup
  change _ = (configLoop (dimx * dimy * 64) (c.instructionMemory.drop c.pc) c.pc c.mask >>= fun p =>
    .ok { c.exact v with pc := p.1, mask := p.2 }) >>= Sim.Chip.executeEpoch
  cases configLoop (dimx * dimy * 64) (c.instructionMemory.drop c.pc) c.pc c.mask with
  | error e => rfl
  | ok p =>
      obtain ⟨pc, mask⟩ := p
      change ({ c with pc := pc, mask := mask }.executeEpoch).map (Chip.exact v) =
        { c.exact v with pc := pc, mask := mask }.executeEpoch
      unfold Chip.executeEpoch Sim.Chip.executeEpoch
      change _ = fetchLoop (c.instructionMemory.drop pc) pc [] >>= fun q =>
        { c.exact v with pc := q.1, mask := mask }.runEpoch q.2
      cases fetchLoop (c.instructionMemory.drop pc) pc [] with
      | error e => rfl
      | ok q => exact hv.runEpoch { c with pc := q.1, mask := mask } q.2

theorem Exact.launchLoop (hv : Exact v) (fuel : ℕ) (c : Chip N dimx dimy) :
    (Chip.launchLoop fuel c).map (·.map (Chip.exact v)) = Sim.Chip.launchLoop fuel (c.exact v) := by
  induction fuel generalizing c with
  | zero => rfl
  | succ fuel ih =>
      have hiteration := hv.iteration c
      rw [Chip.launchLoop, Sim.Chip.launchLoop, ← hiteration]
      change _ = if c.pc < c.instSize - 1 then _ else _
      split_ifs
      · cases c.configSetup >>= Chip.executeEpoch with
        | error e => rfl
        | ok c' => exact ih c'
      · rfl

theorem Exact.costs (hv : Exact v) (c : Chip N dimx dimy) : Prod.map v v c.costs = (c.exact v).costs := by
  have hsum {k : ℕ} (f : Fin k → N) : v (Numbers.sum (List.ofFn f)) = ∑ i, v (f i) := by
    rw [hv.sum, List.map_ofFn, List.sum_ofFn]
    rfl
  have hcluster (cluster : Cluster N) : v cluster.getEnergyCost = (cluster.exact v).getEnergyCost := by
    rw [Cluster.getEnergyCost, hv.add, hsum, busEnergyCost, hv.int]
    push_cast
    rfl
  refine Prod.ext ?_ ?_
  · change v (c.latency + busLatencyCost c.globalMemBus) = _
    rw [hv.add, busLatencyCost, hv.int]
    push_cast
    rfl
  · change v ((busEnergyCost c.globalMemBus +
      Numbers.sum (List.ofFn fun i => (c.computeUnitGroups i).getEnergyCost) +
      c.energy) * Numbers.float c.multithread) = _
    rw [hv.mul, hv.add, hv.add, hsum, busEnergyCost, hv.int, hv.float]
    simp only [hcluster]
    push_cast
    rfl

/-- **A launch in an exact arithmetic is the launch that computes with rationals.** -/
theorem Exact.launch (hv : Exact v) (c : Chip N dimx dimy) (pc : ℕ) (m : ℤ) :
    (c.launch pc m).map (·.map (Chip.exact v)) = (c.exact v).launch pc m :=
  hv.launchLoop (c.instSize + 1) { c with pc := pc, multithread := m }

theorem Exact.loaded (hv : Exact v) (tab : CostTab) (prog : List Instruction) :
    (Chip.loaded tab prog : Chip N dimx dimy).exact v = Sim.Chip.loaded tab prog := by
  have hzero : v (Numbers.int 0) = 0 := by rw [hv.int, Int.cast_zero]
  have hgroups : (Cluster.init tab : Cluster N).exact v = Sim.Cluster.init tab := by
    simp only [Cluster.exact, Cluster.init, MultiWord.exact, MultiWord.init, hzero]
    rfl
  unfold Chip.loaded Chip.append Chip.init Chip.exact
  simp only [hzero, hgroups]
  rfl

theorem Exact.launchCosts (hv : Exact v) (dimx dimy : ℕ) (tab : CostTab) (prog : List Instruction) (m : ℤ) :
    (launchCosts N dimx dimy tab prog m).map (·.map (Prod.map v v)) =
      Sim.launchCosts dimx dimy tab prog m := by
  rw [Sim.launchCosts, ← hv.loaded, ← hv.launch, Numeric.launchCosts]
  cases (Chip.loaded tab prog : Chip N dimx dimy).launch 0 m with
  | none => rfl
  | some r =>
      cases r with
      | error e => rfl
      | ok c => exact congrArg some (congrArg Except.ok (hv.costs c))

end RacerArtifacts.Sim.Numeric
