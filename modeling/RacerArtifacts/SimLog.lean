import Mathlib
import RacerArtifacts.SimNumbers

/-! What an epoch charges, in an arithmetic of which nothing is known. The charges are logged in the order
they are made; the log is determined by the cost table, the mask and the instructions, never by what has been
accumulated, so a launch is a run of the driver that writes a log and a chip that the log is entered into. In
an exact arithmetic the log of an epoch adds up to its tally, and the chip is the one that computes with
rationals. -/

namespace RacerArtifacts.Sim.Numeric

open Numbers Charging

variable {N : Type} [Numbers N] {n : ℕ}

/-! ### Logs -/

/-- One charge. -/
inductive Charge (N : Type) (n : ℕ) where
  /-- The two totals of a first pass. -/
  | totals (latency energy : N)
  | word (i : Fin n) (j : Fin 64) (energy : N)
  | localTransfer (i : Fin n)
  | globalTransfer

/-- Charges in order. -/
abbrev Log (N : Type) (n : ℕ) := FreeAddMonoid (Charge N n)

/-- What `Chip.executeOp` charges. -/
def opLog (N : Type) [Numbers N] (n : ℕ) (tab : CostTab) (id : ℤ) (ins : Instruction) :
    Except PyError (Log N n) := do
  let multiplicativeFactor ← ins.intFromEnd 1
  if !hasSub "LOAD" ins.opCode && !hasSub "STORE" ins.opCode then
    let clusterID ← pyIndex n (clusterOf id)
    let row ← tab.op ins.opCode
    return .of (.word clusterID (Sim.Chip.multiWordID id) (float row.energyCost * int multiplicativeFactor))
  else if ins.opCode = "SLLOAD" then
    let localMemBusID ← ins.int 1
    let i ← pyIndex n (localMemBusID / 64)
    return .of (.localTransfer i)
  else if ins.opCode = "SGLOAD" then return .of .globalTransfer
  else return 0

/-- What the second pass charges for one instruction on one active multi-word. -/
def wordLog (N : Type) [Numbers N] (n : ℕ) (tab : CostTab) (id : ℤ) (ins : Instruction) :
    Except PyError (Log N n) :=
  if ins.opCode = "SHIFT" ∨ ins.opCode = "PROP" then .ok 0
  else do
    let row ← tab.op ins.opCode
    if isZero (float row.warmupEnergy : N) = false ∧
      isZero (float row.warmupLatency : N) = false then return 0
    else opLog N n tab id ins

/-- What a whole epoch charges. -/
def epochLog (N : Type) [Numbers N] (n : ℕ) (tab : CostTab) (mask : List ℤ)
    (computeInstructions : List Instruction) :
    Except PyError (Log N n) := do
  let (epochLatency, epochEnergy) ←
    (firstPass tab (executionSequences mask).length mask.length computeInstructions : Except PyError (N × N))
  let words ← total (fun id => total (wordLog N n tab id) computeInstructions) mask
  return .of (.totals epochLatency epochEnergy) + words

namespace Chip

variable {dimx dimy : ℕ}

/-- One charge, entered as the source enters it. -/
def charged (c : Chip N dimx dimy) : Charge N (dimx * dimy) → Chip N dimx dimy
  | .totals latency energy => { c with latency := c.latency + latency, energy := c.energy + energy }
  | .word i j energy =>
    { c with
      computeUnitGroups := Function.update c.computeUnitGroups i
        { c.computeUnitGroups i with
          computeUnits := Function.update (c.computeUnitGroups i).computeUnits j
            ⟨((c.computeUnitGroups i).computeUnits j).energy + energy⟩ } }
  | .localTransfer i =>
    { c with
      computeUnitGroups := Function.update c.computeUnitGroups i
        { c.computeUnitGroups i with localMemBus := (c.computeUnitGroups i).localMemBus.executeTransfer } }
  | .globalTransfer => { c with globalMemBus := c.globalMemBus.executeTransfer }

/-- The charges of a log, in order. -/
def enter (log : Log N (dimx * dimy)) (c : Chip N dimx dimy) : Chip N dimx dimy := log.toList.foldl charged c

theorem acts_enter : Acts (enter : Log N (dimx * dimy) → Chip N dimx dimy → Chip N dimx dimy) where
  zero _ := rfl
  add _ _ _ := List.foldl_append

/-- Another place in the program, with everything accumulated as it is. -/
def moveTo (c : Chip N dimx dimy) (pc : ℕ) (mask : List ℤ) : Chip N dimx dimy :=
    { c with pc := pc, mask := mask }

theorem enter_frame (log : Log N (dimx * dimy)) (c : Chip N dimx dimy) :
    (c.enter log).costTab = c.costTab ∧ (c.enter log).mask = c.mask ∧ (c.enter log).pc = c.pc ∧
      (c.enter log).instSize = c.instSize ∧ (c.enter log).instructionMemory = c.instructionMemory := by
  unfold enter
  induction log.toList generalizing c with
  | nil => exact ⟨rfl, rfl, rfl, rfl, rfl⟩
  | cons d log ih =>
      have h := ih (c.charged d)
      cases d <;> exact h

theorem enter_moveTo (log : Log N (dimx * dimy)) (c : Chip N dimx dimy) (pc : ℕ) (mask : List ℤ) :
    (c.moveTo pc mask).enter log = (c.enter log).moveTo pc mask := by
  unfold enter
  induction log.toList generalizing c with
  | nil => rfl
  | cons d log ih =>
      have h := ih (c.charged d)
      cases d <;> exact h

theorem executeOp_eq (c : Chip N dimx dimy) (ins : Instruction) (id : ℤ) :
    c.executeOp ins id = (opLog N (dimx * dimy) c.costTab id ins).map (c.enter ·) := by
  unfold executeOp opLog
  cases ins.intFromEnd 1 with
  | error err => rfl
  | ok multiplicativeFactor =>
      simp only [Except.bind, bind]
      split
      · cases pyIndex (dimx * dimy) (clusterOf id) with
        | error err => rfl
        | ok clusterID =>
            simp only [Cluster.executeOp, MultiWord.executeOp, Except.bind, bind]
            cases c.costTab.op ins.opCode with
            | error err => rfl
            | ok row => rfl
      · split
        · cases ins.int 1 with
          | error err => rfl
          | ok localMemBusID =>
              simp only
              cases pyIndex (dimx * dimy) (localMemBusID / 64) with
              | error err => rfl
              | ok i => rfl
        · split
          · rfl
          · rfl

theorem secondPassStep_eq (c : Chip N dimx dimy) (ins : Instruction) (id : ℤ) :
    c.secondPassStep id ins = (wordLog N (dimx * dimy) c.costTab id ins).map (c.enter ·) := by
  unfold secondPassStep wordLog
  split
  · rfl
  · cases c.costTab.op ins.opCode with
    | error err => rfl
    | ok row =>
        simp only [Except.bind, bind]
        split
        · rfl
        · exact executeOp_eq c ins id

/-- The second pass charges the active multi-words one after the other. -/
theorem secondPass_eq (c : Chip N dimx dimy) (executionSquences : List (List ℤ))
    (computeInstructions : List Instruction) :
    c.secondPass executionSquences computeInstructions =
      (total (fun id => total (wordLog N (dimx * dimy) c.costTab id) computeInstructions)
        executionSquences.flatten).map (c.enter ·) := by
  have hkeep : ∀ (d : Log N (dimx * dimy)) (s : Chip N dimx dimy), s.costTab = c.costTab →
      (s.enter d).costTab = c.costTab := fun d s hs => (enter_frame d s).1.trans hs
  have hinstructions (id : ℤ) (s : Chip N dimx dimy) (hs : s.costTab = c.costTab) :
      computeInstructions.foldlM (secondPassStep id) s =
        (total (wordLog N (dimx * dimy) c.costTab id) computeInstructions).map (s.enter ·) := by
    refine foldlM_eq_total acts_enter hkeep (fun s' ins hs' => ?_) _ hs
    rw [← hs']
    exact secondPassStep_eq s' ins id
  have hsequence (sequence : List ℤ) (s : Chip N dimx dimy) (hs : s.costTab = c.costTab) :
      sequence.foldlM (fun c id => computeInstructions.foldlM (secondPassStep id) c) s =
        (total (fun id => total (wordLog N (dimx * dimy) c.costTab id) computeInstructions) sequence).map
          (s.enter ·) :=
    foldlM_eq_total acts_enter hkeep (fun s' id hs' => hinstructions id s' hs') sequence hs
  rw [← total_flatten]
  exact foldlM_eq_total acts_enter hkeep
    (fun s' sequence hs' => hsequence sequence s' hs') executionSquences rfl

/-- **An epoch enters its log**, whatever the chip has accumulated before. -/
theorem runEpoch_eq (c : Chip N dimx dimy) (computeInstructions : List Instruction) :
    c.runEpoch computeInstructions =
      (epochLog N (dimx * dimy) c.costTab c.mask computeInstructions).map (c.enter ·) := by
  unfold runEpoch epochLog
  simp only [sum_length_executionSequences]
  cases (firstPass c.costTab (executionSequences c.mask).length c.mask.length computeInstructions :
      Except PyError (N × N)) with
  | error err => rfl
  | ok totals =>
      obtain ⟨epochLatency, epochEnergy⟩ := totals
      change secondPass (c.charged (.totals epochLatency epochEnergy)) _ _ = _
      rw [secondPass_eq, executionSequences_flatten]
      change (total (fun id => total (wordLog N (dimx * dimy) c.costTab id) computeInstructions)
        c.mask).map _ = _
      simp only [Except.bind, bind]
      cases total (fun id => total (wordLog N (dimx * dimy) c.costTab id) computeInstructions) c.mask with
      | error err => rfl
      | ok words => rfl

/-! ### The driver -/

/-- Where the chip stands when `rest` is left. -/
def seek (c : Chip N dimx dimy) (mask : List ℤ) (rest : List Instruction) : Chip N dimx dimy :=
  c.moveTo (c.instructionMemory.length - rest.length) mask

theorem iteration_eq (c : Chip N dimx dimy) :
    (c.configSetup >>= executeEpoch) =
      (driveStep (dimx * dimy * 64) (epochLog N (dimx * dimy) c.costTab) c.mask
        (c.instructionMemory.drop c.pc)).map fun p => (c.seek p.1 p.2.2).enter p.2.1 := by
  have hloops := Sim.Chip.configLoop_fetchLoop (dimx * dimy * 64) c.instructionMemory c.pc c.mask
    fun mask computeInstructions pc => (c.moveTo pc mask).runEpoch computeInstructions
  have hiteration : (c.configSetup >>= executeEpoch) =
      configLoop (dimx * dimy * 64) (c.instructionMemory.drop c.pc) c.pc c.mask >>= fun p =>
        fetchLoop (c.instructionMemory.drop p.1) p.1 [] >>= fun q =>
          (c.moveTo q.1 p.2).runEpoch q.2 := by
    rw [configSetup]
    cases configLoop (dimx * dimy * 64) (c.instructionMemory.drop c.pc) c.pc c.mask with
    | error e => rfl
    | ok p => rfl
  rw [hiteration.trans hloops, driveStep]
  cases configRead (dimx * dimy * 64) (c.instructionMemory.drop c.pc) c.mask with
  | error e => rfl
  | ok p =>
      simp only [bind, Except.bind]
      cases fetchRead p.2 with
      | error e => rfl
      | ok q =>
          simp only [runEpoch_eq, moveTo]
          cases epochLog N (dimx * dimy) c.costTab p.1 q.1 with
          | error e => rfl
          | ok t => rfl

theorem launchLoop_eq {c : Chip N dimx dimy} (hsize : c.instSize = c.instructionMemory.length)
    (hpc : c.pc ≤ c.instructionMemory.length)
    {r : Except PyError (List ℤ × Log N (dimx * dimy) × List Instruction)}
    (h : Drives (dimx * dimy * 64) (epochLog N (dimx * dimy) c.costTab) c.mask
      (c.instructionMemory.drop c.pc) r)
    {fuel : ℕ} (hfuel : (c.instructionMemory.drop c.pc).length < fuel) :
    launchLoop fuel c = some (r.map fun p => (c.seek p.1 p.2.2).enter p.2.1) := by
  induction fuel generalizing c r with
  | zero => omega
  | succ fuel ih =>
      have hlen : (c.instructionMemory.drop c.pc).length = c.instructionMemory.length - c.pc :=
        List.length_drop
      rw [launchLoop]
      cases h with
      | stop hl =>
          rw [if_neg (by omega)]
          refine congrArg some (congrArg Except.ok ?_)
          simp only [seek, hlen, Nat.sub_sub_self hpc]
          rfl
      | fail hl hstep =>
          rw [if_pos (by omega), iteration_eq, hstep]
          rfl
      | @next _ mask' _ rest t r' hl hstep hrest =>
          rw [if_pos (by omega), iteration_eq, hstep]
          obtain ⟨hsuf, hlt⟩ := driveStep_suffix hstep
          have hmem : rest <:+ c.instructionMemory := hsuf.trans (List.drop_suffix _ _)
          obtain ⟨htab, hmask, hpc', hsize', hmemory⟩ := enter_frame t (c.seek mask' rest)
          have hdrop : ((c.seek mask' rest).enter t).instructionMemory.drop ((c.seek mask' rest).enter t).pc =
              rest := by
            rw [hmemory, hpc']
            exact (List.suffix_iff_eq_drop.mp hmem).symm
          have hgo := ih (c := (c.seek mask' rest).enter t) (by rw [hsize', hmemory]; exact hsize)
            (by rw [hpc', hmemory]; exact Nat.sub_le _ _) (r := r') (by rw [hdrop, htab, hmask]; exact hrest)
            (by rw [hdrop]; omega)
          simp only [Except.map]
          rw [hgo]
          cases r' with
          | error e => rfl
          | ok q =>
              obtain ⟨mask'', t', rest'⟩ := q
              refine congrArg some (congrArg Except.ok ?_)
              have hseek : ((c.seek mask' rest).enter t).seek mask'' rest' =
                  (c.seek mask'' rest').enter t := by
                rw [seek, hmemory, seek, seek, enter_moveTo, enter_moveTo]
                rfl
              change (((c.seek mask' rest).enter t).seek mask'' rest').enter t' =
                (c.seek mask'' rest').enter (t + t')
              rw [hseek, acts_enter.add]

/-- The outcome of a launch from `pc` 0. -/
theorem launch_eq {c : Chip N dimx dimy} (hsize : c.instSize = c.instructionMemory.length) (multithread : ℤ)
    {r : Except PyError (List ℤ × Log N (dimx * dimy) × List Instruction)}
    (h : Drives (dimx * dimy * 64) (epochLog N (dimx * dimy) c.costTab) c.mask c.instructionMemory r) :
    c.launch 0 multithread =
      some (r.map fun p => ({ c with multithread := multithread }.seek p.1 p.2.2).enter p.2.1) := by
  have hfuel : (c.instructionMemory.drop 0).length < c.instSize + 1 := by
    rw [hsize, List.drop_zero]
    omega
  exact launchLoop_eq (c := { c with pc := 0, multithread := multithread }) hsize (Nat.zero_le _) h hfuel

end Chip

end RacerArtifacts.Sim.Numeric
