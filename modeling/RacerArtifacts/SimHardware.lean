import Mathlib
import RacerArtifacts.SimText

/-! The RACER-Sim chip (`racer-sim/src/hardware.py`): memory buses, multi-words, clusters and the chip
with its two instruction loops. Costs are exact rationals. A Python list that never changes length is
a function on its indices, and the two `while(True)` loops recurse on the instruction memory from `pc`
on, so that a fetch behind its end is the `IndexError` it is in Python. -/

namespace RacerArtifacts.Sim

/-! ### Cost tables and instructions -/

/-- One row of the operation table. -/
structure OpCost where
  energyCost : ℚ
  outputBits : ℤ
  latency : ℚ
  activeClusters : ℤ
  warmupEnergy : ℚ
  warmupLatency : ℚ

structure MemBusTab where
  packageSize : ℤ
  transferLatency : ℤ
  transferEnergy : ℤ
  busSize : ℤ

/-- `CostTable.costTab`; the dictionary `opTab` is an association list. -/
structure CostTab where
  opTab : List (String × OpCost)
  localMemBusTab : MemBusTab
  globalMemBusTab : MemBusTab

/-- `self.costTab['opTab'][op]`. -/
def CostTab.op (tab : CostTab) (op : String) : Except PyError OpCost :=
  match tab.opTab.lookup op with
  | some row => .ok row
  | none => .error .keyError

/-- The fields of one program line. `split` never returns an empty list, so there is a first one. -/
structure Instruction where
  opCode : String
  operands : List String
  deriving DecidableEq, Repr

namespace Instruction

def fields (ins : Instruction) : List String := ins.opCode :: ins.operands

/-- `instruction[i]`. -/
def field (ins : Instruction) (i : ℕ) : Except PyError String :=
  match ins.fields[i]? with
  | some s => .ok s
  | none => .error .indexError

/-- `instruction[-i]`. -/
def fieldFromEnd (ins : Instruction) (i : ℕ) : Except PyError String :=
  if i ≤ ins.fields.length then ins.field (ins.fields.length - i) else .error .indexError

def int (ins : Instruction) (i : ℕ) : Except PyError ℤ := ins.field i >>= pyInt

def float (ins : Instruction) (i : ℕ) : Except PyError ℚ := ins.field i >>= pyFloat

def intFromEnd (ins : Instruction) (i : ℕ) : Except PyError ℤ := ins.fieldFromEnd i >>= pyInt

/-- `'SET' in opCode`: the test both loops stop on. -/
def isConfig (ins : Instruction) : Bool := hasSub "SET" ins.opCode

end Instruction

/-! ### Buses, multi-words and clusters -/

structure MemBus where
  packageSize : ℤ
  transferLatency : ℤ
  energyCost : ℤ
  size : ℤ
  transferCount : ℕ

namespace MemBus

def init (tab : MemBusTab) : MemBus where
  packageSize := tab.packageSize
  transferLatency := tab.transferLatency
  energyCost := tab.transferEnergy
  size := tab.busSize
  transferCount := 0

def reset (bus : MemBus) : MemBus := { bus with transferCount := 0 }

def getEnergyCost (bus : MemBus) : ℚ := bus.transferCount * bus.energyCost

def getLatencyCost (bus : MemBus) : ℚ := bus.transferCount * bus.transferLatency

def executeTransfer (bus : MemBus) : MemBus := { bus with transferCount := bus.transferCount + 1 }

end MemBus

structure MultiWord where
  energy : ℚ

namespace MultiWord

def init : MultiWord := ⟨0⟩

def reset (_ : MultiWord) : MultiWord := ⟨0⟩

def executeOp (tab : CostTab) (word : MultiWord) (op : String) (multiplicativeFactor : ℤ) :
    Except PyError MultiWord := do
  let row ← tab.op op
  return ⟨word.energy + row.energyCost * multiplicativeFactor⟩

def getEnergyCost (word : MultiWord) : ℚ := word.energy

end MultiWord

structure Cluster where
  computeUnits : Fin 64 → MultiWord
  localMemBus : MemBus

namespace Cluster

def init (tab : CostTab) : Cluster where
  computeUnits := fun _ => MultiWord.init
  localMemBus := MemBus.init tab.localMemBusTab

/-- The local bus is not among what the source resets. -/
def reset (cluster : Cluster) : Cluster :=
  { cluster with computeUnits := fun i => (cluster.computeUnits i).reset }

def executeOp (tab : CostTab) (cluster : Cluster) (op : String) (multiplicativeFactor : ℤ) (id : Fin 64) :
    Except PyError Cluster := do
  let word ← (cluster.computeUnits id).executeOp tab op multiplicativeFactor
  return { cluster with computeUnits := Function.update cluster.computeUnits id word }

def getEnergyCost (cluster : Cluster) : ℚ :=
  let multiWordEnergy := ∑ i, (cluster.computeUnits i).getEnergyCost
  let busEnergy := cluster.localMemBus.getEnergyCost
  busEnergy + multiWordEnergy

end Cluster

/-! ### The chip -/

/-- A chip of `dimx * dimy` clusters. `instructions` is the attribute that `reset` assigns. -/
structure Chip (dimx dimy : ℕ) where
  latency : ℚ
  energy : ℚ
  outBits : ℤ
  instSize : ℕ
  multithread : ℤ
  costTab : CostTab
  computeUnitGroups : Fin (dimx * dimy) → Cluster
  globalMemBus : MemBus
  instructionMemory : List Instruction
  instructions : List Instruction
  pc : ℕ
  mask : List ℤ

/-! ### Configuration instructions -/

/-- `range(start, stop, step)`. -/
def pyRange (start stop step : ℤ) : Except PyError (List ℤ) :=
  if step = 0 then .error .valueError
  else
    let count := if 0 < step then (stop - start + step - 1) / step else (start - stop - step - 1) / (-step)
    .ok ((List.range count.toNat).map fun i : ℕ => start + i * step)

/-- `mask.remove(id)`. -/
def pyRemove (mask : List ℤ) (id : ℤ) : Except PyError (List ℤ) :=
  if id ∈ mask then .ok (mask.erase id) else .error .valueError

/-- What one configuration instruction makes of the mask on a chip of `units` multi-words. -/
def configStep (units : ℕ) (mask : List ℤ) (ins : Instruction) : Except PyError (List ℤ) :=
  if ins.opCode = "SETALL" then .ok ((List.range units).map fun i : ℕ => (i : ℤ))
  else if ins.opCode = "UNSETALL" then .ok []
  else if ins.opCode = "SET" then do
    let id ← ins.int 1
    return mask ++ [id]
  else if ins.opCode = "UNSET" then do
    let id ← ins.int 1
    pyRemove mask id
  else if ins.opCode = "SETBULK" then do
    let start ← ins.int 1
    let num ← ins.int 2
    let step ← ins.int 3
    let stop := start + num * step
    let ids ← pyRange start stop step
    return mask ++ ids
  else if ins.opCode = "UNSETBULK" then do
    let start ← ins.int 1
    let stop ← ins.int 2
    let step ← ins.int 3
    let removeList ← pyRange start stop step
    removeList.foldlM pyRemove mask
  else .ok mask

/-- The loop of `configSetup` over the instruction memory from `pc` on. -/
def configLoop (units : ℕ) : List Instruction → ℕ → List ℤ → Except PyError (ℕ × List ℤ)
  | [], _, _ => .error .indexError
  | ins :: rest, pc, mask =>
    if ins.isConfig then do
      let mask ← configStep units mask ins
      configLoop units rest (pc + 1) mask
    else .ok (pc, mask)

/-! ### Epochs -/

def clusterOf (id : ℤ) : ℤ := id / 64

/-- One iteration over the mask: the finished sequences, the current one and its `overlapList`. -/
def sequenceStep (st : List (List ℤ) × List ℤ × List ℤ) (id : ℤ) : List (List ℤ) × List ℤ × List ℤ :=
  let (executionSquences, sequence, overlapList) := st
  if clusterOf id ∉ overlapList then (executionSquences, sequence ++ [id], overlapList ++ [clusterOf id])
  else (executionSquences ++ [sequence], [id], [clusterOf id])

/-- The sequences `executeEpoch` splits the mask into. -/
def executionSequences (mask : List ℤ) : List (List ℤ) :=
  let (executionSquences, sequence, _) := mask.foldl sequenceStep ([], [], [])
  executionSquences ++ [sequence]

/-- The compute instructions of an epoch: everything up to the next configuration instruction. -/
def fetchLoop : List Instruction → ℕ → List Instruction → Except PyError (ℕ × List Instruction)
  | [], _, _ => .error .indexError
  | ins :: rest, pc, computeInstructions =>
    if ins.isConfig then .ok (pc, computeInstructions)
    else fetchLoop rest (pc + 1) (computeInstructions ++ [ins])

/-- First pass of `executeEpoch` over one instruction: `acc` is `(epochLatency, epochEnergy)`,
`sequences` the number of execution sequences and `active` the number of ids in them. -/
def firstPassStep (tab : CostTab) (sequences active : ℕ) (acc : ℚ × ℚ) (ins : Instruction) :
    Except PyError (ℚ × ℚ) :=
  if hasSub "LOAD" ins.opCode then .ok acc
  else if hasSub "SHIFT" ins.opCode then do
    let hops ← ins.float 1
    let hopEnergy ← ins.float 2
    return (acc.1 + hops * 482, acc.2 + hopEnergy * 4097)
  else if hasSub "PROP" ins.opCode then do
    let props ← ins.float 1
    let propEnergy ← ins.float 2
    return (acc.1 + props * 12, acc.2 + propEnergy * 3.2768)
  else do
    let row ← tab.op ins.opCode
    let multiplicativeFactor ← ins.intFromEnd 1
    let dynamicPower : ℚ := 0.00079
    if row.warmupEnergy ≠ 0 ∨ row.warmupLatency ≠ 0 then
      let fleetSize ← ins.intFromEnd 2
      let epochLatency := acc.1 + (row.latency * fleetSize + row.warmupLatency) * sequences
      let epochDynamicEnergy := epochLatency * dynamicPower * 1000
      return (epochLatency, acc.2 + ((row.energyCost * fleetSize + row.warmupEnergy) * multiplicativeFactor +
        epochDynamicEnergy) * active)
    else
      let epochDynamicEnergy := row.latency * dynamicPower * 1000
      return (acc.1 + row.latency * sequences, acc.2 + epochDynamicEnergy * active)

def firstPass (tab : CostTab) (sequences active : ℕ) (computeInstructions : List Instruction) :
    Except PyError (ℚ × ℚ) :=
  computeInstructions.foldlM (firstPassStep tab sequences active) (0, 0)

namespace Chip

variable {dimx dimy : ℕ}

def init (tab : CostTab) : Chip dimx dimy where
  latency := 0
  energy := 0
  outBits := 0
  instSize := 0
  multithread := 1
  costTab := tab
  computeUnitGroups := fun _ => Cluster.init tab
  globalMemBus := MemBus.init tab.globalMemBusTab
  instructionMemory := []
  instructions := []
  pc := 0
  mask := []

def reset (c : Chip dimx dimy) : Chip dimx dimy :=
  { c with
    latency := 0
    energy := 0
    outBits := 0
    instructions := []
    pc := 0
    instSize := 0
    computeUnitGroups := fun i => (c.computeUnitGroups i).reset }

/-- `multiWordID = id % 64`. -/
def multiWordID (id : ℤ) : Fin 64 := ⟨(id % 64).toNat, by omega⟩

def executeOp (c : Chip dimx dimy) (ins : Instruction) (id : ℤ) : Except PyError (Chip dimx dimy) := do
  let multiplicativeFactor ← ins.intFromEnd 1
  if !hasSub "LOAD" ins.opCode && !hasSub "STORE" ins.opCode then
    let clusterID ← pyIndex (dimx * dimy) (clusterOf id)
    let cluster ← (c.computeUnitGroups clusterID).executeOp c.costTab ins.opCode multiplicativeFactor
      (multiWordID id)
    return { c with computeUnitGroups := Function.update c.computeUnitGroups clusterID cluster }
  else if ins.opCode = "SLLOAD" then
    let localMemBusID ← ins.int 1
    let i ← pyIndex (dimx * dimy) (localMemBusID / 64)
    let cluster := { c.computeUnitGroups i with
      localMemBus := (c.computeUnitGroups i).localMemBus.executeTransfer }
    return { c with computeUnitGroups := Function.update c.computeUnitGroups i cluster }
  else if ins.opCode = "SGLOAD" then
    return { c with globalMemBus := c.globalMemBus.executeTransfer }
  else return c

def getEnergyCost (c : Chip dimx dimy) : ℚ :=
  let clusterEnergy := ∑ i, (c.computeUnitGroups i).getEnergyCost
  let busEnergy := c.globalMemBus.getEnergyCost
  (busEnergy + clusterEnergy + c.energy) * c.multithread

def getLatencyCost (c : Chip dimx dimy) : ℚ :=
  let busLatency := c.globalMemBus.getLatencyCost
  c.latency + busLatency

/-- What `loadInstruction` does with the instructions of a file: they are appended. -/
def append (c : Chip dimx dimy) (program : List Instruction) : Chip dimx dimy :=
  { c with
    instructionMemory := c.instructionMemory ++ program
    instSize := (c.instructionMemory ++ program).length }

def configSetup (c : Chip dimx dimy) : Except PyError (Chip dimx dimy) := do
  let (pc, mask) ← configLoop (dimx * dimy * 64) (c.instructionMemory.drop c.pc) c.pc c.mask
  return { c with pc := pc, mask := mask }

/-- Second pass of `executeEpoch` over one instruction for one active multi-word. -/
def secondPassStep (id : ℤ) (c : Chip dimx dimy) (ins : Instruction) : Except PyError (Chip dimx dimy) :=
  if ins.opCode = "SHIFT" ∨ ins.opCode = "PROP" then .ok c
  else do
    let row ← c.costTab.op ins.opCode
    if row.warmupEnergy ≠ 0 ∧ row.warmupLatency ≠ 0 then return c
    else c.executeOp ins id

def secondPass (c : Chip dimx dimy) (executionSquences : List (List ℤ))
    (computeInstructions : List Instruction) : Except PyError (Chip dimx dimy) :=
  executionSquences.foldlM (fun c sequence =>
    sequence.foldlM (fun c id => computeInstructions.foldlM (secondPassStep id) c) c) c

/-- `executeEpoch` behind the fetch. -/
def runEpoch (c : Chip dimx dimy) (computeInstructions : List Instruction) :
    Except PyError (Chip dimx dimy) := do
  let executionSquences := executionSequences c.mask
  let active := (executionSquences.map List.length).sum
  let (epochLatency, epochEnergy) ←
    firstPass c.costTab executionSquences.length active computeInstructions
  let c := { c with latency := c.latency + epochLatency, energy := c.energy + epochEnergy }
  c.secondPass executionSquences computeInstructions

def executeEpoch (c : Chip dimx dimy) : Except PyError (Chip dimx dimy) := do
  let (pc, computeInstructions) ← fetchLoop (c.instructionMemory.drop c.pc) c.pc []
  { c with pc := pc }.runEpoch computeInstructions

/-- The driver loop. `none`: still running after `fuel` iterations. -/
def launchLoop : ℕ → Chip dimx dimy → Option (Except PyError (Chip dimx dimy))
  | 0, _ => none
  | fuel + 1, c =>
    if c.pc < c.instSize - 1 then
      match c.configSetup >>= executeEpoch with
      | .ok c => launchLoop fuel c
      | .error e => some (.error e)
    else some (.ok c)

/-- `launch(pc, _multithread)`, with one iteration more than there are instructions. -/
def launch (c : Chip dimx dimy) (pc : ℕ) (multithread : ℤ) : Option (Except PyError (Chip dimx dimy)) :=
  launchLoop (c.instSize + 1) { c with pc := pc, multithread := multithread }

end Chip

end RacerArtifacts.Sim
