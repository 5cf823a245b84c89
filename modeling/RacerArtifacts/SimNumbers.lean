import Mathlib
import RacerArtifacts.SimLoader

/-! The chip in the arithmetic it really computes in. Python's numbers are ints, which are exact, and floats,
which round after every operation; nothing is assumed here of either, so that what is proved of this chip
holds for doubles, for floats of any other format and for either way the builtin `sum` has of adding floats.
The operations stand in the order of the source (`racer-sim/src/hardware.py`). -/

namespace RacerArtifacts.Sim

/-- Python's arithmetic on ints and floats. An int too large to become a float, which Python refuses to
convert, is converted to whatever the type has for it. -/
class Numbers (N : Type) extends Add N, Mul N where
  int : ℤ → N
  /-- The float that a literal denotes. -/
  float : ℚ → N
  /-- The builtin `sum` of a list. -/
  sum : List N → N
  /-- `x == 0`. -/
  isZero : N → Bool

namespace Numeric

open Numbers

variable {N : Type} [Numbers N]

/-! ### Multi-words and clusters -/

/-- `MemBus.getEnergyCost`, of ints. -/
def busEnergyCost (bus : MemBus) : N := int (bus.transferCount * bus.energyCost)

/-- `MemBus.getLatencyCost`. -/
def busLatencyCost (bus : MemBus) : N := int (bus.transferCount * bus.transferLatency)

structure MultiWord (N : Type) where
  energy : N

namespace MultiWord

def init : MultiWord N := ⟨int 0⟩

def reset (_ : MultiWord N) : MultiWord N := ⟨int 0⟩

def executeOp (tab : CostTab) (word : MultiWord N) (op : String) (multiplicativeFactor : ℤ) :
    Except PyError (MultiWord N) := do
  let row ← tab.op op
  return ⟨word.energy + float row.energyCost * int multiplicativeFactor⟩

def getEnergyCost (word : MultiWord N) : N := word.energy

end MultiWord

structure Cluster (N : Type) where
  computeUnits : Fin 64 → MultiWord N
  localMemBus : MemBus

namespace Cluster

def init (tab : CostTab) : Cluster N where
  computeUnits := fun _ => MultiWord.init
  localMemBus := MemBus.init tab.localMemBusTab

def reset (cluster : Cluster N) : Cluster N :=
  { cluster with computeUnits := fun i => (cluster.computeUnits i).reset }

def executeOp (tab : CostTab) (cluster : Cluster N) (op : String) (multiplicativeFactor : ℤ) (id : Fin 64) :
    Except PyError (Cluster N) := do
  let word ← (cluster.computeUnits id).executeOp tab op multiplicativeFactor
  return { cluster with computeUnits := Function.update cluster.computeUnits id word }

def getEnergyCost (cluster : Cluster N) : N :=
  let multiWordEnergy := sum (List.ofFn fun i => (cluster.computeUnits i).getEnergyCost)
  let busEnergy := busEnergyCost cluster.localMemBus
  busEnergy + multiWordEnergy

end Cluster

/-! ### The chip -/

structure Chip (N : Type) (dimx dimy : ℕ) where
  latency : N
  energy : N
  outBits : ℤ
  instSize : ℕ
  multithread : ℤ
  costTab : CostTab
  computeUnitGroups : Fin (dimx * dimy) → Cluster N
  globalMemBus : MemBus
  instructionMemory : List Instruction
  instructions : List Instruction
  pc : ℕ
  mask : List ℤ

/-- First pass of `executeEpoch` over one instruction, in the order in which the source computes. -/
def firstPassStep (tab : CostTab) (sequences active : ℕ) (acc : N × N) (ins : Instruction) :
    Except PyError (N × N) :=
  if hasSub "LOAD" ins.opCode then .ok acc
  else if hasSub "SHIFT" ins.opCode then do
    let hops ← ins.float 1
    let hopEnergy ← ins.float 2
    return (acc.1 + float hops * float 482, acc.2 + float hopEnergy * int 4097)
  else if hasSub "PROP" ins.opCode then do
    let props ← ins.float 1
    let propEnergy ← ins.float 2
    return (acc.1 + float props * float 12, acc.2 + float propEnergy * float 3.2768)
  else do
    let row ← tab.op ins.opCode
    let multiplicativeFactor ← ins.intFromEnd 1
    let dynamicPower : N := float 0.00079
    if isZero (float row.warmupEnergy : N) = false ∨ isZero (float row.warmupLatency : N) = false then
      let fleetSize ← ins.intFromEnd 2
      let epochLatency := acc.1 + (float row.latency * int fleetSize + float row.warmupLatency) *
          int sequences
      let epochDynamicEnergy := epochLatency * dynamicPower * int 1000
      return (epochLatency, acc.2 + ((float row.energyCost * int fleetSize + float row.warmupEnergy) *
        int multiplicativeFactor + epochDynamicEnergy) * int active)
    else
      let epochDynamicEnergy := float row.latency * dynamicPower * int 1000
      return (acc.1 + float row.latency * int sequences, acc.2 + epochDynamicEnergy * int active)

def firstPass (tab : CostTab) (sequences active : ℕ) (computeInstructions : List Instruction) :
    Except PyError (N × N) :=
  computeInstructions.foldlM (firstPassStep tab sequences active) (int 0, int 0)

namespace Chip

variable {dimx dimy : ℕ}

def init (tab : CostTab) : Chip N dimx dimy where
  latency := int 0
  energy := int 0
  outBits := 0
  instSize := 0
  multithread := 1
  costTab := tab
  computeUnitGroups := fun _ => Cluster.init tab
  globalMemBus := MemBus.init tab.globalMemBusTab
  instructionMemory := []
  instructions := []
  pc := 0
  mask := []

def reset (c : Chip N dimx dimy) : Chip N dimx dimy :=
  { c with
    latency := int 0
    energy := int 0
    outBits := 0
    instructions := []
    pc := 0
    instSize := 0
    computeUnitGroups := fun i => (c.computeUnitGroups i).reset }

def executeOp (c : Chip N dimx dimy) (ins : Instruction) (id : ℤ) : Except PyError (Chip N dimx dimy) := do
  let multiplicativeFactor ← ins.intFromEnd 1
  if !hasSub "LOAD" ins.opCode && !hasSub "STORE" ins.opCode then
    let clusterID ← pyIndex (dimx * dimy) (clusterOf id)
    let cluster ← (c.computeUnitGroups clusterID).executeOp c.costTab ins.opCode multiplicativeFactor
      (Sim.Chip.multiWordID id)
    return { c with computeUnitGroups := Function.update c.computeUnitGroups clusterID cluster }
  else if ins.opCode = "SLLOAD" then
    let localMemBusID ← ins.int 1
    let i ← pyIndex (dimx * dimy) (localMemBusID / 64)
    let cluster := { c.computeUnitGroups i with
      localMemBus := (c.computeUnitGroups i).localMemBus.executeTransfer }
    return { c with computeUnitGroups := Function.update c.computeUnitGroups i cluster }
  else if ins.opCode = "SGLOAD" then
    return { c with globalMemBus := c.globalMemBus.executeTransfer }
  else return c

def getEnergyCost (c : Chip N dimx dimy) : N :=
  let clusterEnergy := sum (List.ofFn fun i => (c.computeUnitGroups i).getEnergyCost)
  let busEnergy := busEnergyCost c.globalMemBus
  (busEnergy + clusterEnergy + c.energy) * float c.multithread

def getLatencyCost (c : Chip N dimx dimy) : N :=
  let busLatency := busLatencyCost c.globalMemBus
  c.latency + busLatency

def append (c : Chip N dimx dimy) (program : List Instruction) : Chip N dimx dimy :=
  { c with
    instructionMemory := c.instructionMemory ++ program
    instSize := (c.instructionMemory ++ program).length }

def loadInstruction (fs : FileSystem) (depth : ℕ) (c : Chip N dimx dimy) (fileName : String) :
    Except PyError (Chip N dimx dimy) := do
  let memory ← loadFile fs depth fileName c.instructionMemory
  return { c with instructionMemory := memory, instSize := memory.length }

def configSetup (c : Chip N dimx dimy) : Except PyError (Chip N dimx dimy) := do
  let (pc, mask) ← configLoop (dimx * dimy * 64) (c.instructionMemory.drop c.pc) c.pc c.mask
  return { c with pc := pc, mask := mask }

/-- Second pass of `executeEpoch` over one instruction for one active multi-word. -/
def secondPassStep (id : ℤ) (c : Chip N dimx dimy) (ins : Instruction) : Except PyError (Chip N dimx dimy) :=
  if ins.opCode = "SHIFT" ∨ ins.opCode = "PROP" then .ok c
  else do
    let row ← c.costTab.op ins.opCode
    if isZero (float row.warmupEnergy : N) = false ∧
      isZero (float row.warmupLatency : N) = false then return c
    else c.executeOp ins id

def secondPass (c : Chip N dimx dimy) (executionSquences : List (List ℤ))
    (computeInstructions : List Instruction) : Except PyError (Chip N dimx dimy) :=
  executionSquences.foldlM (fun c sequence =>
    sequence.foldlM (fun c id => computeInstructions.foldlM (secondPassStep id) c) c) c

/-- `executeEpoch` behind the fetch. -/
def runEpoch (c : Chip N dimx dimy) (computeInstructions : List Instruction) :
    Except PyError (Chip N dimx dimy) := do
  let executionSquences := executionSequences c.mask
  let active := (executionSquences.map List.length).sum
  let (epochLatency, epochEnergy) ←
    firstPass c.costTab executionSquences.length active computeInstructions
  let c := { c with latency := c.latency + epochLatency, energy := c.energy + epochEnergy }
  c.secondPass executionSquences computeInstructions

def executeEpoch (c : Chip N dimx dimy) : Except PyError (Chip N dimx dimy) := do
  let (pc, computeInstructions) ← fetchLoop (c.instructionMemory.drop c.pc) c.pc []
  { c with pc := pc }.runEpoch computeInstructions

def launchLoop : ℕ → Chip N dimx dimy → Option (Except PyError (Chip N dimx dimy))
  | 0, _ => none
  | fuel + 1, c =>
    if c.pc < c.instSize - 1 then
      match c.configSetup >>= executeEpoch with
      | .ok c => launchLoop fuel c
      | .error e => some (.error e)
    else some (.ok c)

def launch (c : Chip N dimx dimy) (pc : ℕ) (multithread : ℤ) : Option (Except PyError (Chip N dimx dimy)) :=
  launchLoop (c.instSize + 1) { c with pc := pc, multithread := multithread }

/-- Latency and energy cost together. -/
def costs (c : Chip N dimx dimy) : N × N := (c.getLatencyCost, c.getEnergyCost)

/-- A fresh chip with a program in its instruction memory. -/
def loaded (tab : CostTab) (prog : List Instruction) : Chip N dimx dimy := (init tab).append prog

end Chip

/-- The costs that a program launched on a fresh chip reports. -/
def launchCosts (N : Type) [Numbers N] (dimx dimy : ℕ) (tab : CostTab) (prog : List Instruction) (m : ℤ) :
    Option (Except PyError (N × N)) :=
  ((Chip.loaded tab prog : Chip N dimx dimy).launch 0 m).map (·.map Chip.costs)

/-- The costs of loading a file into a fresh chip and launching it. -/
def fileCosts (N : Type) [Numbers N] (dimx dimy : ℕ) (tab : CostTab) (fs : FileSystem) (depth : ℕ)
    (fileName : String) (m : ℤ) : Option (Except PyError (N × N)) :=
  match (Chip.init tab : Chip N dimx dimy).loadInstruction fs depth fileName with
  | .ok c => (c.launch 0 m).map (·.map Chip.costs)
  | .error e => some (.error e)

/-! ### Doubles -/

/-- A Python number: an int or a double. -/
inductive PyNumber where
  | int (k : ℤ)
  | double (x : Float.Model)
  deriving DecidableEq

namespace PyNumber

/-- The double nearest to a rational, of two the even one. -/
def nearest (q : ℚ) : Float.Model :=
  if h : q.num = 0 then .ofNat 0
  else .pack (.div .binary64 (.finite (if q.num < 0 then .negative else .positive) q.num.natAbs 0 (by omega))
    (.finite .positive q.den 0 q.den_pos))

/-- `float(x)`. -/
def toDouble : PyNumber → Float.Model
  | .int k => .ofInt k
  | .double x => x

def add : PyNumber → PyNumber → PyNumber
  | .int a, .int b => .int (a + b)
  | x, y => .double (x.toDouble + y.toDouble)

def mul : PyNumber → PyNumber → PyNumber
  | .int a, .int b => .int (a * b)
  | x, y => .double (x.toDouble * y.toDouble)

/-- `sum` from left to right, as it is up to Python 3.11. Later ones carry the rounding errors along, which
makes no difference where at most one element is not zero. -/
instance : Numbers PyNumber where
  add := add
  mul := mul
  int := .int
  float q := .double (nearest q)
  sum l := l.foldl add (.int 0)
  isZero
    | .int k => k == 0
    | .double x => x == .ofNat 0

end PyNumber

end Numeric

end RacerArtifacts.Sim
