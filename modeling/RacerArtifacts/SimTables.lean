import Mathlib
import RacerArtifacts.LibAssignments
import RacerArtifacts.SimConcat
import RacerArtifacts.SimExpansion

/-! The cost tables (`racer-sim/src/costTable.py`) and the whole program (`racer-sim/racer-sim.py`): the
operation table and the bus tables are read as CSV, a chip is built from them, and the costs of one program
file are what it prints. -/

namespace RacerArtifacts.Sim

open Assignments Charging Fallible

/-! ### CSV files -/

inductive CsvState where
  | startRecord
  | startField
  | inField
  | inQuotedField
  | quoteInQuotedField
  | eatCrnl
  deriving DecidableEq, Repr

/-- A `csv.reader` in the middle of a record. -/
structure CsvReader where
  state : CsvState
  field : List Char
  fields : List String

namespace CsvReader

def init : CsvReader := ⟨.startRecord, [], []⟩

variable (r : CsvReader)

def saveField (next : CsvState) : CsvReader := ⟨next, [], r.fields ++ [String.ofList r.field]⟩

def addChar (c : Char) (next : CsvState) : CsvReader := { r with state := next, field := r.field ++ [c] }

def isEol (c : Char) : Bool := c == '\n' || c == '\r'

/-- A character where a field may start. -/
def startField (c : Char) : CsvReader :=
  if isEol c then r.saveField .eatCrnl
  else if c = '|' then { r with state := .inQuotedField }
  else if c = ',' then r.saveField .startField
  else r.addChar c .inField

/-- One character, with the delimiter `,` and the quote `|`, which doubled stands for itself. A line has
nothing behind its end. -/
def char (c : Char) : CsvReader :=
  match r.state with
  | .startRecord => if isEol c then { r with state := .eatCrnl } else r.startField c
  | .startField => r.startField c
  | .inField =>
      if isEol c then r.saveField .eatCrnl
      else if c = ',' then r.saveField .startField
      else r.addChar c .inField
  | .inQuotedField => if c = '|' then { r with state := .quoteInQuotedField } else r.addChar c .inQuotedField
  | .quoteInQuotedField =>
      if c = '|' then r.addChar c .inQuotedField
      else if c = ',' then r.saveField .startField
      else if isEol c then r.saveField .eatCrnl
      else r.addChar c .inField
  | .eatCrnl => r

/-- Behind the last character of a line. A quoted field goes on in the next one. -/
def endOfLine : CsvReader :=
  match r.state with
  | .startRecord => r
  | .startField => r.saveField .startRecord
  | .inField => r.saveField .startRecord
  | .quoteInQuotedField => r.saveField .startRecord
  | .inQuotedField => r
  | .eatCrnl => { r with state := .startRecord }

end CsvReader

/-- The rows of a file, from a reader on. -/
def csvRows : CsvReader → List String → List (List String)
  | r, [] => if r.field ≠ [] ∨ r.state = .inQuotedField then [(r.saveField .startRecord).fields] else []
  | r, line :: lines =>
      let r := (line.toList.foldl CsvReader.char r).endOfLine
      if r.state = .startRecord then r.fields :: csvRows .init lines else csvRows r lines

/-! ### The tables -/

/-- `l[i]`. -/
def item (l : List String) (i : ℕ) : Except PyError String :=
  match l[i]? with
  | some s => .ok s
  | none => .error .indexError

/-- The entry of a row of the operation table. -/
def opCost (row : List String) : Except PyError (String × OpCost) := do
  let energyCost ← item row 1 >>= pyFloat
  let outputBits ← item row 2 >>= pyInt
  let latency ← item row 3 >>= pyFloat
  let activeClusters ← item row 4 >>= pyInt
  let warmupEnergy ← item row 5 >>= pyFloat
  let warmupLatency ← item row 6 >>= pyFloat
  let name ← item row 0
  return (name, ⟨energyCost, outputBits, latency, activeClusters, warmupEnergy, warmupLatency⟩)

/-- `dict[k] = v`: a key keeps its place. -/
def dictSet {α : Type} (k : String) (v : α) : List (String × α) → List (String × α)
  | [] => [(k, v)]
  | a :: as => if a.1 = k then (k, v) :: as else a :: dictSet k v as

/-- The first row is the header. -/
def opTable (rows : List (List String)) : Except PyError (List (String × OpCost)) :=
  (rows.drop 1).foldlM (fun opTab row => do
    let entry ← opCost row
    return dictSet entry.1 entry.2 opTab) []

/-- The keys of a bus table that were set. -/
structure MemBusKeys where
  packageSize : Option ℤ
  transferLatency : Option ℤ
  transferEnergy : Option ℤ
  busSize : Option ℤ

namespace MemBusKeys

def empty : MemBusKeys := ⟨none, none, none, none⟩

/-- What a row sets, by what its name contains. -/
def set (keys : MemBusKeys) (row : List String) (name : String) : Except PyError MemBusKeys := do
  let keys ← if hasSub "PackageSize" name then do
      return { keys with packageSize := some (← item row 1 >>= pyInt) }
    else pure keys
  let keys ← if hasSub "Latency" name then do
      return { keys with transferLatency := some (← item row 1 >>= pyInt) }
    else pure keys
  let keys ← if hasSub "Energy" name then do
      return { keys with transferEnergy := some (← item row 1 >>= pyInt) }
    else pure keys
  if hasSub "BusSize" name then do
    return { keys with busSize := some (← item row 1 >>= pyInt) }
  else pure keys

def key : Option ℤ → Except PyError ℤ
  | some v => .ok v
  | none => .error .keyError

/-- What the constructor of `MemBus` reads of them. -/
def memBusTab (keys : MemBusKeys) : Except PyError MemBusTab := do
  let packageSize ← key keys.packageSize
  let transferLatency ← key keys.transferLatency
  let transferEnergy ← key keys.transferEnergy
  let busSize ← key keys.busSize
  return ⟨packageSize, transferLatency, transferEnergy, busSize⟩

end MemBusKeys

/-- A row of the CMOS table: the wiring of the clusters, of the chip, or something else. -/
def cmosRow (tabs : MemBusKeys × MemBusKeys) (row : List String) :
    Except PyError (MemBusKeys × MemBusKeys) := do
  let name ← item row 0
  if hasSub "localMemBus" name then do
    return (← tabs.1.set row name, tabs.2)
  else if hasSub "globalMemBus" name then do
    return (tabs.1, ← tabs.2.set row name)
  else return tabs

def openFile (fs : FileSystem) (fileName : String) : Except PyError (List String) :=
  match fs fileName with
  | some lines => .ok lines
  | none => .error .fileNotFound

/-- The bus tables of a chip of these dimensions: its clusters build their buses, of which there may be none,
and then the chip its own. -/
def busTables (dimx dimy : ℕ) (lines : List String) : Except PyError (MemBusTab × MemBusTab) := do
  let (localKeys, globalKeys) ← (csvRows .init lines).foldlM cmosRow (.empty, .empty)
  let localMemBusTab ← if dimx * dimy = 0 then pure ⟨0, 0, 0, 0⟩ else localKeys.memBusTab
  let globalMemBusTab ← globalKeys.memBusTab
  return (localMemBusTab, globalMemBusTab)

/-- The tables that the two files make. -/
def costTable (dimx dimy : ℕ) (fs : FileSystem) (opCostFileName cmosCostFileName : String) :
    Except PyError CostTab := do
  let opTab ← openFile fs opCostFileName >>= fun lines => opTable (csvRows .init lines)
  let (localMemBusTab, globalMemBusTab) ← openFile fs cmosCostFileName >>= busTables dimx dimy
  return ⟨opTab, localMemBusTab, globalMemBusTab⟩

/-! ### The program -/

/-- The last argument, 1 when it is missing. -/
def multithreadOf (argv : List String) : Except PyError ℤ :=
  if 2 < argv.length then item argv 2 >>= pyInt else .ok 1

/-- The chip that is launched. -/
def setup (dimx dimy : ℕ) (fs : FileSystem) (depth : ℕ) (opCostFileName cmosCostFileName : String)
    (argv : List String) : Except PyError (Chip dimx dimy × ℤ) := do
  let tab ← costTable dimx dimy fs opCostFileName cmosCostFileName
  let chip : Chip dimx dimy := (Chip.init tab).reset
  let multithread ← multithreadOf argv
  let fileName ← item argv 1
  let chip ← chip.loadInstruction fs depth fileName
  return (chip, multithread)

/-- The latency and the energy that are printed, for a chip of any dimensions and any two cost files. -/
def racerSim (dimx dimy : ℕ) (fs : FileSystem) (depth : ℕ) (opCostFileName cmosCostFileName : String)
    (argv : List String) : Option (Except PyError (ℚ × ℚ)) :=
  match setup dimx dimy fs depth opCostFileName cmosCostFileName argv with
  | .ok (chip, multithread) => (chip.launch 0 multithread).map (·.map Chip.costs)
  | .error e => some (.error e)

namespace Numeric

/-- The chip that is launched, in any arithmetic. -/
def setup (N : Type) [Numbers N] (dimx dimy : ℕ) (fs : FileSystem) (depth : ℕ)
    (opCostFileName cmosCostFileName : String) (argv : List String) :
    Except PyError (Chip N dimx dimy × ℤ) := do
  let tab ← costTable dimx dimy fs opCostFileName cmosCostFileName
  let chip : Chip N dimx dimy := (Chip.init tab).reset
  let multithread ← multithreadOf argv
  let fileName ← item argv 1
  let chip ← chip.loadInstruction fs depth fileName
  return (chip, multithread)

/-- The latency and the energy that are printed, in any arithmetic. -/
def racerSim (N : Type) [Numbers N] (dimx dimy : ℕ) (fs : FileSystem) (depth : ℕ)
    (opCostFileName cmosCostFileName : String) (argv : List String) : Option (Except PyError (N × N)) :=
  match setup N dimx dimy fs depth opCostFileName cmosCostFileName argv with
  | .ok (chip, multithread) => (chip.launch 0 multithread).map (·.map Chip.costs)
  | .error e => some (.error e)

end Numeric

/-- `racer-sim.py`. -/
def main (fs : FileSystem) (depth : ℕ) (argv : List String) : Option (Except PyError (ℚ × ℚ)) :=
  racerSim 64 64 fs depth "../../racer-sim/cost/updatedOperationCosts.csv"
    "../../racer-sim/cost/cmosExample.csv" argv

/-! ### The last row of an operation -/

theorem lookup_dictSet {α : Type} (k op : String) (v : α) (l : List (String × α)) :
    (dictSet k v l).lookup op = if k = op then some v else l.lookup op := by
  induction l with
  | nil =>
      rw [dictSet, List.lookup_cons]
      by_cases hk : k = op
      · rw [if_pos hk, hk, beq_self_eq_true]
      · rw [if_neg hk, beq_eq_false_iff_ne.mpr (Ne.symm hk)]
  | cons a as ih =>
      rw [dictSet]
      by_cases ha : a.1 = k
      · rw [if_pos ha, List.lookup_cons, List.lookup_cons, ha]
        by_cases hk : k = op
        · rw [if_pos hk, hk, beq_self_eq_true]
        · rw [if_neg hk, beq_eq_false_iff_ne.mpr (Ne.symm hk)]
      · rw [if_neg ha, List.lookup_cons, List.lookup_cons, ih]
        by_cases hop : op = a.1
        · rw [hop, beq_self_eq_true, if_neg (Ne.symm ha), if_neg (Ne.symm ha)]
        · rw [beq_eq_false_iff_ne.mpr hop]

theorem lookup_foldl_dictSet {α : Type} (op : String) (entries l : List (String × α)) :
    (entries.foldl (fun l e => dictSet e.1 e.2 l) l).lookup op = (lastOf op entries).or (l.lookup op) := by
  induction entries generalizing l with
  | nil => rfl
  | cons e entries ih =>
      rw [List.foldl_cons, ih, lookup_dictSet, lastOf_cons, Option.or_assoc]
      by_cases he : e.1 = op
      · rw [if_pos he, if_pos he]
        rfl
      · rw [if_neg he, if_neg he]
        rfl

/-- The entries of the operation table that the lines of a file make. -/
def opEntries (lines : List String) : Except PyError (List (String × OpCost)) :=
  ((csvRows .init lines).drop 1).mapM opCost

theorem foldlM_dictSet (rows : List (List String)) (l : List (String × OpCost)) :
    rows.foldlM (fun opTab row => do
      let entry ← opCost row
      return dictSet entry.1 entry.2 opTab) l =
      (rows.mapM opCost).map fun entries => entries.foldl (fun l e => dictSet e.1 e.2 l) l := by
  induction rows generalizing l with
  | nil => rfl
  | cons row rows ih =>
      rw [List.foldlM_cons, List.mapM_cons]
      cases opCost row with
      | error e => rfl
      | ok entry =>
          refine (ih _).trans ?_
          cases rows.mapM opCost with
          | error e => rfl
          | ok entries => rfl

/-- **What the operation table says**: the last row of an operation. -/
theorem lookup_opTable {lines : List String} {entries : List (String × OpCost)}
    (h : opEntries lines = .ok entries) :
    ∃ opTab, opTable (csvRows .init lines) = .ok opTab ∧ ∀ op, opTab.lookup op = lastOf op entries := by
  refine ⟨entries.foldl (fun l e => dictSet e.1 e.2 l) [], ?_, fun op => ?_⟩
  · rw [opTable, foldlM_dictSet, ← opEntries, h]
    rfl
  · rw [lookup_foldl_dictSet]
    exact Option.or_none

/-- Two tables that say the same. -/
structure SameCosts (tab tab' : CostTab) : Prop where
  op : tab.op = tab'.op
  localTab : tab.localMemBusTab = tab'.localMemBusTab
  globalTab : tab.globalMemBusTab = tab'.globalMemBusTab

section SameCosts

variable {tab tab' : CostTab} {n : ℕ}

theorem SameCosts.epochTally_eq (h : SameCosts tab tab') : epochTally n tab = epochTally n tab' := by
  have hfirst : firstPassStep tab = firstPassStep tab' := by
    funext sequences active acc ins
    simp only [firstPassStep, h.op]
  have hword : wordTally n tab = wordTally n tab' := by
    funext id ins
    simp only [wordTally, opTally, h.op]
  funext mask run
  rw [epochTally, epochTally, firstPass, firstPass, hfirst, hword]

theorem SameCosts.drives (h : SameCosts tab tab') {mask : List ℤ} {l : List Instruction}
    {r : Except PyError (List ℤ × Tally n × List Instruction)}
    (hr : Drives (n * 64) (epochTally n tab) mask l r) :
    Drives (n * 64) (epochTally n tab') mask l r := by
  have hstep : ∀ mask l, driveStep (n * 64) (epochTally n tab) mask l =
      driveStep (n * 64) (epochTally n tab') mask l := by
    intro mask l
    rw [driveStep, driveStep, h.epochTally_eq]
  induction hr with
  | stop hl => exact .stop hl
  | fail hl hfail => exact .fail hl (by rw [← hstep, hfail])
  | next hl hnext _ ih => exact .next hl (by rw [← hstep, hnext]) ih

theorem SameCosts.launchCosts_eq {dimx dimy : ℕ} (h : SameCosts tab tab') (prog : List Instruction) (m : ℤ) :
    launchCosts dimx dimy tab prog m = launchCosts dimx dimy tab' prog m := by
  obtain ⟨r, hr⟩ := Drives.exists_outcome (dimx * dimy * 64) (epochTally (dimx * dimy) tab) [] prog
  rw [launchCosts_of_drives hr m, launchCosts_of_drives (h.drives hr) m]
  simp only [Tally.latencyCost, Tally.energyCost, h.localTab, h.globalTab]

end SameCosts

/-! ### The program -/

/-- The tables that were loaded have the last row of each operation. -/
theorem costTable_ok {dimx dimy : ℕ} {fs : FileSystem} {opCostFileName cmosCostFileName : String}
    {tab : CostTab} (h : costTable dimx dimy fs opCostFileName cmosCostFileName = .ok tab) :
    ∃ lines entries, fs opCostFileName = some lines ∧ opEntries lines = .ok entries ∧
      ∀ op, tab.opTab.lookup op = lastOf op entries := by
  obtain ⟨opTab, hop, h⟩ := bind_ok h
  obtain ⟨lines, hlines, hop⟩ := bind_ok hop
  obtain ⟨tabs, -, h⟩ := bind_ok h
  cases h
  have hfile : fs opCostFileName = some lines := by
    rw [openFile] at hlines
    cases hfs : fs opCostFileName with
    | none =>
        rw [hfs] at hlines
        cases hlines
    | some found =>
        rw [hfs] at hlines
        cases hlines
        rfl
  have hentries : ∃ entries, opEntries lines = .ok entries := by
    rw [opTable, foldlM_dictSet] at hop
    obtain ⟨entries, hentries, -⟩ := map_ok hop
    exact ⟨entries, hentries⟩
  obtain ⟨entries, hentries⟩ := hentries
  obtain ⟨opTab', hop', hlast⟩ := lookup_opTable hentries
  obtain rfl := Except.ok.inj (hop'.symm.trans hop)
  exact ⟨lines, entries, hfile, hentries, hlast⟩

/-- With tables that load and a program that loads, the program is launched on a fresh chip. -/
theorem Numeric.racerSim_loaded {N : Type} [Numbers N] {dimx dimy : ℕ} {fs : FileSystem} {depth : ℕ}
    {opCostFileName cmosCostFileName fileName : String} {tab : CostTab}
    (htab : costTable dimx dimy fs opCostFileName cmosCostFileName = .ok tab) {argv : List String}
    (hfile : item argv 1 = .ok fileName) {m : ℤ} (hm : multithreadOf argv = .ok m) {prog : List Instruction}
    (hprog : loadFile fs depth fileName [] = .ok prog) :
    Numeric.racerSim N dimx dimy fs depth opCostFileName cmosCostFileName argv =
      Numeric.launchCosts N dimx dimy tab prog m := by
  have hload : (Numeric.Chip.init tab : Numeric.Chip N dimx dimy).reset.loadInstruction fs depth fileName =
      .ok (Numeric.Chip.loaded tab prog) := by
    unfold Numeric.Chip.loadInstruction
    change (loadFile fs depth fileName [] >>= _) = _
    rw [hprog]
    rfl
  rw [Numeric.racerSim, Numeric.setup, htab, ok_bind, hm, ok_bind, hfile, ok_bind, hload]
  rfl

/-- **What `racer-sim.py` prints**, in any arithmetic. Of a program file whose imports form a finite tree in
which no line of code is swallowed, with tables that load, the program is the expansion, the costs of an
operation are those of its last row, and a well-formed program of at least two instructions fails with an
index error when it ends badly, and otherwise costs what executing its epochs in order costs. In an exact
arithmetic these are the sums over the epochs, with the energy times the multithreading argument. -/
theorem racerSim_costs {N : Type} [Numbers N] {dimx dimy : ℕ} {fs : FileSystem}
    {opCostFileName cmosCostFileName fileName : String} {tab : CostTab}
    (htab : costTable dimx dimy fs opCostFileName cmosCostFileName = .ok tab)
    (htree : ImportTree fs fileName) (hintact : NothingSwallowed fs fileName) {argv : List String}
    (hfile : item argv 1 = .ok fileName) {m : ℤ} (hm : multithreadOf argv = .ok m) :
    (∃ lines entries, fs opCostFileName = some lines ∧ opEntries lines = .ok entries ∧
        ∀ op, tab.opTab.lookup op = lastOf op entries) ∧
      ∃ height program, expansion fs height fileName = some program ∧
        (Numeric.WellFormed N (dimx * dimy * 64) tab program → 2 ≤ program.length → ∀ depth ≥ height,
          (BadEnd program →
            Numeric.racerSim N dimx dimy fs depth opCostFileName cmosCostFileName argv =
              some (.error .indexError)) ∧
          (EndsWell program → ∃ es cost, epochs (dimx * dimy * 64) [] program = .ok es ∧
            (Numeric.executed N dimx dimy tab program m es).map Numeric.Chip.costs = .ok cost ∧
            Numeric.racerSim N dimx dimy fs depth opCostFileName cmosCostFileName argv = some (.ok cost) ∧
            ∀ v : N → ℚ, Numeric.Exact v → Prod.map v v cost =
              ((es.map fun e => epochLatency tab e.mask e.instructions).sum,
                (es.map fun e => epochEnergy tab e.mask e.instructions).sum * m))) := by
  refine ⟨costTable_ok htab, ?_⟩
  obtain ⟨height, program, hexpansion⟩ := htree.exists_expansion
  refine ⟨height, program, hexpansion, fun hwf hlen depth hdepth => ?_⟩
  obtain ⟨loaded, hloaded, -, hiff⟩ := loadFile_expansion hexpansion hdepth
  obtain rfl := hiff.mpr hintact
  rw [Numeric.racerSim_loaded htab hfile hm hloaded]
  obtain ⟨es, hes, hepochs⟩ := ReadsOk.epochs_ok hwf
  have hlogs : ∀ e ∈ es, ∃ log, e.charges (Numeric.epochLog N (dimx * dimy) tab) = .ok log := fun e he =>
    Numeric.epochLog_ok (hepochs e he).1 fun ins hins => ((hepochs e he).2 ins hins).1
  constructor
  · intro hend
    rw [Numeric.launchCosts_of_drives (drives_of_badEnd hend hlen hes hlogs)]
    rfl
  · intro hend
    obtain ⟨log, hlog⟩ := exists_total_ok hlogs
    obtain ⟨mask, last, hrun⟩ := drives_of_endsWell (Numeric.epochLog N (dimx * dimy) tab) hend hes
    rw [hlog] at hrun
    obtain ⟨cost, hcost⟩ := Numeric.executes_of_drives hrun hlog m
    refine ⟨es, cost, hes, hcost.executed, hcost.launch, fun v hv => ?_⟩
    have hexact := hv.launchCosts dimx dimy tab loaded m
    rw [hcost.launch, launchCosts_eq (hv.wellFormed hwf) hend hes m] at hexact
    exact Except.ok.inj (Option.some.inj hexact)

/-! ### A program of two files -/

def and8Row : String := "AND8,32.5,512,13.5,4096,0,0\n"

/-- The program and the bus tables, with an operation table of one's own. -/
def sampleFs (opLines : List String) : FileSystem := fun fileName =>
  if fileName = "op.csv" then some opLines
  else if fileName = "cmos.csv" then some ["localMemBusPackageSize,512\n", "localMemBusLatency,40\n",
    "localMemBusTransferEnergy,100\n", "localMemBusSize,64\n", "globalMemBusPackageSize,1024\n",
    "globalMemBusLatency,400\n", "globalMemBusTransferEnergy,1000\n", "globalMemBusSize,64\n"]
  else if fileName = "main.rc" then some ["IMPORT and.rc\n", "UNSETALL\n"]
  else if fileName = "and.rc" then some ["SET 3\n", "AND8 x x x 1 4\n"]
  else none

def sampleTab : CostTab := ⟨[("AND8", ⟨32.5, 512, 13.5, 4096, 0, 0⟩)], ⟨512, 40, 100, 64⟩,
    ⟨1024, 400, 1000, 64⟩⟩

deriving instance DecidableEq for OpCost, MemBusTab, CostTab

theorem sample_importTree : ImportTree (sampleFs ["Operation\n", and8Row]) "main.rc" := by
  have hand : ImportTree (sampleFs ["Operation\n", and8Row]) "and.rc" := .leaf rfl (by decide +kernel)
  have hvisible : visible false ["IMPORT and.rc\n", "UNSETALL\n"] = ["IMPORT and.rc", "UNSETALL"] := by
    decide +kernel
  have himport : pySplit "IMPORT and.rc" = ["IMPORT", "and.rc"] := by decide +kernel
  have hunset : hasSub "IMPORT" "UNSETALL" = false := by decide +kernel
  refine .node rfl ?_ ?_ <;> rw [hvisible, List.forall_mem_cons, List.forall_mem_singleton]
  · exact ⟨fun _ => ⟨"and.rc", himport⟩, fun h => absurd (hunset.symm.trans h) (by decide)⟩
  · refine ⟨fun g hg => ?_, fun g hg => absurd (hunset.symm.trans (hasSub_import hg)) (by decide)⟩
    cases himport.symm.trans hg
    exact hand

theorem sample_intact : NothingSwallowed (sampleFs ["Operation\n", and8Row]) "main.rc" := by
  have hvisible : visible false ["IMPORT and.rc\n", "UNSETALL\n"] = ["IMPORT and.rc", "UNSETALL"] := by
    decide +kernel
  have himport : pySplit "IMPORT and.rc" = ["IMPORT", "and.rc"] := by decide +kernel
  have hunset : hasSub "IMPORT" "UNSETALL" = false := by decide +kernel
  have hnone : swallowed .program ["SET 3\n", "AND8 x x x 1 4\n"] = [] ∧
      swallowed .program ["IMPORT and.rc\n", "UNSETALL\n"] = [] := by decide +kernel
  have hplain : ∀ line ∈ visibleFrom .program ["SET 3\n", "AND8 x x x 1 4\n"],
      hasSub "IMPORT" line = false := by
    decide +kernel
  refine (nothingSwallowed_iff rfl).mpr ⟨fun line hline => ?_, fun line hline g hg => ?_⟩
  · rw [hnone.2] at hline
    cases hline
  · rw [visibleFrom] at hline
    rcases List.mem_pair.mp (hvisible ▸ hline) with rfl | rfl
    · cases himport.symm.trans hg
      refine (nothingSwallowed_iff rfl).mpr ⟨fun line hline => ?_, fun line hline g hg => ?_⟩
      · rw [hnone.1] at hline
        cases hline
      · exact absurd ((hplain line hline).symm.trans (hasSub_import hg)) (by decide)
    · exact absurd (hunset.symm.trans (hasSub_import hg)) (by decide)

/-- What the two files expand to. -/
def sampleProg : List Instruction := [⟨"SET", ["3"]⟩, and8, unsetall]

theorem sample_wellFormed (N : Type) [Numbers N] :
    Numeric.WellFormed N (1 * 1 * 64) sampleTab sampleProg := by
  have hand8 : Numeric.ComputeOk N sampleTab and8 := by
    refine ⟨by decide, by decide, fun h => absurd h (by decide), fun _ => ⟨⟨_, rfl⟩, 4, ?_⟩,
      fun _ _ => ⟨1, ?_⟩⟩
    · decide
    · decide
  have hset : ConfigOk (1 * 1 * 64) [] ⟨"SET", ["3"]⟩ := by
    refine ⟨fun _ => ⟨3, by decide +kernel, by decide⟩, fun h => ?_, fun h => ?_, fun h => ?_⟩
    · exact absurd h (by decide)
    · exact absurd h (by decide)
    · exact absurd h (by decide)
  have hmask : configStep (1 * 1 * 64) [] ⟨"SET", ["3"]⟩ = .ok [3] := by decide +kernel
  refine ReadsOk.config (by decide) hset hmask (ReadsOk.compute (by decide) hand8 ?_)
  exact ReadsOk.config (by decide) (configOk_of_name (by decide)) rfl trivial

theorem sample_endsWell : EndsWell sampleProg :=
  ⟨[⟨"SET", ["3"]⟩], and8, unsetall, rfl, by decide, by decide⟩

/-- The program in doubles and exactly, with three threads. -/
theorem racerSim_costs_sample :
    (∃ depth es cost, epochs (1 * 1 * 64) [] sampleProg = .ok es ∧
      (Numeric.executed Numeric.PyNumber 1 1 sampleTab sampleProg 3 es).map Numeric.Chip.costs = .ok cost ∧
      Numeric.racerSim Numeric.PyNumber 1 1 (sampleFs ["Operation\n", and8Row]) depth "op.csv" "cmos.csv"
        ["racer-sim.py", "main.rc", "3"] = some (.ok cost)) ∧
    ∃ depth cost, Numeric.racerSim Numeric.Fraction 1 1
      (sampleFs ["Operation\n", and8Row]) depth "op.csv" "cmos.csv"
        ["racer-sim.py", "main.rc", "3"] = some (.ok cost) ∧
      Prod.map Numeric.Fraction.value Numeric.Fraction.value cost = (13.5, (32.5 * 4 + 13.5 * 0.79) * 3) := by
  have htab : costTable 1 1 (sampleFs ["Operation\n", and8Row]) "op.csv" "cmos.csv" = .ok sampleTab := by
    decide +kernel
  have hfile : item ["racer-sim.py", "main.rc", "3"] 1 = .ok "main.rc" := rfl
  have hthreads : multithreadOf ["racer-sim.py", "main.rc", "3"] = .ok 3 := by decide +kernel
  have hprogram : expansion (sampleFs ["Operation\n", and8Row]) 2 "main.rc" = some sampleProg := by
    decide +kernel
  obtain ⟨-, height, program, hexpansion, hcosts⟩ :=
    racerSim_costs (N := Numeric.PyNumber) htab sample_importTree sample_intact hfile hthreads
  obtain ⟨-, height', program', hexpansion', hcosts'⟩ :=
    racerSim_costs (N := Numeric.Fraction) htab sample_importTree sample_intact hfile hthreads
  obtain rfl := expansion_unique hexpansion hprogram
  obtain rfl := expansion_unique hexpansion' hprogram
  obtain ⟨es, cost, hes, hexecuted, hprints, -⟩ :=
    (hcosts (sample_wellFormed _) (by decide) height le_rfl).2 sample_endsWell
  obtain ⟨es', cost', hes', -, hprints', hexact⟩ :=
    (hcosts' (sample_wellFormed _) (by decide) height' le_rfl).2 sample_endsWell
  have hepochs : epochs (1 * 1 * 64) [] sampleProg = .ok [⟨[3], [and8]⟩] := by decide +kernel
  refine ⟨⟨height, es, cost, hes, hexecuted, hprints⟩, height', cost', hprints', ?_⟩
  cases hes'.symm.trans hepochs
  rw [hexact _ Numeric.exact_fraction]
  decide +kernel

example : csvRows .init ["a,|b,||,\n", "c|,\r\n", "\n", "d"] = [["a", "b,|,\nc", ""], [], ["d"]] := by
  decide +kernel

end RacerArtifacts.Sim
