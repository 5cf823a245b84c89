import Mathlib
import RacerArtifacts.SimPrograms

/-! `loadInstruction`: program files with comments and nested imports. Loading reads nothing of a chip but
its instruction memory, and only appends to it; a file stands for the instructions it appends. -/

namespace RacerArtifacts.Sim

/-- The lines of the files that can be opened. -/
abbrev FileSystem := String → Option (List String)

/-- The instruction of a split line, which has at least one field. -/
def Instruction.ofFields : List String → Instruction
  | [] => ⟨"", []⟩
  | op :: operands => ⟨op, operands⟩

/-- `line[0:2]`. -/
def firstTwo (line : String) : String := String.ofList (line.toList.take 2)

/-- `line[-2:]`. -/
def lastTwo (line : String) : String := String.ofList (line.toList.drop (line.toList.length - 2))

/-- A line outside comments: an import, which is the recursive call, or an instruction. -/
def loadCode (load : String → List Instruction → Except PyError (List Instruction))
    (memory : List Instruction) (line : String) : Except PyError (List Instruction) :=
  if hasSub "IMPORT" line then
    match (pySplit line)[1]? with
    | some subFileName => load subFileName memory
    | none => .error .indexError
  else .ok (memory ++ [Instruction.ofFields (pySplit line)])

/-- One line of a file; `st` is `blockComment` with the instruction memory. -/
def loadLine (load : String → List Instruction → Except PyError (List Instruction))
    (st : Bool × List Instruction) (text : String) : Except PyError (Bool × List Instruction) :=
  let line := pyStrip text
  if line ≠ "" ∧ firstTwo line ≠ "//" then do
    let blockComment := if firstTwo line = "/*" then true else st.1
    let memory ← if blockComment then .ok st.2 else loadCode load st.2 line
    return (if lastTwo line = "*/" then false else blockComment, memory)
  else .ok st

/-- What a file makes of the instruction memory, with `depth` nested calls allowed. -/
def loadFile (fs : FileSystem) : ℕ → String → List Instruction → Except PyError (List Instruction)
  | 0, _, _ => .error .recursionError
  | depth + 1, fileName, memory =>
    match fs fileName with
    | none => .error .fileNotFound
    | some lines => (lines.foldlM (loadLine (loadFile fs depth)) (false, memory)).map (·.2)

def Chip.loadInstruction {dimx dimy : ℕ} (fs : FileSystem) (depth : ℕ) (c : Chip dimx dimy)
    (fileName : String) :
    Except PyError (Chip dimx dimy) := do
  let memory ← loadFile fs depth fileName c.instructionMemory
  return { c with instructionMemory := memory, instSize := memory.length }

/-- A loader that only appends, the same to every memory. -/
def Appends (load : String → List Instruction → Except PyError (List Instruction)) : Prop :=
  ∀ fileName memory, load fileName memory = (load fileName []).map (memory ++ ·)

theorem loadCode_append {load : String → List Instruction → Except PyError (List Instruction)}
    (hload : Appends load) (memory more : List Instruction) (line : String) :
    loadCode load (memory ++ more) line = (loadCode load more line).map (memory ++ ·) := by
  unfold loadCode
  split
  · cases (pySplit line)[1]? with
    | none => rfl
    | some subFileName =>
        simp only
        rw [hload subFileName (memory ++ more), hload subFileName more]
        cases load subFileName [] with
        | error e => rfl
        | ok program => simp only [Except.map, List.append_assoc]
  · simp only [Except.map, List.append_assoc]

theorem loadLine_append {load : String → List Instruction → Except PyError (List Instruction)}
    (hload : Appends load) (memory more : List Instruction) (blockComment : Bool) (text : String) :
    loadLine load (blockComment, memory ++ more) text =
      (loadLine load (blockComment, more) text).map fun st => (st.1, memory ++ st.2) := by
  unfold loadLine
  simp only
  generalize pyStrip text = line
  by_cases hline : line ≠ "" ∧ firstTwo line ≠ "//"
  · rw [if_pos hline, if_pos hline]
    generalize (if firstTwo line = "/*" then true else blockComment) = inComment
    cases inComment with
    | true => simp only [if_true, bind, Except.bind, pure, Except.pure, Except.map]
    | false =>
        simp only [Bool.false_eq_true, if_false, loadCode_append hload]
        cases loadCode load more line with
        | error e => rfl
        | ok program => simp only [bind, Except.bind, pure, Except.pure, Except.map]
  · rw [if_neg hline, if_neg hline]
    rfl

theorem foldlM_loadLine_append {load : String → List Instruction → Except PyError (List Instruction)}
    (hload : Appends load) (memory : List Instruction) (lines : List String) (st : Bool × List Instruction) :
    lines.foldlM (loadLine load) (st.1, memory ++ st.2) =
      (lines.foldlM (loadLine load) st).map fun st => (st.1, memory ++ st.2) := by
  induction lines generalizing st with
  | nil => rfl
  | cons text lines ih =>
      rw [List.foldlM_cons, List.foldlM_cons, loadLine_append hload]
      cases loadLine load st text with
      | error e => rfl
      | ok st' => exact ih st'

theorem loadFile_appends (fs : FileSystem) (depth : ℕ) : Appends (loadFile fs depth) := by
  induction depth with
  | zero => intro fileName memory; rfl
  | succ depth ih =>
      intro fileName memory
      unfold loadFile
      cases fs fileName with
      | none => rfl
      | some lines =>
          have h := foldlM_loadLine_append ih memory lines (false, [])
          rw [List.append_nil] at h
          simp only [h]
          cases lines.foldlM (loadLine (loadFile fs depth)) (false, []) with
          | error e => rfl
          | ok st => rfl

/-- **Loading a file appends its program**, whatever the chip. -/
theorem Chip.loadInstruction_eq {dimx dimy : ℕ} (fs : FileSystem) (depth : ℕ) (c : Chip dimx dimy)
    (fileName : String) :
    c.loadInstruction fs depth fileName = (loadFile fs depth fileName []).map c.append := by
  unfold loadInstruction
  rw [loadFile_appends]
  cases loadFile fs depth fileName [] with
  | error e => rfl
  | ok program => rfl

/-! ### Imports -/

/-- A line outside comments that imports a file. -/
def Imports (text fileName : String) : Prop :=
  firstTwo (pyStrip text) ≠ "//" ∧ firstTwo (pyStrip text) ≠ "/*" ∧ hasSub "IMPORT" (pyStrip text) = true ∧
    (pySplit (pyStrip text))[1]? = some fileName

instance (text fileName : String) : Decidable (Imports text fileName) := inferInstanceAs (Decidable (_ ∧ _))

theorem loadLine_imports {load : String → List Instruction → Except PyError (List Instruction)}
    (hload : Appends load) {text fileName : String} (h : Imports text fileName) {program : List Instruction}
    (hprogram : load fileName [] = .ok program) (memory : List Instruction) :
    loadLine load (false, memory) text = .ok (false, memory ++ program) := by
  obtain ⟨hslash, hstar, himport, hfile⟩ := h
  have hne : pyStrip text ≠ "" := fun hempty => by
    rw [hempty] at himport
    revert himport
    decide
  have hsub : load fileName memory = .ok (memory ++ program) := by
    rw [hload, hprogram]
    rfl
  simp only [loadLine, if_pos (And.intro hne hslash), if_neg hstar, Bool.false_eq_true, if_false, loadCode,
    if_pos himport, hfile, hsub, ite_self, bind, Except.bind, pure, Except.pure]

/-- A file of imports stands for the imported programs, one after the other. -/
theorem loadFile_imports {fs : FileSystem} {depth : ℕ} {fileName : String} {lines : List String}
    (hlines : fs fileName = some lines) {programs : List (List Instruction)}
    (h : List.Forall₂ (fun text program => ∃ f, Imports text f ∧ loadFile fs depth f [] = .ok program)
      lines programs) :
    loadFile fs (depth + 1) fileName [] = .ok programs.flatten := by
  have hfold (memory : List Instruction) :
      lines.foldlM (loadLine (loadFile fs depth)) (false, memory) =
        .ok (false, memory ++ programs.flatten) := by
    clear hlines
    induction h generalizing memory with
    | nil => simp only [List.foldlM_nil, List.flatten_nil, List.append_nil]; rfl
    | @cons text program lines programs hline _ ih =>
        obtain ⟨f, himports, hprogram⟩ := hline
        rw [List.foldlM_cons, loadLine_imports (loadFile_appends fs depth) himports hprogram]
        refine (ih (memory ++ program)).trans ?_
        rw [List.flatten_cons, List.append_assoc]
  simp only [loadFile, hlines, hfold]
  rfl

example : Imports "IMPORT pagerank.rc\n" "pagerank.rc" := by decide +kernel

end RacerArtifacts.Sim
