import RacerArtifacts.LibFallible
import RacerArtifacts.SimLoader

/-! What a program file stands for: its lines outside comments, the imports among them replaced by what the
imported files stand for. `loadInstruction` tests for a line comment before it looks for the end of a block
comment; an end on a line that starts with `//` is missed, and the lines after it are swallowed. -/

namespace RacerArtifacts.Sim

open Fallible

/-! ### The meaning of a file -/

/-- The lines outside comments, stripped. The flag says whether a block comment is open. -/
def visible : Bool → List String → List String
  | _, [] => []
  | true, text :: rest => visible (lastTwo (pyStrip text) ≠ "*/") rest
  | false, text :: rest =>
    let line := pyStrip text
    if line = "" ∨ firstTwo line = "//" then visible false rest
    else if firstTwo line = "/*" then visible (lastTwo line ≠ "*/") rest
    else line :: visible false rest

/-- The program of a line outside comments; `none` where IMPORT stands anywhere else than in `IMPORT g`. -/
def expandLine (expand : String → Option (List Instruction)) (line : String) : Option (List Instruction) :=
  match pySplit line with
  | ["IMPORT", g] => expand g
  | fields => if hasSub "IMPORT" line then none else some [Instruction.ofFields fields]

/-- The program of a file whose tree of imports has at most the given height. -/
def expansion (fs : FileSystem) : ℕ → String → Option (List Instruction)
  | 0, _ => none
  | height + 1, fileName => do
    let lines ← fs fileName
    let programs ← (visible false lines).mapM (expandLine (expansion fs height))
    return programs.flatten

/-! ### Missed ends -/

/-- Where a line stands: in the program, in a block comment, or behind the end of one that was missed. -/
inductive Region where
  | program
  | comment
  | missed
  deriving DecidableEq

/-- Where the line after a line stands. -/
def Region.next (line : String) : Region → Region
  | program => if firstTwo line = "/*" ∧ lastTwo line ≠ "*/" then comment else program
  | comment =>
    if lastTwo line ≠ "*/" then comment
    else if firstTwo line = "//" then missed
    else program
  | missed =>
    if line = "" ∨ firstTwo line = "//" then missed
    else if lastTwo line = "*/" then program
    else if firstTwo line = "/*" then comment
    else missed

/-- A line with an instruction, unless it is in a comment. -/
def IsCode (line : String) : Prop := line ≠ "" ∧ firstTwo line ≠ "//" ∧ firstTwo line ≠ "/*"

instance (line : String) : Decidable (IsCode line) := inferInstanceAs (Decidable (_ ∧ _))

/-- The lines outside comments behind a missed end. -/
def swallowed : Region → List String → List String
  | _, [] => []
  | region, text :: rest =>
    let line := pyStrip text
    let tail := swallowed (region.next line) rest
    if region = .missed ∧ IsCode line then line :: tail else tail

variable {fs : FileSystem}

/-- The files of a tree of imports. -/
inductive InTree (fs : FileSystem) : String → String → Prop where
  | root (fileName : String) : InTree fs fileName fileName
  | child {fileName g h : String} {lines : List String} {line : String} (hlines : fs fileName = some lines)
      (hline : line ∈ visible false lines) (himport : pySplit line = ["IMPORT", g]) (htree : InTree fs g h) :
      InTree fs fileName h

/-- A finite tree of imports without cycles, with IMPORT outside comments only in lines `IMPORT g`. -/
inductive ImportTree (fs : FileSystem) : String → Prop where
  | node {fileName : String} {lines : List String} (hlines : fs fileName = some lines)
      (himport : ∀ line ∈ visible false lines, hasSub "IMPORT" line = true → ∃ g,
        pySplit line = ["IMPORT", g])
      (hchild : ∀ line ∈ visible false lines, ∀ g, pySplit line = ["IMPORT", g] → ImportTree fs g) :
      ImportTree fs fileName

/-- A line that stands for nothing: an import of a file without instructions. -/
def EmptyImport (fs : FileSystem) (line : String) : Prop :=
  ∃ g height, pySplit line = ["IMPORT", g] ∧ expansion fs height g = some []

/-- No instruction is swallowed in any file of the tree. -/
def NothingSwallowed (fs : FileSystem) (fileName : String) : Prop :=
  ∀ g, InTree fs fileName g → ∀ lines, fs g = some lines → ∀ line ∈ swallowed .program lines,
    EmptyImport fs line

/-! ### Expansions -/

theorem expandLine_mono {expand expand' : String → Option (List Instruction)}
    (h : ∀ g p, expand g = some p → expand' g = some p) {line : String} {program : List Instruction}
    (hline : expandLine expand line = some program) : expandLine expand' line = some program := by
  unfold expandLine at hline ⊢
  split at hline
  · exact h _ _ hline
  · exact hline

theorem mapM_some_mono {α β : Type} {f f' : α → Option β} (h : ∀ a b, f a = some b → f' a = some b)
    {l : List α} {bs : List β} (hl : l.mapM f = some bs) : l.mapM f' = some bs := by
  induction l generalizing bs with
  | nil => exact hl
  | cons a l ih =>
      rw [List.mapM_cons] at hl ⊢
      obtain ⟨b, hb, hl⟩ := Option.bind_eq_some_iff.mp hl
      obtain ⟨bs', hbs, hl⟩ := Option.bind_eq_some_iff.mp hl
      rw [h a b hb, ih hbs]
      exact hl

theorem expansion_succ {height : ℕ} {fileName : String} {program : List Instruction}
    (h : expansion fs height fileName = some program) : expansion fs (height + 1) fileName =
      some program := by
  induction height generalizing fileName program with
  | zero => cases h
  | succ height ih =>
      rw [expansion] at h ⊢
      obtain ⟨lines, hlines, h⟩ := Option.bind_eq_some_iff.mp h
      obtain ⟨programs, hprograms, h⟩ := Option.bind_eq_some_iff.mp h
      rw [hlines, Option.bind_eq_bind, Option.bind_some,
        mapM_some_mono (fun line p hline => expandLine_mono (fun g p hg => ih hg) hline) hprograms]
      exact h

theorem expansion_mono {height height' : ℕ} (hle : height ≤ height') {fileName : String}
    {program : List Instruction} (h : expansion fs height fileName = some program) :
    expansion fs height' fileName = some program := by
  induction hle with
  | refl => exact h
  | step _ ih => exact expansion_succ ih

theorem expansion_unique {height height' : ℕ} {fileName : String} {program program' : List Instruction}
    (h : expansion fs height fileName = some program) (h' : expansion fs height' fileName = some program') :
    program = program' := by
  rcases le_total height height' with hle | hle
  · exact Option.some.inj ((expansion_mono hle h).symm.trans h')
  · exact Option.some.inj (h.symm.trans (expansion_mono hle h'))

/-! ### One line -/

/-- What the loader does with a line, in terms of where the line stands. -/
theorem loadLine_region (load : String → List Instruction → Except PyError (List Instruction))
    (region : Region) (memory : List Instruction) (text : String) :
    loadLine load (decide (region ≠ .program), memory) text =
      (if region = .program ∧ IsCode (pyStrip text) then loadCode load memory (pyStrip text)
        else .ok memory).map
        fun memory => (decide (region.next (pyStrip text) ≠ .program), memory) := by
  have hfirst : firstTwo "" = "" := by decide
  have hlast : lastTwo "" = "" := by decide
  simp only [loadLine, IsCode]
  generalize pyStrip text = line
  by_cases hempty : line = ""
  · subst hempty
    cases region <;> simp [Region.next, hfirst, hlast, Except.map]
  by_cases hslash : firstTwo line = "//"
  · cases region <;> by_cases hend : lastTwo line = "*/" <;>
      simp [Region.next, hempty, hslash, hend, Except.map]
  by_cases hstar : firstTwo line = "/*"
  · cases region <;> by_cases hend : lastTwo line = "*/" <;>
      simp [Region.next, hempty, hstar, hend, Except.map, bind, Except.bind, pure, Except.pure]
  · cases region <;> by_cases hend : lastTwo line = "*/" <;> cases loadCode load memory line <;>
      simp [Region.next, hempty, hslash, hstar, hend, Except.map, bind, Except.bind, pure, Except.pure]

/-- The lines outside comments of a file whose first line stands in a region. -/
def visibleFrom (region : Region) : List String → List String := visible (decide (region = .comment))

theorem visibleFrom_cons (region : Region) (text : String) (rest : List String) :
    visibleFrom region (text :: rest) =
      (if region ≠ .comment ∧ IsCode (pyStrip text) then [pyStrip text] else []) ++
        visibleFrom (region.next (pyStrip text)) rest := by
  have hfirst : firstTwo "" = "" := by decide
  have hlast : lastTwo "" = "" := by decide
  cases region with
  | comment =>
      by_cases hend : lastTwo (pyStrip text) = "*/"
      · by_cases hslash : firstTwo (pyStrip text) = "//" <;>
          simp [visibleFrom, visible, Region.next, hend, hslash]
      · simp [visibleFrom, visible, Region.next, hend]
  | program | missed =>
      by_cases hempty : pyStrip text = ""
      · simp [visibleFrom, visible, Region.next, IsCode, hempty, hfirst]
      by_cases hslash : firstTwo (pyStrip text) = "//"
      · simp [visibleFrom, visible, Region.next, IsCode, hempty, hslash]
      by_cases hstar : firstTwo (pyStrip text) = "/*" <;> by_cases hend : lastTwo (pyStrip text) = "*/" <;>
        simp [visibleFrom, visible, Region.next, IsCode, hempty, hslash, hstar, hend]

/-! ### What is loaded -/

theorem sublist_append_eq_iff {α : Type} {q p q' p' : List α} (h : q.Sublist p) (h' : q'.Sublist p') :
    q ++ q' = p ++ p' ↔ q = p ∧ q' = p' := by
  constructor
  · intro heq
    have hlength := congrArg List.length heq
    rw [List.length_append, List.length_append] at hlength
    have hle := h.length_le
    have hle' := h'.length_le
    exact ⟨h.eq_of_length (by omega), h'.eq_of_length (by omega)⟩
  · rintro ⟨rfl, rfl⟩
    rfl

theorem hasSub_import {line : String} {fields : List String} (h : pySplit line = "IMPORT" :: fields) :
    hasSub "IMPORT" line = true := by
  obtain ⟨word, words, hwords, hword, -⟩ := List.map_eq_cons_iff.mp h
  have hline : [' '].intercalate (line.toList.splitOn ' ') = line.toList := List.intercalate_splitOn ' '
  rw [hwords, ← String.toList_ofList (l := word), hword] at hline
  have hprefix : "IMPORT".toList <+: line.toList := by
    rw [← hline]
    cases words with
    | nil => exact ⟨[], by simp [List.intercalate]⟩
    | cons w ws => exact ⟨' ' :: [' '].intercalate (w :: ws), by simp [List.intercalate]⟩
  exact decide_eq_true hprefix.isInfix

/-- Nothing is swallowed of the lines of a file from a region on, nor in the files they import. -/
def Intact (fs : FileSystem) (region : Region) (lines : List String) : Prop :=
  (∀ line ∈ swallowed region lines, EmptyImport fs line) ∧
    ∀ line ∈ visibleFrom region lines, ∀ g, pySplit line = ["IMPORT", g] → NothingSwallowed fs g

theorem nothingSwallowed_iff {fileName : String} {lines : List String} (hlines : fs fileName = some lines) :
    NothingSwallowed fs fileName ↔ Intact fs .program lines := by
  constructor
  · intro h
    refine ⟨h fileName (.root fileName) lines hlines, ?_⟩
    intro line hline g himport g' hg'
    exact h g' (.child hlines hline himport hg')
  · rintro ⟨hswallowed, himports⟩ g hg
    cases hg with
    | root =>
        intro lines' hlines'
        cases hlines.symm.trans hlines'
        exact hswallowed
    | child hlines' hline himport htree =>
        cases hlines.symm.trans hlines'
        exact himports _ hline _ himport _ htree

theorem intact_cons {region : Region} {text : String} {rest : List String} :
    Intact fs region (text :: rest) ↔
      (IsCode (pyStrip text) →
        (region = .missed → EmptyImport fs (pyStrip text)) ∧
          (region ≠ .comment → ∀ g, pySplit (pyStrip text) = ["IMPORT", g] → NothingSwallowed fs g)) ∧
      Intact fs (region.next (pyStrip text)) rest := by
  rw [Intact, Intact, visibleFrom_cons, swallowed]
  by_cases hcode : IsCode (pyStrip text)
  · cases region <;> simp [hcode] <;> tauto
  · simp [hcode]

/-- A line outside comments as the loader takes it, against the program it stands for. -/
theorem loadCode_expandLine {load : String → List Instruction → Except PyError (List Instruction)}
    {expand : String → Option (List Instruction)} (hload : Appends load)
    (hfile : ∀ g p, expand g = some p →
      ∃ q, load g [] = .ok q ∧ q.Sublist p ∧ (q = p ↔ NothingSwallowed fs g)) {line : String}
    {program : List Instruction} (hline : expandLine expand line = some program) (memory : List Instruction) :
    ∃ q, loadCode load memory line = .ok (memory ++ q) ∧ q.Sublist program ∧
      (q = program ↔ ∀ g, pySplit line = ["IMPORT", g] → NothingSwallowed fs g) := by
  unfold expandLine at hline
  split at hline
  · rename_i g hsplit
    obtain ⟨q, hq, hsub, heq⟩ := hfile g program hline
    refine ⟨q, ?_, hsub, heq.trans ⟨?_, fun h => h g hsplit⟩⟩
    · rw [loadCode, if_pos (hasSub_import hsplit), hsplit]
      change load g memory = _
      rw [hload, hq]
      rfl
    · intro hg g' hsplit'
      cases hsplit.symm.trans hsplit'
      exact hg
  · rename_i fields hfields
    by_cases hsub : hasSub "IMPORT" line = true
    · rw [if_pos hsub] at hline
      cases hline
    · rw [if_neg hsub] at hline
      cases hline
      refine ⟨_, ?_, .refl _, fun _ g hsplit => ?_, fun _ => rfl⟩
      · rw [loadCode, if_neg hsub]
      · exact absurd hsplit (hfields g)

theorem expandLine_eq_nil {height : ℕ} {line : String} {program : List Instruction}
    (hline : expandLine (expansion fs height) line = some program) : program = [] ↔ EmptyImport fs line := by
  constructor
  · rintro rfl
    unfold expandLine at hline
    split at hline
    · rename_i g hsplit
      exact ⟨g, height, hsplit, hline⟩
    · by_cases hsub : hasSub "IMPORT" line = true
      · rw [if_pos hsub] at hline
        cases hline
      · rw [if_neg hsub] at hline
        cases hline
  · rintro ⟨g, height', hsplit, hempty⟩
    have hexpand : expandLine (expansion fs height) line = expansion fs height g := by
      rw [expandLine, hsplit]
      rfl
    exact expansion_unique (hexpand.symm.trans hline) hempty

section Lines

variable {load : String → List Instruction → Except PyError (List Instruction)} {height : ℕ}
  (hload : Appends load)
  (hfile : ∀ g p, expansion fs height g = some p →
    ∃ q, load g [] = .ok q ∧ q.Sublist p ∧ (q = p ↔ NothingSwallowed fs g))

include hload hfile

theorem loadLine_loads {region : Region} {text : String} {programs : List (List Instruction)}
    (hprograms : (if region ≠ .comment ∧ IsCode (pyStrip text) then [pyStrip text] else []).mapM
      (expandLine (expansion fs height)) = some programs) (memory : List Instruction) :
    ∃ q, loadLine load (decide (region ≠ .program), memory) text =
        .ok (decide (region.next (pyStrip text) ≠ .program), memory ++ q) ∧
      q.Sublist programs.flatten ∧
      (q = programs.flatten ↔ (IsCode (pyStrip text) →
        (region = .missed → EmptyImport fs (pyStrip text)) ∧
          (region ≠ .comment → ∀ g, pySplit (pyStrip text) = ["IMPORT", g] → NothingSwallowed fs g))) := by
  rw [loadLine_region]
  by_cases hcode : region ≠ .comment ∧ IsCode (pyStrip text)
  · rw [if_pos hcode] at hprograms
    rw [List.mapM_cons] at hprograms
    obtain ⟨program, hline, hprograms⟩ := Option.bind_eq_some_iff.mp hprograms
    obtain rfl : [program] = programs := Option.some.inj hprograms
    rw [List.flatten_singleton]
    obtain ⟨q, hq, hsub, heq⟩ := loadCode_expandLine hload hfile hline memory
    cases region with
    | comment => exact absurd rfl hcode.1
    | program =>
        refine ⟨q, ?_, hsub, heq.trans ?_⟩
        · rw [if_pos ⟨rfl, hcode.2⟩, hq]
          rfl
        · simp [hcode.2]
    | missed =>
        refine ⟨[], ?_, List.nil_sublist _, ?_⟩
        · rw [if_neg (by simp), List.append_nil]
          rfl
        · rw [eq_comm]
          refine ⟨fun hnil _ => ⟨fun _ => (expandLine_eq_nil hline).mp hnil, fun _ => heq.mp ?_⟩, fun h => ?_⟩
          · rw [hnil] at hsub ⊢
            exact List.sublist_nil.mp hsub
          · exact (expandLine_eq_nil hline).mpr ((h hcode.2).1 rfl)
  · rw [if_neg hcode] at hprograms
    cases hprograms
    refine ⟨[], ?_, .refl _, ?_⟩
    · have hskip : ¬(region = .program ∧ IsCode (pyStrip text)) := by
        rintro ⟨rfl, hline⟩
        exact hcode ⟨by decide, hline⟩
      rw [if_neg hskip, List.append_nil]
      rfl
    · refine ⟨fun _ hline => ⟨?_, ?_⟩, fun _ => rfl⟩
      · rintro rfl
        exact absurd ⟨by decide, hline⟩ hcode
      · intro hregion
        exact absurd ⟨hregion, hline⟩ hcode

theorem foldlM_loadLine_loads {region : Region} {lines : List String} {programs : List (List Instruction)}
    (hprograms : (visibleFrom region lines).mapM (expandLine (expansion fs height)) = some programs)
    (memory : List Instruction) :
    ∃ q flag, lines.foldlM (loadLine load) (decide (region ≠ .program), memory) = .ok (flag, memory ++ q) ∧
      q.Sublist programs.flatten ∧ (q = programs.flatten ↔ Intact fs region lines) := by
  induction lines generalizing region programs memory with
  | nil =>
      have hnil : visibleFrom region [] = [] := by cases region <;> rfl
      rw [hnil] at hprograms
      cases hprograms
      refine ⟨[], decide (region ≠ .program), ?_, .refl _, fun _ => ⟨?_, ?_⟩, fun _ => rfl⟩
      · rw [List.append_nil]
        rfl
      · cases region <;> exact List.forall_mem_nil _
      · rw [hnil]
        exact List.forall_mem_nil _
  | cons text rest ih =>
      rw [visibleFrom_cons, List.mapM_append] at hprograms
      obtain ⟨headPrograms, hhead, hprograms⟩ := Option.bind_eq_some_iff.mp hprograms
      obtain ⟨restPrograms, hrest, hprograms⟩ := Option.bind_eq_some_iff.mp hprograms
      cases hprograms
      obtain ⟨q, hq, hsub, heq⟩ := loadLine_loads hload hfile hhead memory
      obtain ⟨q', flag, hq', hsub', heq'⟩ := ih hrest (memory ++ q)
      refine ⟨q ++ q', flag, ?_, ?_, ?_⟩
      · rw [List.foldlM_cons, hq, ← List.append_assoc]
        exact hq'
      · rw [List.flatten_append]
        exact hsub.append hsub'
      · rw [List.flatten_append, sublist_append_eq_iff hsub hsub', heq, heq', intact_cons]

end Lines

/-- What is loaded of a file is a part of its program, and all of it just when nothing is swallowed. -/
theorem loadFile_expansion {height : ℕ} {fileName : String} {program : List Instruction}
    (h : expansion fs height fileName = some program) {depth : ℕ} (hdepth : height ≤ depth) :
    ∃ loaded, loadFile fs depth fileName [] = .ok loaded ∧ loaded.Sublist program ∧
      (loaded = program ↔ NothingSwallowed fs fileName) := by
  induction height generalizing fileName program depth with
  | zero => cases h
  | succ height ih =>
      obtain ⟨depth, rfl⟩ : ∃ d, depth = d + 1 := ⟨depth - 1, by omega⟩
      rw [expansion] at h
      obtain ⟨lines, hlines, h⟩ := Option.bind_eq_some_iff.mp h
      obtain ⟨programs, hprograms, h⟩ := Option.bind_eq_some_iff.mp h
      cases h
      have hfrom : (visibleFrom .program lines).mapM (expandLine (expansion fs height)) =
          some programs := hprograms
      obtain ⟨loaded, flag, hloaded, hsub, heq⟩ := foldlM_loadLine_loads (loadFile_appends fs depth)
        (fun g p hg => ih hg (Nat.le_of_succ_le_succ hdepth)) hfrom []
      refine ⟨loaded, ?_, hsub, heq.trans (nothingSwallowed_iff hlines).symm⟩
      simp only [loadFile, hlines]
      exact congrArg (Except.map Prod.snd) hloaded

theorem expandLine_expansion_mono {height height' : ℕ} (hle : height ≤ height') {line : String}
    {program : List Instruction} (h : expandLine (expansion fs height) line = some program) :
    expandLine (expansion fs height') line = some program :=
  expandLine_mono (fun _ _ hg => expansion_mono hle hg) h

theorem exists_mapM_expandLine {lines : List String}
    (h : ∀ line ∈ lines, ∃ height program, expandLine (expansion fs height) line = some program) :
    ∃ height programs, lines.mapM (expandLine (expansion fs height)) = some programs := by
  induction lines with
  | nil => exact ⟨0, [], rfl⟩
  | cons line rest ih =>
      obtain ⟨⟨height, program, hline⟩, hrest⟩ := List.forall_mem_cons.mp h
      obtain ⟨height', programs, hprograms⟩ := ih hrest
      refine ⟨max height height', program :: programs, ?_⟩
      rw [List.mapM_cons, expandLine_expansion_mono (le_max_left _ _) hline,
        mapM_some_mono (fun _ _ => expandLine_expansion_mono (le_max_right _ _)) hprograms]
      rfl

theorem ImportTree.leaf {fileName : String} {lines : List String} (hlines : fs fileName = some lines)
    (h : ∀ line ∈ visible false lines, hasSub "IMPORT" line = false) : ImportTree fs fileName := by
  refine .node hlines (fun line hmem hsub => ?_) (fun line hmem g hsplit => ?_)
  · rw [h line hmem] at hsub
    cases hsub
  · have hsub := hasSub_import hsplit
    rw [h line hmem] at hsub
    cases hsub

theorem ImportTree.exists_expansion {fileName : String} (h : ImportTree fs fileName) :
    ∃ height program, expansion fs height fileName = some program := by
  induction h with
  | @node fileName lines hlines himport _ ih =>
      have hline : ∀ line ∈ visible false lines, ∃ height program,
          expandLine (expansion fs height) line = some program := by
        intro line hmem
        by_cases hsub : hasSub "IMPORT" line = true
        · obtain ⟨g, hsplit⟩ := himport line hmem hsub
          obtain ⟨height, program, hprogram⟩ := ih line hmem g hsplit
          refine ⟨height, program, ?_⟩
          rw [expandLine, hsplit]
          exact hprogram
        · refine ⟨0, [Instruction.ofFields (pySplit line)], ?_⟩
          unfold expandLine
          split
          · rename_i g hsplit
            exact absurd (hasSub_import hsplit) hsub
          · rw [if_neg hsub]
      obtain ⟨height, programs, hprograms⟩ := exists_mapM_expandLine hline
      refine ⟨height + 1, programs.flatten, ?_⟩
      rw [expansion, hlines, Option.bind_eq_bind, Option.bind_some, hprograms]
      rfl

/-- **A file is loaded as its expansion just when nothing of its tree is swallowed.** -/
theorem Chip.loadInstruction_expansion_iff
    {dimx dimy : ℕ} {fileName : String} (htree : ImportTree fs fileName) :
    ∃ height program, expansion fs height fileName = some program ∧
      ∀ depth ≥ height, ∀ c : Chip dimx dimy,
        (c.loadInstruction fs depth fileName = .ok (c.append program) ↔ NothingSwallowed fs fileName) ∧
          ∃ loaded, c.loadInstruction fs depth fileName = .ok (c.append loaded) ∧ loaded.Sublist program := by
  obtain ⟨height, program, hexpansion⟩ := htree.exists_expansion
  refine ⟨height, program, hexpansion, fun depth hdepth c => ?_⟩
  obtain ⟨loaded, hloaded, hsub, heq⟩ := loadFile_expansion hexpansion hdepth
  have hrun : c.loadInstruction fs depth fileName = .ok (c.append loaded) := by
    rw [Chip.loadInstruction_eq, hloaded]
    rfl
  refine ⟨?_, loaded, hrun, hsub⟩
  rw [hrun, ← heq]
  constructor
  · intro h
    have hmemory := congrArg Chip.instructionMemory (Except.ok.inj h)
    exact List.append_cancel_left hmemory
  · rintro rfl
    rfl

/-- Two files; the imported one ends inside a block comment. -/
def nestedFs : FileSystem := fun fileName =>
  if fileName = "main.rc" then some ["/* setup\n", "ADD16 a */\n", "IMPORT relu.rc\n",
    "// tail\n", "ADD16 x\n"]
  else if fileName = "relu.rc" then some ["RELU16 y\n", "/* rest\n"]
  else none

theorem importTree_nested : ImportTree nestedFs "main.rc" := by
  have hrelu : ImportTree nestedFs "relu.rc" := .leaf rfl (by decide +kernel)
  have hvisible : visible false ["/* setup\n", "ADD16 a */\n", "IMPORT relu.rc\n", "// tail\n", "ADD16 x\n"] =
      ["IMPORT relu.rc", "ADD16 x"] := by decide +kernel
  have himport : pySplit "IMPORT relu.rc" = ["IMPORT", "relu.rc"] := by decide +kernel
  have hadd : hasSub "IMPORT" "ADD16 x" = false := by decide +kernel
  refine .node rfl ?_ ?_ <;> rw [hvisible, List.forall_mem_cons, List.forall_mem_singleton]
  · refine ⟨fun _ => ⟨"relu.rc", himport⟩, fun h => ?_⟩
    rw [hadd] at h
    cases h
  · refine ⟨fun g hg => ?_, fun g hg => ?_⟩
    · cases himport.symm.trans hg
      exact hrelu
    · have h := hasSub_import hg
      rw [hadd] at h
      cases h

theorem Chip.loadInstruction_expansion_iff_nested :
    ∃ height program, expansion nestedFs height "main.rc" = some program ∧
      ∀ depth ≥ height, ∀ c : Chip 1 1,
        (c.loadInstruction nestedFs depth "main.rc" = .ok (c.append program) ↔
          NothingSwallowed nestedFs "main.rc") ∧
          ∃ loaded, c.loadInstruction nestedFs depth "main.rc" = .ok (c.append loaded) ∧
          loaded.Sublist program :=
  Chip.loadInstruction_expansion_iff importTree_nested

/-- A file with a comment whose end stands behind `//`. -/
def missedFs : FileSystem := fun fileName =>
  if fileName = "main.rc" then some ["/*\n", "// ADD16 x */\n", "ADD16 y\n"] else none

/-- The instruction behind the comment is not loaded. -/
theorem Chip.loadInstruction_misses_end :
    ImportTree missedFs "main.rc" ∧ expansion missedFs 1 "main.rc" = some [⟨"ADD16", ["y"]⟩] ∧
      ∀ c : Chip 1 1, c.loadInstruction missedFs 1000 "main.rc" = .ok (c.append []) := by
  have hload : loadFile missedFs 1000 "main.rc" [] = .ok [] := by decide +kernel
  refine ⟨.leaf rfl (by decide +kernel), by decide +kernel, fun c => ?_⟩
  rw [Chip.loadInstruction_eq, hload]
  rfl

end RacerArtifacts.Sim
