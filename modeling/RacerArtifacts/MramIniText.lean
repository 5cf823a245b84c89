import RacerArtifacts.MramIni

/-! The parameters that are written out and read again. What `WriteParams` writes of them is a file that
`ReadIniFile` reads, and the program that loads the files of its parameters has these parameters. -/

namespace RacerArtifacts.Mram

open Fallible Numeral

variable {F : Type}

/-- A text that a line of a file can end with: it has no comment, no line of its own and no blank
at its end. -/
structure Plain (text : List Char) : Prop where
  comment : ∀ c ∈ text, c ≠ ';' ∧ c ≠ '\n'
  last : ∀ hne : text ≠ [], isBlank (text.getLast hne) = false

/-- The values that are read as they are written. Numbers and flags all are; of a `float` a stream writes
six digits. -/
def VarType.Kept (readFloat : List Char → Option F) (showFloat : F → List Char) :
    (t : VarType) → t.Val F → Prop
  | .string, v => Plain v
  | .float, v => Plain (showFloat v) ∧ readFloat (showFloat v) = some v
  | .uint, _ | .bool, _ => True

variable {readFloat : List Char → Option F} {showFloat : F → List Char}

theorem plain_toDigits (n : ℕ) : Plain (Nat.toDigits 10 n) := by
  have hdigit : ∀ c ∈ Nat.toDigits 10 n, digitValue c < 10 := fun c hc =>
    of_decide_eq_true (isDigit_toDigits (by decide) (by decide) n c hc)
  refine ⟨fun c hc => ⟨?_, ?_⟩, fun hne => ?_⟩
  · rintro rfl
    exact absurd (hdigit _ hc) (by decide)
  · rintro rfl
    exact absurd (hdigit _ hc) (by decide)
  · rw [isBlank, decide_eq_false_iff_not]
    rintro (hblank | hblank)
    · have hbad := hdigit _ (List.getLast_mem hne)
      rw [hblank] at hbad
      exact absurd hbad (by decide)
    · have hbad := hdigit _ (List.getLast_mem hne)
      rw [hblank] at hbad
      exact absurd hbad (by decide)

theorem VarType.Kept.reads {t : VarType} {v : t.Val F} (h : t.Kept readFloat showFloat v) :
    Plain (t.print showFloat v) ∧ t.parse readFloat (t.print showFloat v) = .ok v := by
  cases t with
  | string => exact ⟨h, rfl⟩
  | uint =>
      refine ⟨plain_toDigits _, ?_⟩
      rw [VarType.print, VarType.parse, extract_toDigits (by decide) (by decide) (BitVec.isLt (w := 32) v)]
      exact congrArg Except.ok ((BitVec.ofNat_toNat 32 v).trans (BitVec.setWidth_eq v))
  | float =>
      refine ⟨h.1, ?_⟩
      rw [VarType.print, VarType.parse, h.2]
  | bool =>
      have hflag : ∀ b : Bool, Plain (cond b "true".toList "false".toList) ∧
          decide (cond b "true".toList "false".toList = "true".toList ∨
            cond b "true".toList "false".toList = "1".toList) = b := by
        intro b
        cases b with
        | true => exact ⟨⟨by simp, by simp [isBlank]⟩, by simp⟩
        | false => exact ⟨⟨by simp, by simp [isBlank]⟩, by simp⟩
      exact ⟨(hflag v).1, congrArg Except.ok (hflag v).2⟩

/-- A key that a line can start with. -/
def IsKey (key : List Char) : Prop :=
  ∀ c ∈ key, c ≠ ';' ∧ c ≠ '=' ∧ c ≠ '\n'

theorem configMap_keys : ∀ param ∈ configMap, IsKey param.iniKey := by
  have hall : (configMap.all fun param => param.iniKey.all fun c => decide (c ≠ ';' ∧ c ≠ '=' ∧ c ≠ '\n')) =
      true := by
    decide +kernel
  intro param hparam c hc
  exact of_decide_eq_true (List.all_eq_true.mp (List.all_eq_true.mp hall param hparam) c hc)

theorem assignment_line {key text : List Char} (hkey : IsKey key) (htext : Plain text) :
    assignment (key ++ '=' :: text) = .ok (some (key, text)) := by
  have hcomment : (key ++ '=' :: text).takeWhile (fun c => decide (c ≠ ';')) = key ++ '=' :: text := by
    refine List.takeWhile_eq_self_iff.mpr fun c hc => decide_eq_true ?_
    rcases List.mem_append.mp hc with hc | hc
    · exact (hkey c hc).1
    rcases List.mem_cons.mp hc with rfl | hc
    · decide
    · exact (htext.comment c hc).1
  have hsome : (key ++ '=' :: text).all isBlank = false := by
    rw [List.all_eq_false]
    exact ⟨'=', by simp, by decide⟩
  have hend : (key ++ '=' :: text).rdropWhile isBlank = key ++ '=' :: text := by
    refine List.rdropWhile_eq_self_iff.mpr fun hne => ?_
    rw [List.getLast_append_of_ne_nil hne (List.cons_ne_nil _ _), Bool.not_eq_true]
    by_cases hnil : text = []
    · subst hnil
      decide
    · rw [List.getLast_cons hnil]
      exact htext.last hnil
  have hbefore : ∀ c ∈ key, decide (c ≠ '=') = true := fun c hc => decide_eq_true (hkey c hc).2.1
  rw [assignment, hcomment]
  dsimp only
  rw [if_neg (List.append_ne_nil_of_right_ne_nil _ (List.cons_ne_nil _ _)), hsome,
    if_neg Bool.false_ne_true, hend,
    List.dropWhile_append_of_pos hbefore, List.takeWhile_append_of_pos hbefore,
    List.dropWhile_cons_of_neg (by decide), List.takeWhile_cons_of_neg (by decide), List.append_nil]

theorem splitOn_lines {lines : List (List Char)} (h : ∀ line ∈ lines, '\n' ∉ line) (rest : List Char) :
    ((lines.flatMap fun line => line ++ ['\n']) ++ rest).splitOn '\n' = lines ++ rest.splitOn '\n' := by
  induction lines with
  | nil => rfl
  | cons line lines ih =>
      obtain ⟨hline, hlines⟩ := List.forall_mem_cons.mp h
      rw [List.flatMap_cons, List.append_assoc, List.append_assoc, List.singleton_append,
        List.splitOn_append_cons_self_of_not_mem hline, ih hlines, List.cons_append]

namespace IniReader

variable {zero : F} {r s : IniReader F} {param : ConfigMap} {numRanks : ℕ}

/-- Some parameters set to what another program has. -/
def setAll (r s : IniReader F) (params : List ConfigMap) : IniReader F :=
  params.foldl (fun s param => s.setValue param (r.values param)) s

theorem setAll_set (params : List ConfigMap) :
    (param ∈ params → (setAll r s params).values param = r.values param ∧
      (setAll r s params).wasSet param = true) ∧
    (param ∉ params → (setAll r s params).values param = s.values param ∧
      (setAll r s params).wasSet param = s.wasSet param) := by
  induction params using List.reverseRecOn with
  | nil => exact ⟨fun hmem => (List.not_mem_nil hmem).elim, fun _ => ⟨rfl, rfl⟩⟩
  | append_singleton params p ih =>
      have hstep : setAll r s (params ++ [p]) = (setAll r s params).setValue p (r.values p) :=
        List.foldl_concat _ _ _ _
      rw [hstep, setValue]
      dsimp only
      by_cases heq : param = p
      · subst heq
        rw [Function.update_self, Function.update_self]
        refine ⟨fun _ => ⟨rfl, rfl⟩, fun hnot => ?_⟩
        exact absurd (List.mem_append_right params (List.mem_singleton_self param)) hnot
      · rw [Function.update_of_ne heq, Function.update_of_ne heq, List.mem_append, List.mem_singleton]
        exact ⟨fun hmem => ih.1 (hmem.resolve_right heq), fun hnot => ih.2 fun hmem => hnot (.inl hmem)⟩

/-- All parameters of a program can be written and read. -/
def Writable (readFloat : List Char → Option F) (showFloat : F → List Char) (r : IniReader F) : Prop :=
  ∀ param ∈ configMap, param.variableType.Kept readFloat showFloat (r.values param)

theorem readIniLine_param (h : Writable readFloat showFloat r) (hparam : param ∈ configMap)
    (s : IniReader F) :
    s.readIniLine readFloat (r.paramLine showFloat param) = .ok (s.setValue param (r.values param)) := by
  obtain ⟨hplain, hparse⟩ := (h param hparam).reads
  rw [readIniLine, paramLine, assignment_line (configMap_keys param hparam) hplain, ok_bind]
  dsimp only
  rw [setKey]
  dsimp only
  rw [find_param hparam]
  dsimp only
  rw [hparse]
  rfl

theorem readIniLines_params (h : Writable readFloat showFloat r) {params : List ConfigMap}
    (hparams : ∀ param ∈ params, param ∈ configMap) (s : IniReader F) :
    (params.map (r.paramLine showFloat)).foldlM (readIniLine readFloat) s = .ok (setAll r s params) := by
  induction params generalizing s with
  | nil => rfl
  | cons param params ih =>
      obtain ⟨hparam, hrest⟩ := List.forall_mem_cons.mp hparams
      rw [List.map_cons, List.foldlM_cons, readIniLine_param h hparam, ok_bind]
      exact ih hrest _

/-- The parameters of a type. -/
def paramsOf (type : ParamType) : List ConfigMap :=
  configMap.filter fun param => decide (param.parameterType = type)

theorem mem_paramsOf {type : ParamType} : param ∈ paramsOf type ↔ param ∈ configMap ∧
    param.parameterType = type := by
  rw [paramsOf, List.mem_filter, decide_eq_true_eq]

theorem readIniLine_unknown {key text : List Char} (hkey : IsKey key) (htext : Plain text)
    (hunknown : (configMap.all fun p => !decide (key = p.iniKey)) = true) (s : IniReader F) :
    s.readIniLine readFloat (key ++ '=' :: text) = .ok s := by
  have hfind : (configMap.find? fun p => decide (key = p.iniKey)) = none := by
    rw [List.find?_eq_none]
    intro p hp
    simpa using List.all_eq_true.mp hunknown p hp
  rw [readIniLine, assignment_line hkey htext, ok_bind]
  dsimp only
  rw [setKey]
  dsimp only
  rw [hfind]

/-- **What is written of a type is read.** -/
theorem readIniFile_writeParams (h : Writable readFloat showFloat r) (numRanks : ℕ) (type : ParamType)
    (s : IniReader F) :
    s.readIniFile readFloat (r.writeParams showFloat numRanks type) =
      .ok { setAll r s (paramsOf type) with
        precomputed := precompute (setAll r s (paramsOf type)).values } := by
  have hnone : ∀ line ∈ (paramsOf type).map (r.paramLine showFloat), '\n' ∉ line := by
    intro line hline hmem
    obtain ⟨param, hparam, rfl⟩ := List.mem_map.mp hline
    have hparam := (mem_paramsOf.mp hparam).1
    rcases List.mem_append.mp hmem with hmem | hmem
    · exact (configMap_keys param hparam _ hmem).2.2 rfl
    rcases List.mem_cons.mp hmem with hbad | hmem
    · exact absurd hbad (by decide)
    · exact ((h param hparam).reads.1.comment _ hmem).2 rfl
  have hread : ((paramsOf type).map (r.paramLine showFloat)).foldlM (readIniLine readFloat) s =
      .ok (setAll r s (paramsOf type)) :=
    readIniLines_params h (fun param hparam => (mem_paramsOf.mp hparam).1) s
  have hwrite : r.writeParams showFloat numRanks type =
      (((paramsOf type).map (r.paramLine showFloat)).flatMap fun line => line ++ ['\n']) ++
        if type = .sysParam then "NUM_RANKS".toList ++ '=' :: Nat.toDigits 10 numRanks ++ ['\n'] else [] := by
    rw [writeParams, List.flatMap_map]
    rfl
  have hempty : ∀ s : IniReader F, s.readIniLine readFloat [] = .ok s := fun s => rfl
  rw [readIniFile, hwrite, splitOn_lines hnone, List.foldlM_append, hread, ok_bind]
  split_ifs
  · have hranks : '\n' ∉ "NUM_RANKS".toList ++ '=' :: Nat.toDigits 10 numRanks := by
      intro hmem
      rcases List.mem_append.mp hmem with hmem | hmem
      · revert hmem
        simp
      rcases List.mem_cons.mp hmem with hbad | hmem
      · exact absurd hbad (by decide)
      · exact ((plain_toDigits numRanks).comment _ hmem).2 rfl
    have hunknown : (configMap.all fun p => !decide ("NUM_RANKS".toList = p.iniKey)) = true := by
      decide +kernel
    have hline : (setAll r s (paramsOf type)).readIniLine readFloat
        ("NUM_RANKS".toList ++ '=' :: Nat.toDigits 10 numRanks) =
          .ok (setAll r s (paramsOf type)) :=
      readIniLine_unknown (by simp [IsKey]) (plain_toDigits numRanks) hunknown _
    rw [List.splitOn_append_cons_self_of_not_mem hranks, List.foldlM_cons, hline]
    rfl
  · rfl

theorem checkIfAllSet_of_set (h : ∀ param ∈ configMap, r.wasSet param = true) :
    r.checkIfAllSet zero = .ok r := by
  have hparams : ∀ params : List ConfigMap, (∀ param ∈ params, r.wasSet param = true) →
      params.foldlM (checkIfSet zero) r = .ok r := by
    intro params
    induction params with
    | nil => exact fun _ => rfl
    | cons param params ih =>
        intro hset
        obtain ⟨hparam, hrest⟩ := List.forall_mem_cons.mp hset
        rw [List.foldlM_cons, checkIfSet, if_pos hparam, ok_bind]
        exact ih hrest
  exact hparams configMap h

/-- **A program loads what it has written.** The parameters that are written to two files, the device's and
the system's, are loaded from them again, and everything is precomputed from them. -/
theorem load_writeParams (zero : F) (readFloat : List Char → Option F) (showFloat : F → List Char)
    (r : IniReader F) (h : Writable readFloat showFloat r)
    (hchans : r.values numChansParam ≠ (0 : BitVec 32)) (numRanks : ℕ) :
    ∃ r', load zero readFloat (r.writeParams showFloat numRanks .devParam)
      (r.writeParams showFloat numRanks .sysParam) none =
        .ok r' ∧ (∀ param ∈ configMap, r'.values param = r.values param) ∧
        r'.precomputed = precompute r.values := by
  have hdevice := readIniFile_writeParams h numRanks .devParam (init zero)
  set r₁ : IniReader F := { setAll r (init zero) (paramsOf .devParam) with
    precomputed := precompute (setAll r (init zero) (paramsOf .devParam)).values } with hr₁
  have hsystem := readIniFile_writeParams h numRanks .sysParam r₁
  set r₂ : IniReader F := { setAll r r₁ (paramsOf .sysParam) with
    precomputed := precompute (setAll r r₁ (paramsOf .sysParam)).values } with hr₂
  have hall : ∀ param ∈ configMap, r₂.values param = r.values param ∧ r₂.wasSet param = true := by
    intro param hparam
    have hset := @setAll_set F r r₁ param (paramsOf .sysParam)
    have hset' := @setAll_set F r (init zero) param (paramsOf .devParam)
    cases htype : param.parameterType with
    | sysParam => exact hset.1 (mem_paramsOf.mpr ⟨hparam, htype⟩)
    | devParam =>
        have hnot : param ∉ paramsOf .sysParam := by
          intro hmem
          rw [(mem_paramsOf.mp hmem).2] at htype
          cases htype
        obtain ⟨hvalue, hwas⟩ := hset.2 hnot
        obtain ⟨hvalue', hwas'⟩ := hset'.1 (mem_paramsOf.mpr ⟨hparam, htype⟩)
        exact ⟨hvalue.trans hvalue', hwas.trans hwas'⟩
  have hzero : (show BitVec 32 from r₂.values numChansParam) ≠ 0 := by
    rw [(hall numChansParam (sizeParams_table numChansParam (by simp [sizeParams]))).1]
    exact hchans
  refine ⟨r₂, ?_, fun param hparam => (hall param hparam).1, ?_⟩
  · have hnone : r₂.overrideKeys readFloat ((none : Option (List Char)).map parseParamOverrides) =
        .ok r₂ := rfl
    rw [load, hdevice, ok_bind, hsystem, ok_bind, hnone, ok_bind,
      checkIfAllSet_of_set fun param hparam => (hall param hparam).2, ok_bind]
    exact if_neg hzero
  · exact precompute_congr fun param hparam => (hall param (sizeParams_table param hparam)).1

/-- A program whose parameters depend on their types only, with whole numbers for the `float` parameters. -/
def sample : IniReader ℕ :=
  { init 0 with values := fun param => match param.variableType with
      | .string => "close_page".toList
      | .uint => (2 : BitVec 32)
      | .float => (3 : ℕ)
      | .bool => true }

theorem load_writeParams_sample : ∃ r', load 0 readWhole (sample.writeParams (Nat.toDigits 10) 1 .devParam)
    (sample.writeParams (Nat.toDigits 10) 1 .sysParam) none = .ok r' ∧
      ∀ param ∈ configMap, r'.values param = sample.values param := by
  have hwritable : Writable readWhole (Nat.toDigits 10) sample := by
    rintro ⟨iniKey, variableType, parameterType⟩ -
    cases variableType with
    | string => exact ⟨by simp [sample], by simp [sample, isBlank]⟩
    | uint => trivial
    | float =>
        have hthree : extract 10 32 (Nat.toDigits 10 3) = some (true, 3) :=
          extract_toDigits (by decide) (by decide) (by decide)
        exact ⟨plain_toDigits 3, congrArg (Option.map Prod.snd) hthree⟩
    | bool => trivial
  have htwo : (2 : BitVec 32) ≠ 0 := by decide
  obtain ⟨r', hload, hvalues, -⟩ := load_writeParams 0 readWhole (Nat.toDigits 10) sample hwritable htwo 1
  exact ⟨r', hload, hvalues⟩

end IniReader

end RacerArtifacts.Mram
