import RacerArtifacts.LibAssignments
import RacerArtifacts.LibFallible
import RacerArtifacts.LibNumeral
import RacerArtifacts.MramAddressMapping

/-! The ini files of the memory simulator and the parameters they set. A parameter is a variable of the type
that the table of keys gives it. The `float` variables are of a type of their own, with what a stream makes
of a text. -/

namespace RacerArtifacts.Mram

open Assignments Fallible Numeral

inductive VarType where
  | string
  | uint
  | float
  | bool
  deriving DecidableEq, Repr

inductive ParamType where
  | sysParam
  | devParam
  deriving DecidableEq, Repr

/-- An entry of the table; the variable it points to is in `IniReader`. -/
structure ConfigMap where
  iniKey : List Char
  variableType : VarType
  parameterType : ParamType
  deriving DecidableEq, Repr

/-- The values of the variables of a type. -/
def VarType.Val (F : Type) : VarType → Type
  | .string => List Char
  | .uint => BitVec 32
  | .float => F
  | .bool => Bool

def defineUintParam (name : String) (paramtype : ParamType) : ConfigMap := ⟨name.toList, .uint, paramtype⟩
def defineStringParam (name : String) (paramtype : ParamType) : ConfigMap := ⟨name.toList, .string, paramtype⟩
def defineFloatParam (name : String) (paramtype : ParamType) : ConfigMap := ⟨name.toList, .float, paramtype⟩
def defineBoolParam (name : String) (paramtype : ParamType) : ConfigMap := ⟨name.toList, .bool, paramtype⟩

def numBanksParam : ConfigMap := defineUintParam "NUM_BANKS" .devParam
def numRowsParam : ConfigMap := defineUintParam "NUM_ROWS" .devParam
def numColsParam : ConfigMap := defineUintParam "NUM_COLS" .devParam
def blParam : ConfigMap := defineUintParam "BL" .devParam
def numChansParam : ConfigMap := defineUintParam "NUM_CHANS" .sysParam
def jedecDataBusBitsParam : ConfigMap := defineUintParam "JEDEC_DATA_BUS_BITS" .sysParam
def rowBufferPolicyParam : ConfigMap := defineStringParam "ROW_BUFFER_POLICY" .sysParam
def schedulingPolicyParam : ConfigMap := defineStringParam "SCHEDULING_POLICY" .sysParam
def addressMappingSchemeParam : ConfigMap := defineStringParam "ADDRESS_MAPPING_SCHEME" .sysParam
def queuingStructureParam : ConfigMap := defineStringParam "QUEUING_STRUCTURE" .sysParam

/-- The table, without its tracer value. -/
def configMap : List ConfigMap :=
  [numBanksParam, numRowsParam, numColsParam] ++
  (["DEVICE_WIDTH", "REFRESH_PERIOD"].map fun name => defineUintParam name .devParam) ++
  [defineFloatParam "tCK" .devParam] ++
  (["CL", "AL"].map fun name => defineUintParam name .devParam) ++
  [blParam] ++
  (["tRAS", "tRCD", "tRRD", "tRC", "tRP", "tCCD", "tRTP", "tWTR", "tWR", "tRTRS", "tRFC", "tFAW", "tCKE",
    "tXP", "tCMD",
    "IDD0", "IDD1", "IDD2P", "IDD2Q", "IDD2N", "IDD3Pf", "IDD3Ps", "IDD3N", "IDD4W", "IDD4R", "IDD5",
      "IDD6", "IDD6L",
    "IDD7"].map fun name => defineUintParam name .devParam) ++
  [defineFloatParam "Vdd" .devParam, numChansParam, jedecDataBusBitsParam] ++
  (["TRANS_QUEUE_DEPTH", "CMD_QUEUE_DEPTH", "EPOCH_LENGTH"].map fun name => defineUintParam name .sysParam) ++
  [defineBoolParam "USE_LOW_POWER" .sysParam, defineUintParam "TOTAL_ROW_ACCESSES" .sysParam,
    rowBufferPolicyParam,
    schedulingPolicyParam, addressMappingSchemeParam, queuingStructureParam] ++
  (["DEBUG_TRANS_Q", "DEBUG_CMD_Q", "DEBUG_ADDR_MAP", "DEBUG_BANKSTATE", "DEBUG_BUS", "DEBUG_BANKS",
    "DEBUG_POWER",
    "VIS_FILE_OUTPUT", "VERIFICATION_OUTPUT"].map fun name => defineBoolParam name .sysParam)

/-- The ways the reading of the parameters ends the program, and the use of a number that was not read, which
C++ leaves undefined. -/
inductive IniExit where
  | missingEquals
  | uninitialized
  | missingKey
  | zeroChannels
  deriving DecidableEq, Repr

/-- What is computed from the parameters when a file has been read. -/
structure Precomputed where
  numBanksLog : ℕ
  numChansLog : ℕ
  numRowsLog : ℕ
  numColsLog : ℕ
  byteOffsetWidth : ℕ
  transactionSize : ℕ
  throwAwayBits : ℕ
  colLowBitWidth : ℕ
  deriving DecidableEq, Repr

structure IniReader (F : Type) where
  values : (param : ConfigMap) → param.variableType.Val F
  wasSet : ConfigMap → Bool
  precomputed : Precomputed

variable {F : Type} (zero : F) (readFloat : List Char → Option F) (showFloat : F → List Char)

/-- What a variable holds before anything sets it. -/
def VarType.initial : (t : VarType) → t.Val F
  | .string => []
  | .uint => (0 : BitVec 32)
  | .float => zero
  | .bool => false

/-- The value of a text. A number that is not one is reported, and the program goes on with what the
stream left. -/
def VarType.parse (t : VarType) (valueString : List Char) : Except IniExit (t.Val F) :=
  match t with
  | .string => .ok valueString
  | .uint =>
      match extract 10 32 valueString with
      | none => .error .uninitialized
      | some (_, v) => .ok (BitVec.ofNat 32 v)
  | .float =>
      match readFloat valueString with
      | none => .error .uninitialized
      | some v => .ok v
  | .bool => .ok (decide (valueString = "true".toList ∨ valueString = "1".toList))

/-- The text of a value. -/
def VarType.print : (t : VarType) → t.Val F → List Char
  | .string, v => v
  | .uint, v => Nat.toDigits 10 (BitVec.toNat v)
  | .float, v => showFloat v
  | .bool, v => cond v "true".toList "false".toList

/-- Whether the program needs the parameter to be set. -/
def VarType.isNumeric : VarType → Bool
  | .uint | .float => true
  | .string | .bool => false

def precompute (values : (param : ConfigMap) → param.variableType.Val F) : Precomputed :=
  let uint (v : BitVec 32) : ℕ := v.toNat
  let byteOffsetWidth := dramsimLog2 (uint (values jedecDataBusBitsParam))
  let transactionSize := unsigned (uint (values jedecDataBusBitsParam) * uint (values blParam))
  { numBanksLog := dramsimLog2 (uint (values numBanksParam))
    numChansLog := dramsimLog2 (uint (values numChansParam))
    numRowsLog := dramsimLog2 (uint (values numRowsParam))
    numColsLog := dramsimLog2 (uint (values numColsParam))
    byteOffsetWidth
    transactionSize
    throwAwayBits := dramsimLog2 transactionSize
    colLowBitWidth := unsigned (dramsimLog2 transactionSize - byteOffsetWidth) }

def isBlank (c : Char) : Bool :=
  decide (c = ' ' ∨ c = '\t')

/-- What a line assigns, if it is neither empty nor a comment. -/
def assignment (line : List Char) : Except IniExit (Option (List Char × List Char)) :=
  let line := line.takeWhile fun c => decide (c ≠ ';')
  if line = [] then .ok none
  else
    -- A line of blanks only keeps them.
    let line := if line.all isBlank then line else line.rdropWhile isBlank
    match line.dropWhile fun c => decide (c ≠ '=') with
    | [] => .error .missingEquals
    | _ :: valueString => .ok (some (line.takeWhile fun c => decide (c ≠ '='), valueString))

namespace IniReader

def init : IniReader F :=
  { values := fun param => param.variableType.initial zero, wasSet := fun _ => false
    precomputed := ⟨0, 0, 0, 0, 0, 0, 0, 0⟩ }

variable (r : IniReader F)

/-- A variable that is set. -/
def setValue (param : ConfigMap) (v : param.variableType.Val F) : IniReader F :=
  { r with values := Function.update r.values param v, wasSet := Function.update r.wasSet param true }

/-- A key that is not in the table is reported only. -/
def setKey (a : List Char × List Char) : Except IniExit (IniReader F) :=
  match configMap.find? fun param => decide (a.1 = param.iniKey) with
  | none => .ok r
  | some param => (param.variableType.parse readFloat a.2).map (r.setValue param)

def readIniLine (line : List Char) : Except IniExit (IniReader F) := do
  match ← assignment line with
  | none => pure r
  | some a => r.setKey readFloat a

def readIniFile (text : List Char) : Except IniExit (IniReader F) :=
  ((text.splitOn '\n').foldlM (readIniLine readFloat) r).map fun r =>
  { r with precomputed := precompute r.values }

/-- The pairs of a list `key1=value1,key2=value2`. -/
def paramPairs (text : List Char) : List (List Char × List Char) :=
  match h : text.dropWhile fun c => decide (c ≠ '=') with
  | [] => []
  | _ :: rest =>
      have : rest.length < text.length := by
        have hsuffix := (List.dropWhile_suffix (l := text) fun c => decide (c ≠ '=')).length_le
        rw [h, List.length_cons] at hsuffix
        exact hsuffix
      (text.takeWhile fun c => decide (c ≠ '='), rest.takeWhile fun c => decide (c ≠ ',')) ::
        paramPairs ((rest.dropWhile fun c => decide (c ≠ ',')).drop 1)
termination_by text.length
decreasing_by
  have hsuffix := (List.dropWhile_suffix (l := rest) fun c => decide (c ≠ ',')).length_le
  rw [List.length_drop]
  omega

/-- `parseParamOverrides`: the pairs go into a map. -/
def parseParamOverrides (text : List Char) : List (List Char × List Char) :=
  toMap (paramPairs text)

def overrideKeys (map : Option (List (List Char × List Char))) : Except IniExit (IniReader F) :=
  match map with
  | none => .ok r
  | some map => map.foldlM (setKey readFloat) r

/-- The check of one parameter. -/
def checkIfSet (param : ConfigMap) : Except IniExit (IniReader F) :=
  if r.wasSet param then .ok r
  else if param.variableType.isNumeric then .error .missingKey
  else if param.variableType = .bool then
    .ok { r with values := Function.update r.values param (param.variableType.initial zero) }
  else .ok r

def checkIfAllSet : Except IniExit (IniReader F) :=
  configMap.foldlM (checkIfSet zero) r

/-- The parameters as the constructor of the memory system sets them, before it creates the channels. -/
def load (deviceIni systemIni : List Char) (paramOverrides : Option (List Char)) :
    Except IniExit (IniReader F) := do
  let r ← (init zero).readIniFile readFloat deviceIni
  let r ← r.readIniFile readFloat systemIni
  let r ← r.overrideKeys readFloat (paramOverrides.map parseParamOverrides)
  let r ← r.checkIfAllSet zero
  let numChans : BitVec 32 := r.values numChansParam
  if numChans = 0 then .error .zeroChannels else pure r

def addressMappingScheme : AddressMappingScheme :=
  let s : List Char := r.values addressMappingSchemeParam
  if s = "scheme1".toList then .scheme1
  else if s = "scheme2".toList then .scheme2
  else if s = "scheme3".toList then .scheme3
  else if s = "scheme4".toList then .scheme4
  else if s = "scheme5".toList then .scheme5
  else if s = "scheme6".toList then .scheme6
  else if s = "scheme7".toList then .scheme7
  else if s = "scheme8".toList then .scheme8
  else .scheme1

def rowBufferPolicy : RowBufferPolicy :=
  let s : List Char := r.values rowBufferPolicyParam
  if s = "open_page".toList then .openPage else .closePage

def queuingStructure : QueuingStructure :=
  let s : List Char := r.values queuingStructureParam
  if s = "per_rank".toList then .perRank else .perRankPerBank

def schedulingPolicy : SchedulingPolicy :=
  let s : List Char := r.values schedulingPolicyParam
  if s = "rank_then_bank_round_robin".toList then .rankThenBankRoundRobin else .bankThenRankRoundRobin

/-- A parameter as the number that the memory system reads. -/
def uint (name : String) (paramtype : ParamType) : ℕ :=
  BitVec.toNat (r.values (defineUintParam name paramtype))

/-- The configuration of a channel before its constructor sets the number of ranks. The cycles of the
refreshes come out of a floating-point quotient. -/
def config (refreshCountdown : ℕ → ℕ) (refreshPeriod : ℕ)
    (hbanks : 0 < r.uint "NUM_BANKS" .devParam) : Config :=
  { numRanks := 1
    numRanksLog := 0
    numBanks := r.uint "NUM_BANKS" .devParam
    numChans := r.uint "NUM_CHANS" .sysParam
    numRows := r.uint "NUM_ROWS" .devParam
    numCols := r.uint "NUM_COLS" .devParam
    jedecDataBusBits := r.uint "JEDEC_DATA_BUS_BITS" .sysParam
    BL := r.uint "BL" .devParam
    AL := r.uint "AL" .devParam
    tRAS := r.uint "tRAS" .devParam
    tRCD := r.uint "tRCD" .devParam
    tRRD := r.uint "tRRD" .devParam
    tRC := r.uint "tRC" .devParam
    tRP := r.uint "tRP" .devParam
    tCCD := r.uint "tCCD" .devParam
    tRTP := r.uint "tRTP" .devParam
    tWTR := r.uint "tWTR" .devParam
    tWR := r.uint "tWR" .devParam
    tRTRS := r.uint "tRTRS" .devParam
    tRFC := r.uint "tRFC" .devParam
    tFAW := r.uint "tFAW" .devParam
    tXP := r.uint "tXP" .devParam
    tCMD := r.uint "tCMD" .devParam
    IDD0 := r.uint "IDD0" .devParam
    IDD2N := r.uint "IDD2N" .devParam
    IDD3N := r.uint "IDD3N" .devParam
    IDD4W := r.uint "IDD4W" .devParam
    IDD4R := r.uint "IDD4R" .devParam
    IDD5 := r.uint "IDD5" .devParam
    numDevices := r.uint "JEDEC_DATA_BUS_BITS" .sysParam / r.uint "DEVICE_WIDTH" .devParam
    transQueueDepth := r.uint "TRANS_QUEUE_DEPTH" .sysParam
    cmdQueueDepth := r.uint "CMD_QUEUE_DEPTH" .sysParam
    totalRowAccesses := r.uint "TOTAL_ROW_ACCESSES" .sysParam
    rowBufferPolicy := r.rowBufferPolicy
    schedulingPolicy := r.schedulingPolicy
    addressMappingScheme := r.addressMappingScheme
    queuingStructure := r.queuingStructure
    refreshCountdown
    refreshPeriod
    ranks_pos := Nat.one_pos
    banks_pos := hbanks }

/-- The lines of the parameters of a type. -/
def paramLine (param : ConfigMap) : List Char :=
  param.iniKey ++ '=' :: param.variableType.print showFloat (r.values param)

def writeParams (numRanks : ℕ) (type : ParamType) : List Char :=
  ((configMap.filter fun param => decide (param.parameterType = type)).flatMap fun param =>
      r.paramLine showFloat param ++ ['\n']) ++
    if type = .sysParam then "NUM_RANKS".toList ++ '=' :: Nat.toDigits 10 numRanks ++ ['\n'] else []

/-! ### What is read -/

/-- The assignments of some lines. -/
def assignments : List (List Char) → Except IniExit (List (List Char × List Char))
  | [] => .ok []
  | line :: lines => do
      let a ← assignment line
      let as ← assignments lines
      pure (a.toList ++ as)

/-- What assignments make of the parameters: the last assignment to a key counts. -/
def Assigned (readFloat : List Char → Option F) (as : List (List Char × List Char))
    (r r' : IniReader F) : Prop :=
  ∀ param ∈ configMap,
    match lastOf param.iniKey as with
    | none => r'.values param = r.values param ∧ r'.wasSet param = r.wasSet param
    | some text => param.variableType.parse readFloat text = .ok (r'.values param) ∧ r'.wasSet param = true

variable {zero readFloat showFloat} {r} {r' r'' : IniReader F} {as bs : List (List Char × List Char)}

theorem configMap_nodup : (configMap.map ConfigMap.iniKey).Nodup := by
  decide +kernel

theorem of_find {k : List Char} {p : ConfigMap}
    (h : (configMap.find? fun p => decide (k = p.iniKey)) = some p) :
    p ∈ configMap ∧ k = p.iniKey :=
  ⟨List.mem_of_find?_eq_some h, of_decide_eq_true (List.find?_eq_some_iff_append.mp h).1⟩

theorem find_param {param : ConfigMap} (hparam : param ∈ configMap) :
    (configMap.find? fun p => decide (param.iniKey = p.iniKey)) = some param := by
  cases hfind : configMap.find? fun p => decide (param.iniKey = p.iniKey) with
  | none =>
      have hnone := List.find?_eq_none.mp hfind param hparam
      exact absurd (decide_eq_true rfl) hnone
  | some p =>
      obtain ⟨hp, hkey⟩ := of_find hfind
      rw [List.inj_on_of_nodup_map configMap_nodup hparam hp hkey]

theorem Assigned.refl (r : IniReader F) : Assigned readFloat [] r r :=
  fun _ _ => ⟨rfl, rfl⟩

theorem Assigned.trans (h : Assigned readFloat as r r') (h' : Assigned readFloat bs r' r'') :
    Assigned readFloat (as ++ bs) r r'' := by
  intro param hparam
  have hfirst := h param hparam
  have hsecond := h' param hparam
  rw [lastOf_append]
  cases hlast : lastOf param.iniKey bs with
  | some text =>
      rw [hlast] at hsecond
      exact hsecond
  | none =>
      rw [hlast] at hsecond
      obtain ⟨hvalue, hset⟩ := hsecond
      rw [Option.none_or]
      cases hlast' : lastOf param.iniKey as with
      | none =>
          rw [hlast'] at hfirst
          exact ⟨hvalue.trans hfirst.1, hset.trans hfirst.2⟩
      | some text =>
          rw [hlast'] at hfirst
          exact ⟨hfirst.1.trans (congrArg Except.ok hvalue.symm), hset.trans hfirst.2⟩

theorem Assigned.of_lastOf (h : Assigned readFloat as r r') (hlast : ∀ k, lastOf k as = lastOf k bs) :
    Assigned readFloat bs r r' := by
  intro param hparam
  rw [← hlast]
  exact h param hparam

theorem assigned_setKey {a : List Char × List Char} (h : r.setKey readFloat a = .ok r') :
    Assigned readFloat [a] r r' := by
  intro param hparam
  rw [lastOf_cons, lastOf, Option.none_or]
  rw [setKey] at h
  split_ifs with hkey
  · rw [hkey, find_param hparam] at h
    obtain ⟨v, hv, rfl⟩ := map_ok h
    rw [setValue]
    dsimp only
    rw [Function.update_self, Function.update_self]
    exact ⟨hv, rfl⟩
  · cases hfind : configMap.find? fun p => decide (a.1 = p.iniKey) with
    | none =>
        rw [hfind] at h
        cases h
        exact ⟨rfl, rfl⟩
    | some p =>
        rw [hfind] at h
        obtain ⟨v, hv, rfl⟩ := map_ok h
        have hne : param ≠ p := by
          rintro rfl
          exact hkey (of_find hfind).2
        rw [setValue]
        dsimp only
        rw [Function.update_of_ne hne, Function.update_of_ne hne]
        exact ⟨rfl, rfl⟩

theorem assigned_setKeys (h : as.foldlM (setKey readFloat) r = .ok r') : Assigned readFloat as r r' := by
  induction as generalizing r with
  | nil =>
      cases h
      exact Assigned.refl _
  | cons a as ih =>
      rw [List.foldlM_cons] at h
      obtain ⟨t, ht, h⟩ := bind_ok h
      exact (assigned_setKey ht).trans (ih h)

theorem assigned_lines {lines : List (List Char)} (h : lines.foldlM (readIniLine readFloat) r = .ok r') :
    ∃ as, assignments lines = .ok as ∧ Assigned readFloat as r r' := by
  induction lines generalizing r with
  | nil =>
      cases h
      exact ⟨[], rfl, Assigned.refl _⟩
  | cons line lines ih =>
      rw [List.foldlM_cons] at h
      obtain ⟨t, ht, h⟩ := bind_ok h
      obtain ⟨as, has, hrest⟩ := ih h
      obtain ⟨a, ha, hset⟩ := bind_ok ht
      refine ⟨a.toList ++ as, ?_, Assigned.trans ?_ hrest⟩
      · rw [assignments, ha, ok_bind, has]
        rfl
      · cases a with
        | none =>
            cases hset
            exact Assigned.refl _
        | some a => exact assigned_setKey hset

/-- **A file.** -/
theorem assigned_file {text : List Char} (h : r.readIniFile readFloat text = .ok r') :
    r'.precomputed = precompute r'.values ∧
      ∃ as, assignments (text.splitOn '\n') = .ok as ∧ Assigned readFloat as r r' := by
  obtain ⟨t, ht, rfl⟩ := map_ok h
  obtain ⟨as, has, hassigned⟩ := assigned_lines ht
  exact ⟨rfl, as, has, hassigned⟩

/-- The pairs of the command line, if there are any. -/
def overridePairs : Option (List Char) → List (List Char × List Char)
  | none => []
  | some text => paramPairs text

/-- The overrides count as if the pairs were set in the order of the command line. -/
theorem assigned_overrides {paramOverrides : Option (List Char)}
    (h : r.overrideKeys readFloat (paramOverrides.map parseParamOverrides) = .ok r') :
    Assigned readFloat (overridePairs paramOverrides) r r' ∧ r'.precomputed = r.precomputed := by
  cases paramOverrides with
  | none =>
      cases h
      exact ⟨Assigned.refl _, rfl⟩
  | some text =>
      refine ⟨(assigned_setKeys h).of_lastOf fun _ => (lastOf_toMap _).2, ?_⟩
      refine foldlM_ok (P := fun u => u.precomputed = r.precomputed) (fun u a u' hu hstep => ?_) rfl h
      rw [setKey] at hstep
      split at hstep
      · cases hstep
        exact hu
      · obtain ⟨v, -, rfl⟩ := map_ok hstep
        exact hu

theorem checked_params {params : List ConfigMap} (h : params.foldlM (checkIfSet zero) r = .ok r') :
    r'.wasSet = r.wasSet ∧ r'.precomputed = r.precomputed ∧
      (∀ param ∈ params, param.variableType.isNumeric = true → r.wasSet param = true) ∧
      ∀ param, r'.values param = r.values param ∨
        r.wasSet param = false ∧ r'.values param = param.variableType.initial zero := by
  induction params generalizing r with
  | nil =>
      cases h
      exact ⟨rfl, rfl, fun _ hmem => (List.not_mem_nil hmem).elim, fun _ => .inl rfl⟩
  | cons p params ih =>
      rw [List.foldlM_cons] at h
      obtain ⟨t, ht, h⟩ := bind_ok h
      obtain ⟨hset, hpre, hnumeric, hvalues⟩ := ih h
      have hstep : t.wasSet = r.wasSet ∧ t.precomputed = r.precomputed ∧
          (p.variableType.isNumeric = true → r.wasSet p = true) ∧ ∀ param, t.values param = r.values param ∨
            r.wasSet param = false ∧ t.values param = param.variableType.initial zero := by
        rw [checkIfSet] at ht
        split_ifs at ht with hp hnum hbool
        · cases ht
          exact ⟨rfl, rfl, fun _ => hp, fun _ => .inl rfl⟩
        · cases ht
          refine ⟨rfl, rfl, fun hbad => absurd hbad hnum, fun param => ?_⟩
          by_cases heq : param = p
          · subst heq
            refine .inr ⟨Bool.eq_false_iff.mpr hp, ?_⟩
            dsimp only
            rw [Function.update_self]
          · exact .inl (Function.update_of_ne heq _ _)
        · cases ht
          exact ⟨rfl, rfl, fun hbad => absurd hbad hnum, fun _ => .inl rfl⟩
      obtain ⟨hset', hpre', hnumeric', hvalues'⟩ := hstep
      rw [hset'] at hset hnumeric hvalues
      refine ⟨hset, hpre.trans hpre', List.forall_mem_cons.mpr ⟨hnumeric', hnumeric⟩, fun param => ?_⟩
      rcases hvalues param with hsame | hdefault
      · rw [hsame]
        exact hvalues' param
      · exact .inr hdefault

/-- What every parameter has behind some assignments: what the last one to its key says, or what it had at
the start. -/
def Holds (zero : F) (readFloat : List Char → Option F) (as : List (List Char × List Char))
    (values : (param : ConfigMap) → param.variableType.Val F) : Prop :=
  ∀ param ∈ configMap,
    match lastOf param.iniKey as with
    | none => values param = param.variableType.initial zero
    | some text => param.variableType.parse readFloat text = .ok (values param)

theorem Assigned.holds (h : Assigned readFloat as (init zero) r) : Holds zero readFloat as r.values := by
  intro param hparam
  have hassigned := h param hparam
  cases hlast : lastOf param.iniKey as with
  | none =>
      rw [hlast] at hassigned
      exact hassigned.1
  | some text =>
      rw [hlast] at hassigned
      exact hassigned.1

theorem Holds.unique {values values' : (param : ConfigMap) → param.variableType.Val F} {param : ConfigMap}
    (hparam : param ∈ configMap) (h : Holds zero readFloat as values) (h' : Holds zero readFloat bs values')
    (hlast : lastOf param.iniKey as = lastOf param.iniKey bs) : values param = values' param := by
  have hfirst := h param hparam
  have hsecond := h' param hparam
  rw [hlast] at hfirst
  cases hlast' : lastOf param.iniKey bs with
  | none =>
      rw [hlast'] at hfirst hsecond
      exact hfirst.trans hsecond.symm
  | some text =>
      rw [hlast'] at hfirst hsecond
      exact Except.ok.inj (hfirst.symm.trans hsecond)

/-- The parameters that something is precomputed from. -/
def sizeParams : List ConfigMap :=
  [numBanksParam, numChansParam, numRowsParam, numColsParam, jedecDataBusBitsParam, blParam]

theorem sizeParams_table : ∀ param ∈ sizeParams, param ∈ configMap := by
  decide +kernel

theorem precompute_congr {values values' : (param : ConfigMap) → param.variableType.Val F}
    (h : ∀ param ∈ sizeParams, values param = values' param) : precompute values = precompute values' := by
  have hat : ∀ param, param ∈ sizeParams → values param = values' param := h
  rw [precompute, precompute, hat numBanksParam (by simp [sizeParams]),
    hat numChansParam (by simp [sizeParams]),
    hat numRowsParam (by simp [sizeParams]), hat numColsParam (by simp [sizeParams]),
    hat jedecDataBusBitsParam (by simp [sizeParams]), hat blParam (by simp [sizeParams])]

theorem assigned_load {deviceIni systemIni : List Char} {paramOverrides : Option (List Char)}
    (h : load zero readFloat deviceIni systemIni paramOverrides = .ok r) :
    ∃ device system r₂ r₃, assignments (deviceIni.splitOn '\n') = .ok device ∧
      assignments (systemIni.splitOn '\n') = .ok system ∧
      Assigned readFloat (device ++ system) (init zero) r₂ ∧
      r₂.precomputed = precompute r₂.values ∧ Assigned readFloat (overridePairs paramOverrides) r₂ r₃ ∧
      r₃.precomputed = r₂.precomputed ∧ r₃.checkIfAllSet zero = .ok r := by
  obtain ⟨r₁, h₁, h⟩ := bind_ok h
  obtain ⟨r₂, h₂, h⟩ := bind_ok h
  obtain ⟨r₃, h₃, h⟩ := bind_ok h
  obtain ⟨r₄, h₄, h⟩ := bind_ok h
  obtain ⟨-, device, hdevice, hassigned₁⟩ := assigned_file h₁
  obtain ⟨hpre, system, hsystem, hassigned₂⟩ := assigned_file h₂
  have hchecked : r₄ = r := by
    dsimp only at h
    split_ifs at h
    exact Except.ok.inj h
  rw [hchecked] at h₄
  obtain ⟨hassigned₃, hsame⟩ := assigned_overrides h₃
  exact ⟨device, system, r₂, r₃, hdevice, hsystem, hassigned₁.trans hassigned₂, hpre, hassigned₃, hsame, h₄⟩

/-- **The last assignment counts.** A program that has loaded its parameters has for each of them what the
last assignment to it says, of the device file, the system file and the command line in this order, and 0 or
nothing where there is none, which no number may have; but the widths are those of the files alone, and so
they are those of the parameters where the command line leaves the sizes alone. -/
theorem load_last_wins (zero : F) (readFloat : List Char → Option F) (deviceIni systemIni : List Char)
    (paramOverrides : Option (List Char)) (r : IniReader F)
    (h : load zero readFloat deviceIni systemIni paramOverrides = .ok r) :
    ∃ device system, assignments (deviceIni.splitOn '\n') = .ok device ∧
    assignments (systemIni.splitOn '\n') = .ok system ∧
      Holds zero readFloat (device ++ system ++ overridePairs paramOverrides) r.values ∧
      (∀ param ∈ configMap, param.variableType.isNumeric = true →
        lastOf param.iniKey (device ++ system ++ overridePairs paramOverrides) ≠ none) ∧
      (∃ values, Holds zero readFloat (device ++ system) values ∧ r.precomputed = precompute values) ∧
      ((∀ param ∈ sizeParams, lastOf param.iniKey (overridePairs paramOverrides) = none) →
        r.precomputed = precompute r.values) := by
  obtain ⟨device, system, r₂, r₃, hdevice, hsystem, hfiles, hpre, hoverrides, hsame, hcheck⟩ :=
    assigned_load h
  obtain ⟨-, hpre', hnumeric, hvalues⟩ := checked_params hcheck
  have hall := hfiles.trans hoverrides
  have hholds : Holds zero readFloat (device ++ system ++ overridePairs paramOverrides) r.values := by
    intro param hparam
    have hassigned := hall param hparam
    cases hlast : lastOf param.iniKey (device ++ system ++ overridePairs paramOverrides) with
    | none =>
        rw [hlast] at hassigned
        rcases hvalues param with hkept | ⟨-, hdefault⟩
        · exact hkept.trans hassigned.1
        · exact hdefault
    | some text =>
        rw [hlast] at hassigned
        rcases hvalues param with hkept | ⟨hunset, -⟩
        · exact hassigned.1.trans (congrArg Except.ok hkept.symm)
        · rw [hassigned.2] at hunset
          cases hunset
  have hprecomputed : r.precomputed = precompute r₂.values := hpre'.trans (hsame.trans hpre)
  refine ⟨device, system, hdevice, hsystem, hholds, fun param hparam hnum hnone => ?_,
    ⟨r₂.values, hfiles.holds, hprecomputed⟩, fun hsizes => ?_⟩
  · have hassigned := hall param hparam
    rw [hnone] at hassigned
    have hset := hassigned.2.symm.trans (hnumeric param hparam hnum)
    cases hset
  · rw [hprecomputed]
    refine precompute_congr fun param hparam => hfiles.holds.unique (sizeParams_table param hparam) hholds ?_
    rw [lastOf_append _ (overridePairs paramOverrides), hsizes param hparam, Option.none_or]

/-- A file that sets every parameter of a type to 1. -/
def onesIni (type : ParamType) : List Char :=
  (configMap.filter fun param => decide (param.parameterType = type)).flatMap fun param =>
    param.iniKey ++ "=1\n".toList

/-- The `float` parameters are whole numbers here. -/
def readWhole (text : List Char) : Option ℕ :=
  (extract 10 32 text).map Prod.snd

theorem load_last_wins_ones : ∃ r device system,
    load 0 readWhole (onesIni .devParam) (onesIni .sysParam) (some "tRC=14,BL=4".toList) = .ok r ∧
      Holds 0 readWhole (device ++ system ++ overridePairs (some "tRC=14,BL=4".toList)) r.values := by
  have hload : ∃ r, load 0 readWhole (onesIni .devParam) (onesIni .sysParam) (some "tRC=14,BL=4".toList) =
      .ok r ∧ True := by
    decide +kernel
  obtain ⟨r, hr, -⟩ := hload
  obtain ⟨device, system, -, -, hholds, -⟩ :=
    load_last_wins 0 readWhole (onesIni .devParam) (onesIni .sysParam)
      (some "tRC=14,BL=4".toList) r hr
  exact ⟨r, device, system, hr, hholds⟩

end IniReader

end RacerArtifacts.Mram
