import RacerArtifacts.LibFallible
import RacerArtifacts.LibNumeral
import RacerArtifacts.MramConfig

/-! The lines of a trace file. A line is a list of characters; the address, the type and the cycle that a line
sets are variables of the program, which keep their values where a line does not set them. -/

namespace RacerArtifacts.Mram

open Fallible Numeral

inductive TraceType where
  | k6
  | mase
  | misc
  deriving DecidableEq, Repr

/-- The ways a line ends the program: a field that a `substr` does not find, and a command that is
not known. -/
inductive TraceExit where
  | outOfRange
  | unknownCommand
  | invalidCommand
  deriving DecidableEq, Repr

/-- The variables that a line is read into. -/
structure TraceReader where
  addr : BitVec 64
  transType : TransactionType
  clockCycle : BitVec 64
  deriving DecidableEq, Repr

/-- `istringstream(text) >> variable`, whose failures nobody checks. -/
def readInto (b : ℕ) (old : BitVec 64) (text : List Char) : BitVec 64 :=
  match extract b 64 text with
  | none => old
  | some (_, v) => BitVec.ofNat 64 v

def notBlank (c : Char) : Bool :=
  decide (c ≠ ' ')

/-- The field behind some blanks, and what is behind it. -/
def nextField (text : List Char) : Except TraceExit (List Char × List Char) :=
  match text.dropWhile fun c => decide (c = ' ') with
  | [] => .error .outOfRange
  | c :: cs => .ok ((c :: cs).takeWhile notBlank, (c :: cs).dropWhile notBlank)

/-- `addressStr.substr(2)`, which gets rid of the `0x`. -/
def chopMarker (addressStr : List Char) : Except TraceExit (List Char) :=
  if addressStr.length < 2 then .error .outOfRange else .ok (addressStr.drop 2)

/-- The command and the cycle of a line of a `k6` or `mase` trace, behind its address. -/
def fields (line : List Char) : Except TraceExit (List Char × List Char × List Char) := do
  let (cmdStr, rest) ← nextField (line.dropWhile notBlank)
  let (ccStr, _) ← nextField rest
  pure (line.takeWhile notBlank, cmdStr, ccStr)

/-- What a command asks for, in each kind of trace. -/
def commandType (type : TraceType) (cmdStr : List Char) : Option TransactionType :=
  match type with
  | .k6 =>
      if cmdStr = "P_MEM_WR".toList ∨ cmdStr = "BOFF".toList then some .dataWrite
      else if cmdStr = "P_FETCH".toList ∨ cmdStr = "P_MEM_RD".toList ∨ cmdStr = "P_LOCK_RD".toList ∨
          cmdStr = "P_LOCK_WR".toList then some .dataRead
      else none
  | .mase =>
      if cmdStr = "IFETCH".toList ∨ cmdStr = "READ".toList then some .dataRead
      else if cmdStr = "WRITE".toList then some .dataWrite
      else none
  | .misc =>
      if cmdStr = "read".toList then some .dataRead
      else if cmdStr = "write".toList then some .dataWrite
      else none

/-- The address and the command of a line of a `misc` trace. The search for the first blank starts
behind the first character; where it finds none, an error is printed and the search goes on from the
start of the line. -/
def miscFields : List Char → List Char × List Char
  | [] => ([], [])
  | c :: cs =>
      match cs.dropWhile notBlank with
      | [] => (c :: cs, if c = ' ' then [] else c :: cs)
      | _ :: rest => (c :: cs.takeWhile notBlank, rest.takeWhile notBlank)

variable (useClockCycle : Bool) (reader : TraceReader)

/-- No data is read from a trace (`NO_STORAGE`). -/
def parseTraceFileLine (type : TraceType) (line : List Char) : Except TraceExit TraceReader :=
  match type with
  | .k6 => do
      let (addressStr, cmdStr, ccStr) ← fields line
      match commandType .k6 cmdStr with
      | none => .error .unknownCommand
      | some transType =>
          let digits ← chopMarker addressStr
          pure { addr := readInto 16 reader.addr digits
                 transType
                 clockCycle := if useClockCycle then readInto 10 reader.clockCycle ccStr
                   else reader.clockCycle }
  | .mase => do
      let (addressStr, cmdStr, ccStr) ← fields line
      -- A command that is not known is reported, and the type of the line before stays.
      let digits ← chopMarker addressStr
      pure { addr := readInto 16 reader.addr digits
             transType := (commandType .mase cmdStr).getD reader.transType
             clockCycle := if useClockCycle then readInto 10 reader.clockCycle ccStr else reader.clockCycle }
  | .misc => do
      let (addressStr, cmdStr) := miscFields line
      let digits ← chopMarker addressStr
      match commandType .misc cmdStr with
      | none => .error .invalidCommand
      | some transType =>
          pure { reader with addr := readInto 16 reader.addr digits, transType }

/-- A line as traces have it; `gap` and `gap'` are further blanks between the fields of a `k6` or
`mase` trace. -/
def traceLine (type : TraceType) (gap gap' : ℕ) (digits cmdStr clockDigits tail : List Char) : List Char :=
  '0' :: 'x' :: (digits ++
    if type = .misc then ' ' :: (cmdStr ++ tail)
    else List.replicate (gap + 1) ' ' ++ (cmdStr ++ (List.replicate (gap' + 1) ' ' ++ (clockDigits ++ tail))))

variable {useClockCycle reader}

theorem notBlank_digits {b bits n : ℕ} {digits : List Char} (hle : b ≤ 16) (h : Denotes b bits digits n) :
    ∀ c ∈ digits, notBlank c = true := by
  intro c hc
  rw [notBlank, decide_eq_true_eq]
  rintro rfl
  have hlt := of_decide_eq_true (h.digit _ hc)
  exact absurd (hlt.trans_le hle) (by decide)

theorem span_word {word tail : List Char} (hword : ∀ c ∈ word, notBlank c = true)
    (htail : ∀ c ∈ tail.head?, c = ' ') :
    (word ++ tail).takeWhile notBlank = word ∧ (word ++ tail).dropWhile notBlank = tail := by
  rw [List.takeWhile_append_of_pos hword, List.dropWhile_append_of_pos hword]
  cases tail with
  | nil => exact ⟨List.append_nil _, rfl⟩
  | cons c cs =>
      have hc : notBlank c = false := by rw [htail c rfl]; rfl
      rw [List.takeWhile_cons_of_neg (by rw [hc]; decide), List.dropWhile_cons_of_neg (by rw [hc]; decide)]
      exact ⟨List.append_nil _, rfl⟩

theorem nextField_word {gap : ℕ} {word tail : List Char} (hne : word ≠ [])
    (hword : ∀ c ∈ word, notBlank c = true) (htail : ∀ c ∈ tail.head?, c = ' ') :
    nextField (List.replicate gap ' ' ++ (word ++ tail)) = .ok (word, tail) := by
  have hdrop : (List.replicate gap ' ' ++ (word ++ tail)).dropWhile (fun c => decide (c = ' ')) =
      word ++ tail := by
    rw [List.dropWhile_append_of_pos fun c hc => decide_eq_true (List.eq_of_mem_replicate hc)]
    cases word with
    | nil => exact absurd rfl hne
    | cons c cs =>
        have hc := hword c List.mem_cons_self
        rw [notBlank, decide_eq_true_eq] at hc
        rw [List.cons_append, List.dropWhile_cons_of_neg (by rw [decide_eq_true_eq]; exact hc)]
  obtain ⟨htake, hdrop'⟩ := span_word hword htail
  rw [nextField, hdrop]
  cases hall : word ++ tail with
  | nil => exact absurd (List.append_eq_nil_iff.mp hall).1 hne
  | cons c cs =>
      rw [hall] at htake hdrop'
      dsimp only
      rw [htake, hdrop']

theorem commandType_word {type : TraceType} {cmdStr : List Char} {t : TransactionType}
    (h : commandType type cmdStr = some t) : cmdStr ≠ [] ∧ ∀ c ∈ cmdStr, notBlank c = true := by
  cases type with
  | k6 =>
      rw [commandType] at h
      split_ifs at h with hwrite hread
      · rcases hwrite with rfl | rfl <;> simp [notBlank]
      · rcases hread with rfl | rfl | rfl | rfl <;> simp [notBlank]
  | mase =>
      rw [commandType] at h
      split_ifs at h with hread hwrite
      · rcases hread with rfl | rfl <;> simp [notBlank]
      · subst hwrite
        simp [notBlank]
  | misc =>
      rw [commandType] at h
      split_ifs at h with hread hwrite
      · subst hread
        simp [notBlank]
      · subst hwrite
        simp [notBlank]

theorem readInto_digits {b : ℕ} (hle : b ≤ 16) (old : BitVec 64) {digits : List Char} {v : BitVec 64}
    (h : Denotes b 64 digits v.toNat) : readInto b old digits = v := by
  rw [readInto, h.extract_eq hle]
  exact (BitVec.ofNat_toNat 64 v).trans (BitVec.setWidth_eq v)

theorem addressField {n : ℕ} {digits rest : List Char} (hdigits : Denotes 16 64 digits n)
    (hrest : ∀ c ∈ rest.head?, c = ' ') :
    ('0' :: 'x' :: (digits ++ rest)).takeWhile notBlank = '0' :: 'x' :: digits ∧
      ('0' :: 'x' :: (digits ++ rest)).dropWhile notBlank = rest := by
  have hword : ∀ c ∈ '0' :: 'x' :: digits, notBlank c = true := by
    intro c hc
    rcases List.mem_cons.mp hc with rfl | hc
    · decide
    rcases List.mem_cons.mp hc with rfl | hc
    · decide
    · exact notBlank_digits le_rfl hdigits c hc
  exact span_word hword hrest

theorem fields_line (gap gap' : ℕ) {n m : ℕ} {digits cmdStr clockDigits tail : List Char}
    (hdigits : Denotes 16 64 digits n) (hclock : Denotes 10 64 clockDigits m) (hne : cmdStr ≠ [])
    (hword : ∀ c ∈ cmdStr, notBlank c = true) (htail : ∀ c ∈ tail.head?, c = ' ') :
    fields ('0' :: 'x' :: (digits ++ (List.replicate (gap + 1) ' ' ++ (cmdStr ++
      (List.replicate (gap' + 1) ' ' ++ (clockDigits ++ tail)))))) =
        .ok ('0' :: 'x' :: digits, cmdStr, clockDigits) := by
  have hblank : ∀ (n : ℕ) (text : List Char), ∀ c ∈ (List.replicate (n + 1) ' ' ++ text).head?, c = ' ' := by
    intro n text c hc
    exact (Option.some.inj hc).symm
  obtain ⟨htake, hdrop⟩ := addressField hdigits (hblank gap (cmdStr ++ (List.replicate (gap' + 1) ' ' ++
    (clockDigits ++ tail))))
  rw [fields, htake, hdrop, nextField_word hne hword (hblank gap' _)]
  change (nextField _ >>= _) = _
  rw [nextField_word hclock.ne_nil (notBlank_digits (by decide) hclock) htail]
  rfl

theorem chopMarker_address (digits : List Char) : chopMarker ('0' :: 'x' :: digits) = .ok digits := by
  rw [chopMarker, if_neg (by simp)]
  rfl

/-- **A line of a trace is read to what it says**, in each kind of trace, whatever was read before: its
address, the type its command asks for, and its cycle where the trace has one and it is asked for. -/
theorem parseTraceFileLine_traceLine (type : TraceType) (useClockCycle : Bool) (reader : TraceReader)
    (gap gap' : ℕ) (digits cmdStr clockDigits tail : List Char) (addr clockCycle : BitVec 64)
    (transType : TransactionType) (hdigits : Denotes 16 64 digits addr.toNat)
    (hcommand : commandType type cmdStr = some transType)
    (hclock : type ≠ .misc → Denotes 10 64 clockDigits clockCycle.toNat)
    (htail : ∀ c ∈ tail.head?, c = ' ') :
    parseTraceFileLine useClockCycle reader type (traceLine type gap gap' digits cmdStr clockDigits tail) =
      .ok { addr, transType,
            clockCycle := if useClockCycle ∧ type ≠ .misc then clockCycle else reader.clockCycle } := by
  obtain ⟨hne, hword⟩ := commandType_word hcommand
  have haddr := readInto_digits le_rfl reader.addr hdigits
  cases type with
  | k6 =>
      have hnumber := hclock (by decide)
      have hcycle := readInto_digits (by decide) reader.clockCycle hnumber
      rw [parseTraceFileLine, traceLine, if_neg (by decide),
        fields_line gap gap' hdigits hnumber hne hword htail]
      simp only [ok_bind, hcommand, chopMarker_address, haddr, hcycle]
      cases useClockCycle <;> rfl
  | mase =>
      have hnumber := hclock (by decide)
      have hcycle := readInto_digits (by decide) reader.clockCycle hnumber
      rw [parseTraceFileLine, traceLine, if_neg (by decide),
        fields_line gap gap' hdigits hnumber hne hword htail]
      simp only [ok_bind, hcommand, chopMarker_address, haddr, hcycle]
      cases useClockCycle <;> rfl
  | misc =>
      have hblank : ∀ c ∈ (' ' :: (cmdStr ++ tail)).head?, c = ' ' := fun c hc => (Option.some.inj hc).symm
      obtain ⟨htake, hdrop⟩ := addressField hdigits hblank
      rw [List.takeWhile_cons_of_pos (by decide)] at htake
      rw [List.dropWhile_cons_of_pos (by decide)] at hdrop
      rw [parseTraceFileLine, traceLine, if_pos rfl, miscFields]
      simp only [hdrop, List.cons.inj htake, (span_word hword htail).1, chopMarker_address, ok_bind,
        hcommand, haddr]
      rw [if_neg (fun hbad => hbad.2 rfl)]
      rfl

/-- A line of a `k6` trace, with an address in upper case behind a zero. -/
theorem parseTraceFileLine_k6 :
    parseTraceFileLine true ⟨0, .dataRead, 0⟩ .k6 "0x018ADB20  P_MEM_WR     3680".toList =
      .ok ⟨0x18ADB20, .dataWrite, 3680⟩ := by
  have hcommand : commandType .k6 "P_MEM_WR".toList = some .dataWrite := by
    rw [commandType]
    exact if_pos (.inl rfl)
  exact parseTraceFileLine_traceLine .k6 true
    ⟨0, .dataRead, 0⟩ 1 4 "018ADB20".toList "P_MEM_WR".toList "3680".toList []
    0x18ADB20 3680 .dataWrite ⟨by decide, List.all_eq_true.mp (by decide), by decide, BitVec.isLt _⟩ hcommand
    (fun _ => ⟨by decide, List.all_eq_true.mp (by decide), by decide, BitVec.isLt _⟩) fun c hc => by cases hc

end RacerArtifacts.Mram
