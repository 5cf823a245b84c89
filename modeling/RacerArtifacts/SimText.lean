import Mathlib

/-! The Python text primitives that RACER-Sim reads its programs and cost tables with: `in`,
`str.strip`, `str.split(' ')`, `int` and `float`. Numbers are exact: a `float` is the rational its
literal denotes, and the literals `inf` and `nan`, which denote none, are rejected. `int` and `float`
read the ASCII digits. -/

namespace RacerArtifacts.Sim

/-- The exceptions the simulator can raise. -/
inductive PyError where
  | indexError
  | keyError
  | valueError
  | fileNotFound
  | recursionError
  deriving DecidableEq, Repr

/-- `sub in s`. -/
def hasSub (sub s : String) : Bool := decide (sub.toList <:+: s.toList)

/-- The characters `str.strip` removes. -/
def isPySpace (c : Char) : Bool :=
  let n := c.toNat
  (9 ≤ n && n ≤ 13) || (28 ≤ n && n ≤ 32) || n == 0x85 || n == 0xa0 || n == 0x1680 ||
    (0x2000 ≤ n && n ≤ 0x200a) || n == 0x2028 || n == 0x2029 || n == 0x202f || n == 0x205f || n == 0x3000

def stripChars (cs : List Char) : List Char :=
  ((cs.dropWhile isPySpace).reverse.dropWhile isPySpace).reverse

/-- `s.strip()`. -/
def pyStrip (s : String) : String := String.ofList (stripChars s.toList)

/-- `s.split(' ')`: adjacent blanks give empty fields. -/
def pySplit (s : String) : List String := (s.toList.splitOn ' ').map String.ofList

def digitValue (c : Char) : ℕ := c.toNat - '0'.toNat

/-- Digits after a first one, with single underscores between digits. -/
def digitsFrom (acc : ℕ) : List Char → Option ℕ
  | [] => some acc
  | '_' :: c :: cs => if c.isDigit then digitsFrom (10 * acc + digitValue c) cs else none
  | c :: cs => if c.isDigit then digitsFrom (10 * acc + digitValue c) cs else none

def pyDigits : List Char → Option ℕ
  | [] => none
  | c :: cs => if c.isDigit then digitsFrom (digitValue c) cs else none

/-- An optional sign, then the rest. -/
def signed : List Char → ℤ × List Char
  | '-' :: cs => (-1, cs)
  | '+' :: cs => (1, cs)
  | cs => (1, cs)

/-- `int(s)`. -/
def pyInt (s : String) : Except PyError ℤ :=
  let (sign, cs) := signed (stripChars s.toList)
  match pyDigits cs with
  | some n => .ok (sign * n)
  | none => .error .valueError

/-- One side of the decimal point, which may be empty. -/
def pointPart (cs : List Char) : Option ℕ := if cs.isEmpty then some 0 else pyDigits cs

/-- `digits [. digits]` with a digit on one side at least. -/
def mantissa (cs : List Char) : Option ℚ :=
  let whole := cs.takeWhile (· ≠ '.')
  let frac := (cs.dropWhile (· ≠ '.')).drop 1
  if whole.isEmpty && frac.isEmpty then none
  else do
    let w ← pointPart whole
    let f ← pointPart frac
    return w + f / 10 ^ (frac.filter Char.isDigit).length

/-- The part after `e`, absent or a signed decimal. -/
def exponent (cs : List Char) : Option ℤ :=
  match cs with
  | [] => some 0
  | _ :: rest =>
    let (sign, ds) := signed rest
    (pyDigits ds).map fun n => sign * n

/-- `float(s)`. -/
def pyFloat (s : String) : Except PyError ℚ :=
  let (sign, cs) := signed (stripChars s.toList)
  let isE : Char → Bool := fun c => c == 'e' || c == 'E'
  match mantissa (cs.takeWhile (!isE ·)), exponent (cs.dropWhile (!isE ·)) with
  | some m, some e => .ok (sign * m * (10 : ℚ) ^ e)
  | _, _ => .error .valueError

/-- A Python list index: negative indices count from the end. -/
def pyIndex (n : ℕ) (i : ℤ) : Except PyError (Fin n) :=
  let j := if i < 0 then i + n else i
  if h : 0 ≤ j ∧ j < n then .ok ⟨j.toNat, by omega⟩ else .error .indexError

theorem pyIndex_of_mem {n : ℕ} {i : ℤ} (h0 : 0 ≤ i) (hn : i < n) :
    pyIndex n i = .ok ⟨i.toNat, by omega⟩ := by
  have hneg : ¬i < 0 := by omega
  simp only [pyIndex, if_neg hneg, dif_pos (And.intro h0 hn)]

example : pyFloat "-0.79e1" = .ok (-79 / 10) := by decide +kernel

example : pySplit "ADD16 x x x 14 4" = ["ADD16", "x", "x", "x", "14", "4"] := by decide +kernel

end RacerArtifacts.Sim
