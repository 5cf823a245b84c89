import Mathlib

/-! Numbers as text: the value of a string of digits, and the extraction of an unsigned number from the front
of a text as a C++ stream does it, with its blanks, its sign and its failures. The digits of a number are
extracted to it. -/

namespace Numeral

/-- The value of a digit of a base up to 16. -/
def digitValue (c : Char) : ℕ :=
  let n := c.toNat
  if 48 ≤ n ∧ n ≤ 57 then n - 48
  else if 97 ≤ n ∧ n ≤ 102 then n - 87
  else if 65 ≤ n ∧ n ≤ 70 then n - 55
  else 16

def isDigit (b : ℕ) (c : Char) : Bool :=
  decide (digitValue c < b)

/-- The number that digits denote behind those of `n`. -/
def value (b n : ℕ) (digits : List Char) : ℕ :=
  digits.foldl (fun n c => b * n + digitValue c) n

theorem value_append (b n : ℕ) (digits digits' : List Char) :
    value b n (digits ++ digits') = value b (value b n digits) digits' :=
  List.foldl_append

theorem digitValue_digitChar {d : ℕ} (hd : d < 16) : digitValue d.digitChar = d := by
  interval_cases d <;> rfl

section toDigits

variable {b : ℕ} (hb : 1 < b) (hle : b ≤ 16)

include hb hle

theorem isDigit_toDigits (n : ℕ) : ∀ c ∈ Nat.toDigits b n, isDigit b c = true := by
  induction n using Nat.strong_induction_on with
  | _ n ih =>
      have hlast : ∀ d, d < b → isDigit b d.digitChar = true := by
        intro d hd
        rw [isDigit, digitValue_digitChar (hd.trans_le hle), decide_eq_true_eq]
        exact hd
      rw [Nat.toDigits_eq_if hb]
      split_ifs with hlt
      · intro c hc
        rw [List.mem_singleton.mp hc]
        exact hlast n hlt
      · intro c hc
        rcases List.mem_append.mp hc with hc | hc
        · exact ih (n / b) (Nat.div_lt_self (by omega) hb) c hc
        · rw [List.mem_singleton.mp hc]
          exact hlast _ (Nat.mod_lt _ (by omega))

theorem value_toDigits (n : ℕ) : value b 0 (Nat.toDigits b n) = n := by
  induction n using Nat.strong_induction_on with
  | _ n ih =>
      rw [Nat.toDigits_eq_if hb]
      split_ifs with hlt
      · change b * 0 + digitValue n.digitChar = n
        rw [digitValue_digitChar (hlt.trans_le hle), Nat.mul_zero, Nat.zero_add]
      · rw [value_append, ih (n / b) (Nat.div_lt_self (by omega) hb)]
        change b * (n / b) + digitValue (n % b).digitChar = n
        rw [digitValue_digitChar ((Nat.mod_lt _ (by omega)).trans_le hle)]
        exact Nat.div_add_mod n b

end toDigits

/-- What a C++ stream skips before a number. -/
def isSpace (c : Char) : Bool :=
  c.toNat = 32 || (9 ≤ c.toNat && c.toNat ≤ 13)

/-- An optional sign, and the rest. -/
def sign : List Char → Bool × List Char
  | '-' :: cs => (true, cs)
  | '+' :: cs => (false, cs)
  | cs => (false, cs)

/-- The marker that a hexadecimal number may have. -/
def unmarked (b : ℕ) : List Char → List Char
  | '0' :: 'x' :: cs => if b = 16 then cs else '0' :: 'x' :: cs
  | '0' :: 'X' :: cs => if b = 16 then cs else '0' :: 'X' :: cs
  | cs => cs

/-- `iss >> value` for an unsigned number of some bits: whether it succeeds, and the value; `none` where
nothing is left to read, which leaves the variable alone. -/
def extract (b bits : ℕ) (text : List Char) : Option (Bool × ℕ) :=
  match text.dropWhile isSpace with
  | [] => none
  | c :: cs =>
      let (negative, cs) := sign (c :: cs)
      match (unmarked b cs).takeWhile (isDigit b) with
      | [] => some (false, 0)
      | d :: ds =>
          let v := value b 0 (d :: ds)
          if 2 ^ bits ≤ v then some (false, 2 ^ bits - 1)
          else some (true, if negative then (2 ^ bits - v) % 2 ^ bits else v)

theorem not_space_of_digit {c : Char} (hc : digitValue c < 16) : isSpace c = false ∧ c ≠ '-' ∧ c ≠ '+' ∧
    c ≠ 'x' ∧ c ≠ 'X' := by
  rw [digitValue] at hc
  refine ⟨?_, ?_, ?_, ?_, ?_⟩
  · rw [isSpace]
    simp only [Bool.or_eq_false_iff, decide_eq_false_iff_not, Bool.and_eq_false_iff]
    split_ifs at hc <;> omega
  all_goals
    rintro rfl
    revert hc
    decide

theorem sign_of_digits {cs : List Char} (hcs : ∀ c ∈ cs, digitValue c < 16) : sign cs = (false, cs) := by
  rw [sign.eq_def]
  split
  · exact absurd (hcs _ List.mem_cons_self) (by decide)
  · exact absurd (hcs _ List.mem_cons_self) (by decide)
  · rfl

theorem unmarked_of_digits (b : ℕ) {cs : List Char} (hcs : ∀ c ∈ cs, digitValue c < 16) :
    unmarked b cs = cs := by
  rw [unmarked.eq_def]
  split
  · exact absurd (hcs 'x' (by simp)) (by decide)
  · exact absurd (hcs 'X' (by simp)) (by decide)
  · rfl

/-- Digits, in either case and behind any zeros, of a number of some bits. -/
structure Denotes (b bits : ℕ) (digits : List Char) (n : ℕ) : Prop where
  ne_nil : digits ≠ []
  digit : ∀ c ∈ digits, isDigit b c = true
  value_eq : value b 0 digits = n
  lt : n < 2 ^ bits

theorem denotes_toDigits {b : ℕ} (hb : 1 < b) (hle : b ≤ 16) {bits n : ℕ} (hn : n < 2 ^ bits) :
    Denotes b bits (Nat.toDigits b n) n :=
  ⟨Nat.toDigits_ne_nil, isDigit_toDigits hb hle n, value_toDigits hb hle n, hn⟩

/-- **A number that fits is extracted from digits that denote it.** -/
theorem Denotes.extract_eq {b bits n : ℕ} {digits : List Char} (hle : b ≤ 16) (h : Denotes b bits digits n) :
    extract b bits digits = some (true, n) := by
  have hdigits : ∀ c ∈ digits, digitValue c < 16 :=
    fun c hc => (of_decide_eq_true (h.digit c hc)).trans_le hle
  have hsign := sign_of_digits hdigits
  have hmark := unmarked_of_digits b hdigits
  have htake : digits.takeWhile (isDigit b) = digits := List.takeWhile_eq_self_iff.mpr h.digit
  have hvalue := h.value_eq
  rw [extract]
  cases htext : digits with
  | nil => exact absurd htext h.ne_nil
  | cons c cs =>
      rw [htext] at hdigits hsign hmark htake hvalue
      rw [List.dropWhile_cons_of_neg (by rw [(not_space_of_digit (hdigits c List.mem_cons_self)).1]; decide)]
      dsimp only
      rw [hsign, hmark, htake]
      dsimp only
      rw [hvalue, if_neg (Nat.not_le.mpr h.lt)]
      rfl

theorem extract_toDigits {b : ℕ} (hb : 1 < b) (hle : b ≤ 16) {bits n : ℕ} (hn : n < 2 ^ bits) :
    extract b bits (Nat.toDigits b n) = some (true, n) :=
  (denotes_toDigits hb hle hn).extract_eq hle

end Numeral
