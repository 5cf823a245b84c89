import Mathlib

/-! Numbers in a mixed radix, the lowest digit first. The digits of the numbers below the product of the
radices are all the lists of digits below their radices, each once. -/

namespace MixedRadix

/-- The digits of a number to the given radices; what is left above the last one is dropped. -/
def digits : List ℕ → ℕ → List ℕ
  | [], _ => []
  | radix :: radices, n => n % radix :: digits radices (n / radix)

/-- The number with the given digits. -/
def value : List ℕ → List ℕ → ℕ
  | radix :: radices, d :: ds => d + radix * value radices ds
  | _, _ => 0

/-- Digits below their radices. -/
abbrev Below (ds radices : List ℕ) : Prop := List.Forall₂ (· < ·) ds radices

theorem below_map_iff {ι : Type*} {l : List ι} {f g : ι → ℕ} : Below (l.map f) (l.map g) ↔
    ∀ i ∈ l, f i < g i := by
  rw [Below, List.forall₂_map_left_iff, List.forall₂_map_right_iff, List.forall₂_same]

theorem digits_below {radices : List ℕ} (hpos : ∀ radix ∈ radices, 0 < radix) (n : ℕ) :
    Below (digits radices n) radices := by
  induction radices generalizing n with
  | nil => exact .nil
  | cons radix radices ih =>
      obtain ⟨hradix, hpos⟩ := List.forall_mem_cons.mp hpos
      exact .cons (Nat.mod_lt n hradix) (ih hpos (n / radix))

theorem value_digits {radices : List ℕ} {n : ℕ} (hn : n < radices.prod) :
    value radices (digits radices n) = n := by
  induction radices generalizing n with
  | nil => exact (Nat.lt_one_iff.mp hn).symm
  | cons radix radices ih =>
      rw [List.prod_cons] at hn
      calc value (radix :: radices) (digits (radix :: radices) n)
          = n % radix + radix * value radices (digits radices (n / radix)) := rfl
        _ = n % radix + radix * (n / radix) := by rw [ih (Nat.div_lt_of_lt_mul hn)]
        _ = n := Nat.mod_add_div n radix

theorem value_lt {ds radices : List ℕ} (h : Below ds radices) : value radices ds < radices.prod := by
  induction h with
  | nil => exact Nat.one_pos
  | @cons d radix ds radices hd _ ih =>
      calc value (radix :: radices) (d :: ds) < radix + radix * value radices ds := Nat.add_lt_add_right hd _
        _ = radix * (value radices ds + 1) := by rw [Nat.mul_succ, Nat.add_comm]
        _ ≤ radix * radices.prod := Nat.mul_le_mul_left radix ih
        _ = (radix :: radices).prod := List.prod_cons.symm

theorem digits_value {ds radices : List ℕ} (h : Below ds radices) :
    digits radices (value radices ds) = ds := by
  induction h with
  | nil => rfl
  | @cons d radix ds radices hd _ ih =>
      have hpos : 0 < radix := Nat.zero_lt_of_lt hd
      have hlow : (d + radix * value radices ds) % radix = d := by
        rw [Nat.add_mul_mod_self_left, Nat.mod_eq_of_lt hd]
      have hhigh : (d + radix * value radices ds) / radix = value radices ds := by
        rw [Nat.add_mul_div_left _ _ hpos, Nat.div_eq_of_lt hd, Nat.zero_add]
      rw [value, digits, hlow, hhigh, ih]

/-- **Counting is a bijection.** -/
theorem digits_bijOn {radices : List ℕ} (hpos : ∀ radix ∈ radices, 0 < radix) :
    Set.BijOn (digits radices) {n | n < radices.prod} {ds | Below ds radices} := by
  refine ⟨fun n _ => digits_below hpos n, fun n hn n' hn' heq => ?_, fun ds hds => ?_⟩
  · rw [← value_digits hn, heq, value_digits hn']
  · exact ⟨value radices ds, value_lt hds, digits_value hds⟩

end MixedRadix
