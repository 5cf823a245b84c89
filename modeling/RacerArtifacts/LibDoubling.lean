import Mathlib

/-! An accumulator that every step either adds to or doubles. From zero, its value is a weighted sum of what
was added: each summand counts twice for every doubling after it. -/

namespace RacerArtifacts.Doubling

variable {R : Type*} [CommSemiring R]

/-- The accumulator after the first `n` steps. -/
def run (adds : ℕ → R → Prop) [∀ k v, Decidable (adds k v)] (p : ℕ → R) (v : R) (n : ℕ) : R :=
  (List.range n).foldl (fun v k => if adds k v then v + p k else v + v) v

/-- The doublings between two steps, where the steps of `T` add. -/
def doublings (T : Finset ℕ) (j k : ℕ) : ℕ :=
  ((Finset.Ioo j k).filter (· ∉ T)).card

/-- The sum of the summands of `T` before `k`, each with its weight. -/
def weighted (T : Finset ℕ) (p : ℕ → R) (k : ℕ) : R :=
  ∑ j ∈ (Finset.range k).filter (· ∈ T), 2 ^ doublings T j k * p j

/-- The steps of `T` are those that add. -/
def Marks (adds : ℕ → R → Prop) (p : ℕ → R) (n : ℕ) (T : Finset ℕ) : Prop :=
  ∀ k < n, k ∈ T ↔ adds k (weighted T p k)

variable {adds : ℕ → R → Prop} [∀ k v, Decidable (adds k v)] {p : ℕ → R} {T : Finset ℕ} {j k n : ℕ}

@[simp] theorem run_zero (v : R) : run adds p v 0 = v := rfl

theorem run_succ (v : R) (n : ℕ) :
    run adds p v (n + 1) =
      if adds n (run adds p v n) then run adds p v n + p n else run adds p v n + run adds p v n := by
  rw [run, List.range_succ, List.foldl_append]
  rfl

/-- Steps that double, whatever they add, multiply by a power of two. -/
theorem run_double (v : R) (n d : ℕ) (hdouble : ∀ k, n ≤ k → k < n + d → ∀ u, adds k u → u + p k = u + u) :
    run adds p v (n + d) = 2 ^ d * run adds p v n := by
  induction d with
  | zero => simp
  | succ d ih =>
      have hstep : run adds p v (n + d + 1) = run adds p v (n + d) + run adds p v (n + d) := by
        rw [run_succ]
        split
        · rename_i hadds
          exact hdouble (n + d) (by omega) (by omega) _ hadds
        · rfl
      calc run adds p v (n + d + 1) = run adds p v (n + d) + run adds p v (n + d) := hstep
        _ = 2 * (2 ^ d * run adds p v n) := by
            rw [ih fun k hn hk => hdouble k hn (by omega), two_mul]
        _ = 2 ^ (d + 1) * run adds p v n := by ring

theorem doublings_self (T : Finset ℕ) (k : ℕ) : doublings T k (k + 1) = 0 := by
  rw [doublings, Finset.card_eq_zero, Finset.filter_eq_empty_iff]
  intro i hi
  have := Finset.mem_Ioo.mp hi
  omega

theorem Ioo_succ (hjk : j < k) : Finset.Ioo j (k + 1) = insert k (Finset.Ioo j k) := by
  ext i
  simp only [Finset.mem_Ioo, Finset.mem_insert]
  omega

theorem doublings_of_mem (hk : k ∈ T) (hjk : j < k) : doublings T j (k + 1) = doublings T j k := by
  rw [doublings, Ioo_succ hjk, Finset.filter_insert, if_neg (not_not_intro hk), doublings]

theorem doublings_of_notMem (hk : k ∉ T) (hjk : j < k) : doublings T j (k + 1) = doublings T j k + 1 := by
  rw [doublings, Ioo_succ hjk, Finset.filter_insert, if_pos hk, Finset.card_insert_of_notMem, doublings]
  simp

@[simp] theorem weighted_zero (T : Finset ℕ) (p : ℕ → R) : weighted T p 0 = 0 := rfl

theorem weighted_of_mem (hk : k ∈ T) (p : ℕ → R) : weighted T p (k + 1) = weighted T p k + p k := by
  rw [weighted, Finset.range_add_one, Finset.filter_insert, if_pos hk, Finset.sum_insert (by simp),
    doublings_self, pow_zero, one_mul, add_comm]
  congr 1
  apply Finset.sum_congr rfl
  intro j hj
  rw [doublings_of_mem hk (Finset.mem_range.mp (Finset.mem_of_mem_filter j hj))]

theorem weighted_of_notMem (hk : k ∉ T) (p : ℕ → R) :
    weighted T p (k + 1) = weighted T p k + weighted T p k := by
  rw [weighted, Finset.range_add_one, Finset.filter_insert, if_neg hk, weighted, ← Finset.sum_add_distrib]
  apply Finset.sum_congr rfl
  intro j hj
  rw [doublings_of_notMem hk (Finset.mem_range.mp (Finset.mem_of_mem_filter j hj))]
  ring

/-- The accumulator is the weighted sum over the steps that add. -/
theorem run_eq_weighted (hT : Marks adds p n T) : run adds p 0 n = weighted T p n := by
  induction n with
  | zero => simp
  | succ n ih =>
      have hvalue : run adds p 0 n = weighted T p n := ih fun k hk => hT k (hk.trans (Nat.lt_succ_self n))
      rw [run_succ, hvalue]
      by_cases hn : n ∈ T
      · rw [if_pos ((hT n (Nat.lt_succ_self n)).mp hn), weighted_of_mem hn]
      · rw [if_neg (mt (hT n (Nat.lt_succ_self n)).mpr hn), weighted_of_notMem hn]

theorem exists_marks (adds : ℕ → R → Prop) [∀ k v, Decidable (adds k v)] (p : ℕ → R) (n : ℕ) :
    ∃ T, Marks adds p n T := by
  let T := (Finset.range n).filter fun k => adds k (run adds p 0 k)
  have hmem : ∀ k < n, k ∈ T ↔ adds k (run adds p 0 k) := by
    intro k hk
    simp [T, hk]
  have hvalue : ∀ k ≤ n, weighted T p k = run adds p 0 k := by
    intro k hk
    induction k with
    | zero => rfl
    | succ k ih =>
        have hprev := ih (by omega)
        rw [run_succ]
        by_cases hT : k ∈ T
        · rw [if_pos ((hmem k hk).mp hT), weighted_of_mem hT, hprev]
        · rw [if_neg (mt (hmem k hk).mpr hT), weighted_of_notMem hT, hprev]
  refine ⟨T, fun k hk => ?_⟩
  rw [hmem k hk, hvalue k hk.le]

/-- A property of what the accumulator ends with is one of the summands and their marks. -/
theorem run_iff (P : R → Prop) : P (run adds p 0 n) ↔ ∃ T, Marks adds p n T ∧ P (weighted T p n) := by
  constructor
  · intro hP
    obtain ⟨T, hT⟩ := exists_marks adds p n
    exact ⟨T, hT, run_eq_weighted hT ▸ hP⟩
  · rintro ⟨T, hT, hP⟩
    rw [run_eq_weighted hT]
    exact hP

end RacerArtifacts.Doubling
