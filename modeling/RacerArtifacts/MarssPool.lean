import RacerArtifacts.LibDoubling
import RacerArtifacts.MarssLenet

/-! `mvmulForPool` of the LeNet program, its rows in any order. What is meant is the product over
maximum and bit-wise AND, the semiring that the program for RACER names for the same layer. The
assignment adds the maximum to the cell it was taken with, so that a cell doubles at every column whose
product is not above it. -/

namespace RacerArtifacts.Marss.Lenet

open Sweep Doubling

/-- `max` -/
def max (a b : Byte) : Byte :=
  if a ≥ b then a else b

/-- The body of the parallel loop of `mvmulForPool`. -/
def mvmulForPoolRow (Mat vec : ℕ → Byte) (M n : ℕ) (out : ℕ → Byte) : ℕ → Byte :=
  accumulate (fun m v => v + max (Mat (M * n + m) &&& vec m) v) n (List.range M) out

/-- The iterations of the parallel loop of `mvmulForPool`; the dimensions are `int`s, and a negative one is a
loop of none. -/
def mvmulForPoolRows (N : ℕ) : List ℕ :=
  List.range N

/-- `mvmulForPool`, its rows executed in the given order. -/
def mvmulForPool (Mat vec : ℕ → Byte) (M : ℕ) (order : List ℕ) (out : ℕ → Byte) : ℕ → Byte :=
  sweep (mvmulForPoolRow Mat vec M) order out

/-- Every index of the matrix, `M * n + m`, is an `int`. -/
def Indexed (M N : ℕ) : Prop :=
  ∀ n < N, ∀ m < M, M * n + m < 2 ^ 31

/-- The products of row `n`, for bit-wise AND. -/
def andProduct (Mat vec : ℕ → Byte) (M n m : ℕ) : Byte :=
  Mat (M * n + m) &&& vec m

/-- What pooling is for: the largest product of row `n`. -/
def rowMax (Mat vec : ℕ → Byte) (M n : ℕ) : ℕ :=
  (Finset.range M).sup fun m => (andProduct Mat vec M n m).toNat

/-- A call is defined and leaves the largest products in cells that were zero, in every order of the rows. -/
def Pools (Mat vec : ℕ → Byte) (M N : ℕ) : Prop :=
  Indexed M N ∧ ∀ order, order.Perm (mvmulForPoolRows N) → ∀ n < N,
    (mvmulForPool Mat vec M order (fun _ => 0) n).toNat = rowMax Mat vec M n

/-- The cell of a row, from the value `v` on. -/
def poolRun (p : ℕ → Byte) (v : Byte) (M : ℕ) : Byte :=
  (List.range M).foldl (fun v m => v + max (p m) v) v

variable {Mat vec p : ℕ → Byte} {M N n : ℕ} {order : List ℕ}

theorem max_toNat (a b : Byte) : (max a b).toNat = Max.max a.toNat b.toNat := by
  unfold max
  by_cases hab : b ≤ a
  · rw [if_pos hab, Nat.max_eq_left (BitVec.le_def.mp hab)]
  · rw [if_neg hab, Nat.max_eq_right]
    exact (Nat.lt_of_not_le fun h => hab (BitVec.le_def.mpr h)).le

theorem max_zero (a : Byte) : max a 0 = a := by
  apply BitVec.eq_of_toNat_eq
  rw [max_toNat]
  exact Nat.max_zero _

theorem mvmulForPool_eq (Mat vec : ℕ → Byte) (M : ℕ) (horder : order.Perm (mvmulForPoolRows N))
    (out : ℕ → Byte) (c : ℕ) :
    mvmulForPool Mat vec M order out c =
      if c < N then poolRun (andProduct Mat vec M c) (out c) M else out c :=
  sweep_rows (fun n m v => v + max (andProduct Mat vec M n m) v) (List.range M) horder out c

/-- The cell adds the products that reach it and doubles at the others. -/
theorem poolRun_eq_run (p : ℕ → Byte) (v : Byte) (M : ℕ) :
    poolRun p v M = run (fun m v => v ≤ p m) p v M := by
  have hstep : ∀ (a v : Byte), v + max a v = if v ≤ a then v + a else v + v :=
    fun a v => apply_ite (v + ·) _ _ _
  unfold poolRun run
  simp only [hstep]

@[simp] theorem poolRun_zero (p : ℕ → Byte) (v : Byte) : poolRun p v 0 = v := rfl

theorem poolRun_succ (p : ℕ → Byte) (v : Byte) (n : ℕ) :
    poolRun p v (n + 1) = poolRun p v n + max (p n) (poolRun p v n) := by
  rw [poolRun, List.range_succ, List.foldl_append]
  rfl

theorem indexed_iff (M N : ℕ) : Indexed M N ↔ M * N ≤ 2 ^ 31 := by
  constructor
  · intro h
    by_cases hempty : M = 0 ∨ N = 0
    · rcases hempty with rfl | rfl
      · simp
      · simp
    · have hlast := h (N - 1) (by omega) (M - 1) (by omega)
      have hN : M * N = M * (N - 1) + M := by
        rw [← Nat.mul_succ]
        congr 1
        omega
      omega
  · intro h n hn m hm
    have hrow : M * (n + 1) ≤ M * N := Nat.mul_le_mul_left M hn
    rw [Nat.mul_succ] at hrow
    omega

theorem pools_iff_rows (Mat vec : ℕ → Byte) (M N : ℕ) :
    Pools Mat vec M N ↔
      M * N ≤ 2 ^ 31 ∧ ∀ n < N, (poolRun (andProduct Mat vec M n) 0 M).toNat = rowMax Mat vec M n := by
  rw [Pools, indexed_iff]
  apply and_congr_right
  intro _
  constructor
  · intro h n hn
    have hrow := h _ (List.Perm.refl _) n hn
    rwa [mvmulForPool_eq Mat vec M (List.Perm.refl _), if_pos hn] at hrow
  · intro h order horder n hn
    rw [mvmulForPool_eq Mat vec M horder, if_pos hn, h n hn]

theorem poolRun_zeros (hzero : ∀ m < n, p m = 0) : poolRun p 0 n = 0 := by
  induction n with
  | zero => exact poolRun_zero p 0
  | succ n ih =>
      rw [poolRun_succ, ih fun m hm => hzero m (hm.trans (Nat.lt_succ_self n)), hzero n (Nat.lt_succ_self n),
        max_zero, zero_add]

/-- Where all products before the last are zero, the cell ends with the last. -/
theorem poolRun_last (hzero : ∀ m < n, p m = 0) : poolRun p 0 (n + 1) = p n := by
  rw [poolRun_succ, poolRun_zeros hzero, max_zero, zero_add]

theorem sup_last (hzero : ∀ m < n, p m = 0) :
    ((Finset.range (n + 1)).sup fun m => (p m).toNat) = (p n).toNat := by
  have hrest : ((Finset.range n).sup fun m => (p m).toNat) = 0 := by
    apply Nat.eq_zero_of_le_zero
    apply Finset.sup_le
    intro m hm
    simp [hzero m (Finset.mem_range.mp hm)]
  rw [Finset.range_add_one, Finset.sup_insert, hrest]
  simp

theorem poolRun_eq_sup (hzero : ∀ m, m + 1 < M → p m = 0) :
    (poolRun p 0 M).toNat = (Finset.range M).sup fun m => (p m).toNat := by
  cases M with
  | zero => rfl
  | succ k =>
      have hbefore : ∀ m < k, p m = 0 := fun m hm => hzero m (by omega)
      rw [poolRun_last hbefore, sup_last hbefore]

theorem poolRun_doubles (v : Byte) (n d : ℕ) (hzero : ∀ m, n ≤ m → m < n + d → p m = 0) :
    poolRun p v (n + d) = 2 ^ d * poolRun p v n := by
  rw [poolRun_eq_run, poolRun_eq_run]
  apply run_double
  intro m hm hm' u hu
  rw [hzero m hm hm'] at hu
  have hu0 : u = 0 := BitVec.eq_of_toNat_eq (Nat.eq_zero_of_le_zero hu)
  rw [hzero m hm hm', hu0]

theorem two_pow_eight : (2 : Byte) ^ 8 = 0 := rfl

theorem poolRun_fades (v : Byte) (n : ℕ) (hlong : n + 8 ≤ M) (hzero : ∀ m, n ≤ m → m < M → p m = 0) :
    poolRun p v M = 0 := by
  obtain ⟨d, rfl⟩ : ∃ d, M = n + (8 + d) := ⟨M - n - 8, by omega⟩
  rw [poolRun_doubles v n (8 + d) hzero, pow_add, two_pow_eight, zero_mul, zero_mul]

theorem eq_zero_of_doubled {d : ℕ} {x : Byte} (hd : 0 < d) (hx : 2 ^ d * x = x) : x = 0 := by
  have hmany : ∀ j : ℕ, (2 ^ d) ^ j * x = x := by
    intro j
    induction j with
    | zero => rw [pow_zero, one_mul]
    | succ j ih => rw [pow_succ, mul_assoc, hx, ih]
  have hnone : ((2 : Byte) ^ d) ^ 8 = 0 := by
    rw [← pow_mul, mul_comm, pow_mul, two_pow_eight, zero_pow hd.ne']
  calc x = (2 ^ d) ^ 8 * x := (hmany 8).symm
    _ = 0 := by rw [hnone, zero_mul]

/-- A row of which one product is above zero doubles it at every later column. -/
theorem poolRun_single (hm : n < M) (hother : ∀ m, m ≠ n → p m = 0) :
    poolRun p 0 M = 2 ^ (M - 1 - n) * p n ∧ ((Finset.range M).sup fun m => (p m).toNat) = (p n).toNat := by
  have hbefore : ∀ m < n, p m = 0 := fun m hlt => hother m hlt.ne
  constructor
  · have hrun := poolRun_doubles 0 (n + 1) (M - 1 - n) fun m hle _ => hother m (by omega)
    rwa [show n + 1 + (M - 1 - n) = M by omega, poolRun_last hbefore] at hrun
  · apply le_antisymm
    · apply Finset.sup_le
      intro m _
      by_cases heq : m = n
      · rw [heq]
      · simp [hother m heq]
    · exact Finset.le_sup (f := fun m => (p m).toNat) (Finset.mem_range.mpr hm)

/-- A matrix pools every vector exactly if its entries before the last column are zero. -/
theorem pools_all_iff (Mat : ℕ → Byte) (M N : ℕ) :
    (∀ vec, Pools Mat vec M N) ↔ M * N ≤ 2 ^ 31 ∧ ∀ n < N, ∀ m, m + 1 < M → Mat (M * n + m) = 0 := by
  simp only [pools_iff_rows]
  constructor
  · intro h
    refine ⟨(h fun _ => 0).1, fun n hn m hm => ?_⟩
    -- The vector that lets this one entry through.
    let vec : ℕ → Byte := Function.update (fun _ => 0) m (BitVec.allOnes 8)
    have hproduct : andProduct Mat vec M n m = Mat (M * n + m) := by
      have hvec : vec m = BitVec.allOnes 8 := Function.update_self m _ _
      rw [andProduct, hvec, BitVec.and_allOnes]
    have hother : ∀ k, k ≠ m → andProduct Mat vec M n k = 0 := by
      intro k hk
      simp [andProduct, vec, hk]
    obtain ⟨hrun, hsup⟩ := poolRun_single (by omega : m < M) hother
    have hrow := (h vec).2 n hn
    rw [rowMax, hsup, hrun, hproduct] at hrow
    exact eq_zero_of_doubled (by omega) (BitVec.eq_of_toNat_eq hrow)
  · rintro ⟨hindex, hzero⟩ vec
    refine ⟨hindex, fun n hn => ?_⟩
    apply poolRun_eq_sup
    intro m hm
    simp [andProduct, hzero n hn m hm]

/-- All matrices pool exactly if there are no entries before the last column. -/
theorem pools_dimensions_iff (M N : ℕ) :
    (∀ Mat vec, Pools Mat vec M N) ↔ M * N ≤ 2 ^ 31 ∧ (M ≤ 1 ∨ N = 0) := by
  simp only [pools_all_iff]
  constructor
  · intro h
    refine ⟨(h fun _ => 0).1, ?_⟩
    by_contra hlarge
    push Not at hlarge
    have hone := (h fun _ => 1).2 0 (by omega) 0 (by omega)
    exact absurd hone (by decide)
  · rintro ⟨hindex, hempty⟩ Mat
    refine ⟨hindex, fun n hn m hm => ?_⟩
    omega

/-- The bound of a row: what it would come to if it doubled at every column and added every product. -/
def poolBound (p : ℕ → Byte) (M : ℕ) : ℕ :=
  ∑ m ∈ Finset.range M, 2 ^ (M - 1 - m) * (p m).toNat

theorem poolBound_succ (p : ℕ → Byte) (M : ℕ) : poolBound p (M + 1) = 2 * poolBound p M + (p M).toNat := by
  rw [poolBound, Finset.sum_range_succ, poolBound, Finset.mul_sum]
  congr 1
  · apply Finset.sum_congr rfl
    intro m hm
    have hexp : M + 1 - 1 - m = M - 1 - m + 1 := by
      have := Finset.mem_range.mp hm
      omega
    rw [hexp, pow_succ]
    ring
  · simp

/-- A row that stays in the range of a byte only grows: it reaches every product, and what it has doubles. -/
theorem poolRun_grows (hrange : poolBound p M < 256) :
    (poolRun p 0 M).toNat ≤ poolBound p M ∧ (∀ m < M, (p m).toNat ≤ (poolRun p 0 M).toNat) ∧
      ∀ k, k + 1 = M →
        (poolRun p 0 M).toNat = (poolRun p 0 k).toNat + Max.max (p k).toNat (poolRun p 0 k).toNat := by
  induction M with
  | zero => simp
  | succ M ih =>
      rw [poolBound_succ] at hrange
      obtain ⟨hle, hreach, -⟩ := ih (by omega)
      have hstep : (poolRun p 0 (M + 1)).toNat =
          (poolRun p 0 M).toNat + Max.max (p M).toNat (poolRun p 0 M).toNat := by
        rw [poolRun_succ, BitVec.toNat_add, max_toNat, Nat.mod_eq_of_lt]
        omega
      refine ⟨?_, fun m hm => ?_, fun k hk => ?_⟩
      · rw [poolBound_succ, hstep]
        omega
      · rcases Nat.lt_succ_iff_lt_or_eq.mp hm with hlt | rfl
        · have := hreach m hlt
          omega
        · omega
      · obtain rfl : k = M := by omega
        exact hstep

/-- A row in the range of a byte comes out exactly if its products before the last are zero. -/
theorem poolRun_eq_sup_iff (hrange : poolBound p M < 256) :
    (poolRun p 0 M).toNat = ((Finset.range M).sup fun m => (p m).toNat) ↔ ∀ m, m + 1 < M → p m = 0 := by
  refine ⟨fun hsup m hm => ?_, poolRun_eq_sup⟩
  obtain ⟨k, rfl⟩ : ∃ k, M = k + 1 := ⟨M - 1, by omega⟩
  obtain ⟨-, -, hlast⟩ := poolRun_grows hrange
  rw [poolBound_succ] at hrange
  obtain ⟨-, hreach, -⟩ := poolRun_grows (by omega : poolBound p k < 256)
  have hrest : ((Finset.range k).sup fun m => (p m).toNat) ≤ (poolRun p 0 k).toNat := by
    apply Finset.sup_le
    intro j hj
    exact hreach j (Finset.mem_range.mp hj)
  have hzero : (poolRun p 0 k).toNat = 0 := by
    rw [hlast k rfl, Finset.range_add_one, Finset.sup_insert] at hsup
    omega
  have hm0 := hreach m (by omega)
  exact BitVec.eq_of_toNat_eq (by rw [hzero] at hm0; exact Nat.eq_zero_of_le_zero hm0)

/-- **When pooling pools**. For all contents: when there is no column before the last. For a matrix and all
vectors: when the entries before the last column are zero. On given contents, while nothing wraps: when all
products before the last column are zero; and whatever wraps: when, on every row, some set of columns is at
once the set of those whose product is not below the weighted sum of its products before it, and has the row's
largest product as its weighted sum, modulo 256. -/
theorem mvmulForPool_pools_iff (M N : ℕ) :
    ((∀ Mat vec, Pools Mat vec M N) ↔ M * N ≤ 2 ^ 31 ∧ (M ≤ 1 ∨ N = 0)) ∧
      (∀ Mat, (∀ vec, Pools Mat vec M N) ↔ M * N ≤ 2 ^ 31 ∧ ∀ n < N, ∀ m, m + 1 < M → Mat (M * n + m) = 0) ∧
      (∀ Mat vec, (∀ n < N, poolBound (andProduct Mat vec M n) M < 256) →
        (Pools Mat vec M N ↔ M * N ≤ 2 ^ 31 ∧ ∀ n < N, ∀ m, m + 1 < M → andProduct Mat vec M n m = 0)) ∧
      ∀ Mat vec, Pools Mat vec M N ↔ M * N ≤ 2 ^ 31 ∧ ∀ n < N,
        ∃ T, Marks (fun m v => v ≤ andProduct Mat vec M n m) (andProduct Mat vec M n) M T ∧
          (weighted T (andProduct Mat vec M n) M).toNat = rowMax Mat vec M n := by
  refine ⟨pools_dimensions_iff M N, fun Mat => pools_all_iff Mat M N, fun Mat vec hrange => ?_,
    fun Mat vec => ?_⟩
  · rw [pools_iff_rows]
    apply and_congr_right
    intro _
    apply forall₂_congr
    intro n hn
    exact poolRun_eq_sup_iff (hrange n hn)
  · rw [pools_iff_rows]
    apply and_congr_right
    intro _
    apply forall₂_congr
    intro n _
    rw [poolRun_eq_run]
    exact run_iff fun x : Byte => x.toNat = rowMax Mat vec M n

/-- A row whose second product alone is above zero. -/
theorem mvmulForPool_pools_iff_last :
    (∀ n < 1, poolBound (andProduct (fun k => if k = 1 then 5 else 0) (fun _ => 7) 2 n) 2 < 256) ∧
      Pools (fun k => if k = 1 then 5 else 0) (fun _ => 7) 2 1 := by
  have hrange : ∀ n < 1, poolBound (andProduct (fun k => if k = 1 then 5 else 0) (fun _ => 7) 2 n) 2 <
      256 := by
    decide
  refine ⟨hrange, ((mvmulForPool_pools_iff 2 1).2.2.1 _ _ hrange).mpr ⟨by decide, fun n hn m hm => ?_⟩⟩
  obtain rfl : n = 0 := by omega
  obtain rfl : m = 0 := by omega
  rfl

/-- A row of two columns, of which the first alone has a product above zero, `1`: the second one
doubles it. -/
theorem mvmulForPool_doubles :
    (mvmulForPool (fun k => if k = 0 then 1 else 0) (fun k => if k = 0 then 1 else 0) 2 [0]
      (fun _ => 0) 0).toNat = 2 ∧
      ¬ Pools (fun k => if k = 0 then 1 else 0) (fun k => if k = 0 then 1 else 0) 2 1 := by
  refine ⟨by decide, fun h => ?_⟩
  have hrow := h.2 [0] (List.Perm.refl _) 0 (by decide)
  exact absurd hrow (by decide)

end RacerArtifacts.Marss.Lenet
