import RacerArtifacts.LibSweep

/-! `mvmul` of the LeNet program: a matrix-vector product of bytes, the rows in any order. The dimensions
are parameters of the type `uint8_t`; the matrix, the vector and the product are separate arrays. -/

namespace RacerArtifacts.Marss.Lenet

open Sweep

/-- `uint8_t` -/
abbrev Byte := BitVec 8

/-- The conversion of an `int` argument to a parameter of the type `uint8_t`. -/
def toByte (v : ℕ) : Byte :=
  BitVec.ofNat 8 v

/-- The body of the parallel loop of `mvmul`. -/
def mvmulRow (Mat vec : ℕ → Byte) (M : Byte) (n : ℕ) (out : ℕ → Byte) : ℕ → Byte :=
  accumulate (fun m v => v + Mat (M.toNat * n + m) * vec m) n (List.range M.toNat) out

/-- The iterations of the parallel loop of `mvmul`. -/
def mvmulRows (N : Byte) : List ℕ :=
  List.range N.toNat

/-- `mvmul`, its rows executed in the given order. -/
def mvmul (Mat vec : ℕ → Byte) (M : Byte) (order : List ℕ) (out : ℕ → Byte) : ℕ → Byte :=
  sweep (mvmulRow Mat vec M) order out

/-- The dimensions of the calls of `mvmul` in `layer1`, `layer2`, `layer3` and `main`. -/
def callSites : List (ℕ × ℕ) :=
  [(1024, 784), (196, 100 * 6), (25, 1 * 16), (120, 84), (84, 10)]

/-- The product of row `n`, for the row stride and the width `M`. -/
def rowProduct (Mat vec : ℕ → Byte) (M n : ℕ) : Byte :=
  ∑ m ∈ Finset.range M, Mat (M * n + m) * vec m

/-- What `mvmul` is for: each of the first `N` cells gets the product of its row. -/
def addProduct (Mat vec : ℕ → Byte) (M N : ℕ) (out : ℕ → Byte) : ℕ → Byte := fun n =>
  if n < N then out n + rowProduct Mat vec M n else out n

/-- A call with the dimensions `M` and `N` computes the product, in every order of the rows. -/
def Computes (Mat vec : ℕ → Byte) (M N : ℕ) (out : ℕ → Byte) : Prop :=
  ∀ order, order.Perm (mvmulRows (toByte N)) →
    mvmul Mat vec (toByte M) order out = addProduct Mat vec M N out

variable {Mat vec : ℕ → Byte} {M N : ℕ} {order : List ℕ}

theorem toByte_toNat (v : ℕ) : (toByte v).toNat = v % 256 :=
  BitVec.toNat_ofNat v 8

/-- What the code computes: the product for the dimensions that arrive. -/
theorem mvmul_eq (Mat vec : ℕ → Byte) (M N : Byte) (horder : order.Perm (mvmulRows N)) (out : ℕ → Byte) :
    mvmul Mat vec M order out = addProduct Mat vec M.toNat N.toNat out := by
  funext c
  have hrow := sweep_rows (fun n m v => v + Mat (M.toNat * n + m) * vec m) (List.range M.toNat) horder out c
  rw [foldl_range_add] at hrow
  exact hrow

/-- A call computes its product when the products of the rows come out for the dimensions that arrive. -/
theorem computes_iff_rows (Mat vec : ℕ → Byte) (M N : ℕ) (out : ℕ → Byte) :
    Computes Mat vec M N out ↔
      ∀ n < N, rowProduct Mat vec M n = if n < N % 256 then rowProduct Mat vec (M % 256) n else 0 := by
  have hresult : Computes Mat vec M N out ↔
      addProduct Mat vec (M % 256) (N % 256) out = addProduct Mat vec M N out := by
    simp only [Computes, ← toByte_toNat]
    constructor
    · intro h
      rw [← h _ (List.Perm.refl _), mvmul_eq Mat vec (toByte M) (toByte N) (List.Perm.refl _)]
    · intro h order horder
      rw [mvmul_eq Mat vec (toByte M) (toByte N) horder, h]
  rw [hresult, funext_iff]
  apply forall_congr'
  intro n
  unfold addProduct
  by_cases hn : n < N
  · rw [if_pos hn, forall_prop_of_true hn]
    by_cases hn' : n < N % 256
    · rw [if_pos hn', if_pos hn', add_right_inj]
      exact eq_comm
    · rw [if_neg hn', if_neg hn']
      exact left_eq_add
  · have hn' : ¬ n < N % 256 := fun h => hn (h.trans_le (Nat.mod_le N 256))
    simp [hn, hn']

/-- The matrix and the vector of one entry: `1` in row `n` of the matrix, in the last of its `M` columns. -/
def cornerMat (M n : ℕ) : ℕ → Byte := fun k => if k = M * n + (M - 1) then 1 else 0

def cornerVec (M : ℕ) : ℕ → Byte := fun m => if m = M - 1 then 1 else 0

theorem rowProduct_corner (hM : 0 < M) (n : ℕ) : rowProduct (cornerMat M n) (cornerVec M) M n = 1 := by
  unfold rowProduct
  rw [Finset.sum_eq_single (M - 1)]
  · simp [cornerMat, cornerVec]
  · intro m _ hne
    simp [cornerVec, hne]
  · intro hmem
    exact absurd (Finset.mem_range.mpr (Nat.sub_lt hM Nat.one_pos)) hmem

theorem rowProduct_cornerVec {width : ℕ} (hwidth : width < M) (Mat : ℕ → Byte) (n : ℕ) :
    rowProduct Mat (cornerVec M) width n = 0 := by
  apply Finset.sum_eq_zero
  intro m hm
  have hne : m ≠ M - 1 := by
    have := Finset.mem_range.mp hm
    omega
  simp [cornerVec, hne]

/-- The dimensions that arrive as they are sent, or that leave nothing to compute. -/
def Fits (M N : ℕ) : Prop :=
  (M < 256 ∧ N < 256) ∨ M = 0 ∨ N = 0

instance (M N : ℕ) : Decidable (Fits M N) :=
  inferInstanceAs (Decidable (_ ∨ _))

theorem computes_of_fits (hfits : Fits M N) (Mat vec out : ℕ → Byte) : Computes Mat vec M N out := by
  rw [computes_iff_rows]
  intro n hn
  rcases hfits with ⟨hM, hN⟩ | rfl | rfl
  · rw [Nat.mod_eq_of_lt hM, Nat.mod_eq_of_lt hN, if_pos hn]
  · simp [rowProduct]
  · exact absurd hn (Nat.not_lt_zero n)

/-- Dimensions that do not fit go wrong on one entry: in the last column of the first row where the row is
too long, in the last row where there are too many. -/
theorem exists_not_computes (hfits : ¬ Fits M N) : ∃ Mat vec, ∀ out, ¬ Computes Mat vec M N out := by
  simp only [Fits, not_or, not_and] at hfits
  obtain ⟨hlarge, hM, hN⟩ := hfits
  by_cases hM' : M < 256
  · have hlast : N - 1 < N ∧ ¬ N - 1 < N % 256 := by
      have := hlarge hM'
      have := Nat.mod_lt N (by decide : 0 < 256)
      omega
    refine ⟨cornerMat M (N - 1), cornerVec M, fun out h => ?_⟩
    have hrow := (computes_iff_rows _ _ M N out).mp h (N - 1) hlast.1
    rw [rowProduct_corner (Nat.pos_of_ne_zero hM), if_neg hlast.2] at hrow
    exact absurd hrow (by decide)
  · have hshort : M % 256 < M := by
      have := Nat.mod_lt M (by decide : 0 < 256)
      omega
    refine ⟨cornerMat M 0, cornerVec M, fun out h => ?_⟩
    have hrow := (computes_iff_rows _ _ M N out).mp h 0 (Nat.pos_of_ne_zero hN)
    rw [rowProduct_corner (Nat.pos_of_ne_zero hM), rowProduct_cornerVec hshort, ite_self] at hrow
    exact absurd hrow (by decide)

/-- **When `mvmul` computes the product**: on all contents, exactly for dimensions that fit into a byte; on
given contents, when every row's product comes out for the dimensions modulo 256 that arrive. Three of the
five calls have dimensions that fit. -/
theorem mvmul_computes_iff (M N : ℕ) :
    ((∀ Mat vec out, Computes Mat vec M N out) ↔ Fits M N) ∧
      (∀ Mat vec out, Computes Mat vec M N out ↔
        ∀ n < N, rowProduct Mat vec M n = if n < N % 256 then rowProduct Mat vec (M % 256) n else 0) ∧
      callSites.filter (fun (M, N) => Fits M N) = [(25, 16), (120, 84), (84, 10)] := by
  refine ⟨⟨fun h => ?_, fun h => computes_of_fits h⟩, fun Mat vec => computes_iff_rows Mat vec M N, by decide⟩
  by_contra hfits
  obtain ⟨Mat, vec, hwrong⟩ := exists_not_computes hfits
  exact hwrong (fun _ => 0) (h Mat vec _)

/-- The first layer's convolution: its rows are 1024 entries long, and none of them is read. -/
theorem mvmul_layer1_fails : ¬ ∀ Mat vec out, Computes Mat vec 1024 784 out := by
  intro h
  have hrow := (computes_iff_rows _ _ 1024 784 (fun _ => 0)).mp (h (cornerMat 1024 0) (cornerVec 1024) _) 0
    (by decide)
  rw [rowProduct_corner (by decide), rowProduct_cornerVec (by decide), ite_self] at hrow
  exact absurd hrow (by decide)

end RacerArtifacts.Marss.Lenet
