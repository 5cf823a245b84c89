import RacerArtifacts.LibFallible
import RacerArtifacts.LibSweep

/-! The kernel of `mmul`, its rows in any order, and that of `mvmul`, the same with one column. The entries
are 16-bit values without a sign; before they are multiplied they become `int`s, whose product and sum have to
be in range. The indices are `int`s too; they lie below the sizes of the arrays, `M * K`, `K * N` and `M * N`,
which `main` computes as `int`s before. -/

namespace RacerArtifacts.Marss.Mmul

open Fallible Sweep

/-- `unsigned short` -/
abbrev Datatype := BitVec 16

/-- A result that is no `int`: the behaviour of the program is undefined. -/
structure IntOverflow where
  result : ℤ
  deriving DecidableEq, Repr

/-- The result of an operation on `int`s. -/
def int (z : ℤ) : Except IntOverflow ℤ :=
  if -2 ^ 31 ≤ z ∧ z < 2 ^ 31 then .ok z else .error ⟨z⟩

/-- `c += a * b` -/
def addProduct (c a b : Datatype) : Except IntOverflow Datatype := do
  let product ← int (a.toNat * b.toNat)
  let sum ← int (c.toNat + product)
  pure (BitVec.ofInt 16 sum)

/-- The body of the loop over the columns. -/
def column (A B : ℕ → Datatype) (N K m k : ℕ) (C : ℕ → Datatype) (n : ℕ) :
    Except IntOverflow (ℕ → Datatype) :=
  (addProduct (C (N * m + n)) (A (K * m + k)) (B (N * k + n))).map (Function.update C (N * m + n))

/-- The body of the parallel loop. -/
def row (A B : ℕ → Datatype) (N K : ℕ) (C : ℕ → Datatype) (m : ℕ) : Except IntOverflow (ℕ → Datatype) :=
  (List.range K).foldlM (fun C k => (List.range N).foldlM (column A B N K m k) C) C

/-- The kernel of `mmul`, its rows executed in the given order. -/
def mmul (A B : ℕ → Datatype) (N K : ℕ) (order : List ℕ) (C : ℕ → Datatype) :
    Except IntOverflow (ℕ → Datatype) :=
  order.foldlM (row A B N K) C

/-- The kernel of `mvmul`, its rows executed in the given order. -/
def mvmul (A x : ℕ → Datatype) (M : ℕ) (order : List ℕ) (c : ℕ → Datatype) :
    Except IntOverflow (ℕ → Datatype) :=
  order.foldlM (fun c n => (List.range M).foldlM
    (fun c m => (addProduct (c n) (A (M * n + m)) (x m)).map (Function.update c n)) c) c

/-- The sum of the first `k` products for an entry. -/
def partialSum (A B : ℕ → Datatype) (N K m n k : ℕ) : ℕ :=
  ∑ j ∈ Finset.range k, (A (K * m + j)).toNat * (B (N * j + n)).toNat

/-- The kernel computes the product of the matrices modulo `2 ^ 16`, with all results of `int`s in range. -/
def Computes (A B : ℕ → Datatype) (M N K : ℕ) (order : List ℕ) : Prop :=
  ∃ C, mmul A B N K order (fun _ => 0) = .ok C ∧
    ∀ m < M, ∀ n < N, (C (N * m + n)).toNat = partialSum A B N K m n K % 2 ^ 16

/-- No addition of a product to what an entry has, which is the sum before it modulo `2 ^ 16`, is
out of range. -/
def RowFits (A B : ℕ → Datatype) (N K m : ℕ) : Prop :=
  ∀ k < K, ∀ n < N,
    partialSum A B N K m n k % 2 ^ 16 + (A (K * m + k)).toNat * (B (N * k + n)).toNat < 2 ^ 31

variable {A B C C' : ℕ → Datatype} {M N K m k : ℕ} {order : List ℕ}

/-- The promoted operation is in range exactly when its sum is below `2 ^ 31`, and it is the operation modulo
`2 ^ 16` then. -/
theorem addProduct_eq (c a b : Datatype) :
    (c.toNat + a.toNat * b.toNat < 2 ^ 31 → addProduct c a b = .ok (c + a * b)) ∧
      (¬ c.toNat + a.toNat * b.toNat < 2 ^ 31 → ∃ e, addProduct c a b = .error e) := by
  have hproduct : (a.toNat * b.toNat : ℤ) = (a.toNat * b.toNat : ℕ) := (Nat.cast_mul _ _).symm
  have hint : ∀ n : ℕ, (n < 2 ^ 31 → int n = .ok (n : ℤ)) ∧ (¬ n < 2 ^ 31 → int n = .error ⟨n⟩) := by
    intro n
    constructor
    · intro hn
      exact if_pos (by omega)
    · intro hn
      exact if_neg (by omega)
  rw [addProduct, hproduct]
  constructor
  · intro hsum
    rw [(hint _).1 (by omega), ok_bind, ← Nat.cast_add, (hint _).1 hsum, ok_bind, BitVec.ofInt_natCast,
      BitVec.ofNat_add, BitVec.ofNat_mul]
    simp only [BitVec.ofNat_toNat, BitVec.setWidth_eq]
    rfl
  · intro hsum
    by_cases hrange : a.toNat * b.toNat < 2 ^ 31
    · rw [(hint _).1 hrange, ok_bind, ← Nat.cast_add, (hint _).2 hsum]
      exact ⟨_, rfl⟩
    · rw [(hint _).2 hrange]
      exact ⟨_, rfl⟩

/-- A row while its entries for `k` are computed: the first `n` of them have one product more. -/
structure RowAt (A B : ℕ → Datatype) (N K m : ℕ) (C₀ : ℕ → Datatype) (k n : ℕ) (C : ℕ → Datatype) : Prop where
  entry : ∀ i < N, C (N * m + i) = BitVec.ofNat 16 (partialSum A B N K m i (if i < n then k + 1 else k))
  other : ∀ c, (∀ i < N, c ≠ N * m + i) → C c = C₀ c

theorem partialSum_succ (A B : ℕ → Datatype) (N K m n k : ℕ) :
    partialSum A B N K m n (k + 1) = partialSum A B N K m n k + (A (K * m + k)).toNat *
    (B (N * k + n)).toNat :=
  Finset.sum_range_succ _ k

/-- One entry: it goes through exactly if its sum is in range. -/
theorem RowAt.column {C₀ : ℕ → Datatype} {n : ℕ} (h : RowAt A B N K m C₀ k n C) (hn : n < N) :
    (partialSum A B N K m n k % 2 ^ 16 + (A (K * m + k)).toNat * (B (N * k + n)).toNat < 2 ^ 31 →
        ∃ C', column A B N K m k C n = .ok C' ∧ RowAt A B N K m C₀ k (n + 1) C') ∧
      (¬ partialSum A B N K m n k % 2 ^ 16 + (A (K * m + k)).toNat * (B (N * k + n)).toNat < 2 ^ 31 →
        ∃ e, column A B N K m k C n = .error e) := by
  have hentry : C (N * m + n) = BitVec.ofNat 16 (partialSum A B N K m n k) := by
    rw [h.entry n hn, if_neg (lt_irrefl n)]
  have hvalue : (C (N * m + n)).toNat = partialSum A B N K m n k % 2 ^ 16 := by
    rw [hentry, BitVec.toNat_ofNat]
  obtain ⟨hfits, hfails⟩ := addProduct_eq (C (N * m + n)) (A (K * m + k)) (B (N * k + n))
  rw [hvalue] at hfits hfails
  constructor
  · intro hrange
    refine ⟨_, by rw [Mmul.column, hfits hrange]; rfl, fun i hi => ?_, fun c hc => ?_⟩
    · by_cases heq : i = n
      · subst heq
        rw [Function.update_self, if_pos (Nat.lt_succ_self i), partialSum_succ, BitVec.ofNat_add,
          BitVec.ofNat_mul,
          ← hentry]
        simp
      · have hne : N * m + i ≠ N * m + n := fun hbad => heq (Nat.add_left_cancel hbad)
        rw [Function.update_of_ne hne, h.entry i hi]
        congr 2
        apply if_congr _ rfl rfl
        omega
    · rw [Function.update_of_ne (hc n hn)]
      exact h.other c hc
  · intro hrange
    obtain ⟨e, he⟩ := hfails hrange
    exact ⟨e, by rw [Mmul.column, he]; rfl⟩

/-- A row of zeros: it goes through exactly if it fits, and has its sums then. -/
theorem row_guarded {C₀ : ℕ → Datatype} (hzero : ∀ n < N, C₀ (N * m + n) = 0) :
    (RowFits A B N K m → ∃ C', row A B N K C₀ m = .ok C' ∧ RowAt A B N K m C₀ K 0 C') ∧
      (¬ RowFits A B N K m → ∃ e, row A B N K C₀ m = .error e) := by
  have hstart : RowAt A B N K m C₀ 0 0 C₀ := by
    refine ⟨fun i hi => ?_, fun c _ => rfl⟩
    rw [hzero i hi, if_neg (Nat.not_lt_zero i)]
    rfl
  apply foldlM_range_guarded (P := fun k C => RowAt A B N K m C₀ k 0 C) hstart
  intro k _ C hC
  obtain ⟨hall, hsome⟩ := foldlM_range_guarded hC fun n hn C h => h.column hn
  refine ⟨fun hfits => ?_, hsome⟩
  obtain ⟨C', hloop, hC'⟩ := hall hfits
  refine ⟨C', hloop, fun i hi => ?_, hC'.other⟩
  rw [hC'.entry i hi, if_pos hi, if_neg (Nat.not_lt_zero i)]

theorem cell_ne {m m' i i' : ℕ} (hi : i < N) (hi' : i' < N) (hne : m ≠ m') : N * m + i ≠ N * m' + i' := by
  rw [mul_comm N m, mul_comm N m']
  exact block_ne hi hi' hne

/-- The array when some rows have been computed. -/
structure RowsDone (A B : ℕ → Datatype) (N K : ℕ) (done : List ℕ) (C : ℕ → Datatype) : Prop where
  sums : ∀ m ∈ done, ∀ n < N, C (N * m + n) = BitVec.ofNat 16 (partialSum A B N K m n K)
  zeros : ∀ c, (∀ m ∈ done, ∀ n < N, c ≠ N * m + n) → C c = 0

theorem RowsDone.row {done : List ℕ} (h : RowsDone A B N K done C) (hnew : m ∉ done) :
    (RowFits A B N K m → ∃ C', row A B N K C m = .ok C' ∧ RowsDone A B N K (done ++ [m]) C') ∧
      (¬ RowFits A B N K m → ∃ e, row A B N K C m = .error e) := by
  have hapart : ∀ m' ∈ done, ∀ i < N, ∀ i' < N, N * m + i ≠ N * m' + i' := fun m' hm' i hi i' hi' =>
    cell_ne hi hi' (ne_of_mem_of_not_mem hm' hnew).symm
  have hzero : ∀ n < N, C (N * m + n) = 0 := fun n hn =>
    h.zeros _ fun m' hm' n' hn' => hapart m' hm' n hn n' hn'
  obtain ⟨hgood, hbad⟩ := row_guarded (A := A) (B := B) (K := K) hzero
  refine ⟨fun hfits => ?_, hbad⟩
  obtain ⟨C', hC', hat⟩ := hgood hfits
  refine ⟨C', hC', fun m' hm' n hn => ?_, fun c hc => ?_⟩
  · rcases List.mem_append.mp hm' with hm' | hm'
    · rw [hat.other _ fun i hi => (hapart m' hm' i hi n hn).symm]
      exact h.sums m' hm' n hn
    · rw [List.mem_singleton.mp hm', hat.entry n hn, if_neg (Nat.not_lt_zero n)]
  · rw [hat.other c fun i hi => hc m (by simp) i hi]
    exact h.zeros c fun m' hm' => hc m' (List.mem_append_left _ hm')

/-- The rows in a given order: they go through exactly if each of them fits, and have their sums then. -/
theorem mmul_guarded (hnodup : order.Nodup) :
    ((∀ m ∈ order, RowFits A B N K m) →
        ∃ C, mmul A B N K order (fun _ => 0) = .ok C ∧ RowsDone A B N K order C) ∧
      (¬ (∀ m ∈ order, RowFits A B N K m) → ∃ e, mmul A B N K order (fun _ => 0) = .error e) := by
  have hstart : RowsDone A B N K [] fun _ => 0 := ⟨fun m hm => absurd hm List.not_mem_nil, fun c _ => rfl⟩
  have hstep : ∀ before m after, order = before ++ m :: after → ∀ C, RowsDone A B N K before C →
      (RowFits A B N K m → ∃ C', row A B N K C m = .ok C' ∧ RowsDone A B N K (before ++ [m]) C') ∧
        (¬ RowFits A B N K m → ∃ e, row A B N K C m = .error e) := by
    intro before m after heq C h
    apply h.row
    intro hmem
    rw [heq] at hnodup
    exact List.disjoint_of_nodup_append hnodup hmem List.mem_cons_self
  exact foldlM_guarded hstart hstep

/-- In a given order the kernel computes the product exactly if every row fits. -/
theorem computes_iff_fits (horder : order.Perm (List.range M)) :
    Computes A B M N K order ↔ ∀ m < M, RowFits A B N K m := by
  have hmem : ∀ m, m ∈ order ↔ m < M := fun m => horder.mem_iff.trans List.mem_range
  obtain ⟨hgood, hbad⟩ := mmul_guarded (A := A) (B := B) (N := N) (K := K)
      (horder.nodup_iff.mpr List.nodup_range)
  simp only [hmem] at hgood hbad
  constructor
  · rintro ⟨C, hC, -⟩
    by_contra hfits
    obtain ⟨e, he⟩ := hbad hfits
    rw [hC] at he
    cases he
  · intro hfits
    obtain ⟨C, hC, hdone⟩ := hgood hfits
    refine ⟨C, hC, fun m hm n hn => ?_⟩
    rw [hdone.sums m ((hmem m).mpr hm) n hn, BitVec.toNat_ofNat]

/-- The product with a vector is the product with a matrix of one column. -/
theorem mvmul_eq_mmul (A x : ℕ → Datatype) (M : ℕ) (order : List ℕ) (c : ℕ → Datatype) :
    mvmul A x M order c = mmul A x 1 M order c := by
  unfold mvmul mmul row column
  simp

/-- **When the kernel of `mmul` computes the product**, in every order of its rows: exactly if at each of its
256 columns no product, added to what the products before it have left modulo `2 ^ 16`, comes to `2 ^ 31`. -/
theorem mmul_computes_iff (M K : ℕ) (A B : ℕ → Datatype) (order : List ℕ)
    (horder : order.Perm (List.range M)) :
    Computes A B M 256 K order ↔ ∀ m < M, ∀ k < K, ∀ n < 256,
      (∑ j ∈ Finset.range k, (A (K * m + j)).toNat * (B (256 * j + n)).toNat) % 2 ^ 16 +
        (A (K * m + k)).toNat * (B (256 * k + n)).toNat < 2 ^ 31 :=
  computes_iff_fits horder

/-- The product of matrices of threes is computed, and that of the largest entries is not. -/
theorem mmul_computes_iff_largest :
    Computes (fun _ => 3) (fun _ => 3) 2 256 2 [1, 0] ∧
      ¬ Computes (fun _ => 65535) (fun _ => 65535) 2 256 1 [1, 0] := by
  constructor
  · refine (mmul_computes_iff 2 2 (fun _ => 3) (fun _ => 3) [1, 0] (by decide)).mpr fun m _ k _ n _ => ?_
    change _ + 3 * 3 < 2 ^ 31
    have := Nat.mod_lt (∑ j ∈ Finset.range k, (3 : Datatype).toNat * (3 : Datatype).toNat)
        (show 0 < 2 ^ 16 by decide)
    omega
  · intro hcomputes
    have hfits := (mmul_computes_iff 2 1 (fun _ => 65535) (fun _ => 65535) [1, 0] (by decide)).mp hcomputes 0
        (by decide)
      0 (by decide) 0 (by decide)
    exact absurd hfits (by decide)

/-- One row and one column of the largest entry: their product is no `int`. -/
theorem mmul_overflows :
    ¬ ∀ M K, 1 ≤ M → 1 ≤ K → ∀ A B : ℕ → Datatype, ∀ order : List ℕ, order.Perm (List.range M) →
      Computes A B M 256 K order := by
  intro h
  have hfits := (computes_iff_fits (by decide)).mp
    (h 1 1 le_rfl le_rfl (fun _ => 65535) (fun _ => 65535) [0] (by decide)) 0 (by decide) 0
    (by decide) 0 (by decide)
  exact absurd hfits (by decide)

end RacerArtifacts.Marss.Mmul
