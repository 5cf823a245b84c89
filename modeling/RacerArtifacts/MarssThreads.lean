import RacerArtifacts.LibInterleaving
import RacerArtifacts.MarssMmul

/-! The kernels of `dft` and `mmul` at the grain of loads and stores. The parallel loop of `mmul` runs over
the rows, each of which has its entries to itself; that of `dft` runs over the columns, which all add to the
same entries. The indices are `int`s; they lie below the sizes of the arrays, which `main` computes as
`int`s before. -/

namespace RacerArtifacts.Marss.Threads

open Fallible Interleaving Mmul

variable {M N K : ℕ}

theorem nodup_iterations {α : Type*} {body : ℕ → List α} (hnodup : ∀ m, (body m).Nodup)
    (hdisjoint : ∀ m m' a, a ∈ body m → a ∈ body m' → m = m') (M : ℕ) :
    ((List.range M).flatMap body).Nodup := by
  rw [List.nodup_flatMap]
  refine ⟨fun m _ => hnodup m, List.nodup_range.imp fun {m m'} hne a ha ha' => hne (hdisjoint m m' a ha ha')⟩

/-! ### `mmul` -/

/-- The updates of one iteration of the parallel loop of `mmul`: row, column of `A` and column. -/
def mmulRow (N K m : ℕ) : List (ℕ × ℕ × ℕ) :=
  (List.range K).flatMap fun k => (List.range N).map fun n => (m, k, n)

def mmulEntry (N : ℕ) : ℕ × ℕ × ℕ → ℕ
  | (m, _, n) => N * m + n

def mmulTerm (A B : ℕ → Datatype) (N K : ℕ) : ℕ × ℕ × ℕ → Datatype
  | (m, k, n) => A (K * m + k) * B (N * k + n)

/-- The kernel of `mmul`, its accesses in the order of an execution. -/
def mmul (A B : ℕ → Datatype) (e : ParallelFor (mmulRow N K) M) (C : ℕ → Datatype) : ℕ → Datatype :=
  (execute (mmulEntry N) (mmulTerm A B N K) e.trace ⟨C, fun _ => 0⟩).cell

theorem mem_mmulRow {m : ℕ} {u : ℕ × ℕ × ℕ} : u ∈ mmulRow N K m ↔ ∃ k < K, ∃ n < N, u = (m, k, n) := by
  simp only [mmulRow, List.mem_flatMap, List.mem_map, List.mem_range, eq_comm]

theorem mmulRows_nodup (M N K : ℕ) : ((List.range M).flatMap (mmulRow N K)).Nodup := by
  refine nodup_iterations (fun m => nodup_iterations (fun k => ?_) (fun k k' u hu hu' => ?_) K)
    (fun m m' u hu hu' => ?_) M
  · exact List.nodup_range.map fun n n' heq => congrArg (fun u => u.2.2) heq
  · obtain ⟨n, _, rfl⟩ := List.mem_map.mp hu
    obtain ⟨n', _, heq⟩ := List.mem_map.mp hu'
    exact (congrArg (fun u => u.2.1) heq).symm
  · obtain ⟨k, _, n, _, rfl⟩ := mem_mmulRow.mp hu
    obtain ⟨k', _, n', _, heq⟩ := mem_mmulRow.mp hu'
    exact congrArg Prod.fst heq

theorem mmulEntry_private : ∀ m m' u v, u ∈ mmulRow N K m → v ∈ mmulRow N K m' →
    mmulEntry N v = mmulEntry N u →
    m' = m := by
  intro m m' u v hu hv hc
  obtain ⟨k, _, n, hn, rfl⟩ := mem_mmulRow.mp hu
  obtain ⟨k', _, n', hn', rfl⟩ := mem_mmulRow.mp hv
  by_contra hne
  exact cell_ne hn' hn hne hc

variable {A B C : ℕ → Datatype}

/-- What an execution leaves in the entries, and in the other cells. -/
theorem mmul_eq (A B : ℕ → Datatype) (e : ParallelFor (mmulRow N K) M) (C : ℕ → Datatype) :
    (∀ m < M, ∀ n < N, mmul A B e C (N * m + n) =
        C (N * m + n) + ∑ k ∈ Finset.range K, A (K * m + k) * B (N * k + n)) ∧
      ∀ c, (∀ m < M, ∀ n < N, c ≠ N * m + n) → mmul A B e C c = C c := by
  have hnodup := mmulRows_nodup M N K
  have huntorn : ¬ Torn (mmulEntry N) e.trace := e.untorn hnodup mmulEntry_private
  have hsum := (execute_untorn (e.ordered hnodup) huntorn (mmulTerm A B N K) ⟨C, fun _ => 0⟩).1
  constructor
  · intro m hm n hn
    have hstored : stored (mmulEntry N) e.trace (N * m + n) = (Finset.range K).image fun k => (m, k, n) := by
      ext u
      rw [mem_stored, e.store_mem_trace, Finset.mem_image]
      constructor
      · rintro ⟨⟨m', hm', hu⟩, hc⟩
        obtain ⟨k, hk, n', hn', rfl⟩ := mem_mmulRow.mp hu
        have hrow : m' = m := by
          by_contra hne
          exact cell_ne hn' hn hne hc
        subst hrow
        obtain rfl : n' = n := Nat.add_left_cancel hc
        exact ⟨k, Finset.mem_range.mpr hk, rfl⟩
      · rintro ⟨k, hk, rfl⟩
        exact ⟨⟨m, hm, mem_mmulRow.mpr ⟨k, Finset.mem_range.mp hk, n, hn, rfl⟩⟩, rfl⟩
    refine (hsum (N * m + n)).trans (congrArg (C (N * m + n) + ·) ?_)
    rw [hstored, Finset.sum_image]
    · rfl
    · intro k _ k' _ heq
      exact congrArg (fun u => u.2.1) heq
  · intro c hc
    have hstored : stored (mmulEntry N) e.trace c = ∅ := by
      apply Finset.eq_empty_of_forall_notMem
      intro u hu
      obtain ⟨hstore, hcell⟩ := mem_stored.mp hu
      obtain ⟨m, hm, hu⟩ := e.store_mem_trace.mp hstore
      obtain ⟨k, _, n, hn, rfl⟩ := mem_mmulRow.mp hu
      exact hc m hm n hn hcell.symm
    refine (hsum c).trans ?_
    rw [hstored, Finset.sum_empty, add_zero]

theorem ofNat_partialSum (A B : ℕ → Datatype) (N K m n k : ℕ) :
    BitVec.ofNat 16 (partialSum A B N K m n k) = ∑ j ∈ Finset.range k, A (K * m + j) * B (N * j + n) := by
  induction k with
  | zero => rfl
  | succ k ih =>
      rw [partialSum_succ, Finset.sum_range_succ, ← ih, BitVec.ofNat_add, BitVec.ofNat_mul]
      simp

/-- **The rows of `mmul` may be taken as wholes**: where the kernel goes through with its rows one after
the other, in any order, every execution of its loads and stores by any number of threads ends with the
same array. -/
theorem mmul_atomic (A B : ℕ → Datatype) (M N K : ℕ) (e : ParallelFor (mmulRow N K) M) (order : List ℕ)
    (horder : order.Perm (List.range M)) (C : ℕ → Datatype)
    (h : Mmul.mmul A B N K order (fun _ => 0) = .ok C) :
    mmul A B e (fun _ => 0) = C := by
  have hmem : ∀ m, m ∈ order ↔ m < M := fun m => horder.mem_iff.trans List.mem_range
  obtain ⟨hgood, hbad⟩ := mmul_guarded (A := A) (B := B) (N := N) (K := K)
      (horder.nodup_iff.mpr List.nodup_range)
  have hfits : ∀ m ∈ order, RowFits A B N K m := by
    by_contra hfits
    obtain ⟨err, herr⟩ := hbad hfits
    rw [h] at herr
    cases herr
  obtain ⟨C', hC', hdone⟩ := hgood hfits
  obtain rfl : C = C' := Except.ok.inj (h.symm.trans hC')
  obtain ⟨hentry, hother⟩ := mmul_eq A B e fun _ => 0
  funext c
  by_cases hc : ∃ m < M, ∃ n < N, c = N * m + n
  · obtain ⟨m, hm, n, hn, rfl⟩ := hc
    rw [hentry m hm n hn, hdone.sums m ((hmem m).mpr hm) n hn, ofNat_partialSum, zero_add]
  · push Not at hc
    rw [hother c hc, hdone.zeros c fun m hm => hc m ((hmem m).mp hm)]

/-- Two threads with a row each. -/
theorem mmul_atomic_two : ∃ (e : ParallelFor (mmulRow 2 2) 2) (C : ℕ → Datatype), e.threads = [[1], [0]] ∧
    Mmul.mmul (fun _ => 3) (fun _ => 5) 2 2 [0, 1] (fun _ => 0) = .ok C ∧
    mmul (fun _ => 3) (fun _ => 5) e (fun _ => 0) = C := by
  let e : ParallelFor (mmulRow 2 2) 2 := ⟨[[1], [0]], List.Perm.swap 0 1 [], _, interleaves_flatten _⟩
  have hfits : ∀ m < 2, RowFits (fun _ => 3) (fun _ => 5) 2 2 m := by
    intro m _ k _ n _
    have hsum := Nat.mod_lt (partialSum (fun _ => (3 : Datatype)) (fun _ => 5) 2 2 m n k)
        (by decide : 0 < 2 ^ 16)
    have hproduct : (3 : Datatype).toNat * (5 : Datatype).toNat = 15 := rfl
    rw [hproduct]
    omega
  obtain ⟨C, hC, -⟩ := (computes_iff_fits (List.Perm.refl [0, 1])).mpr hfits
  exact ⟨e, C, rfl, hC, mmul_atomic (fun _ => 3) (fun _ => 5) 2 2 2 e [0, 1] (List.Perm.refl _) C hC⟩

/-! ### `dft` -/

/-- The two parts of the transform: `Areal` and `creal`, `Aimag` and `cimag`. -/
inductive Part where
  | real
  | imag
  deriving DecidableEq, Repr

/-- The updates of one iteration of the parallel loop of `dft`. -/
def dftColumn (N m : ℕ) : List (ℕ × Part × ℕ) :=
  (List.range N).flatMap fun n => [(m, .real, n), (m, .imag, n)]

/-- The entry of `creal` or `cimag`. -/
def dftEntry : ℕ × Part × ℕ → Part × ℕ :=
  Prod.snd

def dftTerm (A : Part → ℕ → Datatype) (x : ℕ → Datatype) (M : ℕ) : ℕ × Part × ℕ → Datatype
  | (m, part, n) => A part (M * n + m) * x m

/-- One trial: the parallel loop. -/
def trial (A : Part → ℕ → Datatype) (x : ℕ → Datatype) (c : Part × ℕ → Datatype)
    (e : ParallelFor (dftColumn N) M) :
    Part × ℕ → Datatype :=
  (execute dftEntry (dftTerm A x M) e.trace ⟨c, fun _ => 0⟩).cell

/-- The kernel of `dft`, with an execution for each trial. -/
def dft (A : Part → ℕ → Datatype) (x : ℕ → Datatype) (trials : List (ParallelFor (dftColumn N) M)) :
    Part × ℕ → Datatype :=
  trials.foldl (trial A x) fun _ => 0

/-- The products leave room for an entry in an `int`. -/
def Fits (A : Part → ℕ → Datatype) (x : ℕ → Datatype) : Prop :=
  ∀ part k m, 65535 + (A part k).toNat * (x m).toNat < 2 ^ 31

/-- `A * x` at row `n` -/
def dftProduct (A : Part → ℕ → Datatype) (x : ℕ → Datatype) (M : ℕ) (part : Part) (n : ℕ) : Datatype :=
  ∑ m ∈ Finset.range M, A part (M * n + m) * x m

variable {A : Part → ℕ → Datatype} {x : ℕ → Datatype}

/-- Where the products fit, an update is the addition modulo `2 ^ 16`. -/
theorem Fits.addProduct (h : Fits A x) (c : Datatype) (part : Part) (k m : ℕ) :
    addProduct c (A part k) (x m) = .ok (c + A part k * x m) := by
  apply (addProduct_eq c (A part k) (x m)).1
  have hc : c.toNat < 2 ^ 16 := c.isLt
  have hproduct := h part k m
  omega

theorem mem_dftColumn {m : ℕ} {u : ℕ × Part × ℕ} : u ∈ dftColumn N m ↔ u.1 = m ∧ u.2.2 < N := by
  obtain ⟨m', part, n⟩ := u
  simp only [dftColumn, List.mem_flatMap, List.mem_range, List.mem_cons, List.not_mem_nil, or_false,
    Prod.mk.injEq]
  cases part <;> simp [and_comm]

theorem dftColumns_nodup (M N : ℕ) : ((List.range M).flatMap (dftColumn N)).Nodup := by
  refine nodup_iterations (fun m => nodup_iterations (fun n => by simp) (fun n n' u hu hu' => ?_) N)
    (fun m m' u hu hu' => ?_) M
  · simp only [List.mem_cons, List.not_mem_nil, or_false] at hu hu'
    rcases hu with rfl | rfl <;> simpa using hu'
  · rw [← (mem_dftColumn.mp hu).1, (mem_dftColumn.mp hu').1]

theorem stored_dft (e : ParallelFor (dftColumn N) M) (part : Part) {n : ℕ} (hn : n < N) :
    stored dftEntry e.trace (part, n) = (Finset.range M).image fun m => (m, part, n) := by
  ext u
  rw [mem_stored, e.store_mem_trace, Finset.mem_image]
  constructor
  · rintro ⟨⟨m, hm, hu⟩, hc⟩
    refine ⟨m, Finset.mem_range.mpr hm, ?_⟩
    rw [← (mem_dftColumn.mp hu).1, ← hc]
    rfl
  · rintro ⟨m, hm, rfl⟩
    exact ⟨⟨m, Finset.mem_range.mp hm, mem_dftColumn.mpr ⟨rfl, hn⟩⟩, rfl⟩

theorem sum_stored_dft (A : Part → ℕ → Datatype) (x : ℕ → Datatype) (e : ParallelFor (dftColumn N) M)
    (part : Part) {n : ℕ} (hn : n < N) :
    ∑ u ∈ stored dftEntry e.trace (part, n), dftTerm A x M u = dftProduct A x M part n := by
  rw [stored_dft e part hn, Finset.sum_image fun m _ m' _ heq => congrArg Prod.fst heq]
  rfl

theorem trial_untorn (e : ParallelFor (dftColumn N) M) (huntorn : ¬ Torn dftEntry e.trace)
    (c : Part × ℕ → Datatype)
    (part : Part) {n : ℕ} (hn : n < N) : trial A x c e (part, n) = c (part, n) + dftProduct A x M part n := by
  rw [← sum_stored_dft A x e part hn]
  exact (execute_untorn (e.ordered (dftColumns_nodup M N)) huntorn _ _).1 (part, n)

/-- A trial with a torn update does not, for some matrix of zeros and a one. -/
theorem trial_torn (e : ParallelFor (dftColumn N) M) (htorn : Torn dftEntry e.trace) :
    ∃ A x, Fits A x ∧ ∃ part, ∃ n < N, ∀ c,
      trial A x c e (part, n) ≠ c (part, n) + dftProduct A x M part n := by
  have hordered := e.ordered (dftColumns_nodup M N)
  obtain ⟨⟨m, part, n⟩, hstore, hlost⟩ : ∃ v, .store v ∈ e.trace ∧
      (execute dftEntry (fun u => if u = v then (1 : Datatype) else 0) e.trace ⟨fun _ => 0, fun _ => 0⟩).cell
        (dftEntry v) = 0 := lost_of_torn hordered e.ends htorn
  obtain ⟨m', hm, hu⟩ := e.store_mem_trace.mp hstore
  obtain ⟨rfl, hn⟩ := mem_dftColumn.mp hu
  let A : Part → ℕ → Datatype := fun p k => if p = part ∧ k = M * n + m then 1 else 0
  let x : ℕ → Datatype := fun _ => 1
  have hterm : ∀ u ∈ stored dftEntry e.trace (part, n),
      dftTerm A x M u = if u = (m, part, n) then 1 else 0 := by
    intro u hu
    rw [stored_dft e part hn, Finset.mem_image] at hu
    obtain ⟨k, -, rfl⟩ := hu
    simp [dftTerm, A, x]
  have hone : dftProduct A x M part n = 1 := by
    have hmem : (m, part, n) ∈ stored dftEntry e.trace (part, n) := mem_stored.mpr ⟨hstore, rfl⟩
    rw [← sum_stored_dft A x e part hn, Finset.sum_congr rfl hterm, Finset.sum_ite_eq', if_pos hmem]
  refine ⟨A, x, fun p k j => ?_, part, n, hn, fun c => ?_⟩
  · have hsmall : (A p k).toNat ≤ 1 := by
      simp only [A]
      split_ifs <;> decide
    have hx : (x j).toNat = 1 := rfl
    rw [hx, mul_one]
    omega
  · have hstart : trial A x c e (part, n) = c (part, n) +
        (execute dftEntry (dftTerm A x M) e.trace ⟨fun _ => 0, fun _ => 0⟩).cell (part, n) :=
      (execute_start hordered _ _).1 (part, n)
    have hnothing : (execute dftEntry (dftTerm A x M) e.trace ⟨fun _ => 0, fun _ => 0⟩).cell (part, n) = 0 :=
      (execute_congr hordered hterm _).1.trans hlost
    rw [hstart, hnothing, hone]
    intro hbad
    have hzero : (0 : Datatype) = 1 := add_left_cancel hbad
    exact absurd hzero (by decide)

/-- **What the executions of `dft` compute.** After each of its trials the arrays have the product of the
matrices with the vector once for every trial so far, for all data whose products fit, if and only if no trial
has a torn update: none stores to an entry that another thread has loaded and not stored yet. -/
theorem dft_right_iff (trials : List (ParallelFor (dftColumn N) M)) :
    (∀ A x, Fits A x → ∀ done, done <+: trials → ∀ part, ∀ n < N,
        dft A x done (part, n) = done.length • dftProduct A x M part n) ↔
      ∀ e ∈ trials, ¬ Torn dftEntry e.trace := by
  have hconcat : ∀ A x done (e : ParallelFor (dftColumn N) M),
      dft A x (done ++ [e]) = trial A x (dft A x done) e :=
    fun A x done e => List.foldl_append
  constructor
  · intro hright e he htorn
    obtain ⟨done, rest, rfl⟩ := List.append_of_mem he
    obtain ⟨A, x, hfits, part, n, hn, hwrong⟩ := trial_torn e htorn
    apply hwrong (dft A x done)
    rw [← hconcat, hright A x hfits (done ++ [e]) ⟨rest, by simp⟩ part n hn,
      hright A x hfits done ⟨e :: rest, rfl⟩ part n hn, List.length_append, List.length_singleton, succ_nsmul]
  · intro huntorn A x _ done hdone part n hn
    induction done using List.reverseRecOn with
    | nil => exact (zero_nsmul _).symm
    | append_singleton done e ih =>
        have he : e ∈ trials := hdone.subset (List.mem_append_right _ (List.mem_singleton_self e))
        rw [hconcat, trial_untorn e (huntorn e he) _ part hn, ih ((List.prefix_append _ _).trans hdone),
          List.length_append, List.length_singleton, succ_nsmul]

/-- Nothing keeps two columns apart: two of them in two threads can tear an update. -/
theorem exists_torn_trial (hM : 2 ≤ M) (hN : 1 ≤ N) : ∃ e : ParallelFor (dftColumn N) M,
    Torn dftEntry e.trace := by
  obtain ⟨N, rfl⟩ := Nat.exists_eq_add_of_le' hN
  have hbody : ∀ m, ∃ us, dftColumn (N + 1) m = (m, .real, 0) :: us := by
    intro m
    rw [dftColumn, List.range_succ_eq_map]
    exact ⟨_, rfl⟩
  obtain ⟨us, hfirst⟩ := hbody 0
  obtain ⟨vs, hsecond⟩ := hbody 1
  exact ParallelFor.exists_torn hM hfirst hsecond (by simp) rfl

end RacerArtifacts.Marss.Threads
