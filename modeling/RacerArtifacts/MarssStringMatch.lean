import RacerArtifacts.LibSweep

/-! The kernels of the string-match programs. Every iteration of the parallel loop looks for the pattern in
one string of 512 characters; its window pointer clears a cell for each position, but the comparisons are
accumulated through the base pointer of the whole array. The pattern has at most 512 characters. The indices
are `int`s; they lie below the sizes `M * 512` and `M * (512 - pattern_length)`, which `main` computes as
`int`s before. -/

namespace RacerArtifacts.Marss.StringMatch

open Sweep

/-- `char` -/
abbrev Datatype := BitVec 8

/-- The character of window `i` of string `thread` agrees with the pattern at `j`. -/
def agrees (strings pattern : ℕ → Datatype) (thread i j : ℕ) : Bool :=
  strings (thread * 512 + (i + j)) == pattern j

section Kernel

variable {β : Type} (reset : β) (combine : β → Bool → β) (strings pattern : ℕ → Datatype) (pattern_length : ℕ)

/-- The body of the loop over the positions of a string. -/
def position (thread i : ℕ) (found : ℕ → β) : ℕ → β :=
  accumulate (fun j v => combine v (agrees strings pattern thread i j)) i (List.range pattern_length)
    (Function.update found (thread * (512 - pattern_length) + i) reset)

/-- The body of the parallel loop. -/
def threadBody (thread : ℕ) (found : ℕ → β) : ℕ → β :=
  sweep (position reset combine strings pattern pattern_length thread)
    (List.range (512 - pattern_length)) found

/-- The parallel loop, its iterations executed in the given order. -/
def kernel (order : List ℕ) (found : ℕ → β) : ℕ → β :=
  sweep (threadBody reset combine strings pattern pattern_length) order found

/-- The comparisons of one window, accumulated to a value. -/
def judge (thread i : ℕ) (v : β) : β :=
  (List.range pattern_length).foldl (fun v j => combine v (agrees strings pattern thread i j)) v

end Kernel

/-- The kernel of `exactmatch`. -/
def exactmatch (strings pattern : ℕ → Datatype) (pattern_length : ℕ) (order : List ℕ) (found : ℕ → Bool) :
    ℕ → Bool :=
  kernel true (fun v same => v && same) strings pattern pattern_length order found

/-- The kernel of `fuzzymatch`. -/
def fuzzymatch (strings pattern : ℕ → Datatype) (pattern_length : ℕ) (order : List ℕ)
    (found : ℕ → ℤ) : ℕ → ℤ :=
  kernel 0 (fun v same => v + if same then 1 else 0) strings pattern pattern_length order found

section Cells

variable {β : Type} {reset : β} {combine : β → Bool → β} {strings pattern : ℕ → Datatype} {pattern_length : ℕ}
  {thread i c : ℕ}

theorem position_self (found : ℕ → β) :
    position reset combine strings pattern pattern_length thread i found i =
      judge combine strings pattern pattern_length thread i
        (if thread * (512 - pattern_length) = 0 then reset else found i) := by
  rw [position, accumulate_self, judge]
  congr 1
  by_cases hzero : thread * (512 - pattern_length) = 0
  · rw [hzero, zero_add, Function.update_self, if_pos rfl]
  · rw [Function.update_of_ne (by omega), if_neg hzero]

theorem position_reset (hne : thread * (512 - pattern_length) ≠ 0) (found : ℕ → β) :
    position reset combine strings pattern pattern_length thread i found
      (thread * (512 - pattern_length) + i) =
        reset := by
  rw [position, accumulate_of_ne _ (by omega), Function.update_self]

theorem position_of_ne (hbase : c ≠ i) (hwindow : c ≠ thread * (512 - pattern_length) + i) (found : ℕ → β) :
    position reset combine strings pattern pattern_length thread i found c = found c := by
  rw [position, accumulate_of_ne _ hbase, Function.update_of_ne hwindow]

/-- The block of the string after the first starts behind the cells of the first. -/
theorem lt_block {width thread i i' : ℕ} (hthread : thread ≠ 0) (hi : i < width) : i < thread * width + i' :=
  hi.trans_le ((Nat.le_mul_of_pos_left width (Nat.pos_of_ne_zero hthread)).trans (Nat.le_add_right _ _))

/-- Every thread accumulates the comparisons of its window in the cell of the first string; only the first
thread clears that cell. -/
theorem threadBody_first (hi : i < 512 - pattern_length) (found : ℕ → β) :
    threadBody reset combine strings pattern pattern_length thread found i =
      judge combine strings pattern pattern_length thread i (if thread = 0 then reset else found i) := by
  have hleave : ∀ k ∈ List.range (512 - pattern_length), k ≠ i → ∀ y : ℕ → β,
      position reset combine strings pattern pattern_length thread k y i = y i := by
    intro k _ hne y
    apply position_of_ne hne.symm
    by_cases hthread : thread = 0
    · rw [hthread, zero_mul, zero_add]
      exact hne.symm
    · exact (lt_block hthread hi).ne
  obtain ⟨y, hsweep, hy⟩ := sweep_own List.nodup_range (List.mem_range.mpr hi) hleave found
  have hclear : thread * (512 - pattern_length) = 0 ↔ thread = 0 := by
    rw [Nat.mul_eq_zero, or_iff_left (by omega)]
  rw [threadBody, hsweep, position_self, hy]
  simp only [hclear]

theorem threadBody_reset (hthread : thread ≠ 0) (hi : i < 512 - pattern_length) (found : ℕ → β) :
    threadBody reset combine strings pattern pattern_length thread found
      (thread * (512 - pattern_length) + i) =
        reset := by
  have hleave : ∀ k ∈ List.range (512 - pattern_length), k ≠ i → ∀ y : ℕ → β,
      position reset combine strings pattern pattern_length thread k y (thread * (512 - pattern_length) + i) =
        y (thread * (512 - pattern_length) + i) := by
    intro k hk hne y
    exact position_of_ne (lt_block hthread (List.mem_range.mp hk)).ne' (by omega) y
  have hblock : 512 - pattern_length ≠ 0 := (Nat.zero_lt_of_lt hi).ne'
  obtain ⟨y, hsweep, -⟩ := sweep_own List.nodup_range (List.mem_range.mpr hi) hleave found
  rw [threadBody, hsweep]
  exact position_reset (Nat.mul_ne_zero hthread hblock) _

/-- The cells of another string are left alone by every thread but its own. -/
theorem threadBody_other {thread' : ℕ} (hthread' : thread' ≠ 0) (hne : thread' ≠ thread)
    (hi : i < 512 - pattern_length) (found : ℕ → β) :
    threadBody reset combine strings pattern pattern_length thread found
      (thread' * (512 - pattern_length) + i) =
        found (thread' * (512 - pattern_length) + i) := by
  apply sweep_untouched
  intro k hk y
  have hk' : k < 512 - pattern_length := List.mem_range.mp hk
  exact position_of_ne (lt_block hthread' hk').ne' (block_ne hi hk' hne) y

variable {M : ℕ} {order : List ℕ}

/-- After the kernel the cells of the strings after the first hold the cleared value. -/
theorem kernel_reset (horder : order.Perm (List.range M)) (hthread : thread ≠ 0) (hM : thread < M)
    (hi : i < 512 - pattern_length) (found : ℕ → β) :
    kernel reset combine strings pattern pattern_length order found (thread * (512 - pattern_length) + i) =
      reset := by
  obtain ⟨y, hsweep, -⟩ := sweep_own (horder.nodup_iff.mpr List.nodup_range)
    (horder.mem_iff.mpr (List.mem_range.mpr hM))
    (fun k _ hne y => threadBody_other hthread hne.symm hi y) found
  rw [kernel, hsweep, threadBody_reset hthread hi]

/-- When the comparisons of the other strings change no value, the cells of the first string are its own. -/
theorem kernel_first (horder : order.Perm (List.range M)) (hM : 0 < M) (hi : i < 512 - pattern_length)
    (hsilent : ∀ thread < M, thread ≠ 0 → ∀ v, judge combine strings pattern pattern_length thread i v = v)
    (found : ℕ → β) :
    kernel reset combine strings pattern pattern_length order found i =
      judge combine strings pattern pattern_length 0 i reset := by
  have hmem : ∀ k, k ∈ order ↔ k < M := fun k => horder.mem_iff.trans List.mem_range
  have hleave : ∀ k ∈ order, k ≠ 0 → ∀ y : ℕ → β,
      threadBody reset combine strings pattern pattern_length k y i = y i := by
    intro k hk hne y
    rw [threadBody_first hi, if_neg hne, hsilent k ((hmem k).mp hk) hne]
  obtain ⟨y, hsweep, -⟩ := sweep_own (horder.nodup_iff.mpr List.nodup_range) ((hmem 0).mpr hM) hleave found
  rw [kernel, hsweep, threadBody_first hi, if_pos rfl]

end Cells

variable {strings pattern : ℕ → Datatype} {pattern_length M thread i : ℕ} {order : List ℕ}

/-- `exactmatch` is right: a cell is true when its window is the pattern. -/
def ExactlyFound (strings pattern : ℕ → Datatype) (pattern_length M : ℕ) (found : ℕ → Bool) : Prop :=
  ∀ thread < M, ∀ i < 512 - pattern_length,
    found (thread * (512 - pattern_length) + i) = true ↔
      ∀ j < pattern_length, strings (thread * 512 + (i + j)) = pattern j

/-- The number of positions at which a window agrees with the pattern. -/
def agreements (strings pattern : ℕ → Datatype) (pattern_length thread i : ℕ) : ℕ :=
  ((Finset.range pattern_length).filter fun j => strings (thread * 512 + (i + j)) = pattern j).card

/-- `fuzzymatch` is right: a cell counts the agreements of its window. -/
def FuzzilyFound (strings pattern : ℕ → Datatype) (pattern_length M : ℕ) (found : ℕ → ℤ) : Prop :=
  ∀ thread < M, ∀ i < 512 - pattern_length,
    found (thread * (512 - pattern_length) + i) = agreements strings pattern pattern_length thread i

theorem judge_exact (thread i : ℕ) (v : Bool) :
    judge (fun v same => v && same) strings pattern pattern_length thread i v = true ↔
      v = true ∧ ∀ j < pattern_length, strings (thread * 512 + (i + j)) = pattern j := by
  unfold judge
  induction pattern_length with
  | zero => simp
  | succ k ih =>
      rw [List.range_succ, List.foldl_append, List.foldl_cons, List.foldl_nil, Bool.and_eq_true, ih,
        Nat.forall_lt_succ_right, agrees, beq_iff_eq, and_assoc]

theorem judge_fuzzy (thread i : ℕ) (v : ℤ) :
    judge (fun v same => v + if same then 1 else 0) strings pattern pattern_length thread i v =
      v + agreements strings pattern pattern_length thread i := by
  rw [judge, foldl_range_add, agreements, Finset.card_filter, Nat.cast_sum]
  simp only [agrees, beq_iff_eq, Nat.cast_ite, Nat.cast_one, Nat.cast_zero]

/-- `exactmatch` in any order: right exactly when all windows of the strings after the first are
the pattern. -/
theorem exactlyFound_iff (horder : order.Perm (List.range M)) (found : ℕ → Bool) :
    ExactlyFound strings pattern pattern_length M (exactmatch strings pattern pattern_length order found) ↔
      ∀ thread < M, thread ≠ 0 → ∀ i < 512 - pattern_length, ∀ j < pattern_length,
        strings (thread * 512 + (i + j)) = pattern j := by
  constructor
  · intro h thread hM hthread i hi
    exact (h thread hM i hi).mp (kernel_reset horder hthread hM hi found)
  · intro h thread hM i hi
    by_cases hthread : thread = 0
    · subst hthread
      have hsilent : ∀ thread < M, thread ≠ 0 → ∀ v,
          judge (fun v same => v && same) strings pattern pattern_length thread i v = v := by
        intro thread hM hthread v
        rw [Bool.eq_iff_iff, judge_exact]
        exact and_iff_left (h thread hM hthread i hi)
      rw [exactmatch, zero_mul, zero_add, kernel_first horder hM hi hsilent, judge_exact, zero_mul]
      exact and_iff_right rfl
    · exact iff_of_true (kernel_reset horder hthread hM hi found) (h thread hM hthread i hi)

/-- `fuzzymatch` in any order: right exactly when no window of the strings after the first agrees anywhere. -/
theorem fuzzilyFound_iff (horder : order.Perm (List.range M)) (found : ℕ → ℤ) :
    FuzzilyFound strings pattern pattern_length M (fuzzymatch strings pattern pattern_length order found) ↔
      ∀ thread < M, thread ≠ 0 → ∀ i < 512 - pattern_length, ∀ j < pattern_length,
        strings (thread * 512 + (i + j)) ≠ pattern j := by
  have hnone : ∀ thread i, agreements strings pattern pattern_length thread i = 0 ↔
      ∀ j < pattern_length, strings (thread * 512 + (i + j)) ≠ pattern j := by
    intro thread i
    simp [agreements, Finset.filter_eq_empty_iff]
  constructor
  · intro h thread hM hthread i hi
    have hcell := h thread hM i hi
    rw [fuzzymatch, kernel_reset horder hthread hM hi found] at hcell
    exact (hnone thread i).mp (Nat.cast_eq_zero.mp hcell.symm)
  · intro h thread hM i hi
    by_cases hthread : thread = 0
    · subst hthread
      have hsilent : ∀ thread < M, thread ≠ 0 → ∀ v : ℤ,
          judge (fun v same => v + if same then 1 else 0) strings pattern pattern_length thread i v = v := by
        intro thread hM hthread v
        rw [judge_fuzzy, (hnone thread i).mpr (h thread hM hthread i hi), Nat.cast_zero, add_zero]
      rw [fuzzymatch, zero_mul, zero_add, kernel_first horder hM hi hsilent, judge_fuzzy, zero_add]
    · rw [fuzzymatch, kernel_reset horder hthread hM hi found,
        (hnone thread i).mpr (h thread hM hthread i hi),
        Nat.cast_zero]

/-- **When the string-match kernels are right**, in any order of the threads: only the first string's cells
get its comparisons, so the other strings' windows have to be such that the cleared value is their result. -/
theorem stringMatch_found_iff (strings pattern : ℕ → Datatype) (pattern_length M : ℕ) (order : List ℕ)
    (horder : order.Perm (List.range M)) :
    (∀ found, ExactlyFound strings pattern pattern_length M
        (exactmatch strings pattern pattern_length order found) ↔
      ∀ thread < M, thread ≠ 0 → ∀ i < 512 - pattern_length, ∀ j < pattern_length,
        strings (thread * 512 + (i + j)) = pattern j) ∧
    ∀ found, FuzzilyFound strings pattern pattern_length M
        (fuzzymatch strings pattern pattern_length order found) ↔
      ∀ thread < M, thread ≠ 0 → ∀ i < 512 - pattern_length, ∀ j < pattern_length,
        strings (thread * 512 + (i + j)) ≠ pattern j :=
  ⟨exactlyFound_iff horder, fuzzilyFound_iff horder⟩

/-- Two strings of zeros: the pattern `0` is found everywhere and the pattern `1` nowhere. -/
theorem stringMatch_found_iff_zeros :
    (∀ found, ExactlyFound (fun _ => 0) (fun _ => 0) 1 2
      (exactmatch (fun _ => 0) (fun _ => 0) 1 [1, 0] found)) ∧
    ∀ found, FuzzilyFound (fun _ => 0) (fun _ => 1) 1 2
      (fuzzymatch (fun _ => 0) (fun _ => 1) 1 [1, 0] found) := by
  constructor
  · intro found
    exact ((stringMatch_found_iff (fun _ => 0) (fun _ => 0) 1 2 [1, 0] (by decide)).1 found).mpr
      fun _ _ _ _ _ _ _ => rfl
  · intro found
    refine ((stringMatch_found_iff (fun _ => 0) (fun _ => 1) 1 2 [1, 0] (by decide)).2 found).mpr ?_
    exact fun _ _ _ _ _ _ _ => by decide

/-- On these strings `exactmatch` reports the pattern at each position of the second. -/
theorem exactmatch_second_string :
    ¬ ∀ order : List ℕ, order.Perm (List.range 2) → ∀ found,
      ExactlyFound (fun _ => 0) (fun _ => 1) 1 2 (exactmatch (fun _ => 0) (fun _ => 1) 1 order found) := by
  intro h
  have hequal := (exactlyFound_iff (List.Perm.refl _) _).mp
      (h _ (List.Perm.refl _) fun _ => false) 1 (by decide)
    (by decide) 0 (by decide) 0 (by decide)
  exact absurd hequal (by decide)

end RacerArtifacts.Marss.StringMatch
