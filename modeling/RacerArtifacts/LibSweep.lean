import Mathlib

/-! Loops over a shared memory whose iterations may run in any order, each as a whole. A memory is a
function of its cells. -/

namespace RacerArtifacts.Sweep

variable {ι κ β : Type*}

/-- The memory after the iterations of a loop, in the given order. -/
def sweep (body : ι → (κ → β) → κ → β) (order : List ι) (x : κ → β) : κ → β :=
  order.foldl (fun x n => body n x) x

variable {body : ι → (κ → β) → κ → β}

@[simp] theorem sweep_nil (x : κ → β) : sweep body [] x = x := rfl

@[simp] theorem sweep_cons (n : ι) (order : List ι) (x : κ → β) :
    sweep body (n :: order) x = sweep body order (body n x) := rfl

theorem sweep_append (before after : List ι) (x : κ → β) :
    sweep body (before ++ after) x = sweep body after (sweep body before x) :=
  List.foldl_append

/-- A cell on which every iteration acts from the cell's own value alone goes its own way. -/
theorem sweep_cell {c : κ} (act : ι → β → β) {order : List ι}
    (hact : ∀ n ∈ order, ∀ y, body n y c = act n (y c)) (x : κ → β) :
    sweep body order x c = order.foldl (fun v n => act n v) (x c) := by
  induction order generalizing x with
  | nil => rfl
  | cons n order ih =>
      have hhead : body n x c = act n (x c) := hact n List.mem_cons_self x
      rw [sweep_cons, ih (fun k hk => hact k (List.mem_cons_of_mem n hk)), hhead, List.foldl_cons]

theorem sweep_untouched {c : κ} {order : List ι} (hleave : ∀ n ∈ order, ∀ y, body n y c = y c) (x : κ → β) :
    sweep body order x c = x c := by
  rw [sweep_cell (fun _ v => v) hleave]
  exact List.foldl_fixed' (fun _ => rfl) order

/-- A cell that one iteration alone writes has the value of that iteration, on the memory that the
iterations before it have left. -/
theorem sweep_owner {n : ι} {c : κ} {before after : List ι} (hleave : ∀ k ∈ after, ∀ y, body k y c = y c)
    (x : κ → β) : sweep body (before ++ n :: after) x c = body n (sweep body before x) c := by
  rw [sweep_append, sweep_cons]
  exact sweep_untouched hleave _

section Accumulate

variable [DecidableEq κ]

/-- An inner loop that rewrites one cell from its own value. -/
def accumulate (act : ι → β → β) (c : κ) (steps : List ι) (x : κ → β) : κ → β :=
  steps.foldl (fun x m => Function.update x c (act m (x c))) x

theorem accumulate_eq (act : ι → β → β) (c : κ) (steps : List ι) (x : κ → β) :
    accumulate act c steps x = Function.update x c (steps.foldl (fun v m => act m v) (x c)) := by
  induction steps generalizing x with
  | nil => exact (Function.update_eq_self c x).symm
  | cons m steps ih =>
      show accumulate act c steps (Function.update x c (act m (x c))) = _
      rw [ih, Function.update_self, Function.update_idem, List.foldl_cons]

theorem accumulate_self (act : ι → β → β) (c : κ) (steps : List ι) (x : κ → β) :
    accumulate act c steps x c = steps.foldl (fun v m => act m v) (x c) := by
  rw [accumulate_eq, Function.update_self]

theorem accumulate_of_ne (act : ι → β → β) {c d : κ} (hne : d ≠ c) (steps : List ι) (x : κ → β) :
    accumulate act c steps x d = x d := by
  rw [accumulate_eq, Function.update_of_ne hne]

end Accumulate

theorem foldl_range_add [AddCommMonoid β] (f : ℕ → β) (M : ℕ) (v : β) :
    (List.range M).foldl (fun v m => v + f m) v = v + ∑ m ∈ Finset.range M, f m := by
  induction M with
  | zero => simp
  | succ M ih => rw [List.range_succ, List.foldl_append, ih, Finset.sum_range_succ, ← add_assoc]; rfl

/-- An element of a list without duplicates stands in it once. -/
theorem split_of_mem {n : ι} {order : List ι} (hnodup : order.Nodup) (hn : n ∈ order) :
    ∃ before after, order = before ++ n :: after ∧ n ∉ before ∧ n ∉ after := by
  obtain ⟨before, after, rfl⟩ := List.append_of_mem hn
  have hmiddle := List.nodup_middle.mp hnodup
  rw [List.nodup_cons, List.mem_append, not_or] at hmiddle
  exact ⟨before, after, rfl, hmiddle.1.1, hmiddle.1.2⟩

/-- A cell that one iteration of the loop alone writes has the value of that iteration, on a memory in which
the cell is as before the loop. -/
theorem sweep_own {n : ι} {c : κ} {order : List ι} (hnodup : order.Nodup) (hn : n ∈ order)
    (hleave : ∀ k ∈ order, k ≠ n → ∀ y, body k y c = y c) (x : κ → β) :
    ∃ y, sweep body order x c = body n y c ∧ y c = x c := by
  obtain ⟨before, after, rfl, hbefore, hafter⟩ := split_of_mem hnodup hn
  refine ⟨sweep body before x, sweep_owner (fun k hk => ?_) x, sweep_untouched (fun k hk => ?_) x⟩
  · exact hleave k (by simp [hk]) (ne_of_mem_of_not_mem hk hafter)
  · exact hleave k (by simp [hk]) (ne_of_mem_of_not_mem hk hbefore)

/-- Iterations that rewrite one cell each, no two of them the same: each cell goes through its own inner loop,
in every order of the iterations. -/
theorem sweep_accumulate [DecidableEq κ] (act : ι → ι → β → β) (steps : List ι) {cell : ι → κ}
    {order : List ι} (hcell : Function.Injective cell) (hnodup : order.Nodup) (x : κ → β) :
    (∀ n ∈ order, sweep (fun n => accumulate (act n) (cell n) steps) order x (cell n) =
        steps.foldl (fun v m => act n m v) (x (cell n))) ∧
      ∀ c, (∀ n ∈ order, c ≠ cell n) →
      sweep (fun n => accumulate (act n) (cell n) steps) order x c = x c := by
  constructor
  · intro n hn
    have hleave : ∀ k ∈ order, k ≠ n → ∀ y : κ → β,
        accumulate (act k) (cell k) steps y (cell n) = y (cell n) :=
      fun k _ hne y => accumulate_of_ne _ (hcell.ne hne.symm) steps y
    obtain ⟨y, hsweep, hy⟩ := sweep_own hnodup hn hleave x
    rw [hsweep, accumulate_self, hy]
  · intro c hc
    apply sweep_untouched
    intro n hn y
    exact accumulate_of_ne _ (hc n hn) steps y

/-- The rows of a loop over a range, in any order: each of the first `N` cells goes through its inner loop. -/
theorem sweep_rows (act : ℕ → ℕ → β → β) (steps : List ℕ) {N : ℕ} {order : List ℕ}
    (horder : order.Perm (List.range N)) (x : ℕ → β) (c : ℕ) :
    sweep (fun n => accumulate (act n) n steps) order x c =
      if c < N then steps.foldl (fun v m => act c m v) (x c) else x c := by
  have hmem : ∀ n, n ∈ order ↔ n < N := fun n => horder.mem_iff.trans List.mem_range
  have hnodup : order.Nodup := horder.nodup_iff.mpr List.nodup_range
  obtain ⟨hown, hother⟩ := sweep_accumulate act steps Function.injective_id hnodup x
  by_cases hc : c < N
  · rw [if_pos hc]
    exact hown c ((hmem c).mpr hc)
  · rw [if_neg hc]
    apply hother
    intro n hn heq
    exact hc (heq ▸ (hmem n).mp hn)

section Tail

/-- The memory from an address on. -/
def tail (base : ℕ) (x : ℕ → β) : ℕ → β := fun i => x (base + i)

/-- What is done with the memory from an address on, in the whole of it. -/
def onTail (base : ℕ) (f : (ℕ → β) → ℕ → β) (x : ℕ → β) : ℕ → β := fun c =>
  if c < base then x c else f (tail base x) (c - base)

theorem onTail_of_lt {base c : ℕ} (hc : c < base) (f : (ℕ → β) → ℕ → β) (x : ℕ → β) :
    onTail base f x c = x c :=
  if_pos hc

theorem onTail_add (base i : ℕ) (f : (ℕ → β) → ℕ → β) (x : ℕ → β) :
    onTail base f x (base + i) = f (tail base x) i := by
  rw [onTail, if_neg (by omega), Nat.add_sub_cancel_left]

end Tail

theorem block_ne {width thread thread' i i' : ℕ} (hi : i < width) (hi' : i' < width)
    (hne : thread ≠ thread') :
    thread * width + i ≠ thread' * width + i' := by
  intro heq
  apply hne
  calc thread = (thread * width + i) / width := by
        rw [mul_comm, Nat.mul_add_div (by omega), Nat.div_eq_of_lt hi, add_zero]
    _ = (thread' * width + i') / width := by rw [heq]
    _ = thread' := by rw [mul_comm, Nat.mul_add_div (by omega), Nat.div_eq_of_lt hi', add_zero]

section Fill

variable {width : ℕ} {value : ℕ → ℕ → β}

/-- An inner loop that fills a row of a table. -/
def tableRow (width : ℕ) (value : ℕ → ℕ → β) (p : ℕ) (x : ℕ → β) : ℕ → β :=
  (List.range width).foldl (fun x m => Function.update x (p * width + m) (value p m)) x

theorem tableRow_eq (width : ℕ) (value : ℕ → ℕ → β) (p : ℕ) (x : ℕ → β) (c : ℕ) :
    tableRow width value p x c =
      if p * width ≤ c ∧ c < p * width + width then value p (c - p * width) else x c := by
  have hsteps : ∀ k, (List.range k).foldl (fun x m => Function.update x (p * width + m) (value p m)) x c =
      if p * width ≤ c ∧ c < p * width + k then value p (c - p * width) else x c := by
    intro k
    induction k with
    | zero => rw [if_neg (by omega)]; rfl
    | succ k ih =>
        rw [List.range_succ, List.foldl_append, List.foldl_cons, List.foldl_nil]
        by_cases hc : c = p * width + k
        · rw [hc, Function.update_self, if_pos (by omega), Nat.add_sub_cancel_left]
        · rw [Function.update_of_ne hc, ih]
          apply if_congr _ rfl rfl
          omega
  exact hsteps width

theorem sweep_tableRow {P : ℕ} {order : List ℕ} (horder : order.Perm (List.range P)) (x : ℕ → β) (c : ℕ) :
    sweep (tableRow width value) order x c = if c < P * width then value (c / width) (c % width)
    else x c := by
  have hmem : ∀ p, p ∈ order ↔ p < P := fun p => horder.mem_iff.trans List.mem_range
  by_cases hc : c < P * width
  · have hwidth : 0 < width := Nat.pos_of_ne_zero fun hzero => by simp [hzero] at hc
    have hplace := Nat.div_add_mod' c width
    have hlt := Nat.mod_lt c hwidth
    have hrow : c / width ∈ order := (hmem _).mpr (Nat.div_lt_of_lt_mul (mul_comm P width ▸ hc))
    have hleave : ∀ p ∈ order, p ≠ c / width → ∀ y : ℕ → β, tableRow width value p y c = y c := by
      intro p _ hne y
      rw [tableRow_eq, if_neg]
      rintro ⟨hfrom, hto⟩
      apply block_ne (Nat.sub_lt_left_of_lt_add hfrom hto) hlt hne
      rw [Nat.add_sub_cancel' hfrom, hplace]
    obtain ⟨y, hsweep, -⟩ := sweep_own (horder.nodup_iff.mpr List.nodup_range) hrow hleave x
    have hcell : c - c / width * width = c % width := by omega
    rw [hsweep, tableRow_eq, if_pos (by omega), if_pos hc, hcell]
  · rw [if_neg hc]
    apply sweep_untouched
    intro p hp y
    have hend : (p + 1) * width ≤ P * width := Nat.mul_le_mul_right width ((hmem p).mp hp)
    rw [add_mul, one_mul] at hend
    rw [tableRow_eq, if_neg (by omega)]

theorem sweep_tableRow_entry {P : ℕ} {order : List ℕ} (horder : order.Perm (List.range P))
    (x : ℕ → β) {p m : ℕ}
    (hp : p < P) (hm : m < width) : sweep (tableRow width value) order x (p * width + m) = value p m := by
  have hcell : p * width + m < P * width := by
    calc p * width + m < p * width + width := Nat.add_lt_add_left hm _
      _ = (p + 1) * width := by rw [add_mul, one_mul]
      _ ≤ P * width := Nat.mul_le_mul_right width hp
  have hrow : (p * width + m) / width = p := by
    rw [mul_comm, Nat.mul_add_div (by omega), Nat.div_eq_of_lt hm, add_zero]
  have hcolumn : (p * width + m) % width = m := by
    rw [mul_comm, Nat.mul_add_mod, Nat.mod_eq_of_lt hm]
  rw [sweep_tableRow horder, if_pos hcell, hrow, hcolumn]

end Fill

/-- A sum over a range of which only the indices in a list count. -/
theorem sum_marked [AddCommMonoid β] {marked : List ℕ} (hnodup : marked.Nodup) (f : ℕ → β) (k : ℕ) :
    (∑ m ∈ Finset.range k, if m ∈ marked then f m else 0) =
      (marked.map fun m => if m < k then f m else 0).sum := by
  induction marked with
  | nil => simp
  | cons a marked ih =>
      obtain ⟨ha, hnodup⟩ := List.nodup_cons.mp hnodup
      have hsplit : ∀ m, (if m ∈ a :: marked then f m else 0) =
          (if m = a then f m else 0) + if m ∈ marked then f m else 0 := by
        intro m
        by_cases hm : m = a
        · subst hm
          simp [ha]
        · simp [hm]
      simp only [hsplit]
      rw [Finset.sum_add_distrib, ih hnodup, Finset.sum_ite_eq', List.map_cons, List.sum_cons]
      simp only [Finset.mem_range]

end RacerArtifacts.Sweep
