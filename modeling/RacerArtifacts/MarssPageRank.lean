import RacerArtifacts.LibSweep

/-! The kernel of the PageRank program. Each iteration adds a matrix-vector product to the vector in place,
the rows in any order, so that a row reads what the rows before it, and the row itself, have written. The
indices are `int`s; they lie below `M * N`, which `main` computes as an `int` before. -/

namespace RacerArtifacts.Marss.PageRank

open Sweep

/-- `unsigned short`, with the arithmetic modulo `2 ^ 16` -/
abbrev Datatype := BitVec 16

/-- The body of the parallel loop. -/
def pagerankRow (A : ℕ → Datatype) (M n : ℕ) (x : ℕ → Datatype) : ℕ → Datatype :=
  (List.range M).foldl (fun x m => Function.update x n (x n + A (M * n + m) * x m)) x

/-- One iteration of the kernel, its rows executed in the given order. -/
def iteration (A : ℕ → Datatype) (M : ℕ) (order : List ℕ) (x : ℕ → Datatype) : ℕ → Datatype :=
  sweep (pagerankRow A M) order x

/-- The kernel: an order of the rows for each iteration. -/
def pagerank (A : ℕ → Datatype) (M : ℕ) (orders : List (List ℕ)) (x : ℕ → Datatype) : ℕ → Datatype :=
  orders.foldl (fun x order => iteration A M order x) x

/-- `A * x` at row `n` -/
def product (A : ℕ → Datatype) (M : ℕ) (x : ℕ → Datatype) (n : ℕ) : Datatype :=
  ∑ m ∈ Finset.range M, A (M * n + m) * x m

/-- What an iteration is for: every row reads the vector as it was. -/
def simultaneous (A : ℕ → Datatype) (M N : ℕ) (x : ℕ → Datatype) : ℕ → Datatype := fun n =>
  if n < N then x n + product A M x n else x n

/-- What row `n` adds a second time: it passes its own entry when the columns below `n` are in it. -/
def feedback (A : ℕ → Datatype) (M : ℕ) (x : ℕ → Datatype) (n : ℕ) : Datatype :=
  A (M * n + n) * ∑ m ∈ Finset.range n, A (M * n + m) * x m

/-- The weight in row `n` of a change of entry `m`. -/
def weight (A : ℕ → Datatype) (M n m : ℕ) : Datatype :=
  if m < n then A (M * n + m) + A (M * n + n) * A (M * n + m) else A (M * n + m)

/-- What row `n` adds too much when the rows `before` it have been executed. -/
def interference (A : ℕ → Datatype) (M : ℕ) (x : ℕ → Datatype) (before : List ℕ) (n : ℕ) : Datatype :=
  feedback A M x n + (before.map fun m => weight A M n m * product A M x m).sum

variable {A : ℕ → Datatype} {M N : ℕ} {x : ℕ → Datatype} {n : ℕ} {order before : List ℕ}

theorem pagerankRow_of_ne {c : ℕ} (hne : c ≠ n) (x : ℕ → Datatype) : pagerankRow A M n x c = x c := by
  unfold pagerankRow
  induction List.range M generalizing x with
  | nil => rfl
  | cons m steps ih => rw [List.foldl_cons, ih, Function.update_of_ne hne]

/-- The row while its first `k` columns are added. -/
theorem pagerankRow_steps (A : ℕ → Datatype) (M n : ℕ) (x : ℕ → Datatype) (k : ℕ) :
    (List.range k).foldl (fun x m => Function.update x n (x n + A (M * n + m) * x m)) x =
      Function.update x n
        (x n + (∑ m ∈ Finset.range k, A (M * n + m) * x m) + if n < k then feedback A M x n else 0) := by
  induction k with
  | zero => simp
  | succ k ih =>
      rw [List.range_succ, List.foldl_append, ih, List.foldl_cons, List.foldl_nil, Function.update_idem,
        Function.update_self, Finset.sum_range_succ]
      congr 1
      rcases lt_trichotomy k n with hlt | rfl | hgt
      · have hcol : k ≠ n := hlt.ne
        rw [Function.update_of_ne hcol, if_neg (by omega), if_neg (by omega)]
        ring
      · -- The column of the row's own entry: what is there is multiplied.
        rw [Function.update_self, if_neg (lt_irrefl k), if_pos (Nat.lt_succ_self k), feedback]
        ring
      · have hcol : k ≠ n := hgt.ne'
        rw [Function.update_of_ne hcol, if_pos hgt, if_pos (by omega)]
        ring

theorem pagerankRow_self (hn : n < M) (x : ℕ → Datatype) :
    pagerankRow A M n x n = x n + product A M x n + feedback A M x n := by
  rw [pagerankRow, pagerankRow_steps, Function.update_self, if_pos hn]
  rfl

/-- The vector when the rows of a list have been executed and each has added its product. -/
def partly (A : ℕ → Datatype) (M : ℕ) (x : ℕ → Datatype) (done : List ℕ) : ℕ → Datatype := fun m =>
  x m + if m ∈ done then product A M x m else 0

theorem sum_partly (hbefore : before.Nodup) (f : ℕ → Datatype) (x : ℕ → Datatype) (k : ℕ) :
    ∑ m ∈ Finset.range k, f m * partly A M x before m =
      (∑ m ∈ Finset.range k, f m * x m) +
        (before.map fun m => if m < k then f m * product A M x m else 0).sum := by
  rw [← sum_marked hbefore, ← Finset.sum_add_distrib]
  apply Finset.sum_congr rfl
  intro m _
  rw [partly, mul_add, mul_ite, mul_zero]

/-- A row that finds the rows before it executed adds its product, and the interference. -/
theorem pagerankRow_partly (hbefore : before.Nodup) (hbound : ∀ m ∈ before, m < M) (hnot : n ∉ before)
    (hn : n < M) (x : ℕ → Datatype) :
    pagerankRow A M n (partly A M x before) n = x n + product A M x n + interference A M x before n := by
  have hproduct : product A M (partly A M x before) n =
      product A M x n + (before.map fun m => A (M * n + m) * product A M x m).sum := by
    rw [product, sum_partly hbefore, product]
    congr 2
    apply List.map_congr_left
    intro m hm
    rw [if_pos (hbound m hm)]
  have hfeedback : feedback A M (partly A M x before) n = feedback A M x n +
      (before.map fun m => if m < n then A (M * n + n) * A (M * n + m) * product A M x m else 0).sum := by
    rw [feedback, sum_partly hbefore, mul_add, feedback, ← List.sum_map_mul_left]
    simp only [mul_ite, mul_zero, mul_assoc]
  have hweight : (before.map fun m => weight A M n m * product A M x m).sum =
      (before.map fun m => A (M * n + m) * product A M x m).sum +
      (before.map fun m => if m < n then A (M * n + n) * A (M * n + m) * product A M x m else 0).sum := by
    rw [← List.sum_map_add]
    congr 1
    apply List.map_congr_left
    intro m _
    unfold weight
    split
    · rw [add_mul]
    · rw [add_zero]
  rw [pagerankRow_self hn, hproduct, hfeedback, interference, hweight, partly, if_neg hnot]
  ring

/-- No row of the iteration finds an interference. -/
def Undisturbed (A : ℕ → Datatype) (M : ℕ) (order : List ℕ) (x : ℕ → Datatype) : Prop :=
  ∀ before n after, order = before ++ n :: after → interference A M x before n = 0

/-- No row of the iteration finds an interference, whatever the order. -/
def Quiet (A : ℕ → Datatype) (M N : ℕ) (x : ℕ → Datatype) : Prop :=
  ∀ n < N, feedback A M x n = 0 ∧ ∀ m < N, m ≠ n → weight A M n m * product A M x m = 0

theorem iteration_of_not_mem {c : ℕ} (hc : c ∉ order) (x : ℕ → Datatype) : iteration A M order x c = x c := by
  apply sweep_untouched
  intro k hk y
  exact pagerankRow_of_ne (ne_of_mem_of_not_mem hk hc).symm y

theorem iteration_split {after : List ℕ} (hafter : n ∉ after) (x : ℕ → Datatype) :
    iteration A M (before ++ n :: after) x n = pagerankRow A M n (iteration A M before x) n := by
  apply sweep_owner
  intro k hk y
  exact pagerankRow_of_ne (ne_of_mem_of_not_mem hk hafter).symm y

/-- Without interference the rows add their products one after the other. -/
theorem Undisturbed.iteration_eq (hquiet : Undisturbed A M order x) (hnodup : order.Nodup)
    (hbound : ∀ n ∈ order, n < M) : iteration A M order x = partly A M x order := by
  induction order using List.reverseRecOn with
  | nil =>
      funext m
      simp [iteration, partly]
  | append_singleton before n ih =>
      have hlast := List.nodup_append.mp hnodup
      have hnot : n ∉ before := fun hmem => hlast.2.2 n hmem n (List.mem_singleton_self n) rfl
      have hprior : ∀ m ∈ before, m < M := fun m hm => hbound m (List.mem_append_left [n] hm)
      have hstart : Undisturbed A M before x := by
        intro b k a hsplit
        apply hquiet b k (a ++ [n])
        rw [hsplit, List.append_assoc, List.cons_append]
      have hrow := pagerankRow_partly (A := A) hlast.1 hprior hnot (hbound n (by simp)) x
      rw [hquiet before n [] rfl, add_zero] at hrow
      funext c
      by_cases hc : c = n
      · subst hc
        rw [iteration_split List.not_mem_nil, ih hstart hlast.1 hprior, hrow, partly, if_pos (by simp)]
      · have hmem : c ∈ before ++ [n] ↔ c ∈ before := by simp [hc]
        calc iteration A M (before ++ [n]) x c
            = pagerankRow A M n (iteration A M before x) c := by rw [iteration, sweep_append]; rfl
          _ = iteration A M before x c := pagerankRow_of_ne hc _
          _ = partly A M x before c := by rw [ih hstart hlast.1 hprior]
          _ = partly A M x (before ++ [n]) c := by simp only [partly, hmem]

theorem partly_eq_simultaneous (hmem : ∀ n, n ∈ order ↔ n < N) :
    partly A M x order = simultaneous A M N x := by
  funext n
  unfold partly simultaneous
  by_cases hn : n < N
  · rw [if_pos ((hmem n).mpr hn), if_pos hn]
  · rw [if_neg (fun h => hn ((hmem n).mp h)), if_neg hn, add_zero]

/-- **One iteration, in a given order**, reads the vector as it was exactly when no row finds an
interference. -/
theorem iteration_eq_simultaneous_iff (hNM : N ≤ M) (horder : order.Perm (List.range N)) (x : ℕ → Datatype) :
    iteration A M order x = simultaneous A M N x ↔ Undisturbed A M order x := by
  have hmem : ∀ n, n ∈ order ↔ n < N := fun n => horder.mem_iff.trans List.mem_range
  have hnodup : order.Nodup := horder.nodup_iff.mpr List.nodup_range
  have hbound : ∀ n ∈ order, n < M := fun n hn => ((hmem n).mp hn).trans_le hNM
  constructor
  · rintro hresult before n after rfl
    have hmiddle := List.nodup_middle.mp hnodup
    rw [List.nodup_cons, List.mem_append, not_or] at hmiddle
    obtain ⟨⟨hbefore, hafter⟩, hrest⟩ := hmiddle
    -- The rows before have their final entries already.
    have hstate : iteration A M before x = partly A M x before := by
      funext c
      unfold partly
      by_cases hc : c ∈ before
      · have hleft : c ∉ n :: after := by
          have hdisjoint := List.disjoint_of_nodup_append hnodup
          exact fun h => hdisjoint hc h
        calc iteration A M before x c
            = iteration A M (n :: after) (iteration A M before x) c := (iteration_of_not_mem hleft _).symm
          _ = iteration A M (before ++ n :: after) x c := by
            rw [iteration, iteration, iteration, sweep_append]
          _ = simultaneous A M N x c := congrFun hresult c
          _ = x c + if c ∈ before then product A M x c else 0 := by
            rw [simultaneous, if_pos ((hmem c).mp (List.mem_append_left _ hc)), if_pos hc]
      · rw [iteration_of_not_mem hc, if_neg hc, add_zero]
    have hin : n ∈ before ++ n :: after := by simp
    have hentry := congrFun hresult n
    rw [iteration_split hafter, hstate, pagerankRow_partly (hrest.sublist (List.sublist_append_left _ _))
      (fun m hm => hbound m (List.mem_append_left _ hm)) hbefore (hbound n hin), simultaneous,
      if_pos ((hmem n).mp hin)] at hentry
    exact add_eq_left.mp hentry
  · intro hquiet
    rw [hquiet.iteration_eq hnodup hbound, partly_eq_simultaneous hmem]

/-- In every order exactly when no two rows meet, and none meets itself. -/
theorem forall_undisturbed_iff (A : ℕ → Datatype) (M N : ℕ) (x : ℕ → Datatype) :
    (∀ order, order.Perm (List.range N) → Undisturbed A M order x) ↔ Quiet A M N x := by
  constructor
  · intro h n hn
    have hfirst : (n :: (List.range N).erase n).Perm (List.range N) :=
      (List.perm_cons_erase (List.mem_range.mpr hn)).symm
    have hfeedback : feedback A M x n = 0 := by
      have := h _ hfirst [] n _ rfl
      simpa [interference] using this
    refine ⟨hfeedback, fun m hm hne => ?_⟩
    have hn' : n ∈ (List.range N).erase m := (List.mem_erase_of_ne hne.symm).mpr (List.mem_range.mpr hn)
    have hsecond : (m :: n :: ((List.range N).erase m).erase n).Perm (List.range N) :=
      ((List.perm_cons_erase hn').symm.cons m).trans (List.perm_cons_erase (List.mem_range.mpr hm)).symm
    have := h _ hsecond [m] n _ rfl
    simpa [interference, hfeedback] using this
  · rintro hquiet order horder before n after rfl
    have hmem : ∀ k, k ∈ before ++ n :: after ↔ k < N := fun k => horder.mem_iff.trans List.mem_range
    have hnodup : (before ++ n :: after).Nodup := horder.nodup_iff.mpr List.nodup_range
    have hn := (hmem n).mp (by simp)
    have hzero : (before.map fun m => weight A M n m * product A M x m).sum = 0 := by
      apply List.sum_eq_zero
      intro v hv
      obtain ⟨m, hm, rfl⟩ := List.mem_map.mp hv
      apply (hquiet n hn).2 m ((hmem m).mp (List.mem_append_left _ hm))
      rintro rfl
      exact List.disjoint_of_nodup_append hnodup hm List.mem_cons_self
    rw [interference, (hquiet n hn).1, hzero, add_zero]

/-- Every iteration reads the vector as it found it, and the kernel leaves what the iterations so
read leave. -/
structure ReadsOld (A : ℕ → Datatype) (M N : ℕ) (orders : List (List ℕ)) (x : ℕ → Datatype) : Prop where
  iteration_eq : ∀ k < orders.length,
    pagerank A M (orders.take (k + 1)) x = simultaneous A M N (pagerank A M (orders.take k) x)
  result_eq : pagerank A M orders x = (simultaneous A M N)^[orders.length] x

theorem pagerank_take_succ {orders : List (List ℕ)} {k : ℕ} (hk : k < orders.length) (x : ℕ → Datatype) :
    pagerank A M (orders.take (k + 1)) x = iteration A M orders[k] (pagerank A M (orders.take k) x) := by
  rw [List.take_succ_eq_append_getElem hk, pagerank, List.foldl_append]
  rfl

/-- Iterations that are right up to one of them have left the iterates of the simultaneous step. -/
theorem pagerank_take_eq {orders : List (List ℕ)} {k : ℕ} (hk : k ≤ orders.length)
    (hright : ∀ j < k, pagerank A M (orders.take (j + 1)) x =
      simultaneous A M N (pagerank A M (orders.take j) x)) :
    pagerank A M (orders.take k) x = (simultaneous A M N)^[k] x := by
  induction k with
  | zero => rfl
  | succ k ih =>
      rw [hright k (Nat.lt_succ_self k),
        ih (Nat.le_of_succ_le hk) fun j hj => hright j (Nat.lt_succ_of_lt hj),
        Function.iterate_succ_apply']

/-- The kernel with given orders reads old values exactly when no row of any of its iterations finds an
interference. -/
theorem readsOld_iff (hNM : N ≤ M) {orders : List (List ℕ)}
    (horders : ∀ order ∈ orders, order.Perm (List.range N)) (x : ℕ → Datatype) :
    ReadsOld A M N orders x ↔
      ∀ k (hk : k < orders.length), Undisturbed A M orders[k] ((simultaneous A M N)^[k] x) := by
  constructor
  · intro h k hk
    have hstate := pagerank_take_eq hk.le fun j hj => h.iteration_eq j (hj.trans hk)
    have hstep := h.iteration_eq k hk
    rw [pagerank_take_succ hk, hstate] at hstep
    exact (iteration_eq_simultaneous_iff hNM (horders _ (List.getElem_mem hk)) _).mp hstep
  · intro h
    have hright : ∀ k < orders.length,
        pagerank A M (orders.take (k + 1)) x = simultaneous A M N (pagerank A M (orders.take k) x) := by
      intro k
      induction k using Nat.strong_induction_on with
      | _ k ih =>
          intro hk
          have hstate := pagerank_take_eq hk.le fun j hj => ih j hj (hj.trans hk)
          rw [pagerank_take_succ hk, hstate]
          exact (iteration_eq_simultaneous_iff hNM (horders _ (List.getElem_mem hk)) _).mpr (h k hk)
    refine ⟨hright, ?_⟩
    have hlast := pagerank_take_eq le_rfl hright
    rwa [List.take_length] at hlast

/-- **When the iterations are order-independent**: with given orders, when no row finds an interference; in
all orders, exactly when no two rows meet in any of the iterates. -/
theorem pagerank_readsOld_iff (hNM : N ≤ M) (A x : ℕ → Datatype) :
    (∀ orders : List (List ℕ), (∀ order ∈ orders, order.Perm (List.range N)) →
      (ReadsOld A M N orders x ↔
        ∀ k (hk : k < orders.length), Undisturbed A M orders[k] ((simultaneous A M N)^[k] x))) ∧
    ∀ I, (∀ orders : List (List ℕ), orders.length = I → (∀ order ∈ orders, order.Perm (List.range N)) →
        ReadsOld A M N orders x) ↔
      ∀ k < I, Quiet A M N ((simultaneous A M N)^[k] x) := by
  refine ⟨fun orders horders => readsOld_iff hNM horders x, fun I => ⟨fun h k hk => ?_, ?_⟩⟩
  · rw [← forall_undisturbed_iff]
    intro order horder
    have hall : ∀ o ∈ List.replicate I order, o.Perm (List.range N) := fun o ho => by
      rw [List.eq_of_mem_replicate ho]
      exact horder
    have hquiet := (readsOld_iff hNM hall x).mp (h _ List.length_replicate hall) k (by simpa using hk)
    rwa [List.getElem_replicate] at hquiet
  · rintro hquiet orders rfl horders
    rw [readsOld_iff hNM horders]
    intro k hk
    exact (forall_undisturbed_iff A M N _).mpr (hquiet k hk) _ (horders _ (List.getElem_mem hk))

/-- A matrix with one entry, on its diagonal: its rows do not meet, and an iteration reads the old vector in
every order. With a column of ones the second row meets the first. -/
theorem pagerank_readsOld_iff_two :
    (∀ orders : List (List ℕ), orders.length = 1 → (∀ order ∈ orders, order.Perm (List.range 2)) →
      ReadsOld (fun k => if k = 3 then 5 else 0) 2 2 orders (fun m => if m = 1 then 7 else 0)) ∧
    ¬ ReadsOld (fun k => if k % 2 = 0 then 1 else 0) 2 2 [[0, 1]] (fun m => if m = 0 then 1 else 0) := by
  constructor
  · have hquiet : Quiet (fun k => if k = 3 then 5 else 0) 2 2 fun m => if m = 1 then 7 else 0 := by
      unfold Quiet
      decide
    refine ((pagerank_readsOld_iff le_rfl _ _).2 1).mpr fun k hk => ?_
    rw [Nat.lt_one_iff.mp hk]
    exact hquiet
  · have hrows : ∀ order ∈ [[0, 1]], order.Perm (List.range 2) := fun order horder => by
      rw [List.mem_singleton.mp horder]
      decide
    intro hreads
    have hmeet := ((pagerank_readsOld_iff le_rfl _ _).1 [[0, 1]] hrows).mp hreads 0 (by decide) [0] 1 [] rfl
    exact absurd hmeet (by decide)

/-- Two rows that both copy the first entry: the second adds what the first has written. -/
theorem pagerank_reads_new :
    ¬ ∀ orders : List (List ℕ), (∀ order ∈ orders, order.Perm (List.range 2)) →
      ReadsOld (fun k => if k % 2 = 0 then 1 else 0) 2 2 orders (fun m => if m = 0 then 1 else 0) := by
  intro h
  have hrows : ∀ order ∈ [[0, 1]], order.Perm (List.range 2) := fun order horder => by
    rw [List.mem_singleton.mp horder]
    decide
  have hquiet := (readsOld_iff le_rfl hrows _).mp (h [[0, 1]] hrows) 0 (by decide) [0] 1 [] rfl
  exact absurd hquiet (by decide)

end RacerArtifacts.Marss.PageRank
