import RacerArtifacts.LibEditDistance
import RacerArtifacts.LibFallible

/-! `editDistDP`: the dynamic program for the edit distance that keeps two rows. Every access is checked
against its bounds. The values are natural numbers: they are distances of prefixes, so that no `int`
overflows. -/

namespace RacerArtifacts.Marss

open EditDistance Fallible

/-- An access with an index past the end of an array. -/
structure OutOfBounds where
  index : ℕ
  bound : ℕ
  deriving DecidableEq, Repr

/-- `int DP[2][width]` -/
structure Table where
  width : ℕ
  cell : ℕ → ℕ → ℕ

namespace Table

/-- `memset(DP, 0, sizeof DP)` -/
def zero (width : ℕ) : Table :=
  { width, cell := fun _ _ => 0 }

def read (DP : Table) (i j : ℕ) : Except OutOfBounds ℕ :=
  if ¬ i < 2 then .error ⟨i, 2⟩
  else if ¬ j < DP.width then .error ⟨j, DP.width⟩
  else .ok (DP.cell i j)

def write (DP : Table) (i j value : ℕ) : Except OutOfBounds Table :=
  if ¬ i < 2 then .error ⟨i, 2⟩
  else if ¬ j < DP.width then .error ⟨j, DP.width⟩
  else .ok { DP with cell := Function.update DP.cell i (Function.update (DP.cell i) j value) }

end Table

variable {α : Type}

/-- `str[k]` -/
def charAt (str : List α) (k : ℕ) : Except OutOfBounds α :=
  match str[k]? with
  | some c => .ok c
  | none => .error ⟨k, str.length⟩

theorem charAt_ok {str : List α} {k : ℕ} (hk : k < str.length) : charAt str k = .ok str[k] := by
  rw [charAt, List.getElem?_eq_getElem hk]

theorem reverse_take_succ {str : List α} {k : ℕ} (hk : k < str.length) :
    (str.take (k + 1)).reverse = str[k] :: (str.take k).reverse := by
  rw [List.take_succ_eq_append_getElem hk, List.reverse_append]
  rfl

variable [DecidableEq α]

/-- The body of the inner loop. -/
def fillCell (str1 str2 : List α) (i j : ℕ) (DP : Table) : Except OutOfBounds Table :=
  -- The first string is empty: the characters of the second are added.
  if j = 0 then
    DP.write (i % 2) j i
  else do
    let c1 ← charAt str1 (j - 1)
    let c2 ← charAt str2 (i - 1)
    if c1 = c2 then do
      let diagonal ← DP.read ((i - 1) % 2) (j - 1)
      DP.write (i % 2) j diagonal
    else do
      let above ← DP.read ((i - 1) % 2) j
      let left ← DP.read (i % 2) (j - 1)
      let diagonal ← DP.read ((i - 1) % 2) (j - 1)
      DP.write (i % 2) j (1 + min above (min left diagonal))

/-- The inner loop. -/
def fillRow (str1 str2 : List α) (len1 i : ℕ) (DP : Table) : Except OutOfBounds Table :=
  (List.range (len1 + 1)).foldlM (fun DP j => fillCell str1 str2 i j DP) DP

def editDistDP (str1 str2 : List α) (len1 len2 : ℕ) : Except OutOfBounds ℕ := do
  let DP ← (List.range (len1 + 1)).foldlM (fun DP i => DP.write 0 i i) (Table.zero (len1 + 1))
  let DP ← (List.range len2).foldlM (fun DP k => fillRow str1 str2 len1 (k + 1) DP) DP
  DP.read (len2 % 2) len1

example : editDistDP [1, 2, 3, 4] [2, 3, 5, 4, 4] 4 5 = .ok 3 := by decide

theorem Table.read_ok {DP : Table} {i j : ℕ} (hi : i < 2) (hj : j < DP.width) :
    DP.read i j = .ok (DP.cell i j) := by
  rw [read, if_neg (not_not.mpr hi), if_neg (not_not.mpr hj)]

theorem Table.write_ok (DP : Table) {i j : ℕ} (hi : i < 2) (hj : j < DP.width) (value : ℕ) :
    ∃ DP', DP.write i j value = .ok DP' ∧ DP'.width = DP.width ∧ DP'.cell i j = value ∧
      ∀ i' j', i' ≠ i ∨ j' ≠ j → DP'.cell i' j' = DP.cell i' j' := by
  have hwrite : DP.write i j value =
      .ok { DP with cell := Function.update DP.cell i (Function.update (DP.cell i) j value) } := by
    rw [write, if_neg (not_not.mpr hi), if_neg (not_not.mpr hj)]
  refine ⟨_, hwrite, rfl, ?_, fun i' j' hne => ?_⟩
  · dsimp only
    rw [Function.update_self, Function.update_self]
  · dsimp only
    by_cases hi' : i' = i
    · subst hi'
      rw [Function.update_self, Function.update_of_ne (hne.resolve_left (not_not.mpr rfl))]
    · rw [Function.update_of_ne hi']

/-- The distance of the prefixes of lengths `j` and `i`. The program extends prefixes at their ends. -/
def prefixDistance (str1 str2 : List α) (j i : ℕ) : ℕ :=
  distance (str1.take j).reverse (str2.take i).reverse

theorem prefixDistance_zero (str1 str2 : List α) {i : ℕ} (hi : i ≤ str2.length) :
    prefixDistance str1 str2 0 i = i := by
  rw [prefixDistance, List.take_zero, List.reverse_nil, distance_nil_left, List.length_reverse,
    List.length_take,
    min_eq_left hi]

theorem prefixDistance_zero_right (str1 str2 : List α) {j : ℕ} (hj : j ≤ str1.length) :
    prefixDistance str1 str2 j 0 = j := by
  rw [prefixDistance, List.take_zero, List.reverse_nil, distance_nil_right, List.length_reverse,
    List.length_take,
    min_eq_left hj]

/-- The recursion of the prefix distances, as the program computes it. -/
theorem prefixDistance_succ (str1 str2 : List α) {j i : ℕ} (hj : j < str1.length) (hi : i < str2.length) :
    prefixDistance str1 str2 (j + 1) (i + 1) =
      if str1[j] = str2[i] then prefixDistance str1 str2 j i
      else 1 + min (prefixDistance str1 str2 (j + 1) i)
        (min (prefixDistance str1 str2 j (i + 1)) (prefixDistance str1 str2 j i)) := by
  simp only [prefixDistance]
  rw [reverse_take_succ hj, reverse_take_succ hi, distance]

/-- The rows while row `k + 1` is filled: the row before it is there, and the new one up to column `j`. -/
structure Rows (str1 str2 : List α) (k j : ℕ) (DP : Table) : Prop where
  width_eq : DP.width = str1.length + 1
  before : ∀ j' ≤ str1.length, DP.cell (k % 2) j' = prefixDistance str1 str2 j' k
  current : ∀ j' < j, DP.cell ((k + 1) % 2) j' = prefixDistance str1 str2 j' (k + 1)

variable {str1 str2 : List α} {k j : ℕ} {DP : Table}

/-- A write of the right value into the next cell of the new row. -/
theorem Rows.write (h : Rows str1 str2 k j DP) (hj : j ≤ str1.length) {value : ℕ}
    (hvalue : value = prefixDistance str1 str2 j (k + 1)) :
    ∃ DP', DP.write ((k + 1) % 2) j value = .ok DP' ∧ Rows str1 str2 k (j + 1) DP' := by
  obtain ⟨DP', hwrite, hwidth, hcell, hother⟩ := Table.write_ok DP (i := (k + 1) % 2) (j := j)
    (Nat.mod_lt _ (by decide)) (by rw [h.width_eq]; exact Nat.lt_succ_of_le hj) value
  refine ⟨DP', hwrite, hwidth.trans h.width_eq, fun j' hj' => ?_, fun j' hj' => ?_⟩
  · rw [hother _ _ (.inl (by omega))]
    exact h.before j' hj'
  · by_cases heq : j' = j
    · rw [heq, hcell, hvalue]
    · rw [hother _ _ (.inr heq)]
      exact h.current j' (by omega)

theorem Rows.fillCell (h : Rows str1 str2 k j DP) (hk : k < str2.length) (hj : j ≤ str1.length) :
    ∃ DP', fillCell str1 str2 (k + 1) j DP = .ok DP' ∧ Rows str1 str2 k (j + 1) DP' := by
  rw [Marss.fillCell]
  cases j with
  | zero => exact h.write hj (prefixDistance_zero str1 str2 hk).symm
  | succ j =>
      have hread : ∀ i < 2, ∀ j' ≤ j + 1, DP.read i j' = .ok (DP.cell i j') := fun i hi j' hj' =>
        Table.read_ok hi (by rw [h.width_eq]; omega)
      have hrow : ∀ i, i % 2 < 2 := fun i => Nat.mod_lt i (by decide)
      have hsucc := prefixDistance_succ str1 str2 (j := j) (i := k) hj hk
      rw [if_neg (Nat.succ_ne_zero j), Nat.add_sub_cancel, Nat.add_sub_cancel, charAt_ok hj, charAt_ok hk,
        hread _ (hrow k) _ le_rfl, hread _ (hrow (k + 1)) _ (Nat.le_succ j),
          hread _ (hrow k) _ (Nat.le_succ j),
        h.before (j + 1) hj, h.before j (Nat.le_of_succ_le hj), h.current j (Nat.lt_succ_self j)]
      change ∃ DP', (if str1[j] = str2[k] then _ else _) = _ ∧ _
      by_cases hsame : str1[j] = str2[k]
      · rw [if_pos hsame] at hsucc ⊢
        exact h.write hj hsucc.symm
      · rw [if_neg hsame] at hsucc ⊢
        exact h.write hj hsucc.symm

theorem baseRow_total (len1 : ℕ) : ∃ DP, (List.range (len1 + 1)).foldlM (fun (DP : Table) i => DP.write 0 i i)
    (Table.zero (len1 + 1)) = .ok DP ∧ DP.width = len1 + 1 ∧ ∀ j < len1 + 1, DP.cell 0 j = j := by
  refine foldlM_range_total (P := fun i (DP : Table) => DP.width = len1 + 1 ∧ ∀ j < i, DP.cell 0 j = j)
    ⟨rfl, fun j hj => absurd hj (Nat.not_lt_zero j)⟩ fun i hi DP ⟨hwidth, hrow⟩ => ?_
  obtain ⟨DP', hwrite, hwidth', hcell, hother⟩ := Table.write_ok DP (i := 0) (j := i) (by decide)
    (by rw [hwidth]; exact hi) i
  refine ⟨DP', hwrite, hwidth'.trans hwidth, fun j hj => ?_⟩
  by_cases heq : j = i
  · rw [heq, hcell]
  · rw [hother _ _ (.inr heq)]
    exact hrow j (by omega)

/-- The outer loop: the row of the second string's prefix is filled. -/
theorem fillRows_total (str1 str2 : List α) (hwidth : DP.width = str1.length + 1)
    (hrow : ∀ j < str1.length + 1, DP.cell 0 j = j) :
    ∃ DP', (List.range str2.length).foldlM (fun DP k => fillRow str1 str2 str1.length (k + 1) DP) DP =
      .ok DP' ∧
      DP'.width = str1.length + 1 ∧
      ∀ j ≤ str1.length, DP'.cell (str2.length % 2) j = prefixDistance str1 str2 j str2.length := by
  refine foldlM_range_total (P := fun k (DP : Table) => DP.width = str1.length + 1 ∧
    ∀ j ≤ str1.length, DP.cell (k % 2) j = prefixDistance str1 str2 j k)
    ⟨hwidth, fun j hj => ?_⟩ fun k hk DP ⟨hwidth, hrow⟩ => ?_
  · rw [prefixDistance_zero_right str1 str2 hj]
    exact hrow j (Nat.lt_succ_of_le hj)
  · have hstart : Rows str1 str2 k 0 DP := ⟨hwidth, hrow, fun j hj => absurd hj (Nat.not_lt_zero j)⟩
    obtain ⟨DP', hrow', hrows⟩ := foldlM_range_total (P := fun j DP => Rows str1 str2 k j DP)
        (n := str1.length + 1)
      hstart fun j hj DP h => h.fillCell hk (Nat.le_of_lt_succ hj)
    exact ⟨DP', hrow', hrows.width_eq, fun j hj => hrows.current j (Nat.lt_succ_of_le hj)⟩

theorem editDistDP_eq (str1 str2 : List α) : editDistDP str1 str2 str1.length str2.length =
    .ok (prefixDistance str1 str2 str1.length str2.length) := by
  obtain ⟨DP₀, hbase, hwidth, hrow⟩ := baseRow_total str1.length
  obtain ⟨DP, hfill, hwidth', hlast⟩ := fillRows_total str1 str2 hwidth hrow
  rw [editDistDP, hbase, ok_bind, hfill, ok_bind, Table.read_ok (Nat.mod_lt _ (by decide))
    (by rw [hwidth']; exact Nat.lt_succ_self _), hlast _ le_rfl]

/-- **The distance program is correct**: on strings of any lengths every index is in bounds, and what is
returned is the edit distance. The counters of the source are `int`, up to the lengths and one past them, so
that its lengths stay below 2 ^ 31 - 1; the program passes 4096 and 512. -/
theorem editDistDP_isDistance (str1 str2 : List α) :
    ∃ d, editDistDP str1 str2 str1.length str2.length = .ok d ∧ IsDistance d str1 str2 := by
  refine ⟨prefixDistance str1 str2 str1.length str2.length, editDistDP_eq str1 str2, ?_⟩
  rw [prefixDistance, List.take_length, List.take_length]
  exact (isDistance_distance _ _).of_reverse

/-- A cell whose characters are read compares two that are there. -/
theorem fillCell_reads {i j : ℕ} {DP' : Table} (hj : j ≠ 0) (h : fillCell str1 str2 i j DP = .ok DP') :
    j - 1 < str1.length ∧ i - 1 < str2.length := by
  have hread : ∀ {str : List α} {k : ℕ} {c : α}, charAt str k = .ok c → k < str.length := by
    intro str k c hc
    by_contra hlong
    rw [charAt, List.getElem?_eq_none (not_lt.mp hlong)] at hc
    cases hc
  rw [Marss.fillCell, if_neg hj] at h
  obtain ⟨c1, hc1, h⟩ := bind_ok h
  obtain ⟨c2, hc2, h⟩ := bind_ok h
  exact ⟨hread hc1, hread hc2⟩

omit [DecidableEq α] in
theorem charAt_take {str : List α} {n k : ℕ} (hk : k < n) (hn : n ≤ str.length) :
    charAt (str.take n) k = charAt str k := by
  rw [charAt_ok (hk.trans_le hn), charAt_ok (by rw [List.length_take]; omega), List.getElem_take]

/-- Only the prefixes of the lengths that are passed are read. -/
theorem editDistDP_take {len1 len2 : ℕ} (hlen1 : len1 ≤ str1.length) (hlen2 : len2 ≤ str2.length) :
    editDistDP (str1.take len1) (str2.take len2) len1 len2 = editDistDP str1 str2 len1 len2 := by
  have hcell : ∀ i < len2, ∀ j ∈ List.range (len1 + 1), ∀ DP,
      fillCell (str1.take len1) (str2.take len2) (i + 1) j DP = fillCell str1 str2 (i + 1) j DP := by
    intro i hi j hj DP
    rw [List.mem_range] at hj
    rw [Marss.fillCell, Marss.fillCell]
    by_cases hzero : j = 0
    · rw [if_pos hzero, if_pos hzero]
    · rw [if_neg hzero, if_neg hzero, charAt_take (by omega) hlen1, charAt_take (by omega) hlen2]
  rw [editDistDP, editDistDP]
  apply bind_congr
  intro DP
  congr 1
  apply foldlM_congr
  intro i hi DP
  exact foldlM_congr (hcell i (List.mem_range.mp hi)) DP

/-- **What the distance program reads**: all the characters of the lengths it is passed. -/
theorem editDistDP_ok_iff {len1 len2 : ℕ} (hpos1 : 0 < len1) (hpos2 : 0 < len2) :
    (∃ d, editDistDP str1 str2 len1 len2 = .ok d) ↔ len1 ≤ str1.length ∧ len2 ≤ str2.length := by
  constructor
  · rintro ⟨d, h⟩
    obtain ⟨DP₀, -, h⟩ := bind_ok h
    obtain ⟨DP, hfill, -⟩ := bind_ok h
    -- The last cell of the last row reads the last characters.
    obtain ⟨t, t', hrow⟩ := foldlM_ok_mem hfill (len2 - 1) (List.mem_range.mpr (by omega))
    obtain ⟨u, u', hcell⟩ := foldlM_ok_mem hrow len1 (List.mem_range.mpr (by omega))
    obtain ⟨h1, h2⟩ := fillCell_reads (by omega) hcell
    omega
  · rintro ⟨hlen1, hlen2⟩
    have heq := editDistDP_eq (str1.take len1) (str2.take len2)
    rw [List.length_take_of_le hlen1, List.length_take_of_le hlen2, editDistDP_take hlen1 hlen2] at heq
    exact ⟨_, heq⟩

end RacerArtifacts.Marss
