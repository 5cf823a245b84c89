import Mathlib

/-! Counting what lies where: a list sorted into classes, and a table of which one entry changes. -/

namespace Census

open Finset

variable {α β ι κ : Type*}

theorem coe_middle (front rest : List α) (a : α) :
    (↑(front ++ a :: rest) : Multiset α) = ↑(front ++ rest) + {a} := by
  rw [add_comm, Multiset.singleton_add, Multiset.cons_coe]
  exact Multiset.coe_eq_coe.mpr List.perm_middle

theorem sum_classes (kind : α → ℕ) (g : α → β) {n : ℕ} {l : List α} (h : ∀ a ∈ l, kind a < n) :
    ∑ r ∈ range n, (↑((l.filter fun a => decide (kind a = r)).map g) : Multiset β) = ↑(l.map g) := by
  induction l with
  | nil => exact sum_eq_zero fun r _ => rfl
  | cons a l ih =>
      have hcons : ∀ r, (↑(((a :: l).filter fun a => decide (kind a = r)).map g) : Multiset β) =
          (if kind a = r then {g a} else 0) + ↑((l.filter fun a => decide (kind a = r)).map g) := by
        intro r
        by_cases hr : kind a = r
        · rw [if_pos hr, List.filter_cons, if_pos (decide_eq_true hr), List.map_cons, Multiset.singleton_add,
            Multiset.cons_coe]
        · rw [if_neg hr, List.filter_cons, if_neg (by rwa [decide_eq_true_eq]), zero_add]
      rw [sum_congr rfl fun r _ => hcons r, sum_add_distrib, ih fun b hb => h b (List.mem_cons_of_mem a hb),
        sum_ite_eq, if_pos (mem_range.mpr (h a List.mem_cons_self)), List.map_cons, Multiset.singleton_add,
        Multiset.cons_coe]

theorem coe_flatMap_range (f : ℕ → List β) (n : ℕ) :
    (↑((List.range n).flatMap f) : Multiset β) = ∑ r ∈ range n, ↑(f r) := by
  induction n with
  | zero => rfl
  | succ n ih => rw [List.range_succ, List.flatMap_append, List.flatMap_singleton, ← Multiset.coe_add, ih,
      sum_range_succ]

theorem sum_set [DecidableEq ι] [DecidableEq κ] (rows : Finset ι) (columns : ι → Finset κ)
    {f g : ι → κ → Multiset β} {i : ι} {k : κ} (hi : i ∈ rows) (hk : k ∈ columns i)
    (hother : ∀ j l, ¬ (j = i ∧ l = k) → g j l = f j l) :
    (∑ j ∈ rows, ∑ l ∈ columns j, g j l) + f i k = (∑ j ∈ rows, ∑ l ∈ columns j, f j l) + g i k := by
  have hcolumn : (∑ l ∈ columns i, g i l) + f i k = (∑ l ∈ columns i, f i l) + g i k := by
    have hrest : ∑ l ∈ (columns i).erase k, g i l = ∑ l ∈ (columns i).erase k, f i l :=
      sum_congr rfl fun l hl => hother i l fun h => (mem_erase.mp hl).1 h.2
    rw [← add_sum_erase _ _ hk, ← add_sum_erase _ (f i) hk, hrest]
    abel
  have hrest : ∑ j ∈ rows.erase i, ∑ l ∈ columns j, g j l = ∑ j ∈ rows.erase i, ∑ l ∈ columns j, f j l :=
    sum_congr rfl fun j hj => sum_congr rfl fun l _ => hother j l fun h => (mem_erase.mp hj).1 h.1
  rw [← add_sum_erase _ _ hi, ← add_sum_erase _ (fun j => ∑ l ∈ columns j, f j l) hi, hrest,
    add_right_comm, hcolumn,
    add_right_comm]

end Census
