import Mathlib

/-! Assignments to keys, in the order they are made: the last one to a key is what the key has. A sorted
map that takes assignments one by one, as a `std::map` does, has for each key what the last assignment
to it says. -/

namespace Assignments

variable {κ ν : Type*}

/-- What the last assignment to a key says. -/
def lastOf [DecidableEq κ] (k : κ) : List (κ × ν) → Option ν
  | [] => none
  | a :: as => (lastOf k as).or (if a.1 = k then some a.2 else none)

section lastOf

variable [DecidableEq κ] {k : κ}

theorem lastOf_cons (a : κ × ν) (as : List (κ × ν)) :
    lastOf k (a :: as) = (lastOf k as).or (if a.1 = k then some a.2 else none) := rfl

theorem lastOf_append (as bs : List (κ × ν)) : lastOf k (as ++ bs) = (lastOf k bs).or (lastOf k as) := by
  induction as with
  | nil => exact Option.or_none.symm
  | cons a as ih => rw [List.cons_append, lastOf_cons, lastOf_cons, ih, Option.or_assoc]

theorem lastOf_eq_none {as : List (κ × ν)} (h : ∀ a ∈ as, a.1 ≠ k) : lastOf k as = none := by
  induction as with
  | nil => rfl
  | cons a as ih =>
      obtain ⟨ha, has⟩ := List.forall_mem_cons.mp h
      rw [lastOf_cons, ih has, if_neg ha]
      rfl

end lastOf

variable [LinearOrder κ] {k : κ}

/-- `map[k] = v` on the entries of a map. -/
def insert (k : κ) (v : ν) : List (κ × ν) → List (κ × ν)
  | [] => [(k, v)]
  | a :: as => if k < a.1 then (k, v) :: a :: as else if k = a.1 then (k, v) :: as else a :: insert k v as

/-- The map of some assignments. -/
def toMap (as : List (κ × ν)) : List (κ × ν) :=
  as.foldl (fun m a => insert a.1 a.2 m) []

/-- The entries of a map are in the order of their keys, which do not repeat. -/
def Sorted (m : List (κ × ν)) : Prop :=
  m.Pairwise fun a b => a.1 < b.1

theorem mem_insert {k : κ} {v : ν} {m : List (κ × ν)} {b : κ × ν} (h : b ∈ insert k v m) :
    b = (k, v) ∨ b ∈ m := by
  induction m with
  | nil => exact .inl (List.mem_singleton.mp h)
  | cons a as ih =>
      rw [insert] at h
      split_ifs at h
      · exact List.mem_cons.mp h
      · rcases List.mem_cons.mp h with rfl | h
        · exact .inl rfl
        · exact .inr (List.mem_cons_of_mem a h)
      · rcases List.mem_cons.mp h with rfl | h
        · exact .inr List.mem_cons_self
        · exact (ih h).imp_right (List.mem_cons_of_mem a)

theorem Sorted.insert {m : List (κ × ν)} (h : Sorted m) (k : κ) (v : ν) : Sorted (insert k v m) := by
  induction m with
  | nil => exact List.pairwise_singleton _ _
  | cons a as ih =>
      obtain ⟨ha, has⟩ := List.pairwise_cons.mp h
      rw [Assignments.insert]
      split_ifs with hlt heq
      · refine List.pairwise_cons.mpr ⟨fun b hb => ?_, h⟩
        rcases List.mem_cons.mp hb with rfl | hb
        · exact hlt
        · exact hlt.trans (ha b hb)
      · subst heq
        exact List.pairwise_cons.mpr ⟨ha, has⟩
      · refine List.pairwise_cons.mpr ⟨fun b hb => ?_, ih has⟩
        rcases mem_insert hb with rfl | hb
        · exact lt_of_le_of_ne (not_lt.mp hlt) (Ne.symm heq)
        · exact ha b hb

theorem lastOf_insert [DecidableEq κ] {m : List (κ × ν)} (h : Sorted m) (k' : κ) (v : ν) :
    lastOf k (insert k' v m) = if k' = k then some v else lastOf k m := by
  induction m with
  | nil => rfl
  | cons a as ih =>
      obtain ⟨ha, has⟩ := List.pairwise_cons.mp h
      have hnone : ∀ k ≤ a.1, lastOf k as = none :=
        fun k hk => lastOf_eq_none fun b hb => (hk.trans_lt (ha b hb)).ne'
      rw [insert]
      by_cases hlt : k' < a.1
      · rw [if_pos hlt, lastOf_cons]
        by_cases hkey : k' = k
        · subst hkey
          rw [lastOf_cons, hnone k' hlt.le, if_neg hlt.ne', if_pos rfl, if_pos rfl]
          rfl
        · rw [if_neg hkey, if_neg hkey, Option.or_none]
      rw [if_neg hlt]
      by_cases heq : k' = a.1
      · rw [if_pos heq, lastOf_cons, lastOf_cons, ← heq]
        by_cases hkey : k' = k
        · subst hkey
          rw [hnone k' heq.le, if_pos rfl, if_pos rfl]
          rfl
        · rw [if_neg hkey, if_neg hkey, if_neg hkey]
      · rw [if_neg heq, lastOf_cons, ih has, lastOf_cons]
        split_ifs <;> rfl

/-- **The map of some assignments** is sorted, and has for each key what the last assignment to it says. -/
theorem lastOf_toMap [DecidableEq κ] (as : List (κ × ν)) : Sorted (toMap as) ∧
    lastOf k (toMap as) = lastOf k as := by
  induction as using List.reverseRecOn with
  | nil => exact ⟨List.Pairwise.nil, rfl⟩
  | append_singleton as a ih =>
      have hmap : toMap (as ++ [a]) = insert a.1 a.2 (toMap as) := List.foldl_concat _ _ _ _
      rw [hmap, lastOf_insert ih.1, lastOf_append, ih.2]
      refine ⟨ih.1.insert a.1 a.2, ?_⟩
      rw [lastOf_cons]
      split_ifs <;> rfl

end Assignments
