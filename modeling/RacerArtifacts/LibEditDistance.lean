import Mathlib

/-! The edit distance of two lists: the least number of insertions, deletions and substitutions of single
elements that turn one into the other, and the recursion that computes it. -/

namespace EditDistance

variable {α : Type*}

/-- One insertion, deletion or substitution. -/
inductive Edit : List α → List α → Prop
  | insert (l r : List α) (a : α) : Edit (l ++ r) (l ++ a :: r)
  | delete (l r : List α) (a : α) : Edit (l ++ a :: r) (l ++ r)
  | substitute (l r : List α) (a b : α) : Edit (l ++ a :: r) (l ++ b :: r)

/-- A number of edits, one after the other. -/
inductive Edits : ℕ → List α → List α → Prop
  | refl (xs : List α) : Edits 0 xs xs
  | step {n : ℕ} {xs ys zs : List α} (first : Edit xs ys) (rest : Edits n ys zs) : Edits (n + 1) xs zs

/-- The least number of edits from one list to the other. -/
def IsDistance (d : ℕ) (xs ys : List α) : Prop :=
  Edits d xs ys ∧ ∀ n, Edits n xs ys → d ≤ n

theorem Edit.cons {xs ys : List α} (h : Edit xs ys) (a : α) : Edit (a :: xs) (a :: ys) := by
  cases h with
  | insert l r b => exact .insert (a :: l) r b
  | delete l r b => exact .delete (a :: l) r b
  | substitute l r b c => exact .substitute (a :: l) r b c

theorem Edit.reverse {xs ys : List α} (h : Edit xs ys) : Edit xs.reverse ys.reverse := by
  cases h with
  | insert l r a =>
      rw [List.reverse_append, List.reverse_append, List.reverse_cons, List.append_assoc]
      exact .insert _ _ a
  | delete l r a =>
      rw [List.reverse_append, List.reverse_append, List.reverse_cons, List.append_assoc]
      exact .delete _ _ a
  | substitute l r a b =>
      rw [List.reverse_append, List.reverse_append, List.reverse_cons, List.reverse_cons, List.append_assoc,
        List.append_assoc]
      exact .substitute _ _ a b

theorem Edits.cons {n : ℕ} {xs ys : List α} (h : Edits n xs ys) (a : α) : Edits n (a :: xs) (a :: ys) := by
  induction h with
  | refl xs => exact .refl _
  | step first _ ih => exact .step (first.cons a) ih

theorem Edits.reverse {n : ℕ} {xs ys : List α} (h : Edits n xs ys) : Edits n xs.reverse ys.reverse := by
  induction h with
  | refl xs => exact .refl _
  | step first _ ih => exact .step first.reverse ih

theorem IsDistance.of_reverse {d : ℕ} {xs ys : List α} (h : IsDistance d xs.reverse ys.reverse) :
    IsDistance d xs ys := by
  refine ⟨?_, fun n hn => h.2 n hn.reverse⟩
  have hedits := h.1.reverse
  rwa [List.reverse_reverse, List.reverse_reverse] at hedits

theorem edits_nil_left (ys : List α) : Edits ys.length [] ys := by
  induction ys with
  | nil => exact .refl _
  | cons y ys ih => exact .step (.insert [] [] y) (ih.cons y)

theorem edits_nil_right (xs : List α) : Edits xs.length xs [] := by
  induction xs with
  | nil => exact .refl _
  | cons x xs ih => exact .step (.delete [] xs x) ih

variable [DecidableEq α]

/-- The recursion on the first elements, which does not look further where they are equal. -/
def distance : List α → List α → ℕ
  | [], ys => ys.length
  | xs, [] => xs.length
  | x :: xs, y :: ys =>
      if x = y then distance xs ys
      else 1 + min (distance (x :: xs) ys) (min (distance xs (y :: ys)) (distance xs ys))

@[simp] theorem distance_nil_left (ys : List α) : distance [] ys = ys.length := by
  rw [distance]

@[simp] theorem distance_nil_right (xs : List α) : distance xs [] = xs.length := by
  cases xs with
  | nil => rw [distance]
  | cons x xs => rw [distance]; exact fun h => by cases h

theorem distance_cons_self (x : α) (xs ys : List α) : distance (x :: xs) (x :: ys) = distance xs ys := by
  rw [distance, if_pos rfl]

theorem distance_cons_ne {x y : α} (hne : x ≠ y) (xs ys : List α) : distance (x :: xs) (y :: ys) =
    1 + min (distance (x :: xs) ys) (min (distance xs (y :: ys)) (distance xs ys)) := by
  rw [distance, if_neg hne]

theorem distance_comm (xs ys : List α) : distance xs ys = distance ys xs := by
  fun_induction distance xs ys with
  | case1 ys => rw [distance_nil_right]
  | case2 xs _ => rw [distance_nil_left]
  | case3 xs x ys ih => rw [distance_cons_self, ih]
  | case4 x xs y ys hne ih₁ ih₂ ih₃ =>
      rw [distance_cons_ne (Ne.symm hne), ih₁, ih₂, ih₃]
      omega

theorem distance_neighbour (n : ℕ) : ∀ xs ys : List α, xs.length + ys.length = n → ∀ x,
    distance (x :: xs) ys ≤ distance xs ys + 1 ∧ distance xs ys ≤ distance (x :: xs) ys + 1 := by
  induction n using Nat.strong_induction_on with
  | h n ih =>
    intro xs ys hn x
    cases ys with
    | nil =>
        rw [distance_nil_right, distance_nil_right, List.length_cons]
        omega
    | cons y ys =>
        rw [List.length_cons] at hn
        -- The same for the second list, from the swapped pair.
        have hsecond := ih (ys.length + xs.length) (by omega) ys xs rfl y
        rw [distance_comm (y :: ys) xs, distance_comm ys xs] at hsecond
        by_cases hxy : x = y
        · subst hxy
          rw [distance_cons_self]
          omega
        · have hfirst := ih (xs.length + ys.length) (by omega) xs ys rfl x
          rw [distance_cons_ne hxy]
          omega

theorem distance_cons_le (x : α) (xs ys : List α) : distance (x :: xs) ys ≤ distance xs ys + 1 :=
  (distance_neighbour _ xs ys rfl x).1

theorem distance_le_cons (x : α) (xs ys : List α) : distance xs ys ≤ distance (x :: xs) ys + 1 :=
  (distance_neighbour _ xs ys rfl x).2

/-- A substitution of the first element changes the distance by at most one. -/
theorem distance_substitute (a b : α) (r ys : List α) : distance (a :: r) ys ≤ distance (b :: r) ys + 1 := by
  induction ys with
  | nil =>
      rw [distance_nil_right, distance_nil_right, List.length_cons, List.length_cons]
      omega
  | cons y ys ih =>
      have hdelete := distance_le_cons b r ys
      have hinsert := distance_le_cons y ys r
      rw [distance_comm ys r, distance_comm (y :: ys) r] at hinsert
      by_cases ha : a = y
      · subst ha
        by_cases hb : b = a
        · subst hb
          omega
        · rw [distance_cons_self, distance_cons_ne hb]
          omega
      · by_cases hb : b = y
        · subst hb
          rw [distance_cons_self, distance_cons_ne ha]
          omega
        · rw [distance_cons_ne ha, distance_cons_ne hb]
          omega

theorem Edit.distance_le {xs xs' : List α} (h : Edit xs xs') (ys : List α) :
    distance xs ys ≤ distance xs' ys + 1 := by
  have hprefix : ∀ (l r r' : List α), (∀ ys, distance r ys ≤ distance r' ys + 1) → r.length ≤ r'.length + 1 →
      ∀ ys, distance (l ++ r) ys ≤ distance (l ++ r') ys + 1 := by
    intro l r r' hr hlength
    induction l with
    | nil => exact hr
    | cons c l ih =>
        intro ys
        induction ys with
        | nil =>
            rw [distance_nil_right, distance_nil_right, List.length_append, List.length_append]
            omega
        | cons y ys ihys =>
            rw [List.cons_append, List.cons_append] at *
            by_cases hcy : c = y
            · subst hcy
              rw [distance_cons_self, distance_cons_self]
              exact ih ys
            · rw [distance_cons_ne hcy, distance_cons_ne hcy]
              have := ih ys
              have := ih (y :: ys)
              omega
  cases h with
  | insert l r a => exact hprefix l r (a :: r) (distance_le_cons a r) (by rw [List.length_cons]; omega) ys
  | delete l r a => exact hprefix l (a :: r) r (distance_cons_le a r) (by rw [List.length_cons]) ys
  | substitute l r a b =>
      exact hprefix l (a :: r) (b :: r) (distance_substitute a b r)
        (by rw [List.length_cons, List.length_cons]; omega) ys

theorem distance_self (xs : List α) : distance xs xs = 0 := by
  induction xs with
  | nil => rw [distance_nil_left, List.length_nil]
  | cons x xs ih => rw [distance_cons_self, ih]

theorem distance_le {n : ℕ} {xs ys : List α} (h : Edits n xs ys) : distance xs ys ≤ n := by
  induction h with
  | refl xs => rw [distance_self]
  | @step n xs ys zs first _ ih =>
      calc distance xs zs ≤ distance ys zs + 1 := first.distance_le zs
        _ ≤ n + 1 := Nat.succ_le_succ ih

/-- **The recursion computes the edit distance.** -/
theorem isDistance_distance (xs ys : List α) : IsDistance (distance xs ys) xs ys := by
  refine ⟨?_, fun n hn => distance_le hn⟩
  fun_induction distance xs ys with
  | case1 ys => exact edits_nil_left ys
  | case2 xs _ => exact edits_nil_right xs
  | case3 xs x ys ih => exact ih.cons x
  | case4 x xs y ys hne ih₁ ih₂ ih₃ =>
      rw [Nat.add_comm]
      rcases min_choice (distance (x :: xs) ys) (min (distance xs (y :: ys)) (distance xs ys)) with
        hmin | hmin
      · rw [hmin]
        exact .step (.insert [] (x :: xs) y) (ih₁.cons y)
      · rw [hmin]
        rcases min_choice (distance xs (y :: ys)) (distance xs ys) with hmin' | hmin'
        · rw [hmin']
          exact .step (.delete [] xs x) ih₂
        · rw [hmin']
          exact .step (.substitute [] xs x y) (ih₃.cons y)

end EditDistance
