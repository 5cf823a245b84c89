import Mathlib

/-! Taking turns among `N` with a slip: the `k`-th goes to `k % N`, but where that is 0 it may go elsewhere.
How many each gets, and when no two differ by more than one. -/

namespace Turns

/-- The `k`-th of a sequence goes to its turn, unless the turn is that of 0. -/
structure InTurn (N : ℕ) (goes : ℕ → ℕ) : Prop where
  lt : ∀ k, goes k < N
  turn : ∀ k, k % N ≠ 0 → goes k = k % N

/-- The turn of 0, taken by another. -/
def Slip (N : ℕ) (goes : ℕ → ℕ) (k : ℕ) : Prop :=
  k % N = 0 ∧ goes k ≠ 0

instance (N : ℕ) (goes : ℕ → ℕ) : DecidablePred (Slip N goes) := fun _ =>
  inferInstanceAs (Decidable (_ ∧ _))

variable {N : ℕ} {goes : ℕ → ℕ}

/-- How many of the first `n` turns are those of `c`. -/
theorem count_turns (hpos : 0 < N) {c : ℕ} (hc : c < N) (n : ℕ) :
    Nat.count (fun k => k % N = c) n = n / N + if c < n % N then 1 else 0 := by
  have hmod : (fun k => k % N = c) = fun k => k ≡ c [MOD N] := by
    funext k
    rw [Nat.ModEq, Nat.mod_eq_of_lt hc]
  simp only [hmod]
  rw [Nat.count_modEq_card n hpos, Nat.mod_eq_of_lt hc]

theorem InTurn.count_of_ne (h : InTurn N goes) {c : ℕ} (hc : c ≠ 0) (n : ℕ) :
    Nat.count (fun k => goes k = c) n =
      Nat.count (fun k => k % N = c) n + Nat.count (fun k => Slip N goes k ∧ goes k = c) n := by
  induction n with
  | zero => rfl
  | succ n ih =>
      simp only [Nat.count_succ, ih]
      by_cases hzero : n % N = 0
      · have hslip : (Slip N goes n ∧ goes n = c) ↔ goes n = c :=
          ⟨And.right, fun hto => ⟨⟨hzero, fun hbad => hc (hto.symm.trans hbad)⟩, hto⟩⟩
        simp only [hslip, hzero, hc.symm, if_false]
        omega
      · have hslip : ¬ (Slip N goes n ∧ goes n = c) := fun hbad => hzero hbad.1.1
        rw [if_neg hslip, h.turn n hzero]
        omega

theorem InTurn.count_zero (h : InTurn N goes) (n : ℕ) :
    Nat.count (fun k => goes k = 0) n + Nat.count (Slip N goes) n = Nat.count (fun k => k % N = 0) n := by
  induction n with
  | zero => rfl
  | succ n ih =>
      simp only [Nat.count_succ, ← ih]
      by_cases hzero : n % N = 0
      · by_cases hto : goes n = 0
        · have hslip : ¬ Slip N goes n := fun hbad => hbad.2 hto
          simp only [hzero, hto, hslip, if_true, if_false]
          omega
        · have hslip : Slip N goes n := ⟨hzero, hto⟩
          simp only [hzero, hto, hslip, if_true, if_false]
          omega
      · have hslip : ¬ Slip N goes n := fun hbad => hzero hbad.1
        simp only [h.turn n hzero, hzero, hslip, if_false]
        omega

/-- No two of the first `n` counts differ by more than one. -/
def Fair (N : ℕ) (goes : ℕ → ℕ) (n : ℕ) : Prop :=
  ∀ c < N, ∀ c' < N, Nat.count (fun k => goes k = c) n ≤ Nat.count (fun k => goes k = c') n + 1

theorem count_eq_one {p : ℕ → Prop} [DecidablePred p] {n k : ℕ} (hk : k < n) (hp : p k)
    (hone : ∀ j < n, p j → j = k) : Nat.count p n = 1 := by
  rw [Nat.count_eq_card_filter_range, Finset.card_eq_one]
  refine ⟨k, ?_⟩
  ext j
  rw [Finset.mem_filter, Finset.mem_singleton, Finset.mem_range]
  exact ⟨fun hj => hone j hj.1 hj.2, fun hj => hj ▸ ⟨hk, hp⟩⟩

theorem InTurn.pos (h : InTurn N goes) : 0 < N :=
  lt_of_le_of_lt (Nat.zero_le _) (h.lt 0)

/-- Where `c` has what slipped to it, 0 lacks it: the two counts are two apart, unless the last round
made it good. -/
theorem InTurn.of_fair (h : InTurn N goes) {n k : ℕ} (hfair : Fair N goes n) (hk : k < n)
    (hslip : Slip N goes k) :
    Nat.count (Slip N goes) n ≤ 1 ∧ 0 < n % N ∧ n % N ≤ goes k := by
  have hzero := h.count_zero n
  have hcount := h.count_of_ne hslip.2 n
  rw [count_turns h.pos h.pos] at hzero
  rw [count_turns h.pos (h.lt k)] at hcount
  have hdiff := hfair (goes k) (h.lt k) 0 h.pos
  have hslips : Nat.count (fun j => Slip N goes j ∧ goes j = goes k) n ≤ Nat.count (Slip N goes) n :=
    Nat.count_mono_left fun j _ hj => hj.1
  have htaken : 0 < Nat.count (fun j => Slip N goes j ∧ goes j = goes k) n :=
    Nat.pos_of_ne_zero (Nat.count_ne_iff_exists.mpr ⟨k, hk, hslip, rfl⟩)
  split_ifs at hzero hcount <;> omega

theorem InTurn.fair_of_no_slip (h : InTurn N goes) {n : ℕ} (hnone : ∀ k < n, ¬ Slip N goes k) :
    Fair N goes n := by
  have hnoslip : Nat.count (Slip N goes) n = 0 := Nat.count_of_forall_not hnone
  have hzero := h.count_zero n
  rw [count_turns h.pos h.pos] at hzero
  have hturns : ∀ c < N, Nat.count (fun k => goes k = c) n = n / N + if c < n % N then 1 else 0 := by
    intro c hc
    by_cases hc0 : c = 0
    · subst hc0
      omega
    · have hslips : Nat.count (fun j => Slip N goes j ∧ goes j = c) n ≤ Nat.count (Slip N goes) n :=
        Nat.count_mono_left fun j _ hj => hj.1
      rw [h.count_of_ne hc0, count_turns h.pos hc]
      omega
  intro c hc c' hc'
  rw [hturns c hc, hturns c' hc']
  split_ifs <;> omega

theorem InTurn.fair_of_one_slip (h : InTurn N goes) {n k : ℕ} (hk : k < n) (hslip : Slip N goes k)
    (hone : ∀ j < n, Slip N goes j → j = k) (hround : 0 < n % N) (hle : n % N ≤ goes k) : Fair N goes n := by
  have hzero := h.count_zero n
  rw [count_turns h.pos h.pos, count_eq_one hk hslip hone] at hzero
  have hslips : ∀ c, Nat.count (fun j => Slip N goes j ∧ goes j = c) n = if c = goes k then 1 else 0 := by
    intro c
    by_cases hc : c = goes k
    · rw [if_pos hc]
      exact count_eq_one hk ⟨hslip, hc.symm⟩ fun j hj hjslip => hone j hj hjslip.1
    · rw [if_neg hc]
      refine Nat.count_of_forall_not fun j hj hjc => hc ?_
      rw [← hjc.2, hone j hj hjc.1]
  have hbounds : ∀ c < N, n / N ≤ Nat.count (fun k => goes k = c) n ∧
      Nat.count (fun k => goes k = c) n ≤ n / N + 1 := by
    intro c hc
    by_cases hc0 : c = 0
    · subst hc0
      rw [if_pos hround] at hzero
      omega
    · rw [h.count_of_ne hc0, count_turns h.pos hc, hslips]
      by_cases hck : c = goes k
      · rw [if_pos hck, if_neg (by omega)]
        omega
      · rw [if_neg hck]
        split_ifs <;> omega
  intro c hc c' hc'
  calc Nat.count (fun k => goes k = c) n
      ≤ n / N + 1 := (hbounds c hc).2
    _ ≤ Nat.count (fun k => goes k = c') n + 1 := Nat.succ_le_succ (hbounds c' hc').1

/-- One slip, to `c`, is made good while the last round has come past 0 but not past `c`. -/
theorem InTurn.fair_iff (h : InTurn N goes) (n : ℕ) :
    Fair N goes n ↔ (∀ k < n, ¬ Slip N goes k) ∨
      ∃ k < n, Slip N goes k ∧ (∀ j < n, Slip N goes j → j = k) ∧ 0 < n % N ∧ n % N ≤ goes k := by
  constructor
  · intro hfair
    by_cases hsome : ∃ k < n, Slip N goes k
    · obtain ⟨k, hk, hslip⟩ := hsome
      obtain ⟨hsingle, hround, hle⟩ := h.of_fair hfair hk hslip
      refine .inr ⟨k, hk, hslip, fun j hj hjslip => ?_, hround, hle⟩
      have hj' := Nat.count_strict_mono hjslip hj
      have hk' := Nat.count_strict_mono hslip hk
      apply Nat.count_injective hjslip hslip
      omega
    · exact .inl fun k hk hslip => hsome ⟨k, hk, hslip⟩
  · rintro (hnone | ⟨k, hk, hslip, hone, hround, hle⟩)
    · exact h.fair_of_no_slip hnone
    · exact h.fair_of_one_slip hk hslip hone hround hle

theorem count_list {l : List ℕ} (hl : ∀ k (hk : k < l.length), l[k] = goes k) (c : ℕ) :
    l.count c = Nat.count (fun k => goes k = c) l.length := by
  induction l using List.reverseRecOn with
  | nil => rfl
  | append_singleton l x ih =>
      have hinit : ∀ k (hk : k < l.length), l[k] = goes k := by
        intro k hk
        rw [← hl k (by rw [List.length_append]; omega), List.getElem_append_left hk]
      have hlast : x = goes l.length := by
        rw [← hl l.length (by rw [List.length_append, List.length_singleton]; omega)]
        exact (List.getElem_concat_length rfl _).symm
      rw [List.count_append, List.length_append, List.length_singleton, Nat.count_succ, ih hinit,
        List.count_singleton, hlast]
      simp only [beq_iff_eq]

end Turns
