import RacerArtifacts.LibFallible

/-! Loops that count: a step done a number of times, a loop whose condition looks at a counter of its own and
not at what its body changes, and the arithmetic of a counter that catches up with another one. -/

namespace Pacing

open Fallible

universe u

variable {ε : Type*} {σ : Type u} {τ : Type} {f : σ → Except ε σ}

/-- The step done `n` times. -/
def times (f : σ → Except ε σ) : ℕ → σ → Except ε σ
  | 0, s => .ok s
  | n + 1, s => f s >>= times f n

@[simp]
theorem times_zero (s : σ) : times f 0 s = .ok s := rfl

@[simp]
theorem times_succ (n : ℕ) (s : σ) : times f (n + 1) s = f s >>= times f n := rfl

theorem times_one (s : σ) : times f 1 s = f s := by
  rw [times_succ]
  cases f s <;> rfl

theorem times_add (m n : ℕ) (s : σ) : times f (m + n) s = times f m s >>= times f n := by
  induction m generalizing s with
  | zero => rw [Nat.zero_add, times_zero, ok_bind]
  | succ m ih =>
      rw [Nat.succ_add, times_succ, times_succ, bind_assoc]
      apply bind_congr
      intro t
      exact ih t

theorem times_mapError {ε' : Type*} (g : ε → ε') (n : ℕ) (s : σ) :
    times (fun s => (f s).mapError g) n s = (times f n s).mapError g := by
  induction n generalizing s with
  | zero => rfl
  | succ n ih =>
      rw [times_succ, times_succ, bind_mapError]
      apply bind_congr
      intro t
      exact ih t

/-- What holds behind a number of steps, if one step more makes it hold behind one step more. -/
theorem times_counted {P : ℕ → σ → Prop} (hstep : ∀ i s s', P i s → f s = .ok s' → P (i + 1) s')
    {i n : ℕ} {s s' : σ} (hs : P i s) (h : times f n s = .ok s') : P (i + n) s' := by
  induction n generalizing i s with
  | zero =>
      cases h
      exact hs
  | succ n ih =>
      rw [times_succ] at h
      obtain ⟨t, ht, h⟩ := bind_ok h
      rw [Nat.add_comm n 1, ← Nat.add_assoc]
      exact ih (hstep i s t hs ht) h

theorem times_ok {P : σ → Prop} (hstep : ∀ s s', P s → f s = .ok s' → P s') {n : ℕ} {s s' : σ} (hs : P s)
    (h : times f n s = .ok s') : P s' := by
  refine times_counted (P := fun _ => P) (fun _ => hstep) (i := 0) hs h

theorem times_clock {clock : σ → ℕ} (hstep : ∀ s s', f s = .ok s' → clock s' = clock s + 1) {n : ℕ} {s s' : σ}
    (h : times f n s = .ok s') : clock s' = clock s + n := by
  have hcounted := times_counted (P := fun i t => clock t = clock s + i) (i := 0)
      (fun i t t' ht hstep' => ?_) rfl h
  · rwa [Nat.zero_add] at hcounted
  · rw [hstep t t' hstep', ht, Nat.add_assoc]

/-- A step that succeeds wherever something holds, and keeps it, succeeds any number of times. -/
theorem times_total {P : σ → Prop} (hstep : ∀ s, P s → ∃ s', f s = .ok s' ∧ P s') (n : ℕ) {s : σ} (hs : P s) :
    ∃ s', times f n s = .ok s' ∧ P s' := by
  induction n generalizing s with
  | zero => exact ⟨s, rfl, hs⟩
  | succ n ih =>
      obtain ⟨t, ht, hP⟩ := hstep s hs
      rw [times_succ, ht, ok_bind]
      exact ih hP

/-- Work is drained where each step does some of it or waits, and no wait is longer than `D`. -/
theorem times_drained {P : σ → Prop} {work : σ → ℕ} {H : ℕ → σ → Prop} {D : ℕ}
    (hstep : ∀ s s' k, P s → k ≤ D → H k s → f s = .ok s' → P s' ∧
      (work s' < work s ∧ H D s' ∨ work s' ≤ work s ∧ H (k - 1) s' ∧ (k = 0 → work s = 0)))
    {n k : ℕ} {s s' : σ} (hs : P s) (hk : k ≤ D) (hheld : H k s) (hn : work s * (D + 1) + k ≤ n + D)
    (h : times f n s = .ok s') : P s' ∧ work s' = 0 := by
  induction n generalizing s k with
  | zero =>
      cases h
      refine ⟨hs, ?_⟩
      by_contra hne
      have hlarge := Nat.mul_le_mul_right (D + 1) (Nat.one_le_iff_ne_zero.mpr hne)
      omega
  | succ n ih =>
      rw [times_succ] at h
      obtain ⟨t, ht, h⟩ := bind_ok h
      obtain ⟨hinv, ⟨hless, hheld'⟩ | ⟨hle, hheld', hidle⟩⟩ := hstep s t k hs hk hheld ht
      · -- Some work was done, and the next wait is no longer than `D`.
        refine ih hinv (le_refl D) hheld' ?_ h
        have hmul : (work t + 1) * (D + 1) ≤ work s * (D + 1) := Nat.mul_le_mul_right _ hless
        rw [Nat.add_mul] at hmul
        omega
      · -- The step was waited, so the wait is shorter by one.
        refine ih hinv ((Nat.sub_le k 1).trans hk) hheld' ?_ h
        have hmul : work t * (D + 1) ≤ work s * (D + 1) := Nat.mul_le_mul_right _ hle
        rcases Nat.eq_zero_or_pos k with rfl | hpos
        · rw [hidle rfl, Nat.zero_mul] at hmul
          omega
        · omega

theorem foldlM_replicate {α : Type*} (f : σ → α → Except ε σ) (a : α) (n : ℕ) (s : σ) :
    (List.replicate n a).foldlM f s = times (fun s => f s a) n s := by
  induction n generalizing s with
  | zero => rfl
  | succ n ih =>
      rw [List.replicate_succ, List.foldlM_cons, times_succ]
      apply bind_congr
      intro t
      exact ih t

/-- `while (running counter) { counter = next counter; body; }`, with a bound on the rounds. -/
def whileLoop (running : τ → Bool) (next : τ → τ) (body : σ → Except ε σ) (stuck : ε) :
    ℕ → τ → σ → Except ε (τ × σ)
  | 0, _, _ => .error stuck
  | fuel + 1, counter, s =>
      if running counter then
        body s >>= whileLoop running next body stuck fuel (next counter)
      else
        .ok (counter, s)

variable {running : τ → Bool} {next : τ → τ} {body : σ → Except ε σ} {stuck : ε}

/-- The loop makes `n` rounds from a counter. -/
def Rounds (running : τ → Bool) (next : τ → τ) (counter : τ) (n : ℕ) : Prop :=
  (∀ j < n, running (next^[j] counter) = true) ∧ running (next^[n] counter) = false

theorem Rounds.unique {counter : τ} {m n : ℕ} (hm : Rounds running next counter m)
    (hn : Rounds running next counter n) : m = n := by
  by_contra hne
  rcases Nat.lt_or_gt_of_ne hne with hlt | hlt
  · exact absurd (hn.1 m hlt) (by rw [hm.2]; decide)
  · exact absurd (hm.1 n hlt) (by rw [hn.2]; decide)

theorem rounds_succ {counter : τ} {n : ℕ} : Rounds running next counter (n + 1) ↔
    running counter = true ∧ Rounds running next (next counter) n := by
  simp only [Rounds, Function.iterate_succ_apply]
  constructor
  · rintro ⟨hrunning, hend⟩
    exact ⟨hrunning 0 n.succ_pos, fun j hj => by simpa using hrunning (j + 1) (Nat.succ_lt_succ hj), hend⟩
  · rintro ⟨hfirst, hrunning, hend⟩
    refine ⟨fun j hj => ?_, hend⟩
    cases j with
    | zero => exact hfirst
    | succ j => simpa using hrunning j (Nat.lt_of_succ_lt_succ hj)

/-- With the rounds known the loop is its body, that many times. -/
theorem whileLoop_rounds {fuel n : ℕ} {counter : τ} (hrounds : Rounds running next counter n)
    (hfuel : n < fuel)
    (s : σ) : whileLoop running next body stuck fuel counter s = (times body n s).map fun s =>
    (next^[n] counter, s) := by
  induction n generalizing fuel counter s with
  | zero =>
      obtain ⟨fuel, rfl⟩ := Nat.exists_eq_succ_of_ne_zero (Nat.ne_of_gt hfuel)
      rw [whileLoop, if_neg (by rw [show running counter = false from hrounds.2]; decide)]
      rfl
  | succ n ih =>
      obtain ⟨fuel, rfl⟩ := Nat.exists_eq_succ_of_ne_zero (Nat.ne_of_gt (Nat.zero_lt_of_lt hfuel))
      obtain ⟨hfirst, hrest⟩ := rounds_succ.mp hrounds
      rw [whileLoop, if_pos hfirst, times_succ]
      cases body s with
      | error e => rfl
      | ok t => exact ih hrest (Nat.lt_of_succ_lt_succ hfuel) t

theorem whileLoop_ok {fuel : ℕ} {counter counter' : τ} {s s' : σ}
    (h : whileLoop running next body stuck fuel counter s = .ok (counter', s')) :
    ∃ n, Rounds running next counter n ∧ counter' = next^[n] counter ∧ times body n s = .ok s' := by
  induction fuel generalizing counter s with
  | zero => cases h
  | succ fuel ih =>
      rw [whileLoop] at h
      split_ifs at h with hrunning
      · obtain ⟨t, ht, h⟩ := bind_ok h
        obtain ⟨n, hrounds, hcounter, htimes⟩ := ih h
        refine ⟨n + 1, rounds_succ.mpr ⟨hrunning, hrounds⟩, hcounter, ?_⟩
        rw [times_succ, ht]
        exact htimes
      · cases h
        exact ⟨0, ⟨fun j hj => absurd hj j.not_lt_zero, by simpa using hrunning⟩, rfl, rfl⟩

/-- How often `b` goes into `x`, rounded up. -/
theorem lt_mul_iff_ceilDiv_lt {b : ℕ} (hb : 0 < b) (x n : ℕ) : b * n < x ↔ n < x ⌈/⌉ b := by
  rw [← Nat.not_le, ← Nat.not_le, ceilDiv_le_iff_le_mul hb]

theorem le_mul_ceilDiv {b : ℕ} (hb : 0 < b) (x : ℕ) : x ≤ b * (x ⌈/⌉ b) :=
  (ceilDiv_le_iff_le_mul hb).mp (le_refl _)

theorem ceilDiv_mono {b : ℕ} (hb : 0 < b) {x y : ℕ} (hle : x ≤ y) : x ⌈/⌉ b ≤ y ⌈/⌉ b :=
  (ceilDiv_le_iff_le_mul hb).mpr (hle.trans (le_mul_ceilDiv hb y))

theorem mul_ceilDiv_le {b : ℕ} (hb : 0 < b) {x y : ℕ} (hle : x ≤ y) (hdvd : b ∣ y) : b * (x ⌈/⌉ b) ≤ y := by
  obtain ⟨n, rfl⟩ := hdvd
  exact Nat.mul_le_mul_left b ((ceilDiv_le_iff_le_mul hb).mpr hle)

theorem mul_ceilDiv_of_dvd {b : ℕ} (hb : 0 < b) {x : ℕ} (hdvd : b ∣ x) : b * (x ⌈/⌉ b) = x :=
  Nat.le_antisymm (mul_ceilDiv_le hb (le_refl x) hdvd) (le_mul_ceilDiv hb x)

theorem add_mul_ceilDiv {b : ℕ} (hb : 0 < b) (x n : ℕ) : (x + b * n) ⌈/⌉ b = x ⌈/⌉ b + n := by
  rw [Nat.ceilDiv_eq_add_pred_div, Nat.ceilDiv_eq_add_pred_div,
    show x + b * n + b - 1 = x + b - 1 + b * n by omega, Nat.add_mul_div_left _ _ hb]

end Pacing
