import Mathlib

/-! Rules for computations in `Except`: what a bind that succeeds has done, and what a loop over a range
keeps. -/

namespace Fallible

universe u

variable {ε : Type*} {α β σ : Type u}

theorem ok_bind (a : α) (f : α → Except ε β) : (Except.ok a >>= f) = f a := rfl

theorem bind_ok {x : Except ε α} {f : α → Except ε β} {b : β} (h : x >>= f = .ok b) :
    ∃ a, x = .ok a ∧ f a = .ok b := by
  cases x with
  | error e => cases h
  | ok a => exact ⟨a, rfl, h⟩

/-- Whether a computation succeeds with a given property can be computed. -/
instance decidableOk (x : Except ε α) (P : α → Prop) [DecidablePred P] : Decidable (∃ a, x = .ok a ∧ P a) :=
  match x with
  | .ok a => decidable_of_iff (P a) ⟨fun ha => ⟨a, rfl, ha⟩, fun ⟨_, hb, hP⟩ => Except.ok.inj hb ▸ hP⟩
  | .error _ => isFalse fun ⟨_, hb, _⟩ => by cases hb

/-- Whether a computation fails in a given way can be computed. -/
instance decidableError (x : Except ε α) (P : ε → Prop) [DecidablePred P] :
    Decidable (∃ e, x = .error e ∧ P e) :=
  match x with
  | .ok _ => isFalse fun ⟨_, hb, _⟩ => by cases hb
  | .error e => decidable_of_iff (P e) ⟨fun he => ⟨e, rfl, he⟩, fun ⟨_, hb, hP⟩ => Except.error.inj hb ▸ hP⟩

theorem bind_error {x : Except ε α} {f : α → Except ε β} {e : ε} (h : x >>= f = .error e) :
    x = .error e ∨ ∃ a, x = .ok a ∧ f a = .error e := by
  cases x with
  | error e' =>
      cases h
      exact .inl rfl
  | ok a => exact .inr ⟨a, rfl, h⟩

theorem map_ok {x : Except ε α} {f : α → β} {b : β} (h : x.map f = .ok b) : ∃ a, x = .ok a ∧ f a = b := by
  cases x with
  | error e => cases h
  | ok a => exact ⟨a, rfl, Except.ok.inj h⟩

theorem map_error {x : Except ε α} {f : α → β} {e : ε} (h : x.map f = .error e) : x = .error e := by
  cases x with
  | error e' =>
      cases h
      rfl
  | ok a => cases h

/-- Failures renamed behind a bind are renamed in both of its parts. -/
theorem bind_mapError {ε' : Type*} (g : ε → ε') (x : Except ε α) (f : α → Except ε β) :
    (x >>= f).mapError g = x.mapError g >>= fun a => (f a).mapError g := by
  cases x <;> rfl

theorem mapError_ok {ε' : Type*} {g : ε → ε'} {x : Except ε α} {a : α} (h : x.mapError g = .ok a) :
    x = .ok a := by
  cases x with
  | error e => cases h
  | ok b =>
      cases h
      rfl

/-- A bind whose second part maps the results of another one. What the map keeps may depend on the first part,
which is done once; where that fails, anything will do. -/
theorem exists_map_bind {α' γ δ : Type u} {x : Except ε α} {f : α → α'} {F : α' → Except ε β}
    {G : α → Except ε γ} {mk : δ → γ → β} (d : δ) (h : ∀ a, ∃ d, F (f a) = (G a).map (mk d)) : ∃ d,
      x.map f >>= F = (x >>= G).map (mk d) := by
  cases x with
  | error e => exact ⟨d, rfl⟩
  | ok a => exact h a

theorem foldlM_ok {f : σ → α → Except ε σ} {P : σ → Prop} (hstep : ∀ s a s', P s → f s a = .ok s' → P s')
    {actions : List α} {s s' : σ} (hstart : P s) (h : actions.foldlM f s = .ok s') : P s' := by
  induction actions generalizing s with
  | nil =>
      cases h
      exact hstart
  | cons a actions ih =>
      rw [List.foldlM_cons] at h
      obtain ⟨t, ht, h⟩ := bind_ok h
      exact ih (hstep s a t hstart ht) h

/-- A loop over `0, …, n - 1` keeps what each of its steps keeps. -/
theorem foldlM_range_ok {f : σ → ℕ → Except ε σ} {P : ℕ → σ → Prop} {n : ℕ} {s s' : σ} (hstart : P 0 s)
    (hstep : ∀ i < n, ∀ t t', P i t → f t i = .ok t' → P (i + 1) t')
    (h : (List.range n).foldlM f s = .ok s') : P n s' := by
  induction n generalizing s' with
  | zero =>
      cases h
      exact hstart
  | succ n ih =>
      rw [List.range_succ, List.foldlM_append] at h
      obtain ⟨t, ht, h⟩ := bind_ok h
      rw [List.foldlM_cons] at h
      obtain ⟨t', ht', h⟩ := bind_ok h
      cases h
      exact hstep n (Nat.lt_succ_self n) t _ (ih (fun i hi => hstep i (Nat.lt_succ_of_lt hi)) ht) ht'

theorem foldlM_congr {τ : Type*} {f g : σ → τ → Except ε σ} {actions : List τ}
    (h : ∀ a ∈ actions, ∀ s, f s a = g s a) (s : σ) : actions.foldlM f s = actions.foldlM g s := by
  induction actions generalizing s with
  | nil => rfl
  | cons a actions ih =>
      rw [List.foldlM_cons, List.foldlM_cons, h a List.mem_cons_self]
      apply bind_congr
      intro t
      exact ih (fun a' ha' => h a' (List.mem_cons_of_mem a ha')) t

theorem foldlM_ok_mem {τ : Type*} {f : σ → τ → Except ε σ} {actions : List τ} {s s' : σ}
    (h : actions.foldlM f s = .ok s') :
    ∀ a ∈ actions, ∃ t t', f t a = .ok t' := by
  induction actions generalizing s with
  | nil => exact List.forall_mem_nil _
  | cons a actions ih =>
      rw [List.foldlM_cons] at h
      obtain ⟨t, ht, h⟩ := bind_ok h
      exact List.forall_mem_cons.mpr ⟨⟨s, t, ht⟩, ih h⟩

/-- A run that fails has a step that fails, behind a run that does not. -/
theorem foldlM_error {f : σ → α → Except ε σ} {actions : List α} {s : σ} {e : ε}
    (h : actions.foldlM f s = .error e) :
    ∃ before a behind t, actions = before ++ a :: behind ∧ before.foldlM f s = .ok t ∧ f t a = .error e := by
  induction actions generalizing s with
  | nil => cases h
  | cons a actions ih =>
      rw [List.foldlM_cons] at h
      rcases bind_error h with hfirst | ⟨t, ht, h⟩
      · exact ⟨[], a, actions, s, rfl, rfl, hfirst⟩
      · obtain ⟨before, a', behind, t', rfl, hbefore, hstep⟩ := ih h
        refine ⟨a :: before, a', behind, t', rfl, ?_, hstep⟩
        rw [List.foldlM_cons, ht]
        exact hbefore

/-- What holds before each step of a loop. -/
def Along (f : σ → α → Except ε σ) (P : σ → α → Prop) : σ → List α → Prop
  | _, [] => True
  | s, a :: actions => P s a ∧ ∀ s', f s a = .ok s' → Along f P s' actions

instance decidableAlong (f : σ → α → Except ε σ) (P : σ → α → Prop) [∀ s a, Decidable (P s a)] :
    ∀ s actions, Decidable (Along f P s actions)
  | _, [] => inferInstanceAs (Decidable True)
  | s, a :: actions =>
      have : Decidable (∀ s', f s a = .ok s' → Along f P s' actions) :=
        match f s a with
        | .error _ => isTrue fun _ h => by cases h
        | .ok t =>
            have := decidableAlong f P t actions
            decidable_of_iff (Along f P t actions) ⟨fun h _ ht => Except.ok.inj ht ▸ h, fun h => h t rfl⟩
      inferInstanceAs (Decidable (_ ∧ _))

theorem Along.holds {f : σ → α → Except ε σ} {P : σ → α → Prop} {s t : σ} {before behind : List α} {a : α}
    (h : Along f P s (before ++ a :: behind)) (hbefore : before.foldlM f s = .ok t) : P t a := by
  induction before generalizing s with
  | nil =>
      cases hbefore
      exact h.1
  | cons b before ih =>
      rw [List.foldlM_cons] at hbefore
      obtain ⟨s', hs', hbefore⟩ := bind_ok hbefore
      exact ih (h.2 s' hs') hbefore

/-- Whatever holds of the failures of the steps of a loop holds of its failures. -/
theorem foldlM_fails {f : σ → α → Except ε σ} {P : ε → Prop} (hstep : ∀ s a e, f s a = .error e → P e)
    {actions : List α} {s : σ} {e : ε} (h : actions.foldlM f s = .error e) : P e := by
  obtain ⟨_, a, _, t, -, -, hfails⟩ := foldlM_error h
  exact hstep t a e hfails

/-- A loop whose every step succeeds exactly under its guard: it succeeds, and keeps what its steps keep, when
all guards hold, and fails otherwise. -/
theorem foldlM_guarded {τ : Type*} {f : σ → τ → Except ε σ} {P : List τ → σ → Prop} {G : τ → Prop}
    {actions : List τ} {s : σ} (hstart : P [] s)
    (hstep : ∀ before a after, actions = before ++ a :: after → ∀ t, P before t →
      (G a → ∃ t', f t a = .ok t' ∧ P (before ++ [a]) t') ∧ (¬ G a → ∃ e, f t a = .error e)) :
    ((∀ a ∈ actions, G a) → ∃ s', actions.foldlM f s = .ok s' ∧ P actions s') ∧
      (¬ (∀ a ∈ actions, G a) → ∃ e, actions.foldlM f s = .error e) := by
  induction actions using List.reverseRecOn with
  | nil => exact ⟨fun _ => ⟨s, rfl, hstart⟩, fun h => absurd (List.forall_mem_nil _) h⟩
  | append_singleton before a ih =>
      obtain ⟨hall, hsome⟩ := ih fun before' a' after heq =>
          hstep before' a' (after ++ [a]) (by rw [heq]; simp)
      have hloop : (before ++ [a]).foldlM f s = before.foldlM f s >>= fun t => f t a := by
        rw [List.foldlM_append]
        apply bind_congr
        intro t
        rw [List.foldlM_cons]
        exact bind_pure _
      simp only [List.forall_mem_append, List.forall_mem_singleton]
      rw [hloop]
      by_cases hbefore : ∀ a' ∈ before, G a'
      · obtain ⟨t, ht, hP⟩ := hall hbefore
        obtain ⟨hgood, hbad⟩ := hstep before a [] rfl t hP
        rw [ht, ok_bind]
        exact ⟨fun h => hgood h.2, fun h => hbad fun ha => h ⟨hbefore, ha⟩⟩
      · obtain ⟨e, he⟩ := hsome hbefore
        rw [he]
        exact ⟨fun h => absurd h.1 hbefore, fun _ => ⟨e, rfl⟩⟩

/-- The same for a loop over `0, …, n - 1`. -/
theorem foldlM_range_guarded {f : σ → ℕ → Except ε σ} {P : ℕ → σ → Prop} {G : ℕ → Prop} {n : ℕ} {s : σ}
    (hstart : P 0 s)
    (hstep : ∀ i < n, ∀ t, P i t →
      (G i → ∃ t', f t i = .ok t' ∧ P (i + 1) t') ∧ (¬ G i → ∃ e, f t i = .error e)) :
    ((∀ i < n, G i) → ∃ s', (List.range n).foldlM f s = .ok s' ∧ P n s') ∧
      (¬ (∀ i < n, G i) → ∃ e, (List.range n).foldlM f s = .error e) := by
  have hstep' : ∀ before i after, List.range n = before ++ i :: after → ∀ t, P before.length t →
      (G i → ∃ t', f t i = .ok t' ∧ P (before ++ [i]).length t') ∧ (¬ G i → ∃ e, f t i = .error e) := by
    intro before i after heq t ht
    have hat : (List.range n)[before.length]? = some i := by simp [heq]
    obtain ⟨hlt, rfl⟩ := List.getElem?_eq_some_iff.mp hat
    rw [List.length_range] at hlt
    rw [List.getElem_range, List.length_append, List.length_singleton]
    exact hstep before.length hlt t ht
  have hloop := foldlM_guarded (show P ([] : List ℕ).length s from hstart) hstep'
  simpa only [List.mem_range, List.length_range] using hloop

/-- A loop over `0, …, n - 1` whose every step succeeds succeeds, and keeps what its steps keep. -/
theorem foldlM_range_total {f : σ → ℕ → Except ε σ} {P : ℕ → σ → Prop} {n : ℕ} {s : σ} (hstart : P 0 s)
    (hstep : ∀ i < n, ∀ t, P i t → ∃ t', f t i = .ok t' ∧ P (i + 1) t') :
    ∃ s', (List.range n).foldlM f s = .ok s' ∧ P n s' := by
  have hloop := foldlM_range_guarded (G := fun _ => True) hstart fun i hi t ht =>
    ⟨fun _ => hstep i hi t ht, fun h => absurd trivial h⟩
  exact hloop.1 fun _ _ => trivial

end Fallible
