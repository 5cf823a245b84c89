import Mathlib

/-! Loops that only charge. The charges form a monoid and act on the state one after the other; a loop each of
whose steps looks at its element, fails or adds a charge, is one charge: the sum over its list. -/

namespace RacerArtifacts.Charging

variable {ε α δ σ : Type} [AddMonoid δ]

/-- The sum of the charges of a list, or the first failure. -/
def total (f : α → Except ε δ) : List α → Except ε δ
  | [] => .ok 0
  | a :: l => do
    let d ← f a
    let e ← total f l
    return d + e

@[simp] theorem total_nil (f : α → Except ε δ) : total f [] = .ok 0 := rfl

theorem total_cons_ok {f : α → Except ε δ} {a : α} {l : List α} {d e : δ} (hd : f a = .ok d)
    (he : total f l = .ok e) : total f (a :: l) = .ok (d + e) := by
  rw [total, hd, he]
  rfl

theorem total_cons_error {f : α → Except ε δ} {a : α} (l : List α) {err : ε} (hd : f a = .error err) :
    total f (a :: l) = .error err := by
  rw [total, hd]
  rfl

theorem total_append (f : α → Except ε δ) (l₁ l₂ : List α) :
    total f (l₁ ++ l₂) = (do
      let d ← total f l₁
      let e ← total f l₂
      return d + e) := by
  induction l₁ with
  | nil =>
      cases h : total f l₂ with
      | error err => simp only [List.nil_append, h, total]; rfl
      | ok e => simp only [List.nil_append, h, total]; exact congrArg Except.ok (zero_add e).symm
  | cons a l₁ ih =>
      rw [List.cons_append, total, total, ih]
      cases f a with
      | error err => rfl
      | ok d =>
          cases total f l₁ with
          | error err => rfl
          | ok d₁ =>
              cases total f l₂ with
              | error err => rfl
              | ok e => exact congrArg Except.ok (add_assoc d d₁ e).symm

theorem total_flatten (f : α → Except ε δ) (ls : List (List α)) :
    total (total f) ls = total f ls.flatten := by
  induction ls with
  | nil => rfl
  | cons l ls ih => rw [total, List.flatten_cons, total_append, ih]

theorem total_eq_ok {f : α → Except ε δ} {g : α → δ} {l : List α} (h : ∀ a ∈ l, f a = .ok (g a)) :
    total f l = .ok (l.map g).sum := by
  induction l with
  | nil => rfl
  | cons a l ih =>
      rw [List.map_cons, List.sum_cons]
      exact total_cons_ok (h a List.mem_cons_self) (ih fun b hb => h b (List.mem_cons_of_mem a hb))

theorem total_congr {f g : α → Except ε δ} {l : List α} (h : ∀ a ∈ l, f a = g a) : total f l = total g l := by
  induction l with
  | nil => rfl
  | cons a l ih => rw [total, total, h a List.mem_cons_self, ih fun b hb => h b (List.mem_cons_of_mem a hb)]

/-- A sum succeeds on every element it succeeds on the whole of. -/
theorem ok_of_total_ok {f : α → Except ε δ} {l : List α} {d : δ} (h : total f l = .ok d) :
    ∀ a ∈ l, ∃ e, f a = .ok e := by
  induction l generalizing d with
  | nil => intro a ha; cases ha
  | cons b l ih =>
      intro a ha
      cases hb : f b with
      | error err => rw [total_cons_error l hb] at h; cases h
      | ok e =>
          cases hl : total f l with
          | error err => rw [total, hb, hl] at h; cases h
          | ok e' =>
              rcases List.mem_cons.mp ha with rfl | ha
              · exact ⟨e, hb⟩
              · exact ih hl a ha

theorem exists_total_ok {f : α → Except ε δ} {l : List α} (h : ∀ a ∈ l, ∃ e, f a = .ok e) :
    ∃ d, total f l = .ok d := by
  induction l with
  | nil => exact ⟨0, rfl⟩
  | cons a l ih =>
      obtain ⟨d, hd⟩ := h a List.mem_cons_self
      obtain ⟨e, he⟩ := ih fun b hb => h b (List.mem_cons_of_mem a hb)
      exact ⟨d + e, total_cons_ok hd he⟩

theorem exists_error {f : α → Except ε δ} {l : List α} {err : ε} (h : total f l = .error err) :
    ∃ a ∈ l, f a = .error err := by
  induction l with
  | nil => cases h
  | cons a l ih =>
      cases ha : f a with
      | error e =>
          rw [total_cons_error l ha] at h
          cases h
          exact ⟨a, List.mem_cons_self, ha⟩
      | ok d =>
          cases hl : total f l with
          | error e =>
              rw [total, ha, hl] at h
              cases h
              obtain ⟨b, hb, hfail⟩ := ih hl
              exact ⟨b, List.mem_cons_of_mem a hb, hfail⟩
          | ok e => rw [total_cons_ok ha hl] at h; cases h

theorem total_map {γ : Type} [AddMonoid γ] (φ : δ →+ γ) (f : α → Except ε δ) (l : List α) :
    (total f l).map φ = total (fun a => (f a).map φ) l := by
  induction l with
  | nil => exact congrArg Except.ok φ.map_zero
  | cons a l ih =>
      rw [total, total, ← ih]
      cases f a with
      | error err => rfl
      | ok d =>
          cases total f l with
          | error err => rfl
          | ok e => exact congrArg Except.ok (φ.map_add d e)

/-- Where all failures are the same one, a single failure is that of the sum. -/
theorem total_eq_error {f : α → Except ε δ} {l : List α} {err : ε}
    (hall : ∀ a ∈ l, ∀ e, f a = .error e → e = err)
    {a : α} (ha : a ∈ l) (hfail : f a = .error err) : total f l = .error err := by
  induction l with
  | nil => cases ha
  | cons b l ih =>
      cases hb : f b with
      | error e =>
          rw [total_cons_error l hb, hall b List.mem_cons_self e hb]
      | ok d =>
          rcases List.mem_cons.mp ha with rfl | ha
          · rw [hb] at hfail
            cases hfail
          · rw [total, hb, ih (fun c hc => hall c (List.mem_cons_of_mem b hc)) ha]
            rfl

/-- Charges act on a state, a sum of two by the first and then the second. -/
structure Acts (act : δ → σ → σ) : Prop where
  zero : ∀ s, act 0 s = s
  add : ∀ d e s, act (d + e) s = act e (act d s)

/-- Where the order of charges does not matter, an action of their monoid is one of charges. -/
theorem acts_vadd {δ : Type} [AddCommMonoid δ] [AddAction δ σ] : Acts fun (d : δ) (s : σ) => d +ᵥ s where
  zero s := zero_vadd δ s
  add d e s := by rw [vadd_vadd, add_comm]

/-- A loop whose steps charge is one charge. `P` is what the steps rely on and charging keeps. -/
theorem foldlM_eq_total {act : δ → σ → σ} (hact : Acts act) {P : σ → Prop}
    (hP : ∀ (d : δ) s, P s → P (act d s)) {f : α → Except ε δ} {step : σ → α → Except ε σ}
    (hstep : ∀ s a, P s → step s a = (f a).map (act · s)) (l : List α) {s : σ} (hs : P s) :
    l.foldlM step s = (total f l).map (act · s) := by
  induction l generalizing s with
  | nil => exact congrArg Except.ok (hact.zero s).symm
  | cons a l ih =>
      rw [List.foldlM_cons, hstep s a hs, total]
      cases f a with
      | error err => rfl
      | ok d =>
          change l.foldlM step (act d s) = _
          rw [ih (hP d s hs)]
          cases total f l with
          | error err => rfl
          | ok e => exact congrArg Except.ok (hact.add d e s).symm

end RacerArtifacts.Charging
