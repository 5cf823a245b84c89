import Mathlib

/-! A loop that looks at one place after the other and stops at the first find, or when it is back home.
What it looked at is read off the iterates of the step; where the step counts through residues, a loop
that is back home has been at all of them. -/

namespace RoundRobin

variable {σ β ε : Type*}

/-- `do { if (find) break; next; if (home) break; } while (true)`, with a bound on the rounds. -/
def scan (find : σ → Except ε (Option β)) (next : σ → σ) (home : σ → Bool) (stuck : ε) :
    ℕ → σ → Except ε (Option β × σ)
  | 0, _ => .error stuck
  | fuel + 1, s =>
      match find s with
      | .error e => .error e
      | .ok (some b) => .ok (some b, s)
      | .ok none => if home (next s) then .ok (none, next s) else scan find next home stuck fuel (next s)

variable {find : σ → Except ε (Option β)} {next : σ → σ} {home : σ → Bool} {stuck : ε}

/-- What a scan that comes back has seen: nothing before the place it stopped at. -/
structure Stopped (find : σ → Except ε (Option β)) (next : σ → σ) (home : σ → Bool) (s : σ)
    (found : Option β) (s' : σ) (k : ℕ) : Prop where
  at_eq : s' = next^[k] s
  before : ∀ j < k, find (next^[j] s) = .ok none
  found_eq : ∀ b, found = some b → find s' = .ok (some b)
  home_eq : found = none → 0 < k ∧ home s' = true

theorem scan_ok {fuel : ℕ} {s s' : σ} {found : Option β}
    (h : scan find next home stuck fuel s = .ok (found, s')) : ∃ k, Stopped find next home s found s' k := by
  induction fuel generalizing s with
  | zero => cases h
  | succ fuel ih =>
      rw [scan] at h
      cases hfind : find s with
      | error e =>
          rw [hfind] at h
          cases h
      | ok r =>
          rw [hfind] at h
          cases r with
          | some b =>
              cases h
              refine ⟨0, rfl, fun j hj => absurd hj (Nat.not_lt_zero j), ?_, (fun hnone => by cases hnone)⟩
              intro b' hb
              cases hb
              exact hfind
          | none =>
              dsimp only at h
              split_ifs at h with hhome
              · cases h
                refine ⟨1, rfl, fun j hj => ?_, (fun b hb => by cases hb), fun _ => ⟨Nat.one_pos, hhome⟩⟩
                rw [Nat.lt_one_iff.mp hj]
                exact hfind
              · obtain ⟨k, hat, hbefore, hfound, hend⟩ := ih h
                refine ⟨k + 1, hat, fun j hj => ?_, hfound, fun hnone => ⟨k.succ_pos, (hend hnone).2⟩⟩
                cases j with
                | zero => exact hfind
                | succ j => exact hbefore j (Nat.lt_of_succ_lt_succ hj)

/-- A scan ends: it comes home within the bound, or a look fails on the way. -/
theorem scan_ends {fuel k : ℕ} {s : σ} (hpos : 0 < k) (hk : k ≤ fuel) (hhome : home (next^[k] s) = true) :
    (∃ r, scan find next home stuck fuel s = .ok r) ∨
      ∃ j < k, ∃ e, find (next^[j] s) = .error e ∧ scan find next home stuck fuel s = .error e := by
  induction fuel generalizing s k with
  | zero => omega
  | succ fuel ih =>
      rw [scan]
      cases hfind : find s with
      | error e => exact .inr ⟨0, hpos, e, hfind, rfl⟩
      | ok r =>
          cases r with
          | some b => exact .inl ⟨_, rfl⟩
          | none =>
              dsimp only
              split_ifs with hnext
              · exact .inl ⟨_, rfl⟩
              · obtain ⟨k, rfl⟩ : ∃ l, k = l + 1 := ⟨k - 1, by omega⟩
                have hk0 : 0 < k := by
                  refine Nat.pos_of_ne_zero fun h0 => hnext ?_
                  rw [h0] at hhome
                  exact hhome
                rcases ih hk0 (Nat.le_of_succ_le_succ hk) hhome with hok | ⟨j, hj, e, he, hscan⟩
                · exact .inl hok
                · exact .inr ⟨j + 1, Nat.succ_lt_succ hj, e, he, hscan⟩

/-- A scan that fails runs out of its bound, or one of its looks fails. -/
theorem scan_fails {fuel : ℕ} {s : σ} {e : ε} (h : scan find next home stuck fuel s = .error e) :
    e = stuck ∨ ∃ t, find t = .error e := by
  induction fuel generalizing s with
  | zero =>
      cases h
      exact .inl rfl
  | succ fuel ih =>
      rw [scan] at h
      cases hfind : find s with
      | error e' =>
          rw [hfind] at h
          cases h
          exact .inr ⟨s, hfind⟩
      | ok r =>
          rw [hfind] at h
          cases r with
          | some b => cases h
          | none =>
              dsimp only at h
              split_ifs at h
              exact ih h

/-- Two scans that look alike find alike, at places that are alike. -/
theorem scan_map {σ' β' : Type*} {find' : σ' → Except ε (Option β')} {next' : σ' → σ'} {home' : σ' → Bool}
    (good : σ → Prop) (g : σ → σ') (f : β → β') (hgood : ∀ s, good s → good (next s))
    (hfind : ∀ s, good s → find' (g s) = (find s).map (Option.map f)) (hnext : ∀ s, next' (g s) = g (next s))
    (hhome : ∀ s, home' (g s) = home s) {fuel : ℕ} {s : σ} (hs : good s) :
    scan find' next' home' stuck fuel (g s) =
      (scan find next home stuck fuel s).map (Prod.map (Option.map f) g) := by
  induction fuel generalizing s with
  | zero => rfl
  | succ fuel ih =>
      rw [scan, scan, hfind s hs]
      cases find s with
      | error e => rfl
      | ok r =>
          cases r with
          | some b => rfl
          | none =>
              change (if home' (next' (g s)) = true then _ else _) = _
              rw [hnext, hhome]
              dsimp only
              split_ifs
              · rfl
              · exact ih (hgood s hs)

section Counting

variable {n : ℕ} (place : σ → ℕ) (good : σ → Prop)

theorem good_iterate (hgood : ∀ s, good s → good (next s)) {s : σ} (hs : good s) (j : ℕ) :
    good (next^[j] s) := by
  induction j with
  | zero => exact hs
  | succ j ih =>
      rw [Function.iterate_succ_apply']
      exact hgood _ ih

/-- The step counts through the residues of `n`. -/
theorem place_iterate (hgood : ∀ s, good s → good (next s))
    (hnext : ∀ s, good s → place (next s) = (place s + 1) % n) {s : σ} (hs : good s) (hlt : place s < n)
    (j : ℕ) : place (next^[j] s) = (place s + j) % n := by
  induction j with
  | zero => exact (Nat.mod_eq_of_lt hlt).symm
  | succ j ih =>
      rw [Function.iterate_succ_apply', hnext _ (good_iterate good hgood hs j), ih, Nat.mod_add_mod,
        Nat.add_assoc]

/-- **A scan that is back home has been everywhere.** -/
theorem visits (hgood : ∀ s, good s → good (next s))
    (hnext : ∀ s, good s → place (next s) = (place s + 1) % n)
    {s : σ} (hs : good s) (hlt : place s < n) {k : ℕ} (hpos : 0 < k) (hback : place (next^[k] s) = place s)
    {i : ℕ} (hi : i < n) : ∃ j < k, place (next^[j] s) = i := by
  have hk : (place s + k) % n = place s := by
    rw [← place_iterate place good hgood hnext hs hlt]
    exact hback
  have hnk : n ≤ k := by
    apply Nat.le_of_dvd hpos
    have : (place s + k) % n = (place s + 0) % n := by rw [hk, Nat.add_zero, Nat.mod_eq_of_lt hlt]
    exact (Nat.modEq_zero_iff_dvd.mp (Nat.ModEq.add_left_cancel' _ this))
  let j := if place s ≤ i then i - place s else n + i - place s
  have hj : j < k := by
    dsimp only [j]
    split_ifs <;> omega
  refine ⟨j, hj, ?_⟩
  rw [place_iterate place good hgood hnext hs hlt]
  dsimp only [j]
  split_ifs with hle
  · rw [Nat.add_sub_cancel' hle, Nat.mod_eq_of_lt hi]
  · rw [show place s + (n + i - place s) = i + n by omega, Nat.add_mod_right, Nat.mod_eq_of_lt hi]

/-- **The scan ends**, if the bound lets it count through all residues: an error is one of its looks. -/
theorem scan_error (hgood : ∀ s, good s → good (next s))
    (hnext : ∀ s, good s → place (next s) = (place s + 1) % n) {s : σ} (hs : good s) (hlt : place s < n)
    (hhome : ∀ t, good t → place t = place s → home t = true) {fuel : ℕ} (hfuel : n ≤ fuel) {e : ε}
    (h : scan find next home stuck fuel s = .error e) :
    ∃ j, find (next^[j] s) = .error e := by
  have hback : place (next^[n] s) = place s := by
    rw [place_iterate place good hgood hnext hs hlt, Nat.add_mod_right, Nat.mod_eq_of_lt hlt]
  have hends : (∃ r, scan find next home stuck fuel s = .ok r) ∨
      ∃ j < n, ∃ e, find (next^[j] s) = .error e ∧ scan find next home stuck fuel s = .error e :=
    scan_ends (Nat.zero_lt_of_lt hlt) hfuel (hhome _ (good_iterate good hgood hs n) hback)
  rcases hends with ⟨r, hr⟩ | ⟨j, -, e', he, hscan⟩
  · rw [hr] at h
    cases h
  · rw [hscan] at h
    cases h
    exact ⟨j, he⟩

end Counting

theorem succ_digits {r b n m : ℕ} (hr : r < n) (hb : b < m) :
    (r + n * b + 1) % (n * m) = if r + 1 = n then (if b + 1 = m then 0 else n * (b + 1))
    else r + 1 + n * b := by
  have hsum : r + n * b + 1 = r + 1 + n * b := by omega
  rw [hsum]
  split_ifs with hlow hhigh
  · rw [hlow, ← hhigh, Nat.mul_succ, Nat.add_comm n, Nat.mod_self]
  · rw [hlow, Nat.add_comm n, ← Nat.mul_succ]
    exact Nat.mod_eq_of_lt (Nat.mul_lt_mul_of_pos_left (by omega) (Nat.zero_lt_of_lt hr))
  · apply Nat.mod_eq_of_lt
    have : n * (b + 1) ≤ n * m := Nat.mul_le_mul_left n hb
    rw [Nat.mul_succ] at this
    omega

theorem digits_inj {r b r' b' n : ℕ} (hr : r < n) (hr' : r' < n) (h : r + n * b = r' + n * b') :
    r = r' ∧ b = b' := by
  have hlow : r = r' := by
    have := congrArg (· % n) h
    simpa only [Nat.add_mul_mod_self_left, Nat.mod_eq_of_lt hr, Nat.mod_eq_of_lt hr'] using this
  subst hlow
  exact ⟨rfl, Nat.eq_of_mul_eq_mul_left (Nat.zero_lt_of_lt hr) (Nat.add_left_cancel h)⟩

end RoundRobin
