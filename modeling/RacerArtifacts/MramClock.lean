import RacerArtifacts.LibPacing
import RacerArtifacts.MramConfig

/-! The clock domain crosser: how often an update of a client's clock calls back, so that the callbacks keep
to a clock of another rate. The counters are of 64 bits, and they go back to 0 whenever they meet. -/

namespace RacerArtifacts.Mram

structure ClockDomainCrosser where
  clock1 : BitVec 64
  clock2 : BitVec 64
  counter1 : BitVec 64
  counter2 : BitVec 64
  deriving DecidableEq, Repr

namespace ClockDomainCrosser

/-- The default, with a ratio of 1:1. -/
def init : ClockDomainCrosser :=
  { clock1 := 1, clock2 := 1, counter1 := 0, counter2 := 0 }

/-- The constructor of a given ratio. -/
def ofClocks (clock1 clock2 : BitVec 64) : ClockDomainCrosser :=
  { clock1, clock2, counter1 := 0, counter2 := 0 }

universe u

variable {ε : Type*} {σ : Type u}

/-- One update, with what the callback does to the rest of the program. The loop sees each value of `counter2`
once in `2 ^ 64` rounds, so that more rounds never end. -/
def update (c : ClockDomainCrosser) (callback : σ → Except ε σ) (stuck : ε) (s : σ) :
    Except ε (ClockDomainCrosser × σ) :=
  if c.clock1 = c.clock2 then
    (callback s).map fun s => (c, s)
  else
    let counter1 := c.counter1 + c.clock1
    (Pacing.whileLoop (fun counter2 => decide (counter2 < counter1)) (· + c.clock2) callback stuck (2 ^ 64)
      c.counter2 s).map fun (counter2, s) =>
        (if counter1 = counter2 then { c with counter1 := 0, counter2 := 0 }
          else { c with counter1 := counter1, counter2 := counter2 }, s)

/-- The updates of a client, with the crosser beside the rest of the program. -/
def updates (callback : σ → Except ε σ) (stuck : ε) (k : ℕ) (c : ClockDomainCrosser) (s : σ) :
    Except ε (ClockDomainCrosser × σ) :=
  Pacing.times (fun p => p.1.update callback stuck p.2) k (c, s)

/-- The callbacks that keep up with `k` updates. -/
def ticks (clock1 clock2 : BitVec 64) (k : ℕ) : ℕ :=
  k * clock1.toNat ⌈/⌉ clock2.toNat

end ClockDomainCrosser

namespace ClockDomainCrosser

open Fallible Pacing

variable {clock1 clock2 : BitVec 64} {c : ClockDomainCrosser} {k : ℕ}

theorem toNat_pos (hpos : clock2 ≠ 0) : 0 < clock2.toNat := by
  rw [Nat.pos_iff_ne_zero]
  intro hzero
  exact hpos (BitVec.eq_of_toNat_eq hzero)

theorem iterate_add_toNat (counter2 : BitVec 64) (j : ℕ) :
    ((· + clock2)^[j] counter2).toNat = (counter2.toNat + clock2.toNat * j) % 2 ^ 64 := by
  induction j with
  | zero => exact (Nat.mod_eq_of_lt counter2.isLt).symm
  | succ j ih =>
      rw [Function.iterate_succ_apply', BitVec.toNat_add, ih, Nat.mod_add_mod]
      congr 1
      ring

/-- The second counter is the first multiple of its clock that is not behind the first counter. -/
def CaughtUp (clock2 counter1 counter2 : BitVec 64) : Prop :=
  counter2.toNat = clock2.toNat * (counter1.toNat ⌈/⌉ clock2.toNat)

theorem rounds_of_fits (hpos : clock2 ≠ 0) {counter1 counter1' counter2 : BitVec 64}
    (hcaught : CaughtUp clock2 counter1 counter2) (hle : counter1.toNat ≤ counter1'.toNat)
    (hfits : clock2.toNat * (counter1'.toNat ⌈/⌉ clock2.toNat) < 2 ^ 64) :
    Rounds (fun counter2 => decide (counter2 < counter1')) (· + clock2) counter2
        (counter1'.toNat ⌈/⌉ clock2.toNat - counter1.toNat ⌈/⌉ clock2.toNat) ∧
      CaughtUp clock2 counter1' ((· + clock2)^[counter1'.toNat ⌈/⌉ clock2.toNat -
        counter1.toNat ⌈/⌉ clock2.toNat]
        counter2) := by
  have hb := toNat_pos hpos
  have hmono := ceilDiv_mono hb hle
  have hat : ∀ j ≤ counter1'.toNat ⌈/⌉ clock2.toNat - counter1.toNat ⌈/⌉ clock2.toNat,
      ((· + clock2)^[j] counter2).toNat = clock2.toNat * (counter1.toNat ⌈/⌉ clock2.toNat + j) := by
    intro j hj
    rw [iterate_add_toNat, show counter2.toNat = _ from hcaught, ← Nat.mul_add]
    apply Nat.mod_eq_of_lt
    exact lt_of_le_of_lt (Nat.mul_le_mul_left _ (by omega)) hfits
  have hlast := hat _ (le_refl _)
  rw [Nat.add_sub_cancel' hmono] at hlast
  refine ⟨⟨fun j hj => ?_, ?_⟩, hlast⟩
  · rw [decide_eq_true_eq, BitVec.lt_def, hat j hj.le, lt_mul_iff_ceilDiv_lt hb]
    omega
  · rw [decide_eq_false_iff_not, BitVec.lt_def, hlast, Nat.not_lt]
    exact le_mul_ceilDiv hb _

/-- The counters after an update that does not wrap. -/
def next (c : ClockDomainCrosser) : ClockDomainCrosser :=
  let counter1 := c.counter1 + c.clock1
  let counter2 := (· + c.clock2)^[counter1.toNat ⌈/⌉ c.clock2.toNat -
      c.counter1.toNat ⌈/⌉ c.clock2.toNat] c.counter2
  if counter1 = counter2 then { c with counter1 := 0, counter2 := 0 }
  else { c with counter1 := counter1, counter2 := counter2 }

/-- An update that does not wrap calls back until the counters are level again. -/
theorem update_of_fits (hpos : c.clock2 ≠ 0) (hne : c.clock1 ≠ c.clock2)
    (hcaught : CaughtUp c.clock2 c.counter1 c.counter2)
    (hsum : c.counter1.toNat + c.clock1.toNat < 2 ^ 64)
    (hfits : c.clock2.toNat * ((c.counter1.toNat + c.clock1.toNat) ⌈/⌉ c.clock2.toNat) < 2 ^ 64)
    (callback : σ → Except ε σ) (stuck : ε) (s : σ) :
    c.update callback stuck s = (times callback ((c.counter1.toNat + c.clock1.toNat) ⌈/⌉ c.clock2.toNat -
      c.counter1.toNat ⌈/⌉ c.clock2.toNat) s).map fun s => (c.next, s) := by
  have hb := toNat_pos hpos
  have hcounter1 : (c.counter1 + c.clock1).toNat = c.counter1.toNat + c.clock1.toNat := by
    rw [BitVec.toNat_add, Nat.mod_eq_of_lt hsum]
  rw [← hcounter1] at hfits ⊢
  obtain ⟨hrounds, -⟩ := rounds_of_fits hpos hcaught (by omega) hfits
  have hfuel : (c.counter1 + c.clock1).toNat ⌈/⌉ c.clock2.toNat -
      c.counter1.toNat ⌈/⌉ c.clock2.toNat < 2 ^ 64 := by
    have hle := Nat.le_mul_of_pos_left ((c.counter1 + c.clock1).toNat ⌈/⌉ c.clock2.toNat) hb
    omega
  rw [update, if_neg hne]
  dsimp only
  rw [whileLoop_rounds hrounds hfuel]
  cases times callback _ s <;> rfl

/-- Where `k` updates leave the counters if nothing wraps: `counter1` has come as far as `k` ticks of its
clock, less the meetings of the counters, which are a least common multiple apart. -/
structure Paced (clock1 clock2 : BitVec 64) (k : ℕ) (c : ClockDomainCrosser) : Prop where
  clock1_eq : c.clock1 = clock1
  clock2_eq : c.clock2 = clock2
  counter1_eq : clock1 ≠ clock2 →
    ∃ meetings, k * clock1.toNat = c.counter1.toNat + meetings * Nat.lcm clock1.toNat clock2.toNat
  caughtUp : clock1 ≠ clock2 → CaughtUp clock2 c.counter1 c.counter2
  before_meeting : clock1 ≠ clock2 → c.counter1.toNat + clock1.toNat ≤ Nat.lcm clock1.toNat clock2.toNat

theorem zero_caughtUp (clock2 : BitVec 64) : CaughtUp clock2 0 0 := by
  change 0 = clock2.toNat * (0 ⌈/⌉ clock2.toNat)
  rw [zero_ceilDiv, Nat.mul_zero]

theorem clock1_le_lcm (hpos : clock2 ≠ 0) : clock1.toNat ≤ Nat.lcm clock1.toNat clock2.toNat := by
  rcases Nat.eq_zero_or_pos clock1.toNat with hzero | hclock1
  · rw [hzero]
    exact Nat.zero_le _
  · exact Nat.le_of_dvd (Nat.lcm_pos hclock1 (toNat_pos hpos)) (Nat.dvd_lcm_left _ _)

theorem paced_ofClocks (hpos : clock2 ≠ 0) : Paced clock1 clock2 0 (ofClocks clock1 clock2) where
  clock1_eq := rfl
  clock2_eq := rfl
  counter1_eq := fun _ => ⟨0, by rw [Nat.zero_mul, Nat.zero_mul]; rfl⟩
  caughtUp := fun _ => zero_caughtUp clock2
  before_meeting := fun _ => by
    change 0 + clock1.toNat ≤ _
    rw [Nat.zero_add]
    exact clock1_le_lcm hpos

/-- Both counters are behind the next meeting, so that the sums do not wrap if it does not. -/
theorem Paced.fits (h : Paced clock1 clock2 k c) (hpos : clock2 ≠ 0) (hne : clock1 ≠ clock2)
    (hlcm : Nat.lcm clock1.toNat clock2.toNat < 2 ^ 64) : c.counter1.toNat + clock1.toNat < 2 ^ 64 ∧
      clock2.toNat * ((c.counter1.toNat + clock1.toNat) ⌈/⌉ clock2.toNat) < 2 ^ 64 :=
  ⟨lt_of_le_of_lt (h.before_meeting hne) hlcm,
    lt_of_le_of_lt (mul_ceilDiv_le (toNat_pos hpos) (h.before_meeting hne) (Nat.dvd_lcm_right _ _)) hlcm⟩

theorem Paced.ticks_sub (h : Paced clock1 clock2 k c) (hpos : clock2 ≠ 0) (hne : clock1 ≠ clock2) :
    (c.counter1.toNat + clock1.toNat) ⌈/⌉ clock2.toNat - c.counter1.toNat ⌈/⌉ clock2.toNat =
      ticks clock1 clock2 (k + 1) - ticks clock1 clock2 k := by
  have hb := toNat_pos hpos
  obtain ⟨meetings, hmeetings⟩ := h.counter1_eq hne
  obtain ⟨n, hn⟩ := Nat.dvd_lcm_right clock1.toNat clock2.toNat
  have hticks : ∀ x, (x + meetings * Nat.lcm clock1.toNat clock2.toNat) ⌈/⌉ clock2.toNat =
      x ⌈/⌉ clock2.toNat + n * meetings := by
    intro x
    rw [← add_mul_ceilDiv hb]
    congr 2
    rw [hn]
    ring
  rw [ticks, ticks, Nat.succ_mul, hmeetings, Nat.add_right_comm, hticks, hticks, Nat.add_sub_add_right]

theorem Paced.next (h : Paced clock1 clock2 k c) (hpos : clock2 ≠ 0) (hne : clock1 ≠ clock2)
    (hlcm : Nat.lcm clock1.toNat clock2.toNat < 2 ^ 64) : Paced clock1 clock2 (k + 1) c.next := by
  have hb := toNat_pos hpos
  obtain ⟨hsum, hfits⟩ := h.fits hpos hne hlcm
  obtain ⟨rfl, rfl, hcounter1, hcaught, hbefore⟩ := h
  obtain ⟨meetings, hmeetings⟩ := hcounter1 hne
  have hsum' : (c.counter1 + c.clock1).toNat = c.counter1.toNat + c.clock1.toNat := by
    rw [BitVec.toNat_add, Nat.mod_eq_of_lt hsum]
  rw [← hsum'] at hfits
  obtain ⟨-, hcaught'⟩ := rounds_of_fits hpos (hcaught hne) (by omega) hfits
  have hdvd : c.clock1.toNat ∣ c.counter1.toNat + c.clock1.toNat := by
    have hall : c.clock1.toNat ∣ c.counter1.toNat + meetings * Nat.lcm c.clock1.toNat c.clock2.toNat :=
      hmeetings ▸ Nat.dvd_mul_left _ _
    exact Nat.dvd_add_self_right.mpr
      ((Nat.dvd_add_left ((Nat.dvd_lcm_left _ _).mul_left meetings)).mp hall)
  rw [ClockDomainCrosser.next]
  split_ifs with hmeet
  · -- A meeting: the counters are at the least common multiple, or at 0 with a clock that stands still.
    have hmultiple : c.clock2.toNat ∣ c.counter1.toNat + c.clock1.toNat := by
      rw [← hsum', hmeet, hcaught']
      exact Nat.dvd_mul_right _ _
    have hsum_eq : c.counter1.toNat + c.clock1.toNat = Nat.lcm c.clock1.toNat c.clock2.toNat :=
      Nat.le_antisymm (hbefore hne) (by
        rcases Nat.eq_zero_or_pos (c.counter1.toNat + c.clock1.toNat) with hzero | hsum_pos
        · rw [show c.clock1.toNat = 0 by omega, Nat.lcm_zero_left]
          exact Nat.zero_le _
        · exact Nat.le_of_dvd hsum_pos (Nat.lcm_dvd hdvd hmultiple))
    refine ⟨rfl, rfl, fun _ => ⟨meetings + 1, ?_⟩, fun _ => zero_caughtUp _, fun _ => ?_⟩
    · change (k + 1) * c.clock1.toNat = 0 + _
      rw [Nat.succ_mul, hmeetings, Nat.succ_mul, ← hsum_eq]
      ring
    · change 0 + _ ≤ _
      rw [Nat.zero_add]
      exact clock1_le_lcm hpos
  · refine ⟨rfl, rfl, fun _ => ⟨meetings, ?_⟩, fun _ => hcaught', fun _ => ?_⟩
    · dsimp only
      rw [hsum', Nat.succ_mul, hmeetings]
      ring
    · -- The next multiple of the first clock is not past the meeting, since this one is before it.
      dsimp only
      rw [hsum']
      have hlt : c.counter1.toNat + c.clock1.toNat < Nat.lcm c.clock1.toNat c.clock2.toNat := by
        refine lt_of_le_of_ne (hbefore hne) fun heq => hmeet (BitVec.eq_of_toNat_eq ?_)
        rw [hcaught', mul_ceilDiv_of_dvd hb]
        rw [hsum', heq]
        exact Nat.dvd_lcm_right _ _
      obtain ⟨i, hi⟩ := hdvd
      obtain ⟨l, hl⟩ := Nat.dvd_lcm_left c.clock1.toNat c.clock2.toNat
      rw [hi, hl] at hlt ⊢
      rw [← Nat.mul_succ]
      exact Nat.mul_le_mul_left _ (Nat.lt_of_mul_lt_mul_left hlt)

theorem Paced.update (h : Paced clock1 clock2 k c) (hpos : clock2 ≠ 0)
    (hkeeps : clock1 = clock2 ∨ Nat.lcm clock1.toNat clock2.toNat < 2 ^ 64) :
    ∃ c', Paced clock1 clock2 (k + 1) c' ∧ ∀ {σ ε : Type} (callback : σ → Except ε σ) (stuck : ε) (s : σ),
      c.update callback stuck s =
        (times callback (ticks clock1 clock2 (k + 1) - ticks clock1 clock2 k) s).map fun s => (c', s) := by
  by_cases hne : clock1 = clock2
  · subst hne
    have hone : ticks clock1 clock1 (k + 1) - ticks clock1 clock1 k = 1 := by
      have hticks : ∀ n, ticks clock1 clock1 n = n := by
        intro n
        have hmul := add_mul_ceilDiv (toNat_pos hpos) 0 n
        rwa [Nat.zero_add, zero_ceilDiv, Nat.zero_add, Nat.mul_comm] at hmul
      rw [hticks, hticks, Nat.add_sub_cancel_left]
    refine ⟨c, ⟨h.clock1_eq, h.clock2_eq, fun hne => absurd rfl hne, fun hne => absurd rfl hne,
      fun hne => absurd rfl hne⟩, fun callback stuck s => ?_⟩
    rw [ClockDomainCrosser.update, if_pos (h.clock1_eq.trans h.clock2_eq.symm), hone, times_one]
  · have hlcm := hkeeps.resolve_left hne
    refine ⟨c.next, h.next hpos hne hlcm, fun callback stuck s => ?_⟩
    obtain ⟨hsum, hfits⟩ := h.fits hpos hne hlcm
    rw [← h.ticks_sub hpos hne]
    obtain ⟨rfl, rfl, -, hcaught, -⟩ := h
    exact update_of_fits hpos hne (hcaught hne) hsum hfits callback stuck s

theorem ticks_mono (hpos : clock2 ≠ 0) {m n : ℕ} (hle : m ≤ n) :
    ticks clock1 clock2 m ≤ ticks clock1 clock2 n :=
  ceilDiv_mono (toNat_pos hpos) (Nat.mul_le_mul_right _ hle)

theorem Paced.updates (h : Paced clock1 clock2 k c) (hpos : clock2 ≠ 0)
    (hkeeps : clock1 = clock2 ∨ Nat.lcm clock1.toNat clock2.toNat < 2 ^ 64) (n : ℕ) :
    ∃ c', Paced clock1 clock2 (k + n) c' ∧ ∀ {σ ε : Type} (callback : σ → Except ε σ) (stuck : ε) (s : σ),
      c.updates callback stuck n s =
        (times callback (ticks clock1 clock2 (k + n) - ticks clock1 clock2 k) s).map fun s => (c', s) := by
  induction n generalizing k c with
  | zero =>
      refine ⟨c, h, fun callback stuck s => ?_⟩
      rw [Nat.add_zero, Nat.sub_self]
      rfl
  | succ n ih =>
      obtain ⟨c₁, hc₁, hupdate⟩ := h.update hpos hkeeps
      obtain ⟨c', hc', hupdates⟩ := ih hc₁
      rw [Nat.add_right_comm] at hc'
      refine ⟨c', hc', fun callback stuck s => ?_⟩
      have hsplit : ticks clock1 clock2 (k + 1 + n) - ticks clock1 clock2 k =
          ticks clock1 clock2 (k + 1) - ticks clock1 clock2 k +
            (ticks clock1 clock2 (k + 1 + n) - ticks clock1 clock2 (k + 1)) := by
        have hfirst : ticks clock1 clock2 k ≤ ticks clock1 clock2 (k + 1) := ticks_mono hpos (Nat.le_succ k)
        have hrest : ticks clock1 clock2 (k + 1) ≤ ticks clock1 clock2 (k + 1 + n) :=
          ticks_mono hpos (Nat.le_add_right _ n)
        omega
      rw [ClockDomainCrosser.updates, times_succ, hupdate callback stuck s,
        show k + (n + 1) = k + 1 + n by omega,
        hsplit, times_add]
      cases htimes : times callback (ticks clock1 clock2 (k + 1) - ticks clock1 clock2 k) s with
      | error e => rfl
      | ok t => exact hupdates callback stuck t

/-- A callback that counts its calls. -/
def countCalls (calls : ℕ) : Except Unit ℕ :=
  .ok (calls + 1)

theorem times_countCalls (n calls : ℕ) : times countCalls n calls = .ok (calls + n) := by
  induction n generalizing calls with
  | zero => rfl
  | succ n ih =>
      rw [times_succ, countCalls, ok_bind, ih]
      congr 1
      omega

/-- The counters of `k` updates of which none wraps and after none of which they meet. -/
def Fits (clock1 clock2 : BitVec 64) (k : ℕ) : Prop :=
  k * clock1.toNat < 2 ^ 64 ∧ clock2.toNat * ticks clock1 clock2 k < 2 ^ 64

theorem updates_succ (c : ClockDomainCrosser) (callback : σ → Except ε σ) (stuck : ε) (k : ℕ) (s : σ) :
    c.updates callback stuck (k + 1) s =
      c.updates callback stuck k s >>= fun p => p.1.update callback stuck p.2 := by
  rw [updates, times_add]
  apply bind_congr
  intro p
  exact times_one p

theorem updates_of_fits (hpos : clock2 ≠ 0) (hne : clock1 ≠ clock2)
    (hlcm : 2 ^ 64 ≤ Nat.lcm clock1.toNat clock2.toNat) (hfits : ∀ j ≤ k, Fits clock1 clock2 j) :
    ∃ c : ClockDomainCrosser, c.clock1 = clock1 ∧ c.clock2 = clock2 ∧ c.counter1.toNat = k * clock1.toNat ∧
      CaughtUp clock2 c.counter1 c.counter2 ∧
        (ofClocks clock1 clock2).updates countCalls () k 0 = .ok (c, ticks clock1 clock2 k) := by
  have hb := toNat_pos hpos
  have hclock1 : 0 < clock1.toNat := by
    by_contra hzero
    rw [Nat.eq_zero_of_not_pos hzero, Nat.lcm_zero_left] at hlcm
    omega
  induction k with
  | zero =>
      refine ⟨ofClocks clock1 clock2, rfl, rfl, (Nat.zero_mul _).symm, zero_caughtUp clock2, ?_⟩
      rw [ticks, Nat.zero_mul, zero_ceilDiv]
      rfl
  | succ k ih =>
      obtain ⟨c, rfl, rfl, hcounter1, hcaught, hupdates⟩ := ih fun j hj => hfits j (Nat.le_succ_of_le hj)
      have hsum : c.counter1.toNat + c.clock1.toNat = (k + 1) * c.clock1.toNat := by
        rw [hcounter1, Nat.succ_mul]
      obtain ⟨hfits1, hfits2⟩ := hfits (k + 1) (le_refl _)
      rw [ticks, ← hsum] at hfits2
      rw [← hsum] at hfits1
      have hsum' : (c.counter1 + c.clock1).toNat = c.counter1.toNat + c.clock1.toNat := by
        rw [BitVec.toNat_add, Nat.mod_eq_of_lt hfits1]
      have hfits2' := hfits2
      rw [← hsum'] at hfits2'
      obtain ⟨-, hcaught'⟩ := rounds_of_fits hpos hcaught (by omega) hfits2'
      have hapart : ¬ c.counter1 + c.clock1 =
          (· + c.clock2)^[(c.counter1 + c.clock1).toNat ⌈/⌉ c.clock2.toNat -
            c.counter1.toNat ⌈/⌉ c.clock2.toNat]
            c.counter2 := by
        -- A meeting would be at a common multiple.
        intro hmeet
        have hmultiple : c.clock2.toNat ∣ (k + 1) * c.clock1.toNat := by
          rw [← hsum, ← hsum', hmeet, hcaught']
          exact Nat.dvd_mul_right _ _
        have hle : Nat.lcm c.clock1.toNat c.clock2.toNat ≤ (k + 1) * c.clock1.toNat :=
          Nat.le_of_dvd (Nat.mul_pos k.succ_pos hclock1) (Nat.lcm_dvd (Nat.dvd_mul_left _ _) hmultiple)
        omega
      refine ⟨c.next, ?_, ?_, ?_, ?_, ?_⟩
      · rw [ClockDomainCrosser.next, if_neg hapart]
      · rw [ClockDomainCrosser.next, if_neg hapart]
      · rw [ClockDomainCrosser.next, if_neg hapart]
        exact hsum'.trans hsum
      · rw [ClockDomainCrosser.next, if_neg hapart]
        exact hcaught'
      · rw [updates_succ, hupdates, ok_bind]
        dsimp only
        rw [update_of_fits hpos hne hcaught hfits1 hfits2, times_countCalls]
        change Except.ok _ = Except.ok _
        rw [hsum, hcounter1, ← ticks, ← ticks, Nat.add_sub_cancel' (ticks_mono hpos (Nat.le_succ k))]

/-- **The crosser keeps its pace** exactly if the clocks are equal or their least common multiple is less than
`2 ^ 64`: `k` updates are then `k * clock1 / clock2` callbacks, rounded up, for every `k` and whatever the
callback does. -/
theorem keeps_pace_iff (clock1 clock2 : BitVec 64) (hpos : clock2 ≠ 0) :
    (∀ {σ ε : Type} (callback : σ → Except ε σ) (stuck : ε) (k : ℕ) (s : σ), ∃ c,
        (ofClocks clock1 clock2).updates callback stuck k s =
          (times callback (k * clock1.toNat ⌈/⌉ clock2.toNat) s).map fun s => (c, s)) ↔
      clock1 = clock2 ∨ Nat.lcm clock1.toNat clock2.toNat < 2 ^ 64 := by
  constructor
  · intro h
    by_contra hwraps
    obtain ⟨hne, hlcm⟩ := not_or.mp hwraps
    rw [Nat.not_lt] at hlcm
    have hb := toNat_pos hpos
    -- The first update with a counter that does not fit.
    have hexists : ∃ k, ¬ Fits clock1 clock2 k := by
      refine ⟨2 ^ 64, fun hfits => ?_⟩
      have hclock1 : clock1.toNat ≠ 0 := by
        intro hzero
        rw [hzero, Nat.lcm_zero_left] at hlcm
        omega
      have hle := Nat.le_mul_of_pos_right (2 ^ 64) (Nat.pos_of_ne_zero hclock1)
      have := hfits.1
      omega
    classical
    obtain ⟨K, hK, hbefore⟩ := Nat.findX hexists
    have hfits : ∀ j < K, Fits clock1 clock2 j := fun j hj => not_not.mp (hbefore j hj)
    obtain ⟨k, rfl⟩ : ∃ k, K = k + 1 := by
      refine Nat.exists_eq_succ_of_ne_zero fun hzero => hK ?_
      rw [hzero, Fits, ticks, Nat.zero_mul, zero_ceilDiv, Nat.mul_zero]
      decide
    obtain ⟨c, rfl, rfl, hcounter1, hcaught, hupdates⟩ :=
      updates_of_fits hpos hne hlcm fun j hj => hfits j (Nat.lt_succ_of_le hj)
    obtain ⟨c', hc'⟩ := h countCalls () (k + 1) 0
    rw [times_countCalls, updates_succ, hupdates, ok_bind, update, if_neg hne] at hc'
    obtain ⟨⟨counter2, calls⟩, hloop, hpair⟩ := map_ok hc'
    obtain ⟨n, hrounds, -, htimes⟩ := whileLoop_ok hloop
    rw [times_countCalls] at htimes
    have hcalls : ticks c.clock1 c.clock2 k + n = ticks c.clock1 c.clock2 (k + 1) := by
      have hcalls := (Except.ok.inj htimes).trans (Prod.mk.inj hpair).2
      rwa [Nat.zero_add] at hcalls
    have hcounter2 : c.counter2.toNat = c.clock2.toNat * ticks c.clock1 c.clock2 k := by
      rw [hcaught, hcounter1]
      rfl
    have hsum : (c.counter1 + c.clock1).toNat = (k + 1) * c.clock1.toNat % 2 ^ 64 := by
      rw [BitVec.toNat_add, hcounter1, Nat.succ_mul]
    obtain ⟨hk1, hk2⟩ := hfits k (Nat.lt_succ_self k)
    have hbehind : (k + 1) * c.clock1.toNat ≤ c.clock2.toNat * ticks c.clock1 c.clock2 (k + 1) :=
      le_mul_ceilDiv hb _
    by_cases hfits1 : (k + 1) * c.clock1.toNat < 2 ^ 64
    · -- Only the second counter wraps: it is behind again after the rounds it should make.
      have hlast := hrounds.2
      rw [decide_eq_false_iff_not, BitVec.lt_def, iterate_add_toNat, hcounter2, ← Nat.mul_add, hcalls, hsum,
        Nat.mod_eq_of_lt hfits1] at hlast
      have hwrap : 2 ^ 64 ≤ c.clock2.toNat * ticks c.clock1 c.clock2 (k + 1) := by
        by_contra hlt
        exact hK ⟨hfits1, Nat.lt_of_not_le hlt⟩
      have hpast : c.clock2.toNat * ticks c.clock1 c.clock2 (k + 1) < (k + 1) * c.clock1.toNat +
          c.clock2.toNat := by
        have hpred := (lt_mul_iff_ceilDiv_lt hb ((k + 1) * c.clock1.toNat)
            (ticks c.clock1 c.clock2 (k + 1) - 1)).mpr
          (Nat.sub_one_lt fun hzero => by rw [hzero, Nat.mul_zero] at hwrap; omega)
        rw [Nat.mul_sub, Nat.mul_one] at hpred
        omega
      have := c.clock2.isLt
      omega
    · -- The first counter wraps: it falls behind the second one, and no round is made.
      have hstands : n = 0 := by
        by_contra hn
        have hfirst := hrounds.1 0 (Nat.pos_of_ne_zero hn)
        rw [decide_eq_true_eq, Function.iterate_zero_apply, BitVec.lt_def, hcounter2, hsum] at hfirst
        have hk := le_mul_ceilDiv hb (k * c.clock1.toNat)
        rw [← ticks] at hk
        have := c.clock1.isLt
        rw [Nat.succ_mul] at hfirst hfits1
        omega
      rw [hstands, Nat.add_zero] at hcalls
      rw [← hcalls] at hbehind
      omega
  · intro hkeeps σ ε callback stuck k s
    obtain ⟨c, -, hupdates⟩ := (@paced_ofClocks clock1 _ hpos).updates hpos hkeeps k
    refine ⟨c, ?_⟩
    rw [hupdates callback stuck s, Nat.zero_add, ticks, ticks, Nat.zero_mul, zero_ceilDiv, Nat.sub_zero]

/-- A memory with cycles of 3 ns makes two of them in eight cycles of a client at 2.4 GHz. -/
theorem keeps_pace_ddr2 : ∃ c, (ofClocks 333333333 2400000000).updates
    (fun calls : ℕ => (.ok (calls + 1) : Except Unit ℕ)) () 8 0 = .ok (c, 2) := by
  obtain ⟨c, hc⟩ := (keeps_pace_iff 333333333 2400000000 (by decide)).mpr (.inr (by decide))
    (fun calls : ℕ => (.ok (calls + 1) : Except Unit ℕ)) () 8 0
  have hticks : 8 * (333333333 : BitVec 64).toNat ⌈/⌉ (2400000000 : BitVec 64).toNat = 2 := by
    rw [Nat.ceilDiv_eq_add_pred_div]
    rfl
  refine ⟨c, hc.trans ?_⟩
  rw [hticks]
  rfl

end ClockDomainCrosser

end RacerArtifacts.Mram
