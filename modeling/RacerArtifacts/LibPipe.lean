import Mathlib

/-! A line of countdowns in front of one slot. What enters the line waits for its countdown, then holds the
slot for `D` ticks. If the entries come at least `D` ticks apart, an entry finds the slot free, and leaves
it a fixed time after it was issued, behind all entries before it. -/

namespace Pipe

variable {β : Type*}

/-- The entries of a pipe at time `T`, each with the time at which it was issued: those that are done, the one
that holds the slot, and those that wait. An entry issued at `t` leaves the line at `t + L` and the slot at
`t + L + D`. -/
structure Flow (D L T : ℕ) (entries done : List (ℕ × β)) (slot : Option (ℕ × β))
    (wait : List (ℕ × β)) : Prop where
  entries_eq : entries = done ++ (slot.toList ++ wait)
  spaced : entries.Pairwise fun e f => e.1 + D ≤ f.1
  done_le : ∀ e ∈ done, e.1 + L + D ≤ T
  slot_le : ∀ e ∈ slot, e.1 + L ≤ T
  slot_lt : ∀ e ∈ slot, T < e.1 + L + D
  wait_lt : ∀ e ∈ wait, T < e.1 + L

variable {D L T : ℕ} {entries done wait : List (ℕ × β)} {slot : Option (ℕ × β)}

theorem Flow.nil : Flow D L T ([] : List (ℕ × β)) [] none [] where
  entries_eq := rfl
  spaced := .nil
  done_le := fun e he => by cases he
  slot_le := fun e he => by cases he
  slot_lt := fun e he => by cases he
  wait_lt := fun e he => by cases he

/-- **What is done** is what was issued long enough ago, in the order of the issue. -/
theorem Flow.done_eq (h : Flow D L T entries done slot wait) :
    done = entries.filter fun e => decide (e.1 + L + D ≤ T) := by
  have hdone : done.filter (fun e => decide (e.1 + L + D ≤ T)) = done :=
    List.filter_eq_self.mpr fun e he => decide_eq_true (h.done_le e he)
  have hlater : (slot.toList ++ wait).filter (fun e => decide (e.1 + L + D ≤ T)) = [] := by
    apply List.filter_eq_nil_iff.mpr
    intro e he
    rw [decide_eq_true_eq, not_le]
    rcases List.mem_append.mp he with he | he
    · exact h.slot_lt e (Option.mem_toList.mp he)
    · have := h.wait_lt e he
      omega
  rw [h.entries_eq, List.filter_append, hdone, hlater, List.append_nil]

/-- A pipe whose entries were all issued long enough ago is empty. -/
theorem Flow.drained (h : Flow D L T entries done slot wait) (hpast : ∀ e ∈ entries, e.1 + L + D ≤ T) :
    done = entries ∧ slot = none ∧ wait = [] := by
  have hdone : done = entries := by
    rw [h.done_eq]
    exact List.filter_eq_self.mpr fun e he => decide_eq_true (hpast e he)
  have hrest : slot.toList ++ wait = [] := by
    have hentries := h.entries_eq
    rw [hdone] at hentries
    exact List.append_right_eq_self.mp hentries.symm
  obtain ⟨hslot, hwait⟩ := List.append_eq_nil_iff.mp hrest
  exact ⟨hdone, Option.toList_eq_nil_iff.mp hslot, hwait⟩

/-- The entries that wait are apart from each other and from the one that holds the slot. -/
theorem Flow.wait_spaced (h : Flow D L T entries done slot wait) :
    wait.Pairwise fun e f => e.1 + D ≤ f.1 := by
  have hspaced := h.spaced
  rw [h.entries_eq] at hspaced
  exact (List.pairwise_append.mp (List.pairwise_append.mp hspaced).2.1).2.1

theorem Flow.slot_spaced (h : Flow D L T entries done slot wait) {e f : ℕ × β} (he : e ∈ slot)
    (hf : f ∈ wait) :
    e.1 + D ≤ f.1 := by
  have hspaced := h.spaced
  rw [h.entries_eq] at hspaced
  exact (List.pairwise_append.mp (List.pairwise_append.mp hspaced).2.1).2.2 e (Option.mem_toList.mpr he) f hf

/-- **What a tick has done** is what was issued just long enough ago. -/
theorem Flow.new_eq {new wait' : List (ℕ × β)} {slot' : Option (ℕ × β)}
    (h : Flow D L T entries done slot wait) (h' : Flow D L (T + 1) entries (done ++ new) slot' wait') :
    new = entries.filter fun e => decide (e.1 + L + D = T + 1) := by
  have hnew : ∀ e ∈ new, e.1 + L + D = T + 1 := by
    intro e he
    have hle := h'.done_le e (List.mem_append_right done he)
    have hentries : done ++ (slot.toList ++ wait) = done ++ (new ++ (slot'.toList ++ wait')) := by
      rw [← h.entries_eq, ← List.append_assoc, ← h'.entries_eq]
    have hrest : slot.toList ++ wait = new ++ (slot'.toList ++ wait') := List.append_cancel_left hentries
    have hmem : e ∈ slot.toList ++ wait := by
      rw [hrest]
      exact List.mem_append_left _ he
    rcases List.mem_append.mp hmem with he | he
    · have := h.slot_lt e (Option.mem_toList.mp he)
      omega
    · have := h.wait_lt e he
      omega
  have hdone : done.filter (fun e => decide (e.1 + L + D = T + 1)) = [] := by
    apply List.filter_eq_nil_iff.mpr
    intro e he
    have := h.done_le e he
    rw [decide_eq_true_eq]
    omega
  have hlater : (slot'.toList ++ wait').filter (fun e => decide (e.1 + L + D = T + 1)) = [] := by
    apply List.filter_eq_nil_iff.mpr
    intro e he
    rw [decide_eq_true_eq]
    rcases List.mem_append.mp he with he | he
    · have := h'.slot_lt e (Option.mem_toList.mp he)
      omega
    · have := h'.wait_lt e he
      omega
  rw [h'.entries_eq, List.filter_append, List.filter_append, hdone, hlater, List.nil_append, List.append_nil]
  exact (List.filter_eq_self.mpr fun e he => decide_eq_true (hnew e he)).symm

/-- The slot after a tick: the entry that holds it may be done. -/
inductive Finishes (D L T : ℕ) : Option (ℕ × β) → Option (ℕ × β) → Option (ℕ × β) → Prop
  | none : Finishes D L T none none none
  | stays {e : ℕ × β} (hlt : T + 1 < e.1 + L + D) : Finishes D L T (some e) none (some e)
  | leaves {e : ℕ × β} (heq : e.1 + L + D = T + 1) : Finishes D L T (some e) (some e) none

/-- The line after a tick: the head of it may go to the slot. -/
inductive Starts (L T : ℕ) (slot : Option (ℕ × β)) : List (ℕ × β) → Option (ℕ × β) → List (ℕ × β) → Prop
  | waits {wait : List (ℕ × β)} (hlt : ∀ e ∈ wait, T + 1 < e.1 + L) : Starts L T slot wait slot wait
  | starts {e : ℕ × β} {wait : List (ℕ × β)} (heq : e.1 + L = T + 1) (hfree : slot = none) :
      Starts L T slot (e :: wait) (some e) wait

/-- The entry in the slot is done in a tick or stays for the next. -/
theorem Flow.finishes (h : Flow D L T entries done slot wait) :
    ∃ finished slot₁, Finishes D L T slot finished slot₁ ∧ slot.toList = finished.toList ++ slot₁.toList := by
  cases slot with
  | none => exact ⟨none, none, .none, rfl⟩
  | some e =>
      have hlt := h.slot_lt e rfl
      by_cases heq : e.1 + L + D = T + 1
      · exact ⟨some e, none, .leaves heq, rfl⟩
      · exact ⟨none, some e, .stays (by omega), rfl⟩

theorem Flow.done_append {finished slot₁ : Option (ℕ × β)} (h : Flow D L T entries done slot wait)
    (hfinish : Finishes D L T slot finished slot₁) : ∀ e ∈ done ++ finished.toList, e.1 + L + D ≤ T + 1 := by
  intro e he
  rcases List.mem_append.mp he with he | he
  · exact (h.done_le e he).trans (Nat.le_succ T)
  · rw [Option.mem_toList] at he
    cases hfinish with
    | none => cases he
    | stays => cases he
    | leaves heq =>
        cases he
        exact heq.le

theorem Finishes.left {finished slot₁ : Option (ℕ × β)} (hfinish : Finishes D L T slot finished slot₁) :
    ∀ e ∈ slot₁, e ∈ slot ∧ T + 1 < e.1 + L + D := by
  intro e he
  cases hfinish with
  | none => cases he
  | stays hlt =>
      cases he
      exact ⟨rfl, hlt⟩
  | leaves => cases he

/-- If the head of the line is not due, nothing in the line is. -/
theorem Flow.not_due (hD : 1 ≤ D) (h : Flow D L T entries done slot wait)
    (hhead : ∀ e rest, wait = e :: rest → e.1 + L ≠ T + 1) : ∀ e ∈ wait, T + 1 < e.1 + L := by
  intro e he
  apply lt_of_le_of_ne (h.wait_lt e he)
  intro heq
  obtain ⟨front, rest, rfl⟩ := List.append_of_mem he
  cases front with
  | nil => exact hhead e rest rfl heq.symm
  | cons f front =>
      have hf := h.wait_lt f List.mem_cons_self
      have := List.rel_of_pairwise_cons h.wait_spaced
          (List.mem_append_right front (List.mem_cons_self (a := e)))
      omega

/-- **A tick.** The entry in the slot goes on, then the head of the line does, and finds the slot free. -/
theorem Flow.tick (hD : 1 ≤ D) (h : Flow D L T entries done slot wait) :
    ∃ finished slot₁ slot' wait', Finishes D L T slot finished slot₁ ∧ Starts L T slot₁ wait slot' wait' ∧
      Flow D L (T + 1) entries (done ++ finished.toList) slot' wait' := by
  obtain ⟨finished, slot₁, hfinish, hslot⟩ := h.finishes
  have hdone := h.done_append hfinish
  have hslot₁ := hfinish.left
  have hentries : entries = done ++ finished.toList ++ (slot₁.toList ++ wait) := by
    rw [h.entries_eq, hslot, List.append_assoc, List.append_assoc]
  by_cases hstart : ∃ e rest, wait = e :: rest ∧ e.1 + L = T + 1
  · obtain ⟨e, rest, rfl, heq⟩ := hstart
    have hfree : slot₁ = none := by
      apply Option.eq_none_iff_forall_not_mem.mpr
      intro f hf
      obtain ⟨hmem, hlt⟩ := hslot₁ f hf
      have := h.slot_spaced hmem List.mem_cons_self
      omega
    subst hfree
    refine ⟨finished, none, some e, rest, hfinish, .starts heq rfl, hentries, h.spaced, hdone, fun f hf => ?_,
      fun f hf => ?_, fun f hf => ?_⟩
    · cases hf
      exact heq.le
    · cases hf
      omega
    · have := List.rel_of_pairwise_cons h.wait_spaced hf
      omega
  · have hlt := h.not_due hD fun e rest hwait heq => hstart ⟨e, rest, hwait, heq⟩
    refine ⟨finished, slot₁, slot₁, wait, hfinish, .waits hlt, hentries, h.spaced, hdone, fun e he => ?_,
      fun e he => (hslot₁ e he).2, hlt⟩
    exact (h.slot_le e (hslot₁ e he).1).trans (Nat.le_succ T)

/-- At most one entry is done in a tick, behind those that were done before. -/
theorem Flow.due (hD : 1 ≤ D) (h : Flow D L T entries done slot wait) :
    ∃ finished : Option (ℕ × β), (entries.filter fun e => decide (e.1 + L + D = T + 1)) = finished.toList ∧
      (entries.filter fun e => decide (e.1 + L + D ≤ T + 1)) =
        (entries.filter fun e => decide (e.1 + L + D ≤ T)) ++ finished.toList := by
  obtain ⟨finished, slot₁, slot', wait', -, -, h'⟩ := h.tick hD
  refine ⟨finished, (h.new_eq h').symm, ?_⟩
  rw [← h.done_eq, ← h'.done_eq]

/-- A new entry, issued `D` ticks behind the others. -/
theorem Flow.push (h : Flow D L T entries done slot wait) {e : ℕ × β} (hspaced : ∀ f ∈ entries, f.1 + D ≤ e.1)
    (hlt : T < e.1 + L) : Flow D L T (entries ++ [e]) done slot (wait ++ [e]) where
  entries_eq := by rw [h.entries_eq, List.append_assoc, List.append_assoc]
  spaced := by
    refine List.pairwise_append.mpr ⟨h.spaced, List.pairwise_singleton _ _, fun f hf g hg => ?_⟩
    rw [List.mem_singleton.mp hg]
    exact hspaced f hf
  done_le := h.done_le
  slot_le := h.slot_le
  slot_lt := h.slot_lt
  wait_lt := fun f hf => by
    rcases List.mem_append.mp hf with hf | hf
    · exact h.wait_lt f hf
    · rw [List.mem_singleton.mp hf]
      exact hlt

/-- What a slot, the ticks left of it, and a line of packets with their countdowns hold of the entries. -/
structure Carries (D L T : ℕ) (slot : Option (ℕ × β)) (wait : List (ℕ × β)) (bus : Option β) (left : ℕ)
    (packets : List β) (line : List ℕ) : Prop where
  bus_eq : bus = slot.map Prod.snd
  left_eq : ∀ e ∈ slot, left + T = e.1 + L + D
  packets_eq : packets = wait.map Prod.snd
  line_eq : line = wait.map fun e => e.1 + L - T

theorem Carries.push {bus : Option β} {left : ℕ} {packets : List β} {line : List ℕ}
    (h : Carries D L T slot wait bus left packets line) {e : ℕ × β} {c : ℕ} (hc : e.1 + L = c + T) :
    Carries D L T slot (wait ++ [e]) bus left (packets ++ [e.2]) (line ++ [c]) where
  bus_eq := h.bus_eq
  left_eq := h.left_eq
  packets_eq := by rw [h.packets_eq, List.map_append, List.map_singleton]
  line_eq := by rw [h.line_eq, List.map_append, List.map_singleton, hc, Nat.add_sub_cancel]

/-- A tick of the countdowns, with any function that counts down from 1 on. -/
theorem countdown_tick {f : ℕ → ℕ} (hf : ∀ n, 1 ≤ n → f n = n - 1) (hwait : ∀ e ∈ wait, T < e.1 + L) :
    (wait.map fun e => e.1 + L - T).map f = wait.map fun e => e.1 + L - (T + 1) := by
  rw [List.map_map]
  apply List.map_congr_left
  intro e he
  have := hwait e he
  show f (e.1 + L - T) = e.1 + L - (T + 1)
  rw [hf _ (by omega)]
  omega

end Pipe
