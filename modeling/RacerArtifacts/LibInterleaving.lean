import Mathlib

/-! Threads that add to a shared memory with updates that are not atomic: an update loads its cell into a
temporary of its own and stores the sum later. The updates that are torn, which another update of their cell
is stored in the middle of, decide what is lost. -/

namespace RacerArtifacts.Interleaving

section Threads

variable {α : Type*} {threads : List (List α)} {w : List α}

/-- The sequences in which the steps of some threads may happen: one of them goes on, until all are at
their ends. -/
inductive Interleaves : List (List α) → List α → Prop
  | done {threads : List (List α)} (hdone : ∀ thread ∈ threads, thread = []) : Interleaves threads []
  | step {before after : List (List α)} {a : α} {rest w : List α}
      (h : Interleaves (before ++ rest :: after) w) :
      Interleaves (before ++ (a :: rest) :: after) (a :: w)

theorem Interleaves.perm (h : Interleaves threads w) : w.Perm threads.flatten := by
  induction h with
  | done hdone => rw [List.flatten_eq_nil_iff.mpr hdone]
  | @step before after a rest w h ih =>
      rw [List.flatten_append, List.flatten_cons] at ih ⊢
      exact (ih.cons a).trans List.perm_middle.symm

theorem Interleaves.sublist (h : Interleaves threads w) : ∀ thread ∈ threads, thread.Sublist w := by
  induction h with
  | done hdone =>
      intro thread hthread
      rw [hdone thread hthread]
  | @step before after a rest w h ih =>
      intro thread hthread
      rcases List.mem_append.mp hthread with hbefore | hthread
      · exact (ih thread (List.mem_append_left _ hbefore)).cons a
      · rcases List.mem_cons.mp hthread with rfl | hafter
        · exact (ih rest (List.mem_append_right _ List.mem_cons_self)).cons_cons a
        · exact (ih thread (List.mem_append_right _ (List.mem_cons_of_mem _ hafter))).cons a

theorem interleaves_flatten (threads : List (List α)) : Interleaves threads threads.flatten := by
  have hlater : ∀ before : List (List α), (∀ thread ∈ before, thread = []) →
      Interleaves (before ++ threads) threads.flatten := by
    induction threads with
    | nil =>
        intro before hbefore
        rw [List.append_nil]
        exact .done hbefore
    | cons thread threads ih =>
        intro before hbefore
        rw [List.flatten_cons]
        induction thread with
        | nil =>
            rw [List.append_cons]
            apply ih
            intro thread hthread
            rcases List.mem_append.mp hthread with hthread | hthread
            · exact hbefore thread hthread
            · exact List.mem_singleton.mp hthread
        | cons a rest ihrest => exact .step ihrest
  exact hlater [] fun _ hbad => by cases hbad

/-- What stands before another element in a part of a list without duplicates stands before it in the list. -/
theorem mem_before_of_sublist {a b : α} {before after : List α} (hnodup : (before ++ b :: after).Nodup)
    (hsub : [a, b].Sublist (before ++ b :: after)) : a ∈ before := by
  obtain ⟨l, l', heq, hl, hl'⟩ := List.sublist_append_iff.mp hsub
  cases l with
  | cons c l =>
      rw [List.cons_append, List.cons.injEq] at heq
      rw [heq.1]
      exact hl.subset List.mem_cons_self
  | nil =>
      rw [List.nil_append] at heq
      subst heq
      have hafter : b ∈ after := hl'.of_cons_cons.subset List.mem_cons_self
      exact absurd hafter (List.nodup_cons.mp (List.nodup_append.mp hnodup).2.1).1

end Threads

section Updates

variable {υ κ β γ : Type*}

/-- The two halves of an update. -/
inductive Access (υ : Type*) where
  | load (u : υ)
  | store (u : υ)
  deriving DecidableEq, Repr

structure State (υ κ β : Type*) where
  cell : κ → β
  temporary : υ → β

/-- What an update has loaded it stores with its term added. -/
def access [DecidableEq υ] [DecidableEq κ] [Add β] (target : υ → κ) (term : υ → β) (s : State υ κ β) :
    Access υ → State υ κ β
  | .load u => { s with temporary := Function.update s.temporary u (s.cell (target u)) }
  | .store u => { s with cell := Function.update s.cell (target u) (s.temporary u + term u) }

def execute [DecidableEq υ] [DecidableEq κ] [Add β] (target : υ → κ) (term : υ → β) (w : List (Access υ))
    (s : State υ κ β) : State υ κ β :=
  w.foldl (access target term) s

/-- Every update is in the list at most once, its load before its store. -/
structure Ordered (w : List (Access υ)) : Prop where
  nodup : w.Nodup
  loaded : ∀ before u after, w = before ++ .store u :: after → .load u ∈ before

/-- An update between its load and its store. -/
def Pending (w : List (Access υ)) (u : υ) : Prop :=
  .load u ∈ w ∧ .store u ∉ w

/-- An update that another one of its cell overtakes. -/
def Overtaken (target : υ → κ) (w : List (Access υ)) (v : υ) : Prop :=
  ∃ before u after, w = before ++ .store u :: after ∧ Pending before v ∧ v ≠ u ∧ target v = target u

def Torn (target : υ → κ) (w : List (Access υ)) : Prop :=
  ∃ v, Overtaken target w v

variable {target : υ → κ} {w : List (Access υ)} {a : Access υ} {u v : υ} {c : κ}

theorem Ordered.init (h : Ordered (w ++ [a])) : Ordered w where
  nodup := (List.nodup_append.mp h.nodup).1
  loaded before u after heq := by
    apply h.loaded before u (after ++ [a])
    rw [heq, List.append_assoc]
    rfl

theorem Ordered.fresh (h : Ordered (w ++ [a])) : a ∉ w := fun ha =>
  (List.nodup_append.mp h.nodup).2.2 a ha a (List.mem_singleton_self a) rfl

theorem Ordered.pending (h : Ordered (w ++ [.store u])) : Pending w u :=
  ⟨h.loaded w u [] rfl, h.fresh⟩

theorem Pending.of_load (h : Pending (w ++ [.load u]) v) (hne : v ≠ u) : Pending w v := by
  obtain ⟨hload, hstore⟩ := h
  simp only [List.mem_append, List.mem_singleton, Access.load.injEq, reduceCtorEq, or_false] at hload hstore
  exact ⟨hload.resolve_right hne, hstore⟩

theorem Pending.of_store (h : Pending (w ++ [.store u]) v) : Pending w v ∧ v ≠ u := by
  obtain ⟨hload, hstore⟩ := h
  simp only [List.mem_append, List.mem_singleton, Access.store.injEq, reduceCtorEq, or_false,
    not_or] at hload hstore
  exact ⟨⟨hload, hstore.1⟩, hstore.2⟩

theorem Overtaken.concat (h : Overtaken target (w ++ [a]) v) :
    Overtaken target w v ∨ ∃ u, a = .store u ∧ Pending w v ∧ v ≠ u ∧ target v = target u := by
  obtain ⟨before, u, after, heq, hpending, hne, hcell⟩ := h
  rcases List.eq_nil_or_concat after with rfl | ⟨after, b, rfl⟩
  · obtain ⟨rfl, hlast⟩ := List.append_inj' heq rfl
    exact .inr ⟨u, (List.cons.inj hlast).1, hpending, hne, hcell⟩
  · rw [List.concat_eq_append, ← List.cons_append, ← List.append_assoc] at heq
    exact .inl ⟨before, u, after, (List.append_inj' heq rfl).1, hpending, hne, hcell⟩

theorem Overtaken.append (h : Overtaken target w v) (a : Access υ) : Overtaken target (w ++ [a]) v := by
  obtain ⟨before, u, after, rfl, hpending, hne, hcell⟩ := h
  exact ⟨before, u, after ++ [a], by rw [List.append_assoc, List.cons_append], hpending, hne, hcell⟩

section Stored

variable [DecidableEq υ] [DecidableEq κ]

/-- The updates of a cell that are stored. -/
def stored (target : υ → κ) (w : List (Access υ)) (c : κ) : Finset υ :=
  (w.filterMap fun
    | .load _ => none
    | .store u => if target u = c then some u else none).toFinset

theorem mem_stored : u ∈ stored target w c ↔ .store u ∈ w ∧ target u = c := by
  rw [stored, List.mem_toFinset, List.mem_filterMap]
  constructor
  · rintro ⟨a, ha, hstored⟩
    cases a with
    | load v => cases hstored
    | store v =>
        dsimp only at hstored
        split_ifs at hstored with hcell
        cases hstored
        exact ⟨ha, hcell⟩
  · rintro ⟨hstore, hcell⟩
    exact ⟨.store u, hstore, if_pos hcell⟩

theorem stored_load (w : List (Access υ)) (u : υ) (c : κ) :
    stored target (w ++ [.load u]) c = stored target w c := by
  ext v
  rw [mem_stored, mem_stored, List.mem_append, List.mem_singleton]
  simp only [reduceCtorEq, or_false]

theorem stored_store (w : List (Access υ)) (u : υ) (c : κ) : stored target (w ++ [.store u]) c =
    if target u = c then insert u (stored target w c) else stored target w c := by
  ext v
  rw [mem_stored, List.mem_append, List.mem_singleton, Access.store.injEq]
  split_ifs with hcell
  · rw [Finset.mem_insert, mem_stored]
    constructor
    · rintro ⟨hstore | rfl, hv⟩
      · exact .inr ⟨hstore, hv⟩
      · exact .inl rfl
    · rintro (rfl | ⟨hstore, hv⟩)
      · exact ⟨.inr rfl, hcell⟩
      · exact ⟨.inl hstore, hv⟩
  · rw [mem_stored]
    constructor
    · rintro ⟨hstore | rfl, hv⟩
      · exact ⟨hstore, hv⟩
      · exact absurd hv hcell
    · rintro ⟨hstore, hv⟩
      exact ⟨.inl hstore, hv⟩

theorem sum_stored_store [AddCommMonoid β] (h : Ordered (w ++ [.store u])) (term : υ → β) :
    ∑ v ∈ stored target (w ++ [.store u]) (target u),
      term v = (∑ v ∈ stored target w (target u), term v) + term u := by
  have hnot : u ∉ stored target w (target u) := fun hmem => h.fresh (mem_stored.mp hmem).1
  rw [stored_store, if_pos rfl, Finset.sum_insert hnot, add_comm]

end Stored

section Execute

variable [DecidableEq υ] [DecidableEq κ]

theorem execute_concat [Add β] (term : υ → β) (w : List (Access υ)) (a : Access υ) (s : State υ κ β) :
    execute target term (w ++ [a]) s = access target term (execute target term w s) a :=
  List.foldl_append

variable [AddCommMonoid β] {term term' : υ → β}

/-- With no update torn every term arrives, and what is pending has its cell as it is. -/
theorem execute_untorn (h : Ordered w) (huntorn : ¬ Torn target w) (term : υ → β) (s : State υ κ β) :
    (∀ c, (execute target term w s).cell c = s.cell c + ∑ u ∈ stored target w c, term u) ∧
      ∀ v, Pending w v → (execute target term w s).temporary v =
        (execute target term w s).cell (target v) := by
  induction w using List.reverseRecOn with
  | nil => exact ⟨fun c => (add_zero _).symm, fun v hv => by cases hv.1⟩
  | append_singleton w a ih =>
      obtain ⟨hcell, htemporary⟩ := ih h.init fun ⟨v, hv⟩ => huntorn ⟨v, hv.append a⟩
      rw [execute_concat]
      cases a with
      | load u =>
          refine ⟨fun c => ?_, fun v hv => ?_⟩
          · rw [stored_load]
            exact hcell c
          · by_cases hne : v = u
            · rw [hne]
              exact Function.update_self _ _ _
            · exact (Function.update_of_ne hne _ _).trans (htemporary v (hv.of_load hne))
      | store u =>
          have hloaded := htemporary u h.pending
          refine ⟨fun c => ?_, fun v hv => ?_⟩
          · by_cases hc : c = target u
            · rw [hc, sum_stored_store h, ← add_assoc, ← hcell, ← hloaded]
              exact Function.update_self _ _ _
            · rw [stored_store, if_neg (Ne.symm hc), ← hcell c]
              exact Function.update_of_ne hc _ _
          · -- Another update of the cell would be torn by this store.
            obtain ⟨hpending, hne⟩ := hv.of_store
            have hother : target v ≠ target u := fun hsame =>
              huntorn ⟨v, w, u, [], rfl, hpending, hne, hsame⟩
            exact (htemporary v hpending).trans (Function.update_of_ne hother _ _).symm

theorem execute_start (h : Ordered w) (term : υ → β) (s : State υ κ β) :
    (∀ c, (execute target term w s).cell c =
        s.cell c + (execute target term w ⟨fun _ => 0, fun _ => 0⟩).cell c) ∧
      ∀ v, Pending w v → (execute target term w s).temporary v =
        s.cell (target v) + (execute target term w ⟨fun _ => 0, fun _ => 0⟩).temporary v := by
  induction w using List.reverseRecOn with
  | nil => exact ⟨fun c => (add_zero _).symm, fun v hv => by cases hv.1⟩
  | append_singleton w a ih =>
      obtain ⟨hcell, htemporary⟩ := ih h.init
      rw [execute_concat, execute_concat]
      cases a with
      | load u =>
          refine ⟨hcell, fun v hv => ?_⟩
          by_cases hne : v = u
          · simp only [access, hne, Function.update_self]
            exact hcell (target u)
          · simp only [access, Function.update_of_ne hne]
            exact htemporary v (hv.of_load hne)
      | store u =>
          refine ⟨fun c => ?_, fun v hv => htemporary v hv.of_store.1⟩
          by_cases hc : c = target u
          · simp only [access, hc, Function.update_self]
            rw [htemporary u h.pending, add_assoc]
          · simp only [access, Function.update_of_ne hc]
            exact hcell c

theorem execute_congr (h : Ordered w) (hterm : ∀ u ∈ stored target w c, term u = term' u) (s : State υ κ β) :
    (execute target term w s).cell c = (execute target term' w s).cell c ∧
      ∀ v, Pending w v → target v = c →
        (execute target term w s).temporary v = (execute target term' w s).temporary v := by
  induction w using List.reverseRecOn with
  | nil => exact ⟨rfl, fun _ _ _ => rfl⟩
  | append_singleton w a ih =>
      rw [execute_concat, execute_concat]
      cases a with
      | load u =>
          rw [stored_load] at hterm
          obtain ⟨hcell, htemporary⟩ := ih h.init hterm
          refine ⟨hcell, fun v hv hc => ?_⟩
          by_cases hne : v = u
          · subst hne hc
            simp only [access, Function.update_self]
            exact hcell
          · simp only [access, Function.update_of_ne hne]
            exact htemporary v (hv.of_load hne) hc
      | store u =>
          have hbefore : ∀ v ∈ stored target w c, term v = term' v := by
            intro v hv
            obtain ⟨hstore, hc⟩ := mem_stored.mp hv
            exact hterm v (mem_stored.mpr ⟨List.mem_append_left _ hstore, hc⟩)
          obtain ⟨hcell, htemporary⟩ := ih h.init hbefore
          refine ⟨?_, fun v hv => htemporary v hv.of_store.1⟩
          by_cases hc : c = target u
          · subst hc
            have hu : u ∈ stored target (w ++ [.store u]) (target u) :=
              mem_stored.mpr ⟨List.mem_append_right _ (List.mem_singleton_self _), rfl⟩
            simp only [access, Function.update_self]
            rw [htemporary u h.pending rfl, hterm u hu]
          · simp only [access, Function.update_of_ne hc]
            exact hcell

/-- A homomorphism of the values goes through an execution from zeros. -/
theorem execute_map [AddCommMonoid γ] (f : β →+ γ) (term : υ → β) (w : List (Access υ)) :
    (∀ c, (execute target (fun u => f (term u)) w ⟨fun _ => 0, fun _ => 0⟩).cell c =
        f ((execute target term w ⟨fun _ => 0, fun _ => 0⟩).cell c)) ∧
      ∀ v, (execute target (fun u => f (term u)) w ⟨fun _ => 0, fun _ => 0⟩).temporary v =
        f ((execute target term w ⟨fun _ => 0, fun _ => 0⟩).temporary v) := by
  induction w using List.reverseRecOn with
  | nil => exact ⟨fun _ => (map_zero f).symm, fun _ => (map_zero f).symm⟩
  | append_singleton w a ih =>
      obtain ⟨hcell, htemporary⟩ := ih
      rw [execute_concat, execute_concat]
      cases a with
      | load u =>
          refine ⟨hcell, fun v => ?_⟩
          by_cases hne : v = u
          · simp only [access, hne, Function.update_self]
            exact hcell _
          · simp only [access, Function.update_of_ne hne]
            exact htemporary v
      | store u =>
          refine ⟨fun c => ?_, htemporary⟩
          by_cases hc : c = target u
          · simp only [access, hc, Function.update_self]
            rw [htemporary u, map_add]
          · simp only [access, Function.update_of_ne hc]
            exact hcell c

end Execute

section Lost

variable [DecidableEq υ] [DecidableEq κ] {s : State υ κ ℕ}

/-- The cells and the temporaries against the stores so far, when every update adds 1: an update that was
overtaken falls behind, and takes its cell with it for good. -/
structure Counted (target : υ → κ) (w : List (Access υ)) (s : State υ κ ℕ) : Prop where
  cell_le : ∀ c, s.cell c ≤ (stored target w c).card
  temporary_le : ∀ v, Pending w v → s.temporary v ≤ (stored target w (target v)).card
  overtaken_lt : ∀ v, Overtaken target w v → Pending w v → s.temporary v < (stored target w (target v)).card
  cell_lt : ∀ v, Overtaken target w v → .store v ∈ w → s.cell (target v) < (stored target w (target v)).card
  temporary_lt : ∀ v, Overtaken target w v → .store v ∈ w → ∀ u, Pending w u → target u = target v →
    s.temporary u < (stored target w (target u)).card

theorem Counted.load (h : Counted target w s) (hordered : Ordered (w ++ [.load u])) :
    Counted target (w ++ [.load u]) (access target (fun _ => 1) s (.load u)) := by
  have hovertaken : ∀ v, Overtaken target (w ++ [.load u]) v → Overtaken target w v := by
    intro v hv
    rcases hv.concat with hv | ⟨_, hbad, -⟩
    · exact hv
    · cases hbad
  have hstored : ∀ v, .store v ∈ w ++ [.load u] → .store v ∈ w := by
    intro v hv
    simpa using hv
  refine ⟨fun c => ?_, fun v hv => ?_, fun v hover hv => ?_, fun v hover hv => ?_,
    fun v hover hv u' hu' hc => ?_⟩
  · rw [stored_load]
    exact h.cell_le c
  · rw [stored_load]
    by_cases hne : v = u
    · simp only [access, hne, Function.update_self]
      exact h.cell_le _
    · simp only [access, Function.update_of_ne hne]
      exact h.temporary_le v (hv.of_load hne)
  · rw [stored_load]
    have hne : v ≠ u := by
      rintro rfl
      obtain ⟨before, _, after, rfl, hpending, -⟩ := hovertaken v hover
      exact hordered.fresh (List.mem_append_left _ hpending.1)
    simp only [access, Function.update_of_ne hne]
    exact h.overtaken_lt v (hovertaken v hover) (hv.of_load hne)
  · rw [stored_load]
    exact h.cell_lt v (hovertaken v hover) (hstored v hv)
  · rw [stored_load]
    by_cases hne : u' = u
    · subst hne
      simp only [access, Function.update_self]
      rw [hc]
      exact h.cell_lt v (hovertaken v hover) (hstored v hv)
    · simp only [access, Function.update_of_ne hne]
      exact h.temporary_lt v (hovertaken v hover) (hstored v hv) u' (hu'.of_load hne) hc

theorem Counted.store (h : Counted target w s) (hordered : Ordered (w ++ [.store u])) :
    Counted target (w ++ [.store u]) (access target (fun _ => 1) s (.store u)) := by
  have hgrows : (stored target (w ++ [.store u]) (target u)).card =
      (stored target w (target u)).card + 1 := by
    have hsum : ∑ _v ∈ stored target (w ++ [.store u]) (target u),
        1 = (∑ _v ∈ stored target w (target u), 1) + 1 :=
      sum_stored_store hordered fun _ => 1
    simpa using hsum
  have hcard : ∀ c, (stored target w c).card ≤ (stored target (w ++ [.store u]) c).card := by
    intro c
    apply Finset.card_le_card
    intro v hv
    obtain ⟨hstore, hc⟩ := mem_stored.mp hv
    exact mem_stored.mpr ⟨List.mem_append_left _ hstore, hc⟩
  have hother : ∀ v, v ≠ u → .store v ∈ w ++ [.store u] → .store v ∈ w := by
    intro v hne hv
    simpa [hne] using hv
  have hu := h.temporary_le u hordered.pending
  refine ⟨fun c => ?_, fun v hv => ?_, fun v hover hv => ?_, fun v hover hv => ?_,
    fun v hover hv u' hu' hc => ?_⟩
  · by_cases hc : c = target u
    · simp only [access, hc, Function.update_self]
      omega
    · simp only [access, Function.update_of_ne hc]
      exact (h.cell_le c).trans (hcard c)
  · exact (h.temporary_le v hv.of_store.1).trans (hcard _)
  · obtain ⟨hpending, hne⟩ := hv.of_store
    rcases hover.concat with hover | ⟨_, hlast, -, -, hc⟩
    · exact (h.overtaken_lt v hover hpending).trans_le (hcard _)
    · cases hlast
      have hv := h.temporary_le v hpending
      rw [hc] at hv ⊢
      exact Nat.lt_of_le_of_lt hv (by omega)
  · by_cases hne : v = u
    · subst hne
      have hbefore : Overtaken target w v := hover.concat.resolve_right fun ⟨_, hlast, _, hne, _⟩ => by
        cases hlast
        exact hne rfl
      have hlt := h.overtaken_lt v hbefore hordered.pending
      simp only [access, Function.update_self]
      omega
    · have hstore := hother v hne hv
      have hbefore : Overtaken target w v :=
        hover.concat.resolve_right fun ⟨_, _, hpending, _⟩ => hpending.2 hstore
      by_cases hc : target v = target u
      · have hlt := h.temporary_lt v hbefore hstore u hordered.pending hc.symm
        simp only [access, hc, Function.update_self]
        omega
      · simp only [access, Function.update_of_ne hc]
        exact (h.cell_lt v hbefore hstore).trans_le (hcard _)
  · obtain ⟨hpending, -⟩ := hu'.of_store
    by_cases hne : v = u
    · subst hne
      have hle := h.temporary_le u' hpending
      rw [hc] at hle ⊢
      exact Nat.lt_of_le_of_lt hle (by omega)
    · have hstore := hother v hne hv
      have hbefore : Overtaken target w v :=
        hover.concat.resolve_right fun ⟨_, _, hpending, _⟩ => hpending.2 hstore
      exact (h.temporary_lt v hbefore hstore u' hpending hc).trans_le (hcard _)

theorem counted (h : Ordered w) : Counted target w
    (execute target (fun _ => 1) w ⟨fun _ => 0, fun _ => 0⟩) := by
  induction w using List.reverseRecOn with
  | nil =>
      have hnone : ∀ v, ¬ Overtaken target ([] : List (Access υ)) v := by
        rintro v ⟨before, u, after, heq, -⟩
        simp at heq
      exact ⟨fun _ => Nat.zero_le _, fun _ hv => absurd hv.1 List.not_mem_nil,
        fun v hv => absurd hv (hnone v),
        fun v hv => absurd hv (hnone v), fun v hv => absurd hv (hnone v)⟩
  | append_singleton w a ih =>
      rw [execute_concat]
      cases a with
      | load u => exact (ih h.init).load h
      | store u => exact (ih h.init).store h

/-- How often each update has gone into a cell. -/
def contribution (target : υ → κ) (w : List (Access υ)) (c : κ) : υ → ℕ :=
  (execute target (fun u => (Pi.single u 1 : υ → ℕ)) w ⟨fun _ => 0, fun _ => 0⟩).cell c

theorem execute_ones (h : Ordered w) (c : κ) :
    (execute target (fun _ => 1) w ⟨fun _ => 0, fun _ => 0⟩).cell c =
      ∑ u ∈ stored target w c, contribution target w c u := by
  let total : (υ → ℕ) →+ ℕ :=
    { toFun := fun x => ∑ u ∈ stored target w c, x u
      map_zero' := Finset.sum_eq_zero fun _ _ => rfl
      map_add' := fun _ _ => Finset.sum_add_distrib }
  have hones : ∀ u ∈ stored target w c, 1 = total (Pi.single u 1) := by
    intro u hu
    show 1 = ∑ v ∈ stored target w c, (Pi.single u 1 : υ → ℕ) v
    rw [Finset.sum_pi_single', if_pos hu]
  rw [(execute_congr h hones _).1]
  exact (execute_map total _ w).1 c

theorem execute_one [AddCommMonoidWithOne β] (w : List (Access υ)) (c : κ) (v : υ) :
    (execute target (fun u => if u = v then (1 : β) else 0) w ⟨fun _ => 0, fun _ => 0⟩).cell c =
      contribution target w c v := by
  let count : (υ → ℕ) →+ β := (Nat.castAddMonoidHom β).comp (Pi.evalAddMonoidHom (fun _ => ℕ) v)
  have hone : (fun u => if u = v then (1 : β) else 0) = fun u => count (Pi.single u 1) := by
    funext u
    show _ = (((Pi.single u 1 : υ → ℕ) v : ℕ) : β)
    by_cases hu : u = v
    · rw [if_pos hu, hu, Pi.single_eq_same, Nat.cast_one]
    · rw [if_neg hu, Pi.single_eq_of_ne (Ne.symm hu), Nat.cast_zero]
  rw [hone]
  exact (execute_map count _ w).1 c

/-- **A torn update loses an update**: of some update of the list nothing arrives, so that a term of 1, where
all others are 0, leaves its cell at 0. -/
theorem lost_of_torn [AddCommMonoidWithOne β] (h : Ordered w) (hends : ∀ u, .load u ∈ w → .store u ∈ w)
    (htorn : Torn target w) : ∃ v, .store v ∈ w ∧
      (execute target (fun u => if u = v then (1 : β) else 0) w ⟨fun _ => 0, fun _ => 0⟩).cell
      (target v) = 0 := by
  obtain ⟨v, hover⟩ := htorn
  have hstore : .store v ∈ w := by
    obtain ⟨before, _, after, heq, hpending, -⟩ := hover
    apply hends
    rw [heq]
    exact List.mem_append_left _ hpending.1
  have hshort := (counted h).cell_lt v hover hstore
  rw [execute_ones h] at hshort
  by_contra hnone
  push Not at hnone
  apply hshort.not_ge
  rw [Finset.card_eq_sum_ones]
  apply Finset.sum_le_sum
  intro u hu
  obtain ⟨hu, hc⟩ := mem_stored.mp hu
  apply Nat.one_le_iff_ne_zero.mpr
  intro hzero
  apply hnone u hu
  rw [execute_one, hc, hzero, Nat.cast_zero]

end Lost

section Loops

variable {us : List υ} {updates : List (List υ)}

/-- The accesses of a thread that executes updates one after the other. -/
def accesses (us : List υ) : List (Access υ) :=
  us.flatMap fun u => [.load u, .store u]

theorem mem_accesses : a ∈ accesses us ↔ ∃ u ∈ us, a = .load u ∨ a = .store u := by
  simp only [accesses, List.mem_flatMap, List.mem_cons, List.not_mem_nil, or_false]

theorem load_mem_accesses : .load u ∈ accesses us ↔ u ∈ us := by
  simp [mem_accesses]

theorem store_mem_accesses : .store u ∈ accesses us ↔ u ∈ us := by
  simp [mem_accesses]

theorem accesses_append (us us' : List υ) : accesses (us ++ us') = accesses us ++ accesses us' :=
  List.flatMap_append

theorem accesses_flatten (updates : List (List υ)) :
    (updates.map accesses).flatten = accesses updates.flatten := by
  induction updates with
  | nil => rfl
  | cons us updates ih => rw [List.map_cons, List.flatten_cons, List.flatten_cons, accesses_append, ih]

theorem nodup_accesses (h : us.Nodup) : (accesses us).Nodup := by
  rw [accesses, List.nodup_flatMap]
  refine ⟨fun u _ => by simp, h.imp fun hne => ?_⟩
  simp only [Function.onFun, List.disjoint_cons_left, List.mem_cons, Access.load.injEq, Access.store.injEq,
    reduceCtorEq, List.not_mem_nil, or_false, false_or, List.disjoint_nil_left, and_true]
  exact ⟨hne, hne⟩

/-- A load stands in the thread before the store of its update. -/
theorem load_store_sublist (hu : u ∈ us) : [.load u, .store u].Sublist (accesses us) := by
  obtain ⟨before, after, rfl⟩ := List.append_of_mem hu
  rw [accesses_append]
  exact (List.sublist_append_left [.load u, .store u] (accesses after)).trans (List.sublist_append_right _ _)

/-- The two accesses of an update stand before those of a later one. -/
theorem store_sublist {before after : List υ} (hv : v ∈ after) {b : Access υ}
    (hb : b = .load v ∨ b = .store v) :
    [.store u, b].Sublist (accesses (before ++ u :: after)) := by
  have hb : [b].Sublist (accesses after) := List.singleton_sublist.mpr (mem_accesses.mpr ⟨v, hv, hb⟩)
  rw [accesses_append]
  exact ((hb.cons_cons (.store u)).cons (.load u)).trans (List.sublist_append_right _ _)

section Run

variable (h : Interleaves (updates.map accesses) w)

include h

theorem mem_of_interleaves : a ∈ w ↔ a ∈ accesses updates.flatten := by
  rw [← accesses_flatten]
  exact h.perm.mem_iff

theorem ends_of_interleaves : .load u ∈ w → .store u ∈ w := by
  rw [mem_of_interleaves h, mem_of_interleaves h, load_mem_accesses, store_mem_accesses]
  exact id

theorem thread_of_interleaves (ha : .load u ∈ w ∨ .store u ∈ w) : ∃ us ∈ updates, u ∈ us := by
  rw [mem_of_interleaves h, mem_of_interleaves h, load_mem_accesses, store_mem_accesses, or_self] at ha
  exact List.mem_flatten.mp ha

theorem sublist_of_interleaves (hus : us ∈ updates) : (accesses us).Sublist w :=
  h.sublist _ (List.mem_map_of_mem hus)

variable (hnodup : updates.flatten.Nodup)

include hnodup

theorem ordered_of_interleaves : Ordered w := by
  have hw : w.Nodup := by
    apply h.perm.nodup_iff.mpr
    rw [accesses_flatten]
    exact nodup_accesses hnodup
  refine ⟨hw, fun before u after heq => ?_⟩
  subst heq
  obtain ⟨us, hus, hu⟩ := thread_of_interleaves h (.inr (List.mem_append_right _ List.mem_cons_self))
  exact mem_before_of_sublist hw ((load_store_sublist hu).trans (sublist_of_interleaves h hus))

/-- Where the updates of a cell are all in one thread, none is torn. -/
theorem untorn_of_private (hprivate : ∀ us ∈ updates, ∀ vs ∈ updates, ∀ u ∈ us, ∀ v ∈ vs,
    target v = target u → vs = us) : ¬ Torn target w := by
  have hordered := ordered_of_interleaves h hnodup
  rintro ⟨v, before, u, after, rfl, ⟨hload, hstore⟩, hne, hc⟩
  obtain ⟨us, hus, hu⟩ := thread_of_interleaves h (.inr (List.mem_append_right _ List.mem_cons_self))
  obtain ⟨vs, hvs, hv⟩ := thread_of_interleaves h (.inl (List.mem_append_left _ hload))
  obtain rfl := hprivate us hus vs hvs u hu v hv hc
  obtain ⟨front, back, rfl⟩ := List.append_of_mem hu
  have hsub := sublist_of_interleaves h hus
  rcases List.mem_append.mp hv with hfront | hback
  · -- The other update was over before.
    obtain ⟨front, middle, rfl⟩ := List.append_of_mem hfront
    rw [List.append_assoc, List.cons_append] at hsub
    have hmiddle : u ∈ middle ++ u :: back := List.mem_append_right _ List.mem_cons_self
    exact hstore (mem_before_of_sublist hordered.nodup ((store_sublist hmiddle (.inr rfl)).trans hsub))
  · -- The other update comes after.
    have hafter := (List.mem_cons.mp hback).resolve_left hne
    obtain ⟨start, rest, rfl⟩ := List.append_of_mem hload
    have hnodup := hordered.nodup
    rw [List.append_assoc, List.cons_append] at hsub hnodup
    have hbefore := mem_before_of_sublist hnodup ((store_sublist hafter (.inl rfl)).trans hsub)
    have htwice := List.nodup_append.mp hnodup
    exact htwice.2.2 _ hbefore _ (by simp) rfl

end Run

/-- Two threads that begin with updates of one cell can tear one of them. -/
theorem exists_torn (us vs : List υ) (hne : v ≠ u) (hc : target v = target u) :
    ∃ w, Interleaves ([u :: us, v :: vs].map accesses) w ∧ Torn target w := by
  have hrest := interleaves_flatten [accesses us, .store v :: accesses vs]
  generalize List.flatten _ = rest at hrest
  have hstore : Interleaves ([] ++ (.store u :: accesses us) :: [.store v :: accesses vs])
      (.store u :: rest) :=
    .step hrest
  have hload : Interleaves ([.store u :: accesses us] ++ (.load v :: .store v :: accesses vs) :: [])
      (.load v :: .store u :: rest) := .step hstore
  have hall : Interleaves ([] ++ (.load u :: .store u :: accesses us) :: [.load v :: .store v :: accesses vs])
      (.load u :: .load v :: .store u :: rest) := .step hload
  exact ⟨_, hall, v, [.load u, .load v], u, rest, rfl, ⟨by simp, by simp⟩, hne, hc⟩

end Loops

section ParallelFor

variable {body : ℕ → List υ} {M : ℕ}

/-- An execution of a parallel loop: its iterations dealt out to threads, each of which executes its own one
after the other, and the order in which the accesses of the threads happen. -/
structure ParallelFor (body : ℕ → List υ) (M : ℕ) where
  threads : List (List ℕ)
  dealt : threads.flatten.Perm (List.range M)
  trace : List (Access υ)
  interleaves : Interleaves ((threads.map fun thread => thread.flatMap body).map accesses) trace

namespace ParallelFor

variable (e : ParallelFor body M)

theorem updates_perm : (e.threads.map fun thread => thread.flatMap body).flatten.Perm
    ((List.range M).flatMap body) := by
  have hflatten : ∀ threads : List (List ℕ),
      (threads.map fun thread => thread.flatMap body).flatten = threads.flatten.flatMap body := by
    intro threads
    induction threads with
    | nil => rfl
    | cons thread threads ih => rw [List.map_cons, List.flatten_cons, List.flatten_cons,
        List.flatMap_append, ih]
  rw [hflatten]
  exact e.dealt.flatMap_right body

theorem ends : ∀ u, .load u ∈ e.trace → .store u ∈ e.trace := fun _ =>
  ends_of_interleaves e.interleaves

theorem store_mem_trace : .store u ∈ e.trace ↔ ∃ m < M, u ∈ body m := by
  rw [mem_of_interleaves e.interleaves, store_mem_accesses, e.updates_perm.mem_iff, List.mem_flatMap]
  simp only [List.mem_range]

variable (hnodup : ((List.range M).flatMap body).Nodup)

include hnodup

theorem ordered : Ordered e.trace :=
  ordered_of_interleaves e.interleaves (e.updates_perm.nodup_iff.mpr hnodup)

/-- Iterations that have their cells to themselves are not torn. -/
theorem untorn (hprivate : ∀ m m' u v, u ∈ body m → v ∈ body m' → target v = target u → m' = m) :
    ¬ Torn target e.trace := by
  apply untorn_of_private e.interleaves (e.updates_perm.nodup_iff.mpr hnodup)
  intro us hus vs hvs u hu v hv hc
  obtain ⟨thread, hthread, rfl⟩ := List.mem_map.mp hus
  obtain ⟨thread', hthread', rfl⟩ := List.mem_map.mp hvs
  obtain ⟨m, hm, hu⟩ := List.mem_flatMap.mp hu
  obtain ⟨m', hm', hv⟩ := List.mem_flatMap.mp hv
  obtain rfl := hprivate m m' u v hu hv hc
  have hdistinct := (List.nodup_flatten.mp (e.dealt.nodup_iff.mpr List.nodup_range)).2
  by_contra hne
  have hthreads : thread' ≠ thread := fun heq => hne (by rw [heq])
  have hsymm : Std.Symm (List.Disjoint : List ℕ → List ℕ → Prop) := ⟨fun _ _ h => h.symm⟩
  exact hdistinct.forall hthread' hthread hthreads hm' hm

end ParallelFor

/-- Two iterations that begin with updates of one cell, in two threads. -/
theorem ParallelFor.exists_torn {us vs : List υ} (hM : 2 ≤ M) (hfirst : body 0 = u :: us)
    (hsecond : body 1 = v :: vs)
    (hne : v ≠ u) (hc : target v = target u) : ∃ e : ParallelFor body M, Torn target e.trace := by
  obtain ⟨M, rfl⟩ := Nat.exists_eq_add_of_le hM
  have hdealt : [[0], 1 :: List.range' 2 M].flatten = List.range (2 + M) := by
    rw [add_comm, List.range_eq_range', List.range'_succ, List.range'_succ]
    simp
  obtain ⟨w, hw, htorn⟩ := Interleaving.exists_torn us (vs ++ (List.range' 2 M).flatMap body) hne hc
  refine ⟨⟨[[0], 1 :: List.range' 2 M], .of_eq hdealt, w, ?_⟩, htorn⟩
  simpa [hfirst, hsecond] using hw

end ParallelFor

end Updates

end RacerArtifacts.Interleaving
