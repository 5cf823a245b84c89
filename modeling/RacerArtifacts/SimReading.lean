import Mathlib
import RacerArtifacts.SimDrive

/-! The plain left-to-right reading of a program: its maximal runs of compute instructions, each under
the mask that the configuration instructions before it make. The driver loop is related to it by
induction on the instructions that are left; whether the loop ends or fetches behind the end of the
instruction memory is decided by the last two instructions. -/

namespace RacerArtifacts.Sim

open Charging

/-- A maximal run of compute instructions and the mask it runs under. -/
structure Epoch where
  mask : List ℤ
  instructions : List Instruction
  deriving DecidableEq

/-- The end of a run, which is an epoch unless it is empty. -/
def closeRun (mask : List ℤ) (run : List Instruction) (es : List Epoch) : List Epoch :=
  if run = [] then es else ⟨mask, run⟩ :: es

/-- The epochs of a program from a mask on; `run` is the run that is being read. -/
def epochsFrom (units : ℕ) : List ℤ → List Instruction → List Instruction → Except PyError (List Epoch)
  | mask, run, [] => .ok (closeRun mask run [])
  | mask, run, ins :: rest =>
    if ins.isConfig then do
      let mask' ← configStep units mask ins
      let es ← epochsFrom units mask' [] rest
      return closeRun mask run es
    else epochsFrom units mask (run ++ [ins]) rest

/-- The epochs of a program from a mask on. -/
def epochs (units : ℕ) (mask : List ℤ) (prog : List Instruction) : Except PyError (List Epoch) :=
  epochsFrom units mask [] prog

variable {units : ℕ}

theorem epochs_config {ins : Instruction} (hins : ins.isConfig = true) (mask : List ℤ)
    (rest : List Instruction) :
    epochs units mask (ins :: rest) = configStep units mask ins >>= fun m => epochs units m rest := by
  rw [epochs, epochsFrom, if_pos hins]
  cases configStep units mask ins with
  | error e => rfl
  | ok mask' =>
      simp only [bind, Except.bind, epochs]
      cases epochsFrom units mask' [] rest with
      | error e => rfl
      | ok es => rfl

theorem epochsFrom_append {xs : List Instruction} (hxs : ∀ ins ∈ xs, ins.isConfig = false) (mask : List ℤ)
    (run rest : List Instruction) :
    epochsFrom units mask run (xs ++ rest) = epochsFrom units mask (run ++ xs) rest := by
  induction xs generalizing run with
  | nil => rw [List.nil_append, List.append_nil]
  | cons ins xs ih =>
      have hins : ¬ins.isConfig = true := by simp [hxs ins List.mem_cons_self]
      rw [List.cons_append, epochsFrom, if_neg hins, ih fun i hi => hxs i (List.mem_cons_of_mem ins hi),
        List.append_assoc]
      rfl

/-- A run in front of a configuration instruction is an epoch. -/
theorem epochs_run {xs : List Instruction} (hxs : ∀ ins ∈ xs, ins.isConfig = false) (hne : xs ≠ [])
    {ins : Instruction} (hins : ins.isConfig = true) (mask : List ℤ) (rest : List Instruction) :
    epochs units mask (xs ++ ins :: rest) = (epochs units mask (ins :: rest)).map (⟨mask, xs⟩ :: ·) := by
  rw [epochs, epochsFrom_append hxs, epochs_config hins, epochsFrom, if_pos hins, List.nil_append]
  cases configStep units mask ins with
  | error e => rfl
  | ok mask' =>
      simp only [bind, Except.bind, epochs]
      cases epochsFrom units mask' [] rest with
      | error e => rfl
      | ok es => exact congrArg Except.ok (if_neg hne)

/-- `configSetup` leaves the epochs as they are. -/
theorem epochs_of_configRead {l rest : List Instruction} {mask mask' : List ℤ}
    (h : configRead units l mask = .ok (mask', rest)) : epochs units mask l = epochs units mask' rest := by
  refine configRead_rec (P := fun l mask => epochs units mask l = epochs units mask' rest) h ?_ ?_
  · intro ins tail _ _
    rfl
  · intro ins l mask mask₁ hins hstep ih
    rw [epochs_config hins, hstep]
    exact ih

/-- Where every configuration instruction can be carried out, `configSetup` fails only by running off
the end. -/
theorem configRead_error {l : List Instruction} {mask : List ℤ} {es : List Epoch} {e : PyError}
    (hes : epochs units mask l = .ok es) (h : configRead units l mask = .error e) :
    e = .indexError ∧ ∀ ins ∈ l, ins.isConfig = true := by
  induction l generalizing mask with
  | nil =>
      cases h
      exact ⟨rfl, fun ins hins => by cases hins⟩
  | cons ins l ih =>
      cases hins : ins.isConfig with
      | false =>
          rw [configRead_compute hins] at h
          cases h
      | true =>
          rw [configRead_config hins] at h
          rw [epochs_config hins] at hes
          cases hstep : configStep units mask ins with
          | error e' => rw [hstep] at hes; cases hes
          | ok mask₁ =>
              rw [hstep] at h hes
              obtain ⟨he, hall⟩ := ih hes h
              exact ⟨he, List.forall_mem_cons.mpr ⟨hins, hall⟩⟩

/-- Read in order, the epochs are the compute instructions: none is lost, none is there twice. -/
theorem epochsFrom_flatten {l run : List Instruction} {mask : List ℤ} {es : List Epoch}
    (h : epochsFrom units mask run l = .ok es) :
    (es.map Epoch.instructions).flatten = run ++ l.filter (!·.isConfig) := by
  have hclose (mask : List ℤ) (run : List Instruction) (es : List Epoch) :
      ((closeRun mask run es).map Epoch.instructions).flatten =
        run ++ (es.map Epoch.instructions).flatten := by
    unfold closeRun
    split
    · rename_i hrun
      rw [hrun, List.nil_append]
    · rfl
  induction l generalizing mask run es with
  | nil =>
      cases h
      exact hclose mask run []
  | cons ins l ih =>
      rw [epochsFrom] at h
      cases hins : ins.isConfig with
      | false =>
          rw [if_neg (by simp [hins])] at h
          rw [ih h, List.filter_cons_of_pos (by simp [hins]), List.append_assoc]
          rfl
      | true =>
          rw [if_pos hins] at h
          cases hstep : configStep units mask ins with
          | error e => rw [hstep] at h; cases h
          | ok mask₁ =>
              cases hrest : epochsFrom units mask₁ [] l with
              | error e => simp only [hstep, hrest, bind, Except.bind] at h; cases h
              | ok es₁ =>
                  simp only [hstep, hrest, bind, Except.bind] at h
                  cases h
                  rw [hclose, ih hrest, List.nil_append, List.filter_cons_of_neg (by simp [hins])]

theorem epochs_flatten {l : List Instruction} {mask : List ℤ} {es : List Epoch}
    (h : epochs units mask l = .ok es) :
    (es.map Epoch.instructions).flatten = l.filter (!·.isConfig) := by
  rw [epochsFrom_flatten h, List.nil_append]

theorem isConfig_of_mem_epochs {l : List Instruction} {mask : List ℤ} {es : List Epoch}
    (h : epochs units mask l = .ok es) {e : Epoch} (he : e ∈ es) {ins : Instruction}
    (hins : ins ∈ e.instructions) : ins ∈ l ∧ ins.isConfig = false := by
  have hmem : ins ∈ (es.map Epoch.instructions).flatten :=
    List.mem_flatten.mpr ⟨e.instructions, List.mem_map_of_mem he, hins⟩
  rw [epochs_flatten h, List.mem_filter] at hmem
  exact ⟨hmem.1, by simpa using hmem.2⟩

/-- The mask that the configuration instructions of a program make. -/
def maskAfter (units : ℕ) (mask : List ℤ) (prog : List Instruction) : Except PyError (List ℤ) :=
  (prog.filter (·.isConfig)).foldlM (configStep units) mask

theorem maskAfter_config {ins : Instruction} (hins : ins.isConfig = true) (mask : List ℤ)
    (prog : List Instruction) :
    maskAfter units mask (ins :: prog) = configStep units mask ins >>= fun m => maskAfter units m prog := by
  rw [maskAfter, List.filter_cons_of_pos hins, List.foldlM_cons]
  rfl

theorem maskAfter_compute {ins : Instruction} (hins : ins.isConfig = false) (mask : List ℤ)
    (prog : List Instruction) : maskAfter units mask (ins :: prog) = maskAfter units mask prog := by
  rw [maskAfter, List.filter_cons_of_neg (by simp [hins])]
  rfl

theorem maskAfter_append {mask mask' : List ℤ} {p q : List Instruction}
    (h : maskAfter units mask p = .ok mask') :
    maskAfter units mask (p ++ q) = maskAfter units mask' q := by
  unfold maskAfter at *
  rw [List.filter_append, List.foldlM_append, h]
  rfl

theorem maskAfter_all_compute {run : List Instruction} (hrun : ∀ ins ∈ run, ins.isConfig = false)
    (mask : List ℤ) :
    maskAfter units mask run = .ok mask := by
  rw [maskAfter, List.filter_eq_nil_iff.mpr fun ins hins => by simp [hrun ins hins]]
  rfl

theorem configRead_maskAfter {l rest : List Instruction} {mask mask' : List ℤ}
    (h : configRead units l mask = .ok (mask', rest)) :
    ∃ p, l = p ++ rest ∧ maskAfter units mask p = .ok mask' := by
  refine configRead_rec (P := fun l mask => ∃ p, l = p ++ rest ∧ maskAfter units mask p = .ok mask') h ?_ ?_
  · intro ins tail _ _
    exact ⟨[], rfl, rfl⟩
  · rintro ins l mask mask₁ hins hstep ⟨p, rfl, hmask⟩
    refine ⟨ins :: p, rfl, ?_⟩
    rw [maskAfter_config hins, hstep]
    exact hmask

theorem closeRun_append (mask : List ℤ) (run : List Instruction) (es es' : List Epoch) :
    closeRun mask run (es ++ es') = closeRun mask run es ++ es' := by
  unfold closeRun
  split
  · rfl
  · rw [List.cons_append]

/-- Behind a configuration instruction the reading starts afresh from the mask it left. -/
theorem epochsFrom_append_config {pre rest run : List Instruction} {b : Instruction} (hb : b.isConfig = true)
    {mask mask' : List ℤ} {es es' : List Epoch} (hpre : epochsFrom units mask run (pre ++ [b]) = .ok es)
    (hmask : maskAfter units mask (pre ++ [b]) = .ok mask') (hrest : epochs units mask' rest = .ok es') :
    epochsFrom units mask run (pre ++ [b] ++ rest) = .ok (es ++ es') := by
  induction pre generalizing mask run es with
  | nil =>
      rw [List.nil_append] at hpre hmask
      rw [maskAfter_config hb] at hmask
      rw [List.nil_append, List.singleton_append, epochsFrom, if_pos hb]
      rw [epochsFrom, if_pos hb] at hpre
      cases hstep : configStep units mask b with
      | error e => rw [hstep] at hpre; cases hpre
      | ok m =>
          rw [hstep] at hpre hmask
          cases hpre
          obtain rfl : m = mask' := Except.ok.inj hmask
          change epochsFrom units m [] rest = .ok es' at hrest
          simp only [bind, Except.bind, hrest, pure, Except.pure]
          rw [← closeRun_append]
          rfl
  | cons ins pre ih =>
      rw [List.cons_append, epochsFrom] at hpre
      rw [List.cons_append] at hmask
      rw [List.cons_append, List.cons_append, epochsFrom]
      by_cases hins : ins.isConfig = true
      · rw [maskAfter_config hins] at hmask
        rw [if_pos hins] at hpre ⊢
        cases hstep : configStep units mask ins with
        | error e => rw [hstep] at hpre; cases hpre
        | ok m =>
            rw [hstep] at hmask
            cases htail : epochsFrom units m [] (pre ++ [b]) with
            | error e => simp only [hstep, htail, bind, Except.bind] at hpre; cases hpre
            | ok es₁ =>
                simp only [hstep, htail, bind, Except.bind] at hpre
                cases hpre
                have htail' := ih htail hmask
                simp only [bind, Except.bind, htail', closeRun_append]
                rfl
      · rw [maskAfter_compute (by simpa using hins)] at hmask
        rw [if_neg hins] at hpre ⊢
        exact ih hpre hmask

/-! ### The end of a program -/

/-- The last instruction is of the SET family and the one before it is not. -/
def EndsWell (prog : List Instruction) : Prop :=
  ∃ p a b, prog = p ++ [a, b] ∧ a.isConfig = false ∧ b.isConfig = true

/-- The last instruction is not of the SET family, or the last two both are. -/
def BadEnd (prog : List Instruction) : Prop :=
  (∃ p a, prog = p ++ [a] ∧ a.isConfig = false) ∨
    ∃ p a b, prog = p ++ [a, b] ∧ a.isConfig = true ∧ b.isConfig = true

theorem exists_last_two {l : List Instruction} (hl : 2 ≤ l.length) : ∃ p a b, l = p ++ [a, b] := by
  obtain ⟨q, b, rfl⟩ := (List.eq_nil_or_concat l).resolve_left (by rintro rfl; simp at hl)
  rw [List.concat_eq_append] at hl ⊢
  rw [List.length_append] at hl
  obtain ⟨p, a, rfl⟩ := (List.eq_nil_or_concat q).resolve_left (by rintro rfl; simp at hl)
  rw [List.concat_eq_append]
  exact ⟨p, a, b, by rw [List.append_assoc]; rfl⟩

theorem endsWell_or_badEnd {l : List Instruction} (hl : 2 ≤ l.length) : EndsWell l ∨ BadEnd l := by
  obtain ⟨p, a, b, rfl⟩ := exists_last_two hl
  cases ha : a.isConfig with
  | false =>
      cases hb : b.isConfig with
      | false => exact Or.inr (Or.inl ⟨p ++ [a], b, by rw [List.append_assoc]; rfl, hb⟩)
      | true => exact Or.inl ⟨p, a, b, rfl, ha, hb⟩
  | true =>
      cases hb : b.isConfig with
      | false => exact Or.inr (Or.inl ⟨p ++ [a], b, by rw [List.append_assoc]; rfl, hb⟩)
      | true => exact Or.inr (Or.inr ⟨p, a, b, rfl, ha, hb⟩)

theorem EndsWell.not_badEnd {l : List Instruction} (h : EndsWell l) : ¬BadEnd l := by
  obtain ⟨p, a, b, rfl, ha, hb⟩ := h
  rintro (⟨q, b', hq, hb'⟩ | ⟨q, a', b', hq, ha', -⟩)
  · have hlast : p ++ [a] ++ [b] = q ++ [b'] := by rw [← hq, List.append_assoc]; rfl
    obtain ⟨-, h⟩ := List.append_inj' hlast rfl
    cases h
    rw [hb] at hb'
    cases hb'
  · obtain ⟨-, h⟩ := List.append_inj' hq rfl
    cases h
    rw [ha] at ha'
    cases ha'

theorem EndsWell.two_le_length {l : List Instruction} (h : EndsWell l) : 2 ≤ l.length := by
  obtain ⟨p, a, b, rfl, -, -⟩ := h
  simp

/-- A suffix that still has the last two instructions ends as the whole does. -/
theorem EndsWell.suffix {l s : List Instruction} (h : EndsWell l) (hs : s <:+ l) (hlen : 2 ≤ s.length) :
    EndsWell s := by
  obtain ⟨p, a, b, rfl, ha, hb⟩ := h
  obtain ⟨q, a', b', rfl⟩ := exists_last_two hlen
  obtain ⟨t, ht⟩ := hs
  rw [← List.append_assoc] at ht
  obtain ⟨-, h⟩ := List.append_inj' ht rfl
  cases h
  exact ⟨q, a, b, rfl, ha, hb⟩

theorem EndsWell.of_suffix {l s : List Instruction} (hs : s <:+ l) (h : EndsWell s) : EndsWell l := by
  obtain ⟨p, a, b, rfl, ha, hb⟩ := h
  obtain ⟨t, rfl⟩ := hs
  exact ⟨t ++ p, a, b, by rw [List.append_assoc], ha, hb⟩

theorem EndsWell.append {l l' : List Instruction} (h' : EndsWell l') : EndsWell (l ++ l') :=
  h'.of_suffix (List.suffix_append l l')

/-! ### The driver against the reading -/

variable {γ : Type} {charge : List ℤ → List Instruction → Except PyError γ}

/-- What an epoch charges. -/
def Epoch.charges (charge : List ℤ → List Instruction → Except PyError γ) (e : Epoch) : Except PyError γ :=
  charge e.mask e.instructions

/-- What an epoch charges on `n` clusters. -/
def Epoch.tally (n : ℕ) (tab : CostTab) (e : Epoch) : Except PyError (Tally n) :=
  epochTally n tab e.mask e.instructions

/-- An iteration whose fetch runs off the end of the instruction memory is one of a program that does not end
well. -/
theorem not_endsWell_of_fetchRead {l l' : List Instruction} (hsuf : l' <:+ l) (hne : l' ≠ []) {err : PyError}
    (hfetch : fetchRead l' = .error err) : err = .indexError ∧ ¬EndsWell l := by
  unfold fetchRead at hfetch
  split at hfetch
  · rename_i hnil
    cases hfetch
    refine ⟨rfl, ?_⟩
    rintro ⟨p, a, b, rfl, -, hb⟩
    have hmem : b ∈ l' := by
      obtain ⟨t, ht⟩ := hsuf
      have hlast := List.getLast_append_of_right_ne_nil t l' hne
      simp only [ht, List.getLast_append_of_right_ne_nil p [a, b] (List.cons_ne_nil _ _)] at hlast
      rw [← show l'.getLast hne = b from hlast.symm]
      exact List.getLast_mem hne
    have := List.dropWhile_eq_nil_iff.mp hnil b hmem
    simp [hb] at this
  · cases hfetch

/-- An iteration charges the first epoch and leaves the others, unless it runs off the end of the
instruction memory, which it does only on a program that does not end well. -/
theorem driveStep_reading {l : List Instruction} {mask : List ℤ} {es : List Epoch}
    (hes : epochs units mask l = .ok es) :
    (driveStep units charge mask l = .error .indexError ∧ ¬EndsWell l) ∨
      ∃ e es' ins tail, es = e :: es' ∧ ins :: tail <:+ l ∧ (ins :: tail).length < l.length ∧
        ins.isConfig = true ∧ (tail = [] → EndsWell l) ∧ epochs units e.mask (ins :: tail) = .ok es' ∧
        driveStep units charge mask l = (e.charges charge).map fun t => (e.mask, t, ins :: tail) := by
  cases hconfig : configRead units l mask with
  | error err =>
      obtain ⟨rfl, hall⟩ := configRead_error hes hconfig
      refine Or.inl ⟨by simp only [driveStep, hconfig]; rfl, ?_⟩
      rintro ⟨p, a, b, rfl, ha, -⟩
      have := hall a (by simp)
      rw [ha] at this
      cases this
  | ok q =>
      obtain ⟨mask', l'⟩ := q
      rw [epochs_of_configRead hconfig] at hes
      obtain ⟨hsuf, first, rest, hfirst, hcompute⟩ := configRead_ok hconfig
      cases hfetch : fetchRead l' with
      | error err =>
          have hne : l' ≠ [] := by
            rw [hfirst]
            exact List.cons_ne_nil _ _
          obtain ⟨rfl, hends⟩ := not_endsWell_of_fetchRead hsuf hne hfetch
          exact Or.inl ⟨by simp only [driveStep, hconfig, hfetch, bind, Except.bind], hends⟩
      | ok r =>
          obtain ⟨run, rest'⟩ := r
          obtain ⟨rfl, hrun, ins, tail, rfl, hins⟩ := fetchRead_ok hfetch
          have hne : run ≠ [] := by
            rintro rfl
            rw [List.nil_append] at hfirst
            cases hfirst
            rw [hins] at hcompute
            cases hcompute
          rw [epochs_run hrun hne hins] at hes
          cases hes' : epochs units mask' (ins :: tail) with
          | error err => rw [hes'] at hes; cases hes
          | ok es' =>
              rw [hes'] at hes
              cases hes
              have hlt := List.length_pos_iff.mpr hne
              have hle := hsuf.length_le
              rw [List.length_append] at hle
              refine Or.inr ⟨⟨mask', run⟩, es', ins, tail, rfl,
                (List.suffix_append run _).trans hsuf, by omega,
                hins, ?_, hes', ?_⟩
              · rintro rfl
                obtain ⟨q, a, rfl⟩ := (List.eq_nil_or_concat run).resolve_left hne
                rw [List.concat_eq_append] at hrun hsuf
                refine EndsWell.of_suffix hsuf ⟨q, a, ins, by rw [List.append_assoc]; rfl,
                  hrun a (by simp), hins⟩
              · simp only [driveStep, hconfig, hfetch, bind, Except.bind, Epoch.charges]
                cases charge mask' run with
                | error err => rfl
                | ok t => rfl

/-- **A program that ends well is driven through its epochs**: the driver charges all of them in
order, or fails in the first that fails. -/
theorem drives_of_endsWell [AddMonoid γ] (charge : List ℤ → List Instruction → Except PyError γ)
    {l : List Instruction} (hend : EndsWell l) {mask : List ℤ} {es : List Epoch}
    (hes : epochs units mask l = .ok es) :
    ∃ mask' last, Drives units charge mask l
      ((total (Epoch.charges charge) es).map fun t => (mask', t, [last])) := by
  have hlen := hend.two_le_length
  rcases driveStep_reading hes with ⟨-, hnot⟩ | ⟨e, es', ins, tail, rfl, hsuf, hlt, hins, -, hes', hstep⟩
  · exact absurd hend hnot
  rw [total]
  cases htally : e.charges charge with
  | error err =>
      rw [htally] at hstep
      exact ⟨mask, ins, Drives.fail (by omega) hstep⟩
  | ok t =>
      rw [htally] at hstep
      by_cases htail : tail = []
      · subst htail
        have hnil : es' = [] := by
          rw [epochs_config hins] at hes'
          cases hlast : configStep units e.mask ins with
          | error err => rw [hlast] at hes'; cases hes'
          | ok m =>
              rw [hlast] at hes'
              cases hes'
              rfl
        subst hnil
        exact ⟨e.mask, ins, Drives.next (by omega) hstep (Drives.stop le_rfl)⟩
      · have htwo : 2 ≤ (ins :: tail).length := by
          have := List.length_pos_iff.mpr htail
          rw [List.length_cons]
          omega
        obtain ⟨mask', last, hrun⟩ := drives_of_endsWell charge (hend.suffix hsuf htwo) hes'
        refine ⟨mask', last, ?_⟩
        have hgo := Drives.next (by omega) hstep hrun
        cases htotal : total (Epoch.charges charge) es' with
        | error err =>
            rw [htotal] at hgo
            exact hgo
        | ok t' =>
            rw [htotal] at hgo
            exact hgo
termination_by l.length

theorem tallies_of_endsWell {n : ℕ} (tab : CostTab) {l : List Instruction} (hend : EndsWell l) {mask : List ℤ}
    {es : List Epoch} (hes : epochs units mask l = .ok es) :
    ∃ mask' last, Drives units (epochTally n tab) mask l
      ((total (Epoch.tally n tab) es).map fun t => (mask', t, [last])) :=
  drives_of_endsWell (epochTally n tab) hend hes

/-- A program that ends badly is driven off the end of the instruction memory. -/
theorem drives_of_badEnd [AddMonoid γ] {l : List Instruction} (hend : BadEnd l) (hlen : 2 ≤ l.length)
    {mask : List ℤ} {es : List Epoch} (hes : epochs units mask l = .ok es)
    (hok : ∀ e ∈ es, ∃ t, e.charges charge = .ok t) :
    Drives units charge mask l (.error .indexError) := by
  rcases driveStep_reading hes with
    ⟨hstep, -⟩ | ⟨e, es', ins, tail, rfl, hsuf, hlt, hins, htail, hes', hstep⟩
  · exact Drives.fail (by omega) hstep
  · obtain ⟨t, ht⟩ := hok e List.mem_cons_self
    rw [ht] at hstep
    have htwo : 2 ≤ (ins :: tail).length := by
      have := List.length_pos_iff.mpr fun h => absurd hend (htail h).not_badEnd
      rw [List.length_cons]
      omega
    have hbad : BadEnd (ins :: tail) :=
      (endsWell_or_badEnd htwo).resolve_left fun h => absurd hend (EndsWell.of_suffix hsuf h).not_badEnd
    have hrun := drives_of_badEnd hbad htwo hes' fun e he => hok e (List.mem_cons_of_mem _ he)
    exact Drives.next (by omega) hstep hrun
termination_by l.length

/-- A run that succeeds has charged epochs, to which those of what it has not reached are added. -/
theorem Drives.exists_epochs [AddMonoid γ] {mask mask' : List ℤ} {l rest : List Instruction} {t : γ}
    (h : Drives units charge mask l (.ok (mask', t, rest))) :
    ∃ es, total (Epoch.charges charge) es = .ok t ∧
      ∀ es', epochs units mask' rest = .ok es' → epochs units mask l = .ok (es ++ es') := by
  generalize hr : Except.ok (mask', t, rest) = r at h
  induction h generalizing mask' t rest with
  | stop _ =>
      cases hr
      exact ⟨[], rfl, fun es' hes' => hes'⟩
  | fail _ _ => cases hr
  | @next mask mask₁ l rest₁ t₁ r _ hstep _ ih =>
      obtain ⟨run, hconfig, hne, hrun, hcharge, ins, tail, hhead, hins⟩ := driveStep_ok hstep
      cases r with
      | error e => cases hr
      | ok q =>
          obtain ⟨mask₂, t₂, rest₂⟩ := q
          cases hr
          obtain ⟨es, htotal, hes⟩ := ih rfl
          refine ⟨⟨mask₁, run⟩ :: es, total_cons_ok hcharge htotal, fun es' hes' => ?_⟩
          have hread := hes es' hes'
          subst hhead
          rw [epochs_of_configRead hconfig, epochs_run hrun hne hins, hread]
          rfl

/-- The mask a run ends with is that of the instructions it has reached. -/
theorem Drives.maskAfter [AddMonoid γ] {mask mask' : List ℤ} {l rest : List Instruction} {t : γ}
    (h : Drives units charge mask l (.ok (mask', t, rest))) :
    ∃ p, l = p ++ rest ∧ maskAfter units mask p = .ok mask' := by
  generalize hr : Except.ok (mask', t, rest) = r at h
  induction h generalizing mask' t rest with
  | stop _ =>
      cases hr
      exact ⟨[], rfl, rfl⟩
  | fail _ _ => cases hr
  | @next mask mask₁ l rest₁ t₁ r _ hstep _ ih =>
      obtain ⟨run, hconfig, -, hrun, -, -⟩ := driveStep_ok hstep
      obtain ⟨p, rfl, hp⟩ := configRead_maskAfter hconfig
      cases r with
      | error e => cases hr
      | ok q =>
          obtain ⟨mask₂, t₂, rest₂⟩ := q
          cases hr
          obtain ⟨p', rfl, hp'⟩ := ih rfl
          refine ⟨p ++ (run ++ p'), by rw [List.append_assoc, List.append_assoc], ?_⟩
          rw [maskAfter_append hp, maskAfter_append (maskAfter_all_compute hrun mask₁)]
          exact hp'

end RacerArtifacts.Sim
