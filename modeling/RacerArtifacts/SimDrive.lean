import Mathlib
import RacerArtifacts.SimTally

/-! The driver without its program counter. `launch`, `configSetup` and `executeEpoch` share a `pc`
that only ever moves forward over an instruction memory that no loop changes; what they do from a `pc`
on is what they do on the list of instructions that is left. `Drives` is this reading of the driver
loop, for epochs that charge elements of any monoid, and the launch of a chip is a run of it that charges
the tallies of the epochs. -/

namespace RacerArtifacts.Sim

variable {γ : Type}

/-- `configSetup` on the instructions that are left. -/
def configRead (units : ℕ) : List Instruction → List ℤ → Except PyError (List ℤ × List Instruction)
  | [], _ => .error .indexError
  | ins :: rest, mask =>
    if ins.isConfig then do
      let mask ← configStep units mask ins
      configRead units rest mask
    else .ok (mask, ins :: rest)

/-- The fetch of `executeEpoch` on the instructions that are left. -/
def fetchRead (l : List Instruction) : Except PyError (List Instruction × List Instruction) :=
  if l.dropWhile (!·.isConfig) = [] then .error .indexError
  else .ok (l.takeWhile (!·.isConfig), l.dropWhile (!·.isConfig))

/-- One iteration of the driver loop: the mask of its epoch, what the epoch charges, what is left. -/
def driveStep (units : ℕ) (charge : List ℤ → List Instruction → Except PyError γ) (mask : List ℤ)
    (l : List Instruction) : Except PyError (List ℤ × γ × List Instruction) := do
  let (mask, rest) ← configRead units l mask
  let (computeInstructions, rest) ← fetchRead rest
  let t ← charge mask computeInstructions
  return (mask, t, rest)

/-- The outcome of an iteration that charged `t`, followed by the rest of the run. -/
def after [AddMonoid γ] (t : γ) (r : Except PyError (List ℤ × γ × List Instruction)) :
    Except PyError (List ℤ × γ × List Instruction) :=
  r.map fun (mask, t', rest) => (mask, t + t', rest)

/-- A run of the driver loop from a mask over the instructions that are left, with its outcome: the
last mask, everything charged, and the instructions not reached. -/
inductive Drives [AddMonoid γ] (units : ℕ) (charge : List ℤ → List Instruction → Except PyError γ) :
    List ℤ → List Instruction → Except PyError (List ℤ × γ × List Instruction) → Prop where
  | stop {mask : List ℤ} {l : List Instruction} (hl : l.length ≤ 1) :
      Drives units charge mask l (.ok (mask, 0, l))
  | fail {mask : List ℤ} {l : List Instruction} {e : PyError} (hl : 1 < l.length)
      (hstep : driveStep units charge mask l = .error e) : Drives units charge mask l (.error e)
  | next {mask mask' : List ℤ} {l rest : List Instruction} {t : γ}
      {r : Except PyError (List ℤ × γ × List Instruction)} (hl : 1 < l.length)
      (hstep : driveStep units charge mask l = .ok (mask', t, rest))
      (hrest : Drives units charge mask' rest r) :
      Drives units charge mask l (after t r)

variable {units : ℕ} {charge : List ℤ → List Instruction → Except PyError γ}

/-! ### One iteration -/

theorem configRead_config {ins : Instruction} (hins : ins.isConfig = true) (units : ℕ)
    (rest : List Instruction) (mask : List ℤ) :
    configRead units (ins :: rest) mask = configStep units mask ins >>= configRead units rest := by
  rw [configRead, if_pos hins]

theorem configRead_compute {ins : Instruction} (hins : ins.isConfig = false) (units : ℕ)
    (rest : List Instruction) (mask : List ℤ) :
    configRead units (ins :: rest) mask = .ok (mask, ins :: rest) := by
  rw [configRead, if_neg (by simp [hins])]

/-- Backwards along `configSetup`: what holds where it stops, and is kept by a configuration instruction in
front, holds where it starts. -/
theorem configRead_rec {units : ℕ} {P : List Instruction → List ℤ → Prop} {l rest : List Instruction}
    {mask mask' : List ℤ} (h : configRead units l mask = .ok (mask', rest))
    (stop : ∀ ins tail, rest = ins :: tail → ins.isConfig = false → P rest mask')
    (step : ∀ ins l mask mask₁, ins.isConfig = true → configStep units mask ins = .ok mask₁ → P l mask₁ →
      P (ins :: l) mask) : P l mask := by
  induction l generalizing mask with
  | nil => cases h
  | cons ins l ih =>
      cases hins : ins.isConfig with
      | false =>
          rw [configRead_compute hins] at h
          cases h
          exact stop ins l rfl hins
      | true =>
          rw [configRead_config hins] at h
          cases hstep : configStep units mask ins with
          | error e => rw [hstep] at h; cases h
          | ok mask₁ =>
              rw [hstep] at h
              exact step ins l mask mask₁ hins hstep (ih h)

/-- What `configSetup` leaves is a suffix that starts with a compute instruction. -/
theorem configRead_ok {units : ℕ} {l rest : List Instruction} {mask mask' : List ℤ}
    (h : configRead units l mask = .ok (mask', rest)) :
    rest <:+ l ∧ ∃ ins tail, rest = ins :: tail ∧ ins.isConfig = false := by
  refine configRead_rec
    (P := fun l _ => rest <:+ l ∧ ∃ ins tail, rest = ins :: tail ∧ ins.isConfig = false) h ?_ ?_
  · intro ins tail hrest hins
    exact ⟨List.suffix_rfl, ins, tail, hrest, hins⟩
  · rintro ins l _ _ - - ⟨hsuf, hhead⟩
    exact ⟨hsuf.trans (List.suffix_cons ins l), hhead⟩

/-- More instructions behind do not change what `configSetup` reads. -/
theorem configRead_append {units : ℕ} {l rest : List Instruction} {mask mask' : List ℤ}
    (h : configRead units l mask = .ok (mask', rest)) (x : List Instruction) :
    configRead units (l ++ x) mask = .ok (mask', rest ++ x) := by
  refine configRead_rec (P := fun l mask => configRead units (l ++ x) mask = .ok (mask', rest ++ x)) h ?_ ?_
  · rintro ins tail rfl hins
    rw [List.cons_append, configRead_compute hins]
  · intro ins l mask mask₁ hins hstep ih
    rw [List.cons_append, configRead_config hins, hstep]
    exact ih

theorem fetchRead_ok {l run rest : List Instruction} (h : fetchRead l = .ok (run, rest)) :
    l = run ++ rest ∧ (∀ ins ∈ run, ins.isConfig = false) ∧
      ∃ ins tail, rest = ins :: tail ∧ ins.isConfig = true := by
  unfold fetchRead at h
  split at h
  · cases h
  · rename_i hne
    cases h
    refine ⟨List.takeWhile_append_dropWhile.symm, fun ins hins => ?_, ?_⟩
    · have := List.mem_takeWhile_imp hins
      simpa using this
    · cases hd : l.dropWhile (!·.isConfig) with
      | nil => exact absurd hd hne
      | cons ins tail =>
          have hhead := List.head_dropWhile_not (fun i : Instruction => !i.isConfig) hne
          simp only [hd, List.head_cons] at hhead
          exact ⟨ins, tail, rfl, by simpa using hhead⟩

/-- A run of compute instructions in front of a configuration instruction is fetched whole. -/
theorem fetchRead_run {run : List Instruction} (hrun : ∀ ins ∈ run, ins.isConfig = false)
    {ins : Instruction} (hins : ins.isConfig = true) (tail : List Instruction) :
    fetchRead (run ++ ins :: tail) = .ok (run, ins :: tail) := by
  have hall : ∀ i ∈ run, (!i.isConfig) = true := fun i hi => by simp [hrun i hi]
  have hdrop : (run ++ ins :: tail).dropWhile (!·.isConfig) = ins :: tail := by
    rw [List.dropWhile_append_of_pos hall, List.dropWhile_cons_of_neg (by simp [hins])]
  have htake : (run ++ ins :: tail).takeWhile (!·.isConfig) = run := by
    rw [List.takeWhile_append_of_pos hall, List.takeWhile_cons_of_neg (by simp [hins]), List.append_nil]
  rw [fetchRead, hdrop, htake, if_neg (List.cons_ne_nil _ _)]

/-- What an iteration did: it read configuration instructions, then a non-empty run of compute
instructions, and stopped in front of a configuration instruction. -/
theorem driveStep_ok {mask mask' : List ℤ} {l rest : List Instruction} {t : γ}
    (h : driveStep units charge mask l = .ok (mask', t, rest)) :
    ∃ run, configRead units l mask = .ok (mask', run ++ rest) ∧ run ≠ [] ∧
      (∀ ins ∈ run, ins.isConfig = false) ∧ charge mask' run = .ok t ∧
      ∃ ins tail, rest = ins :: tail ∧ ins.isConfig = true := by
  unfold driveStep at h
  cases hconfig : configRead units l mask with
  | error e => rw [hconfig] at h; cases h
  | ok p =>
      obtain ⟨mask₁, rest₁⟩ := p
      rw [hconfig] at h
      cases hfetch : fetchRead rest₁ with
      | error e => simp only [Except.bind, bind, hfetch] at h; cases h
      | ok q =>
          obtain ⟨run, rest₂⟩ := q
          cases htally : charge mask₁ run with
          | error e => simp only [Except.bind, bind, hfetch, htally] at h; cases h
          | ok t₁ =>
              simp only [Except.bind, bind, hfetch, htally] at h
              cases h
              obtain ⟨rfl, hrun, hhead⟩ := fetchRead_ok hfetch
              refine ⟨run, rfl, ?_, hrun, htally, hhead⟩
              rintro rfl
              obtain ⟨ins, tail, hrest, hins⟩ := hhead
              obtain ⟨-, ins', tail', hrest', hins'⟩ := configRead_ok hconfig
              rw [List.nil_append, hrest] at hrest'
              cases hrest'
              rw [hins] at hins'
              cases hins'

theorem driveStep_of_read {mask mask' : List ℤ} {l run rest : List Instruction} {t : γ}
    (hconfig : configRead units l mask = .ok (mask', run ++ rest))
    (hrun : ∀ ins ∈ run, ins.isConfig = false) {ins : Instruction} {tail : List Instruction}
    (hrest : rest = ins :: tail) (hins : ins.isConfig = true) (htally : charge mask' run = .ok t) :
    driveStep units charge mask l = .ok (mask', t, rest) := by
  subst hrest
  simp only [driveStep, hconfig, bind, Except.bind, fetchRead_run hrun hins, htally]
  rfl

theorem driveStep_suffix {mask mask' : List ℤ} {l rest : List Instruction} {t : γ}
    (h : driveStep units charge mask l = .ok (mask', t, rest)) : rest <:+ l ∧ rest.length < l.length := by
  obtain ⟨run, hconfig, hne, -, -, -⟩ := driveStep_ok h
  have hsuf := (configRead_ok hconfig).1
  have hpos := List.length_pos_iff.mpr hne
  have hle := hsuf.length_le
  rw [List.length_append] at hle
  exact ⟨(List.suffix_append run rest).trans hsuf, by omega⟩

theorem driveStep_append {mask mask' : List ℤ} {l rest : List Instruction} {t : γ}
    (h : driveStep units charge mask l = .ok (mask', t, rest)) (x : List Instruction) :
    driveStep units charge mask (l ++ x) = .ok (mask', t, rest ++ x) := by
  obtain ⟨run, hconfig, -, hrun, htally, ins, tail, hrest, hins⟩ := driveStep_ok h
  have hconfig' := configRead_append hconfig x
  rw [List.append_assoc] at hconfig'
  have hrest' : rest ++ x = ins :: (tail ++ x) := by rw [hrest, List.cons_append]
  exact driveStep_of_read hconfig' hrun hrest' hins htally

/-! ### Runs -/

namespace Drives

variable [AddMonoid γ]

/-- **The driver loop terminates**: every list of instructions is read to an outcome. -/
theorem exists_outcome (units : ℕ) (charge : List ℤ → List Instruction → Except PyError γ) (mask : List ℤ)
    (l : List Instruction) :
    ∃ r, Drives units charge mask l r := by
  by_cases hl : l.length ≤ 1
  · exact ⟨_, stop hl⟩
  · rw [not_le] at hl
    cases hstep : driveStep units charge mask l with
    | error e => exact ⟨_, fail hl hstep⟩
    | ok p =>
        obtain ⟨mask', t, rest⟩ := p
        have hlt := (driveStep_suffix hstep).2
        obtain ⟨r, hr⟩ := exists_outcome units charge mask' rest
        exact ⟨_, next hl hstep hr⟩
termination_by l.length

theorem unique {mask : List ℤ} {l : List Instruction} {r r' : Except PyError (List ℤ × γ × List Instruction)}
    (h : Drives units charge mask l r) (h' : Drives units charge mask l r') : r = r' := by
  induction h generalizing r' with
  | stop hl =>
      cases h' with
      | stop _ => rfl
      | fail hl' _ => omega
      | next hl' _ _ => omega
  | fail hl hstep =>
      cases h' with
      | stop hl' => omega
      | fail _ hstep' =>
          rw [hstep] at hstep'
          cases hstep'
          rfl
      | next _ hstep' _ =>
          rw [hstep] at hstep'
          cases hstep'
  | next hl hstep _ ih =>
      cases h' with
      | stop hl' => omega
      | fail _ hstep' =>
          rw [hstep] at hstep'
          cases hstep'
      | next _ hstep' hrest' =>
          rw [hstep] at hstep'
          cases hstep'
          rw [ih hrest']

theorem eq_of_short {mask : List ℤ} {l : List Instruction}
    {r : Except PyError (List ℤ × γ × List Instruction)} (h : Drives units charge mask l r)
    (hl : l.length ≤ 1) : r = .ok (mask, 0, l) := by
  cases h with
  | stop _ => rfl
  | fail hl' _ => omega
  | next hl' _ _ => omega

/-- A run over at least two instructions that succeeds stops in front of a last one. -/
theorem ok_rest {mask mask' : List ℤ} {l rest : List Instruction} {t : γ}
    (h : Drives units charge mask l (.ok (mask', t, rest))) (hl : 1 < l.length) :
    ∃ p ins, l = p ++ [ins] ∧ rest = [ins] ∧ ins.isConfig = true := by
  generalize hr : Except.ok (mask', t, rest) = r at h
  induction h generalizing mask' t rest with
  | stop hl' => omega
  | fail _ _ => cases hr
  | @next mask mask₁ l rest₁ t₁ r hl' hstep hrest ih =>
      obtain ⟨run, -, -, -, -, ins, tail, hhead, hins⟩ := driveStep_ok hstep
      obtain ⟨p, hp⟩ := (driveStep_suffix hstep).1
      cases r with
      | error e => cases hr
      | ok q =>
          obtain ⟨mask₂, t₂, rest₂⟩ := q
          cases hr
          by_cases hlen : 1 < rest₁.length
          · obtain ⟨p', ins', hl'', hrest', hins'⟩ := ih hlen rfl
            exact ⟨p ++ p', ins', by rw [← hp, hl'', List.append_assoc], hrest', hins'⟩
          · cases hrest.eq_of_short (by omega)
            have htail : tail = [] := by
              rw [hhead, List.length_cons] at hlen
              exact List.eq_nil_of_length_eq_zero (by omega)
            subst htail
            exact ⟨p, ins, by rw [← hp, hhead], hhead, hins⟩

/-- A successful run goes on over whatever follows its last instruction. -/
theorem append {mask mask' : List ℤ} {l : List Instruction} {ins : Instruction} {t : γ}
    (h : Drives units charge mask l (.ok (mask', t, [ins]))) (hl : 1 < l.length) {x : List Instruction}
    {r : Except PyError (List ℤ × γ × List Instruction)} (hx : Drives units charge mask' (ins :: x) r) :
    Drives units charge mask (l ++ x) (after t r) := by
  generalize hr : Except.ok (mask', t, [ins]) = r' at h
  induction h generalizing mask' t with
  | stop hl' => omega
  | fail _ _ => cases hr
  | @next mask mask₁ l rest₁ t₁ r₁ hl' hstep hrest ih =>
      have hlx : 1 < (l ++ x).length := by
        rw [List.length_append]
        omega
      cases r₁ with
      | error e => cases hr
      | ok q =>
          obtain ⟨mask₂, t₂, rest₂⟩ := q
          cases hr
          by_cases hlen : 1 < rest₁.length
          · have hgo := next hlx (driveStep_append hstep x) (ih hlen hx rfl)
            have hassoc : after t₁ (after t₂ r) = after (t₁ + t₂) r := by
              cases r with
              | error e => rfl
              | ok q => simp only [after, Except.map, add_assoc]
            rwa [hassoc] at hgo
          · cases hrest.eq_of_short (by omega)
            have hgo := next hlx (driveStep_append hstep x) hx
            rwa [add_zero]

end Drives

/-! ### The chip -/

namespace Chip

variable {dimx dimy : ℕ}

/-- The loop of `configSetup` counts the instructions it has read. -/
theorem configLoop_eq (units : ℕ) (l : List Instruction) (pc : ℕ) (mask : List ℤ) :
    configLoop units l pc mask =
      (configRead units l mask).map fun p => (pc + (l.length - p.2.length), p.1) := by
  induction l generalizing pc mask with
  | nil => rfl
  | cons ins l ih =>
      cases hins : ins.isConfig with
      | false =>
          rw [configRead_compute hins, configLoop, if_neg (by simp [hins])]
          simp [Except.map]
      | true =>
          rw [configRead_config hins, configLoop, if_pos hins]
          cases configStep units mask ins with
          | error e => rfl
          | ok mask₁ =>
              change configLoop units l (pc + 1) mask₁ = (configRead units l mask₁).map _
              rw [ih]
              cases hread : configRead units l mask₁ with
              | error e => rfl
              | ok p =>
                  have hle := (configRead_ok hread).1.length_le
                  simp only [Except.map, List.length_cons, Except.ok.injEq, Prod.mk.injEq, and_true]
                  omega

theorem fetchLoop_eq (l : List Instruction) (pc : ℕ) (acc : List Instruction) :
    fetchLoop l pc acc = (fetchRead l).map fun p => (pc + p.1.length, acc ++ p.1) := by
  induction l generalizing pc acc with
  | nil => rfl
  | cons ins l ih =>
      cases hins : ins.isConfig with
      | true =>
          have hread := fetchRead_run (List.forall_mem_nil _) hins l
          rw [List.nil_append] at hread
          rw [hread, fetchLoop, if_pos hins]
          simp [Except.map]
      | false =>
          rw [fetchLoop, if_neg (by simp [hins]), ih]
          simp only [fetchRead, List.dropWhile_cons, List.takeWhile_cons, hins, Bool.not_false, if_true]
          split
          · rfl
          · simp only [Except.map, List.length_cons, List.append_assoc, List.singleton_append,
              Except.ok.injEq,
              Prod.mk.injEq, and_true]
            omega

/-- Where `pc` stands when `rest` is left. -/
def seek (c : Chip dimx dimy) (mask : List ℤ) (rest : List Instruction) : Chip dimx dimy :=
  { c with mask := mask, pc := c.instructionMemory.length - rest.length }

/-- The two loops from a `pc` on, in front of whatever an epoch does, on the instructions that are left. -/
theorem configLoop_fetchLoop {σ : Type} (units : ℕ) (memory : List Instruction) (pc : ℕ) (mask : List ℤ)
    (k : List ℤ → List Instruction → ℕ → Except PyError σ) :
    (do
      let (pc, mask) ← configLoop units (memory.drop pc) pc mask
      let (pc, computeInstructions) ← fetchLoop (memory.drop pc) pc []
      k mask computeInstructions pc) =
    (do
      let (mask, rest) ← configRead units (memory.drop pc) mask
      let (computeInstructions, rest) ← fetchRead rest
      k mask computeInstructions (memory.length - rest.length)) := by
  rw [configLoop_eq]
  cases hconfig : configRead units (memory.drop pc) mask with
  | error e => rfl
  | ok p =>
      obtain ⟨mask', rest₁⟩ := p
      obtain ⟨hsuf, ins, tail, hhead, -⟩ := configRead_ok hconfig
      have hmem : rest₁ <:+ memory := hsuf.trans (List.drop_suffix _ _)
      have hlen₁ := hsuf.length_le
      have hpos : 0 < rest₁.length := by rw [hhead]; exact Nat.succ_pos _
      rw [List.length_drop] at hlen₁
      have hpc : pc + ((memory.drop pc).length - rest₁.length) = memory.length - rest₁.length := by
        rw [List.length_drop]
        omega
      simp only [Except.map, bind, Except.bind, hpc, ← List.suffix_iff_eq_drop.mp hmem, fetchLoop_eq]
      cases hfetch : fetchRead rest₁ with
      | error e => rfl
      | ok q =>
          obtain ⟨run, rest₂⟩ := q
          obtain ⟨hsplit, -, -⟩ := fetchRead_ok hfetch
          have hlen₂ : rest₁.length = run.length + rest₂.length := by rw [hsplit, List.length_append]
          have hpc₂ : memory.length - rest₁.length + run.length = memory.length - rest₂.length := by
            have := hmem.length_le
            omega
          simp only [List.nil_append, hpc₂]

/-- An iteration of the driver loop is an iteration on the instructions that are left. -/
theorem iteration_eq (c : Chip dimx dimy) :
    (c.configSetup >>= executeEpoch) =
      (driveStep (dimx * dimy * 64) (epochTally (dimx * dimy) c.costTab) c.mask
        (c.instructionMemory.drop c.pc)).map
        fun p => p.2.1 +ᵥ c.seek p.1 p.2.2 := by
  have hloops := configLoop_fetchLoop (dimx * dimy * 64) c.instructionMemory c.pc c.mask
    fun mask computeInstructions pc => { c with mask := mask, pc := pc }.runEpoch computeInstructions
  have hiteration : (c.configSetup >>= executeEpoch) = (do
      let (pc, mask) ← configLoop (dimx * dimy * 64) (c.instructionMemory.drop c.pc) c.pc c.mask
      let (pc, computeInstructions) ← fetchLoop (c.instructionMemory.drop pc) pc []
      { c with mask := mask, pc := pc }.runEpoch computeInstructions) := by
    rw [configSetup]
    cases configLoop (dimx * dimy * 64) (c.instructionMemory.drop c.pc) c.pc c.mask with
    | error e => rfl
    | ok p => rfl
  rw [hiteration, hloops, driveStep]
  cases configRead (dimx * dimy * 64) (c.instructionMemory.drop c.pc) c.mask with
  | error e => rfl
  | ok p =>
      simp only [bind, Except.bind]
      cases fetchRead p.2 with
      | error e => rfl
      | ok q =>
          simp only [runEpoch_eq]
          cases epochTally (dimx * dimy) c.costTab p.1 q.1 with
          | error e => rfl
          | ok t => rfl

/-- **The driver loop runs `Drives`** from `pc` on, with fuel for the instructions that are left. -/
theorem launchLoop_eq {c : Chip dimx dimy} (hsize : c.instSize = c.instructionMemory.length)
    (hpc : c.pc ≤ c.instructionMemory.length)
    {r : Except PyError (List ℤ × Tally (dimx * dimy) × List Instruction)}
    (h : Drives (dimx * dimy * 64) (epochTally (dimx * dimy) c.costTab) c.mask
      (c.instructionMemory.drop c.pc) r) {fuel : ℕ}
    (hfuel : (c.instructionMemory.drop c.pc).length < fuel) :
    launchLoop fuel c = some (r.map fun p => p.2.1 +ᵥ c.seek p.1 p.2.2) := by
  induction fuel generalizing c r with
  | zero => omega
  | succ fuel ih =>
      have hlen : (c.instructionMemory.drop c.pc).length = c.instructionMemory.length - c.pc :=
        List.length_drop
      rw [launchLoop]
      cases h with
      | stop hl =>
          rw [if_neg (by omega)]
          refine congrArg some (congrArg Except.ok ?_)
          simp only [seek, hlen, Nat.sub_sub_self hpc, zero_vadd]
      | fail hl hstep =>
          rw [if_pos (by omega), iteration_eq, hstep]
          rfl
      | @next _ mask' _ rest t r' hl hstep hrest =>
          rw [if_pos (by omega), iteration_eq, hstep]
          obtain ⟨hsuf, hlt⟩ := driveStep_suffix hstep
          have hmem : rest <:+ c.instructionMemory := hsuf.trans (List.drop_suffix _ _)
          have hdrop : (t +ᵥ c.seek mask' rest).instructionMemory.drop (t +ᵥ c.seek mask' rest).pc = rest :=
            (List.suffix_iff_eq_drop.mp hmem).symm
          have hgo := ih (c := t +ᵥ c.seek mask' rest) hsize (Nat.sub_le _ _)
            (r := r') (by rw [hdrop]; exact hrest) (by rw [hdrop]; omega)
          simp only [Except.map]
          rw [hgo]
          cases r' with
          | error e => rfl
          | ok q =>
              obtain ⟨mask'', t', rest'⟩ := q
              refine congrArg some (congrArg Except.ok ?_)
              change t' +ᵥ (t +ᵥ c.seek mask'' rest') = (t + t') +ᵥ c.seek mask'' rest'
              rw [vadd_vadd, add_comm]

/-- The outcome of a launch from `pc` 0. -/
theorem launch_eq {c : Chip dimx dimy} (hsize : c.instSize = c.instructionMemory.length) (multithread : ℤ)
    {r : Except PyError (List ℤ × Tally (dimx * dimy) × List Instruction)}
    (h : Drives (dimx * dimy * 64) (epochTally (dimx * dimy) c.costTab) c.mask c.instructionMemory r) :
    c.launch 0 multithread =
      some (r.map fun p => p.2.1 +ᵥ { c with multithread := multithread }.seek p.1 p.2.2) := by
  have hfuel : (c.instructionMemory.drop 0).length < c.instSize + 1 := by
    rw [hsize, List.drop_zero]
    omega
  exact launchLoop_eq (c := { c with pc := 0, multithread := multithread }) hsize (Nat.zero_le _) h hfuel

end Chip

end RacerArtifacts.Sim
