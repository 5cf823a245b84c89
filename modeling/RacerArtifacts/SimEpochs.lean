import RacerArtifacts.SimMask
import RacerArtifacts.SimMonotone

/-! The iterations of a launch. What the driver loop has executed when it completes: for each iteration the
configuration instructions it read, the mask they left, and the compute instructions it ran under that mask.
An iteration of a completed launch has carried out each of them without an error, and that is all that is
known of the ids and the opcodes it has met. -/

namespace RacerArtifacts.Sim

open Charging Fallible

/-- One iteration of the driver loop. -/
structure Iteration where
  configs : List Instruction
  mask : List ℤ
  run : List Instruction

namespace Chip

variable {dimx dimy : ℕ}

/-- The iterations of the driver loop from a chip to a chip on which it stops. -/
inductive Executes : Chip dimx dimy → List Iteration → Chip dimx dimy → Prop where
  | stop {c : Chip dimx dimy} (hstop : ¬c.pc < c.instSize - 1) : Executes c [] c
  | next {c c₁ c₂ c₃ : Chip dimx dimy} {pc : ℕ} {run : List Instruction} {its : List Iteration}
      (hmore : c.pc < c.instSize - 1) (hconfig : c.configSetup = .ok c₁)
      (hfetch : fetchLoop (c₁.instructionMemory.drop c₁.pc) c₁.pc [] = .ok (pc, run))
      (hrun : ({ c₁ with pc := pc } : Chip dimx dimy).runEpoch run = .ok c₂) (hrest : Executes c₂ its c₃) :
      Executes c (⟨(c.instructionMemory.drop c.pc).take (c₁.pc - c.pc), c₁.mask, run⟩ :: its) c₃

variable {c c' c'' : Chip dimx dimy} {its its' : List Iteration}

theorem exists_executes {fuel : ℕ} (h : launchLoop fuel c = some (.ok c')) : ∃ its, Executes c its c' := by
  induction fuel generalizing c with
  | zero => cases h
  | succ fuel ih =>
      rw [launchLoop] at h
      by_cases hmore : c.pc < c.instSize - 1
      · rw [if_pos hmore] at h
        cases hstep : c.configSetup >>= executeEpoch with
        | error e =>
            rw [hstep] at h
            cases h
        | ok c₂ =>
            rw [hstep] at h
            obtain ⟨c₁, hconfig, hepoch⟩ := bind_ok hstep
            obtain ⟨⟨pc, run⟩, hfetch, hrun⟩ := bind_ok hepoch
            obtain ⟨its, hits⟩ := ih h
            exact ⟨_, Executes.next hmore hconfig hfetch hrun hits⟩
      · rw [if_neg hmore] at h
        cases h
        exact ⟨[], Executes.stop hmore⟩

/-- Iterations executed up to a stop are a launch that completes. -/
theorem Executes.launchLoop_eq (h : Executes c its c') {fuel : ℕ} (hfuel : its.length < fuel) :
    launchLoop fuel c = some (.ok c') := by
  induction h generalizing fuel with
  | stop hstop =>
      cases fuel with
      | zero => cases hfuel
      | succ fuel => rw [launchLoop, if_neg hstop]
  | @next c c₁ c₂ c₃ pc run its hmore hconfig hfetch hrun _ ih =>
      cases fuel with
      | zero => cases hfuel
      | succ fuel =>
          have hstep : (c.configSetup >>= executeEpoch) = .ok c₂ := by
            rw [hconfig]
            change c₁.executeEpoch = _
            rw [executeEpoch, hfetch]
            exact hrun
          rw [launchLoop, if_pos hmore, hstep]
          exact ih (Nat.lt_of_succ_lt_succ hfuel)

theorem Executes.unique (h : Executes c its c') (h' : Executes c its' c'') : its = its' ∧ c' = c'' := by
  induction h generalizing its' c'' with
  | stop hstop =>
      cases h' with
      | stop _ => exact ⟨rfl, rfl⟩
      | next hmore _ _ _ _ => exact absurd hmore hstop
  | next hmore hconfig hfetch hrun _ ih =>
      cases h' with
      | stop hstop => exact absurd hmore hstop
      | next _ hconfig' hfetch' hrun' hrest' =>
          rw [hconfig] at hconfig'
          cases hconfig'
          rw [hfetch] at hfetch'
          cases hfetch'
          rw [hrun] at hrun'
          cases hrun'
          obtain ⟨rfl, rfl⟩ := ih hrest'
          exact ⟨rfl, rfl⟩

end Chip

/-! ### What an iteration has carried out -/

/-- What is known of an iteration of a launch that completes, on `n` clusters. -/
structure Iteration.Done (n : ℕ) (tab : CostTab) (it : Iteration) : Prop where
  configs : ∃ mask, it.configs.foldlM (configStep (n * 64)) mask = .ok it.mask
  config : ∀ ins ∈ it.configs, ins.isConfig = true
  compute : ∀ ins ∈ it.run, ins.isConfig = false
  tally : ∃ t, epochTally n tab it.mask it.run = .ok t

/-- What `configSetup` has read. -/
theorem configLoop_ok {units : ℕ} {l : List Instruction} {pc pc' : ℕ} {mask mask' : List ℤ}
    (h : configLoop units l pc mask = .ok (pc', mask')) :
    ∃ configs rest, l = configs ++ rest ∧ pc' = pc + configs.length ∧ (∀ ins ∈ configs, ins.isConfig = true) ∧
      configs.foldlM (configStep units) mask = .ok mask' := by
  induction l generalizing pc mask with
  | nil => cases h
  | cons ins l ih =>
      rw [configLoop] at h
      by_cases hins : ins.isConfig = true
      · rw [if_pos hins] at h
        obtain ⟨mask₁, hstep, h⟩ := bind_ok h
        obtain ⟨configs, rest, rfl, rfl, hconfigs, hfold⟩ := ih h
        refine ⟨ins :: configs, rest, rfl, ?_, List.forall_mem_cons.mpr ⟨hins, hconfigs⟩, ?_⟩
        · rw [List.length_cons]
          omega
        · rw [List.foldlM_cons, hstep]
          exact hfold
      · rw [if_neg hins] at h
        cases h
        exact ⟨[], ins :: l, rfl, rfl, List.forall_mem_nil _, rfl⟩

theorem fetchLoop_ok {l run : List Instruction} {pc pc' : ℕ} (h : fetchLoop l pc [] = .ok (pc', run)) :
    pc' = pc + run.length ∧ (∀ ins ∈ run, ins.isConfig = false) ∧ ∃ ins tail, l = run ++ ins :: tail := by
  rw [Chip.fetchLoop_eq] at h
  obtain ⟨⟨run', rest⟩, hread, heq⟩ := map_ok h
  cases heq
  obtain ⟨rfl, hcompute, ins, tail, rfl, -⟩ := fetchRead_ok hread
  exact ⟨rfl, hcompute, ins, tail, rfl⟩

namespace Chip

variable {dimx dimy : ℕ} {c c₁ c' : Chip dimx dimy} {its : List Iteration}

/-- `configSetup` changes `pc` and the mask only. -/
theorem configSetup_ok (h : c.configSetup = .ok c₁) :
    ∃ configs rest, c.instructionMemory.drop c.pc = configs ++ rest ∧
      (∀ ins ∈ configs, ins.isConfig = true) ∧
      configs.foldlM (configStep (dimx * dimy * 64)) c.mask = .ok c₁.mask ∧
      c₁ = { c with pc := c.pc + configs.length, mask := c₁.mask } := by
  obtain ⟨⟨pc, mask⟩, hloop, h⟩ := bind_ok h
  cases h
  obtain ⟨configs, rest, hsplit, rfl, hconfigs, hfold⟩ := configLoop_ok hloop
  exact ⟨configs, rest, hsplit, hconfigs, hfold, rfl⟩

/-- Every iteration that has been executed has been carried out. -/
theorem Executes.done (h : Executes c its c') : ∀ it ∈ its, it.Done (dimx * dimy) c.costTab := by
  induction h with
  | stop _ => exact List.forall_mem_nil _
  | @next c c₁ c₂ c₃ pc run its _ hconfig hfetch hrun _ ih =>
      obtain ⟨configs, rest, hsplit, hconfigs, hfold, hc₁⟩ := configSetup_ok hconfig
      obtain ⟨-, hcompute, -⟩ := fetchLoop_ok hfetch
      rw [runEpoch_eq] at hrun
      obtain ⟨t, ht, rfl⟩ := map_ok hrun
      have htab : c₁.costTab = c.costTab := by rw [hc₁]
      have hpc : c₁.pc - c.pc = configs.length := by
        rw [hc₁]
        exact Nat.add_sub_cancel_left _ _
      have htake : (c.instructionMemory.drop c.pc).take (c₁.pc - c.pc) = configs := by
        rw [hpc, hsplit, List.take_left]
      refine List.forall_mem_cons.mpr ⟨⟨?_, ?_, hcompute, ?_⟩, ?_⟩
      · rw [htake]
        exact ⟨c.mask, hfold⟩
      · rw [htake]
        exact hconfigs
      · rw [← htab]
        exact ⟨t, ht⟩
      · rw [← htab]
        exact ih

end Chip

end RacerArtifacts.Sim
