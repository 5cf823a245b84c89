import Mathlib
import RacerArtifacts.SimExact

/-! The launch of a program in any arithmetic, as the execution of its epochs in order. Which exceptions
an epoch raises depends on its mask, its instructions and the table, never on what has been accumulated;
so a launch that succeeds is the driver's, and leaves the chip that executing the epochs one after the
other leaves. -/

namespace RacerArtifacts.Sim.Numeric

open Numbers Charging Fallible

variable {N : Type} [Numbers N] {n dimx dimy : ℕ} {tab : CostTab}

/-! ### Well-formed programs -/

/-- The first pass takes an operation to be pipelined. -/
def Pipelined (N : Type) [Numbers N] (row : OpCost) : Prop :=
  isZero (float row.warmupEnergy : N) = false ∨ isZero (float row.warmupLatency : N) = false

/-- A compute instruction other than a load or a store whose operands can be read. -/
structure ComputeOk (N : Type) [Numbers N] (tab : CostTab) (ins : Instruction) : Prop where
  notLoad : hasSub "LOAD" ins.opCode = false
  notStore : hasSub "STORE" ins.opCode = false
  transfer : ins.isTransfer = true → (∃ a, ins.float 1 = .ok a) ∧ ∃ b, ins.float 2 = .ok b
  operation : ins.isNamedTransfer = false →
    (∃ row, tab.op ins.opCode = .ok row) ∧ ∃ k, ins.intFromEnd 1 = .ok k
  fleet : ins.isTransfer = false → Pipelined N (tab.row ins.opCode) → ∃ k, ins.intFromEnd 2 = .ok k

/-- A well-formed program without loads and stores. -/
def WellFormed (N : Type) [Numbers N] (units : ℕ) (tab : CostTab) (prog : List Instruction) : Prop :=
  ReadsOk units (ComputeOk N tab) [] prog

theorem Exact.pipelined_iff {v : N → ℚ} (hv : Exact v) (row : OpCost) : Pipelined N row ↔ row.Pipelined :=
  or_congr (hv.isZero_float _) (hv.isZero_float _)

theorem Exact.computeOk {v : N → ℚ} (hv : Exact v) {ins : Instruction} (h : ComputeOk N tab ins) :
    Sim.ComputeOk tab ins where
  notLoad := h.notLoad
  notStore := h.notStore
  transfer := h.transfer
  operation := h.operation
  fleet htransfer hpipe := h.fleet htransfer ((hv.pipelined_iff _).mpr hpipe)

theorem Exact.wellFormed {v : N → ℚ} (hv : Exact v) {units : ℕ} {prog : List Instruction}
    (h : WellFormed N units tab prog) : Sim.WellFormed units tab prog :=
  ReadsOk.imp (fun _ hok => hv.computeOk hok) h

theorem firstPassStep_ok {ins : Instruction} (hok : ComputeOk N tab ins) (sequences active : ℕ)
    (acc : N × N) :
    ∃ acc', firstPassStep tab sequences active acc ins = .ok acc' := by
  unfold firstPassStep
  rw [if_neg (by simp [hok.notLoad])]
  by_cases hshift : hasSub "SHIFT" ins.opCode = true
  · obtain ⟨⟨a, ha⟩, b, hb⟩ := hok.transfer (by simp [Instruction.isTransfer, hshift])
    simp only [if_pos hshift, ha, hb]
    exact ⟨_, rfl⟩
  by_cases hprop : hasSub "PROP" ins.opCode = true
  · obtain ⟨⟨a, ha⟩, b, hb⟩ := hok.transfer (by simp [Instruction.isTransfer, hprop])
    simp only [if_neg hshift, if_pos hprop, ha, hb]
    exact ⟨_, rfl⟩
  have htransfer : ins.isTransfer = false := by simp [Instruction.isTransfer, hshift, hprop]
  have hnamed := Instruction.not_isNamedTransfer_of_not_isTransfer htransfer
  obtain ⟨⟨row, hrow⟩, k, hk⟩ := hok.operation hnamed
  have hfleet := hok.fleet htransfer
  rw [CostTab.op_eq_row hrow] at hfleet
  simp only [if_neg hshift, if_neg hprop, hrow, hk, bind, Except.bind]
  split_ifs with hpipe
  · obtain ⟨f, hf⟩ := hfleet hpipe
    rw [hf]
    exact ⟨_, rfl⟩
  · exact ⟨_, rfl⟩

theorem wordLog_ok {ins : Instruction} (hok : ComputeOk N tab ins) {id : ℤ}
    (hid : ∃ i, pyIndex n (clusterOf id) = .ok i) : ∃ log, wordLog N n tab id ins = .ok log := by
  unfold wordLog
  split_ifs with hname
  · exact ⟨0, rfl⟩
  · have hnamed : ins.isNamedTransfer = false := Instruction.not_isNamedTransfer_iff.mpr hname
    obtain ⟨⟨row, hrow⟩, k, hk⟩ := hok.operation hnamed
    obtain ⟨i, hi⟩ := hid
    simp only [hrow, bind, Except.bind]
    split_ifs
    · exact ⟨0, rfl⟩
    · simp only [opLog, hk, hok.notLoad, hok.notStore, Bool.not_false, Bool.and_self, if_true, hi, hrow, bind,
        Except.bind]
      exact ⟨_, rfl⟩

theorem exists_index {id : ℤ} (h : InRange (n * 64) id) : ∃ i, pyIndex n (clusterOf id) = .ok i := by
  obtain ⟨h0, hn⟩ := h
  push_cast at hn
  have hcluster : clusterOf id < n := by
    unfold clusterOf
    omega
  exact ⟨_, pyIndex_of_mem (Int.ediv_nonneg h0 (by norm_num : (0 : ℤ) ≤ 64)) hcluster⟩

theorem epochLog_ok {mask : List ℤ} {run : List Instruction} (hmask : ∀ id ∈ mask, InRange (n * 64) id)
    (hok : ∀ ins ∈ run, ComputeOk N tab ins) : ∃ log, epochLog N n tab mask run = .ok log := by
  have hfirst (sequences active : ℕ) (acc : N × N) :
      ∃ acc', run.foldlM (firstPassStep tab sequences active) acc = .ok acc' := by
    induction run generalizing acc with
    | nil => exact ⟨acc, rfl⟩
    | cons ins run ih =>
        obtain ⟨acc', hacc⟩ := firstPassStep_ok (hok ins List.mem_cons_self) sequences active acc
        rw [List.foldlM_cons, hacc]
        exact ih (fun i hi => hok i (List.mem_cons_of_mem ins hi)) acc'
  obtain ⟨acc, hacc⟩ := hfirst (executionSequences mask).length mask.length (int 0, int 0)
  have hwords : ∀ id ∈ mask, ∃ log, total (wordLog N n tab id) run = .ok log := fun id hid =>
    exists_total_ok fun ins hins => wordLog_ok (hok ins hins) (exists_index (hmask id hid))
  obtain ⟨words, hw⟩ := exists_total_ok hwords
  refine ⟨.of (.totals acc.1 acc.2) + words, ?_⟩
  unfold epochLog firstPass
  simp only [hacc, hw, bind, Except.bind]
  rfl

/-! ### Executing epochs -/

/-- What `executeEpoch` does with an epoch on a chip. -/
def execute (c : Chip N dimx dimy) (e : Epoch) : Except PyError (Chip N dimx dimy) :=
  { c with mask := e.mask }.runEpoch e.instructions

/-- The chip that has executed the epochs in order, with `m` threads and everything zero before. -/
def executed (N : Type) [Numbers N] (dimx dimy : ℕ) (tab : CostTab) (prog : List Instruction) (m : ℤ)
    (es : List Epoch) : Except PyError (Chip N dimx dimy) :=
  es.foldlM execute { (Chip.loaded tab prog : Chip N dimx dimy) with multithread := m }

theorem foldlM_execute (es : List Epoch) (c : Chip N dimx dimy) :
    ∃ mask, es.foldlM execute c =
      (total (Epoch.charges (epochLog N (dimx * dimy) c.costTab)) es).map fun log =>
      (c.enter log).moveTo c.pc mask := by
  induction es generalizing c with
  | nil => exact ⟨c.mask, rfl⟩
  | cons e es ih =>
      have hexecute : execute c e =
          (e.charges (epochLog N (dimx * dimy) c.costTab)).map fun log =>
          (c.enter log).moveTo c.pc e.mask := by
        rw [execute, Chip.runEpoch_eq, Epoch.charges]
        refine congrArg (fun f => Except.map f _) (funext fun log => ?_)
        exact Chip.enter_moveTo log c c.pc e.mask
      cases hlog : e.charges (epochLog N (dimx * dimy) c.costTab) with
      | error err =>
          refine ⟨c.mask, ?_⟩
          rw [List.foldlM_cons, hexecute, hlog, total_cons_error es hlog]
          rfl
      | ok log =>
          obtain ⟨mask, hrest⟩ := ih ((c.enter log).moveTo c.pc e.mask)
          obtain ⟨htab, -⟩ := Chip.enter_frame log c
          refine ⟨mask, ?_⟩
          rw [List.foldlM_cons, hexecute, hlog]
          refine hrest.trans ?_
          change (total (Epoch.charges (epochLog N (dimx * dimy) (c.enter log).costTab)) es).map _ = _
          rw [htab, total, hlog]
          cases total (Epoch.charges (epochLog N (dimx * dimy) c.costTab)) es with
          | error err => rfl
          | ok log' =>
              refine congrArg Except.ok ?_
              change (((c.enter log).moveTo c.pc e.mask).enter log').moveTo c.pc mask =
                (c.enter (log + log')).moveTo c.pc mask
              rw [Chip.enter_moveTo, Chip.acts_enter.add]
              rfl

theorem launch_loaded {prog : List Instruction}
    {r : Except PyError (List ℤ × Log N (dimx * dimy) × List Instruction)}
    (h : Drives (dimx * dimy * 64) (epochLog N (dimx * dimy) tab) [] prog r) (m : ℤ) :
    (Chip.loaded tab prog : Chip N dimx dimy).launch 0 m =
      some (r.map fun p =>
        ({ (Chip.loaded tab prog : Chip N dimx dimy) with multithread := m }.seek p.1 p.2.2).enter p.2.1) :=
  Chip.launch_eq rfl m h

/-- Two chips that have accumulated the same cost the same, wherever they stand. -/
theorem costs_moveTo (c : Chip N dimx dimy) (pc : ℕ) (mask : List ℤ) :
    (c.moveTo pc mask).costs = c.costs := rfl

/-- A run that charges the epochs leaves what executing them leaves. -/
theorem executed_of_total (prog : List Instruction) {es : List Epoch} {log : Log N (dimx * dimy)}
    (h : total (Epoch.charges (epochLog N (dimx * dimy) tab)) es = .ok log) (m : ℤ) (mask : List ℤ)
    (rest : List Instruction) :
    ∃ c, executed N dimx dimy tab prog m es = .ok c ∧
      ({ (Chip.loaded tab prog : Chip N dimx dimy) with multithread := m }.seek mask rest).enter log =
        c.moveTo (prog.length - rest.length) mask := by
  let start : Chip N dimx dimy := { (Chip.loaded tab prog : Chip N dimx dimy) with multithread := m }
  obtain ⟨last, hfold⟩ := foldlM_execute es start
  refine ⟨(start.enter log).moveTo start.pc last, ?_, ?_⟩
  · refine hfold.trans ?_
    change (total (Epoch.charges (epochLog N (dimx * dimy) tab)) es).map _ = _
    rw [h]
    rfl
  · rw [Chip.seek, Chip.enter_moveTo]
    rfl

/-- **A program that ends well is executed epoch by epoch**, if every epoch can be logged. -/
theorem launch_executes {prog : List Instruction} (hend : EndsWell prog) {es : List Epoch}
    (hes : epochs (dimx * dimy * 64) [] prog = .ok es) {log : Log N (dimx * dimy)}
    (hlog : total (Epoch.charges (epochLog N (dimx * dimy) tab)) es = .ok log) (m : ℤ) :
    ∃ c mask, executed N dimx dimy tab prog m es = .ok c ∧
      (Chip.loaded tab prog : Chip N dimx dimy).launch 0 m =
        some (.ok (c.moveTo (prog.length - 1) mask)) := by
  obtain ⟨mask, last, hrun⟩ := drives_of_endsWell (epochLog N (dimx * dimy) tab) hend hes
  obtain ⟨c, hexecuted, hc⟩ := executed_of_total prog hlog m mask [last]
  refine ⟨c, mask, hexecuted, ?_⟩
  rw [launch_loaded hrun, hlog]
  exact congrArg (fun c => some (Except.ok c)) hc

/-! ### A small program -/

variable (N)

theorem computeOk_and8 : ComputeOk N exampleTab and8 where
  notLoad := by decide
  notStore := by decide
  transfer h := absurd h (by decide)
  operation _ := ⟨⟨_, rfl⟩, 4, by decide⟩
  fleet _ _ := ⟨1, by decide⟩

theorem computeOk_add16 : ComputeOk N exampleTab add16 where
  notLoad := by decide
  notStore := by decide
  transfer h := absurd h (by decide)
  operation _ := ⟨⟨_, rfl⟩, 4, by decide⟩
  fleet _ _ := ⟨14, by decide⟩

theorem computeOk_shift : ComputeOk N exampleTab shift where
  notLoad := by decide
  notStore := by decide
  transfer _ := ⟨⟨1, by decide +kernel⟩, 2, by decide +kernel⟩
  operation h := absurd h (by decide)
  fleet h := absurd h (by decide)

theorem wellFormed_exampleProg (units : ℕ) : WellFormed N units exampleTab exampleProg := by
  apply ReadsOk.config (by decide) (configOk_of_name (by decide)) rfl
  refine ReadsOk.compute (by decide) (computeOk_add16 N) (ReadsOk.compute (by decide) (computeOk_shift N) ?_)
  exact ReadsOk.config (by decide) (configOk_of_name (by decide)) rfl trivial

/-- A file that is imported again and again. -/
def andEpoch : List Instruction := [⟨"SET", ["0"]⟩, and8, unsetall]

theorem endsWell_andEpoch : EndsWell andEpoch := ⟨[⟨"SET", ["0"]⟩], and8, unsetall, rfl, by decide, by decide⟩

theorem wellFormed_andEpoch : WellFormed N 64 exampleTab andEpoch := by
  have hset : ConfigOk 64 [] ⟨"SET", ["0"]⟩ :=
    ⟨fun _ => ⟨0, by decide, by decide⟩, fun h => absurd h (by decide), fun h => absurd h (by decide),
      fun h => absurd h (by decide)⟩
  have hstep : configStep 64 [] ⟨"SET", ["0"]⟩ = .ok [0] := by decide
  refine ReadsOk.config (by decide) hset hstep (ReadsOk.compute (by decide) (computeOk_and8 N) ?_)
  exact ReadsOk.config (by decide) (configOk_of_name (by decide)) rfl trivial

/-- The file imported `k` times. -/
def andEpochs (k : ℕ) : List Instruction := (List.replicate k andEpoch).flatten

theorem endsWell_andEpochs (k : ℕ) : EndsWell (andEpochs (k + 1)) := by
  rw [andEpochs, List.replicate_succ', List.flatten_append, List.flatten_singleton]
  exact endsWell_andEpoch.append

theorem wellFormed_andEpochs (k : ℕ) : WellFormed N 64 exampleTab (andEpochs k) := by
  induction k with
  | zero => trivial
  | succ k ih =>
      have hmask : maskAfter 64 [] andEpoch = .ok [] := by decide
      exact ReadsOk.join (wellFormed_andEpoch N) hmask ih

end RacerArtifacts.Sim.Numeric
