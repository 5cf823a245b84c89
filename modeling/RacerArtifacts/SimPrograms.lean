import Mathlib
import RacerArtifacts.SimCharges
import RacerArtifacts.SimReading

/-! Well-formed programs and what launching them costs. Every configuration instruction of a well-formed
program can be carried out where it stands, so the program has epochs; its compute instructions can be
read, so every epoch has a tally. A launch on a fresh chip is the sum of these tallies. -/

namespace RacerArtifacts.Sim

open Charging

/-! ### Well-formed programs -/

/-- A configuration instruction that can be carried out under a mask: its operands can be read, the ids
it sets are in range, and the ids it unsets are active. -/
def ConfigOk (units : ℕ) (mask : List ℤ) (ins : Instruction) : Prop :=
  (ins.opCode = "SET" → ∃ id, ins.int 1 = .ok id ∧ InRange units id) ∧
  (ins.opCode = "UNSET" → ∃ id, ins.int 1 = .ok id ∧ id ∈ mask) ∧
  (ins.opCode = "SETBULK" → ∃ start num step ids, ins.int 1 = .ok start ∧ ins.int 2 = .ok num ∧
    ins.int 3 = .ok step ∧ pyRange start (start + num * step) step = .ok ids ∧ ∀ id ∈ ids, InRange units id) ∧
  (ins.opCode = "UNSETBULK" → ∃ start stop step ids, ins.int 1 = .ok start ∧ ins.int 2 = .ok stop ∧
    ins.int 3 = .ok step ∧ pyRange start stop step = .ok ids ∧ ids.Subperm mask)

/-- Read from a mask on, every configuration instruction can be carried out and every other instruction
is as `ok` wants it. -/
def ReadsOk (units : ℕ) (ok : Instruction → Prop) : List ℤ → List Instruction → Prop
  | _, [] => True
  | mask, ins :: rest =>
    if ins.isConfig then
      ConfigOk units mask ins ∧ ∀ mask', configStep units mask ins = .ok mask' → ReadsOk units ok mask' rest
    else ok ins ∧ ReadsOk units ok mask rest

/-- A well-formed program without loads and stores. -/
def WellFormed (units : ℕ) (tab : CostTab) (prog : List Instruction) : Prop :=
  ReadsOk units (ComputeOk tab) [] prog

theorem foldlM_pyRemove {mask ids : List ℤ} (h : ids.Subperm mask) :
    ids.foldlM pyRemove mask = .ok (mask.diff ids) := by
  induction ids generalizing mask with
  | nil => rfl
  | cons id ids ih =>
      have hmem : id ∈ mask := h.subset List.mem_cons_self
      have hrest : ids.Subperm (mask.erase id) := by
        have := h.erase id
        rwa [List.erase_cons_head] at this
      have hstep : pyRemove mask id = .ok (mask.erase id) := if_pos hmem
      rw [List.foldlM_cons, hstep, List.diff_cons]
      exact ih hrest

/-- What a configuration instruction makes of a mask: the same of every larger one, more of a larger one,
and valid ids of valid ids. -/
theorem ConfigOk.effect {units : ℕ} {mask : List ℤ} {ins : Instruction} (h : ConfigOk units mask ins) :
    ∃ f : List ℤ → List ℤ, (∀ mask', mask.Subperm mask' → configStep units mask' ins = .ok (f mask')) ∧
      (∀ m m', m.Subperm m' → (f m).Subperm (f m')) ∧
      ∀ m, (∀ id ∈ m, InRange units id) → ∀ id ∈ f m, InRange units id := by
  obtain ⟨hset, hunset, hsetbulk, hunsetbulk⟩ := h
  have happend (ids : List ℤ) (hids : ∀ id ∈ ids, InRange units id) :
      (∀ m m' : List ℤ, m.Subperm m' → (m ++ ids).Subperm (m' ++ ids)) ∧
        ∀ m : List ℤ, (∀ id ∈ m, InRange units id) → ∀ id ∈ m ++ ids, InRange units id :=
    ⟨fun _ _ hm => hm.append (List.Subperm.refl ids),
      fun _ hm id hid => (List.mem_append.mp hid).elim (hm id) (hids id)⟩
  unfold configStep
  split_ifs with hsetall hunsetall h h h h
  · refine ⟨_, fun _ _ => rfl, fun _ _ _ => List.Subperm.refl _, fun _ _ id hid => ?_⟩
    obtain ⟨i, hi, rfl⟩ := List.mem_map.mp hid
    have := List.mem_range.mp hi
    exact ⟨by omega, by omega⟩
  · exact ⟨_, fun _ _ => rfl, fun _ _ _ => List.Subperm.refl _, fun _ _ id hid => by cases hid⟩
  · obtain ⟨id, hid, hrange⟩ := hset h
    refine ⟨(· ++ [id]), fun mask' _ => by rw [hid]; rfl, happend [id] ?_⟩
    exact List.forall_mem_singleton.mpr hrange
  · obtain ⟨id, hid, hmem⟩ := hunset h
    refine ⟨(·.erase id), fun mask' hsub => ?_, fun _ _ hm => hm.erase id,
      fun _ hm i hi => hm i (List.mem_of_mem_erase hi)⟩
    rw [hid]
    exact if_pos (hsub.subset hmem)
  · obtain ⟨start, num, step, ids, hstart, hnum, hstep, hids, hrange⟩ := hsetbulk h
    refine ⟨(· ++ ids), fun mask' _ => ?_, happend ids hrange⟩
    simp only [hstart, hnum, hstep, hids, bind, Except.bind]
    rfl
  · obtain ⟨start, stop, step, ids, hstart, hstop, hstep, hids, hsub⟩ := hunsetbulk h
    refine ⟨(·.diff ids), fun mask' hmask' => ?_, fun _ _ hm => hm.diff_right ids,
      fun m hm i hi => hm i (List.diff_subset m ids hi)⟩
    simp only [hstart, hstop, hstep, hids, bind, Except.bind]
    exact foldlM_pyRemove (hsub.trans hmask')
  · exact ⟨_, fun _ _ => rfl, fun _ _ hm => hm, fun _ hm => hm⟩

theorem ConfigOk.step {units : ℕ} {mask : List ℤ} {ins : Instruction} (h : ConfigOk units mask ins)
    (hmask : ∀ id ∈ mask, InRange units id) :
    ∃ mask', configStep units mask ins = .ok mask' ∧ ∀ id ∈ mask', InRange units id := by
  obtain ⟨f, hf, -, hrange⟩ := h.effect
  exact ⟨f mask, hf mask (List.Subperm.refl mask), hrange mask hmask⟩

theorem ConfigOk.mono {units : ℕ} {mask mask' : List ℤ} {ins : Instruction} (h : ConfigOk units mask ins)
    (hsub : mask.Subperm mask') : ConfigOk units mask' ins := by
  obtain ⟨hset, hunset, hsetbulk, hunsetbulk⟩ := h
  refine ⟨hset, fun hop => ?_, hsetbulk, fun hop => ?_⟩
  · obtain ⟨id, hid, hmem⟩ := hunset hop
    exact ⟨id, hid, hsub.subset hmem⟩
  · obtain ⟨start, stop, step, ids, hstart, hstop, hstep, hids, hmem⟩ := hunsetbulk hop
    exact ⟨start, stop, step, ids, hstart, hstop, hstep, hids, hmem.trans hsub⟩

/-- A program that can be read from a mask can be read from every larger one. -/
theorem ReadsOk.mono {units : ℕ} {ok : Instruction → Prop} {mask mask' : List ℤ} {prog : List Instruction}
    (h : ReadsOk units ok mask prog) (hsub : mask.Subperm mask') : ReadsOk units ok mask' prog := by
  induction prog generalizing mask mask' with
  | nil => trivial
  | cons ins prog ih =>
      rw [ReadsOk] at h ⊢
      by_cases hins : ins.isConfig = true
      · rw [if_pos hins] at h ⊢
        obtain ⟨f, hf, hmono, -⟩ := h.1.effect
        refine ⟨h.1.mono hsub, fun m hm => ?_⟩
        rw [hf mask' hsub] at hm
        cases hm
        exact ih (h.2 _ (hf mask (List.Subperm.refl mask))) (hmono mask mask' hsub)
      · rw [if_neg hins] at h ⊢
        exact ⟨h.1, ih h.2 hsub⟩

theorem configOk_of_name {units : ℕ} {mask : List ℤ} {ins : Instruction}
    (h : ins.opCode ∉ ["SET", "UNSET", "SETBULK", "UNSETBULK"]) : ConfigOk units mask ins := by
  refine ⟨fun h' => absurd ?_ h, fun h' => absurd ?_ h, fun h' => absurd ?_ h, fun h' => absurd ?_ h⟩ <;>
    simp [h']

theorem ReadsOk.config {units : ℕ} {ok : Instruction → Prop} {mask mask' : List ℤ} {ins : Instruction}
    {rest : List Instruction} (hins : ins.isConfig = true) (hok : ConfigOk units mask ins)
    (hstep : configStep units mask ins = .ok mask') (hrest : ReadsOk units ok mask' rest) :
    ReadsOk units ok mask (ins :: rest) := by
  rw [ReadsOk, if_pos hins]
  refine ⟨hok, fun m hm => ?_⟩
  rw [hstep] at hm
  cases hm
  exact hrest

theorem ReadsOk.compute {units : ℕ} {ok : Instruction → Prop} {mask : List ℤ} {ins : Instruction}
    {rest : List Instruction} (hins : ins.isConfig = false) (hok : ok ins)
    (hrest : ReadsOk units ok mask rest) :
    ReadsOk units ok mask (ins :: rest) := by
  rw [ReadsOk, if_neg (by simp [hins])]
  exact ⟨hok, hrest⟩

theorem ReadsOk.mem {units : ℕ} {ok : Instruction → Prop} {mask : List ℤ} {prog : List Instruction}
    (h : ReadsOk units ok mask prog) (hmask : ∀ id ∈ mask, InRange units id) :
    ∀ ins ∈ prog, ins.isConfig = false → ok ins := by
  induction prog generalizing mask with
  | nil => intro ins hins; cases hins
  | cons i prog ih =>
      intro ins hins hcompute
      rw [ReadsOk] at h
      cases hi : i.isConfig with
      | true =>
          rw [if_pos hi] at h
          obtain ⟨mask', hstep, hmask'⟩ := h.1.step hmask
          rcases List.mem_cons.mp hins with rfl | hins
          · rw [hi] at hcompute
            cases hcompute
          · exact ih (h.2 mask' hstep) hmask' ins hins hcompute
      | false =>
          rw [if_neg (by simp [hi])] at h
          rcases List.mem_cons.mp hins with rfl | hins
          · exact h.1
          · exact ih h.2 hmask ins hins hcompute

theorem ReadsOk.imp {units : ℕ} {ok ok' : Instruction → Prop} (himp : ∀ ins, ok ins → ok' ins) {mask : List ℤ}
    {prog : List Instruction} (h : ReadsOk units ok mask prog) : ReadsOk units ok' mask prog := by
  induction prog generalizing mask with
  | nil => trivial
  | cons ins prog ih =>
      rw [ReadsOk] at h ⊢
      by_cases hins : ins.isConfig = true
      · rw [if_pos hins] at h ⊢
        exact ⟨h.1, fun mask' hstep => ih (h.2 mask' hstep)⟩
      · rw [if_neg hins] at h ⊢
        exact ⟨himp ins h.1, ih h.2⟩

theorem mem_closeRun {mask : List ℤ} {run : List Instruction} {es : List Epoch} {e : Epoch}
    (h : e ∈ closeRun mask run es) : (e.mask = mask ∧ e.instructions = run) ∨ e ∈ es := by
  unfold closeRun at h
  split at h
  · exact Or.inr h
  · rcases List.mem_cons.mp h with rfl | h
    · exact Or.inl ⟨rfl, rfl⟩
    · exact Or.inr h

/-- A program that can be read has epochs, whose active ids are in range. -/
theorem ReadsOk.epochsFrom_ok {units : ℕ} {ok : Instruction → Prop} {mask : List ℤ} {prog : List Instruction}
    (h : ReadsOk units ok mask prog) (hmask : ∀ id ∈ mask, InRange units id) (run : List Instruction) :
    ∃ es, epochsFrom units mask run prog = .ok es ∧ ∀ e ∈ es, ∀ id ∈ e.mask, InRange units id := by
  induction prog generalizing mask run with
  | nil =>
      refine ⟨_, rfl, fun e he => ?_⟩
      rcases mem_closeRun he with ⟨he, -⟩ | he
      · rwa [he]
      · cases he
  | cons ins prog ih =>
      rw [ReadsOk] at h
      rw [epochsFrom]
      by_cases hins : ins.isConfig = true
      · rw [if_pos hins] at h
        rw [if_pos hins]
        obtain ⟨mask', hstep, hmask'⟩ := h.1.step hmask
        obtain ⟨es, hes, hrange⟩ := ih (h.2 mask' hstep) hmask' []
        refine ⟨closeRun mask run es, by simp only [hstep, hes, bind, Except.bind]; rfl, fun e he => ?_⟩
        rcases mem_closeRun he with ⟨he, -⟩ | he
        · rwa [he]
        · exact hrange e he
      · rw [if_neg hins] at h
        rw [if_neg hins]
        exact ih h.2 hmask _

theorem ReadsOk.epochs_ok_from {units : ℕ} {ok : Instruction → Prop} {mask : List ℤ} {prog : List Instruction}
    (h : ReadsOk units ok mask prog) (hmask : ∀ id ∈ mask, InRange units id) :
    ∃ es, epochs units mask prog = .ok es ∧ ∀ e ∈ es, (∀ id ∈ e.mask, InRange units id) ∧
      ∀ ins ∈ e.instructions, ok ins ∧ ins.isConfig = false := by
  obtain ⟨es, hes, hrange⟩ := h.epochsFrom_ok hmask []
  refine ⟨es, hes, fun e he => ⟨hrange e he, fun ins hins => ?_⟩⟩
  obtain ⟨hmem, hcompute⟩ := isConfig_of_mem_epochs hes he hins
  exact ⟨h.mem hmask ins hmem hcompute, hcompute⟩

theorem ReadsOk.epochs_ok {units : ℕ} {ok : Instruction → Prop} {prog : List Instruction}
    (h : ReadsOk units ok [] prog) :
    ∃ es, epochs units [] prog = .ok es ∧ ∀ e ∈ es, (∀ id ∈ e.mask, InRange units id) ∧
      ∀ ins ∈ e.instructions, ok ins ∧ ins.isConfig = false :=
  h.epochs_ok_from fun id hid => by cases hid

/-- A program that can be read can be read up to any place and from there on. -/
theorem ReadsOk.split {units : ℕ} {ok : Instruction → Prop} {mask : List ℤ} {pre rest : List Instruction}
    (h : ReadsOk units ok mask (pre ++ rest)) (hmask : ∀ id ∈ mask, InRange units id) :
    ReadsOk units ok mask pre ∧ ∃ mask', maskAfter units mask pre = .ok mask' ∧
      (∀ id ∈ mask', InRange units id) ∧ ReadsOk units ok mask' rest := by
  induction pre generalizing mask with
  | nil => exact ⟨trivial, mask, rfl, hmask, h⟩
  | cons ins pre ih =>
      rw [List.cons_append, ReadsOk] at h
      rw [ReadsOk]
      by_cases hins : ins.isConfig = true
      · rw [if_pos hins] at h ⊢
        obtain ⟨m, hstep, hm⟩ := h.1.step hmask
        obtain ⟨hpre, mask', hmask', hrange, hrest⟩ := ih (h.2 m hstep) hm
        refine ⟨⟨h.1, fun m' hm' => ?_⟩, mask', ?_, hrange, hrest⟩
        · rw [hstep] at hm'
          cases hm'
          exact hpre
        · rw [maskAfter_config hins, hstep]
          exact hmask'
      · rw [if_neg hins] at h ⊢
        obtain ⟨hpre, mask', hmask', hrange, hrest⟩ := ih h.2 hmask
        refine ⟨⟨h.1, hpre⟩, mask', ?_, hrange, hrest⟩
        rw [maskAfter_compute (by simpa using hins)]
        exact hmask'

theorem ReadsOk.join {units : ℕ} {ok : Instruction → Prop} {mask mask' : List ℤ} {pre rest : List Instruction}
    (hpre : ReadsOk units ok mask pre) (hmask : maskAfter units mask pre = .ok mask')
    (hrest : ReadsOk units ok mask' rest) : ReadsOk units ok mask (pre ++ rest) := by
  induction pre generalizing mask with
  | nil =>
      cases hmask
      exact hrest
  | cons ins pre ih =>
      rw [ReadsOk] at hpre
      rw [List.cons_append, ReadsOk]
      by_cases hins : ins.isConfig = true
      · rw [maskAfter_config hins] at hmask
        rw [if_pos hins] at hpre ⊢
        refine ⟨hpre.1, fun m hm => ih (hpre.2 m hm) ?_⟩
        rw [hm] at hmask
        exact hmask
      · rw [maskAfter_compute (by simpa using hins)] at hmask
        rw [if_neg hins] at hpre ⊢
        exact ⟨hpre.1, ih hpre.2 hmask⟩

/-! ### Fresh chips -/

namespace Chip

variable {dimx dimy : ℕ}

/-- Latency and energy cost together. -/
def costs (c : Chip dimx dimy) : ℚ × ℚ := (c.getLatencyCost, c.getEnergyCost)

/-- A fresh chip with a program in its instruction memory. -/
def loaded (tab : CostTab) (prog : List Instruction) : Chip dimx dimy := (init tab).append prog

/-- Nothing is accumulated, and the buses are those of the table. -/
structure Blank (tab : CostTab) (c : Chip dimx dimy) : Prop where
  costTab : c.costTab = tab
  latency : c.latency = 0
  energy : c.energy = 0
  groups : c.computeUnitGroups = fun _ => Cluster.init tab
  bus : c.globalMemBus = MemBus.init tab.globalMemBusTab

variable {tab : CostTab} {c : Chip dimx dimy}

theorem Blank.getLatencyCost (h : Blank tab c) (t : Tally (dimx * dimy)) :
    (t +ᵥ c).getLatencyCost = t.latencyCost tab := by
  rw [vadd_def, charge, Chip.getLatencyCost, MemBus.getLatencyCost, Tally.latencyCost, h.latency, h.bus]
  simp [MemBus.init]

theorem Blank.getEnergyCost (h : Blank tab c) (t : Tally (dimx * dimy)) :
    (t +ᵥ c).getEnergyCost = t.energyCost tab * c.multithread := by
  rw [vadd_def, charge, Chip.getEnergyCost, Tally.energyCost, h.energy, h.bus, h.groups]
  simp only [MemBus.getEnergyCost, Cluster.getEnergyCost, MultiWord.getEnergyCost, MemBus.init, Cluster.init,
    MultiWord.init, Tally.wordEnergy, zero_add, Finset.sum_add_distrib]

theorem Blank.costs (h : Blank tab c) (hone : c.multithread = 1) (t : Tally (dimx * dimy)) :
    (t +ᵥ c).costs = t.costs tab := by
  rw [Chip.costs, h.getLatencyCost, h.getEnergyCost, hone, Int.cast_one, mul_one]
  rfl

end Chip

/-! ### The cost of an epoch and of a launch -/

variable {dimx dimy : ℕ} {tab : CostTab}

/-- A fresh chip in front of the epoch, with its mask and a configuration instruction behind it. -/
def Epoch.chip (dimx dimy : ℕ) (tab : CostTab) (e : Epoch) : Chip dimx dimy :=
  { (Chip.loaded tab (e.instructions ++ [⟨"UNSETALL", []⟩]) : Chip dimx dimy) with mask := e.mask }

/-- What `executeEpoch` costs for the epoch alone. -/
def Epoch.costs (dimx dimy : ℕ) (tab : CostTab) (e : Epoch) : Except PyError (ℚ × ℚ) :=
  (e.chip dimx dimy tab).executeEpoch.map Chip.costs

theorem Epoch.costs_eq {e : Epoch} (he : ∀ ins ∈ e.instructions, ins.isConfig = false) :
    e.costs dimx dimy tab = (e.tally (dimx * dimy) tab).map (Tally.costs tab) := by
  have hfetch : fetchLoop ((e.chip dimx dimy tab).instructionMemory.drop (e.chip dimx dimy tab).pc)
      (e.chip dimx dimy tab).pc [] = .ok (e.instructions.length, e.instructions) := by
    change fetchLoop (e.instructions ++ [⟨"UNSETALL", []⟩]) 0 [] = _
    rw [Chip.fetchLoop_eq, fetchRead_run he (by decide)]
    simp [Except.map]
  unfold Epoch.costs Chip.executeEpoch
  simp only [hfetch, bind, Except.bind, Chip.runEpoch_eq]
  change ((e.tally (dimx * dimy) tab).map _).map Chip.costs = _
  cases e.tally (dimx * dimy) tab with
  | error err => rfl
  | ok t =>
      have hblank : Chip.Blank tab ({ e.chip dimx dimy tab with pc := e.instructions.length } :
          Chip dimx dimy) :=
        ⟨rfl, rfl, rfl, rfl, rfl⟩
      exact congrArg Except.ok (hblank.costs rfl t)

theorem Chip.launch_loaded {prog : List Instruction}
    {r : Except PyError (List ℤ × Tally (dimx * dimy) × List Instruction)}
    (h : Drives (dimx * dimy * 64) (epochTally (dimx * dimy) tab) [] prog r) (m : ℤ) :
    (loaded tab prog : Chip dimx dimy).launch 0 m =
      some (r.map fun p => p.2.1 +ᵥ {
        (loaded tab prog : Chip dimx dimy) with multithread := m }.seek p.1 p.2.2) :=
  launch_eq rfl m h

/-- **A launch charges the tallies of the epochs** of a program that ends well, or fails in the first
epoch that fails. -/
theorem Chip.launch_of_endsWell (tab : CostTab) {prog : List Instruction} (hend : EndsWell prog)
    {es : List Epoch} (hes : epochs (dimx * dimy * 64) [] prog = .ok es) (m : ℤ) :
    ∃ c : Chip dimx dimy, Blank tab c ∧ c.multithread = m ∧
      (loaded tab prog : Chip dimx dimy).launch 0 m =
        some ((total (Epoch.tally (dimx * dimy) tab) es).map (· +ᵥ c)) := by
  obtain ⟨mask, last, hrun⟩ := tallies_of_endsWell tab hend hes
  refine ⟨{ (loaded tab prog : Chip dimx dimy) with multithread := m }.seek mask [last],
    ⟨rfl, rfl, rfl, rfl, rfl⟩, rfl, ?_⟩
  rw [launch_loaded hrun]
  cases total (Epoch.tally (dimx * dimy) tab) es with
  | error err => rfl
  | ok t => rfl

/-- A list of epochs all of whose charges are readable and in range charges their sums, and no bus. -/
theorem total_tally_ok (tab : CostTab) {n : ℕ} {es : List Epoch}
    (hmask : ∀ e ∈ es, ∀ id ∈ e.mask, InRange (n * 64) id)
    (hok : ∀ e ∈ es, ∀ ins ∈ e.instructions, ComputeOk tab ins) :
    ∃ t, total (Epoch.tally n tab) es = .ok t ∧
      t.latencyCost tab = (es.map fun e => epochLatency tab e.mask e.instructions).sum ∧
      t.energyCost tab = (es.map fun e => epochEnergy tab e.mask e.instructions).sum ∧ t.transfers = 0 := by
  induction es with
  | nil => exact ⟨0, rfl, Tally.latencyCost_zero tab, Tally.energyCost_zero tab, rfl⟩
  | cons e es ih =>
      obtain ⟨t, ht, hcosts, htransfers⟩ :=
        epochTally_ok (hok e List.mem_cons_self) (reaches_of_inRange (hmask e List.mem_cons_self))
      obtain ⟨t', ht', hlatency, henergy, htransfers'⟩ :=
        ih (fun e' he' => hmask e' (List.mem_cons_of_mem e he')) fun e' he' =>
        hok e' (List.mem_cons_of_mem e he')
      obtain ⟨hl, he⟩ := Prod.mk.inj hcosts
      refine ⟨t + t', total_cons_ok ht ht', ?_, ?_, ?_⟩
      · rw [Tally.latencyCost_add, hl, hlatency, List.map_cons, List.sum_cons]
      · rw [Tally.energyCost_add, he, henergy, List.map_cons, List.sum_cons]
      · rw [map_add, htransfers, htransfers', add_zero]

/-- The costs of the epochs add up to the cost of a launch, for one thread. -/
theorem total_costs {es : List Epoch} (hes : ∀ e ∈ es, ∀ ins ∈ e.instructions, ins.isConfig = false)
    {t : Tally (dimx * dimy)} (ht : total (Epoch.tally (dimx * dimy) tab) es = .ok t) :
    total (Epoch.costs dimx dimy tab) es = .ok (t.costs tab) := by
  have hmap := total_map (Tally.costs tab) (Epoch.tally (dimx * dimy) tab) es
  rw [ht] at hmap
  have hcongr : total (Epoch.costs dimx dimy tab) es =
      total (fun e => (e.tally (dimx * dimy) tab).map (Tally.costs tab)) es :=
    total_congr fun e he => Epoch.costs_eq (hes e he)
  rw [hcongr, ← hmap]
  rfl

/-- The costs that a program launched on a fresh chip reports. -/
def launchCosts (dimx dimy : ℕ) (tab : CostTab) (prog : List Instruction) (m : ℤ) :
    Option (Except PyError (ℚ × ℚ)) :=
  ((Chip.loaded tab prog : Chip dimx dimy).launch 0 m).map (·.map Chip.costs)

/-- The costs of a well-formed program that ends well are the sums of its epochs' charges. -/
theorem launchCosts_eq {prog : List Instruction} (hwf : WellFormed (dimx * dimy * 64) tab prog)
    (hend : EndsWell prog) {es : List Epoch} (hes : epochs (dimx * dimy * 64) [] prog = .ok es) (m : ℤ) :
    launchCosts dimx dimy tab prog m =
      some (.ok ((es.map fun e => epochLatency tab e.mask e.instructions).sum,
        (es.map fun e => epochEnergy tab e.mask e.instructions).sum * m)) := by
  obtain ⟨es', hes', hepochs⟩ := hwf.epochs_ok
  obtain rfl : es' = es := Except.ok.inj (hes'.symm.trans hes)
  obtain ⟨c, hblank, hthreads, hlaunch⟩ := Chip.launch_of_endsWell tab hend hes m
  obtain ⟨t, ht, hlatency, henergy, -⟩ := total_tally_ok tab (fun e he => (hepochs e he).1)
    fun e he ins hins => ((hepochs e he).2 ins hins).1
  rw [launchCosts, hlaunch, ht, ← hlatency, ← henergy]
  refine congrArg some (congrArg Except.ok ?_)
  rw [Chip.costs, hblank.getLatencyCost, hblank.getEnergyCost, hthreads]

/-! ### A small program -/

/-- Three operations and the buses of the shipped example tables. -/
def exampleTab : CostTab where
  opTab := [("AND8", ⟨32.768, 512, 13.2, 4096, 0, 0⟩), ("ADD16", ⟨352, 1024, 72.7, 4096, 1.22, 1015⟩),
    ("RELU16", ⟨118, 512, 25.1, 4096, 0, 352⟩)]
  localMemBusTab := ⟨512, 40, 100, 64000000000⟩
  globalMemBusTab := ⟨1024, 400, 1000, 64000000000⟩

def setall : Instruction := ⟨"SETALL", []⟩
def unsetall : Instruction := ⟨"UNSETALL", []⟩
def and8 : Instruction := ⟨"AND8", ["x", "x", "x", "1", "4"]⟩
def add16 : Instruction := ⟨"ADD16", ["x", "x", "x", "14", "4"]⟩
def relu16 : Instruction := ⟨"RELU16", ["x", "x", "14", "4"]⟩
def shift : Instruction := ⟨"SHIFT", ["1", "2"]⟩

theorem computeOk_and8 : ComputeOk exampleTab and8 where
  notLoad := by decide
  notStore := by decide
  transfer h := absurd h (by decide)
  operation _ := ⟨⟨_, rfl⟩, 4, by decide⟩
  fleet _ _ := ⟨1, by decide⟩

theorem computeOk_add16 : ComputeOk exampleTab add16 where
  notLoad := by decide
  notStore := by decide
  transfer h := absurd h (by decide)
  operation _ := ⟨⟨_, rfl⟩, 4, by decide⟩
  fleet _ _ := ⟨14, by decide⟩

theorem computeOk_shift : ComputeOk exampleTab shift where
  notLoad := by decide
  notStore := by decide
  transfer _ := ⟨⟨1, by decide +kernel⟩, 2, by decide +kernel⟩
  operation h := absurd h (by decide)
  fleet h := absurd h (by decide)

/-- All multi-words of a chip add and shift, and are released. -/
def exampleProg : List Instruction := [setall, add16, shift, unsetall]

theorem wellFormed_exampleProg (units : ℕ) : WellFormed units exampleTab exampleProg := by
  apply ReadsOk.config (by decide) (configOk_of_name (by decide)) rfl
  refine ReadsOk.compute (by decide) computeOk_add16 (ReadsOk.compute (by decide) computeOk_shift ?_)
  exact ReadsOk.config (by decide) (configOk_of_name (by decide)) rfl trivial

theorem endsWell_exampleProg : EndsWell exampleProg :=
    ⟨[setall, add16], shift, unsetall, rfl, by decide, by decide⟩

end RacerArtifacts.Sim
