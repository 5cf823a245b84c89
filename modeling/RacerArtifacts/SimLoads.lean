import Mathlib
import RacerArtifacts.SimPrograms

/-! Loads. The first pass leaves a load to its bus, and the second pass dispatches it to a local bus or
to the global one, but only after it has looked its opcode up in the operation table, where no load has a
row. A load is simulated exactly as long as no multi-word is active. -/

namespace RacerArtifacts.Sim

open Charging

variable {dimx dimy n : ℕ} {tab : CostTab}

/-- A load with valid operands on a chip of `n` clusters. -/
def LoadOk (n : ℕ) (ins : Instruction) : Prop :=
  (∃ k, ins.intFromEnd 1 = .ok k) ∧
    (ins.opCode = "SGLOAD" ∨ ins.opCode = "SLLOAD" ∧ ∃ id, ins.int 1 = .ok id ∧ InRange (n * 64) id)

/-- A well-formed program that may load. -/
def WellFormedLoads (n : ℕ) (tab : CostTab) (prog : List Instruction) : Prop :=
  ReadsOk (n * 64) (fun ins => ComputeOk tab ins ∨ LoadOk n ins) [] prog

/-- The shipped format: loads are no operations of the table. -/
def NoLoadRows (tab : CostTab) : Prop := ∀ op, hasSub "LOAD" op = true → tab.op op = .error .keyError

/-- The load names a multi-word of the cluster. -/
def loadsLocally (ins : Instruction) (cluster : ℕ) : Bool :=
  ins.opCode = "SLLOAD" && decide (valueOf (ins.int 1) / 64 = cluster)

def loadsGlobally (ins : Instruction) : Bool := ins.opCode = "SGLOAD"

/-- Once per load and active multi-word. -/
def Epoch.transfers (e : Epoch) (loads : Instruction → Bool) :
    ℕ := e.mask.length * e.instructions.countP loads

/-- The launch completes; the buses count every load once per active multi-word of its epoch; and the
costs include the transfers of all buses. -/
def LoadsAccounted (dimx dimy : ℕ) (tab : CostTab) (prog : List Instruction) (m : ℤ)
    (es : List Epoch) : Prop :=
  ∃ c : Chip dimx dimy, (Chip.loaded tab prog : Chip dimx dimy).launch 0 m = some (.ok c) ∧
    (∀ i, (c.computeUnitGroups i).localMemBus.transferCount =
      (es.map fun e => e.transfers fun ins => loadsLocally ins i).sum) ∧
    c.globalMemBus.transferCount = (es.map fun e => e.transfers loadsGlobally).sum ∧
    c.getLatencyCost =
      c.latency + ∑ i, (c.computeUnitGroups i).localMemBus.getLatencyCost + c.globalMemBus.getLatencyCost ∧
    c.getEnergyCost =
      (c.energy + ∑ i, ∑ j, ((c.computeUnitGroups i).computeUnits j).energy +
        ∑ i, (c.computeUnitGroups i).localMemBus.getEnergyCost + c.globalMemBus.getEnergyCost) * m

theorem LoadOk.isLoad {ins : Instruction} (h : LoadOk n ins) : hasSub "LOAD" ins.opCode = true := by
  rcases h.2 with h | ⟨h, -⟩
  · rw [h]
    decide
  · rw [h]
    decide

theorem loads_of_computeOk {ins : Instruction} (h : ComputeOk tab ins) (i : ℕ) :
    loadsLocally ins i = false ∧ loadsGlobally ins = false := by
  have hne (op : String) (hop : hasSub "LOAD" op = true) : ins.opCode ≠ op := fun heq => by
    have := h.notLoad
    rw [heq, hop] at this
    cases this
  constructor
  · rw [loadsLocally, decide_eq_false (hne "SLLOAD" (by decide)), Bool.false_and]
  · rw [loadsGlobally, decide_eq_false (hne "SGLOAD" (by decide))]

theorem mask_eq_nil_of_tally_ok (hrows : NoLoadRows tab) {e : Epoch} {t : Tally n}
    (ht : e.tally n tab = .ok t) {ins : Instruction} (hins : ins ∈ e.instructions)
    (hload : LoadOk n ins) : e.mask = [] := by
  unfold Epoch.tally epochTally at ht
  cases hfirst : firstPass tab (executionSequences e.mask).length e.mask.length e.instructions with
  | error err => rw [hfirst] at ht; cases ht
  | ok totals =>
      cases hwords : total (fun id => total (wordTally n tab id) e.instructions) e.mask with
      | error err => simp only [hfirst, hwords, bind, Except.bind] at ht; cases ht
      | ok words =>
          by_contra hne
          obtain ⟨id, hid⟩ := List.exists_mem_of_ne_nil _ hne
          obtain ⟨t₁, ht₁⟩ := ok_of_total_ok hwords id hid
          obtain ⟨t₂, ht₂⟩ := ok_of_total_ok ht₁ ins hins
          have hname : ¬(ins.opCode = "SHIFT" ∨ ins.opCode = "PROP") := by
            have hisLoad := hload.isLoad
            rintro (h | h)
            · rw [h] at hisLoad
              revert hisLoad
              decide
            · rw [h] at hisLoad
              revert hisLoad
              decide
          rw [wordTally, if_neg hname, hrows _ hload.isLoad] at ht₂
          cases ht₂

/-- An epoch without active multi-words only makes a first pass. -/
theorem tally_ok_of_mask_nil {e : Epoch} (hmask : e.mask = [])
    (hok : ∀ ins ∈ e.instructions, ComputeOk tab ins ∨ LoadOk n ins) :
    ∃ t, e.tally n tab = .ok t ∧ t.transfers = 0 := by
  have hstep (run : List Instruction) (hrun : ∀ ins ∈ run, ComputeOk tab ins ∨ LoadOk n ins) (s a : ℕ)
      (acc : ℚ × ℚ) :
      ∃ r, run.foldlM (firstPassStep tab s a) acc = .ok r := by
    induction run generalizing acc with
    | nil => exact ⟨acc, rfl⟩
    | cons ins run ih =>
        obtain ⟨acc', hacc'⟩ : ∃ acc', firstPassStep tab s a acc ins = .ok acc' := by
          rcases hrun ins List.mem_cons_self with h | h
          · exact ⟨_, firstPassStep_eq h s a acc⟩
          · exact ⟨acc, if_pos h.isLoad⟩
        rw [List.foldlM_cons, hacc']
        exact ih (fun i hi => hrun i (List.mem_cons_of_mem ins hi)) acc'
  obtain ⟨⟨latency, energy⟩, hr⟩ := hstep e.instructions hok
      (executionSequences e.mask).length e.mask.length (0, 0)
  refine ⟨Tally.totals latency energy + 0, ?_, by rw [add_zero]; exact Tally.transfers_totals _ _⟩
  rw [hmask] at hr
  unfold Epoch.tally epochTally firstPass
  simp only [hmask, hr, bind, Except.bind]
  rfl

/-- Epochs that load nothing: nothing is active in them, or they have no loads. -/
def Unloaded (tab : CostTab) (es : List Epoch) : Prop :=
  ∀ e ∈ es, e.mask = [] ∨ ∀ ins ∈ e.instructions, ComputeOk tab ins

theorem Unloaded.sum_transfers {es : List Epoch} (h : Unloaded tab es) {loads : Instruction → Bool}
    (hloads : ∀ ins, ComputeOk tab ins → loads ins = false) :
    (es.map fun e => e.transfers loads).sum = 0 := by
  apply List.sum_eq_zero
  intro k hk
  obtain ⟨e, he, rfl⟩ := List.mem_map.mp hk
  rcases h e he with hmask | hcompute
  · rw [Epoch.transfers, hmask, List.length_nil, zero_mul]
  · rw [Epoch.transfers, List.countP_eq_zero.mpr fun ins hins => ?_, mul_zero]
    simp [hloads ins (hcompute ins hins)]

/-- **Loads are accounted exactly where nothing is active.** For every table of the shipped format and
every well-formed program with loads, the launch completes with every load counted and charged if and only
if no load is in an epoch with an active multi-word. -/
theorem loads_accounted_iff (hrows : NoLoadRows tab) {prog : List Instruction}
    (hwf : WellFormedLoads (dimx * dimy) tab prog) (hend : EndsWell prog) (m : ℤ) :
    ∃ es, epochs (dimx * dimy * 64) [] prog = .ok es ∧
      (LoadsAccounted dimx dimy tab prog m es ↔
        ∀ e ∈ es, ∀ ins ∈ e.instructions, LoadOk (dimx * dimy) ins → e.mask = []) := by
  obtain ⟨es, hes, hepochs⟩ := ReadsOk.epochs_ok hwf
  obtain ⟨c, hblank, hthreads, hlaunch⟩ := Chip.launch_of_endsWell tab hend hes m
  refine ⟨es, hes, fun ⟨c', hc', _⟩ e he ins hins hload => ?_, fun hidle => ?_⟩
  · rw [hlaunch] at hc'
    obtain ⟨t, ht, -⟩ := exists_of_map_eq_ok (Option.some.inj hc')
    obtain ⟨t₁, ht₁⟩ := ok_of_total_ok ht e he
    exact mask_eq_nil_of_tally_ok hrows ht₁ hins hload
  · have hunloaded : Unloaded tab es := by
      intro e he
      by_cases hmask : e.mask = []
      · exact Or.inl hmask
      · exact Or.inr fun ins hins =>
          ((hepochs e he).2 ins hins).1.resolve_right fun h => hmask (hidle e he ins hins h)
    have htally : ∀ e ∈ es, ∃ t, e.tally (dimx * dimy) tab = .ok t ∧ t.transfers = 0 := by
      intro e he
      rcases hunloaded e he with hmask | hcompute
      · exact tally_ok_of_mask_nil hmask fun ins hins => ((hepochs e he).2 ins hins).1
      · obtain ⟨t, ht, -, htransfers⟩ := epochTally_ok hcompute (reaches_of_inRange (hepochs e he).1)
        exact ⟨t, ht, htransfers⟩
    have hmap := total_map Tally.transfers (Epoch.tally (dimx * dimy) tab) es
    have hzero : total (fun e => (e.tally (dimx * dimy) tab).map Tally.transfers) es = .ok 0 := by
      rw [total_eq_ok (g := fun _ => 0) fun e he => ?_, List.map_const', List.sum_replicate, smul_zero]
      obtain ⟨t, ht, htransfers⟩ := htally e he
      rw [ht, ← htransfers]
      rfl
    rw [hzero] at hmap
    obtain ⟨t, ht, htransfers⟩ := exists_of_map_eq_ok hmap
    obtain ⟨hlocal, hglobal⟩ := Prod.mk.inj htransfers
    rw [ht] at hlaunch
    have hcount (i : Fin (dimx * dimy)) : ((t +ᵥ c).computeUnitGroups i).localMemBus.transferCount = 0 := by
      rw [Chip.vadd_def, Chip.charge, hblank.groups, hlocal]
      rfl
    refine ⟨t +ᵥ c, hlaunch, fun i => ?_, ?_, ?_, ?_⟩
    · rw [hcount, hunloaded.sum_transfers fun ins hins => (loads_of_computeOk hins i).1]
    · rw [hunloaded.sum_transfers fun ins hins => (loads_of_computeOk hins 0).2, Chip.vadd_def, Chip.charge,
        hblank.bus, hglobal]
      rfl
    · simp [Chip.getLatencyCost, MemBus.getLatencyCost, hcount]
    · have hmulti : (t +ᵥ c).multithread = m := hthreads
      simp only [Chip.getEnergyCost, Cluster.getEnergyCost, MultiWord.getEnergyCost, hmulti,
        Finset.sum_add_distrib]
      ring

/-- One multi-word loads. -/
def loadProg : List Instruction := [⟨"SET", ["0"]⟩, ⟨"SLLOAD", ["0", "1"]⟩, unsetall]

theorem loadOk_slload : LoadOk 1 ⟨"SLLOAD", ["0", "1"]⟩ :=
  ⟨⟨1, by decide⟩, Or.inr ⟨by decide, 0, by decide, by decide⟩⟩

theorem wellFormed_loadProg : WellFormedLoads 1 exampleTab loadProg := by
  have hset : ConfigOk 64 [] ⟨"SET", ["0"]⟩ :=
    ⟨fun _ => ⟨0, by decide, by decide⟩, fun h => absurd h (by decide), fun h => absurd h (by decide),
      fun h => absurd h (by decide)⟩
  have hstep : configStep 64 [] ⟨"SET", ["0"]⟩ = .ok [0] := by decide
  refine ReadsOk.config (by decide) hset hstep (ReadsOk.compute (by decide) (Or.inr loadOk_slload) ?_)
  exact ReadsOk.config (by decide) (configOk_of_name (by decide)) rfl trivial

theorem endsWell_loadProg : EndsWell loadProg :=
  ⟨[⟨"SET", ["0"]⟩], ⟨"SLLOAD", ["0", "1"]⟩, unsetall, rfl, by decide, by decide⟩

/-- An SLLOAD on an active multi-word is a `KeyError`. -/
theorem load_fails : (Chip.loaded exampleTab loadProg : Chip 1 1).launch 0 1 = some (.error .keyError) := by
  have hes : epochs (1 * 1 * 64) [] loadProg = .ok [⟨[0], [⟨"SLLOAD", ["0", "1"]⟩]⟩] := by decide
  obtain ⟨c, -, -, hlaunch⟩ := @Chip.launch_of_endsWell 1 1 exampleTab _ endsWell_loadProg _ hes 1
  have htally : Epoch.tally (1 * 1) exampleTab ⟨[0], [⟨"SLLOAD", ["0", "1"]⟩]⟩ = .error .keyError := rfl
  rw [hlaunch, total_cons_error [] htally]
  rfl

theorem noLoadRows_exampleTab : NoLoadRows exampleTab := by
  intro op hop
  have hne (name : String) (hname : hasSub "LOAD" name = false) : (op == name) = false :=
    beq_eq_false_iff_ne.mpr fun h => by
      rw [← h, hop] at hname
      cases hname
  simp only [CostTab.op, exampleTab, List.lookup, hne "AND8" (by decide), hne "ADD16" (by decide),
    hne "RELU16" (by decide)]

/-- The same load where no multi-word is active. -/
def idleLoadProg : List Instruction := [unsetall, ⟨"SLLOAD", ["0", "1"]⟩, unsetall]

theorem wellFormed_idleLoadProg : WellFormedLoads 1 exampleTab idleLoadProg := by
  refine ReadsOk.config (by decide) (configOk_of_name (by decide)) rfl
    (ReadsOk.compute (by decide) (Or.inr loadOk_slload) ?_)
  exact ReadsOk.config (by decide) (configOk_of_name (by decide)) rfl trivial

/-- The load of an active multi-word is not accounted, and the same load of none is. -/
theorem loads_accounted_example :
    (∃ es, epochs (1 * 1 * 64) [] loadProg = .ok es ∧ ¬ LoadsAccounted 1 1 exampleTab loadProg 1 es) ∧
      ∃ es, epochs (1 * 1 * 64) [] idleLoadProg = .ok es ∧
      LoadsAccounted 1 1 exampleTab idleLoadProg 1 es := by
  obtain ⟨es, hes, hiff⟩ := loads_accounted_iff noLoadRows_exampleTab
    (show WellFormedLoads (1 * 1) exampleTab loadProg from wellFormed_loadProg) endsWell_loadProg 1
  obtain ⟨es', hes', hiff'⟩ := loads_accounted_iff noLoadRows_exampleTab
    (show WellFormedLoads (1 * 1) exampleTab idleLoadProg from wellFormed_idleLoadProg)
    ⟨[unsetall], ⟨"SLLOAD", ["0", "1"]⟩, unsetall, rfl, by decide, by decide⟩ 1
  refine ⟨⟨es, hes, fun haccounted => ?_⟩, es', hes', hiff'.mpr ?_⟩
  · obtain rfl : es = [⟨[0], [⟨"SLLOAD", ["0", "1"]⟩]⟩] := Except.ok.inj (hes.symm.trans (by decide))
    have hidle := hiff.mp haccounted _ List.mem_cons_self _ List.mem_cons_self loadOk_slload
    cases hidle
  · obtain rfl : es' = [⟨[], [⟨"SLLOAD", ["0", "1"]⟩]⟩] := Except.ok.inj (hes'.symm.trans (by decide))
    intro e he _ _ _
    rw [List.mem_singleton.mp he]

end RacerArtifacts.Sim
