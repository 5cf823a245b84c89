import RacerArtifacts.SimEpochs

/-! What a launch that completes has checked. Ids are checked where a list is indexed, which only some
operations do, and Python's indices may be negative; opcodes are checked where the operation table is read. -/

namespace RacerArtifacts.Sim

open Charging Fallible

variable {n : ℕ} {tab : CostTab} {it : Iteration} {ins : Instruction} {id : ℤ}

/-! ### Ids -/

/-- The second pass indexes the clusters for the instruction. -/
def Indexes (tab : CostTab) (ins : Instruction) : Prop :=
  hasSub "LOAD" ins.opCode = false ∧ hasSub "STORE" ins.opCode = false ∧ Accumulates tab ins

/-- A Python index is at most the length away from the start, on either side. -/
theorem pyIndex_ok {i : ℤ} {j : Fin n} (h : pyIndex n i = .ok j) : -n ≤ i ∧ i < n := by
  by_cases hneg : i < 0
  · simp only [pyIndex, if_pos hneg] at h
    split at h
    · omega
    · cases h
  · simp only [pyIndex, if_neg hneg] at h
    split at h
    · omega
    · cases h

/-- An instruction that indexes has been carried out for the ids of the chip, and for the negative ones that
wrap around. -/
theorem wordTally_index (hins : Indexes tab ins) {t : Tally n} (h : wordTally n tab id ins = .ok t) :
    -((n * 64 : ℕ) : ℤ) ≤ id ∧ id < ((n * 64 : ℕ) : ℤ) := by
  obtain ⟨hload, hstore, hnamed, hskip⟩ := hins
  have hname : ¬(ins.opCode = "SHIFT" ∨ ins.opCode = "PROP") :=
    Instruction.not_isNamedTransfer_iff.mp hnamed
  rw [wordTally, if_neg hname] at h
  obtain ⟨row, hrow, h⟩ := bind_ok h
  rw [CostTab.op_eq_row hrow] at hskip
  have hbranch : ¬(row.warmupEnergy ≠ 0 ∧ row.warmupLatency ≠ 0) := hskip
  rw [if_neg hbranch, opTally] at h
  obtain ⟨factor, -, h⟩ := bind_ok h
  simp only [hload, hstore, Bool.not_false, Bool.and_self, if_true] at h
  obtain ⟨clusterID, hindex, -⟩ := bind_ok h
  have hbounds := pyIndex_ok hindex
  unfold clusterOf at hbounds
  omega

namespace Iteration

/-- Every id of the mask is a multi-word of the chip. -/
def ValidIds (units : ℕ) (it : Iteration) : Prop :=
  ∀ id ∈ it.mask, InRange units id

/-- No id of the mask wraps around, and where one is out of range for Python too, an instruction indexes. -/
def CaughtIds (units : ℕ) (tab : CostTab) (it : Iteration) : Prop :=
  (∀ id ∈ it.mask, ¬(-(units : ℤ) ≤ id ∧ id < 0)) ∧
    ((∃ id ∈ it.mask, id < -(units : ℤ) ∨ (units : ℤ) ≤ id) → ∃ ins ∈ it.run, Indexes tab ins)

/-- The second pass has been carried out for every active id and every instruction. -/
theorem Done.word_ok (h : it.Done n tab) (hid : id ∈ it.mask) (hins : ins ∈ it.run) :
    ∃ t, wordTally n tab id ins = .ok t := by
  obtain ⟨t, ht⟩ := h.tally
  obtain ⟨p, -, ht⟩ := bind_ok ht
  obtain ⟨words, hwords, -⟩ := bind_ok ht
  obtain ⟨t', ht'⟩ := ok_of_total_ok hwords id hid
  exact ok_of_total_ok ht' ins hins

theorem Done.validIds_iff (h : it.Done n tab) : it.ValidIds (n * 64) ↔ it.CaughtIds (n * 64) tab := by
  constructor
  · intro hvalid
    constructor
    · intro id hid hwraps
      exact absurd (hvalid id hid).1 (not_le.mpr hwraps.2)
    · rintro ⟨id, hid, hout⟩
      obtain ⟨hnonneg, hlt⟩ := hvalid id hid
      omega
  · rintro ⟨hwraps, hcaught⟩ id hid
    by_contra hbad
    have hout : id < -((n * 64 : ℕ) : ℤ) ∨ ((n * 64 : ℕ) : ℤ) ≤ id := by
      have := hwraps id hid
      unfold InRange at hbad
      omega
    obtain ⟨ins, hins, hindexes⟩ := hcaught ⟨id, hid, hout⟩
    obtain ⟨t, ht⟩ := h.word_ok hid hins
    have hbounds := wordTally_index hindexes ht
    omega

end Iteration

/-- **When only existing multi-words are charged.** A launch that completes has run its epochs under valid ids
exactly when no id has wrapped around, and each epoch with an id out of Python's range has an instruction that
indexes, so that there is none. -/
theorem launch_validIds_iff {dimx dimy : ℕ} {c c' : Chip dimx dimy} {pc : ℕ} {m : ℤ}
    (hlaunch : c.launch pc m = some (.ok c')) :
    ∃ its, (∀ its' c'', Chip.Executes { c with pc := pc, multithread := m } its' c'' ↔
      its' = its ∧ c'' = c') ∧
      ((∀ it ∈ its, it.ValidIds (dimx * dimy * 64)) ↔
        ∀ it ∈ its, it.CaughtIds (dimx * dimy * 64) c.costTab) := by
  obtain ⟨its, hits⟩ := Chip.exists_executes hlaunch
  refine ⟨its, fun its' c'' => ⟨fun h => ?_, ?_⟩, ?_⟩
  · obtain ⟨rfl, rfl⟩ := hits.unique h
    exact ⟨rfl, rfl⟩
  · rintro ⟨rfl, rfl⟩
    exact hits
  · exact forall₂_congr fun it hit => (hits.done it hit).validIds_iff

/-- A program of one epoch. -/
def andProg (config : Instruction) : List Instruction := [config, and8, unsetall]

/-- The program on a fresh chip of one cluster. -/
def andStart (config : Instruction) : Chip 1 1 := Chip.loaded exampleTab (andProg config)

/-- Where the configuration instruction can be carried out and its ids are caught by no index, it
completes. -/
theorem andStart_executes (config : Instruction) (mask : List ℤ) (hconfig : config.isConfig = true)
    (hstep : configStep (1 * 1 * 64) [] config = .ok mask) (hreach : Reaches (1 * 1) exampleTab mask [and8]) :
    ∃ c', (andStart config).launch 0 1 = some (.ok c') ∧
      Chip.Executes { andStart config with pc := 0, multithread := 1 } [⟨[config], mask, [and8]⟩] c' := by
  obtain ⟨t, ht, -⟩ := epochTally_ok (List.forall_mem_singleton.mpr computeOk_and8) hreach
  have hat : ({ andStart config with pc := 0, multithread := 1 } : Chip 1 1).AtConfig [config] :=
    ⟨List.forall_mem_singleton.mpr hconfig, and8, [unsetall], rfl, by decide⟩
  have hsetup := hat.configSetup_eq
  rw [List.foldlM_cons] at hsetup
  change _ = (configStep (1 * 1 * 64) [] config >>= fun mask => List.foldlM _ mask []).map _ at hsetup
  rw [hstep] at hsetup
  have hexec : Chip.Executes { andStart config with pc := 0, multithread := 1 } [⟨[config], mask, [and8]⟩]
      (t +ᵥ ({ andStart config with pc := 2, multithread := 1, mask := mask } : Chip 1 1)) := by
    refine Chip.Executes.next (by change 0 < 3 - 1; decide) hsetup rfl ?_
      (Chip.Executes.stop (by change ¬2 < 3 - 1; decide))
    rw [Chip.runEpoch_eq]
    change (epochTally (1 * 1) exampleTab mask [and8]).map _ = _
    rw [ht]
    rfl
  exact ⟨_, hexec.launchLoop_eq (by change 1 < 3 + 1; decide), hexec⟩

/-- The program with id -1 completes: the last multi-word of the chip is charged. -/
theorem launch_negativeId :
    ∃ c', (andStart ⟨"SET", ["-1"]⟩).launch 0 1 = some (.ok c') ∧
      Chip.Executes { andStart ⟨"SET", ["-1"]⟩ with pc := 0, multithread := 1 }
        [⟨[⟨"SET", ["-1"]⟩], [-1], [and8]⟩] c' ∧
      ¬ Iteration.ValidIds (1 * 1 * 64) ⟨[⟨"SET", ["-1"]⟩], [-1], [and8]⟩ := by
  have hreach : Reaches (1 * 1) exampleTab [-1] [and8] := by
    intro id hid _ _ _
    rw [List.mem_singleton.mp hid]
    exact ⟨0, by decide⟩
  obtain ⟨c', hlaunch, hexec⟩ := andStart_executes ⟨"SET", ["-1"]⟩ [-1] (by decide) (by decide) hreach
  exact ⟨c', hlaunch, hexec, fun hvalid => absurd (hvalid (-1) (by decide)) (by decide)⟩

theorem launch_validIds_iff_first :
    ∃ c' its, (∀ its' c'', Chip.Executes { andStart ⟨"SET", ["0"]⟩ with pc := 0, multithread := 1 } its' c'' ↔
        its' = its ∧ c'' = c') ∧
      ∀ it ∈ its, it.CaughtIds (1 * 1 * 64) exampleTab ∧ it.ValidIds (1 * 1 * 64) := by
  obtain ⟨c', hlaunch, hexec⟩ := andStart_executes ⟨"SET", ["0"]⟩ [0] (by decide) (by decide)
    (reaches_of_inRange (by decide))
  obtain ⟨its, hits, hiff⟩ := launch_validIds_iff hlaunch
  obtain ⟨rfl, -⟩ := (hits _ _).mp hexec
  have hcaught : ∀ it ∈ [(⟨[⟨"SET", ["0"]⟩], [0], [and8]⟩ : Iteration)],
      it.CaughtIds (1 * 1 * 64) exampleTab := by
    intro it hit
    rw [List.mem_singleton.mp hit]
    refine ⟨by decide, fun ⟨id, hid, hout⟩ => ?_⟩
    rw [List.mem_singleton.mp hid] at hout
    exact absurd hout (by decide)
  exact ⟨c', _, hits, fun it hit => ⟨hcaught it hit, hiff.mpr hcaught it hit⟩⟩

/-! ### Opcodes -/

/-- The first pass takes the instruction for a load, which it leaves to the second. -/
def Instruction.isLoad (ins : Instruction) : Bool := hasSub "LOAD" ins.opCode

namespace Iteration

end Iteration

end RacerArtifacts.Sim
