import Mathlib
import RacerArtifacts.SimAdditivity

/-! The order of the mask. The comment over the sequence construction says that the execution order is
sorted, but the sort is commented out: the mask is cut as the configuration instructions listed it. The
serialisation factor is the largest number of active multi-words per cluster only for masks that can be
cut into pieces with one common cluster, and it is independent of the order only when at most one cluster
has more than one active multi-word. -/

namespace RacerArtifacts.Sim

open Split

variable {dimx dimy : ℕ} {tab : CostTab} {mask mask' : List ℤ}

/-- The mask is a row of pieces, none with a cluster twice, that all have one cluster in common. -/
def CommonCluster (mask : List ℤ) : Prop :=
  ∃ pieces : List (List ℤ), pieces.flatten = mask ∧ (∀ p ∈ pieces, (p.map clusterOf).Nodup) ∧
    ∃ k, ∀ p ∈ pieces, k ∈ p.map clusterOf

/-- At most one cluster has more than one active multi-word. -/
def OneCrowdedCluster (mask : List ℤ) : Prop :=
  ∀ k k', 2 ≤ (mask.map clusterOf).count k → 2 ≤ (mask.map clusterOf).count k' → k = k'

theorem serialisation_eq_maxPerCluster_iff (hne : mask ≠ []) :
    serialisation mask = maxPerCluster mask ↔ CommonCluster mask := by
  rw [serialisation, executionSequences_eq_cut]
  exact cut_length_eq_peak hne

theorem Epoch.costs_of_serialisation {run : List Instruction} (hrun : ComputeRun tab run)
    (hmask : ∀ id ∈ mask, InRange (dimx * dimy * 64) id)
    (hmask' : ∀ id ∈ mask', InRange (dimx * dimy * 64) id) (hlen : mask'.length = mask.length)
    (hser : serialisation mask' = serialisation mask) :
    Epoch.costs dimx dimy tab ⟨mask', run⟩ = Epoch.costs dimx dimy tab ⟨mask, run⟩ := by
  rw [Epoch.costs_ok hrun (reaches_of_inRange hmask'),
    Epoch.costs_ok hrun (reaches_of_inRange hmask), epochLatency,
    epochLatency, epochEnergy, epochEnergy, hser, hlen]

theorem epochLatency_and8 (mask : List ℤ) :
    epochLatency exampleTab mask [and8] = 13.2 * serialisation mask := by
  have hrow : exampleTab.row and8.opCode = ⟨32.768, 512, 13.2, 4096, 0, 0⟩ := rfl
  have hpipe : ¬(exampleTab.row and8.opCode).Pipelined := by
    rw [hrow]
    simp [OpCost.Pipelined]
  rw [epochLatency, runLatency, List.map_singleton, List.sum_singleton, latencyOf, if_neg (by decide),
    if_neg (by decide)]
  simp only [if_neg hpipe]
  rw [hrow]

/-- An operation that is not pipelined tells any two factors apart. -/
theorem serialisation_of_costs (hmask : ∀ id ∈ mask, InRange (dimx * dimy * 64) id)
    (hmask' : ∀ id ∈ mask', InRange (dimx * dimy * 64) id)
    (h : Epoch.costs dimx dimy exampleTab ⟨mask', [and8]⟩ = Epoch.costs dimx dimy exampleTab ⟨mask, [and8]⟩) :
    serialisation mask' = serialisation mask := by
  rw [Epoch.costs_ok computeRun_and8 (reaches_of_inRange hmask'), Epoch.costs_ok computeRun_and8
    (reaches_of_inRange hmask)] at h
  have hlatency := (Prod.mk.inj (Except.ok.inj h)).1
  simp only [epochLatency_and8] at hlatency
  have hcast := mul_left_cancel₀ (by norm_num : (13.2 : ℚ) ≠ 0) hlatency
  exact_mod_cast hcast

/-- **The serialisation factor and the order of the mask.** For every non-empty mask of valid ids, the
number of execution sequences is the largest number of active multi-words in any one
cluster exactly when the mask is a row of pieces with a common cluster; masks of the same multi-words
that both are cost the same; and the costs of an epoch are the same in every order of its mask exactly
when at most one cluster has more than one active multi-word. -/
theorem serialisation_and_order (dimx dimy : ℕ) (mask : List ℤ) (hne : mask ≠ [])
    (hmask : ∀ id ∈ mask, InRange (dimx * dimy * 64) id) :
    (serialisation mask = maxPerCluster mask ↔ CommonCluster mask) ∧
    (∀ mask', mask'.Perm mask → CommonCluster mask → CommonCluster mask' → ∀ tab run, ComputeRun tab run →
      Epoch.costs dimx dimy tab ⟨mask', run⟩ = Epoch.costs dimx dimy tab ⟨mask, run⟩) ∧
    ((∀ mask', mask'.Perm mask → ∀ tab run, ComputeRun tab run →
      Epoch.costs dimx dimy tab ⟨mask', run⟩ = Epoch.costs dimx dimy tab ⟨mask, run⟩) ↔
      OneCrowdedCluster mask) := by
  have hmask' {mask' : List ℤ} (hperm : mask'.Perm mask) : ∀ id ∈ mask', InRange (dimx * dimy * 64) id :=
    fun id hid => hmask id (hperm.mem_iff.mp hid)
  have hne' {mask' : List ℤ} (hperm : mask'.Perm mask) : mask' ≠ [] := fun hnil => hne (by
    rw [hnil] at hperm
    exact hperm.symm.eq_nil)
  have hcut (mask' : List ℤ) : (cut clusterOf [] mask').length = serialisation mask' := by
    rw [serialisation, executionSequences_eq_cut]
  refine ⟨serialisation_eq_maxPerCluster_iff hne, fun mask' hperm hcommon hcommon' tab run hrun => ?_, ?_⟩
  · apply Epoch.costs_of_serialisation hrun hmask (hmask' hperm) hperm.length_eq
    rw [(serialisation_eq_maxPerCluster_iff hne).mpr hcommon,
      (serialisation_eq_maxPerCluster_iff (hne' hperm)).mpr hcommon']
    exact peak_perm (hperm.map clusterOf)
  · rw [OneCrowdedCluster, ← OneCrowded, ← forall_perm_cut_length_iff hne]
    constructor
    · intro h mask' hperm
      rw [hcut, hcut]
      exact serialisation_of_costs hmask (hmask' hperm) (h mask' hperm exampleTab [and8] computeRun_and8)
    · intro h mask' hperm tab run hrun
      have hlen := h mask' hperm
      rw [hcut, hcut] at hlen
      exact Epoch.costs_of_serialisation hrun hmask (hmask' hperm) hperm.length_eq hlen

/-- Two multi-words each of two clusters, listed cluster by cluster, need three sequences instead of
two, and SETALL on two clusters 127 instead of the 64 of the SETBULKs. -/
theorem serialisation_depends_on_order :
    serialisation [0, 1, 64, 65] ≠ maxPerCluster [0, 1, 64, 65] ∧
      serialisation [0, 64, 1, 65] = 2 ∧
      configStep 128 [] setall = .ok ((List.range 128).map fun i : ℕ => (i : ℤ)) ∧
      serialisation ((List.range 128).map fun i : ℕ => (i : ℤ)) = 127 ∧
      serialisation ((List.range 64).flatMap fun i : ℕ => [(i : ℤ), (i : ℤ) + 64]) = 64 := by
  refine ⟨by decide, by decide, rfl, by decide +kernel, by decide +kernel⟩

/-- Listed across the clusters, these four need as many sequences as a cluster has of them; in another order
they need more. -/
theorem serialisation_and_order_example :
    CommonCluster [0, 64, 1, 65] ∧
    (∀ mask' : List ℤ, mask'.Perm [0, 64, 1, 65] → CommonCluster mask' → ∀ tab run, ComputeRun tab run →
      Epoch.costs 1 2 tab ⟨mask', run⟩ = Epoch.costs 1 2 tab ⟨[0, 64, 1, 65], run⟩) ∧
    ¬ ∀ mask' : List ℤ, mask'.Perm [0, 64, 1, 65] → ∀ tab run, ComputeRun tab run →
      Epoch.costs 1 2 tab ⟨mask', run⟩ = Epoch.costs 1 2 tab ⟨[0, 64, 1, 65], run⟩ := by
  obtain ⟨hfactor, hcosts, horder⟩ :=
    serialisation_and_order 1 2 [0, 64, 1, 65] (List.cons_ne_nil _ _) (by decide)
  have hcommon : CommonCluster [0, 64, 1, 65] := hfactor.mp (by decide)
  constructor
  · exact hcommon
  constructor
  · intro mask' hperm hcommon' tab run hrun
    exact hcosts mask' hperm hcommon hcommon' tab run hrun
  intro hall
  exact absurd (horder.mp hall 0 1 (by decide) (by decide)) (by decide)

end RacerArtifacts.Sim
