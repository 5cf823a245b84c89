import Mathlib
import RacerArtifacts.LibSplit
import RacerArtifacts.SimHardware

/-! The execution sequences of an epoch. The loop of `executeEpoch` over the mask is the greedy cut of
the mask at the clusters: the sequences concatenate to the mask, no sequence has a cluster twice, and
their number is the serialisation factor of the epoch's latency. -/

namespace RacerArtifacts.Sim

open Split

/-- The number of execution sequences: the factor compute latency is multiplied by. -/
def serialisation (mask : List ℤ) : ℕ := (executionSequences mask).length

/-- The largest number of active multi-words in any one cluster. -/
def maxPerCluster (mask : List ℤ) : ℕ := peak (mask.map clusterOf)

/-- `overlapList` is always the clusters of the open sequence. -/
theorem foldl_sequenceStep (mask : List ℤ) (done : List (List ℤ)) (sequence : List ℤ) :
    let st := mask.foldl sequenceStep (done, sequence, sequence.map clusterOf)
    st.1 ++ [st.2.1] = done ++ cut clusterOf sequence mask := by
  induction mask generalizing done sequence with
  | nil => rfl
  | cons id mask ih =>
      rw [List.foldl_cons, cut]
      by_cases h : clusterOf id ∈ sequence.map clusterOf
      · have hstep : sequenceStep (done, sequence, sequence.map clusterOf) id =
            (done ++ [sequence], [id], [id].map clusterOf) := by
          simp only [sequenceStep, if_neg (not_not.mpr h)]
          rfl
        rw [hstep, if_pos h]
        exact (ih (done ++ [sequence]) [id]).trans (List.append_assoc _ _ _)
      · have hstep : sequenceStep (done, sequence, sequence.map clusterOf) id =
            (done, sequence ++ [id], (sequence ++ [id]).map clusterOf) := by
          simp only [sequenceStep, if_pos h, List.map_append]
          rfl
        rw [hstep, if_neg h]
        exact ih done (sequence ++ [id])

theorem executionSequences_eq_cut (mask : List ℤ) : executionSequences mask = cut clusterOf [] mask :=
  foldl_sequenceStep mask [] []

theorem executionSequences_flatten (mask : List ℤ) : (executionSequences mask).flatten = mask := by
  rw [executionSequences_eq_cut, cut_flatten, List.nil_append]

/-- `sum([len(sequence) for sequence in executionSquences])` is the number of active ids. -/
theorem sum_length_executionSequences (mask : List ℤ) :
    ((executionSequences mask).map List.length).sum = mask.length := by
  rw [← List.length_flatten, executionSequences_flatten]

theorem executionSequences_distinct (mask : List ℤ) :
    ∀ sequence ∈ executionSequences mask, Distinct clusterOf sequence := by
  rw [executionSequences_eq_cut]
  exact cut_distinct mask List.nodup_nil

/-- **The greedy construction is a best division.** For every non-empty mask the sequences concatenate to the
mask, none has two ids of a cluster, and no division into contiguous pieces of that kind has fewer of them. -/
theorem executionSequences_best (mask : List ℤ) (hne : mask ≠ []) :
    (executionSequences mask).flatten = mask ∧
    (∀ sequence ∈ executionSequences mask, (sequence.map clusterOf).Nodup) ∧
    ∀ pieces : List (List ℤ), pieces.flatten = mask → (∀ piece ∈ pieces, (piece.map clusterOf).Nodup) →
      (executionSequences mask).length ≤ pieces.length := by
  refine ⟨executionSequences_flatten mask, executionSequences_distinct mask, ?_⟩
  intro pieces hflatten hpieces
  have hsome : pieces ≠ [] := by
    rintro rfl
    exact hne hflatten.symm
  rw [executionSequences_eq_cut]
  exact cut_length_le hsome hflatten hpieces

/-- An id that is set twice, and two clusters that take turns. -/
theorem executionSequences_best_repeated :
    (executionSequences [0, 64, 0, 1]).flatten = [0, 64, 0, 1] ∧
    (∀ sequence ∈ executionSequences [0, 64, 0, 1], (sequence.map clusterOf).Nodup) ∧
    ∀ pieces : List (List ℤ), pieces.flatten = [0, 64, 0, 1] →
    (∀ piece ∈ pieces, (piece.map clusterOf).Nodup) →
      (executionSequences [0, 64, 0, 1]).length ≤ pieces.length :=
  executionSequences_best [0, 64, 0, 1] (List.cons_ne_nil _ _)

end RacerArtifacts.Sim
