import RacerArtifacts.MarssLayers

/-! The whole LeNet program (`lenetFull.cpp`): the first layer and the loop over the images. The first
convolution sends 1024 columns through a byte, so it reads none of them; from there on zeros are passed from
layer to layer, and the first fully connected layer adds nothing to an output that was never cleared. -/

namespace RacerArtifacts.Marss.Lenet

open Sweep

/-! ### The program -/

structure Layer1 where
  imm : ℕ → Byte
  out : ℕ → Byte

/-- The orders of the parallel loops in a call of `layer1`. -/
structure Layer1.Orders where
  conv : ℕ → List ℕ
  pool : ℕ → List ℕ
  relu : List ℕ
  conv_perm : ∀ outchannel, (conv outchannel).Perm (mvmulRows (toByte 784))
  pool_perm : ∀ outchannel, (pool outchannel).Perm (mvmulForPoolRows 196)
  relu_perm : relu.Perm (List.range (196 * 6))

/-- One iteration of the loop of `layer1`. -/
def layer1Channel (weightConv weightPool input : ℕ → Byte) (o : Layer1.Orders) (st : Layer1)
    (outchannel : ℕ) :
    Layer1 :=
  let imm := onTail (outchannel * 784)
    (mvmul (tail (outchannel * 1024 * 784) weightConv) input (toByte 1024) (o.conv outchannel)) st.imm
  let out := onTail (outchannel * 196)
    (mvmulForPool (tail (outchannel * 784 * 196) weightPool) (tail (outchannel * 784) imm) 784
      (o.pool outchannel))
    st.out
  ⟨imm, out⟩

def layer1 (weightConv weightPool input : ℕ → Byte) (o : Layer1.Orders) (st : Layer1) : Layer1 :=
  let st := (List.range 6).foldl (layer1Channel weightConv weightPool input o) st
  { st with out := relu o.relu st.out }

/-- The weights; those of the fully connected layers are never filled. -/
structure Weights where
  L1weightConv : ℕ → Byte
  L1weightPool : ℕ → Byte
  L2weightConv : ℕ → Byte
  L2weightPool : ℕ → Byte
  L3weightConv : ℕ → Byte
  FC1Mat : ℕ → Byte
  FC2Mat : ℕ → Byte

/-- The orders of the parallel loops for one image. -/
structure Orders where
  layer1 : Layer1.Orders
  layer2 : Layer2.Orders
  layer3 : Layer3.Orders
  fc1 : List ℕ
  fc2 : List ℕ
  fc1_perm : fc1.Perm (mvmulRows (toByte 84))
  fc2_perm : fc2.Perm (mvmulRows (toByte 10))

/-- The arrays that the loop over the images writes. -/
structure Network where
  l1 : Layer1
  l2 : Layer2
  l3 : Layer3
  FC1out : ℕ → Byte
  decision : ℕ → Byte

/-- One iteration of the loop over the images. -/
def classify (w : Weights) (L1in : ℕ → Byte) (o : Orders) (st : Network) (i : ℕ) : Network :=
  let img := tail (i * 1024) L1in
  let l1 := layer1 w.L1weightConv w.L1weightPool img o.layer1 st.l1
  let l2 := layer2 w.L2weightConv w.L2weightPool l1.out o.layer2 st.l2
  let l3 := layer3 w.L3weightConv l2.out o.layer3 st.l3
  let FC1out := mvmul w.FC1Mat l3.out (toByte 120) o.fc1 st.FC1out
  let decision := onTail (i * 10) (mvmul w.FC2Mat FC1out (toByte 84) o.fc2) st.decision
  ⟨l1, l2, l3, FC1out, decision⟩

/-- The arrays before the loop. The last two have what `malloc` left in them. -/
def Network.start (FC1out decision : ℕ → Byte) : Network :=
  ⟨⟨fun _ => 0, fun _ => 0⟩, Layer2.zeroed, Layer3.zeroed, FC1out, decision⟩

/-- The loop of `main` over `I` images. -/
def lenetFull (w : Weights) (L1in FC1out decision : ℕ → Byte) (o : ℕ → Orders) (I : ℕ) : Network :=
  (List.range I).foldl (fun st i => classify w L1in (o i) st i) (Network.start FC1out decision)

/-! ### What it computes -/

variable {weightConv weightPool input : ℕ → Byte}

theorem rowProduct_zero {vec : ℕ → Byte} (hvec : ∀ m, vec m = 0) (Mat : ℕ → Byte) (M n : ℕ) :
    rowProduct Mat vec M n = 0 := by
  apply Finset.sum_eq_zero
  intro m _
  rw [hvec m, mul_zero]

/-- The arrays of the first layer are still 0. -/
structure Layer1.Quiet (st : Layer1) : Prop where
  imm : ∀ c, st.imm c = 0
  out : ∀ c, st.out c = 0

theorem Layer1.Quiet.channel {st : Layer1} (h : st.Quiet) (weightConv weightPool input : ℕ → Byte)
    (o : Layer1.Orders)
    (outchannel : ℕ) : (layer1Channel weightConv weightPool input o st outchannel).Quiet := by
  have hcolumns : (toByte 1024).toNat = 0 := rfl
  have himm : ∀ c, (layer1Channel weightConv weightPool input o st outchannel).imm c = 0 := by
    intro c
    refine (onTail_mvmul (o.conv_perm outchannel) _ _ _ _ c).trans ?_
    rw [hcolumns, h.imm c, zero_add]
    exact ite_self 0
  refine ⟨himm, fun c => ?_⟩
  change onTail (outchannel * 196) _ st.out c = 0
  by_cases hc : c < outchannel * 196
  · rw [onTail_of_lt hc, h.out c]
  · obtain ⟨k, rfl⟩ : ∃ k, c = outchannel * 196 + k := ⟨c - outchannel * 196, by omega⟩
    have hbefore : tail (outchannel * 196) st.out k = 0 := h.out _
    rw [onTail_add, mvmulForPool_eq _ _ 784 (o.pool_perm outchannel), hbefore]
    split
    · apply poolRun_zeros
      intro m _
      have hvec : tail (outchannel * 784) (layer1Channel weightConv weightPool input o st outchannel).imm m =
          0 := himm _
      exact (congrArg (_ &&& ·) hvec).trans BitVec.and_zero
    · rfl

theorem Layer1.Quiet.layer1 {st : Layer1} (h : st.Quiet) (weightConv weightPool input : ℕ → Byte)
    (o : Layer1.Orders) :
    (layer1 weightConv weightPool input o st).Quiet := by
  have hchannels : ∀ l : List ℕ, (l.foldl (layer1Channel weightConv weightPool input o) st).Quiet := by
    intro l
    induction l using List.reverseRecOn with
    | nil => exact h
    | append_singleton l outchannel ih =>
        rw [List.foldl_append]
        exact ih.channel weightConv weightPool input o outchannel
  unfold Lenet.layer1
  simp only [relu_eq]
  exact hchannels _

/-- The arrays of the third layer are still 0. -/
structure Layer3.Quiet (st : Layer3) : Prop where
  imm : ∀ c, st.imm c = 0
  out : ∀ c, st.out c = 0

theorem channelSum_zero {f : ℕ → Byte} (hf : ∀ c, f c = 0) (c : ℕ) : channelSum f c = 0 :=
  Finset.sum_eq_zero fun _ _ => hf _

theorem Layer3.Quiet.layer3 {st : Layer3} (h : st.Quiet) (hinput : ∀ m, input m = 0) (weightConv : ℕ → Byte)
    (o : Layer3.Orders) : (layer3 weightConv input o st).Quiet := by
  obtain ⟨himm, hout⟩ := layer3_after weightConv input o st
  refine ⟨fun c => ?_, fun c => ?_⟩
  · rw [himm, h.imm c, rowProduct_zero hinput, ite_self, add_zero]
  · rw [hout, h.out c, channelSum_zero h.imm,
      channelSum_zero (fun n => rowProduct_zero hinput weightConv 25 n), add_zero,
      ite_self, add_zero]

/-- The state after `i` images. -/
structure Blind (w : Weights) (FC1out decision : ℕ → Byte) (i : ℕ) (st : Network) : Prop where
  l1 : st.l1.Quiet
  l2 : st.l2.Quiet
  l3 : st.l3.Quiet
  FC1out_eq : st.FC1out = FC1out
  decision_eq : ∀ c, st.decision c =
    if c < 10 * i then decision c + rowProduct w.FC2Mat FC1out 84 (c % 10) else decision c

theorem Blind.start (w : Weights) (FC1out decision : ℕ → Byte) :
    Blind w FC1out decision 0 (.start FC1out decision) where
  l1 := ⟨fun _ => rfl, fun _ => rfl⟩
  l2 := Layer2.Quiet.zeroed
  l3 := ⟨fun _ => rfl, fun _ => rfl⟩
  FC1out_eq := rfl
  decision_eq _ := rfl

theorem Blind.classify {w : Weights} {FC1out decision : ℕ → Byte} {i : ℕ} {st : Network}
    (h : Blind w FC1out decision i st)
    (L1in : ℕ → Byte) (o : Orders) : Blind w FC1out decision (i + 1) (classify w L1in o st i) := by
  have h1 := h.l1.layer1 w.L1weightConv w.L1weightPool (tail (i * 1024) L1in) o.layer1
  have h2 : (Lenet.classify w L1in o st i).l2.Quiet := h.l2.layer2 _ _ _ _
  have h3 : (Lenet.classify w L1in o st i).l3.Quiet := h.l3.layer3 h2.out _ _
  have hFC1 : (Lenet.classify w L1in o st i).FC1out = FC1out := by
    change mvmul w.FC1Mat (Lenet.classify w L1in o st i).l3.out (toByte 120) o.fc1 st.FC1out = FC1out
    rw [mvmul_eq _ _ _ _ o.fc1_perm, h.FC1out_eq]
    funext n
    rw [addProduct, rowProduct_zero h3.out, add_zero, ite_self]
  refine ⟨h1, h2, h3, hFC1, fun c => ?_⟩
  have hrows : (toByte 10).toNat = 10 ∧ (toByte 84).toNat = 84 := ⟨rfl, rfl⟩
  have hdecision : (Lenet.classify w L1in o st i).decision c = if i * 10 ≤ c ∧
      c < i * 10 + (toByte 10).toNat then
      st.decision c + rowProduct w.FC2Mat (Lenet.classify w L1in o st i).FC1out (toByte 84).toNat (c - i * 10)
      else st.decision c := onTail_mvmul o.fc2_perm _ _ _ _ c
  rw [hdecision, hFC1, hrows.1, hrows.2, h.decision_eq c]
  by_cases hbefore : c < 10 * i
  · rw [if_neg (by omega), if_pos hbefore, if_pos (by omega)]
  · rw [if_neg hbefore]
    by_cases hthis : c < i * 10 + 10
    · have hcell : c % 10 = c - i * 10 := by omega
      rw [if_pos ⟨by omega, hthis⟩, if_pos (by omega), hcell]
    · rw [if_neg (by omega), if_neg (by omega)]

/-- **The decisions do not depend on the images.** Whatever the images, the weights of the convolutions and
pools and the matrix of the first fully connected layer are, and in every order of the parallel loops, ten
bytes are decided for each image, which are those before plus the product of the last matrix with the output
that the first fully connected layer had before the program wrote to it. -/
theorem decisions_ignore_images (w : Weights) (L1in FC1out decision : ℕ → Byte) (o : ℕ → Orders) (I c : ℕ) :
    (lenetFull w L1in FC1out decision o I).decision c =
      if c < 10 * I then decision c + ∑ m ∈ Finset.range 84, w.FC2Mat (84 * (c % 10) + m) * FC1out m
      else decision c := by
  have hblind : ∀ I, Blind w FC1out decision I (lenetFull w L1in FC1out decision o I) := by
    intro I
    induction I with
    | zero => exact Blind.start w FC1out decision
    | succ I ih =>
        rw [lenetFull, List.range_succ, List.foldl_append]
        exact ih.classify L1in (o I)
  exact (hblind I).decision_eq c

end RacerArtifacts.Marss.Lenet
