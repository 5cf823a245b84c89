import RacerArtifacts.MarssPool

/-! `layer2` and `layer3` of the LeNet program, with the buffers that `main` sets to zero once, before the
first image. The kernels add to the buffers, so that a layer starts from what the image before has left. -/

namespace RacerArtifacts.Marss.Lenet

open Sweep

/-- `relu`, on its own input as all calls have it, its iterations executed in the given order. -/
def relu (order : List ℕ) (out : ℕ → Byte) : ℕ → Byte :=
  sweep (fun n out => Function.update out n (if out n > 0 then out n else 0)) order out

/-- `out[base + i] += in[start + i * width + j]` for the `i` of a parallel loop and all `j` below `width`. -/
def gather (input : ℕ → Byte) (start width base : ℕ) (order : List ℕ) (out : ℕ → Byte) : ℕ → Byte :=
  sweep (fun i => accumulate (fun j v => v + input (start + i * width + j)) (base + i)
    (List.range width)) order out

/-- The buffers of `layer2`. -/
structure Layer2 where
  imm0 : ℕ → Byte
  imm1 : ℕ → Byte
  out : ℕ → Byte

/-- The orders in which the parallel loops of a call of `layer2` run, channel by channel. -/
structure Layer2.Orders where
  conv : ℕ → List ℕ
  sum : ℕ → List ℕ
  pool : ℕ → List ℕ
  relu : List ℕ
  conv_perm : ∀ outchannel, (conv outchannel).Perm (mvmulRows (toByte (100 * 6)))
  sum_perm : ∀ outchannel, (sum outchannel).Perm (List.range 100)
  pool_perm : ∀ outchannel, (pool outchannel).Perm (mvmulForPoolRows 25)
  relu_perm : relu.Perm (List.range (25 * 16))

/-- The body of the loop of `layer2`. -/
def layer2Channel (weightConv weightPool input : ℕ → Byte) (o : Layer2.Orders) (st : Layer2)
    (outchannel : ℕ) :
    Layer2 :=
  let imm0 := onTail (outchannel * 100 * 6)
    (mvmul (tail (outchannel * 196 * 100 * 6) weightConv) input (toByte 196) (o.conv outchannel)) st.imm0
  let imm1 := gather imm0 (outchannel * 100 * 6) 6 (outchannel * 100) (o.sum outchannel) st.imm1
  let out := onTail (outchannel * 25)
    (mvmulForPool (tail (outchannel * 100 * 25) weightPool) (tail (outchannel * 100) imm1) 100
      (o.pool outchannel))
    st.out
  ⟨imm0, imm1, out⟩

/-- `layer2` -/
def layer2 (weightConv weightPool input : ℕ → Byte) (o : Layer2.Orders) (st : Layer2) : Layer2 :=
  let st := (List.range 16).foldl (layer2Channel weightConv weightPool input o) st
  { st with out := relu o.relu st.out }

/-- The buffers of `layer3`. -/
structure Layer3 where
  imm : ℕ → Byte
  out : ℕ → Byte

/-- The orders in which the parallel loops of a call of `layer3` run, channel by channel. -/
structure Layer3.Orders where
  conv : ℕ → List ℕ
  sum : ℕ → List ℕ
  conv_perm : ∀ outchannel, (conv outchannel).Perm (mvmulRows (toByte (1 * 16)))
  sum_perm : ∀ outchannel, (sum outchannel).Perm (List.range 1)

/-- The body of the loop of `layer3`. -/
def layer3Channel (weightConv input : ℕ → Byte) (o : Layer3.Orders) (st : Layer3) (outchannel : ℕ) : Layer3 :=
  let imm := onTail (outchannel * 1 * 16)
    (mvmul (tail (outchannel * 25 * 1 * 16) weightConv) input (toByte 25) (o.conv outchannel)) st.imm
  let out := gather imm (outchannel * 1 * 16) 16 (outchannel * 1) (o.sum outchannel) st.out
  ⟨imm, out⟩

/-- `layer3` -/
def layer3 (weightConv input : ℕ → Byte) (o : Layer3.Orders) (st : Layer3) : Layer3 :=
  (List.range 120).foldl (layer3Channel weightConv input o) st

/-- The buffers as `main` sets them before the first image. -/
def Layer2.zeroed : Layer2 :=
  ⟨fun _ => 0, fun _ => 0, fun _ => 0⟩

def Layer3.zeroed : Layer3 :=
  ⟨fun _ => 0, fun _ => 0⟩

/-- The orders of a run without threads. -/
def Layer3.Orders.inOrder : Layer3.Orders where
  conv := fun _ => mvmulRows (toByte (1 * 16))
  sum := fun _ => List.range 1
  conv_perm := fun _ => List.Perm.refl _
  sum_perm := fun _ => List.Perm.refl _

/-- A call of `layer2` on `b` leaves the same output from the buffers of a call on `a` as from zeros. -/
def Layer2.KeepsApart (weightConv weightPool a b : ℕ → Byte) : Prop :=
  ∀ o o' o'', (layer2 weightConv weightPool b o' (layer2 weightConv weightPool a o Layer2.zeroed)).out =
    (layer2 weightConv weightPool b o'' Layer2.zeroed).out

/-- A call of `layer3` on `b` leaves the same output from the buffers of a call on `a` as from zeros. -/
def Layer3.KeepsApart (weightConv a b : ℕ → Byte) : Prop :=
  ∀ o o' o'', (layer3 weightConv b o' (layer3 weightConv a o Layer3.zeroed)).out =
    (layer3 weightConv b o'' Layer3.zeroed).out

variable {weightConv weightPool input : ℕ → Byte} {order : List ℕ}

/-- Bytes have no sign: `relu` changes nothing. -/
theorem relu_eq (order : List ℕ) (out : ℕ → Byte) : relu order out = out := by
  funext c
  apply sweep_untouched
  intro n _ y
  have hvalue : (if y n > 0 then y n else 0) = y n := by
    by_cases hy : y n > 0
    · rw [if_pos hy]
    · rw [if_neg hy]
      exact (BitVec.eq_of_toNat_eq (Nat.eq_zero_of_not_pos hy)).symm
  rw [hvalue, Function.update_eq_self]

theorem gather_eq {size : ℕ} (horder : order.Perm (List.range size)) (input : ℕ → Byte) (start width base : ℕ)
    (out : ℕ → Byte) :
    (∀ i < size, gather input start width base order out (base + i) =
        out (base + i) + ∑ j ∈ Finset.range width, input (start + i * width + j)) ∧
      ∀ c, (∀ i < size, c ≠ base + i) → gather input start width base order out c = out c := by
  have hmem : ∀ i, i ∈ order ↔ i < size := fun i => horder.mem_iff.trans List.mem_range
  obtain ⟨hown, hother⟩ := sweep_accumulate (fun i j v => v + input (start + i * width + j))
      (List.range width)
    (add_right_injective base) (horder.nodup_iff.mpr List.nodup_range) out
  constructor
  · intro i hi
    have hcell := hown i ((hmem i).mpr hi)
    rw [foldl_range_add] at hcell
    exact hcell
  · intro c hc
    exact hother c fun i hi => hc i ((hmem i).mp hi)

/-- `mvmul` on a part of a buffer. -/
theorem onTail_mvmul {M N : Byte} (horder : order.Perm (mvmulRows N)) (Mat vec : ℕ → Byte) (base : ℕ)
    (out : ℕ → Byte) (c : ℕ) :
    onTail base (mvmul Mat vec M order) out c =
      if base ≤ c ∧ c < base + N.toNat then out c + rowProduct Mat vec M.toNat (c - base) else out c := by
  by_cases hc : c < base
  · rw [onTail_of_lt hc, if_neg (by omega)]
  · obtain ⟨k, rfl⟩ : ∃ k, c = base + k := ⟨c - base, by omega⟩
    rw [onTail_add, mvmul_eq Mat vec M N horder, addProduct, Nat.add_sub_cancel_left]
    exact if_congr (by omega) rfl rfl

/-- What the buffers of `layer2` always are. Of the 600 rows of a channel the `uint8_t` leaves 88, so that
only the first 15 sums of a channel can be other than zero, and the columns of zeros behind them double each
cell of the output 85 times. -/
structure Layer2.Quiet (st : Layer2) : Prop where
  imm0 : ∀ c, 88 ≤ c % 600 → st.imm0 c = 0
  imm1 : ∀ c, 15 ≤ c % 100 → st.imm1 c = 0
  out : ∀ c, st.out c = 0

theorem Layer2.Quiet.zeroed : Layer2.Quiet Layer2.zeroed :=
  ⟨fun _ _ => rfl, fun _ _ => rfl, fun _ => rfl⟩

theorem conv_quiet {imm0 : ℕ → Byte} (himm0 : ∀ c, 88 ≤ c % 600 → imm0 c = 0) (Mat input : ℕ → Byte)
    (M : Byte) {outchannel : ℕ} (horder : order.Perm (mvmulRows (toByte (100 * 6)))) {c : ℕ}
    (hc : 88 ≤ c % 600) :
    onTail (outchannel * 100 * 6) (mvmul Mat input M order) imm0 c = 0 := by
  have hrows : (toByte (100 * 6)).toNat = 88 := rfl
  rw [onTail_mvmul horder, hrows, if_neg, himm0 c hc]
  omega

theorem sum_quiet {imm0 imm1 : ℕ → Byte} (himm0 : ∀ c, 88 ≤ c % 600 → imm0 c = 0)
    (himm1 : ∀ c, 15 ≤ c % 100 → imm1 c = 0) {outchannel : ℕ} (horder : order.Perm (List.range 100)) {c : ℕ}
    (hc : 15 ≤ c % 100) : gather imm0 (outchannel * 100 * 6) 6 (outchannel * 100) order imm1 c = 0 := by
  obtain ⟨hown, hother⟩ := gather_eq horder imm0 (outchannel * 100 * 6) 6 (outchannel * 100) imm1
  by_cases hcell : ∃ i < 100, c = outchannel * 100 + i
  · obtain ⟨i, hi, rfl⟩ := hcell
    rw [hown i hi, himm1 _ hc, zero_add]
    apply Finset.sum_eq_zero
    intro j hj
    have := Finset.mem_range.mp hj
    apply himm0
    omega
  · push Not at hcell
    rw [hother c hcell, himm1 c hc]

theorem pool_quiet {imm1 out : ℕ → Byte} (himm1 : ∀ c, 15 ≤ c % 100 → imm1 c = 0) (hout : ∀ c, out c = 0)
    (Mat : ℕ → Byte) {outchannel : ℕ} (horder : order.Perm (mvmulForPoolRows 25)) (c : ℕ) :
    onTail (outchannel * 25) (mvmulForPool Mat (tail (outchannel * 100) imm1) 100 order) out c = 0 := by
  by_cases hc : c < outchannel * 25
  · rw [onTail_of_lt hc, hout c]
  · obtain ⟨k, rfl⟩ : ∃ k, c = outchannel * 25 + k := ⟨c - outchannel * 25, by omega⟩
    have hbefore : tail (outchannel * 25) out k = 0 := hout _
    rw [onTail_add, mvmulForPool_eq _ _ 100 horder, hbefore]
    split
    · apply poolRun_fades 0 15 (by decide)
      intro m hm hm'
      have hvec : tail (outchannel * 100) imm1 m = 0 := himm1 _ (by omega)
      rw [andProduct, hvec]
      exact BitVec.and_zero
    · rfl

/-- One channel of `layer2`. -/
theorem Layer2.Quiet.channel {st : Layer2} (h : st.Quiet) (weightConv weightPool input : ℕ → Byte)
    (o : Layer2.Orders) (outchannel : ℕ) :
    (layer2Channel weightConv weightPool input o st outchannel).Quiet := by
  have hconv : ∀ c, 88 ≤ c % 600 → (layer2Channel weightConv weightPool input o st outchannel).imm0 c = 0 :=
    fun c hc => conv_quiet h.imm0 _ _ _ (o.conv_perm outchannel) hc
  have hsum : ∀ c, 15 ≤ c % 100 → (layer2Channel weightConv weightPool input o st outchannel).imm1 c = 0 :=
    fun c hc => sum_quiet hconv h.imm1 (o.sum_perm outchannel) hc
  exact ⟨hconv, hsum, pool_quiet hsum h.out _ (o.pool_perm outchannel)⟩

/-- A call of `layer2`. -/
theorem Layer2.Quiet.layer2 {st : Layer2} (h : st.Quiet) (weightConv weightPool input : ℕ → Byte)
    (o : Layer2.Orders) : (layer2 weightConv weightPool input o st).Quiet := by
  have hchannels : ∀ l : List ℕ, (l.foldl (layer2Channel weightConv weightPool input o) st).Quiet := by
    intro l
    induction l using List.reverseRecOn with
    | nil => exact h
    | append_singleton l outchannel ih =>
        rw [List.foldl_append]
        exact ih.channel weightConv weightPool input o outchannel
  unfold Lenet.layer2
  simp only [relu_eq]
  exact hchannels _

/-- The rows of a channel of `layer3` are rows of the whole matrix. -/
theorem rowProduct_tail (weightConv input : ℕ → Byte) (k j : ℕ) :
    rowProduct (tail (k * 25 * 1 * 16) weightConv) input 25 j =
      rowProduct weightConv input 25 (16 * k + j) := by
  apply Finset.sum_congr rfl
  intro m _
  show weightConv (k * 25 * 1 * 16 + (25 * j + m)) * input m = _
  congr 2
  ring

theorem layer3Channel_imm (weightConv input : ℕ → Byte) (o : Layer3.Orders) (st : Layer3) (k c : ℕ) :
    (layer3Channel weightConv input o st k).imm c =
      st.imm c + if 16 * k ≤ c ∧ c < 16 * (k + 1) then rowProduct weightConv input 25 c else 0 := by
  have hrows : (toByte (1 * 16)).toNat = 16 := rfl
  have hcolumns : (toByte 25).toNat = 25 := rfl
  simp only [layer3Channel]
  rw [onTail_mvmul (o.conv_perm k), hrows, hcolumns, rowProduct_tail]
  by_cases hc : 16 * k ≤ c ∧ c < 16 * (k + 1)
  · rw [if_pos (by omega), if_pos hc]
    congr 2
    omega
  · rw [if_neg (by omega), if_neg hc, add_zero]

/-- The sum of what a channel of `layer3` has. -/
def channelSum (f : ℕ → Byte) (c : ℕ) : Byte :=
  ∑ j ∈ Finset.range 16, f (16 * c + j)

theorem layer3Channel_out (weightConv input : ℕ → Byte) (o : Layer3.Orders) (st : Layer3) (k c : ℕ) :
    (layer3Channel weightConv input o st k).out c =
      st.out c + if c = k then channelSum (layer3Channel weightConv input o st k).imm k else 0 := by
  simp only [layer3Channel, channelSum]
  set imm := onTail (k * 1 * 16) (mvmul (tail (k * 25 * 1 * 16) weightConv) input (toByte 25)
    (o.conv k)) st.imm
  obtain ⟨hown, hother⟩ := gather_eq (o.sum_perm k) imm (k * 1 * 16) 16 (k * 1) st.out
  by_cases hc : c = k
  · subst hc
    have hcell := hown 0 Nat.one_pos
    rw [if_pos rfl]
    simpa [mul_comm] using hcell
  · rw [if_neg hc, add_zero]
    apply hother
    omega

/-- `layer3` after its first `k` channels: what the buffers had stays in their sums. -/
structure Layer3.After (weightConv input : ℕ → Byte) (st₀ : Layer3) (k : ℕ) (st : Layer3) : Prop where
  imm : ∀ c, st.imm c = st₀.imm c + if c < 16 * k then rowProduct weightConv input 25 c else 0
  out : ∀ c, st.out c =
    st₀.out c + if c < k then channelSum st₀.imm c + channelSum (rowProduct weightConv input 25) c else 0

/-- One channel of `layer3`. -/
theorem Layer3.After.channel {st₀ st : Layer3} {k : ℕ} (h : Layer3.After weightConv input st₀ k st)
    (o : Layer3.Orders) : Layer3.After weightConv input st₀ (k + 1)
    (layer3Channel weightConv input o st k) := by
  have himm : ∀ c, (layer3Channel weightConv input o st k).imm c =
      st₀.imm c + if c < 16 * (k + 1) then rowProduct weightConv input 25 c else 0 := by
    intro c
    rw [layer3Channel_imm, h.imm c, add_assoc]
    congr 1
    by_cases hnew : 16 * k ≤ c
    · rw [if_neg (by omega), zero_add]
      exact if_congr (by omega) rfl rfl
    · rw [if_pos (by omega), if_neg (by omega), if_pos (by omega), add_zero]
  refine ⟨himm, fun c => ?_⟩
  rw [layer3Channel_out, h.out c, add_assoc]
  congr 1
  by_cases hc : c = k
  · subst hc
    rw [if_neg (lt_irrefl c), if_pos rfl, if_pos (Nat.lt_succ_self c), zero_add]
    unfold channelSum
    rw [← Finset.sum_add_distrib]
    apply Finset.sum_congr rfl
    intro j hj
    have := Finset.mem_range.mp hj
    rw [himm, if_pos (by omega)]
  · rw [if_neg hc, add_zero]
    exact if_congr (by omega) rfl rfl

/-- A call of `layer3`. -/
theorem layer3_after (weightConv input : ℕ → Byte) (o : Layer3.Orders) (st₀ : Layer3) :
    Layer3.After weightConv input st₀ 120 (layer3 weightConv input o st₀) := by
  have hchannels : ∀ k, Layer3.After weightConv input st₀ k
      ((List.range k).foldl (layer3Channel weightConv input o) st₀) := by
    intro k
    induction k with
    | zero => exact ⟨fun c => by simp, fun c => by simp⟩
    | succ k ih =>
        rw [List.range_succ, List.foldl_append]
        exact ih.channel o
  exact hchannels 120

theorem layer3_alone (weightConv input : ℕ → Byte) (o : Layer3.Orders) (c : ℕ) :
    (layer3 weightConv input o Layer3.zeroed).out c =
      if c < 120 then channelSum (rowProduct weightConv input 25) c else 0 := by
  have hzero : channelSum Layer3.zeroed.imm c = 0 := Finset.sum_eq_zero fun _ _ => rfl
  rw [(layer3_after weightConv input o Layer3.zeroed).out, hzero, zero_add]
  exact zero_add _

/-- After another call, they stand on twice the sums of the image before. -/
theorem layer3_second (weightConv a b : ℕ → Byte) (o o' : Layer3.Orders) (c : ℕ) :
    (layer3 weightConv b o' (layer3 weightConv a o Layer3.zeroed)).out c =
      if c < 120 then channelSum (rowProduct weightConv a 25) c + channelSum (rowProduct weightConv a 25) c +
        channelSum (rowProduct weightConv b 25) c else 0 := by
  have hfirst := layer3_after weightConv a o Layer3.zeroed
  rw [(layer3_after weightConv b o' _).out, layer3_alone]
  by_cases hc : c < 120
  · have himm : channelSum (layer3 weightConv a o Layer3.zeroed).imm c =
        channelSum (rowProduct weightConv a 25) c := by
      apply Finset.sum_congr rfl
      intro j hj
      have := Finset.mem_range.mp hj
      rw [hfirst.imm, if_pos (by omega)]
      exact zero_add _
    rw [if_pos hc, if_pos hc, if_pos hc, himm, add_assoc]
  · rw [if_neg hc, if_neg hc, if_neg hc, add_zero]

theorem add_self_eq_zero_iff (x : Byte) : x + x = 0 ↔ 128 ∣ x.toNat := by
  have hx := x.isLt
  rw [← BitVec.toNat_inj, BitVec.toNat_add]
  change (x.toNat + x.toNat) % 2 ^ 8 = 0 ↔ 128 ∣ x.toNat
  omega

theorem toNat_sum {ι : Type*} (s : Finset ι) (f : ι → Byte) :
    (∑ i ∈ s, f i).toNat = (∑ i ∈ s, (f i).toNat) % 2 ^ 8 := by
  classical
  induction s using Finset.induction_on with
  | empty => rfl
  | insert i s hi ih => rw [Finset.sum_insert hi, Finset.sum_insert hi, BitVec.toNat_add, ih, Nat.add_mod_mod]

theorem rowProduct_toNat (Mat vec : ℕ → Byte) (M n : ℕ) :
    (rowProduct Mat vec M n).toNat =
      (∑ m ∈ Finset.range M, (Mat (M * n + m)).toNat * (vec m).toNat) % 2 ^ 8 := by
  rw [rowProduct, toNat_sum]
  simp only [BitVec.toNat_mul]
  rw [← Finset.sum_nat_mod]

theorem channelSum_toNat (weightConv input : ℕ → Byte) (c : ℕ) :
    (channelSum (rowProduct weightConv input 25) c).toNat =
      (∑ j ∈ Finset.range 16, ∑ m ∈ Finset.range 25,
        (weightConv (25 * (16 * c + j) + m)).toNat * (input m).toNat) % 2 ^ 8 := by
  rw [channelSum, toNat_sum]
  simp only [rowProduct_toNat]
  rw [← Finset.sum_nat_mod]

theorem Layer2.keepsApart (weightConv weightPool a b : ℕ → Byte) :
    Layer2.KeepsApart weightConv weightPool a b := by
  intro o o' o''
  funext c
  have hfirst := Layer2.Quiet.zeroed.layer2 weightConv weightPool a o
  rw [(hfirst.layer2 weightConv weightPool b o').out,
    (Layer2.Quiet.zeroed.layer2 weightConv weightPool b o'').out]

theorem Layer3.keepsApart_iff (weightConv a b : ℕ → Byte) :
    Layer3.KeepsApart weightConv a b ↔ ∀ outchannel < 120,
      128 ∣ ∑ j ∈ Finset.range 16, ∑ m ∈ Finset.range 25,
        (weightConv (25 * (16 * outchannel + j) + m)).toNat * (a m).toNat := by
  have hchannel : ∀ c, 128 ∣ (∑ j ∈ Finset.range 16, ∑ m ∈ Finset.range 25,
      (weightConv (25 * (16 * c + j) + m)).toNat * (a m).toNat) ↔
        channelSum (rowProduct weightConv a 25) c + channelSum (rowProduct weightConv a 25) c = 0 := by
    intro c
    rw [add_self_eq_zero_iff, channelSum_toNat]
    omega
  simp only [hchannel]
  constructor
  · intro h c hc
    have hout := congrFun (h Layer3.Orders.inOrder Layer3.Orders.inOrder Layer3.Orders.inOrder) c
    rw [layer3_second, layer3_alone, if_pos hc, if_pos hc] at hout
    exact add_eq_right.mp hout
  · intro h o o' o''
    funext c
    rw [layer3_second, layer3_alone]
    by_cases hc : c < 120
    · rw [if_pos hc, if_pos hc, h c hc, zero_add]
    · rw [if_neg hc, if_neg hc]

/-- **When the layers keep images apart**: `layer2` always does, its output being zero; `layer3` does exactly
if, for every channel, the sum that the first image has there is a multiple of 128. -/
theorem layers_independent_iff (weightConv2 weightPool2 a2 b2 weightConv3 a3 b3 : ℕ → Byte) :
    Layer2.KeepsApart weightConv2 weightPool2 a2 b2 ∧
      (Layer3.KeepsApart weightConv3 a3 b3 ↔ ∀ outchannel < 120,
        128 ∣ ∑ j ∈ Finset.range 16, ∑ m ∈ Finset.range 25,
          (weightConv3 (25 * (16 * outchannel + j) + m)).toNat * (a3 m).toNat) :=
  ⟨Layer2.keepsApart weightConv2 weightPool2 a2 b2, Layer3.keepsApart_iff weightConv3 a3 b3⟩

/-- One weight of `1` and a first image with a `1` before it: the image of zeros that comes next has a `2`. -/
theorem layer3_leaks : ¬ ∀ weightConv a b, Layer3.KeepsApart weightConv a b := by
  intro h
  have hout := congrFun (h (fun k => if k = 0 then 1 else 0) (fun m => if m = 0 then 1 else 0) (fun _ => 0)
    Layer3.Orders.inOrder Layer3.Orders.inOrder Layer3.Orders.inOrder) 0
  rw [layer3_second, layer3_alone] at hout
  exact absurd hout (by decide)

end RacerArtifacts.Marss.Lenet
