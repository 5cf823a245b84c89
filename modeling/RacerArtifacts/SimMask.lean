import RacerArtifacts.LibFallible
import RacerArtifacts.SimPrograms

/-! The mask as a set of active multi-words. A configuration instruction decodes to an operation on the mask;
what the operation is for is an operation on a set of ids. The mask represents the set as long as no
instruction activates an id that is active already: SET and SETBULK append without looking. -/

namespace RacerArtifacts.Sim

open Fallible

/-- What a configuration instruction asks for. -/
inductive MaskOp where
  | setAll
  | unsetAll
  | set (id : ℤ)
  | unset (id : ℤ)
  | setBulk (start num step : ℤ)
  | unsetBulk (start stop step : ℤ)
  deriving DecidableEq, Repr

/-- The opcodes that `configSetup` carries out. -/
def maskOpCodes : List String := ["SETALL", "UNSETALL", "SET", "UNSET", "SETBULK", "UNSETBULK"]

/-- The operation of an instruction with one of the opcodes; `none` for any other. -/
def Instruction.maskOp (ins : Instruction) : Except PyError (Option MaskOp) :=
  if ins.opCode = "SETALL" then .ok (some .setAll)
  else if ins.opCode = "UNSETALL" then .ok (some .unsetAll)
  else if ins.opCode = "SET" then do
    let id ← ins.int 1
    return some (.set id)
  else if ins.opCode = "UNSET" then do
    let id ← ins.int 1
    return some (.unset id)
  else if ins.opCode = "SETBULK" then do
    let start ← ins.int 1
    let num ← ins.int 2
    let step ← ins.int 3
    return some (.setBulk start num step)
  else if ins.opCode = "UNSETBULK" then do
    let start ← ins.int 1
    let stop ← ins.int 2
    let step ← ins.int 3
    return some (.unsetBulk start stop step)
  else .ok none

namespace MaskOp

/-- What the operation makes of the mask, as `configSetup` computes it. -/
def run (units : ℕ) (mask : List ℤ) : MaskOp → Except PyError (List ℤ)
  | setAll => .ok ((List.range units).map fun i : ℕ => (i : ℤ))
  | unsetAll => .ok []
  | set id => .ok (mask ++ [id])
  | unset id => pyRemove mask id
  | setBulk start num step => do
    let ids ← pyRange start (start + num * step) step
    return mask ++ ids
  | unsetBulk start stop step => do
    let ids ← pyRange start stop step
    ids.foldlM pyRemove mask

/-- `start, start + step, ...`: the ids in front of `stop`. -/
def upTo (start stop step : ℤ) : Set ℤ :=
  {id | ∃ i : ℕ, id = start + i * step ∧ (0 < step → id < stop) ∧ (step < 0 → stop < id)}

/-- `start, start + step, ...`: `num` ids. -/
def bulk (start num step : ℤ) : Set ℤ :=
  {id | ∃ i : ℕ, (i : ℤ) < num ∧ id = start + i * step}

theorem mem_upTo {start stop step id : ℤ} :
    id ∈ upTo start stop step ↔
      ∃ i : ℕ, id = start + i * step ∧ (0 < step → id < stop) ∧ (step < 0 → stop < id) := Iff.rfl

theorem mem_bulk {start num step id : ℤ} :
    id ∈ bulk start num step ↔ ∃ i : ℕ, (i : ℤ) < num ∧ id = start + i * step := Iff.rfl

/-- The ids the operation activates one by one. -/
def activated : MaskOp → Set ℤ
  | set id => {id}
  | setBulk start num step => bulk start num step
  | _ => ∅

/-- What the operation is for: the active set after it. -/
def active (units : ℕ) (s : Set ℤ) : MaskOp → Set ℤ
  | setAll => {id | 0 ≤ id ∧ id < units}
  | unsetAll => ∅
  | set id => insert id s
  | unset id => s \ {id}
  | setBulk start num step => s ∪ bulk start num step
  | unsetBulk start stop step => s \ upTo start stop step

/-- The active set after a sequence of operations. -/
def activeAfter (units : ℕ) (s : Set ℤ) (ops : List MaskOp) : Set ℤ :=
  ops.foldl (active units) s

end MaskOp

/-- The mask is the set, each id once. -/
structure Represents (mask : List ℤ) (s : Set ℤ) : Prop where
  nodup : mask.Nodup
  mem_iff : ∀ id, id ∈ mask ↔ id ∈ s

variable {units : ℕ} {mask mask' : List ℤ} {s : Set ℤ}

/-! ### Ranges -/

theorem lt_rangeCount_iff {step span : ℤ} (hstep : 0 < step) (i : ℕ) :
    i < ((span + step - 1) / step).toNat ↔ i * step < span := by
  have hcount : (i : ℤ) + 1 ≤ (span + step - 1) / step ↔ ((i : ℤ) + 1) * step ≤ span + step - 1 :=
    Int.le_ediv_iff_mul_le hstep
  rw [add_mul, one_mul] at hcount
  omega

/-- A range is an arithmetic progression, of the ids in front of its end. -/
theorem pyRange_ok {start stop step : ℤ} {ids : List ℤ} (h : pyRange start stop step = .ok ids) :
    ids.Nodup ∧ ∀ id, id ∈ ids ↔ id ∈ MaskOp.upTo start stop step := by
  by_cases hzero : step = 0
  · rw [pyRange, if_pos hzero] at h
    cases h
  rw [pyRange, if_neg hzero] at h
  cases h
  constructor
  · apply List.Nodup.map _ List.nodup_range
    intro i j hij
    have hmul : (i : ℤ) * step = j * step := add_left_cancel hij
    exact Int.ofNat_inj.mp (mul_right_cancel₀ hzero hmul)
  · intro id
    rw [MaskOp.mem_upTo]
    simp only [List.mem_map, List.mem_range]
    apply exists_congr
    intro i
    rcases lt_or_gt_of_ne hzero with hneg | hpos
    · have hcount : i < ((start - stop + -step - 1) / -step).toNat ↔ i * -step < start - stop :=
        lt_rangeCount_iff (Int.neg_pos.mpr hneg) i
      rw [mul_neg, ← sub_eq_add_neg] at hcount
      rw [if_neg (by omega), hcount]
      constructor
      · rintro ⟨hi, rfl⟩
        exact ⟨rfl, fun hpos => by omega, fun _ => by omega⟩
      · rintro ⟨rfl, -, hdown⟩
        have := hdown hneg
        exact ⟨by omega, rfl⟩
    · rw [if_pos hpos, lt_rangeCount_iff hpos]
      constructor
      · rintro ⟨hi, rfl⟩
        exact ⟨rfl, fun _ => by omega, fun hneg => by omega⟩
      · rintro ⟨rfl, hup, -⟩
        have := hup hpos
        exact ⟨by omega, rfl⟩

/-- The range of a SETBULK has as many ids as the instruction says. -/
theorem upTo_eq_bulk {start num step : ℤ} (hstep : step ≠ 0) :
    MaskOp.upTo start (start + num * step) step = MaskOp.bulk start num step := by
  ext id
  rw [MaskOp.mem_upTo, MaskOp.mem_bulk]
  apply exists_congr
  intro i
  rw [and_comm]
  apply and_congr_left
  rintro rfl
  rcases lt_or_gt_of_ne hstep with hneg | hpos
  · have hlt : start + num * step < start + i * step ↔ (i : ℤ) < num := by
      rw [add_lt_add_iff_left, mul_lt_mul_right_of_neg hneg]
    rw [hlt]
    exact ⟨fun h => h.2 hneg, fun h => ⟨fun hpos => by omega, fun _ => h⟩⟩
  · have hlt : start + i * step < start + num * step ↔ (i : ℤ) < num := by
      rw [add_lt_add_iff_left, mul_lt_mul_iff_left₀ hpos]
    rw [hlt]
    exact ⟨fun h => h.1 hpos, fun h => ⟨fun _ => h, fun hneg => by omega⟩⟩

theorem pyRange_setBulk_ok {start num step : ℤ} {ids : List ℤ}
    (h : pyRange start (start + num * step) step = .ok ids) :
    ids.Nodup ∧ ∀ id, id ∈ ids ↔ id ∈ MaskOp.bulk start num step := by
  have hstep : step ≠ 0 := by
    rintro rfl
    rw [pyRange, if_pos rfl] at h
    cases h
  rw [← upTo_eq_bulk hstep]
  exact pyRange_ok h

/-- Removing ids one by one succeeds when they are all there, and leaves the difference. -/
theorem foldlM_pyRemove_ok_iff {ids m : List ℤ} :
    ids.foldlM pyRemove mask = .ok m ↔ ids.Subperm mask ∧ m = mask.diff ids := by
  constructor
  · intro h
    suffices hsub : ids.Subperm mask by
      rw [foldlM_pyRemove hsub] at h
      exact ⟨hsub, (Except.ok.inj h).symm⟩
    induction ids generalizing mask with
    | nil => exact List.nil_subperm
    | cons id ids ih =>
        rw [List.foldlM_cons] at h
        obtain ⟨mask₁, hstep, hrest⟩ := bind_ok h
        unfold pyRemove at hstep
        split_ifs at hstep with hmem
        cases hstep
        exact ((List.subperm_cons id).mpr (ih hrest)).trans (List.perm_cons_erase hmem).symm.subperm
  · rintro ⟨hsub, rfl⟩
    exact foldlM_pyRemove hsub

/-! ### Operations -/

/-- An instruction with one of the six opcodes is its operation. -/
theorem configStep_eq (units : ℕ) (mask : List ℤ) (ins : Instruction) :
    configStep units mask ins = ins.maskOp >>= fun op? => (op?.elim (.ok mask) (MaskOp.run units mask)) := by
  unfold configStep Instruction.maskOp
  split_ifs
  · rfl
  · rfl
  · cases ins.int 1 <;> rfl
  · cases ins.int 1 <;> rfl
  · cases ins.int 1 <;> [rfl; (cases ins.int 2 <;> [rfl; (cases ins.int 3 <;> rfl)])]
  · cases ins.int 1 <;> [rfl; (cases ins.int 2 <;> [rfl; (cases ins.int 3 <;> rfl)])]
  · rfl

theorem configStep_maskOp {ins : Instruction} {op : MaskOp} (hop : ins.maskOp = .ok (some op)) :
    configStep units mask ins = op.run units mask := by
  rw [configStep_eq, hop]
  rfl

/-- Appending ids keeps the mask a set exactly when none of them is active. -/
theorem Represents.append_iff (h : Represents mask s) {ids : List ℤ} (hids : ids.Nodup) {t : Set ℤ}
    (hmem : ∀ id, id ∈ ids ↔ id ∈ t) : Represents (mask ++ ids) (s ∪ t) ↔ Disjoint t s := by
  have hdisjoint : Disjoint t s ↔ mask.Disjoint ids := by
    rw [Set.disjoint_right]
    exact forall_congr' fun id => by rw [h.mem_iff, hmem]
  rw [hdisjoint]
  constructor
  · intro happend
    exact List.disjoint_of_nodup_append happend.nodup
  · intro hfree
    refine ⟨h.nodup.append hids hfree, fun id => ?_⟩
    rw [List.mem_append, h.mem_iff, hmem]
    rfl

theorem Represents.diff (h : Represents mask s) {ids : List ℤ} {t : Set ℤ} (hmem : ∀ id, id ∈ ids ↔ id ∈ t) :
    Represents (mask.diff ids) (s \ t) := by
  refine ⟨h.nodup.diff, fun id => ?_⟩
  rw [h.nodup.mem_sdiff_iff, h.mem_iff, hmem]
  rfl

/-- **One operation** keeps the mask the set it should be, exactly when no id that it activates is active. -/
theorem Represents.run_iff (h : Represents mask s) {op : MaskOp} (hrun : op.run units mask = .ok mask') :
    Represents mask' (op.active units s) ↔ Disjoint op.activated s := by
  cases op with
  | setAll =>
      cases hrun
      refine iff_of_true ⟨?_, fun id => ?_⟩ (Set.empty_disjoint s)
      · exact List.nodup_range.map fun i j hij => Int.ofNat_inj.mp hij
      · rw [List.mem_map]
        constructor
        · rintro ⟨i, hi, rfl⟩
          exact ⟨Int.natCast_nonneg i, Int.ofNat_lt.mpr (List.mem_range.mp hi)⟩
        · rintro ⟨hnonneg, hlt⟩
          exact ⟨id.toNat, List.mem_range.mpr (by omega), Int.toNat_of_nonneg hnonneg⟩
  | unsetAll =>
      cases hrun
      refine iff_of_true ⟨List.nodup_nil, fun id => ?_⟩ (Set.empty_disjoint s)
      exact iff_of_false List.not_mem_nil (Set.notMem_empty id)
  | set id =>
      cases hrun
      have happend := h.append_iff (List.nodup_singleton id) (t := {id}) fun _ => List.mem_singleton
      rwa [Set.union_singleton] at happend
  | unset id =>
      obtain ⟨-, rfl⟩ := foldlM_pyRemove_ok_iff.mp (show [id].foldlM pyRemove mask = _ by
        rw [List.foldlM_cons]
        change pyRemove mask id >>= pure = _
        rw [bind_pure]
        exact hrun)
      exact iff_of_true (h.diff fun _ => List.mem_singleton) (Set.empty_disjoint s)
  | setBulk start num step =>
      obtain ⟨ids, hids, hrun⟩ := bind_ok hrun
      cases hrun
      obtain ⟨hnodup, hmem⟩ := pyRange_setBulk_ok hids
      exact h.append_iff hnodup hmem
  | unsetBulk start stop step =>
      obtain ⟨ids, hids, hrun⟩ := bind_ok hrun
      obtain ⟨-, rfl⟩ := foldlM_pyRemove_ok_iff.mp hrun
      exact iff_of_true (h.diff (pyRange_ok hids).2) (Set.empty_disjoint s)

/-! ### Sequences of operations -/

/-- **A sequence of operations** carried out from a set: the mask is the set it should be after each of them,
exactly when none activates an id that is active already. -/
theorem Represents.foldlM_iff {ops : List MaskOp} (h : Represents mask s)
    (hrun : ops.foldlM (MaskOp.run units) mask = .ok mask') :
    (∀ k ≤ ops.length, ∀ m, (ops.take k).foldlM (MaskOp.run units) mask = .ok m →
        Represents m (MaskOp.activeAfter units s (ops.take k))) ↔
      ∀ k (hk : k < ops.length), Disjoint ops[k].activated (MaskOp.activeAfter units s (ops.take k)) := by
  induction ops generalizing mask s with
  | nil =>
      refine iff_of_true (fun k hk m hm => ?_) fun k hk => absurd hk (Nat.not_lt_zero k)
      rw [List.take_nil] at hm ⊢
      cases hm
      exact h
  | cons op ops ih =>
      rw [List.foldlM_cons] at hrun
      obtain ⟨mask₁, hop, hrest⟩ := bind_ok hrun
      have htake : ∀ k m, ((op :: ops).take (k + 1)).foldlM (MaskOp.run units) mask = .ok m ↔
          (ops.take k).foldlM (MaskOp.run units) mask₁ = .ok m := by
        intro k m
        rw [List.take_succ_cons, List.foldlM_cons, hop]
        rfl
      constructor
      · intro hall
        have hfirst : Represents mask₁ (op.active units s) :=
          hall 1 (Nat.succ_le_succ (Nat.zero_le _)) mask₁ ((htake 0 mask₁).mpr rfl)
        have hlater := (ih hfirst hrest).mp fun k hk m hm =>
          hall (k + 1) (Nat.succ_le_succ hk) m ((htake k m).mpr hm)
        intro k hk
        cases k with
        | zero => exact (h.run_iff hop).mp hfirst
        | succ k => exact hlater k (Nat.lt_of_succ_lt_succ hk)
      · intro hfree k hk m hm
        have hfirst : Represents mask₁ (op.active units s) :=
          (h.run_iff hop).mpr (hfree 0 (Nat.succ_pos _))
        cases k with
        | zero =>
            cases hm
            exact h
        | succ k =>
            apply (ih hfirst hrest).mpr _ k (Nat.le_of_succ_le_succ hk) m ((htake k m).mp hm)
            intro j hj
            exact hfree (j + 1) (Nat.succ_lt_succ hj)

/-- The instructions decode to the operations. -/
def Decodes (program : List Instruction) (ops : List MaskOp) : Prop :=
  List.Forall₂ (fun ins op => ins.maskOp = .ok (some op)) program ops

/-- The operations that instructions decode to are determined. -/
theorem Decodes.unique {program : List Instruction} {ops ops' : List MaskOp} (h : Decodes program ops)
    (h' : Decodes program ops') : ops = ops' :=
  List.right_unique_forall₂' (fun _ _ _ hop hop' =>
    Option.some.inj (Except.ok.inj (hop.symm.trans hop'))) h h'

theorem Decodes.foldlM_eq {program : List Instruction} {ops : List MaskOp} (h : Decodes program ops)
    (mask : List ℤ) : program.foldlM (configStep units) mask = ops.foldlM (MaskOp.run units) mask := by
  unfold Decodes at h
  induction h generalizing mask with
  | nil => rfl
  | cons hop _ ih =>
      rw [List.foldlM_cons, List.foldlM_cons, configStep_maskOp hop]
      cases MaskOp.run units mask _ with
      | error e => rfl
      | ok mask₁ => exact ih mask₁

theorem maskOp_of_name {ins : Instruction} (hname : ins.opCode ∈ maskOpCodes) {op? : Option MaskOp}
    (h : ins.maskOp = .ok op?) : ∃ op, op? = some op := by
  unfold Instruction.maskOp at h
  simp only [maskOpCodes, List.mem_cons, List.not_mem_nil, or_false] at hname
  split_ifs at h
  · exact ⟨_, (Except.ok.inj h).symm⟩
  · exact ⟨_, (Except.ok.inj h).symm⟩
  · obtain ⟨id, -, h⟩ := bind_ok h
    exact ⟨_, (Except.ok.inj h).symm⟩
  · obtain ⟨id, -, h⟩ := bind_ok h
    exact ⟨_, (Except.ok.inj h).symm⟩
  · obtain ⟨start, -, h⟩ := bind_ok h
    obtain ⟨num, -, h⟩ := bind_ok h
    obtain ⟨step, -, h⟩ := bind_ok h
    exact ⟨_, (Except.ok.inj h).symm⟩
  · obtain ⟨start, -, h⟩ := bind_ok h
    obtain ⟨stop, -, h⟩ := bind_ok h
    obtain ⟨step, -, h⟩ := bind_ok h
    exact ⟨_, (Except.ok.inj h).symm⟩
  · rcases hname with h | h | h | h | h | h <;> contradiction

/-- Instructions with the six opcodes that have been carried out decode. -/
theorem exists_decodes {program : List Instruction} (hnames : ∀ ins ∈ program, ins.opCode ∈ maskOpCodes)
    (hrun : program.foldlM (configStep units) mask = .ok mask') : ∃ ops, Decodes program ops := by
  induction program generalizing mask with
  | nil => exact ⟨[], List.Forall₂.nil⟩
  | cons ins program ih =>
      rw [List.foldlM_cons] at hrun
      obtain ⟨mask₁, hstep, hrest⟩ := bind_ok hrun
      obtain ⟨ops, hops⟩ := ih (fun i hi => hnames i (List.mem_cons_of_mem ins hi)) hrest
      rw [configStep_eq] at hstep
      obtain ⟨op?, hop, -⟩ := bind_ok hstep
      obtain ⟨op, rfl⟩ := maskOp_of_name (hnames ins List.mem_cons_self) hop
      exact ⟨op :: ops, List.Forall₂.cons hop hops⟩

/-! ### The chip -/

namespace Chip

variable {dimx dimy : ℕ} {c c' : Chip dimx dimy} {program : List Instruction}

/-- `configSetup` is about to read these configuration instructions, and stops behind them. -/
structure AtConfig (c : Chip dimx dimy) (program : List Instruction) : Prop where
  config : ∀ ins ∈ program, ins.isConfig = true
  memory : ∃ stop rest, c.instructionMemory.drop c.pc = program ++ stop :: rest ∧ stop.isConfig = false

theorem configLoop_program {units : ℕ} (hconfig : ∀ ins ∈ program, ins.isConfig = true) {stop : Instruction}
    (hstop : stop.isConfig = false) (rest : List Instruction) (pc : ℕ) (mask : List ℤ) :
    configLoop units (program ++ stop :: rest) pc mask =
      (program.foldlM (configStep units) mask).map fun mask => (pc + program.length, mask) := by
  induction program generalizing pc mask with
  | nil =>
      rw [List.nil_append, configLoop, if_neg (by simp [hstop])]
      rfl
  | cons ins program ih =>
      rw [List.cons_append, configLoop, if_pos (hconfig ins List.mem_cons_self), List.foldlM_cons]
      cases configStep units mask ins with
      | error e => rfl
      | ok mask₁ =>
          change configLoop units (program ++ stop :: rest) (pc + 1) mask₁ =
            (program.foldlM (configStep units) mask₁).map _
          rw [ih (fun i hi => hconfig i (List.mem_cons_of_mem ins hi)), List.length_cons, Nat.add_right_comm,
            Nat.add_assoc]

/-- `configSetup` carries out the configuration instructions it stands in front of. -/
theorem AtConfig.configSetup_eq (h : c.AtConfig program) :
    c.configSetup = (program.foldlM (configStep (dimx * dimy * 64)) c.mask).map fun mask =>
      { c with pc := c.pc + program.length, mask := mask } := by
  obtain ⟨stop, rest, hmemory, hstop⟩ := h.memory
  rw [configSetup, hmemory, configLoop_program h.config hstop]
  cases program.foldlM (configStep (dimx * dimy * 64)) c.mask with
  | error e => rfl
  | ok mask => rfl

theorem AtConfig.mask_eq (h : c.AtConfig program) (hrun : c.configSetup = .ok c') :
    program.foldlM (configStep (dimx * dimy * 64)) c.mask = .ok c'.mask := by
  rw [h.configSetup_eq] at hrun
  obtain ⟨mask, hfold, rfl⟩ := map_ok hrun
  exact hfold

/-- What `configSetup` leaves in the mask is what the instructions leave there. -/
theorem AtConfig.exists_mask_iff (h : c.AtConfig program) {P : List ℤ → Prop} :
    (∃ c', c.configSetup = .ok c' ∧ P c'.mask) ↔
      ∃ mask, program.foldlM (configStep (dimx * dimy * 64)) c.mask = .ok mask ∧ P mask := by
  constructor
  · rintro ⟨c', hrun, hP⟩
    exact ⟨c'.mask, h.mask_eq hrun, hP⟩
  · rintro ⟨mask, hmask, hP⟩
    rw [h.configSetup_eq, hmask]
    exact ⟨_, rfl, hP⟩

/-- **When the mask is a set**: configuration instructions that `configSetup` carries out from a set make of
it, after each of them, the set they should, exactly when no SET or SETBULK activates an id that is active. -/
theorem configSetup_represents_iff (hat : c.AtConfig program)
    (hnames : ∀ ins ∈ program, ins.opCode ∈ maskOpCodes) (hrun : c.configSetup = .ok c') {s : Set ℤ}
    (hstart : Represents c.mask s) :
    ∃ ops, Decodes program ops ∧
      ((∀ k ≤ program.length, ∀ c₁ c₁' : Chip dimx dimy, c₁.AtConfig (program.take k) → c₁.mask = c.mask →
          c₁.configSetup = .ok c₁' →
          Represents c₁'.mask (MaskOp.activeAfter (dimx * dimy * 64) s (ops.take k))) ↔
        ∀ k (hk : k < ops.length),
          Disjoint ops[k].activated (MaskOp.activeAfter (dimx * dimy * 64) s (ops.take k))) := by
  have hfold := hat.mask_eq hrun
  obtain ⟨ops, hops⟩ := exists_decodes hnames hfold
  have htake : ∀ k, (program.take k).foldlM (configStep (dimx * dimy * 64)) c.mask =
      (ops.take k).foldlM (MaskOp.run (dimx * dimy * 64)) c.mask := fun k =>
    Decodes.foldlM_eq (List.forall₂_take k hops) c.mask
  rw [hops.foldlM_eq] at hfold
  refine ⟨ops, hops, ?_⟩
  rw [← hstart.foldlM_iff hfold, hops.length_eq]
  constructor
  · intro h k hk m hm
    obtain ⟨stop, rest, -, hstop⟩ := hat.memory
    -- The chip that stops behind the first `k` instructions.
    have hat₁ : ({ c with instructionMemory := program.take k ++ [stop], pc := 0 } : Chip dimx dimy).AtConfig
        (program.take k) :=
      ⟨fun ins hins => hat.config ins (List.mem_of_mem_take hins), stop, [], rfl, hstop⟩
    have hrun₁ := hat₁.configSetup_eq
    rw [htake, hm] at hrun₁
    exact h k hk _ _ hat₁ rfl hrun₁
  · intro h k hk c₁ c₁' hat₁ hmask hrun₁
    have hfold₁ := hat₁.mask_eq hrun₁
    rw [hmask, htake] at hfold₁
    exact h k hk c₁'.mask hfold₁

end Chip

/-- The chip in front of two configuration instructions. -/
def twoConfigs (first second : Instruction) : Chip 1 1 :=
  (Chip.init exampleTab).append [first, second, ⟨"NOP", []⟩]

theorem twoConfigs_atConfig {first second : Instruction} (hfirst : first.isConfig = true)
    (hsecond : second.isConfig = true) : (twoConfigs first second).AtConfig [first, second] :=
  ⟨by simp [hfirst, hsecond], ⟨"NOP", []⟩, [], rfl, by decide⟩

/-- Two SETs of different ids: the mask is the set, after each of them. -/
theorem configSetup_represents_iff_two :
    ∃ ops, Decodes [⟨"SET", ["0"]⟩, ⟨"SET", ["1"]⟩] ops ∧
      ∀ k ≤ 2, ∀ c₁ c₁' : Chip 1 1, c₁.AtConfig (List.take k [⟨"SET", ["0"]⟩, ⟨"SET", ["1"]⟩]) →
      c₁.mask = [] →
        c₁.configSetup = .ok c₁' → Represents c₁'.mask (MaskOp.activeAfter (1 * 1 * 64) ∅ (ops.take k)) := by
  obtain ⟨ops, hops, hiff⟩ := Chip.configSetup_represents_iff (c := twoConfigs ⟨"SET", ["0"]⟩ ⟨"SET", ["1"]⟩)
    (twoConfigs_atConfig (by decide) (by decide)) (by decide) rfl
    ⟨List.nodup_nil, fun id => iff_of_false List.not_mem_nil (Set.notMem_empty id)⟩
  have hdecode : Decodes [⟨"SET", ["0"]⟩, ⟨"SET", ["1"]⟩] [.set 0, .set 1] :=
    .cons (by decide) (.cons (by decide) .nil)
  obtain rfl : ops = [.set 0, .set 1] := hops.unique hdecode
  refine ⟨_, hops, hiff.mpr fun k hk => ?_⟩
  change k < 2 at hk
  interval_cases k
  · exact Set.disjoint_empty _
  · exact Set.disjoint_singleton_left.mpr (by simp [MaskOp.activeAfter, MaskOp.active])

/-- A SET of an active id makes the mask a list with a duplicate. -/
theorem set_twice_duplicates :
    ¬ ∀ c c' : Chip 1 1, c.AtConfig [⟨"SET", ["0"]⟩, ⟨"SET", ["0"]⟩] → c.mask = [] → c.configSetup = .ok c' →
      Represents c'.mask (MaskOp.activeAfter (1 * 1 * 64) ∅ [.set 0, .set 0]) := by
  intro h
  have hset := h (twoConfigs ⟨"SET", ["0"]⟩ ⟨"SET", ["0"]⟩) _
      (twoConfigs_atConfig (by decide) (by decide)) rfl rfl
  exact absurd hset.nodup (by decide)

/-! ### SETBULK and UNSETBULK -/

/-- Removing ids from a mask to which others have been appended leaves the mask's members when the others are
removed, and what is removed besides is in the mask twice. -/
theorem foldlM_pyRemove_restores_iff {ids removed : List ℤ} (hids : ids.Nodup) (hremoved : removed.Nodup)
    (hfree : ∀ id ∈ ids, id ∉ mask) :
    (∃ m, removed.foldlM pyRemove (mask ++ ids) = .ok m ∧ ∀ id, id ∈ m ↔ id ∈ mask) ↔
      (∀ id ∈ ids, id ∈ removed) ∧ ∀ id ∈ removed, id ∉ ids → 2 ≤ mask.count id := by
  have hcount : ∀ id, id ∈ (mask ++ ids).diff removed ↔
      (if id ∈ removed then 1 else 0) < mask.count id + if id ∈ ids then 1 else 0 := by
    intro id
    rw [← List.count_pos_iff, List.count_diff, List.count_append, hids.count, hremoved.count]
    omega
  constructor
  · rintro ⟨m, hm, hmem⟩
    obtain ⟨hsub, rfl⟩ := foldlM_pyRemove_ok_iff.mp hm
    constructor
    · intro id hid
      by_contra hnot
      have hkept := (hcount id).mpr (by rw [if_neg hnot, if_pos hid]; omega)
      exact hfree id hid ((hmem id).mp hkept)
    · intro id hid hnot
      have hmask : id ∈ mask := (List.mem_append.mp (hsub.subset hid)).resolve_right hnot
      have hkept := (hcount id).mp ((hmem id).mpr hmask)
      rw [if_pos hid, if_neg hnot] at hkept
      exact hkept
  · rintro ⟨hall, htwice⟩
    have hsub : removed.Subperm (mask ++ ids) := by
      apply hremoved.subperm
      intro id hid
      by_cases hin : id ∈ ids
      · exact List.mem_append_right _ hin
      · have := htwice id hid hin
        exact List.mem_append_left _ (List.count_pos_iff.mp (by omega))
    refine ⟨_, foldlM_pyRemove hsub, fun id => ?_⟩
    rw [hcount, ← List.count_pos_iff (a := id) (l := mask)]
    by_cases hin : id ∈ ids
    · have hzero : mask.count id = 0 := List.count_eq_zero_of_not_mem (hfree id hin)
      rw [if_pos (hall id hin), if_pos hin, hzero]
      omega
    · rw [if_neg hin]
      split
      · rename_i hid
        have := htwice id hid hin
        omega
      · exact Iff.rfl

/-- The operands of a SETBULK are those of an UNSETBULK with another end. -/
theorem maskOp_unsetBulk {operands : List String} {start num step : ℤ}
    (h : Instruction.maskOp ⟨"SETBULK", operands⟩ = .ok (some (.setBulk start num step))) :
    Instruction.maskOp ⟨"UNSETBULK", operands⟩ = .ok (some (.unsetBulk start num step)) := by
  change ((⟨"SETBULK", operands⟩ : Instruction).int 1 >>= _) = _ at h
  obtain ⟨start', hstart, h⟩ := bind_ok h
  obtain ⟨num', hnum, h⟩ := bind_ok h
  obtain ⟨step', hstep, h⟩ := bind_ok h
  cases h
  change ((⟨"SETBULK", operands⟩ : Instruction).int 1 >>= _) = _
  rw [hstart]
  change ((⟨"SETBULK", operands⟩ : Instruction).int 2 >>= _) = _
  rw [hnum]
  change ((⟨"SETBULK", operands⟩ : Instruction).int 3 >>= _) = _
  rw [hstep]
  rfl

/-- SETBULK and UNSETBULK with the same operands: one appends its ids, the other removes its own. -/
theorem setBulk_unsetBulk_foldlM {operands : List String} {a n s : ℤ} {ids removed : List ℤ}
    (hop : Instruction.maskOp ⟨"SETBULK", operands⟩ = .ok (some (.setBulk a n s)))
    (hids : pyRange a (a + n * s) s = .ok ids) (hremoved : pyRange a n s = .ok removed) (mask : List ℤ) :
    ([⟨"SETBULK", operands⟩, ⟨"UNSETBULK", operands⟩] : List Instruction).foldlM (configStep units) mask =
      removed.foldlM pyRemove (mask ++ ids) := by
  have hdecode : Decodes [⟨"SETBULK", operands⟩, ⟨"UNSETBULK", operands⟩]
      [.setBulk a n s, .unsetBulk a n s] :=
    List.Forall₂.cons hop (List.Forall₂.cons (maskOp_unsetBulk hop) List.Forall₂.nil)
  rw [hdecode.foldlM_eq, List.foldlM_cons]
  change ((pyRange a (a + n * s) s >>= fun ids => pure (mask ++ ids)) >>= _) = _
  rw [hids]
  change ((pyRange a n s >>= fun ids => ids.foldlM pyRemove (mask ++ _)) >>= pure) = _
  rw [hremoved, bind_pure]
  rfl

/-- The multiples that a bulk activates are those below the count. -/
theorem mul_mem_bulk {a n s : ℤ} (hs : 1 ≤ s) (i : ℕ) : a + i * s ∈ MaskOp.bulk a n s ↔ (i : ℤ) < n := by
  rw [MaskOp.mem_bulk]
  constructor
  · rintro ⟨j, hj, heq⟩
    have : (i : ℤ) = j := mul_right_cancel₀ (by omega) (add_left_cancel heq)
    omega
  · exact fun hi => ⟨i, hi, rfl⟩

theorem mem_upTo_of_pos {a n s id : ℤ} (hs : 1 ≤ s) :
    id ∈ MaskOp.upTo a n s ↔ ∃ i : ℕ, id = a + i * s ∧ id < n := by
  rw [MaskOp.mem_upTo]
  apply exists_congr
  intro i
  apply and_congr_right
  intro _
  exact ⟨fun h => h.1 (by omega), fun h => ⟨fun _ => h, fun hneg => by omega⟩⟩

namespace Chip

variable {dimx dimy : ℕ} {c : Chip dimx dimy}

/-- **When UNSETBULK undoes SETBULK** with the same operands: its second operand is an end, not a count. The
ids activated have to lie in front of that end, and the ids in front of it that were not have to be in the
mask twice. -/
theorem unsetBulk_restores_iff {operands : List String} {a n s : ℤ}
    (hop : Instruction.maskOp ⟨"SETBULK", operands⟩ = .ok (some (.setBulk a n s))) (hs : 1 ≤ s)
    (hat : c.AtConfig [⟨"SETBULK", operands⟩, ⟨"UNSETBULK", operands⟩])
    (hfree : ∀ i : ℕ, i < n → a + i * s ∉ c.mask) :
    (∃ c', c.configSetup = .ok c' ∧ ∀ id, id ∈ c'.mask ↔ id ∈ c.mask) ↔
      (∀ i : ℕ, i < n → a + i * s < n) ∧ ∀ i : ℕ, n ≤ i → a + i * s < n → 2 ≤ c.mask.count (a + i * s) := by
  have hzero : s ≠ 0 := by omega
  obtain ⟨ids, hids⟩ : ∃ ids, pyRange a (a + n * s) s = .ok ids := ⟨_, if_neg hzero⟩
  obtain ⟨removed, hremoved⟩ : ∃ removed, pyRange a n s = .ok removed := ⟨_, if_neg hzero⟩
  obtain ⟨hnodup, hmem⟩ := pyRange_setBulk_ok hids
  obtain ⟨hnodup', hmem'⟩ := pyRange_ok hremoved
  have hlisted (i : ℕ) : a + i * s ∈ ids ↔ (i : ℤ) < n := (hmem _).trans (mul_mem_bulk hs i)
  have htaken (id : ℤ) : id ∈ removed ↔ ∃ i : ℕ, id = a + i * s ∧ id < n :=
    (hmem' id).trans (mem_upTo_of_pos hs)
  have hnew : ∀ id ∈ ids, id ∉ c.mask := by
    intro id hid
    obtain ⟨i, hi, rfl⟩ := (hmem id).mp hid
    exact hfree i hi
  rw [hat.exists_mask_iff (P := fun mask => ∀ id, id ∈ mask ↔ id ∈ c.mask),
    setBulk_unsetBulk_foldlM hop hids hremoved, foldlM_pyRemove_restores_iff hnodup hnodup' hnew]
  constructor
  · rintro ⟨hall, htwice⟩
    constructor
    · intro i hi
      obtain ⟨-, -, hlt⟩ := (htaken _).mp (hall _ ((hlisted i).mpr hi))
      exact hlt
    · intro i hi hlt
      apply htwice _ ((htaken _).mpr ⟨i, rfl, hlt⟩)
      intro hin
      have := (hlisted i).mp hin
      omega
  · rintro ⟨hall, htwice⟩
    constructor
    · intro id hid
      obtain ⟨i, hi, rfl⟩ := (hmem id).mp hid
      exact (htaken _).mpr ⟨i, rfl, hall i hi⟩
    · intro id hid hnot
      obtain ⟨i, rfl, hlt⟩ := (htaken id).mp hid
      rw [hlisted] at hnot
      exact htwice i (by omega) hlt

end Chip

/-- Four multi-words from the first on, on an empty mask: the two instructions agree. -/
theorem unsetBulk_restores_iff_four :
    ∃ c', (twoConfigs ⟨"SETBULK", ["0", "4", "1"]⟩ ⟨"UNSETBULK", ["0", "4", "1"]⟩).configSetup = .ok c' ∧
      ∀ id, id ∈ c'.mask ↔ id ∈ ([] : List ℤ) := by
  refine (Chip.unsetBulk_restores_iff (a := 0) (n := 4) (s := 1)
    (c := twoConfigs ⟨"SETBULK", ["0", "4", "1"]⟩ ⟨"UNSETBULK", ["0", "4", "1"]⟩)
    (by decide +kernel) le_rfl (twoConfigs_atConfig (by decide) (by decide))
    fun _ _ => List.not_mem_nil).mpr ⟨?_, ?_⟩
  · intro i hi
    omega
  · intro i hi hlt
    omega

/-- The first multi-words of two clusters: UNSETBULK takes the second operand for an end and leaves
one active. -/
theorem unsetBulk_leaves_second :
    ¬ ∃ c', (twoConfigs ⟨"SETBULK", ["0", "2", "64"]⟩ ⟨"UNSETBULK", ["0", "2", "64"]⟩).configSetup = .ok c' ∧
      ∀ id, id ∈ c'.mask ↔ id ∈ ([] : List ℤ) := by
  rintro ⟨c', hrun, hmem⟩
  have hmask : (twoConfigs ⟨"SETBULK", ["0", "2", "64"]⟩
      ⟨"UNSETBULK", ["0", "2", "64"]⟩).configSetup.map Chip.mask = .ok [64] := by decide +kernel
  rw [hrun] at hmask
  have hleft : c'.mask = [64] := Except.ok.inj hmask
  have h64 : (64 : ℤ) ∈ c'.mask := by
    rw [hleft]
    exact List.mem_singleton_self 64
  exact absurd ((hmem 64).mp h64) List.not_mem_nil

end RacerArtifacts.Sim
