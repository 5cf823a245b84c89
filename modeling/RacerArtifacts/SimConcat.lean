import Mathlib
import RacerArtifacts.SimExecution

/-! Programs one after the other. The last instruction of a program is not executed by its own launch but
by the program that follows it; when it is an UNSETALL, the following program starts from the mask it
starts from on a fresh chip, and the launch of both executes the epochs of the first and then those of the
second. In an exact arithmetic the costs are those of the two launches, added. -/

namespace RacerArtifacts.Sim

open Charging

variable {dimx dimy n : ℕ} {tab : CostTab}

theorem launchCosts_of_drives {prog : List Instruction}
    {r : Except PyError (List ℤ × Tally (dimx * dimy) × List Instruction)}
    (h : Drives (dimx * dimy * 64) (epochTally (dimx * dimy) tab) [] prog r) (m : ℤ) :
    launchCosts dimx dimy tab prog m =
      some (r.map fun p => (p.2.1.latencyCost tab, p.2.1.energyCost tab * (m : ℚ))) := by
  rw [launchCosts, Chip.launch_loaded h]
  cases r with
  | error e => rfl
  | ok p =>
      obtain ⟨mask, t, rest⟩ := p
      have hblank : Chip.Blank tab ({
          (Chip.loaded tab prog : Chip dimx dimy) with multithread := m }.seek mask rest) :=
        ⟨rfl, rfl, rfl, rfl, rfl⟩
      refine congrArg some (congrArg Except.ok ?_)
      rw [Chip.costs, hblank.getLatencyCost, hblank.getEnergyCost]
      rfl

theorem drives_of_launchCosts {prog : List Instruction} {m : ℤ} {cost : ℚ × ℚ}
    (h : launchCosts dimx dimy tab prog m = some (.ok cost)) :
    ∃ mask t rest, Drives (dimx * dimy * 64) (epochTally (dimx * dimy) tab) [] prog (.ok (mask, t, rest)) ∧
      cost = (t.latencyCost tab, t.energyCost tab * (m : ℚ)) := by
  obtain ⟨r, hr⟩ := Drives.exists_outcome (dimx * dimy * 64) (epochTally (dimx * dimy) tab) [] prog
  rw [launchCosts_of_drives hr m] at h
  cases r with
  | error e => cases h
  | ok p =>
      obtain ⟨mask, t, rest⟩ := p
      exact ⟨mask, t, rest, hr, (Except.ok.inj (Option.some.inj h)).symm⟩

theorem configStep_unsetall {ins : Instruction} (hins : ins.opCode = "UNSETALL") (units : ℕ) (mask : List ℤ) :
    ins.isConfig = true ∧ configStep units mask ins = .ok [] := by
  refine ⟨?_, ?_⟩
  · rw [Instruction.isConfig, hins]
    decide
  · rw [configStep, if_neg (by rw [hins]; decide), if_pos hins]

/-- Behind an UNSETALL a program runs as from the empty mask. -/
theorem Drives.unsetall {γ : Type} [AddMonoid γ] {units : ℕ}
    {charge : List ℤ → List Instruction → Except PyError γ} {ins : Instruction}
    (hins : ins.opCode = "UNSETALL") {prog : List Instruction} (hlen : 2 ≤ prog.length)
    {r : Except PyError (List ℤ × γ × List Instruction)} (h : Drives units charge [] prog r)
    (mask : List ℤ) :
    Drives units charge mask (ins :: prog) r := by
  obtain ⟨hconfig, hmask⟩ := configStep_unsetall hins units mask
  have hsame : driveStep units charge mask (ins :: prog) = driveStep units charge [] prog := by
    rw [driveStep, configRead_config hconfig, hmask]
    rfl
  have hlong : 1 < (ins :: prog).length := by
    rw [List.length_cons]
    omega
  cases h with
  | stop hl => omega
  | fail _ hstep => exact Drives.fail hlong (hsame.trans hstep)
  | next _ hstep hrest => exact Drives.next hlong (hsame.trans hstep) hrest

/-- A run that stops in front of an UNSETALL has charged the epochs of its program, which another program can
follow as on a fresh chip. -/
theorem epochs_of_drives_unsetall {γ : Type} [AddMonoid γ] {units : ℕ}
    {charge : List ℤ → List Instruction → Except PyError γ} {P : List Instruction} {mask : List ℤ}
    {t : γ} {last : Instruction} (h : Drives units charge [] P (.ok (mask, t, [last])))
    (hlast : last.opCode = "UNSETALL") :
    ∃ es, total (Epoch.charges charge) es = .ok t ∧ epochs units [] P = .ok es ∧
      ∀ Q es', epochs units [] Q = .ok es' → epochs units [] (P ++ Q) = .ok (es ++ es') := by
  obtain ⟨hconfig, hstep⟩ := configStep_unsetall hlast units mask
  obtain ⟨es, htotal, hes⟩ := h.exists_epochs
  obtain ⟨p, rfl, hp⟩ := h.maskAfter
  have hnil : epochs units mask [last] = .ok [] := by
    rw [epochs_config hconfig, hstep]
    rfl
  have hP := hes [] hnil
  rw [List.append_nil] at hP
  have hmask : maskAfter units [] (p ++ [last]) = .ok [] := by
    rw [maskAfter_append hp, maskAfter_config hconfig, hstep]
    rfl
  exact ⟨es, htotal, hP, fun Q es' hQ => epochsFrom_append_config hconfig hP hmask hQ⟩

/-- A program of at least two instructions that ends in UNSETALL and costs this on a fresh chip. -/
structure Standalone (dimx dimy : ℕ) (tab : CostTab) (m : ℤ) (prog : List Instruction)
    (cost : ℚ × ℚ) : Prop where
  length : 2 ≤ prog.length
  unsetall : ∃ p last, prog = p ++ [last] ∧ last.opCode = "UNSETALL"
  launch : launchCosts dimx dimy tab prog m = some (.ok cost)

theorem Standalone.append {m : ℤ} {P Q : List Instruction} {a b : ℚ × ℚ} (hP : Standalone dimx dimy tab m P a)
    (hQ : Standalone dimx dimy tab m Q b) : Standalone dimx dimy tab m (P ++ Q) (a + b) := by
  obtain ⟨maskP, t, restP, hrunP, rfl⟩ := drives_of_launchCosts hP.launch
  obtain ⟨maskQ, u, restQ, hrunQ, rfl⟩ := drives_of_launchCosts hQ.launch
  obtain ⟨p, ins, hsplit, rfl, -⟩ := hrunP.ok_rest hP.length
  obtain ⟨p', last, hsplit', hlast⟩ := hP.unsetall
  obtain ⟨-, hsame⟩ := List.append_inj' (hsplit.symm.trans hsplit') rfl
  cases hsame
  have hrun := hrunP.append hP.length (hrunQ.unsetall hlast hQ.length maskP)
  obtain ⟨q, lastQ, hsplitQ, hlastQ⟩ := hQ.unsetall
  refine ⟨?_, ⟨P ++ q, lastQ, by rw [hsplitQ, List.append_assoc], hlastQ⟩, ?_⟩
  · rw [List.length_append]
    have := hP.length
    omega
  · rw [launchCosts_of_drives hrun m]
    refine congrArg some (congrArg Except.ok ?_)
    simp only [Tally.latencyCost_add, Tally.energyCost_add, add_mul, Prod.mk_add_mk]

theorem Standalone.flatten {m : ℤ} {progs : List (List Instruction)} {costs : List (ℚ × ℚ)}
    (h : List.Forall₂ (Standalone dimx dimy tab m) progs costs) :
    launchCosts dimx dimy tab progs.flatten m = some (.ok costs.sum) := by
  have hstand : progs ≠ [] → Standalone dimx dimy tab m progs.flatten costs.sum := by
    induction h with
    | nil => intro h; exact absurd rfl h
    | @cons prog cost progs costs hprog hrest ih =>
        intro _
        rw [List.flatten_cons, List.sum_cons]
        cases hrest with
        | nil =>
            rw [List.flatten_nil, List.append_nil, List.sum_nil, add_zero]
            exact hprog
        | cons _ _ => exact hprog.append (ih (List.cons_ne_nil _ _))
  cases h with
  | nil =>
      have hrun : Drives (dimx * dimy * 64) (epochTally (dimx * dimy) tab) [] [] (.ok ([], 0, [])) :=
          Drives.stop (Nat.zero_le _)
      rw [List.flatten_nil, launchCosts_of_drives hrun m]
      simp [Except.map]
  | cons _ _ => exact (hstand (List.cons_ne_nil _ _)).launch

namespace Numeric

open Numbers

variable {N : Type} [Numbers N]

theorem launchCosts_of_drives {prog : List Instruction}
    {r : Except PyError (List ℤ × Log N (dimx * dimy) × List Instruction)}
    (h : Drives (dimx * dimy * 64) (epochLog N (dimx * dimy) tab) [] prog r) (m : ℤ) :
    launchCosts N dimx dimy tab prog m = some (r.map fun p =>
      (({ (Chip.loaded tab prog : Chip N dimx dimy) with multithread := m }.seek p.1 p.2.2).enter
        p.2.1).costs) := by
  rw [launchCosts, launch_loaded h]
  cases r with
  | error e => rfl
  | ok p => rfl

/-- A program of at least two instructions that ends in UNSETALL and can be launched on a fresh chip. -/
structure Standalone (N : Type) [Numbers N] (dimx dimy : ℕ) (tab : CostTab) (m : ℤ)
    (prog : List Instruction) :
    Prop where
  length : 2 ≤ prog.length
  unsetall : ∃ p last, prog = p ++ [last] ∧ last.opCode = "UNSETALL"
  launch : ∃ cost, launchCosts N dimx dimy tab prog m = some (.ok cost)

/-- The launch of a program on a fresh chip costs this, which is what executing these epochs in
order costs. -/
structure Executes (N : Type) [Numbers N] (dimx dimy : ℕ) (tab : CostTab) (m : ℤ) (prog : List Instruction)
    (es : List Epoch) (cost : N × N) : Prop where
  launch : launchCosts N dimx dimy tab prog m = some (.ok cost)
  executed : (executed N dimx dimy tab prog m es).map Chip.costs = .ok cost

theorem executes_of_drives {prog : List Instruction} {mask : List ℤ} {log : Log N (dimx * dimy)}
    {rest : List Instruction}
    (h : Drives (dimx * dimy * 64) (epochLog N (dimx * dimy) tab) [] prog (.ok (mask, log, rest)))
    {es : List Epoch}
    (hlog : total (Epoch.charges (epochLog N (dimx * dimy) tab)) es = .ok log) (m : ℤ) :
    ∃ cost, Executes N dimx dimy tab m prog es cost := by
  obtain ⟨c, hexecuted, hc⟩ := executed_of_total prog hlog m mask rest
  refine ⟨c.costs, ?_, by rw [hexecuted]; rfl⟩
  rw [launchCosts_of_drives h]
  change some (Except.ok (Chip.costs (Chip.enter log _))) = _
  rw [hc, costs_moveTo]

/-- What a program that can be launched does: it runs to its UNSETALL and charges its epochs. -/
theorem Standalone.run {m : ℤ} {P : List Instruction} (h : Standalone N dimx dimy tab m P) :
    ∃ mask log last es, Drives (dimx * dimy * 64) (epochLog N (dimx * dimy) tab) [] P
      (.ok (mask, log, [last])) ∧
      last.opCode = "UNSETALL" ∧ total (Epoch.charges (epochLog N (dimx * dimy) tab)) es = .ok log ∧
      epochs (dimx * dimy * 64) [] P = .ok es ∧
      ∀ Q es', epochs (dimx * dimy * 64) [] Q = .ok es' → epochs (dimx * dimy * 64) [] (P ++ Q) =
        .ok (es ++ es') := by
  obtain ⟨cost, hcost⟩ := h.launch
  obtain ⟨r, hr⟩ := Drives.exists_outcome (dimx * dimy * 64) (epochLog N (dimx * dimy) tab) [] P
  rw [launchCosts_of_drives hr m] at hcost
  cases r with
  | error e => cases hcost
  | ok q =>
      obtain ⟨mask, log, rest⟩ := q
      obtain ⟨p, last, hsplit, rfl, -⟩ := hr.ok_rest h.length
      obtain ⟨p', last', hsplit', hlast⟩ := h.unsetall
      obtain ⟨-, hsame⟩ := List.append_inj' (hsplit.symm.trans hsplit') rfl
      cases hsame
      obtain ⟨es, htotal, hes, happend⟩ := epochs_of_drives_unsetall hr hlast
      exact ⟨mask, log, last, es, hr, hlast, htotal, hes, happend⟩

theorem Standalone.executes {m : ℤ} {P : List Instruction} (h : Standalone N dimx dimy tab m P)
    {es : List Epoch}
    (hes : epochs (dimx * dimy * 64) [] P = .ok es) : ∃ cost, Executes N dimx dimy tab m P es cost := by
  obtain ⟨mask, log, last, es', hrun, -, htotal, hes', -⟩ := h.run
  obtain rfl : es' = es := Except.ok.inj (hes'.symm.trans hes)
  exact executes_of_drives hrun htotal m

theorem Standalone.append {m : ℤ} {P Q : List Instruction} (hP : Standalone N dimx dimy tab m P)
    (hQ : Standalone N dimx dimy tab m Q) : Standalone N dimx dimy tab m (P ++ Q) := by
  obtain ⟨maskP, log, last, -, hrunP, hlast, -, -, -⟩ := hP.run
  obtain ⟨maskQ, log', lastQ, -, hrunQ, -, -, -, -⟩ := hQ.run
  obtain ⟨q, last', hsplit, hlast'⟩ := hQ.unsetall
  refine ⟨?_, ⟨P ++ q, last', by rw [hsplit, List.append_assoc], hlast'⟩, ?_⟩
  · rw [List.length_append]
    have := hP.length
    omega
  · have hrun := hrunP.append hP.length (hrunQ.unsetall hlast hQ.length maskP)
    exact ⟨_, launchCosts_of_drives hrun m⟩

/-- In an exact arithmetic the program costs this with rationals. -/
theorem Standalone.exact {v : N → ℚ} (hv : Exact v) {m : ℤ} {P : List Instruction}
    (h : Standalone N dimx dimy tab m P) {a : N × N} (ha : launchCosts N dimx dimy tab P m = some (.ok a)) :
    Sim.Standalone dimx dimy tab m P (Prod.map v v a) where
  length := h.length
  unsetall := h.unsetall
  launch := by
    rw [← hv.launchCosts, ha]
    rfl

/-- A program, its epochs and its costs. -/
def Item (N : Type) [Numbers N] (dimx dimy : ℕ) (tab : CostTab) (m : ℤ) (prog : List Instruction)
    (x : List Epoch × (N × N)) : Prop :=
  Standalone N dimx dimy tab m prog ∧ epochs (dimx * dimy * 64) [] prog = .ok x.1 ∧
    launchCosts N dimx dimy tab prog m = some (.ok x.2)

theorem executes_flatten {m : ℤ} {progs : List (List Instruction)} {xs : List (List Epoch × (N × N))}
    (h : List.Forall₂ (Item N dimx dimy tab m) progs xs) :
    ∃ c, Executes N dimx dimy tab m progs.flatten (xs.map Prod.fst).flatten c ∧
      ∀ v : N → ℚ, Exact v → Prod.map v v c = (xs.map fun x => Prod.map v v x.2).sum := by
  have hstand : progs ≠ [] → Standalone N dimx dimy tab m progs.flatten ∧
      epochs (dimx * dimy * 64) [] progs.flatten = .ok (xs.map Prod.fst).flatten := by
    induction h with
    | nil => intro hne; exact absurd rfl hne
    | @cons prog x progs xs hprog hrest ih =>
        intro _
        rw [List.flatten_cons, List.map_cons, List.flatten_cons]
        cases hrest with
        | nil =>
            rw [List.flatten_nil, List.append_nil, List.map_nil, List.flatten_nil, List.append_nil]
            exact ⟨hprog.1, hprog.2.1⟩
        | cons _ _ =>
            obtain ⟨hrest, hepochs⟩ := ih (List.cons_ne_nil _ _)
            obtain ⟨-, -, -, es, -, -, -, hes, happend⟩ := hprog.1.run
            obtain rfl : es = x.1 := Except.ok.inj (hes.symm.trans hprog.2.1)
            exact ⟨hprog.1.append hrest, happend _ _ hepochs⟩
  have hexecutes : ∃ c, Executes N dimx dimy tab m progs.flatten (xs.map Prod.fst).flatten c := by
    cases h with
    | nil =>
        have hrun : Drives (dimx * dimy * 64) (epochLog N (dimx * dimy) tab) [] [] (.ok ([], 0, [])) :=
          Drives.stop (Nat.zero_le _)
        exact executes_of_drives hrun rfl m
    | cons _ _ =>
        obtain ⟨hall, hepochs⟩ := hstand (List.cons_ne_nil _ _)
        exact hall.executes hepochs
  obtain ⟨c, hc⟩ := hexecutes
  refine ⟨c, hc, fun v hv => ?_⟩
  have hsums : List.Forall₂ (Sim.Standalone dimx dimy tab m) progs (xs.map fun x => Prod.map v v x.2) := by
    rw [List.forall₂_map_right_iff]
    exact h.imp fun prog x hx => hx.1.exact hv hx.2.2
  have hlaunch := hv.launchCosts dimx dimy tab progs.flatten m
  rw [hc.launch, Sim.Standalone.flatten hsums] at hlaunch
  exact Except.ok.inj (Option.some.inj hlaunch)

theorem fileCosts_eq {fs : FileSystem} {depth : ℕ} {fileName : String} {prog : List Instruction}
    (h : loadFile fs depth fileName [] = .ok prog) (m : ℤ) :
    fileCosts N dimx dimy tab fs depth fileName m = launchCosts N dimx dimy tab prog m := by
  have hload : (Chip.init tab : Chip N dimx dimy).loadInstruction fs depth fileName =
      .ok (Chip.loaded tab prog) := by
    unfold Chip.loadInstruction
    change (loadFile fs depth fileName [] >>= _) = _
    rw [h]
    rfl
  rw [fileCosts, hload]
  rfl

theorem fileCosts_imports {fs : FileSystem} {depth : ℕ} {main : String} {lines : List String}
    (hmain : fs main = some lines) {progs : List (List Instruction)}
    (hlines : List.Forall₂ (fun text prog => ∃ f, Imports text f ∧
      loadFile fs depth f [] = .ok prog) lines progs)
    {m : ℤ} {es : List Epoch} {c : N × N} (hc : Executes N dimx dimy tab m progs.flatten es c) :
    fileCosts N dimx dimy tab fs (depth + 1) main m = some (.ok c) := by
  rw [fileCosts_eq (loadFile_imports hmain hlines), hc.launch]

end Numeric

open Numeric in
/-- **Concatenation adds epochs to epochs**, in any arithmetic, and costs to costs in an exact one. Two
programs that each launch on a fresh chip, have at least two instructions and end in UNSETALL launch one after
the other, with the costs of executing the epochs of the one and then those of the other: in the instruction
memory, as a main file that imports the two, and as one that imports the same file `k` times. -/
theorem concatenation_additive {N : Type} [Numbers N] {m : ℤ} {P Q : List Instruction}
    (hP : Numeric.Standalone N dimx dimy tab m P) (hQ : Numeric.Standalone N dimx dimy tab m Q) :
    ∃ esP esQ a b, epochs (dimx * dimy * 64) [] P = .ok esP ∧ Executes N dimx dimy tab m P esP a ∧
      epochs (dimx * dimy * 64) [] Q = .ok esQ ∧ Executes N dimx dimy tab m Q esQ b ∧
      ∃ c, Executes N dimx dimy tab m (P ++ Q) (esP ++ esQ) c ∧
        (∀ v : N → ℚ, Exact v → Prod.map v v c = Prod.map v v a + Prod.map v v b) ∧
        ∀ fs depth main p, loadFile fs depth p [] = .ok P →
          (∀ q lineP lineQ, loadFile fs depth q [] = .ok Q → Imports lineP p → Imports lineQ q →
            fs main = some [lineP, lineQ] → fileCosts N dimx dimy tab fs (depth + 1) main m = some (.ok c)) ∧
          ∀ k lines, lines.length = k → (∀ line ∈ lines, Imports line p) → fs main = some lines →
            ∃ d, Executes N dimx dimy tab m (List.replicate k P).flatten (List.replicate k esP).flatten d ∧
              fileCosts N dimx dimy tab fs (depth + 1) main m = some (.ok d) ∧
              ∀ v : N → ℚ, Exact v → Prod.map v v d = k • Prod.map v v a := by
  obtain ⟨-, -, -, esP, -, -, -, hesP, -⟩ := hP.run
  obtain ⟨-, -, -, esQ, -, -, -, hesQ, -⟩ := hQ.run
  obtain ⟨a, ha⟩ := hP.executes hesP
  obtain ⟨b, hb⟩ := hQ.executes hesQ
  have hitemP : Item N dimx dimy tab m P (esP, a) := ⟨hP, hesP, ha.launch⟩
  have hitemQ : Item N dimx dimy tab m Q (esQ, b) := ⟨hQ, hesQ, hb.launch⟩
  obtain ⟨c, hc, hexact⟩ := executes_flatten (.cons hitemP (.cons hitemQ .nil))
  refine ⟨esP, esQ, a, b, hesP, ha, hesQ, hb, c, ?_, fun v hv => ?_, fun fs depth main p hp => ⟨?_, ?_⟩⟩
  · simpa using hc
  · simpa using hexact v hv
  · intro q lineP lineQ hq hlineP hlineQ hmain
    have hlines : List.Forall₂ (fun text prog => ∃ f, Imports text f ∧ loadFile fs depth f [] = .ok prog)
        [lineP, lineQ] [P, Q] := .cons ⟨p, hlineP, hp⟩ (.cons ⟨q, hlineQ, hq⟩ .nil)
    exact fileCosts_imports hmain hlines hc
  · rintro k lines rfl himports hmain
    have hlines : List.Forall₂ (fun text prog => ∃ f, Imports text f ∧ loadFile fs depth f [] = .ok prog)
        lines (List.replicate lines.length P) := by
      clear hmain
      induction lines with
      | nil => exact .nil
      | cons line lines ih =>
          refine .cons ⟨p, himports line List.mem_cons_self, hp⟩ (ih fun l hl => ?_)
          exact himports l (List.mem_cons_of_mem line hl)
    have hitems : List.Forall₂ (Item N dimx dimy tab m) (List.replicate lines.length P)
        (List.replicate lines.length (esP, a)) := by
      induction lines.length with
      | zero => exact .nil
      | succ k ih => exact .cons hitemP ih
    obtain ⟨d, hd, hsum⟩ := executes_flatten hitems
    rw [List.map_replicate] at hd
    refine ⟨d, hd, fileCosts_imports hmain hlines hd, fun v hv => ?_⟩
    rw [hsum v hv, List.map_replicate, List.sum_replicate]

/-- A program that shifts once. -/
def shiftProg : List Instruction := [shift, unsetall]

theorem standalone_shiftProg : Standalone 1 1 exampleTab 1 shiftProg (482, 8194) where
  length := by decide
  unsetall := ⟨[shift], Sim.unsetall, rfl, rfl⟩
  launch := by
    have hwf : WellFormed (1 * 1 * 64) exampleTab shiftProg :=
      ReadsOk.compute (by decide) computeOk_shift
        (ReadsOk.config (by decide) (configOk_of_name (by decide)) rfl trivial)
    have hend : EndsWell shiftProg := ⟨[], shift, Sim.unsetall, rfl, by decide, by decide⟩
    have hes : epochs (1 * 1 * 64) [] shiftProg = .ok [⟨[], [shift]⟩] := by decide
    rw [launchCosts_eq hwf hend hes]
    decide +kernel

/-- A main file with nine imports of a program. -/
def andFiles : FileSystem := fun fileName =>
  if fileName = "and.rc" then some ["SET 0\n", "AND8 x x x 1 4\n", "UNSETALL\n"]
  else if fileName = "main.rc" then some (List.replicate 9 "IMPORT and.rc\n")
  else none

theorem standalone_andEpoch {N : Type} [Numbers N] {cost : N × N}
    (h : Numeric.launchCosts N 1 1 exampleTab Numeric.andEpoch 1 = some (.ok cost)) :
    Numeric.Standalone N 1 1 exampleTab 1 Numeric.andEpoch where
  length := by decide
  unsetall := ⟨[⟨"SET", ["0"]⟩, and8], Sim.unsetall, rfl, rfl⟩
  launch := ⟨cost, h⟩

open Numeric in
/-- Nine imports, in doubles and exactly. -/
theorem concatenation_additive_nine :
    (∃ es c, epochs (1 * 1 * 64) [] andEpoch = .ok es ∧
      Executes PyNumber 1 1 exampleTab 1 (List.replicate 9 andEpoch).flatten (List.replicate 9 es).flatten c ∧
      Numeric.fileCosts PyNumber 1 1 exampleTab andFiles 2 "main.rc" 1 = some (.ok c)) ∧
    ∃ c, Numeric.fileCosts Fraction 1 1 exampleTab andFiles 2 "main.rc" 1 = some (.ok c) ∧
      Prod.map Fraction.value Fraction.value c = 9 • ((13.2, 141.5) : ℚ × ℚ) := by
  have hand : loadFile andFiles 1 "and.rc" [] = .ok andEpoch := by decide +kernel
  have himports : ∀ line ∈ List.replicate 9 "IMPORT and.rc\n", Imports line "and.rc" := by decide +kernel
  have hdouble : Numeric.launchCosts PyNumber 1 1 exampleTab andEpoch 1 =
      some (.ok (Numbers.float 13.2, Numbers.float 141.5)) := by decide +kernel
  have hfraction : Numeric.launchCosts Fraction 1 1 exampleTab andEpoch 1 = some (.ok (⟨13.2⟩, ⟨141.5⟩)) := by
    decide +kernel
  obtain ⟨es, _, _, _, hes, _, _, _, _, _, _, hfiles⟩ :=
    concatenation_additive (standalone_andEpoch hdouble) (standalone_andEpoch hdouble)
  obtain ⟨_, _, a, _, _, ha, _, _, _, _, _, hfiles'⟩ :=
    concatenation_additive (standalone_andEpoch hfraction) (standalone_andEpoch hfraction)
  obtain ⟨d, hd, hcosts, -⟩ := (hfiles andFiles 1 "main.rc" "and.rc" hand).2 9 _ rfl himports rfl
  obtain ⟨d', -, hcosts', hexact⟩ := (hfiles' andFiles 1 "main.rc" "and.rc" hand).2 9 _ rfl himports rfl
  cases hfraction.symm.trans ha.launch
  exact ⟨⟨es, d, hes, hd, hcosts⟩, d', hcosts', hexact _ exact_fraction⟩

open Numeric in
/-- In doubles the latencies of two programs do not add up to that of both, nor do nine imports cost nine
times what the program costs. -/
theorem concatenation_rounds :
    Numeric.launchCosts PyNumber 1 1 exampleTab (andEpochs 2) 1 =
      some (.ok (Numbers.float 26.4, Numbers.float 283)) ∧
      Numeric.launchCosts PyNumber 1 1 exampleTab (andEpochs 4) 1 =
        some (.ok (Numbers.float 52.8, Numbers.float 566)) ∧
      Numeric.launchCosts PyNumber 1 1 exampleTab (andEpochs 2 ++ andEpochs 4) 1 =
        some (.ok (Numbers.float 79.2, Numbers.float 849)) ∧
      (Numbers.float 79.2 : PyNumber) ≠ Numbers.float 26.4 + Numbers.float 52.8 ∧
      Numeric.launchCosts PyNumber 1 1 exampleTab andEpoch 1 =
        some (.ok (Numbers.float 13.2, Numbers.float 141.5)) ∧
      ∃ latency energy, Numeric.fileCosts PyNumber 1 1 exampleTab andFiles 2 "main.rc" 1 =
          some (.ok (latency, energy)) ∧
        energy ≠ Numbers.int 9 * Numbers.float 141.5 := by
  refine ⟨by decide +kernel, by decide +kernel, by decide +kernel, by decide +kernel, by decide +kernel,
    .double (.ofBits 4638060223745176372), .double (.ofBits 4653315727678242817),
      by decide +kernel, by decide +kernel⟩

end RacerArtifacts.Sim
