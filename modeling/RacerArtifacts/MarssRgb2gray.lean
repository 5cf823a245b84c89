import RacerArtifacts.LibSweep

/-! The kernel of `rgb2gray`, its images in any order. The index of the output is stepped before it is used,
so that every pixel lands one place behind its own, and the weight of green is applied to blue. A cell of the
output keeps, beside its value, whether the kernel has written it. -/

namespace RacerArtifacts.Marss.Rgb2gray

open Sweep

/-- `unsigned short` -/
abbrev Datatype := BitVec 16

structure Cell where
  value : Datatype
  written : Bool
  deriving DecidableEq, Repr

/-- The output before the kernel. -/
def fresh (out : ℕ → Datatype) : ℕ → Cell := fun c => ⟨out c, false⟩

/-- `lumR * r + lumG * b + lumB * b`, for the `short`s of the pixel at `base`. -/
def luminance (input : ℕ → Datatype) (base : ℕ) : Datatype :=
  let lumR : ℤ := 2
  let lumG : ℤ := 3
  let lumB : ℤ := 4
  let r := (input base).toInt
  let _g := (input (base + 1)).toInt
  let b := (input (base + 2)).toInt
  BitVec.ofInt 16 (lumR * r + lumG * b + lumB * b)

/-- The body of the loop over the pixels of an image: `o` and the output. -/
def pixel (input : ℕ → Datatype) (img : ℕ) (st : ℕ × (ℕ → Cell)) (i : ℕ) : ℕ × (ℕ → Cell) :=
  let o := st.1 + 1
  (o, Function.update st.2 (img * 16384 + o) ⟨luminance input (img * 49152 + i), true⟩)

/-- The body of the parallel loop: `i` goes up to `128 * 128 * 3` in steps of 3. -/
def image (input : ℕ → Datatype) (img : ℕ) (out : ℕ → Cell) : ℕ → Cell :=
  ((List.range' 0 16384 3).foldl (pixel input img) (0, out)).2

/-- The kernel, its images executed in the given order. -/
def rgb2gray (input : ℕ → Datatype) (order : List ℕ) (out : ℕ → Cell) : ℕ → Cell :=
  sweep (image input) order out

/-- The conversion as it is meant: each pixel has its gray value, and nothing is written beyond the images. -/
structure Converted (input : ℕ → Datatype) (inst : ℕ) (out : ℕ → Cell) : Prop where
  gray : ∀ img < inst, ∀ p < 16384, (out (img * 16384 + p)).value.toNat =
    2 * (input (img * 49152 + 3 * p)).toNat + 3 * (input (img * 49152 + 3 * p + 1)).toNat +
      4 * (input (img * 49152 + 3 * p + 2)).toNat
  inside : ∀ c, (out c).written = true → c < inst * 16384

variable {input : ℕ → Datatype} {inst : ℕ} {order : List ℕ}

theorem luminance_toNat {base : ℕ} (hr : (input base).toNat ≤ 255) (hb : (input (base + 2)).toNat ≤ 255) :
    (luminance input base).toNat = 2 * (input base).toNat + 7 * (input (base + 2)).toNat := by
  have hsigned : ∀ x : Datatype, x.toNat ≤ 255 → x.toInt = x.toNat := by
    intro x hx
    rw [BitVec.toInt_eq_toNat_of_lt]
    omega
  simp only [luminance, hsigned _ hr, hsigned _ hb, BitVec.toNat_ofInt]
  omega

/-- The loop over the first pixels of an image: the index is theirs, and each is one place behind its own. -/
theorem pixels_eq (input : ℕ → Datatype) (img : ℕ) (out : ℕ → Cell) (k : ℕ) :
    (List.range' 0 k 3).foldl (pixel input img) (0, out) = (k, fun c =>
      if img * 16384 < c ∧ c ≤ img * 16384 + k then ⟨luminance input (3 * (c - 1)), true⟩ else out c) := by
  induction k with
  | zero =>
      simp only [List.range'_zero, List.foldl_nil, Prod.mk.injEq, true_and]
      funext c
      rw [if_neg (by omega)]
  | succ k ih =>
      rw [List.range'_concat, List.foldl_append, ih, List.foldl_cons, List.foldl_nil, pixel]
      simp only [Prod.mk.injEq, true_and]
      funext c
      by_cases hc : c = img * 16384 + (k + 1)
      · subst hc
        have hplace : 3 * (img * 16384 + (k + 1) - 1) = img * 49152 + (0 + 3 * k) := by omega
        rw [Function.update_self, if_pos (by omega), hplace]
      · rw [Function.update_of_ne hc]
        apply if_congr _ rfl rfl
        omega

theorem image_eq (input : ℕ → Datatype) (img : ℕ) (out : ℕ → Cell) (c : ℕ) :
    image input img out c =
      if img * 16384 < c ∧ c ≤ img * 16384 + 16384 then ⟨luminance input (3 * (c - 1)), true⟩ else out c := by
  rw [image, pixels_eq]

/-- **What the kernel leaves**, in any order of the images: every cell from the second on to the one behind
the last has the pixel before it. -/
theorem rgb2gray_eq (horder : order.Perm (List.range inst)) (out : ℕ → Cell) (c : ℕ) :
    rgb2gray input order out c =
      if 0 < c ∧ c ≤ inst * 16384 then ⟨luminance input (3 * (c - 1)), true⟩ else out c := by
  have hmem : ∀ img, img ∈ order ↔ img < inst := fun img => horder.mem_iff.trans List.mem_range
  by_cases hc : 0 < c ∧ c ≤ inst * 16384
  · have himg : (c - 1) / 16384 ∈ order := (hmem _).mpr (by omega)
    have hleave : ∀ img ∈ order, img ≠ (c - 1) / 16384 → ∀ y, image input img y c = y c := by
      intro img _ hne y
      rw [image_eq, if_neg (by omega)]
    obtain ⟨y, hsweep, -⟩ := sweep_own (horder.nodup_iff.mpr List.nodup_range) himg hleave out
    rw [rgb2gray, hsweep, image_eq, if_pos (by omega), if_pos hc]
  · rw [if_neg hc, rgb2gray]
    apply sweep_untouched
    intro img himg y
    have hlt := (hmem img).mp himg
    rw [image_eq, if_neg (by omega)]

/-- **The kernel converts no batch of images**: in any order, it writes the cell behind the last image, leaves
the first cell, and each of the others has twice the red and seven times the blue of the pixel before it. -/
theorem rgb2gray_never_converts (inst : ℕ) (hinst : 1 ≤ inst) (input : ℕ → Datatype)
    (hpixels : ∀ k, (input k).toNat ≤ 255) (order : List ℕ) (horder : order.Perm (List.range inst))
    (out : ℕ → Datatype) :
    ¬ Converted input inst (rgb2gray input order (fresh out)) ∧
      ∀ c, rgb2gray input order (fresh out) c = if 0 < c ∧ c ≤ inst * 16384 then
        ⟨BitVec.ofNat 16 (2 * (input (3 * (c - 1))).toNat + 7 * (input (3 * (c - 1) + 2)).toNat), true⟩
      else ⟨out c, false⟩ := by
  constructor
  · intro h
    have hbehind : (rgb2gray input order (fresh out) (inst * 16384)).written = true := by
      rw [rgb2gray_eq horder, if_pos (by omega)]
    exact absurd (h.inside _ hbehind) (lt_irrefl _)
  · intro c
    rw [rgb2gray_eq horder]
    congr 2
    rw [← luminance_toNat (hpixels _) (hpixels _), BitVec.ofNat_toNat, BitVec.setWidth_eq]

/-- Two black images. -/
theorem rgb2gray_never_converts_black :
    1 ≤ 2 ∧ (∀ _ : ℕ, (0 : Datatype).toNat ≤ 255) ∧ [1, 0].Perm (List.range 2) ∧
      ¬ Converted (fun _ => 0) 2 (rgb2gray (fun _ => 0) [1, 0] (fresh fun _ => 0)) :=
  ⟨by decide, fun _ => by decide, by decide,
    (rgb2gray_never_converts 2 (by decide) (fun _ => 0) (fun _ => by decide) [1, 0] (by decide) fun _ => 0).1⟩

/-- One black image: the cell behind it is written. -/
theorem rgb2gray_writes_behind :
    ¬ ∀ inst, 1 ≤ inst → ∀ input : ℕ → Datatype, (∀ k, (input k).toNat ≤ 255) → ∀ order : List ℕ,
      order.Perm (List.range inst) → ∀ out, Converted input inst (rgb2gray input order (fresh out)) := by
  intro h
  have horder : [0].Perm (List.range 1) := by decide
  have hbehind : (rgb2gray (fun _ => 0) [0] (fresh fun _ => 0) (1 * 16384)).written = true := by
    rw [rgb2gray_eq horder, if_pos (by decide)]
  have hinside := (h 1 le_rfl (fun _ => 0) (fun _ => by decide) [0] horder fun _ => 0).inside _ hbehind
  exact absurd hinside (lt_irrefl _)

end RacerArtifacts.Marss.Rgb2gray
