import RacerArtifacts.LibSweep

/-! The kernels that fill a table from their inputs alone: the distances of `manhattan` and `hamming` and the
images of `brightness`, whose entries are computed in an `int` and kept in 16 bits, and the counts of
`wordcount`. The indices are `int`s; they lie below the sizes of the arrays, such as `M * 64` or
`inst*128*128`, which `main` computes as `int`s before. -/

namespace RacerArtifacts.Marss.Pointwise

open Sweep

/-- `unsigned short` -/
abbrev Datatype := BitVec 16

theorem toNat_cast {n : ℕ} : (BitVec.ofNat 16 n).toNat = n % 2 ^ 16 :=
  BitVec.toNat_ofNat n 16

section Distances

/-- The three coordinate arrays of `manhattan`. -/
structure Points where
  X : ℕ → Datatype
  Y : ℕ → Datatype
  Z : ℕ → Datatype

/-- `abs(a - b)` of two `unsigned short`s, as an `int`. -/
def absDiff (a b : Datatype) : ℕ :=
  ((a.toNat : ℤ) - b.toNat).natAbs

/-- The sum of the three differences, before it is stored. -/
def manhattanDistance (points database : Points) (p m : ℕ) : ℕ :=
  absDiff (points.X p) (database.X m) + absDiff (points.Y p) (database.Y m) +
    absDiff (points.Z p) (database.Z m)

/-- The kernel of `manhattan`, its points in the given order. -/
def manhattan (points database : Points) (M : ℕ) (order : List ℕ) (distance : ℕ → Datatype) : ℕ → Datatype :=
  sweep (tableRow M fun p m => BitVec.ofNat 16 (manhattanDistance points database p m)) order distance

/-- `__builtin_popcount` -/
def popcount (x : Datatype) : ℕ :=
  (List.range 16).countP x.getLsbD

/-- The kernel of `hamming`, its points in the given order. -/
def hamming (points database : ℕ → Datatype) (M : ℕ) (order : List ℕ) (distance : ℕ → Datatype) :
    ℕ → Datatype :=
  sweep (tableRow M fun p m => BitVec.ofNat 16 (popcount (points p ^^^ database m))) order distance

variable {M : ℕ} {order : List ℕ}

/-- **The distances of `manhattan`**, for every database and in any order of the points: the table has the
sums of the differences modulo `2 ^ 16` and nothing else is written, so that it has the distances if and only
if none of them reaches `2 ^ 16`. -/
theorem manhattan_exact_iff (points database : Points) (M : ℕ) (order : List ℕ)
    (horder : order.Perm (List.range 64)) (distance : ℕ → Datatype) :
    (∀ p < 64, ∀ m < M, (manhattan points database M order distance (p * M + m)).toNat =
        manhattanDistance points database p m % 2 ^ 16) ∧
      (∀ c, 64 * M ≤ c → manhattan points database M order distance c = distance c) ∧
      ((∀ p < 64, ∀ m < M, (manhattan points database M order distance (p * M + m)).toNat =
          manhattanDistance points database p m) ↔
        ∀ p < 64, ∀ m < M, manhattanDistance points database p m < 2 ^ 16) := by
  have hentry : ∀ p < 64, ∀ m < M, (manhattan points database M order distance (p * M + m)).toNat =
      manhattanDistance points database p m % 2 ^ 16 := by
    intro p hp m hm
    rw [manhattan, sweep_tableRow_entry horder distance hp hm, toNat_cast]
  refine ⟨hentry, fun c hc => ?_, ?_⟩
  · rw [manhattan, sweep_tableRow horder, if_neg (by omega)]
  · constructor
    · intro hexact p hp m hm
      rw [← hexact p hp m hm]
      exact BitVec.isLt _
    · intro hsmall p hp m hm
      rw [hentry p hp m hm, Nat.mod_eq_of_lt (hsmall p hp m hm)]

/-- Two points at distance 65536 get the entry 0. -/
theorem manhattan_exact_iff_far :
    (manhattan ⟨fun _ => 0, fun _ => 0, fun _ => 0⟩ ⟨fun _ => 65535, fun _ => 1, fun _ => 0⟩ 1 (List.range 64)
        (fun _ => 7) 0).toNat = 0 ∧
      manhattanDistance ⟨fun _ => 0, fun _ => 0, fun _ => 0⟩ ⟨fun _ => 65535, fun _ => 1, fun _ => 0⟩ 0 0 =
        65536 := by
  obtain ⟨hentry, -, -⟩ := manhattan_exact_iff ⟨fun _ => 0, fun _ => 0, fun _ => 0⟩
    ⟨fun _ => 65535, fun _ => 1, fun _ => 0⟩ 1 (List.range 64) (List.Perm.refl _) (fun _ => 7)
  exact ⟨hentry 0 (by decide) 0 (by decide), rfl⟩

/-- The table of `hamming` has the number of bits in which the two numbers differ: it does not wrap. -/
theorem hamming_exact (points database : ℕ → Datatype) (horder : order.Perm (List.range 64))
    (distance : ℕ → Datatype) {p m : ℕ} (hp : p < 64) (hm : m < M) :
    (hamming points database M order distance (p * M + m)).toNat =
      (List.range 16).countP fun b => (points p).getLsbD b != (database m).getLsbD b := by
  have hbits : popcount (points p ^^^ database m) =
      (List.range 16).countP fun b => (points p).getLsbD b != (database m).getLsbD b := by
    apply congrArg (List.countP · (List.range 16))
    funext b
    exact BitVec.getLsbD_xor
  have hsmall : popcount (points p ^^^ database m) ≤ 16 := List.countP_le_length
  rw [hamming, sweep_tableRow_entry horder distance hp hm, toNat_cast, Nat.mod_eq_of_lt (by omega), hbits]

end Distances

section Brightness

/-- The body of the loop over the pixels: the sum goes through a `short`. -/
def brighten (pixel : Datatype) : Datatype :=
  let tmp := BitVec.ofInt 16 (pixel.toNat + 128)
  if tmp.toInt ≥ 256 then 255
  else if tmp.toInt < 0 then 0
  else tmp

/-- The kernel of `brightness`, its images in the given order. -/
def brightness (input : ℕ → Datatype) (order : List ℕ) (out : ℕ → Datatype) : ℕ → Datatype :=
  sweep (tableRow 16384 fun img i => brighten (input (img * 16384 + i))) order out

/-- From 32640 on the `short` is negative, and from 65408 on it is the sum less `2 ^ 16`. -/
theorem brighten_toNat (pixel : Datatype) : (brighten pixel).toNat =
    if pixel.toNat < 32640 then min (pixel.toNat + 128) 255
    else if pixel.toNat < 65408 then 0
    else pixel.toNat - 65408 := by
  have hlt : pixel.toNat < 2 ^ 16 := pixel.isLt
  have htmp : (BitVec.ofInt 16 (pixel.toNat + 128)).toNat = (pixel.toNat + 128) % 2 ^ 16 := by
    rw [BitVec.toNat_ofInt]
    omega
  have hsigned := BitVec.toInt_eq_toNat_cond (BitVec.ofInt 16 (pixel.toNat + 128))
  rw [htmp] at hsigned
  have hconstants : (255 : Datatype).toNat = 255 ∧ (0 : Datatype).toNat = 0 := ⟨rfl, rfl⟩
  rw [brighten]
  split_ifs at hsigned ⊢ <;> omega

/-- **The images of `brightness`**, in any order: every pixel is raised by 128 and held at 255 if and only if
every pixel is below 32640. The others wrap: they get 0, and from 65408 on less than 128. Nothing behind the
images is written. -/
theorem brightness_saturates_iff (input : ℕ → Datatype) (inst : ℕ) (order : List ℕ)
    (horder : order.Perm (List.range inst)) (out : ℕ → Datatype) :
    ((∀ c < inst * 16384, (brightness input order out c).toNat = min ((input c).toNat + 128) 255) ↔
        ∀ c < inst * 16384, (input c).toNat < 32640) ∧
      (∀ c < inst * 16384, 32640 ≤ (input c).toNat →
        (brightness input order out c).toNat = (input c).toNat - 65408) ∧
      ∀ c, inst * 16384 ≤ c → brightness input order out c = out c := by
  have hpixel : ∀ c < inst * 16384, brightness input order out c = brighten (input c) := by
    intro c hc
    rw [brightness, sweep_tableRow horder, if_pos hc, Nat.div_add_mod']
  refine ⟨⟨fun hraised c hc => ?_, fun hsmall c hc => ?_⟩, fun c hc hlarge => ?_, fun c hc => ?_⟩
  · have hc' := hraised c hc
    have hlt := (input c).isLt
    rw [hpixel c hc, brighten_toNat] at hc'
    split_ifs at hc' <;> omega
  · rw [hpixel c hc, brighten_toNat, if_pos (hsmall c hc)]
  · rw [hpixel c hc, brighten_toNat, if_neg (by omega)]
    split_ifs <;> omega
  · rw [brightness, sweep_tableRow horder, if_neg (by omega)]

theorem brightness_saturates_iff_two :
    (brightness (fun _ => 200) [1, 0] (fun _ => 7) 20000).toNat = 255 ∧
      brightness (fun _ => 200) [1, 0] (fun _ => 7) 32768 = 7 := by
  obtain ⟨hraised, -, hbehind⟩ :=
    brightness_saturates_iff (fun _ => 200) 2 [1, 0] (List.Perm.swap 0 1 []) (fun _ => 7)
  have hsmall : (200 : Datatype).toNat < 32640 := by decide
  exact ⟨hraised.mpr (fun _ _ => hsmall) 20000 (by decide), hbehind 32768 (by decide)⟩

end Brightness

section Wordcount

/-- The body of the parallel loop of `wordcount`: the spaces of a file of `M` characters. -/
def wordcountFile (files : ℕ → BitVec 8) (M inst : ℕ) (count : ℕ → ℕ) : ℕ → ℕ :=
  accumulate (fun i v => v + if files (inst * M + i) = 32 then 1 else 0) inst (List.range M)
    (Function.update count inst 0)

/-- The kernel of `wordcount`, its files in the given order. -/
def wordcount (files : ℕ → BitVec 8) (M : ℕ) (order : List ℕ) (count : ℕ → ℕ) : ℕ → ℕ :=
  sweep (wordcountFile files M) order count

/-- Each file has the number of its spaces, whatever was in the counts and in any order of the files. -/
theorem wordcount_exact (files : ℕ → BitVec 8) (M : ℕ) {numFile : ℕ} {order : List ℕ}
    (horder : order.Perm (List.range numFile)) (count : ℕ → ℕ) {inst : ℕ} (hinst : inst < numFile) :
    wordcount files M order count inst =
      ((Finset.range M).filter fun i => files (inst * M + i) = 32).card := by
  have hleave : ∀ k ∈ order, k ≠ inst → ∀ y : ℕ → ℕ, wordcountFile files M k y inst = y inst := by
    intro k _ hne y
    rw [wordcountFile, accumulate_of_ne _ hne.symm, Function.update_of_ne hne.symm]
  have hmem : inst ∈ order := horder.mem_iff.mpr (List.mem_range.mpr hinst)
  obtain ⟨y, hsweep, -⟩ := sweep_own (horder.nodup_iff.mpr List.nodup_range) hmem hleave count
  rw [wordcount, hsweep, wordcountFile, accumulate_self, Function.update_self, foldl_range_add, zero_add,
    Finset.card_filter]

end Wordcount

end RacerArtifacts.Marss.Pointwise
