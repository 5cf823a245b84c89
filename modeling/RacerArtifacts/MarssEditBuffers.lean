import RacerArtifacts.MarssEditDistance

/-! The buffers of `editdistance`. The first loop of `main` fills the block of the short strings with as many
bytes as the long ones have, and the second the other way round. A block keeps, for every position, the byte
that was written there; each has its own addresses, so that what is written past the end of one is in no
other. -/

namespace RacerArtifacts.Marss.EditBuffers

/-- `char` -/
abbrev Byte := BitVec 8

structure Block where
  size : ℕ
  bytes : ℕ → Option Byte

namespace Block

def malloc (size : ℕ) : Block :=
  { size, bytes := fun _ => none }

def write (block : Block) (k : ℕ) (c : Byte) : Block :=
  { block with bytes := Function.update block.bytes k (some c) }

/-- A loop that writes the bytes `0, …, count - 1`. -/
def fill (block : Block) (count : ℕ) (values : ℕ → Byte) : Block :=
  (List.range count).foldl (fun block i => block.write i (values i)) block

/-- The bytes from a position on, up to the first that was not written. -/
def written (bytes : ℕ → Option Byte) : ℕ → ℕ → List Byte
  | _, 0 => []
  | k, n + 1 =>
      match bytes k with
      | some c => c :: written bytes (k + 1) n
      | none => []

/-- `&block[k]`: the bytes of the block that can be read there. A read of any other is out of bounds. -/
def pointer (block : Block) (k : ℕ) : List Byte :=
  written block.bytes k (block.size - k)

end Block

open Block

def a : ℕ := 4096

def b : ℕ := 512

/-- `As`, when it has been filled. -/
def As (M : ℕ) (rand : ℕ → Byte) : Block :=
  (malloc (M * a)).fill (M * b) rand

/-- `Bs`, when it has been filled. -/
def Bs (M : ℕ) (rand : ℕ → Byte) : Block :=
  (malloc (M * b)).fill (M * a) rand

/-- `distances[i]` -/
def distance (As Bs : Block) (i : ℕ) : Except OutOfBounds ℕ :=
  editDistDP (As.pointer (i * a)) (Bs.pointer (i * b)) a b

/-- Everything written is inside its block, and everything read was written. -/
structure Sound (M : ℕ) (As Bs : Block) : Prop where
  insideAs : ∀ k, (As.bytes k).isSome → k < As.size
  insideBs : ∀ k, (Bs.bytes k).isSome → k < Bs.size
  reads : ∀ i < M, ∃ d, distance As Bs i = .ok d

variable {M : ℕ} {block : Block}

theorem fill_size (block : Block) (count : ℕ) (values : ℕ → Byte) :
    (block.fill count values).size = block.size := by
  rw [fill]
  induction count with
  | zero => rfl
  | succ count ih =>
      rw [List.range_succ, List.foldl_append]
      exact ih

theorem fill_bytes (size count : ℕ) (values : ℕ → Byte) (k : ℕ) :
    ((malloc size).fill count values).bytes k = if k < count then some (values k) else none := by
  rw [fill]
  induction count with
  | zero => rfl
  | succ count ih =>
      rw [List.range_succ, List.foldl_append, List.foldl_cons, List.foldl_nil, write]
      dsimp only
      by_cases hk : k = count
      · subst hk
        rw [Function.update_self, if_pos (Nat.lt_succ_self k)]
      · rw [Function.update_of_ne hk, ih]
        apply if_congr _ rfl rfl
        omega

theorem written_length {bytes : ℕ → Option Byte} {count : ℕ} (hbytes : ∀ k, (bytes k).isSome ↔ k < count)
    (k n : ℕ) :
    (written bytes k n).length = min n (count - k) := by
  induction n generalizing k with
  | zero => simp [written]
  | succ n ih =>
      rw [written]
      cases hk : bytes k with
      | none =>
          have hcount : ¬ k < count := fun hlt => by simpa [hk] using (hbytes k).mpr hlt
          rw [List.length_nil]
          omega
      | some c =>
          have hcount : k < count := (hbytes k).mp (by rw [hk]; rfl)
          rw [List.length_cons, ih]
          omega

theorem fill_isSome (size count : ℕ) (values : ℕ → Byte) (k : ℕ) :
    (((malloc size).fill count values).bytes k).isSome ↔ k < count := by
  rw [fill_bytes]
  split_ifs with hk
  · exact iff_of_true rfl hk
  · exact iff_of_false (by simp) hk

theorem fill_pointer_length (size count : ℕ) (values : ℕ → Byte) (k : ℕ) :
    (((malloc size).fill count values).pointer k).length = min (size - k) (count - k) := by
  rw [pointer, written_length (fill_isSome size count values), fill_size]
  rfl

/-- A call reads only what was written while its long string lies in the part of the size of the
short ones. -/
theorem distance_ok_iff (M : ℕ) (randA randB : ℕ → Byte) {i : ℕ} (hi : i < M) :
    (∃ d, distance (As M randA) (Bs M randB) i = .ok d) ↔ 8 * (i + 1) ≤ M := by
  rw [distance, editDistDP_ok_iff (by decide) (by decide), As, Bs, fill_pointer_length, fill_pointer_length]
  simp only [a, b]
  omega

/-- **The buffers are never sound**: every byte of `Bs` from `M * b` on is written past its end, up to `M *
a`; of `As` only the first `M * b` bytes are written, which the last call, among others, reads beyond. -/
theorem buffers_never_sound (M : ℕ) (hM : 1 ≤ M) (randA randB : ℕ → Byte) :
    ¬ Sound M (As M randA) (Bs M randB) ∧
      (∀ k, ((As M randA).bytes k).isSome → k < (As M randA).size) ∧
      (∀ k, ((Bs M randB).bytes k).isSome ∧ ¬ k < (Bs M randB).size ↔ M * 512 ≤ k ∧ k < M * 4096) ∧
      ∀ i < M, (∃ d, distance (As M randA) (Bs M randB) i = .ok d) ↔ 8 * (i + 1) ≤ M := by
  refine ⟨fun h => ?_, fun k hk => ?_, fun k => ?_, fun i hi => distance_ok_iff M randA randB hi⟩
  · have hlast := (distance_ok_iff M randA randB (i := M - 1) (by omega)).mp (h.reads (M - 1) (by omega))
    omega
  · rw [As, fill_isSome] at hk
    rw [As, fill_size]
    show k < M * a
    exact hk.trans_le (Nat.mul_le_mul_left M (by simp [a, b]))
  · rw [Bs, fill_isSome, fill_size]
    simp only [malloc, a, b, not_lt]
    exact and_comm

/-- One pair of strings. -/
theorem buffers_never_sound_one : 1 ≤ 1 ∧ ¬ Sound 1 (As 1 fun _ => 0) (Bs 1 fun _ => 0) :=
  ⟨le_rfl, (buffers_never_sound 1 le_rfl (fun _ => 0) fun _ => 0).1⟩

/-- With one pair, the byte 512 of a block of 512 is written. -/
theorem fill_past_end : ¬ ∀ M, 1 ≤ M → ∀ randA randB, Sound M (As M randA) (Bs M randB) := by
  intro h
  have hsound := h 1 le_rfl (fun _ => 0) (fun _ => 0)
  have hwritten : ((Bs 1 fun _ => 0).bytes 512).isSome := by
    rw [Bs, fill_isSome]
    simp [a]
  have hinside := hsound.insideBs 512 hwritten
  rw [Bs, fill_size] at hinside
  simp [malloc, b] at hinside

end RacerArtifacts.Marss.EditBuffers
