import RacerArtifacts.MramConfig

/-! `addressMapping` takes the fields of a transaction's place off the low end of its address, in an order
that the scheme chooses. -/

namespace RacerArtifacts.Mram

namespace Config

variable (cfg : Config)

def numBanksLog : ℕ :=
  dramsimLog2 cfg.numBanks

def numChansLog : ℕ :=
  dramsimLog2 cfg.numChans

def numRowsLog : ℕ :=
  dramsimLog2 cfg.numRows

def numColsLog : ℕ :=
  dramsimLog2 cfg.numCols

def byteOffsetWidth : ℕ :=
  dramsimLog2 cfg.jedecDataBusBits

def transactionSize : ℕ :=
  unsigned (cfg.jedecDataBusBits * cfg.BL)

def throwAwayBits : ℕ :=
  dramsimLog2 cfg.transactionSize

def colLowBitWidth : ℕ :=
  unsigned (cfg.throwAwayBits - cfg.byteOffsetWidth)

end Config

/-- Where an address lies. -/
structure Place where
  chan : ℕ
  rank : ℕ
  bank : ℕ
  row : ℕ
  column : ℕ
  deriving DecidableEq, Repr

/-- One field: the low `width` bits of the address, cut to 32 bits, and the address without them. A shift
by 64 or more leaves nothing (C++ does not define it). -/
def takeField (physicalAddress : BitVec 64) (width : ℕ) : ℕ × BitVec 64 :=
  let tempA := physicalAddress
  let shifted := physicalAddress >>> width
  let tempB := shifted <<< width
  (((tempA ^^^ tempB).setWidth 32).toNat, shifted)

def addressMapping (cfg : Config) (physicalAddress : BitVec 64) (transactionCount : ℕ) : Place :=
  let channelBitWidth := cfg.numChansLog
  let rankBitWidth := cfg.numRanksLog
  let bankBitWidth := cfg.numBanksLog
  let rowBitWidth := cfg.numRowsLog
  let colHighBitWidth := unsigned (cfg.numColsLog - cfg.colLowBitWidth)
  let address := physicalAddress >>> cfg.byteOffsetWidth >>> cfg.colLowBitWidth
  match cfg.addressMappingScheme with
  | .scheme1 =>
      -- chan:rank:row:col:bank
      let (bank, address) := takeField address bankBitWidth
      let (column, address) := takeField address colHighBitWidth
      let (row, address) := takeField address rowBitWidth
      let (rank, address) := takeField address rankBitWidth
      let (chan, _) := takeField address channelBitWidth
      ⟨chan, rank, bank, row, column⟩
  | .scheme2 =>
      -- chan:row:col:bank:rank
      let (rank, address) := takeField address rankBitWidth
      let (bank, address) := takeField address bankBitWidth
      let (column, address) := takeField address colHighBitWidth
      let (row, address) := takeField address rowBitWidth
      let (chan, _) := takeField address channelBitWidth
      ⟨chan, rank, bank, row, column⟩
  | .scheme3 =>
      -- chan:rank:bank:col:row
      let (row, address) := takeField address rowBitWidth
      let (column, address) := takeField address colHighBitWidth
      let (bank, address) := takeField address bankBitWidth
      let (rank, address) := takeField address rankBitWidth
      let (chan, _) := takeField address channelBitWidth
      ⟨chan, rank, bank, row, column⟩
  | .scheme4 =>
      -- chan:rank:bank:row:col
      let (column, address) := takeField address colHighBitWidth
      let (row, address) := takeField address rowBitWidth
      let (bank, address) := takeField address bankBitWidth
      let (rank, address) := takeField address rankBitWidth
      let (chan, _) := takeField address channelBitWidth
      ⟨chan, rank, bank, row, column⟩
  | .scheme5 =>
      -- chan:row:col:rank:bank
      let (bank, address) := takeField address bankBitWidth
      let (rank, address) := takeField address rankBitWidth
      let (column, address) := takeField address colHighBitWidth
      let (row, address) := takeField address rowBitWidth
      let (chan, _) := takeField address channelBitWidth
      ⟨chan, rank, bank, row, column⟩
  | .scheme6 =>
      -- chan:row:bank:rank:col
      let (column, address) := takeField address colHighBitWidth
      let (rank, address) := takeField address rankBitWidth
      let (bank, address) := takeField address bankBitWidth
      let (row, address) := takeField address rowBitWidth
      let (chan, _) := takeField address channelBitWidth
      ⟨chan, rank, bank, row, column⟩
  | .scheme7 =>
      -- row:col:rank:bank:chan
      let (chan, address) := takeField address channelBitWidth
      let (bank, address) := takeField address bankBitWidth
      let (rank, address) := takeField address rankBitWidth
      let (column, address) := takeField address colHighBitWidth
      let (row, _) := takeField address rowBitWidth
      ⟨chan, rank, bank, row, column⟩
  | .scheme8 =>
      -- scheme 7, with the channels taken in turn where a count is given
      let (chan, address) := takeField address channelBitWidth
      let (bank, address) := takeField address bankBitWidth
      let (rank, address) := takeField address rankBitWidth
      let (column, address) := takeField address colHighBitWidth
      let (row, _) := takeField address rowBitWidth
      ⟨if transactionCount ≠ 0 then transactionCount % cfg.numChans else chan, rank, bank, row, column⟩

theorem xor_shifts_toNat (physicalAddress : BitVec 64) (width : ℕ) :
    (physicalAddress ^^^ (physicalAddress >>> width <<< width)).toNat =
      physicalAddress.toNat % 2 ^ width := by
  apply Nat.eq_of_testBit_eq
  intro i
  rw [← BitVec.getLsbD, BitVec.getLsbD_xor, Nat.testBit_mod_two_pow, BitVec.getLsbD_shiftLeft]
  by_cases hi : i < width
  · simp [hi, BitVec.getLsbD]
  · have hge : width ≤ i := not_lt.mp hi
    by_cases h64 : i < 64
    · simp [hi, h64, BitVec.getLsbD_ushiftRight, Nat.add_sub_cancel' hge]
    · simp [hi, h64, BitVec.getLsbD_of_ge physicalAddress i (not_lt.mp h64)]

theorem takeField_lt (physicalAddress : BitVec 64) (width : ℕ) :
    (takeField physicalAddress width).1 < 2 ^ width := by
  have hle : (takeField physicalAddress width).1 ≤ physicalAddress.toNat % 2 ^ width := by
    rw [takeField]
    simp only [BitVec.toNat_setWidth]
    rw [xor_shifts_toNat]
    exact Nat.mod_le _ _
  exact lt_of_le_of_lt hle (Nat.mod_lt _ (Nat.two_pow_pos width))

theorem takeField_fst {width : ℕ} (hwidth : width ≤ 32) (physicalAddress : BitVec 64) :
    (takeField physicalAddress width).1 = physicalAddress.toNat % 2 ^ width := by
  rw [takeField]
  simp only [BitVec.toNat_setWidth]
  rw [xor_shifts_toNat]
  apply Nat.mod_eq_of_lt
  calc physicalAddress.toNat % 2 ^ width < 2 ^ width := Nat.mod_lt _ (Nat.two_pow_pos width)
    _ ≤ 2 ^ 32 := Nat.pow_le_pow_right Nat.two_pos hwidth

theorem takeField_snd (physicalAddress : BitVec 64) (width : ℕ) :
    (takeField physicalAddress width).2.toNat = physicalAddress.toNat / 2 ^ width := by
  rw [takeField, BitVec.toNat_ushiftRight, Nat.shiftRight_eq_div_pow]

/-- The rank and the bank of an address fit their widths, in every scheme. -/
theorem addressMapping_lt (cfg : Config) (physicalAddress : BitVec 64) (transactionCount : ℕ) :
    (addressMapping cfg physicalAddress transactionCount).rank < 2 ^ cfg.numRanksLog ∧
      (addressMapping cfg physicalAddress transactionCount).bank < 2 ^ cfg.numBanksLog := by
  unfold addressMapping
  cases cfg.addressMappingScheme with
  | scheme1 => exact ⟨takeField_lt _ _, takeField_lt _ _⟩
  | scheme2 => exact ⟨takeField_lt _ _, takeField_lt _ _⟩
  | scheme3 => exact ⟨takeField_lt _ _, takeField_lt _ _⟩
  | scheme4 => exact ⟨takeField_lt _ _, takeField_lt _ _⟩
  | scheme5 => exact ⟨takeField_lt _ _, takeField_lt _ _⟩
  | scheme6 => exact ⟨takeField_lt _ _, takeField_lt _ _⟩
  | scheme7 => exact ⟨takeField_lt _ _, takeField_lt _ _⟩
  | scheme8 => exact ⟨takeField_lt _ _, takeField_lt _ _⟩

theorem addressMapping_chan_lt (cfg : Config) (physicalAddress : BitVec 64) :
    (addressMapping cfg physicalAddress 0).chan < 2 ^ cfg.numChansLog := by
  unfold addressMapping
  cases cfg.addressMappingScheme with
  | scheme1 => exact takeField_lt _ _
  | scheme2 => exact takeField_lt _ _
  | scheme3 => exact takeField_lt _ _
  | scheme4 => exact takeField_lt _ _
  | scheme5 => exact takeField_lt _ _
  | scheme6 => exact takeField_lt _ _
  | scheme7 => exact takeField_lt _ _
  | scheme8 => exact takeField_lt _ _

theorem addressMapping_count {cfg : Config} (hscheme : cfg.addressMappingScheme ≠ .scheme8)
    (physicalAddress : BitVec 64) (transactionCount : ℕ) :
    addressMapping cfg physicalAddress transactionCount = addressMapping cfg physicalAddress 0 := by
  unfold addressMapping
  cases hs : cfg.addressMappingScheme with
  | scheme8 => exact absurd hs hscheme
  | _ => rfl

/-- Scheme 8 takes the channel from the count, unless it is 0. -/
theorem addressMapping_scheme8 {cfg : Config} (hscheme : cfg.addressMappingScheme = .scheme8)
    (physicalAddress : BitVec 64) (transactionCount : ℕ) :
    (addressMapping cfg physicalAddress transactionCount).chan =
      if transactionCount = 0 then (addressMapping cfg physicalAddress 0).chan
      else transactionCount % cfg.numChans := by
  by_cases hzero : transactionCount = 0
  · rw [if_pos hzero, hzero]
  · rw [if_neg hzero]
    unfold addressMapping
    rw [hscheme]
    exact if_pos hzero

theorem takeField_zero (width : ℕ) : takeField 0#64 width = (0, 0#64) := by
  simp [takeField]

theorem addressMapping_zero (cfg : Config) : (addressMapping cfg 0 0).chan = 0 := by
  unfold addressMapping
  cases cfg.addressMappingScheme <;> simp [takeField_zero]

/-- Powers of two for the numbers of ranks and banks, as the memory system computes their logarithms. -/
structure Config.PowersOfTwo (cfg : Config) : Prop where
  numRanks_eq : cfg.numRanks = 2 ^ cfg.numRanksLog
  banks : ∃ k, cfg.numBanks = 2 ^ k

/-- With powers of two every address has a rank and a bank that exist. -/
theorem Config.PowersOfTwo.inRange {cfg : Config} (h : cfg.PowersOfTwo) (physicalAddress : BitVec 64)
    (transactionCount : ℕ) :
    (addressMapping cfg physicalAddress transactionCount).rank < cfg.numRanks ∧
      (addressMapping cfg physicalAddress transactionCount).bank < cfg.numBanks := by
  obtain ⟨k, hk⟩ := h.banks
  obtain ⟨hrank, hbank⟩ := addressMapping_lt cfg physicalAddress transactionCount
  rw [Config.numBanksLog, hk, dramsimLog2_two_pow, ← hk] at hbank
  rw [← h.numRanks_eq] at hrank
  exact ⟨hrank, hbank⟩

end RacerArtifacts.Mram
