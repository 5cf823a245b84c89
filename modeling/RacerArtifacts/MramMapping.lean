import RacerArtifacts.LibMixedRadix
import RacerArtifacts.MramAddressMapping

/-! `addressMapping` as a count in a mixed radix: a scheme is an order of the five fields, and the places of
the transactions of a memory are its digits. The storage of a rank, as `MemorySystem` computes it, is the
capacity that the mapping covers, as long as it fits a `long long`. -/

namespace RacerArtifacts.Mram

open MixedRadix

/-! ### Storage -/

namespace Config

variable (cfg : Config)

/-- The bytes that the addresses of the memory range over. -/
def capacity : ℕ :=
  cfg.numChans * cfg.numRanks * cfg.numBanks * cfg.numRows * cfg.numCols * cfg.jedecDataBusBits

/-- The bytes of a rank. -/
def storagePerRank : ℕ :=
  cfg.numRows * cfg.numCols * cfg.numBanks * cfg.jedecDataBusBits

/-- The total that `addressMapping` prints. -/
def addressWidth : ℕ :=
  cfg.numChansLog + cfg.numRanksLog + cfg.numBanksLog + cfg.numRowsLog + cfg.numColsLog + cfg.byteOffsetWidth

/-- `megsOfStoragePerRank`, computed in `long long` but for the product of the columns and their width. The
products wrap here; C++ leaves their overflow undefined. -/
def megsOfStoragePerRank (deviceWidth : ℕ) : ℕ :=
  let storagePerDevice :=
    BitVec.ofNat 64 cfg.numRows * BitVec.ofNat 64 (unsigned (cfg.numCols * deviceWidth)) *
      BitVec.ofNat 64 cfg.numBanks
  let devices := BitVec.ofNat 64 (cfg.jedecDataBusBits / deviceWidth)
  ((storagePerDevice * devices).sshiftRight 20).toNat

/-- The number of ranks, as the constructor of `MemorySystem` sets it; `none` where it divides by zero. -/
def setRanks (deviceWidth megsOfMemory : ℕ) : Option Config :=
  let megsOfStoragePerRank := cfg.megsOfStoragePerRank deviceWidth
  if megsOfMemory ≠ 0 then
    if megsOfStoragePerRank = 0 then none
    else
      let numRanks := unsigned (megsOfMemory / megsOfStoragePerRank)
      let numRanksLog := dramsimLog2 numRanks
      if hzero : numRanks = 0 then some { cfg with numRanks := 1, numRanksLog, ranks_pos := Nat.one_pos }
      else some { cfg with numRanks, numRanksLog, ranks_pos := Nat.pos_of_ne_zero hzero }
  else some cfg

/-- A constructor that sets the number of ranks sets its width with it. -/
theorem setRanks_numRanksLog {cfg cfg' : Config} {deviceWidth megsOfMemory : ℕ} (hmegs : megsOfMemory ≠ 0)
    (h : cfg.setRanks deviceWidth megsOfMemory = some cfg') :
    cfg'.numRanksLog = dramsimLog2 cfg'.numRanks := by
  simp only [setRanks, if_pos hmegs] at h
  split at h
  · cases h
  · split at h
    · rename_i hzero
      cases h
      change dramsimLog2 _ = dramsimLog2 1
      rw [hzero]
      decide
    · cases h
      rfl

end Config

/-! ### Fields -/

inductive Field where
  | chan
  | rank
  | bank
  | row
  | column
  deriving DecidableEq

def Place.field (p : Place) : Field → ℕ
  | .chan => p.chan
  | .rank => p.rank
  | .bank => p.bank
  | .row => p.row
  | .column => p.column

theorem Place.eq_of_field {p q : Place} (h : ∀ f, p.field f = q.field f) : p = q := by
  cases p
  cases q
  rw [Place.mk.injEq]
  exact ⟨h .chan, h .rank, h .bank, h .row, h .column⟩

def Config.fieldWidth (cfg : Config) : Field → ℕ
  | .chan => cfg.numChansLog
  | .rank => cfg.numRanksLog
  | .bank => cfg.numBanksLog
  | .row => cfg.numRowsLog
  | .column => unsigned (cfg.numColsLog - cfg.colLowBitWidth)

/-- How many values a field has. -/
def Config.fieldSize (cfg : Config) : Field → ℕ
  | .chan => cfg.numChans
  | .rank => cfg.numRanks
  | .bank => cfg.numBanks
  | .row => cfg.numRows
  | .column => cfg.numCols / cfg.BL

/-- The fields of a scheme, the lowest first. -/
def AddressMappingScheme.order : AddressMappingScheme → List Field
  | .scheme1 => [.bank, .column, .row, .rank, .chan]
  | .scheme2 => [.rank, .bank, .column, .row, .chan]
  | .scheme3 => [.row, .column, .bank, .rank, .chan]
  | .scheme4 => [.column, .row, .bank, .rank, .chan]
  | .scheme5 => [.bank, .rank, .column, .row, .chan]
  | .scheme6 => [.column, .rank, .bank, .row, .chan]
  | .scheme7 => [.chan, .bank, .rank, .column, .row]
  | .scheme8 => [.chan, .bank, .rank, .column, .row]

theorem AddressMappingScheme.order_perm (scheme : AddressMappingScheme) :
    scheme.order.Perm [.chan, .rank, .bank, .row, .column] := by
  cases scheme <;> decide

theorem AddressMappingScheme.mem_order (scheme : AddressMappingScheme) (f : Field) : f ∈ scheme.order := by
  rw [scheme.order_perm.mem_iff]
  cases f <;> decide

/-- A place of the memory. -/
def Place.InRange (cfg : Config) (p : Place) : Prop :=
  p.chan < cfg.numChans ∧ p.rank < cfg.numRanks ∧ p.bank < cfg.numBanks ∧ p.row < cfg.numRows ∧
    p.column < cfg.numCols / cfg.BL

theorem Place.inRange_iff {cfg : Config} {p : Place} : p.InRange cfg ↔ ∀ f, p.field f < cfg.fieldSize f := by
  constructor
  · rintro ⟨hchan, hrank, hbank, hrow, hcolumn⟩ f
    cases f with
    | chan => exact hchan
    | rank => exact hrank
    | bank => exact hbank
    | row => exact hrow
    | column => exact hcolumn
  · intro h
    exact ⟨h .chan, h .rank, h .bank, h .row, h .column⟩

theorem Place.inRange_iff_below {cfg : Config} {p : Place} (scheme : AddressMappingScheme) :
    p.InRange cfg ↔ Below (scheme.order.map p.field) (scheme.order.map cfg.fieldSize) := by
  rw [inRange_iff, below_map_iff]
  exact ⟨fun h f _ => h f, fun h f => h f (scheme.mem_order f)⟩

/-- The address of a transaction, without the bits inside it. -/
def Config.transactionNumber (cfg : Config) (physicalAddress : BitVec 64) : ℕ :=
  (physicalAddress >>> cfg.byteOffsetWidth >>> cfg.colLowBitWidth).toNat

/-- The fields of an address are the digits of its transaction number, in the order of the scheme. -/
theorem addressMapping_digits {cfg : Config} (hwidth : ∀ f, cfg.fieldWidth f ≤ 32) {transactionCount : ℕ}
    (hcount : cfg.addressMappingScheme = .scheme8 → transactionCount = 0) (physicalAddress : BitVec 64) :
    cfg.addressMappingScheme.order.map (addressMapping cfg physicalAddress transactionCount).field =
      digits (cfg.addressMappingScheme.order.map fun f => 2 ^ cfg.fieldWidth f)
        (cfg.transactionNumber physicalAddress) := by
  have hchan := takeField_fst (hwidth .chan)
  have hrank := takeField_fst (hwidth .rank)
  have hbank := takeField_fst (hwidth .bank)
  have hrow := takeField_fst (hwidth .row)
  have hcolumn := takeField_fst (hwidth .column)
  simp only [Config.fieldWidth] at hchan hrank hbank hrow hcolumn
  unfold addressMapping
  cases hs : cfg.addressMappingScheme <;>
    simp only [AddressMappingScheme.order, List.map, Place.field, digits, Config.fieldWidth,
      Config.transactionNumber, hchan, hrank, hbank, hrow, hcolumn, takeField_snd]
  simp [hcount hs]

/-! ### Powers of two -/

/-- Parameters that are powers of two, within the 32 bits of an `unsigned`, and addresses of at
most 63 bits. -/
structure Config.Sized (cfg : Config) (deviceWidth : ℕ) : Prop where
  chans : ∃ k, cfg.numChans = 2 ^ k
  ranks : ∃ k, cfg.numRanks = 2 ^ k
  banks : ∃ k, cfg.numBanks = 2 ^ k
  rows : ∃ k, cfg.numRows = 2 ^ k
  cols : ∃ k, cfg.numCols = 2 ^ k
  dataBus : ∃ k, cfg.jedecDataBusBits = 2 ^ k
  bursts : ∃ k, cfg.BL = 2 ^ k
  numRanksLog_eq : cfg.numRanksLog = dramsimLog2 cfg.numRanks
  chans_lt : cfg.numChans < 2 ^ 32
  ranks_lt : cfg.numRanks < 2 ^ 32
  banks_lt : cfg.numBanks < 2 ^ 32
  rows_lt : cfg.numRows < 2 ^ 32
  BL_le : cfg.BL ≤ cfg.numCols
  transaction_lt : cfg.jedecDataBusBits * cfg.BL < 2 ^ 32
  columns_lt : cfg.numCols * deviceWidth < 2 ^ 32
  deviceWidth_dvd : deviceWidth ∣ cfg.jedecDataBusBits
  addressWidth_le : cfg.addressWidth ≤ 63

theorem two_pow_dramsimLog2 {n : ℕ} (h : ∃ k, n = 2 ^ k) : 2 ^ dramsimLog2 n = n := by
  obtain ⟨k, rfl⟩ := h
  rw [dramsimLog2_two_pow]

theorem dramsimLog2_le {n : ℕ} (h : ∃ k, n = 2 ^ k) (hlt : n < 2 ^ 32) : dramsimLog2 n ≤ 32 := by
  obtain ⟨k, rfl⟩ := h
  rw [dramsimLog2_two_pow]
  exact ((Nat.pow_lt_pow_iff_right Nat.one_lt_two).mp hlt).le

namespace Config.Sized

variable {cfg : Config} {deviceWidth : ℕ} (h : cfg.Sized deviceWidth)

include h

theorem deviceWidth_pos : 0 < deviceWidth := by
  obtain ⟨k, hk⟩ := h.dataBus
  apply Nat.pos_of_dvd_of_pos h.deviceWidth_dvd
  rw [hk]
  exact Nat.two_pow_pos k

theorem cols_lt : cfg.numCols < 2 ^ 32 :=
  lt_of_le_of_lt (Nat.le_mul_of_pos_right _ h.deviceWidth_pos) h.columns_lt

theorem transactionSize_eq : cfg.transactionSize = cfg.jedecDataBusBits * cfg.BL := by
  rw [Config.transactionSize, ← Nat.cast_mul, unsigned_natCast h.transaction_lt]

theorem colLowBitWidth_eq : cfg.colLowBitWidth = dramsimLog2 cfg.BL := by
  have hle : dramsimLog2 cfg.BL ≤ 32 := dramsimLog2_le h.bursts (lt_of_le_of_lt h.BL_le h.cols_lt)
  obtain ⟨j, hj⟩ := h.dataBus
  obtain ⟨b, hb⟩ := h.bursts
  rw [hb, dramsimLog2_two_pow] at hle
  rw [Config.colLowBitWidth, Config.throwAwayBits, h.transactionSize_eq, Config.byteOffsetWidth, hj,
    hb, ← pow_add,
    dramsimLog2_two_pow, dramsimLog2_two_pow, dramsimLog2_two_pow, Nat.cast_add, add_sub_cancel_left]
  exact unsigned_natCast (by omega)

theorem burstsLog_le : dramsimLog2 cfg.BL ≤ cfg.numColsLog := by
  rw [← Nat.pow_le_pow_iff_right Nat.one_lt_two, two_pow_dramsimLog2 h.bursts, Config.numColsLog,
    two_pow_dramsimLog2 h.cols]
  exact h.BL_le

theorem fieldWidth_column : cfg.fieldWidth .column = cfg.numColsLog - dramsimLog2 cfg.BL := by
  have hcols : cfg.numColsLog ≤ 32 := dramsimLog2_le h.cols h.cols_lt
  rw [Config.fieldWidth, h.colLowBitWidth_eq, ← Nat.cast_sub h.burstsLog_le]
  exact unsigned_natCast (by omega)

theorem two_pow_fieldWidth (f : Field) : 2 ^ cfg.fieldWidth f = cfg.fieldSize f := by
  cases f with
  | chan => exact two_pow_dramsimLog2 h.chans
  | rank =>
      change 2 ^ cfg.numRanksLog = cfg.numRanks
      rw [h.numRanksLog_eq, two_pow_dramsimLog2 h.ranks]
  | bank => exact two_pow_dramsimLog2 h.banks
  | row => exact two_pow_dramsimLog2 h.rows
  | column =>
      rw [h.fieldWidth_column, ← Nat.pow_div h.burstsLog_le Nat.two_pos, Config.numColsLog,
        two_pow_dramsimLog2 h.cols, two_pow_dramsimLog2 h.bursts]
      rfl

theorem fieldWidth_le (f : Field) : cfg.fieldWidth f ≤ 32 := by
  cases f with
  | chan => exact dramsimLog2_le h.chans h.chans_lt
  | rank =>
      change cfg.numRanksLog ≤ 32
      rw [h.numRanksLog_eq]
      exact dramsimLog2_le h.ranks h.ranks_lt
  | bank => exact dramsimLog2_le h.banks h.banks_lt
  | row => exact dramsimLog2_le h.rows h.rows_lt
  | column =>
      rw [h.fieldWidth_column]
      exact le_trans (Nat.sub_le _ _) (dramsimLog2_le h.cols h.cols_lt)

theorem transactionNumber_eq (physicalAddress : BitVec 64) :
    cfg.transactionNumber physicalAddress = physicalAddress.toNat / cfg.transactionSize := by
  rw [Config.transactionNumber, BitVec.toNat_ushiftRight, BitVec.toNat_ushiftRight, Nat.shiftRight_eq_div_pow,
    Nat.shiftRight_eq_div_pow, Nat.div_div_eq_div_mul, h.colLowBitWidth_eq, Config.byteOffsetWidth,
    two_pow_dramsimLog2 h.dataBus, two_pow_dramsimLog2 h.bursts, h.transactionSize_eq]

theorem BL_dvd : cfg.BL ∣ cfg.numCols := by
  obtain ⟨b, hb⟩ := h.bursts
  obtain ⟨c, hc⟩ := h.cols
  have hle := h.BL_le
  rw [hb, hc] at hle ⊢
  exact pow_dvd_pow 2 ((Nat.pow_le_pow_iff_right Nat.one_lt_two).mp hle)

theorem capacity_eq (scheme : AddressMappingScheme) :
    cfg.capacity = cfg.transactionSize * (scheme.order.map cfg.fieldSize).prod := by
  rw [(scheme.order_perm.map cfg.fieldSize).prod_eq, h.transactionSize_eq]
  have hcols : cfg.BL * (cfg.numCols / cfg.BL) = cfg.numCols := Nat.mul_div_cancel' h.BL_dvd
  calc cfg.capacity
      = cfg.numChans * cfg.numRanks * cfg.numBanks * cfg.numRows * (cfg.BL * (cfg.numCols / cfg.BL)) *
          cfg.jedecDataBusBits := by rw [hcols, Config.capacity]
    _ = cfg.jedecDataBusBits * cfg.BL *
          (([.chan, .rank, .bank, .row, .column] : List Field).map cfg.fieldSize).prod := by
        simp only [List.map, List.prod_cons, List.prod_nil, Config.fieldSize]
        ring

theorem capacity_le : cfg.capacity ≤ 2 ^ 63 := by
  have hpow : cfg.capacity = 2 ^ cfg.addressWidth := by
    simp only [Config.addressWidth, pow_add, Config.numChansLog, Config.numBanksLog, Config.numRowsLog,
      Config.numColsLog, Config.byteOffsetWidth, h.numRanksLog_eq, two_pow_dramsimLog2 h.chans,
      two_pow_dramsimLog2 h.ranks, two_pow_dramsimLog2 h.banks, two_pow_dramsimLog2 h.rows,
      two_pow_dramsimLog2 h.cols, two_pow_dramsimLog2 h.dataBus, Config.capacity]
  rw [hpow]
  exact Nat.pow_le_pow_right Nat.two_pos h.addressWidth_le

/-- The fields of an address are the digits of the number of its transaction. -/
theorem fields_eq {transactionCount : ℕ} (hcount : cfg.addressMappingScheme = .scheme8 → transactionCount = 0)
    (physicalAddress : BitVec 64) :
    cfg.addressMappingScheme.order.map (addressMapping cfg physicalAddress transactionCount).field =
      digits (cfg.addressMappingScheme.order.map cfg.fieldSize)
        (physicalAddress.toNat / cfg.transactionSize) := by
  rw [addressMapping_digits h.fieldWidth_le hcount, h.transactionNumber_eq]
  simp only [h.two_pow_fieldWidth]

theorem fieldSize_pos (scheme : AddressMappingScheme) : ∀ n ∈ scheme.order.map cfg.fieldSize, 0 < n := by
  intro n hn
  obtain ⟨f, -, rfl⟩ := List.mem_map.mp hn
  rw [← h.two_pow_fieldWidth]
  exact Nat.two_pow_pos _

theorem addressMapping_inRange {transactionCount : ℕ}
    (hcount : cfg.addressMappingScheme = .scheme8 → transactionCount = 0) (physicalAddress : BitVec 64) :
    (addressMapping cfg physicalAddress transactionCount).InRange cfg := by
  rw [Place.inRange_iff_below cfg.addressMappingScheme, h.fields_eq hcount]
  exact digits_below (h.fieldSize_pos cfg.addressMappingScheme) _

theorem transactionSize_pos : 0 < cfg.transactionSize := by
  rw [h.transactionSize_eq]
  obtain ⟨j, hj⟩ := h.dataBus
  obtain ⟨b, hb⟩ := h.bursts
  rw [hj, hb]
  positivity

/-- **The transactions of the memory and its places, one to one.** -/
theorem addressMapping_bijOn {transactionCount : ℕ}
    (hcount : cfg.addressMappingScheme = .scheme8 → transactionCount = 0) :
    Set.BijOn (fun physicalAddress => addressMapping cfg physicalAddress transactionCount)
      {physicalAddress | cfg.transactionSize ∣ physicalAddress.toNat ∧ physicalAddress.toNat < cfg.capacity}
      {p | p.InRange cfg} := by
  have hcapacity := h.capacity_eq cfg.addressMappingScheme
  have hbij := digits_bijOn (h.fieldSize_pos cfg.addressMappingScheme)
  refine ⟨fun a _ => h.addressMapping_inRange hcount a, ?_, ?_⟩
  · rintro a ⟨⟨n, hn⟩, ha⟩ a' ⟨⟨n', hn'⟩, ha'⟩ heq
    have hdigits := h.fields_eq hcount a
    rw [show addressMapping cfg a transactionCount = addressMapping cfg a' transactionCount from heq,
      h.fields_eq hcount a', hn, hn', Nat.mul_div_cancel_left _ h.transactionSize_pos,
      Nat.mul_div_cancel_left _ h.transactionSize_pos] at hdigits
    rw [hn, hcapacity] at ha
    rw [hn', hcapacity] at ha'
    have hsame : n' = n := hbij.injOn (Nat.lt_of_mul_lt_mul_left ha') (Nat.lt_of_mul_lt_mul_left ha) hdigits
    apply BitVec.eq_of_toNat_eq
    rw [hn, hn', hsame]
  · intro p hp
    obtain ⟨n, hn, hdigits⟩ := hbij.surjOn ((Place.inRange_iff_below cfg.addressMappingScheme).mp hp)
    have hlt : cfg.transactionSize * n < cfg.capacity := by
      rw [hcapacity]
      exact Nat.mul_lt_mul_of_pos_left hn h.transactionSize_pos
    have htoNat : (BitVec.ofNat 64 (cfg.transactionSize * n)).toNat = cfg.transactionSize * n := by
      rw [BitVec.toNat_ofNat]
      exact Nat.mod_eq_of_lt (lt_of_lt_of_le hlt (le_trans h.capacity_le (by norm_num)))
    refine ⟨BitVec.ofNat 64 (cfg.transactionSize * n), ⟨?_, ?_⟩, ?_⟩
    · rw [htoNat]
      exact Nat.dvd_mul_right _ _
    · rw [htoNat]
      exact hlt
    · have hfields := h.fields_eq hcount (BitVec.ofNat 64 (cfg.transactionSize * n))
      rw [htoNat, Nat.mul_div_cancel_left _ h.transactionSize_pos, hdigits, List.map_inj_left] at hfields
      exact Place.eq_of_field fun f => hfields f (cfg.addressMappingScheme.mem_order f)

/-- The storage of a rank in megabytes, if its bytes fit a `long long`. -/
theorem megsOfStoragePerRank_eq (hfits : cfg.storagePerRank < 2 ^ 63) :
    cfg.megsOfStoragePerRank deviceWidth = cfg.storagePerRank / 2 ^ 20 := by
  have hproduct : cfg.numRows * (cfg.numCols * deviceWidth) * cfg.numBanks *
      (cfg.jedecDataBusBits / deviceWidth) =
        cfg.storagePerRank := by
    have hbus : deviceWidth * (cfg.jedecDataBusBits / deviceWidth) = cfg.jedecDataBusBits :=
      Nat.mul_div_cancel' h.deviceWidth_dvd
    calc cfg.numRows * (cfg.numCols * deviceWidth) * cfg.numBanks * (cfg.jedecDataBusBits / deviceWidth)
        = cfg.numRows * cfg.numCols * cfg.numBanks *
        (deviceWidth * (cfg.jedecDataBusBits / deviceWidth)) := by ring
      _ = cfg.storagePerRank := by rw [hbus, Config.storagePerRank]
  have htoNat : (BitVec.ofNat 64 cfg.storagePerRank).toNat = cfg.storagePerRank := by
    rw [BitVec.toNat_ofNat]
    exact Nat.mod_eq_of_lt (lt_trans hfits (by norm_num))
  have hmsb : (BitVec.ofNat 64 cfg.storagePerRank).msb = false := by
    rw [BitVec.msb_eq_false_iff_two_mul_lt, htoNat]
    omega
  rw [Config.megsOfStoragePerRank, ← Nat.cast_mul, unsigned_natCast h.columns_lt]
  simp only [BitVec.ofNat_mul_ofNat, hproduct]
  rw [BitVec.sshiftRight_eq_of_msb_false hmsb, BitVec.toNat_ushiftRight, htoNat, Nat.shiftRight_eq_div_pow]

theorem capacity_megs (hmegs : 2 ^ 20 ∣ cfg.storagePerRank) (hfits : cfg.storagePerRank < 2 ^ 63) :
    cfg.capacity / 2 ^ 20 = cfg.numChans * cfg.numRanks * cfg.megsOfStoragePerRank deviceWidth := by
  rw [h.megsOfStoragePerRank_eq hfits, ← Nat.mul_div_assoc _ hmegs]
  congr 1
  simp only [Config.capacity, Config.storagePerRank]
  ring

end Config.Sized

/-- **The mapping covers the configured storage**, each place once, and leads out of it from nowhere. -/
theorem addressMapping_covers {cfg : Config} {deviceWidth transactionCount : ℕ} (h : cfg.Sized deviceWidth)
    (hcount : cfg.addressMappingScheme = .scheme8 → transactionCount = 0) :
    Set.BijOn (fun physicalAddress => addressMapping cfg physicalAddress transactionCount)
        {physicalAddress | cfg.transactionSize ∣ physicalAddress.toNat ∧ physicalAddress.toNat < cfg.capacity}
        {p | p.InRange cfg} ∧
      (∀ physicalAddress, (addressMapping cfg physicalAddress transactionCount).InRange cfg) ∧
      (2 ^ 20 ∣ cfg.storagePerRank → cfg.storagePerRank < 2 ^ 63 →
        cfg.capacity / 2 ^ 20 = cfg.numChans * cfg.numRanks * cfg.megsOfStoragePerRank deviceWidth) :=
  ⟨h.addressMapping_bijOn hcount, h.addressMapping_inRange hcount, h.capacity_megs⟩

theorem sized_ddr2Micron : (ddr2Micron 2 Nat.two_pos).Sized 8 where
  chans := ⟨4, rfl⟩
  ranks := ⟨1, rfl⟩
  banks := ⟨3, rfl⟩
  rows := ⟨14, rfl⟩
  cols := ⟨10, rfl⟩
  dataBus := ⟨9, rfl⟩
  bursts := ⟨2, rfl⟩
  numRanksLog_eq := rfl
  chans_lt := by decide
  ranks_lt := by decide
  banks_lt := by decide
  rows_lt := by decide
  BL_le := by decide
  transaction_lt := by decide
  columns_lt := by decide
  deviceWidth_dvd := by decide
  addressWidth_le := by decide +kernel

theorem addressMapping_covers_ddr2Micron :
    Set.BijOn (fun physicalAddress => addressMapping (ddr2Micron 2 Nat.two_pos) physicalAddress 0)
        {physicalAddress | (ddr2Micron 2 Nat.two_pos).transactionSize ∣ physicalAddress.toNat ∧
          physicalAddress.toNat < (ddr2Micron 2 Nat.two_pos).capacity}
        {p | p.InRange (ddr2Micron 2 Nat.two_pos)} ∧
      (∀ physicalAddress, (addressMapping (ddr2Micron 2 Nat.two_pos) physicalAddress 0).InRange
        (ddr2Micron 2 Nat.two_pos)) ∧
      (2 ^ 20 ∣ (ddr2Micron 2 Nat.two_pos).storagePerRank →
        (ddr2Micron 2 Nat.two_pos).storagePerRank < 2 ^ 63 →
        (ddr2Micron 2 Nat.two_pos).capacity / 2 ^ 20 =
          (ddr2Micron 2 Nat.two_pos).numChans * (ddr2Micron 2 Nat.two_pos).numRanks *
            (ddr2Micron 2 Nat.two_pos).megsOfStoragePerRank 8) :=
  addressMapping_covers sized_ddr2Micron fun _ => rfl

/-- One rank of `2 ^ 63` bytes. -/
def hugeRank : Config :=
  { ddr2Micron 1 Nat.one_pos with
    numChans := 1, numRows := 2 ^ 31, numCols := 2 ^ 20, jedecDataBusBits := 2 ^ 9, BL := 1 }

theorem sized_hugeRank : hugeRank.Sized 1 where
  chans := ⟨0, rfl⟩
  ranks := ⟨0, rfl⟩
  banks := ⟨3, rfl⟩
  rows := ⟨31, rfl⟩
  cols := ⟨20, rfl⟩
  dataBus := ⟨9, rfl⟩
  bursts := ⟨0, rfl⟩
  numRanksLog_eq := rfl
  chans_lt := by decide
  ranks_lt := by decide
  banks_lt := by decide
  rows_lt := by decide
  BL_le := by decide
  transaction_lt := by decide
  columns_lt := by decide
  deviceWidth_dvd := by decide
  addressWidth_le := by decide +kernel

/-- Its bytes do not fit a `long long`. -/
theorem capacity_hugeRank :
    hugeRank.Sized 1 ∧ 2 ^ 20 ∣ hugeRank.storagePerRank ∧
      hugeRank.capacity / 2 ^ 20 ≠ hugeRank.numChans * hugeRank.numRanks *
      hugeRank.megsOfStoragePerRank 1 := by
  exact ⟨sized_hugeRank, by decide +kernel, by decide +kernel⟩

end RacerArtifacts.Mram
