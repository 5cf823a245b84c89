import Mathlib

/-! The configuration of the memory simulator, the transactions and packets it moves, and the delays it
derives from its parameters. Parameters are `unsigned` in the source; here they are natural numbers, and
the places where 32-bit arithmetic wraps say so. -/

namespace RacerArtifacts.Mram

inductive TransactionType where
  | dataRead
  | dataWrite
  | returnData
  deriving DecidableEq, Repr

/-- `data` is the `void *` of the source: nothing reads through it. -/
structure Transaction where
  transactionType : TransactionType
  address : BitVec 64
  data : ℕ
  timeAdded : ℕ
  deriving DecidableEq, Repr

inductive BusPacketType where
  | read
  | readP
  | write
  | writeP
  | activate
  | precharge
  | refresh
  | data
  deriving DecidableEq, Repr

structure BusPacket where
  busPacketType : BusPacketType
  column : ℕ
  row : ℕ
  bank : ℕ
  rank : ℕ
  physicalAddress : BitVec 64
  data : ℕ
  deriving DecidableEq, Repr

inductive CurrentBankState where
  | idle
  | rowActive
  | precharging
  | refreshing
  | powerDown
  deriving DecidableEq, Repr

structure BankState where
  currentBankState : CurrentBankState
  openRowAddress : ℕ
  nextRead : ℕ
  nextWrite : ℕ
  nextActivate : ℕ
  nextPrecharge : ℕ
  nextPowerUp : ℕ
  lastCommand : BusPacketType
  stateChangeCountdown : ℕ
  deriving DecidableEq, Repr

/-- All banks start precharged. -/
def BankState.init : BankState :=
  { currentBankState := .idle, openRowAddress := 0, nextRead := 0, nextWrite := 0, nextActivate := 0,
    nextPrecharge := 0, nextPowerUp := 0, lastCommand := .read, stateChangeCountdown := 0 }

inductive AddressMappingScheme where
  | scheme1
  | scheme2
  | scheme3
  | scheme4
  | scheme5
  | scheme6
  | scheme7
  | scheme8
  deriving DecidableEq, Repr

inductive RowBufferPolicy where
  | openPage
  | closePage
  deriving DecidableEq, Repr

inductive QueuingStructure where
  | perRank
  | perRankPerBank
  deriving DecidableEq, Repr

inductive SchedulingPolicy where
  | rankThenBankRoundRobin
  | bankThenRankRoundRobin
  deriving DecidableEq, Repr

/-- The ways the simulator ends early: its calls of `exit` and `abort`, and an access past the end of a
vector, whose behaviour C++ leaves undefined. -/
inductive Exit where
  | outOfRange
  | notARequest
  | enqueuedMoreThanAllowed
  | crazyBusPacket
  | poppedUnexpected
  | commandBusCollision
  | dataBusCollision
  | readNotAllowed
  | writeNotAllowed
  | activateNotAllowed
  | prechargeNotAllowed
  | refreshNotAllowed
  | nonDataPacket
  | noMatchingTransaction
  | scanDoesNotEnd
  deriving DecidableEq, Repr

/-- The parameters that a run depends on. `refreshCountdown` has the initial countdown of each rank and
`refreshPeriod` the value it is set to again: both come out of the floating-point quotient
`REFRESH_PERIOD/tCK`. `numRanksLog` is separate from `numRanks`, since the constructor of `MemorySystem`
sets it only when it computes the number of ranks. -/
structure Config where
  numRanks : ℕ
  numRanksLog : ℕ
  numBanks : ℕ
  numChans : ℕ
  numRows : ℕ
  numCols : ℕ
  jedecDataBusBits : ℕ
  BL : ℕ
  AL : ℕ
  tRAS : ℕ
  tRCD : ℕ
  tRRD : ℕ
  tRC : ℕ
  tRP : ℕ
  tCCD : ℕ
  tRTP : ℕ
  tWTR : ℕ
  tWR : ℕ
  tRTRS : ℕ
  tRFC : ℕ
  tFAW : ℕ
  tXP : ℕ
  tCMD : ℕ
  IDD0 : ℕ
  IDD2N : ℕ
  IDD3N : ℕ
  IDD4W : ℕ
  IDD4R : ℕ
  IDD5 : ℕ
  numDevices : ℕ
  transQueueDepth : ℕ
  cmdQueueDepth : ℕ
  totalRowAccesses : ℕ
  rowBufferPolicy : RowBufferPolicy
  schedulingPolicy : SchedulingPolicy
  addressMappingScheme : AddressMappingScheme
  queuingStructure : QueuingStructure
  refreshCountdown : ℕ → ℕ
  refreshPeriod : ℕ
  ranks_pos : 0 < numRanks
  banks_pos : 0 < numBanks

/-- A result of `unsigned` arithmetic. -/
def unsigned (z : ℤ) : ℕ :=
  (z % 2 ^ 32).toNat

theorem unsigned_natCast {n : ℕ} (hn : n < 2 ^ 32) : unsigned n = n := by
  rw [unsigned]
  omega

/-- `max((int)(z), 0)` over a 32-bit value, as the delay macros have it. -/
def intMax0 (z : ℤ) : ℕ :=
  (max (BitVec.ofInt 32 z).toInt 0).toNat

/-- `n--` on an `unsigned`, which wraps at 0. -/
def decrement (n : ℕ) : ℕ :=
  if n = 0 then 2 ^ 32 - 1 else n - 1

theorem decrement_of_pos {n : ℕ} (hpos : 1 ≤ n) : decrement n = n - 1 :=
  if_neg (Nat.one_le_iff_ne_zero.mp hpos)

/-- `dramsim_log2`: the logarithm, rounded up. -/
def dramsimLog2 (value : ℕ) : ℕ :=
  if 2 ^ Nat.log2 value < value then Nat.log2 value + 1 else Nat.log2 value

theorem dramsimLog2_two_pow (k : ℕ) : dramsimLog2 (2 ^ k) = k := by
  rw [dramsimLog2, Nat.log2_two_pow, if_neg (lt_irrefl _)]

/-- The read latency of the memory, fixed by a macro. -/
def RL : ℕ := 2

/-- The write latency of the memory, fixed by a macro. -/
def WL : ℕ := 7

namespace Config

variable (cfg : Config)

def readToPreDelay : ℕ :=
  intMax0 (cfg.AL + cfg.BL / 2 + max cfg.tRTP cfg.tCCD - cfg.tCCD)

def writeToPreDelay : ℕ :=
  unsigned (WL + cfg.BL / 2 + cfg.tWR)

def readToWriteDelay : ℕ :=
  intMax0 (RL + cfg.BL / 2 + cfg.tRTRS - WL)

def readAutopreDelay : ℕ :=
  unsigned (cfg.AL + cfg.tRTP + cfg.tRP)

def writeAutopreDelay : ℕ :=
  intMax0 (WL + cfg.BL / 2 + cfg.tWR + cfg.tRP)

/-- From a write to a read of the same rank. -/
def writeToReadDelayB : ℕ :=
  intMax0 (WL + cfg.BL / 2 + cfg.tWTR)

/-- From a write to a read of another rank. -/
def writeToReadDelayR : ℕ :=
  intMax0 (WL + cfg.BL / 2 + cfg.tRTRS - RL)

/-- From a read to a read and from a write to a write of the same rank. -/
def sameTypeDelay : ℕ :=
  max cfg.tCCD (cfg.BL / 2)

/-- The cycles a burst holds the data bus. -/
def burst : ℕ :=
  if cfg.BL > 1 then cfg.BL / 2 else 1

theorem burst_pos : 1 ≤ cfg.burst := by
  rw [burst]
  split_ifs <;> omega

/-- A rank's commands of one type, if they are not in the same cycle, are a burst apart. -/
theorem burst_le_of_sameTypeDelay {t u : ℕ} (hlt : t < u) (h : t + cfg.sameTypeDelay ≤ u) :
    t + cfg.burst ≤ u := by
  rw [burst]
  have : cfg.BL / 2 ≤ cfg.sameTypeDelay := le_max_right _ _
  split_ifs <;> omega

end Config

/-- The devices of `DDR2_micron_16M_8b_x8_sg3E.ini` in one channel of `system.ini.example`. -/
def ddr2Micron (numRanks : ℕ) (hpos : 0 < numRanks) : Config :=
  { numRanks, numRanksLog := dramsimLog2 numRanks, numBanks := 8, numChans := 16
    numRows := 16384, numCols := 1024, jedecDataBusBits := 512, BL := 4, AL := 0
    tRAS := 14, tRCD := 4, tRRD := 3, tRC := 18, tRP := 4, tCCD := 2, tRTP := 3, tWTR := 3, tWR := 5
    tRTRS := 1, tRFC := 43, tFAW := 13, tXP := 2, tCMD := 1
    IDD0 := 85, IDD2N := 40, IDD3N := 55, IDD4W := 135, IDD4R := 135, IDD5 := 215, numDevices := 64
    transQueueDepth := 32, cmdQueueDepth := 32, totalRowAccesses := 4
    rowBufferPolicy := .closePage, schedulingPolicy := .rankThenBankRoundRobin
    addressMappingScheme := .scheme8, queuingStructure := .perRank
    refreshCountdown := fun i => 2600 / numRanks * (i + 1), refreshPeriod := 2600
    ranks_pos := hpos, banks_pos := by decide }

end RacerArtifacts.Mram
