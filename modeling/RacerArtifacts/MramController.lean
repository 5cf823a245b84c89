import RacerArtifacts.MramAddressMapping
import RacerArtifacts.MramCommandQueue

/-! The ranks, the memory controller and the memory system that updates them, and runs of the system. The
vectors over ranks and banks are functions; clocks and energies do not wrap. What the callbacks are told,
and what was accepted and issued, is kept in a `History`, which no function of the simulator reads. -/

namespace RacerArtifacts.Mram

/-- The constraints a read puts on the banks of its rank. -/
def BankState.afterRead (cfg : Config) (currentClockCycle : ℕ) (bank : BankState) : BankState :=
  { bank with
    nextRead := max (currentClockCycle + cfg.sameTypeDelay) bank.nextRead
    nextWrite := max (currentClockCycle + cfg.readToWriteDelay) bank.nextWrite }

/-- The constraints a write puts on the banks of its rank. -/
def BankState.afterWrite (cfg : Config) (currentClockCycle : ℕ) (bank : BankState) : BankState :=
  { bank with
    nextWrite := max (currentClockCycle + cfg.sameTypeDelay) bank.nextWrite
    nextRead := max (currentClockCycle + cfg.writeToReadDelayB) bank.nextRead }

structure Rank where
  outgoingDataPacket : Option BusPacket
  dataCyclesLeft : ℕ
  readReturnPacket : List BusPacket
  readReturnCountdown : List ℕ
  bankStates : ℕ → BankState
  refreshWaiting : Bool
  currentClockCycle : ℕ

namespace Rank

def init : Rank :=
  { outgoingDataPacket := none, dataCyclesLeft := 0, readReturnPacket := [], readReturnCountdown := [],
    bankStates := fun _ => BankState.init, refreshWaiting := false, currentClockCycle := 0 }

variable (cfg : Config) (rank : Rank)

/-- The read data is stored until `RL` has passed. Nothing is read from a bank (`NO_STORAGE`). -/
def returnLater (packet : BusPacket) : Rank :=
  { rank with
    readReturnPacket := rank.readReturnPacket ++ [{ packet with busPacketType := .data }]
    readReturnCountdown := rank.readReturnCountdown ++ [RL] }

def receiveFromBus (packet : BusPacket) : Except Exit Rank :=
  let now := rank.currentClockCycle
  let bank := rank.bankStates packet.bank
  match packet.busPacketType with
  | .read =>
      if bank.currentBankState ≠ .rowActive ∨ now < bank.nextRead ∨ packet.row ≠ bank.openRowAddress then
        .error .readNotAllowed
      else
        let bank := { bank with nextPrecharge := max bank.nextPrecharge (now + cfg.readToPreDelay) }
        let banks := fun i => (Function.update rank.bankStates packet.bank bank i).afterRead cfg now
        .ok ({ rank with bankStates := banks }.returnLater packet)
  | .readP =>
      let bank := { bank with
        currentBankState := .idle, nextActivate := max bank.nextActivate (now + cfg.readAutopreDelay) }
      let banks := fun i => (Function.update rank.bankStates packet.bank bank i).afterRead cfg now
      .ok ({ rank with bankStates := banks }.returnLater packet)
  | .write =>
      if bank.currentBankState ≠ .rowActive ∨ now < bank.nextWrite ∨ packet.row ≠ bank.openRowAddress then
        .error .writeNotAllowed
      else
        let bank := { bank with nextPrecharge := max bank.nextPrecharge (now + cfg.writeToPreDelay) }
        .ok { rank with bankStates := fun i =>
          (Function.update rank.bankStates packet.bank bank i).afterWrite cfg now }
  | .writeP =>
      let bank := { bank with
        currentBankState := .idle, nextActivate := max bank.nextActivate (now + cfg.writeAutopreDelay) }
      .ok { rank with bankStates := fun i =>
        (Function.update rank.bankStates packet.bank bank i).afterWrite cfg now }
  | .activate =>
      if bank.currentBankState ≠ .idle ∨ now < bank.nextActivate then
        .error .activateNotAllowed
      else
        let bank := { bank with
          currentBankState := .rowActive, nextActivate := now + cfg.tRC, openRowAddress := packet.row,
          nextWrite := now + unsigned (cfg.tRCD - cfg.AL), nextRead := now + unsigned (cfg.tRCD - cfg.AL),
          nextPrecharge := now + cfg.tRAS }
        .ok { rank with bankStates := fun i => if i = packet.bank then bank else
          { rank.bankStates i with nextActivate := max (rank.bankStates i).nextActivate (now + cfg.tRRD) } }
  | .precharge =>
      if bank.currentBankState ≠ .rowActive ∨ now < bank.nextPrecharge then
        .error .prechargeNotAllowed
      else
        let bank := { bank with
          currentBankState := .idle, nextActivate := max bank.nextActivate (now + cfg.tRP) }
        .ok { rank with bankStates := Function.update rank.bankStates packet.bank bank }
  | .refresh =>
      if ∃ i < cfg.numBanks, (rank.bankStates i).currentBankState ≠ .idle then
        .error .refreshNotAllowed
      else
        .ok { rank with
          refreshWaiting := false
          bankStates := fun i => { rank.bankStates i with nextActivate := now + cfg.tRFC } }
  | .data => .ok rank

/-- `refreshWaiting = true` -/
def waitForRefresh : Rank :=
  { rank with refreshWaiting := true }

/-- The packet on the data bus, when its time is up. -/
def sendData : Option BusPacket × Rank :=
  match rank.outgoingDataPacket with
  | none => (none, rank)
  | some packet =>
      let left := decrement rank.dataCyclesLeft
      if left = 0 then
        (some packet, { rank with outgoingDataPacket := none, dataCyclesLeft := left })
      else
        (none, { rank with dataCyclesLeft := left })

/-- The packets waiting for `RL`; the head goes out on the bus, whatever is there. -/
def startData : Except Exit Rank :=
  match rank.readReturnCountdown.map decrement, rank.readReturnPacket with
  | 0 :: countdown, packet :: packets =>
      .ok { rank with
        outgoingDataPacket := some packet, dataCyclesLeft := cfg.burst,
        readReturnPacket := packets, readReturnCountdown := countdown }
  | 0 :: _, [] => .error .outOfRange
  | countdown, _ => .ok { rank with readReturnCountdown := countdown }

/-- The packet that is handed to the controller, and the rank after it. -/
def update : Except Exit (Option BusPacket × Rank) :=
  (rank.sendData.2.startData cfg).map fun rank' => (rank.sendData.1, rank')

def step : Rank :=
  { rank with currentClockCycle := rank.currentClockCycle + 1 }

end Rank

/-- What a run has done: the transactions accepted, the commands issued, the writes reported done and the
reads returned, the latter three with their cycles. -/
structure History where
  accepted : List Transaction
  issued : List (ℕ × BusPacket)
  written : List (ℕ × BusPacket)
  returned : List (ℕ × Transaction)

structure MemoryController where
  transactionQueue : List Transaction
  bankStates : BankStates
  commandQueue : CommandQueue
  refreshCountdown : ℕ → ℕ
  writeDataToSend : List BusPacket
  writeDataCountdown : List ℕ
  returnTransaction : List Transaction
  pendingReadTransactions : List Transaction
  latencies : ℕ → BitVec 32
  powerDown : ℕ → Bool
  outgoingCmdPacket : Option BusPacket
  cmdCyclesLeft : ℕ
  outgoingDataPacket : Option BusPacket
  dataCyclesLeft : ℕ
  totalTransactions : BitVec 64
  grandTotalBankAccesses : ℕ → BitVec 64
  totalReadsPerBank : ℕ → BitVec 64
  totalWritesPerBank : ℕ → BitVec 64
  totalEpochLatency : ℕ → BitVec 64
  refreshRank : ℕ
  backgroundEnergy : ℕ → ℕ
  burstEnergy : ℕ → ℕ
  actpreEnergy : ℕ → ℕ
  refreshEnergy : ℕ → ℕ
  currentClockCycle : ℕ

def Transaction.getBusPacketType (cfg : Config) (transaction : Transaction) : Except Exit BusPacketType :=
  match transaction.transactionType, cfg.rowBufferPolicy with
  | .dataRead, .closePage => .ok .readP
  | .dataRead, .openPage => .ok .read
  | .dataWrite, .closePage => .ok .writeP
  | .dataWrite, .openPage => .ok .write
  | .returnData, _ => .error .notARequest

/-- The packet of a type for a transaction, at the place its address maps to. -/
def Transaction.packet (cfg : Config) (transaction : Transaction) (busPacketType : BusPacketType) (data : ℕ) :
    BusPacket :=
  let place := addressMapping cfg transaction.address 0
  { busPacketType := busPacketType, column := place.column, row := place.row, bank := place.bank,
    rank := place.rank, physicalAddress := transaction.address, data := data }

def sequential (cfg : Config) (rank bank : ℕ) : ℕ :=
  rank * cfg.numBanks + bank

namespace MemoryController

def init (cfg : Config) : MemoryController :=
  { transactionQueue := [], bankStates := fun _ _ => BankState.init, commandQueue := CommandQueue.init,
    refreshCountdown := cfg.refreshCountdown, writeDataToSend := [], writeDataCountdown := [],
    returnTransaction := [], pendingReadTransactions := [], latencies := fun _ => 0,
    powerDown := fun _ => false, outgoingCmdPacket := none, cmdCyclesLeft := 0, outgoingDataPacket := none,
    dataCyclesLeft := 0, totalTransactions := 0, grandTotalBankAccesses := fun _ => 0,
    totalReadsPerBank := fun _ => 0, totalWritesPerBank := fun _ => 0, totalEpochLatency := fun _ => 0,
    refreshRank := 0, backgroundEnergy := fun _ => 0, burstEnergy := fun _ => 0, actpreEnergy := fun _ => 0,
    refreshEnergy := fun _ => 0, currentClockCycle := 0 }

variable (cfg : Config) (mc : MemoryController)

/-- A bus packet from a rank: its data goes to the transactions to return. -/
def receiveFromBus (bpacket : BusPacket) : Except Exit MemoryController :=
  if bpacket.busPacketType ≠ .data then
    .error .nonDataPacket
  else
    .ok { mc with
      returnTransaction := mc.returnTransaction ++
        [{ transactionType := .returnData, address := bpacket.physicalAddress, data := bpacket.data,
           timeAdded := 0 }]
      totalReadsPerBank := Function.update mc.totalReadsPerBank (sequential cfg bpacket.rank bpacket.bank)
        (mc.totalReadsPerBank (sequential cfg bpacket.rank bpacket.bank) + 1) }

/-- All banks are set to idle at the beginning of a cycle. -/
def idleBanks : MemoryController :=
  { mc with bankStates := fun i j => { mc.bankStates i j with currentBankState := .idle } }

/-- The write data whose `WL` has passed goes on the data bus, which has to be free. -/
def startWriteData : Except Exit MemoryController :=
  match mc.writeDataCountdown.map decrement, mc.writeDataToSend with
  | 0 :: countdown, packet :: packets =>
      if mc.outgoingDataPacket.isSome then
        .error .dataBusCollision
      else
        .ok { mc with
          outgoingDataPacket := some packet
          dataCyclesLeft := cfg.burst
          totalTransactions := mc.totalTransactions + 1
          totalWritesPerBank := Function.update mc.totalWritesPerBank (sequential cfg packet.rank packet.bank)
            (mc.totalWritesPerBank (sequential cfg packet.rank packet.bank) + 1)
          writeDataCountdown := countdown
          writeDataToSend := packets }
  | 0 :: _, [] => .error .outOfRange
  | countdown, _ => .ok { mc with writeDataCountdown := countdown }

/-- The data of a write that was popped, to be sent after `WL`. -/
def queueWriteData (popped : BusPacket) : MemoryController :=
  if popped.busPacketType = .write ∨ popped.busPacketType = .writeP then
    { mc with
      writeDataToSend := mc.writeDataToSend ++ [{ popped with busPacketType := .data }]
      writeDataCountdown := mc.writeDataCountdown ++ [WL] }
  else mc

/-- The bank a command goes to, and then the banks of its rank (`same`) and, if they are active, of the
other ranks (`other`). -/
def constrain (popped : BusPacket) (target same other : BankState → BankState) : BankStates :=
  fun i j =>
    let bank := mc.bankStates i j
    let bank := if i = popped.rank ∧ j = popped.bank then target bank else bank
    if i = popped.rank then same bank
    else if bank.currentBankState = .rowActive then other bank
    else bank

/-- The update of the banks and the energies for a command that was popped. -/
def updateBanks (popped : BusPacket) : Except Exit MemoryController :=
  let now := mc.currentClockCycle
  let rank := popped.rank
  let otherRead := fun bank : BankState => { bank with
    nextRead := max (now + cfg.BL / 2 + cfg.tRTRS) bank.nextRead
    nextWrite := max (now + cfg.readToWriteDelay) bank.nextWrite }
  let otherWrite := fun bank : BankState => { bank with
    nextWrite := max (now + cfg.BL / 2 + cfg.tRTRS) bank.nextWrite
    nextRead := max (now + cfg.writeToReadDelayR) bank.nextRead }
  let burst := fun energy : ℤ =>
    Function.update mc.burstEnergy rank
      (mc.burstEnergy rank + unsigned (unsigned (energy * cfg.BL) / 2 * cfg.numDevices))
  match popped.busPacketType with
  | .readP =>
      .ok { mc with
        burstEnergy := burst (cfg.IDD4R - cfg.IDD3N)
        bankStates := mc.constrain popped
          (fun bank => { bank with lastCommand := .readP, currentBankState := .rowActive })
          (BankState.afterRead cfg now) otherRead }
  | .read =>
      .ok { mc with
        burstEnergy := burst (cfg.IDD4R - cfg.IDD3N)
        bankStates := mc.constrain popped
          (fun bank => { bank with
            nextPrecharge := max (now + cfg.readToPreDelay) bank.nextPrecharge, lastCommand := .read })
          (BankState.afterRead cfg now) otherRead }
  | .writeP =>
      .ok { mc with
        burstEnergy := burst (cfg.IDD4W - cfg.IDD3N)
        bankStates := mc.constrain popped
          (fun bank => { bank with lastCommand := .writeP, currentBankState := .rowActive })
          (BankState.afterWrite cfg now) otherWrite }
  | .write =>
      .ok { mc with
        burstEnergy := burst (cfg.IDD4W - cfg.IDD3N)
        bankStates := mc.constrain popped
          (fun bank => { bank with
            nextPrecharge := max (now + cfg.writeToPreDelay) bank.nextPrecharge, lastCommand := .write })
          (BankState.afterWrite cfg now) otherWrite }
  | .activate =>
      .ok { mc with
        actpreEnergy := Function.update mc.actpreEnergy rank (mc.actpreEnergy rank +
          unsigned ((cfg.IDD0 * cfg.tRC - (cfg.IDD3N * cfg.tRAS + cfg.IDD2N * (cfg.tRC - cfg.tRAS))) *
            cfg.numDevices))
        bankStates := fun i j =>
          let bank := mc.bankStates i j
          if i = rank then
            if j = popped.bank then
              { bank with
                currentBankState := .rowActive, lastCommand := .activate, openRowAddress := popped.row,
                nextActivate := max (now + cfg.tRC) bank.nextActivate,
                nextPrecharge := max (now + cfg.tRAS) bank.nextPrecharge,
                nextRead := max (now + unsigned (cfg.tRCD - cfg.AL)) bank.nextRead,
                nextWrite := max (now + unsigned (cfg.tRCD - cfg.AL)) bank.nextWrite }
            else { bank with nextActivate := max (now + cfg.tRRD) bank.nextActivate }
          else bank }
  | .precharge =>
      .ok { mc with
        bankStates := fun i j =>
          let bank := mc.bankStates i j
          if i = rank ∧ j = popped.bank then
            { bank with
              currentBankState := .precharging, lastCommand := .precharge, stateChangeCountdown := cfg.tRP,
              nextActivate := max (now + cfg.tRP) bank.nextActivate }
          else bank }
  | .refresh =>
      .ok { mc with
        refreshEnergy := Function.update mc.refreshEnergy rank (mc.refreshEnergy rank +
          unsigned ((cfg.IDD5 - cfg.IDD3N) * cfg.tRFC * cfg.numDevices))
        bankStates := fun i j =>
          let bank := mc.bankStates i j
          if i = rank then
            { bank with
              nextActivate := now + cfg.tRFC, currentBankState := .refreshing, lastCommand := .refresh,
              stateChangeCountdown := cfg.tRFC }
          else bank }
  | .data => .error .poppedUnexpected

/-- A command that was popped goes on the command bus, which has to be free. -/
def issueCommand (popped : BusPacket) : Except Exit MemoryController :=
  if mc.outgoingCmdPacket.isSome then
    .error .commandBusCollision
  else
    .ok { mc with outgoingCmdPacket := some popped, cmdCyclesLeft := cfg.tCMD }

/-- The commands of the first transaction in the queue whose commands have room. -/
def scheduleFrom (front : List Transaction) : List Transaction → Except Exit MemoryController
  | [] => .ok mc
  | transaction :: rest => do
      let place := addressMapping cfg transaction.address 0
      if ← mc.commandQueue.hasRoomFor cfg 1 place.rank place.bank then
        let bpType ← transaction.getBusPacketType cfg
        let cq ← mc.commandQueue.enqueue cfg (transaction.packet cfg .activate 0)
        let cq ← cq.enqueue cfg (transaction.packet cfg bpType transaction.data)
        pure { mc with
          transactionQueue := front ++ rest
          commandQueue := cq
          pendingReadTransactions :=
            if transaction.transactionType = .dataRead then mc.pendingReadTransactions ++ [transaction]
            else mc.pendingReadTransactions }
      else
        scheduleFrom (front ++ [transaction]) rest

/-- Background power depends on whether a bank of the rank is open. -/
def addBackgroundEnergy : MemoryController :=
  { mc with backgroundEnergy := fun i =>
      let bankOpen := (List.range cfg.numBanks).any fun j =>
        decide ((mc.bankStates i j).currentBankState = .refreshing ∨
          (mc.bankStates i j).currentBankState = .rowActive)
      mc.backgroundEnergy i + unsigned ((if bankOpen then cfg.IDD3N else cfg.IDD2N) * cfg.numDevices) }

def insertHistogram (latencyValue rank bank : ℕ) : MemoryController :=
  { mc with
    totalEpochLatency := Function.update mc.totalEpochLatency (sequential cfg rank bank)
      (mc.totalEpochLatency (sequential cfg rank bank) + BitVec.ofNat 64 latencyValue)
    latencies := Function.update mc.latencies (latencyValue / 10 * 10)
      (mc.latencies (latencyValue / 10 * 10) + 1) }

/-- The first transaction to return is matched with the first pending read of its address. -/
def returnData : Except Exit (Option Transaction × MemoryController) :=
  match mc.returnTransaction with
  | [] => .ok (none, mc)
  | returned :: rest =>
      let sameAddress := fun pending : Transaction => decide (pending.address = returned.address)
      match mc.pendingReadTransactions.find? sameAddress with
      | none => .error .noMatchingTransaction
      | some pending =>
          let place := addressMapping cfg returned.address 0
          let mc := { mc with totalTransactions := mc.totalTransactions + 1 }.insertHistogram cfg
            (unsigned (mc.currentClockCycle - pending.timeAdded)) place.rank place.bank
          .ok (some pending, { mc with
            pendingReadTransactions := mc.pendingReadTransactions.eraseP sameAddress
            returnTransaction := rest })

def willAcceptTransaction : Bool :=
  decide (mc.transactionQueue.length < cfg.transQueueDepth)

def resetStats : MemoryController :=
  { mc with
    grandTotalBankAccesses := fun i =>
      mc.grandTotalBankAccesses i + (mc.totalReadsPerBank i + mc.totalWritesPerBank i)
    totalReadsPerBank := fun _ => 0
    totalWritesPerBank := fun _ => 0
    totalEpochLatency := fun _ => 0
    burstEnergy := fun _ => 0
    actpreEnergy := fun _ => 0
    refreshEnergy := fun _ => 0
    backgroundEnergy := fun _ => 0 }

def step : MemoryController :=
  { mc with currentClockCycle := mc.currentClockCycle + 1 }

end MemoryController

structure MemorySystem where
  memoryController : MemoryController
  ranks : ℕ → Rank
  pendingTransactions : List Transaction
  currentClockCycle : ℕ
  history : History

namespace MemorySystem

def init (cfg : Config) : MemorySystem :=
  { memoryController := MemoryController.init cfg, ranks := fun _ => Rank.init, pendingTransactions := [],
    currentClockCycle := 0, history := { accepted := [], issued := [], written := [], returned := [] } }

variable (cfg : Config) (s : MemorySystem)

/-- The command on the command bus, when its time is up. -/
def sendCommand : Except Exit MemorySystem :=
  match s.memoryController.outgoingCmdPacket with
  | none => .ok s
  | some packet =>
      let left := decrement s.memoryController.cmdCyclesLeft
      if left = 0 then
        ((s.ranks packet.rank).receiveFromBus cfg packet).map fun rank =>
          { s with
            memoryController := { s.memoryController with outgoingCmdPacket := none, cmdCyclesLeft := left }
            ranks := Function.update s.ranks packet.rank rank }
      else
        .ok { s with memoryController := { s.memoryController with cmdCyclesLeft := left } }

/-- The write data on the data bus, when its time is up: the write is reported done. -/
def sendWriteData : Except Exit MemorySystem :=
  match s.memoryController.outgoingDataPacket with
  | none => .ok s
  | some packet =>
      let left := decrement s.memoryController.dataCyclesLeft
      if left = 0 then
        ((s.ranks packet.rank).receiveFromBus cfg packet).map fun rank =>
          { s with
            memoryController := { s.memoryController with outgoingDataPacket := none, dataCyclesLeft := left }
            ranks := Function.update s.ranks packet.rank rank
            history := { s.history with
              written := s.history.written ++ [(s.memoryController.currentClockCycle, packet)] } }
      else
        .ok { s with memoryController := { s.memoryController with dataCyclesLeft := left } }

def startWriteData : Except Exit MemorySystem :=
  (s.memoryController.startWriteData cfg).map fun mc => { s with memoryController := mc }

/-- A refresh is asked for when the countdown of the next rank is 0. -/
def checkRefresh : MemorySystem :=
  let mc := s.memoryController
  if mc.refreshCountdown mc.refreshRank = 0 then
    { s with
      memoryController := { mc with
        commandQueue := mc.commandQueue.needRefresh mc.refreshRank
        refreshCountdown := Function.update mc.refreshCountdown mc.refreshRank cfg.refreshPeriod
        refreshRank := if mc.refreshRank + 1 = cfg.numRanks then 0 else mc.refreshRank + 1 }
      ranks := Function.update s.ranks mc.refreshRank (s.ranks mc.refreshRank).waitForRefresh }
  else if mc.powerDown mc.refreshRank ∧ mc.refreshCountdown mc.refreshRank ≤ cfg.tXP then
    { s with ranks := Function.update s.ranks mc.refreshRank (s.ranks mc.refreshRank).waitForRefresh }
  else s

/-- Pops a command, records what it constrains and puts it on the command bus. -/
def popCommand : Except Exit MemorySystem := do
  let mc := s.memoryController
  let (popped, cq) ← mc.commandQueue.pop cfg mc.bankStates
  let mc := { mc with commandQueue := cq }
  match popped with
  | none => pure { s with memoryController := mc }
  | some packet =>
      let mc ← (mc.queueWriteData packet).updateBanks cfg packet
      let mc ← mc.issueCommand cfg packet
      pure { s with
        memoryController := mc
        history := { s.history with issued := s.history.issued ++ [(mc.currentClockCycle, packet)] } }

def schedule : Except Exit MemorySystem :=
  (s.memoryController.scheduleFrom cfg [] s.memoryController.transactionQueue).map fun mc =>
    { s with memoryController := mc }

def addBackgroundEnergy : MemorySystem :=
  { s with memoryController := s.memoryController.addBackgroundEnergy cfg }

def returnData : Except Exit MemorySystem :=
  (s.memoryController.returnData cfg).map fun
    | (none, mc) => { s with memoryController := mc }
    | (some pending, mc) =>
        { s with
          memoryController := mc
          history := { s.history with
            returned := s.history.returned ++ [(mc.currentClockCycle, pending)] } }

/-- The memory controller's update. -/
def updateController : Except Exit MemorySystem := do
  let s := { s with memoryController := s.memoryController.idleBanks }
  let s ← s.sendCommand cfg
  let s ← s.sendWriteData cfg
  let s ← s.startWriteData cfg
  let s := s.checkRefresh cfg
  let s ← s.popCommand cfg
  let s ← s.schedule cfg
  let s := s.addBackgroundEnergy cfg
  let s ← s.returnData cfg
  pure { s with memoryController :=
    { s.memoryController with commandQueue := s.memoryController.commandQueue.step } }

/-- The update of the rank of an index. -/
def updateRank (i : ℕ) : Except Exit MemorySystem := do
  let (received, rank) ← (s.ranks i).update cfg
  let s := { s with ranks := Function.update s.ranks i rank }
  match received with
  | none => pure s
  | some packet =>
      let mc ← s.memoryController.receiveFromBus cfg packet
      pure { s with memoryController := mc }

/-- The controller's `addTransaction`, which sets the time and refuses a transaction when the queue is
full. -/
def addTransaction (transaction : Transaction) : MemorySystem :=
  if s.memoryController.willAcceptTransaction cfg then
    let transaction := { transaction with timeAdded := s.memoryController.currentClockCycle }
    { s with
      memoryController := { s.memoryController with
        transactionQueue := s.memoryController.transactionQueue ++ [transaction] }
      history := { s.history with accepted := s.history.accepted ++ [transaction] } }
  else s

/-- The memory system's `addTransaction(isWrite, addr)`, which keeps what the controller would refuse. -/
def request (isWrite : Bool) (addr : BitVec 64) : MemorySystem :=
  let transaction : Transaction :=
    { transactionType := if isWrite then .dataWrite else .dataRead, address := addr, data := 0,
      timeAdded := 0 }
  if s.memoryController.willAcceptTransaction cfg then s.addTransaction cfg transaction
  else { s with pendingTransactions := s.pendingTransactions ++ [transaction] }

/-- The first pending transaction goes to the controller, if there is room. -/
def takePending : MemorySystem :=
  match s.pendingTransactions with
  | [] => s
  | transaction :: rest =>
      if s.memoryController.willAcceptTransaction cfg then
        { s.addTransaction cfg transaction with pendingTransactions := rest }
      else s

/-- The clocks of all objects. -/
def step : MemorySystem :=
  { s with
    ranks := fun i => (s.ranks i).step
    memoryController := s.memoryController.step
    currentClockCycle := s.currentClockCycle + 1 }

/-- Updates the state of each of the objects; the order is part of the design. -/
def update : Except Exit MemorySystem := do
  let s ← (List.range cfg.numRanks).foldlM (updateRank cfg) s
  let s ← (s.takePending cfg).updateController cfg
  pure s.step

end MemorySystem

/-- What a client of the memory system does: hand it a transaction, request an address, update it, reset its
statistics. -/
inductive Action where
  | addTransaction (transaction : Transaction)
  | request (isWrite : Bool) (addr : BitVec 64)
  | update
  | resetStats
  deriving DecidableEq, Repr

namespace MemorySystem

def act (cfg : Config) (s : MemorySystem) : Action → Except Exit MemorySystem
  | .addTransaction transaction => .ok (s.addTransaction cfg transaction)
  | .request isWrite addr => .ok (s.request cfg isWrite addr)
  | .update => s.update cfg
  | .resetStats => .ok { s with memoryController := s.memoryController.resetStats }

/-- The run of a list of actions from the initial state: the state it reaches, or the way it ends early. -/
def run (cfg : Config) (actions : List Action) : Except Exit MemorySystem :=
  actions.foldlM (act cfg) (init cfg)

end MemorySystem

end RacerArtifacts.Mram
