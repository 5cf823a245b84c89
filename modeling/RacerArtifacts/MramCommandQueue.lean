import RacerArtifacts.LibFallible
import RacerArtifacts.LibRoundRobin
import RacerArtifacts.MramConfig

/-! The command queue: one queue of packets for each rank, or for each bank of each rank, and `pop`, which
finds the packet to issue in a cycle. -/

namespace RacerArtifacts.Mram

structure CommandQueue where
  queues : ℕ → ℕ → List BusPacket
  nextBank : ℕ
  nextRank : ℕ
  nextBankPRE : ℕ
  nextRankPRE : ℕ
  refreshRank : ℕ
  refreshWaiting : Bool
  tFAWCountdown : ℕ → List ℕ
  rowAccessCounters : ℕ → ℕ → ℕ
  sendAct : Bool
  currentClockCycle : ℕ

/-- The bank states, which the controller and its command queue share. -/
abbrev BankStates := ℕ → ℕ → BankState

def Config.numBankQueues (cfg : Config) : ℕ :=
  match cfg.queuingStructure with
  | .perRank => 1
  | .perRankPerBank => cfg.numBanks

/-- Which queue of its rank a bank goes to. -/
def Config.slot (cfg : Config) (bank : ℕ) : ℕ :=
  match cfg.queuingStructure with
  | .perRank => 0
  | .perRankPerBank => bank

/-- The queues that the constructor makes: it does not clear `perBankQueue` between the ranks, so that the
rank of index `rank` gets the queues of `rank + 1` ranks. -/
def Config.HasQueue (cfg : Config) (rank slot : ℕ) : Prop :=
  rank < cfg.numRanks ∧ slot < (rank + 1) * cfg.numBankQueues

instance (cfg : Config) (rank slot : ℕ) : Decidable (cfg.HasQueue rank slot) :=
  inferInstanceAs (Decidable (_ ∧ _))

namespace CommandQueue

def init : CommandQueue :=
  { queues := fun _ _ => [], nextBank := 0, nextRank := 0, nextBankPRE := 0, nextRankPRE := 0,
    refreshRank := 0,
    refreshWaiting := false, tFAWCountdown := fun _ => [], rowAccessCounters := fun _ _ => 0, sendAct := true,
    currentClockCycle := 0 }

variable (cfg : Config) (bankStates : BankStates) (cq : CommandQueue)

def getCommandQueue (rank bank : ℕ) : List BusPacket :=
  cq.queues rank (cfg.slot bank)

/-- What the reference that `getCommandQueue` returns is assigned. -/
def setCommandQueue (rank bank : ℕ) (queue : List BusPacket) : CommandQueue :=
  { cq with queues :=
      Function.update cq.queues rank (Function.update (cq.queues rank) (cfg.slot bank) queue) }

/-- `rowAccessCounters[rank][bank] = count` -/
def setRowAccessCounter (rank bank count : ℕ) : CommandQueue :=
  { cq with rowAccessCounters :=
      Function.update cq.rowAccessCounters rank (Function.update (cq.rowAccessCounters rank) bank count) }

/-- Adds a command to its queue; activates, precharges and refreshes are dropped. -/
def enqueue (newBusPacket : BusPacket) : Except Exit CommandQueue :=
  if newBusPacket.busPacketType = .activate ∨ newBusPacket.busPacketType = .precharge ∨
      newBusPacket.busPacketType = .refresh then
    .ok cq
  else if ¬ cfg.HasQueue newBusPacket.rank (cfg.slot newBusPacket.bank) then
    .error .outOfRange
  else
    let queue := cq.getCommandQueue cfg newBusPacket.rank newBusPacket.bank ++ [newBusPacket]
    if queue.length > cfg.cmdQueueDepth then
      .error .enqueuedMoreThanAllowed
    else
      .ok (cq.setCommandQueue cfg newBusPacket.rank newBusPacket.bank queue)

/-- The subtraction is one of 64-bit unsigned numbers. -/
def hasRoomFor (numberToEnqueue rank bank : ℕ) : Except Exit Bool :=
  if cfg.HasQueue rank (cfg.slot bank) then
    .ok (decide (numberToEnqueue ≤
      ((cfg.cmdQueueDepth - (cq.getCommandQueue cfg rank bank).length : ℤ) % 2 ^ 64).toNat))
  else
    .error .outOfRange

/-- Whether a packet is allowed to be issued. -/
def isIssuable (busPacket : BusPacket) : Except Exit Bool :=
  let inRange := busPacket.rank < cfg.numRanks ∧ busPacket.bank < cfg.numBanks
  let bank := bankStates busPacket.rank busPacket.bank
  match busPacket.busPacketType with
  | .refresh => .ok false
  | .activate =>
      if inRange then
        .ok (decide ((bank.currentBankState = .idle ∨ bank.currentBankState = .refreshing) ∧
          bank.nextActivate ≤ cq.currentClockCycle ∧ (cq.tFAWCountdown busPacket.rank).length < 4))
      else .error .outOfRange
  | .write | .writeP =>
      if inRange then
        .ok (decide (bank.nextWrite ≤ cq.currentClockCycle ∧
          cq.rowAccessCounters busPacket.rank busPacket.bank < cfg.totalRowAccesses))
      else .error .outOfRange
  | .readP | .read =>
      if inRange then
        .ok (decide (bank.nextRead ≤ cq.currentClockCycle ∧
          cq.rowAccessCounters busPacket.rank busPacket.bank < cfg.totalRowAccesses))
      else .error .outOfRange
  | .precharge =>
      if inRange then
        .ok (decide (bank.currentBankState = .rowActive ∧ bank.nextPrecharge ≤ cq.currentClockCycle))
      else .error .outOfRange
  | .data => .error .crazyBusPacket

/-- Tells the command queue that a rank is in need of a refresh. -/
def needRefresh (rank : ℕ) : CommandQueue :=
  { cq with refreshWaiting := true, refreshRank := rank }

def nextRankAndBank (rank bank : ℕ) : ℕ × ℕ :=
  match cfg.schedulingPolicy with
  | .rankThenBankRoundRobin =>
      if rank + 1 = cfg.numRanks then (0, if bank + 1 = cfg.numBanks then 0 else bank + 1)
        else (rank + 1, bank)
  | .bankThenRankRoundRobin =>
      if bank + 1 = cfg.numBanks then (if rank + 1 = cfg.numRanks then 0 else rank + 1, 0)
        else (rank, bank + 1)

/-- The window of four activates: all counters go down, and the head, the smallest, goes at 0. -/
def tickFAW (countdown : List ℕ) : List ℕ :=
  match countdown.map decrement with
  | 0 :: rest => rest
  | countdown => countdown

/-- The first issuable packet of a queue that `skip` does not exclude, with what lies before and behind it. -/
def takeIssuable (issuable : BusPacket → Except Exit Bool) (skip : List BusPacket → BusPacket → Bool) :
    List BusPacket → List BusPacket → Except Exit (Option (List BusPacket × BusPacket × List BusPacket))
  | _, [] => .ok none
  | front, packet :: rest =>
      match issuable packet with
      | .error e => .error e
      | .ok true =>
          if skip front packet then takeIssuable issuable skip (front ++ [packet]) rest
          else .ok (some (front, packet, rest))
      | .ok false => takeIssuable issuable skip (front ++ [packet]) rest

/-- The packet before is the activate that this one is paired with. -/
def pairedWithActivate (front : List BusPacket) (packet : BusPacket) : Bool :=
  match front.getLast? with
  | some before => decide (before.busPacketType = .activate ∧ before.physicalAddress = packet.physicalAddress)
  | none => false

/-- A packet before goes to the same row. -/
def dependencyFound (front : List BusPacket) (packet : BusPacket) : Bool :=
  front.any fun before =>
    decide (before.busPacketType ≠ .activate ∧ before.bank = packet.bank ∧ before.row = packet.row)

/-- The banks of the rank that waits for a refresh: whether one of them is open or too early, and what was
taken for an open one. -/
def refreshScan (onOpenRow : ℕ → Except Exit (Option (BusPacket × CommandQueue))) :
    List ℕ → Except Exit (Bool × Option (BusPacket × CommandQueue))
  | [] => .ok (false, none)
  | b :: rest =>
      if (bankStates cq.refreshRank b).currentBankState = .rowActive then
        (onOpenRow b).map fun sent => (true, sent)
      else if (bankStates cq.refreshRank b).nextActivate > cq.currentClockCycle then
        .ok (true, none)
      else
        refreshScan onOpenRow rest

def refreshPacket (rank : ℕ) : BusPacket :=
  { busPacketType := .refresh, column := 0, row := 0, bank := 0, rank := rank,
    physicalAddress := 0, data := 0 }

def prechargePacket (rank bank : ℕ) : BusPacket :=
  { busPacketType := .precharge, column := 0, row := 0, bank := bank, rank := rank, physicalAddress := 0,
    data := 0 }

/-- The refresh goes out when no bank stands against it; `refreshRank = -1` then. -/
def sendRefresh (onOpenRow : ℕ → Except Exit (Option (BusPacket × CommandQueue))) :
    Except Exit (Option BusPacket × CommandQueue) :=
  match refreshScan bankStates cq onOpenRow (List.range cfg.numBanks) with
  | .error e => .error e
  | .ok (_, some (packet, cq')) => .ok (some packet, cq')
  | .ok (true, none) => .ok (none, cq)
  | .ok (false, none) =>
      if (bankStates cq.refreshRank 0).currentBankState ≠ .powerDown then
        .ok (some (refreshPacket cq.refreshRank),
          { cq with refreshRank := 2 ^ 32 - 1, refreshWaiting := false })
      else
        .ok (none, cq)

/-- An open bank that waits for a refresh: the first command for its row goes out, if it can. -/
def takeForOpenRow (b : ℕ) : Except Exit (Option (BusPacket × CommandQueue)) :=
  let queue := cq.getCommandQueue cfg cq.refreshRank b
  let toOpenRow := fun packet : BusPacket =>
    decide (packet.row = (bankStates cq.refreshRank b).openRowAddress ∧ packet.bank = b)
  match queue.find? toOpenRow with
  | none => .ok none
  | some packet =>
      if packet.busPacketType = .activate then .ok none
      else
        (cq.isIssuable cfg bankStates packet).map fun issuable =>
          if issuable then some (packet, cq.setCommandQueue cfg cq.refreshRank b (queue.eraseP toOpenRow))
            else none

/-- The step of the search over the queues. -/
def advance : CommandQueue :=
  match cfg.queuingStructure with
  | .perRank => { cq with nextRank := (cq.nextRank + 1) % cfg.numRanks }
  | .perRankPerBank =>
      let next := nextRankAndBank cfg cq.nextRank cq.nextBank
      { cq with nextRank := next.1, nextBank := next.2 }

/-- The search is back at the queue it started from. -/
def backAt (start : CommandQueue) : Bool :=
  match cfg.queuingStructure with
  | .perRank => decide (start.nextRank = cq.nextRank)
  | .perRankPerBank => decide (start.nextRank = cq.nextRank ∧ start.nextBank = cq.nextBank)

/-- The search over the queues, with the rounds bounded by the number of banks. -/
def roundRobin (find : CommandQueue → Except Exit (Option (BusPacket × CommandQueue))) :
    Except Exit (Option BusPacket × CommandQueue) :=
  (RoundRobin.scan find (advance cfg) (fun cq' => cq'.backAt cfg cq) .scanDoesNotEnd
    (cfg.numRanks * cfg.numBanks) cq).map fun
      | (some (packet, cq'), _) => (some packet, cq')
      | (none, cq') => (none, cq')

/-- There is something in the queue the search is at, and its rank does not wait for a refresh. -/
def mayLook : Bool :=
  !(cq.getCommandQueue cfg cq.nextRank cq.nextBank).isEmpty &&
    !(decide (cq.nextRank = cq.refreshRank) && cq.refreshWaiting)

/-- Close page: the first issuable packet of a rank's queue, or the front of a bank's. -/
def findClosePage : Except Exit (Option (BusPacket × CommandQueue)) :=
  if cq.mayLook cfg then
    match cfg.queuingStructure, cq.getCommandQueue cfg cq.nextRank cq.nextBank with
    | .perRank, queue =>
        (takeIssuable (cq.isIssuable cfg bankStates) pairedWithActivate [] queue).map <| Option.map
          fun (front, packet, rest) =>
            (packet, cq.setCommandQueue cfg cq.nextRank cq.nextBank (front ++ rest))
    | .perRankPerBank, packet :: rest =>
        (cq.isIssuable cfg bankStates packet).map fun issuable =>
          if issuable then some (packet, cq.setCommandQueue cfg cq.nextRank cq.nextBank rest) else none
    | .perRankPerBank, [] => .ok none
  else
    .ok none

def popClosePage : Except Exit (Option BusPacket × CommandQueue) := do
  let (sent, cq) ← if cq.refreshWaiting then
    cq.sendRefresh cfg bankStates (cq.takeForOpenRow cfg bankStates) else pure (none, cq)
  match sent with
  | some packet => pure (some packet, cq)
  | none => cq.roundRobin cfg (findClosePage cfg bankStates)

/-- Open page: a bank that waits for a refresh and has no command for its row is closed. -/
def takeOrClose (b : ℕ) : Except Exit (Option (BusPacket × CommandQueue)) :=
  let bank := bankStates cq.refreshRank b
  let closeRow : Bool := match (cq.getCommandQueue cfg cq.refreshRank b).find? fun packet : BusPacket =>
      decide (packet.row = bank.openRowAddress ∧ packet.bank = b) with
    | some packet => decide (packet.busPacketType = .activate)
    | none => true
  if closeRow then
    if bank.nextPrecharge ≤ cq.currentClockCycle then
      .ok (some (prechargePacket cq.refreshRank b, cq.setRowAccessCounter cq.refreshRank b 0))
    else .ok none
  else
    cq.takeForOpenRow cfg bankStates b

/-- Open page: the first issuable packet that depends on no packet before it; the activate in front of it
goes with it. -/
def findOpenPage : Except Exit (Option (BusPacket × CommandQueue)) :=
  if cq.mayLook cfg then
    (takeIssuable (cq.isIssuable cfg bankStates) dependencyFound []
      (cq.getCommandQueue cfg cq.nextRank cq.nextBank)).map <| Option.map fun (front, packet, rest) =>
        match front.getLast? with
        | some before =>
            if before.busPacketType = .activate then
              (packet, (cq.setCommandQueue cfg cq.nextRank cq.nextBank
                (front.dropLast ++ rest)).setRowAccessCounter
                packet.rank packet.bank (unsigned (cq.rowAccessCounters packet.rank packet.bank + 1)))
            else (packet, cq.setCommandQueue cfg cq.nextRank cq.nextBank (front ++ rest))
        | none => (packet, cq.setCommandQueue cfg cq.nextRank cq.nextBank (front ++ rest))
  else
    .ok none

/-- Open page: a precharge for the bank the second search is at, if nothing waits for its open row. -/
def findPrecharge : Except Exit (Option (BusPacket × CommandQueue)) :=
  let rank := cq.nextRankPRE
  let b := cq.nextBankPRE
  let bank := bankStates rank b
  if bank.currentBankState = .rowActive then
    let found := (cq.getCommandQueue cfg rank b).any fun packet =>
      decide (packet.bank = b ∧ packet.row = bank.openRowAddress)
    if (!found || decide (cq.rowAccessCounters rank b = cfg.totalRowAccesses)) &&
        decide (bank.nextPrecharge ≤ cq.currentClockCycle) then
      .ok (some (prechargePacket rank b, cq.setRowAccessCounter rank b 0))
    else .ok none
  else
    .ok none

def advancePRE : CommandQueue :=
  let next := nextRankAndBank cfg cq.nextRankPRE cq.nextBankPRE
  { cq with nextRankPRE := next.1, nextBankPRE := next.2 }

def popPrecharge : Except Exit (Option BusPacket × CommandQueue) :=
  (RoundRobin.scan (findPrecharge cfg bankStates) (advancePRE cfg)
    (fun cq' => decide (cq.nextRankPRE = cq'.nextRankPRE ∧ cq.nextBankPRE = cq'.nextBankPRE)) .scanDoesNotEnd
    (cfg.numRanks * cfg.numBanks) cq).map fun
      | (some (packet, cq'), _) => (some packet, cq')
      | (none, cq') => (none, cq')

def popOpenPage : Except Exit (Option BusPacket × CommandQueue) := do
  let (sent, cq) ← if cq.refreshWaiting then
    cq.sendRefresh cfg bankStates (cq.takeOrClose cfg bankStates) else pure (none, cq)
  match sent with
  | some packet => pure (some packet, cq)
  | none =>
      let (sent, cq) ← cq.roundRobin cfg (findOpenPage cfg bankStates)
      match sent with
      | some packet => pure (some packet, cq)
      | none => cq.popPrecharge cfg bankStates

/-- After a packet was found: `sendAct` holds the round robin back once where posted CAS is in use, and an
activate opens a window. -/
def afterPop (packet : BusPacket) : CommandQueue :=
  let cq := if cfg.AL > 0 ∧ cq.sendAct then { cq with sendAct := false } else
    let next := nextRankAndBank cfg cq.nextRank cq.nextBank
    { cq with sendAct := true, nextRank := next.1, nextBank := next.2 }
  if packet.busPacketType = .activate then
    { cq with tFAWCountdown :=
        Function.update cq.tFAWCountdown packet.rank (cq.tFAWCountdown packet.rank ++ [cfg.tFAW]) }
  else cq

/-- Removes the next packet, by the command scheduling policy. -/
def pop : Except Exit (Option BusPacket × CommandQueue) := do
  let cq := { cq with tFAWCountdown := fun rank => tickFAW (cq.tFAWCountdown rank) }
  let (sent, cq) ← match cfg.rowBufferPolicy with
    | .closePage => cq.popClosePage cfg bankStates
    | .openPage => cq.popOpenPage cfg bankStates
  match sent with
  | some packet => pure (some packet, cq.afterPop cfg packet)
  | none => pure (none, cq)

def step : CommandQueue :=
  { cq with currentClockCycle := cq.currentClockCycle + 1 }

end CommandQueue

end RacerArtifacts.Mram
