import RacerArtifacts.MramProgress

/-! The line of the write data and the data bus behind it, without the data that they carry: the place where
an update can fail. What an update does to it depends on the types of the commands that are issued only. -/

namespace RacerArtifacts.Mram

open Fallible MemoryController

variable {cfg : Config}

namespace MemorySystem

variable {s s' t u u' : MemorySystem}

/-- The line of the write data and the data bus behind it, without the data. -/
structure DataLine where
  countdown : List ℕ
  busy : Bool
  left : ℕ

namespace DataLine

/-- The data on the bus goes on, and leaves it when its time is up. -/
def send (line : DataLine) : DataLine :=
  if line.busy then
    { line with busy := decide (decrement line.left ≠ 0), left := decrement line.left }
  else line

/-- The data that is due goes on the bus. -/
def start (burst : ℕ) (line : DataLine) : DataLine :=
  match line.countdown.map decrement with
  | 0 :: countdown => { countdown := countdown, busy := true, left := burst }
  | countdown => { line with countdown := countdown }

/-- The data of the writes among the popped commands waits. -/
def queue (line : DataLine) (types : List BusPacketType) : DataLine :=
  { line with countdown := line.countdown ++
      (types.filter fun type => type = .write ∨ type = .writeP).map fun _ => WL }

/-- Data is due, and the bus is not free. -/
def Collides (line : DataLine) : Prop :=
  line.busy = true ∧ ∃ rest, line.countdown.map decrement = 0 :: rest

end DataLine

def dataLine (s : MemorySystem) : DataLine :=
  { countdown := s.memoryController.writeDataCountdown
    busy := s.memoryController.outgoingDataPacket.isSome
    left := s.memoryController.dataCyclesLeft }

theorem SameWrites.dataLine_eq (h : SameWrites s t) : t.dataLine = s.dataLine := by
  rw [dataLine, dataLine, h.countdown_eq, h.outgoing_eq, h.left_eq]

theorem dataLine_sendWriteData (h : s.sendWriteData cfg = .ok t) : t.dataLine = s.dataLine.send := by
  rw [DataLine.send]
  rcases sendWriteData_ok h with ⟨hfree, rfl⟩ | ⟨p, left, hbus, rfl, ⟨hleft, rfl⟩ | ⟨hleft, ranks, -, rfl⟩⟩
  · rw [if_neg (by rw [dataLine, hfree]; exact Bool.false_ne_true)]
  · rw [if_pos (by rw [dataLine, hbus]; rfl), dataLine, hbus]
    exact congrArg (DataLine.mk _ · _) (decide_eq_true hleft).symm
  · rw [if_pos (by rw [dataLine, hbus]; rfl), dataLine]
    exact congrArg (DataLine.mk _ · _) (decide_eq_false (not_not.mpr hleft)).symm

theorem dataLine_startWriteData (h : s.startWriteData cfg = .ok t) :
    t.dataLine = s.dataLine.start cfg.burst ∧ ¬ s.dataLine.Collides := by
  obtain ⟨mc, hmc, rfl⟩ := map_ok h
  rw [DataLine.start]
  rcases startWriteData_ok hmc with ⟨hcountdown, hlater, hmc⟩ | ⟨packet, packets, countdown, _, _, hcountdown,
    -, hfree, rfl⟩
  · refine ⟨?_, fun ⟨_, rest, hdue⟩ => hlater rest hdue⟩
    split
    · rename_i rest hdue
      exact absurd hdue (hlater rest)
    · rw [dataLine, hmc]
      exact congrArg (DataLine.mk · _ _) hcountdown.symm
  · refine ⟨?_, fun hcollides => ?_⟩
    · rw [show s.dataLine.countdown.map decrement = 0 :: countdown from hcountdown]
      rfl
    · have hbusy := hcollides.1
      rw [dataLine, hfree] at hbusy
      cases hbusy

theorem startWriteData_collides {e : Exit} (hmatched : Matched s) (h : s.startWriteData cfg = .error e) :
    s.dataLine.Collides := by
  have hbad := startWriteData_fails hmatched h
  have hstart := map_error h
  rw [hbad, MemoryController.startWriteData] at hstart
  split at hstart
  · rename_i countdown packet packets hcountdown _
    split_ifs at hstart with hbusy
    exact ⟨hbusy, countdown, hcountdown⟩
  · cases hstart
  · cases hstart

/-- **The update of the data line** depends on the types of the commands that are issued only. -/
theorem dataLine_update (h : s.update cfg = .ok u) :
    ∃ added, u.history.issued = s.history.issued ++ added ∧
      u.dataLine = (s.dataLine.send.start cfg.burst).queue (added.map fun e => e.2.busPacketType) := by
  obtain ⟨s₁, s₂, s₃, s₄, s₅, s₆, s₇, h₁, h₂, h₃, h₄, h₅, h₆, h₇, rfl⟩ := update_ok h
  have hstarted : s₄.dataLine = s.dataLine.send.start cfg.burst := by
    rw [(dataLine_startWriteData h₄).1, dataLine_sendWriteData h₃, (sameWrites_of_phases h₁ h₂).dataLine_eq]
  have hissued : s₄.history.issued = s.history.issued :=
    ((waits_sendWriteData h₃).1.trans (waits_startWriteData h₄).1).issued_eq.trans (record_of_phases h₁ h₂).1
  rw [← hstarted, ← hissued]
  rcases writes_of_phases h₅ h₆ h₇ with ⟨hsame, hline⟩ | ⟨p, hsame, hline⟩
  · refine ⟨[], hsame.trans (List.append_nil _).symm, hline.dataLine_eq.trans ?_⟩
    exact congrArg (DataLine.mk · _ _) (List.append_nil _).symm
  · refine ⟨_, hsame, hline.dataLine_eq.trans ?_⟩
    refine congrArg (DataLine.mk · _ _) ?_
    dsimp only
    by_cases hwrite : p.IsWrite
    · have htypes : [p.busPacketType].filter (fun type => type = .write ∨ type = .writeP) =
          [p.busPacketType] :=
        List.filter_cons_of_pos (decide_eq_true hwrite)
      rw [if_pos hwrite]
      exact congrArg (fun types => s₄.memoryController.writeDataCountdown ++ types.map fun _ =>
        WL) htypes.symm
    · have htypes : [p.busPacketType].filter (fun type => type = .write ∨ type = .writeP) = [] :=
        List.filter_cons_of_neg (by rwa [decide_eq_true_eq])
      rw [if_neg hwrite]
      refine ((List.append_nil _).symm.trans ?_)
      exact congrArg (fun types => s₄.memoryController.writeDataCountdown ++ types.map fun _ =>
        WL) htypes.symm

/-- **States with the same data line fail alike**, if they fail at the data bus only. -/
theorem update_fails_alike {e : Exit} (hregular : cfg.Regular) {actions : List Action}
    (h : run cfg actions = .ok s) (hrequested : Requested s) (hline : s'.dataLine = s.dataLine)
    (hupdate : s.update cfg = .error e) :
    s'.update cfg ≠ .ok u' := by
  intro hupdate'
  obtain ⟨s₁, s₂, s₃, h₁, h₂, h₃, hstart, hmatched⟩ := update_collides hregular h hrequested hupdate
  obtain ⟨s₁', s₂', s₃', s₄', _, _, _, h₁', h₂', h₃', h₄', -, -, -, -⟩ := update_ok hupdate'
  refine (dataLine_startWriteData h₄').2 ?_
  rw [dataLine_sendWriteData h₃', (sameWrites_of_phases h₁' h₂').dataLine_eq, hline,
    ← (sameWrites_of_phases h₁ h₂).dataLine_eq, ← dataLine_sendWriteData h₃]
  exact startWriteData_collides hmatched hstart

end MemorySystem

end RacerArtifacts.Mram
