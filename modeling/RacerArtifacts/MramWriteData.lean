import RacerArtifacts.MramPipes

/-! The write data in flight. If the writes come at least a burst apart, whatever their ranks, the line of
write data in the controller and its data bus are a pipe: the bus is free whenever it is needed, and a write
is reported done a fixed time behind its command. -/

namespace RacerArtifacts.Mram

open Fallible MemoryController Pipe

variable {cfg : Config}

namespace MemorySystem

variable {s s' t : MemorySystem} {T : ℕ} {entries done wait : List (ℕ × BusPacket)}
  {slot : Option (ℕ × BusPacket)}

/-- What the controller holds of the write data. -/
abbrev CarriesWrites (cfg : Config) (T : ℕ) (slot : Option (ℕ × BusPacket)) (wait : List (ℕ × BusPacket))
    (s : MemorySystem) : Prop :=
  Carries cfg.burst writeLine T slot wait s.memoryController.outgoingDataPacket
    s.memoryController.dataCyclesLeft
    s.memoryController.writeDataToSend s.memoryController.writeDataCountdown

/-- The data on the bus goes on; what is through is reported done. -/
theorem sendWriteData_tick {finished slot₁ : Option (ℕ × BusPacket)}
    (hfinish : Finishes cfg.burst writeLine T slot finished slot₁)
    (hcarries : CarriesWrites cfg T slot wait s) (hlt : ∀ e ∈ slot, T < e.1 + writeLine + cfg.burst)
    (h : s.sendWriteData cfg = .ok t) :
    t.memoryController.outgoingDataPacket = slot₁.map Prod.snd ∧
      (∀ e ∈ slot₁, t.memoryController.dataCyclesLeft + (T + 1) = e.1 + writeLine + cfg.burst) ∧
      t.memoryController.writeDataToSend = s.memoryController.writeDataToSend ∧
      t.memoryController.writeDataCountdown = s.memoryController.writeDataCountdown ∧
      t.history.written =
        s.history.written ++ finished.toList.map fun e => (s.memoryController.currentClockCycle, e.2) := by
  have hbus := hcarries.bus_eq
  cases hfinish with
  | none =>
      rcases sendWriteData_ok h with ⟨hnone, rfl⟩ | ⟨p, left, hp, -, -⟩
      · exact ⟨hnone, (fun e he => by cases he), rfl, rfl, (List.append_nil _).symm⟩
      · rw [hbus] at hp
        cases hp
  | @stays e hstays =>
      have hleft := hcarries.left_eq e rfl
      rcases sendWriteData_ok h with ⟨hnone, -⟩ | ⟨p, left, hp, hleft', ⟨-, rfl⟩ | ⟨hzero, -⟩⟩
      · rw [hbus] at hnone
        cases hnone
      · refine ⟨hbus, fun f hf => ?_, rfl, rfl, (List.append_nil _).symm⟩
        cases hf
        show left + (T + 1) = e.1 + writeLine + cfg.burst
        rw [hleft', decrement_of_pos (by omega)]
        omega
      · rw [hleft', decrement_of_pos (by omega)] at hzero
        omega
  | @leaves e heq =>
      have hleft := hcarries.left_eq e rfl
      rcases sendWriteData_ok h with ⟨hnone, -⟩ | ⟨p, left, hp, hleft', ⟨hne, -⟩ | ⟨-, ranks, -, rfl⟩⟩
      · rw [hbus] at hnone
        cases hnone
      · rw [hleft', decrement_of_pos (by omega)] at hne
        omega
      · obtain rfl : e.2 = p := Option.some.inj (hbus.symm.trans hp)
        exact ⟨rfl, (fun f hf => by cases hf), rfl, rfl, rfl⟩

/-- The write data that waits goes on, and the first of it goes on the bus when its time has come. -/
theorem startWriteData_tick {slot₁ slot' : Option (ℕ × BusPacket)} {wait' : List (ℕ × BusPacket)}
    (hstart : Starts writeLine T slot₁ wait slot' wait')
    (hbus : s.memoryController.outgoingDataPacket = slot₁.map Prod.snd)
    (hleft : ∀ e ∈ slot₁, s.memoryController.dataCyclesLeft + (T + 1) = e.1 + writeLine + cfg.burst)
    (hpackets : s.memoryController.writeDataToSend = wait.map Prod.snd)
    (hline : s.memoryController.writeDataCountdown = wait.map fun e => e.1 + writeLine - T)
    (hwait : ∀ e ∈ wait, T < e.1 + writeLine) :
    ∃ t, s.startWriteData cfg = .ok t ∧ CarriesWrites cfg (T + 1) slot' wait' t ∧ t.history = s.history := by
  have htick : s.memoryController.writeDataCountdown.map decrement = wait.map fun e =>
      e.1 + writeLine - (T + 1) := by
    rw [hline]
    exact countdown_tick pred_of_pos hwait
  rw [startWriteData, MemoryController.startWriteData, htick, hpackets]
  cases hstart with
  | waits hlt =>
      refine ⟨{ s with memoryController := { s.memoryController with
        writeDataToSend := wait.map Prod.snd
        writeDataCountdown := wait.map fun e => e.1 + writeLine - (T + 1) } }, ?_,
          ⟨hbus, hleft, rfl, rfl⟩, rfl⟩
      cases wait with
      | nil => rfl
      | cons e rest =>
          obtain ⟨n, hn⟩ : ∃ n, e.1 + writeLine - (T + 1) = n + 1 := by
            have := hlt e List.mem_cons_self
            exact ⟨e.1 + writeLine - (T + 1) - 1, by omega⟩
          rw [List.map_cons, hn]
          rfl
  | @starts e rest heq hfree =>
      rw [List.map_cons, heq, Nat.sub_self, List.map_cons, hbus, hfree]
      refine ⟨_, rfl, ⟨rfl, fun f hf => ?_, rfl, rfl⟩, rfl⟩
      cases hf
      show cfg.burst + (T + 1) = e.1 + writeLine + cfg.burst
      omega

/-- **The writes in flight.** The write data is in the pipe, and what is through was reported done in time. -/
def WritesFlow (cfg : Config) (s : MemorySystem) : Prop :=
  ∃ done slot wait, Flow cfg.burst writeLine s.memoryController.currentClockCycle
    (dataOf BusPacket.IsWrite s.history.issued)
      done slot wait ∧
    CarriesWrites cfg s.memoryController.currentClockCycle slot wait s ∧
    s.history.written = done.map fun e => (e.1 + WL + cfg.burst, e.2)

/-- Where the writes flow, the update finds the data bus free when it needs it. -/
theorem WritesFlow.phases (h : WritesFlow cfg s) {s₁ s₂ s₃ : MemorySystem}
    (h₁ : (List.range cfg.numRanks).foldlM (updateRank cfg) s = .ok s₁)
    (h₂ : (s₁.takePending cfg).idleBanks.sendCommand cfg = .ok s₂) (h₃ : s₂.sendWriteData cfg = .ok s₃) :
    ∃ done slot wait s₄,
      Flow cfg.burst writeLine (s.memoryController.currentClockCycle + 1)
        (dataOf BusPacket.IsWrite s.history.issued)
        done slot wait ∧
      s₃.startWriteData cfg = .ok s₄ ∧
      CarriesWrites cfg (s.memoryController.currentClockCycle + 1) slot wait s₄ ∧
      s₄.history.written = done.map fun e => (e.1 + WL + cfg.burst, e.2) := by
  obtain ⟨done, slot, wait, hflow, hcarries, hwritten⟩ := h
  obtain ⟨finished, slot₁, slot', wait', hfinish, hstart, hflow'⟩ := hflow.tick cfg.burst_pos
  have hsame := sameWrites_of_phases h₁ h₂
  have hclock : s₂.memoryController.currentClockCycle = s.memoryController.currentClockCycle :=
    (record_of_phases h₁ h₂).2
  have hcarries₂ : CarriesWrites cfg s.memoryController.currentClockCycle slot wait s₂ := by
    rw [CarriesWrites, hsame.outgoing_eq, hsame.left_eq, hsame.packets_eq, hsame.countdown_eq]
    exact hcarries
  obtain ⟨hbus, hleft, hpackets, hline, hsent⟩ := sendWriteData_tick hfinish hcarries₂ hflow.slot_lt h₃
  obtain ⟨s₄, h₄, hcarries₄, hhistory⟩ :=
    startWriteData_tick hstart hbus hleft (hpackets.trans hcarries₂.packets_eq)
      (hline.trans hcarries₂.line_eq) hflow.wait_lt
  refine ⟨done ++ finished.toList, slot', wait', s₄, hflow', h₄, hcarries₄, ?_⟩
  rw [hhistory, hsent, hsame.written_eq, hwritten, hclock, List.map_append]
  refine congrArg _ (List.map_congr_left fun e he => ?_)
  have htime : e.1 + writeLine + cfg.burst = s.memoryController.currentClockCycle + 1 := by
    rw [hflow.new_eq hflow'] at he
    exact of_decide_eq_true (List.mem_filter.mp he).2
  rw [writeLine] at htime
  rw [show s.memoryController.currentClockCycle = e.1 + WL + cfg.burst by omega]

/-- **The data bus is free when write data comes**: no update collides. -/
theorem WritesFlow.no_collision (h : WritesFlow cfg s) : s.update cfg ≠ .error .dataBusCollision := by
  intro hupdate
  cases update_fails hupdate with
  | ranks h => rcases ranks_exits h with h | h <;> cases h
  | sendCommand _ h => exact absurd (sendCommand_exits h) (by decide)
  | sendWriteData _ _ h => exact absurd (sendWriteData_exits h) (by decide)
  | startWriteData h₁ h₂ h₃ hstart =>
      obtain ⟨_, _, _, s₄, -, h₄, -, -⟩ := h.phases h₁ h₂ h₃
      rw [h₄] at hstart
      cases hstart
  | popCommand hprepared h => rcases popCommand_exits hprepared.idle h with h | h | h | h | h <;> cases h
  | schedule _ _ h => rcases schedule_exits h with h | h | h <;> cases h
  | returnData _ _ _ _ _ _ h => cases returnData_exits h

/-- What the phases behind the data bus do to the write data: a write that is popped waits for `WL`. -/
theorem writes_of_phases {s₄ s₅ s₆ s₇ : MemorySystem} (h₅ : (s₄.checkRefresh cfg).popCommand cfg = .ok s₅)
    (h₆ : s₅.schedule cfg = .ok s₆) (h₇ : (s₆.addBackgroundEnergy cfg).returnData cfg = .ok s₇) :
    (s₇.stepClocks.history.issued = s₄.history.issued ∧ SameWrites s₄ s₇.stepClocks) ∨
      ∃ p, s₇.stepClocks.history.issued = s₄.history.issued ++ [(s₄.memoryController.currentClockCycle, p)] ∧
        SameWrites { s₄ with memoryController := { s₄.memoryController with
          writeDataToSend :=
            if p.IsWrite then s₄.memoryController.writeDataToSend ++ [p.toData]
              else s₄.memoryController.writeDataToSend
          writeDataCountdown :=
            if p.IsWrite then s₄.memoryController.writeDataCountdown ++ [WL]
            else s₄.memoryController.writeDataCountdown } } s₇.stepClocks := by
  have hafter : SameWrites s₅ s₇.stepClocks ∧ s₇.stepClocks.history.issued = s₅.history.issued := by
    obtain ⟨mc, hmc, rfl⟩ := map_ok h₆
    obtain ⟨⟨returned, mc'⟩, hmc', rfl⟩ := map_ok h₇
    rcases scheduleFrom_split (fun x hx => by cases hx) rfl hmc with
      ⟨rfl, -⟩ | ⟨_, _, _, _, -, -, -, -, rfl⟩ <;>
    rcases returnData_ok hmc' with ⟨-, rfl, rfl⟩ | ⟨_, _, _, _, _, _, _, _, -, -, -, -, rfl, rfl⟩ <;>
    exact ⟨⟨rfl, rfl, rfl, rfl, rfl⟩, rfl⟩
  obtain ⟨ranks, waiting, rank, countdown, next, -, heq⟩ := checkRefresh_eq cfg s₄
  rw [heq] at h₅
  obtain ⟨found, cq, -, ⟨-, rfl⟩ | ⟨p, _, _, _, _, -, -, -, rfl⟩⟩ := popCommand_split h₅
  · exact .inl ⟨hafter.2, hafter.1.outgoing_eq, hafter.1.left_eq, hafter.1.packets_eq, hafter.1.countdown_eq,
      hafter.1.written_eq⟩
  · exact .inr ⟨p, hafter.2, hafter.1.outgoing_eq, hafter.1.left_eq, hafter.1.packets_eq,
      hafter.1.countdown_eq,
      hafter.1.written_eq⟩

/-- **Writes that come a burst apart flow**: what an update keeps. -/
theorem WritesFlow.update (h : WritesFlow cfg s) (hupdate : s.update cfg = .ok s')
    (hspaced : (dataOf BusPacket.IsWrite s'.history.issued).Pairwise fun e f => e.1 + cfg.burst ≤ f.1) :
    WritesFlow cfg s' := by
  have hclock := update_clock hupdate
  obtain ⟨s₁, s₂, s₃, s₄, s₅, s₆, s₇, h₁, h₂, h₃, h₄, h₅, h₆, h₇, rfl⟩ := update_ok hupdate
  obtain ⟨done, slot, wait, t, hflow, ht, hcarries, hwritten⟩ := h.phases h₁ h₂ h₃
  obtain rfl := Except.ok.inj (ht.symm.trans h₄)
  have hbefore : t.history.issued = s.history.issued ∧
      t.memoryController.currentClockCycle = s.memoryController.currentClockCycle := by
    obtain ⟨hissued, hclock⟩ := record_of_phases h₁ h₂
    have hdata := (waits_sendWriteData h₃).1.trans (waits_startWriteData h₄).1
    exact ⟨hdata.issued_eq.trans hissued, hdata.clock_eq.trans hclock⟩
  have hsame := writes_of_phases h₅ h₆ h₇
  rw [hbefore.1, hbefore.2] at hsame
  rw [WritesFlow, hclock]
  rcases hsame with ⟨hissued, hsame⟩ | ⟨p, hissued, hsame⟩
  · refine ⟨done, slot, wait, ?_, ?_, hsame.written_eq.trans hwritten⟩
    · rw [hissued]
      exact hflow
    · rw [CarriesWrites, hsame.outgoing_eq, hsame.left_eq, hsame.packets_eq, hsame.countdown_eq]
      exact hcarries
  · by_cases hwrite : p.IsWrite
    · rw [hissued, dataOf_append_self hwrite] at hspaced
      refine ⟨done, slot, wait ++ [(s.memoryController.currentClockCycle, p.toData)], ?_, ?_,
        hsame.written_eq.trans hwritten⟩
      · rw [hissued, dataOf_append_self hwrite]
        refine hflow.push (fun f hf => ?_) ?_
        · exact (List.pairwise_append.mp hspaced).2.2 f hf _ (List.mem_singleton_self _)
        · show s.memoryController.currentClockCycle + 1 < s.memoryController.currentClockCycle + writeLine
          rw [writeLine, WL]
          omega
      · have hpush := hcarries.push (e := (s.memoryController.currentClockCycle, p.toData)) (c := WL) (by
          show s.memoryController.currentClockCycle + writeLine =
            WL + (s.memoryController.currentClockCycle + 1)
          rw [writeLine]
          omega)
        rw [CarriesWrites, hsame.outgoing_eq, hsame.left_eq, hsame.packets_eq, hsame.countdown_eq]
        dsimp only
        rw [if_pos hwrite, if_pos hwrite]
        exact hpush
    · refine ⟨done, slot, wait, ?_, ?_, hsame.written_eq.trans hwritten⟩
      · rw [hissued, dataOf_append_other hwrite]
        exact hflow
      · rw [CarriesWrites, hsame.outgoing_eq, hsame.left_eq, hsame.packets_eq, hsame.countdown_eq]
        dsimp only
        rw [if_neg hwrite, if_neg hwrite]
        exact hcarries

theorem update_issued (hcontrol : Control cfg s) (h : s.update cfg = .ok s') :
    s'.history.issued = s.history.issued ∨
      ∃ p, s'.history.issued = s.history.issued ++ [(s.memoryController.currentClockCycle, p)] ∧
        (p.IsColumn → p.rank < cfg.numRanks) := by
  obtain ⟨found, cq, hpop, hissued⟩ := update_nextPop h
  cases found with
  | none => exact .inl (hissued.trans (List.append_nil _))
  | some p =>
      refine .inr ⟨p, hissued, fun hcolumn => ?_⟩
      have hdrawn := CommandQueue.pop_drawn (fun r b => rfl) hpop
      rcases hdrawn.found p rfl with ⟨r, b, hmem⟩ | ⟨-, rfl⟩
      · rw [(checkRefresh_same cfg s).1] at hmem
        have hplaced := hcontrol.shape.placed r b p hmem
        rw [hplaced.rank_eq]
        exact hplaced.hasQueue.1
      · rcases hcolumn with hbad | hbad <;> cases hbad

theorem act_issued {action : Action} (h : s.act cfg action = .ok s') :
    s.history.issued <+: s'.history.issued := by
  rcases act_ok h with ⟨-, hupdate⟩ | ⟨-, hwaits, -⟩
  · obtain ⟨found, cq, -, hissued⟩ := update_nextPop hupdate
    rw [hissued]
    exact List.prefix_append _ _
  · rw [hwaits.issued_eq]

/-- **The commands of a run go to ranks there are.** -/
theorem issued_ranks (hpolicy : cfg.rowBufferPolicy = .closePage) (htCMD : cfg.tCMD = 1)
    {actions : List Action}
    (h : run cfg actions = .ok s) : ∀ e ∈ s.history.issued, e.2.IsColumn → e.2.rank < cfg.numRanks := by
  refine (foldlM_ok (P := fun s => Control cfg s ∧ ∀ e ∈ s.history.issued,
    e.2.IsColumn → e.2.rank < cfg.numRanks)
    (fun t action t' hinv hact => ⟨hinv.1.act hpolicy htCMD hact, ?_⟩)
    ⟨Control.init cfg, fun e he => by cases he⟩ h).2
  rcases act_ok hact with ⟨-, hupdate⟩ | ⟨-, hwaits, -⟩
  · rcases update_issued hinv.1 hupdate with hissued | ⟨p, hissued, hrank⟩
    · rw [hissued]
      exact hinv.2
    · rw [hissued]
      intro e he
      rcases List.mem_append.mp he with he | he
      · exact hinv.2 e he
      · rw [List.mem_singleton.mp he]
        exact hrank
  · rw [hwaits.issued_eq]
    exact hinv.2

theorem WritesFlow.init (cfg : Config) : WritesFlow cfg (init cfg) :=
  ⟨[], none, [], .nil, ⟨rfl, (fun e he => by cases he), rfl, rfl⟩, rfl⟩

theorem WritesFlow.act (h : WritesFlow cfg s) {action : Action} (hact : s.act cfg action = .ok s')
    (hspaced : (dataOf BusPacket.IsWrite s'.history.issued).Pairwise fun e f => e.1 + cfg.burst ≤ f.1) :
    WritesFlow cfg s' := by
  rcases act_ok hact with ⟨-, hupdate⟩ | ⟨hne, hwaits, -⟩
  · exact h.update hupdate hspaced
  · have hsame := (act_frame hne hact).1
    obtain ⟨done, slot, wait, hflow, hcarries, hwritten⟩ := h
    refine ⟨done, slot, wait, ?_, ?_, hsame.written_eq.trans hwritten⟩
    · rw [hwaits.clock_eq, hwaits.issued_eq]
      exact hflow
    · rw [CarriesWrites, hwaits.clock_eq, hsame.outgoing_eq, hsame.left_eq, hsame.packets_eq,
        hsame.countdown_eq]
      exact hcarries

/-- **The writes of a run flow in every state it reaches**, if they come a burst apart. -/
theorem writesFlow_run {actions : List Action} (h : run cfg actions = .ok s)
    (hspaced : (dataOf BusPacket.IsWrite s.history.issued).Pairwise fun e f => e.1 + cfg.burst ≤ f.1) :
    WritesFlow cfg s := by
  induction actions using List.reverseRecOn generalizing s with
  | nil =>
      cases h
      exact WritesFlow.init cfg
  | append_singleton acts action ih =>
      rw [run_concat] at h
      obtain ⟨t, ht, hact⟩ := bind_ok h
      refine (ih ht (hspaced.sublist ?_)).act hact hspaced
      rw [dataOf, dataOf]
      exact ((act_issued hact).sublist.filter _).map _

end MemorySystem

end RacerArtifacts.Mram
