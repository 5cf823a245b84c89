import RacerArtifacts.MramDiscipline

/-! The ways an update ends early: which phase does, behind which others, and with which exits. -/

namespace RacerArtifacts.Mram

open Fallible RoundRobin MemoryController

variable {cfg : Config} {e : Exit}

/-- A rank has received a command that its banks do not allow. -/
def Exit.NotAllowed (e : Exit) : Prop :=
  e = .readNotAllowed ∨ e = .writeNotAllowed ∨ e = .activateNotAllowed ∨ e = .prechargeNotAllowed ∨
    e = .refreshNotAllowed

instance (e : Exit) : Decidable e.NotAllowed :=
  inferInstanceAs (Decidable (_ ∨ _))

theorem Rank.receiveFromBus_error {rank : Rank} {p : BusPacket} (h : rank.receiveFromBus cfg p = .error e) :
    e.NotAllowed := by
  rw [receiveFromBus] at h
  cases htype : p.busPacketType with
  | read =>
      simp only [htype] at h
      split_ifs at h
      cases h
      exact .inl rfl
  | write =>
      simp only [htype] at h
      split_ifs at h
      cases h
      exact .inr (.inl rfl)
  | activate =>
      simp only [htype] at h
      split_ifs at h
      cases h
      exact .inr (.inr (.inl rfl))
  | precharge =>
      simp only [htype] at h
      split_ifs at h
      cases h
      exact .inr (.inr (.inr (.inl rfl)))
  | refresh =>
      simp only [htype] at h
      split_ifs at h
      cases h
      exact .inr (.inr (.inr (.inr rfl)))
  | _ =>
      simp only [htype] at h
      cases h

namespace CommandQueue

variable {bankStates : BankStates} {cq cq' : CommandQueue}

theorem isIssuable_error {p : BusPacket} (h : cq.isIssuable cfg bankStates p = .error e) :
    e = .outOfRange ∨ e = .crazyBusPacket := by
  rw [isIssuable] at h
  cases htype : p.busPacketType with
  | refresh =>
      simp only [htype] at h
      cases h
  | data =>
      simp only [htype] at h
      cases h
      exact .inr rfl
  | _ =>
      simp only [htype] at h
      split_ifs at h
      cases h
      exact .inl rfl

/-- A look of the open-page search fails only at a packet that is asked about and cannot be. -/
theorem findOpenPage_error (h : cq.findOpenPage cfg bankStates = .error e) :
    ∃ p ∈ cq.here cfg, cq.isIssuable cfg bankStates p = .error e := by
  rw [findOpenPage] at h
  by_cases hlook : cq.mayLook cfg = true
  · rw [if_pos hlook] at h
    exact takeIssuable_error (map_error h)
  · rw [if_neg hlook] at h
    cases h

theorem pop_exits (hidle : ∀ r b, (bankStates r b).currentBankState = .idle)
    (h : cq.pop cfg bankStates = .error e) : e = .outOfRange ∨ e = .crazyBusPacket ∨ e = .scanDoesNotEnd := by
  have hsearch : ∀ {find : CommandQueue → Except Exit (Option (BusPacket × CommandQueue))} {t : CommandQueue},
      (∀ t e, find t = .error e → ∃ p ∈ t.here cfg, t.isIssuable cfg bankStates p = .error e) →
      t.roundRobin cfg find = .error e → e = .outOfRange ∨ e = .crazyBusPacket ∨ e = .scanDoesNotEnd := by
    intro find t hfind hscan
    rw [roundRobin] at hscan
    rcases scan_fails (map_error hscan) with rfl | ⟨t', ht'⟩
    · exact .inr (.inr rfl)
    · obtain ⟨p, -, hp⟩ := hfind t' e ht'
      rcases isIssuable_error hp with rfl | rfl
      · exact .inl rfl
      · exact .inr (.inl rfl)
  rw [pop_idle hidle] at h
  replace h := map_error h
  split_ifs at h
  rw [search] at h
  cases hpolicy : cfg.rowBufferPolicy with
  | closePage =>
      rw [hpolicy] at h
      exact hsearch (fun _ _ => findClosePage_error) h
  | openPage =>
      rw [hpolicy] at h
      rcases bind_error h with h | ⟨⟨sent, t⟩, -, h⟩
      · exact hsearch (fun _ _ => findOpenPage_error) h
      · cases sent with
        | some p => cases h
        | none =>
            change t.popPrecharge cfg bankStates = .error e at h
            rw [popPrecharge] at h
            rcases scan_fails (map_error h) with rfl | ⟨t', ht'⟩
            · exact .inr (.inr rfl)
            · rw [findPrecharge] at ht'
              dsimp only at ht'
              rw [hidle, if_neg (by decide)] at ht'
              cases ht'

end CommandQueue

namespace MemorySystem

variable {s s' t u : MemorySystem}

/-- The phase at which an update ends early. -/
inductive UpdateFails (cfg : Config) (s : MemorySystem) (e : Exit) : Prop
  | ranks (h : (List.range cfg.numRanks).foldlM (updateRank cfg) s = .error e)
  | sendCommand {s₁ : MemorySystem} (h₁ : (List.range cfg.numRanks).foldlM (updateRank cfg) s = .ok s₁)
      (h : (s₁.takePending cfg).idleBanks.sendCommand cfg = .error e)
  | sendWriteData {s₁ s₂ : MemorySystem} (h₁ : (List.range cfg.numRanks).foldlM (updateRank cfg) s = .ok s₁)
      (h₂ : (s₁.takePending cfg).idleBanks.sendCommand cfg = .ok s₂) (h : s₂.sendWriteData cfg = .error e)
  | startWriteData {s₁ s₂ s₃ : MemorySystem}
      (h₁ : (List.range cfg.numRanks).foldlM (updateRank cfg) s = .ok s₁)
      (h₂ : (s₁.takePending cfg).idleBanks.sendCommand cfg = .ok s₂) (h₃ : s₂.sendWriteData cfg = .ok s₃)
      (h : s₃.startWriteData cfg = .error e)
  | popCommand {t : MemorySystem} (hprepared : Prepared cfg s t) (h : t.popCommand cfg = .error e)
  | schedule {t t' : MemorySystem} (hprepared : Prepared cfg s t) (hpop : t.popCommand cfg = .ok t')
      (h : t'.schedule cfg = .error e)
  | returnData {s₁ s₂ s₃ s₄ s₅ s₆ : MemorySystem}
      (h₁ : (List.range cfg.numRanks).foldlM (updateRank cfg) s = .ok s₁)
      (h₂ : (s₁.takePending cfg).idleBanks.sendCommand cfg = .ok s₂) (h₃ : s₂.sendWriteData cfg = .ok s₃)
      (h₄ : s₃.startWriteData cfg = .ok s₄) (h₅ : (s₄.checkRefresh cfg).popCommand cfg = .ok s₅)
      (h₆ : s₅.schedule cfg = .ok s₆) (h : (s₆.addBackgroundEnergy cfg).returnData cfg = .error e)

/-- **An update that fails fails in one of its phases**, and the ones before it went through. -/
theorem update_fails (h : s.update cfg = .error e) : UpdateFails cfg s e := by
  rw [update] at h
  rcases bind_error h with h₁ | ⟨s₁, h₁, h⟩
  · exact .ranks h₁
  rcases bind_error h with h | ⟨t, -, hbad⟩
  swap
  · cases hbad
  rw [updateController] at h
  rcases bind_error h with h₂ | ⟨s₂, h₂, h⟩
  · exact .sendCommand h₁ h₂
  rcases bind_error h with h₃ | ⟨s₃, h₃, h⟩
  · exact .sendWriteData h₁ h₂ h₃
  rcases bind_error h with h₄ | ⟨s₄, h₄, h⟩
  · exact .startWriteData h₁ h₂ h₃ h₄
  rcases bind_error h with h₅ | ⟨s₅, h₅, h⟩
  · exact .popCommand (prepared_of_phases h₁ h₂ h₃ h₄) h₅
  rcases bind_error h with h₆ | ⟨s₆, h₆, h⟩
  · exact .schedule (prepared_of_phases h₁ h₂ h₃ h₄) h₅ h₆
  rcases bind_error h with h₇ | ⟨s₇, -, hbad⟩
  · exact .returnData h₁ h₂ h₃ h₄ h₅ h₆ h₇
  · cases hbad

theorem ranks_exits (h : (List.range cfg.numRanks).foldlM (updateRank cfg) s = .error e) :
    e = .outOfRange ∨ e = .nonDataPacket := by
  refine foldlM_fails (P := fun e => e = .outOfRange ∨ e = .nonDataPacket) (fun t i e hstep => ?_) h
  rw [updateRank] at hstep
  rcases bind_error hstep with hrank | ⟨⟨received, rank⟩, -, hstep⟩
  · have hstart := map_error hrank
    rw [Rank.startData] at hstart
    split at hstart
    · cases hstart
    · cases hstart
      exact .inl rfl
    · cases hstart
  · cases received with
    | none => cases hstep
    | some p =>
        rcases bind_error hstep with hreceive | ⟨mc, -, hbad⟩
        · rw [MemoryController.receiveFromBus] at hreceive
          split_ifs at hreceive
          cases hreceive
          exact .inr rfl
        · cases hbad

theorem sendCommand_exits (h : s.sendCommand cfg = .error e) : e.NotAllowed := by
  rw [sendCommand] at h
  cases hbus : s.memoryController.outgoingCmdPacket with
  | none =>
      rw [hbus] at h
      cases h
  | some p =>
      rw [hbus] at h
      dsimp only at h
      split_ifs at h
      exact Rank.receiveFromBus_error (map_error h)

theorem sendWriteData_exits (h : s.sendWriteData cfg = .error e) : e.NotAllowed := by
  rw [sendWriteData] at h
  cases hbus : s.memoryController.outgoingDataPacket with
  | none =>
      rw [hbus] at h
      cases h
  | some p =>
      rw [hbus] at h
      dsimp only at h
      split_ifs at h
      exact Rank.receiveFromBus_error (map_error h)

theorem startWriteData_exits (h : s.startWriteData cfg = .error e) : e = .outOfRange ∨
    e = .dataBusCollision := by
  replace h := map_error h
  rw [MemoryController.startWriteData] at h
  split at h
  · split_ifs at h
    cases h
    exact .inr rfl
  · cases h
    exact .inl rfl
  · cases h

theorem popCommand_exits (hidle : ∀ r b, (s.memoryController.bankStates r b).currentBankState = .idle)
    (h : s.popCommand cfg = .error e) :
    e = .outOfRange ∨ e = .crazyBusPacket ∨ e = .scanDoesNotEnd ∨ e = .poppedUnexpected ∨
    e = .commandBusCollision := by
  rw [popCommand] at h
  rcases bind_error h with hpop | ⟨⟨found, cq⟩, -, h⟩
  · rcases CommandQueue.pop_exits hidle hpop with he | he | he
    · exact .inl he
    · exact .inr (.inl he)
    · exact .inr (.inr (.inl he))
  · cases found with
    | none => cases h
    | some p =>
        rcases bind_error h with hbanks | ⟨mc, -, h⟩
        · rw [updateBanks] at hbanks
          cases htype : p.busPacketType with
          | data =>
              simp only [htype] at hbanks
              cases hbanks
              exact .inr (.inr (.inr (.inl rfl)))
          | _ =>
              simp only [htype] at hbanks
              cases hbanks
        · rcases bind_error h with hissue | ⟨mc', -, hbad⟩
          · rw [issueCommand] at hissue
            split_ifs at hissue
            cases hissue
            exact .inr (.inr (.inr (.inr rfl)))
          · cases hbad

theorem schedule_exits (h : s.schedule cfg = .error e) :
    e = .outOfRange ∨ e = .notARequest ∨ e = .enqueuedMoreThanAllowed := by
  have hscan : ∀ (mc : MemoryController) (front queue : List Transaction),
      mc.scheduleFrom cfg front queue = .error e →
      e = .outOfRange ∨ e = .notARequest ∨ e = .enqueuedMoreThanAllowed := by
    intro mc front queue
    have henqueue : ∀ {cq : CommandQueue} {p : BusPacket}, cq.enqueue cfg p = .error e →
        e = .outOfRange ∨ e = .notARequest ∨ e = .enqueuedMoreThanAllowed := by
      intro cq p hq
      rw [CommandQueue.enqueue] at hq
      by_cases hdrop : p.busPacketType = .activate ∨ p.busPacketType = .precharge ∨ p.busPacketType = .refresh
      · rw [if_pos hdrop] at hq
        cases hq
      · rw [if_neg hdrop] at hq
        by_cases hqueue : ¬ cfg.HasQueue p.rank (cfg.slot p.bank)
        · rw [if_pos hqueue] at hq
          cases hq
          exact .inl rfl
        · rw [if_neg hqueue] at hq
          dsimp only at hq
          split_ifs at hq
          cases hq
          exact .inr (.inr rfl)
    induction queue generalizing front with
    | nil => exact fun h => by cases h
    | cons transaction rest ih =>
        intro h
        rw [scheduleFrom] at h
        rcases bind_error h with hroom | ⟨room, -, h⟩
        · rw [CommandQueue.hasRoomFor] at hroom
          split_ifs at hroom
          cases hroom
          exact .inl rfl
        cases room with
        | false => exact ih _ h
        | true =>
            rw [if_pos rfl] at h
            rcases bind_error h with htype | ⟨bpType, -, h⟩
            · rw [Transaction.getBusPacketType] at htype
              split at htype
              · cases htype
              · cases htype
              · cases htype
              · cases htype
              · cases htype
                exact .inr (.inl rfl)
            rcases bind_error h with hq | ⟨cq, -, h⟩
            · exact henqueue hq
            rcases bind_error h with hq | ⟨cq, -, h⟩
            · exact henqueue hq
            · cases h
  exact hscan _ _ _ (map_error h)

theorem returnData_exits (h : s.returnData cfg = .error e) : e = .noMatchingTransaction := by
  replace h := map_error h
  rw [MemoryController.returnData] at h
  split at h
  · cases h
  · dsimp only at h
    split at h
    · cases h
      rfl
    · cases h

end MemorySystem

end RacerArtifacts.Mram
