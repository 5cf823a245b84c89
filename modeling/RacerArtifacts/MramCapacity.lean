import RacerArtifacts.MramExits

/-! The capacity of the command queues. An update is the run of its phases, and of these only the pop and the
scheduling touch the queues: the pop takes packets out, and the scheduling puts one packet behind a queue that
has room for it, since the activate in front of it is dropped. -/

namespace RacerArtifacts.Mram

open Fallible RoundRobin MemoryController

namespace CommandQueue

variable {cfg : Config} {bankStates : BankStates} {cq cq' cq'' : CommandQueue}

/-- Packets are only taken out of the queues. -/
def Shrinks (cq cq' : CommandQueue) : Prop :=
  ∀ r b, (cq'.queues r b).Sublist (cq.queues r b)

theorem Shrinks.of_eq (h : cq'.queues = cq.queues) : Shrinks cq cq' := by
  intro r b
  rw [h]

theorem Shrinks.trans (h : Shrinks cq cq') (h' : Shrinks cq' cq'') : Shrinks cq cq'' :=
  fun r b => (h' r b).trans (h r b)

theorem shrinks_setCommandQueue {rank bank : ℕ} {queue : List BusPacket}
    (hqueue : queue.Sublist (cq.getCommandQueue cfg rank bank)) :
    Shrinks cq (cq.setCommandQueue cfg rank bank queue) := by
  intro r b
  rw [setCommandQueue_queues]
  split_ifs with hplace
  · obtain ⟨rfl, rfl⟩ := hplace
    exact hqueue
  · exact List.Sublist.refl _

theorem TakesHere.shrinks {p : BusPacket} (h : TakesHere cfg cq p cq') : Shrinks cq cq' := by
  obtain ⟨front, left, rest, counters, hsplit, hleft, rfl⟩ := h
  have hqueue : (left ++ rest).Sublist (cq.here cfg) := by
    rw [hsplit]
    exact hleft.append (List.sublist_cons_self p rest)
  exact (shrinks_setCommandQueue hqueue).trans (.of_eq rfl)

/-- The search over the queues takes out what its look at one of them takes out. -/
theorem roundRobin_shrinks {find : CommandQueue → Except Exit (Option (BusPacket × CommandQueue))}
    (hfind : ∀ cq p cq', find cq = .ok (some (p, cq')) → TakesHere cfg cq p cq') {found : Option BusPacket}
    (h : cq.roundRobin cfg find = .ok (found, cq')) : Shrinks cq cq' := by
  rw [roundRobin] at h
  obtain ⟨⟨r, t⟩, hscan, heq⟩ := map_ok h
  obtain ⟨k, hstop⟩ := scan_ok hscan
  have hthere : Shrinks cq t := by
    rw [hstop.at_eq]
    exact .of_eq (same_iterate cfg cq k).queues_eq
  cases r with
  | none =>
      cases heq
      exact hthere
  | some r =>
      obtain ⟨p, t'⟩ := r
      cases heq
      exact hthere.trans (hfind t p _ (hstop.found_eq _ rfl)).shrinks

theorem popPrecharge_shrinks {found : Option BusPacket}
    (h : cq.popPrecharge cfg bankStates = .ok (found, cq')) :
    Shrinks cq cq' := by
  have hthere : ∀ k, ((advancePRE cfg)^[k] cq).queues = cq.queues := by
    intro k
    induction k with
    | zero => rfl
    | succ k ih =>
        rw [Function.iterate_succ_apply']
        exact ih
  rw [popPrecharge] at h
  obtain ⟨⟨r, t⟩, hscan, heq⟩ := map_ok h
  obtain ⟨k, hstop⟩ := scan_ok hscan
  have hqueues : t.queues = cq.queues := by
    rw [hstop.at_eq]
    exact hthere k
  cases r with
  | none =>
      cases heq
      exact .of_eq hqueues
  | some r =>
      obtain ⟨p, t'⟩ := r
      cases heq
      have hfound := hstop.found_eq _ rfl
      rw [findPrecharge] at hfound
      dsimp only at hfound
      split_ifs at hfound
      · cases hfound
        exact .of_eq hqueues
      · cases hfound
      · cases hfound

theorem takeForOpenRow_shrinks {b : ℕ} {p : BusPacket}
    (h : cq.takeForOpenRow cfg bankStates b = .ok (some (p, cq'))) : Shrinks cq cq' := by
  rw [takeForOpenRow] at h
  split at h
  · cases h
  · split_ifs at h
    · cases h
    · obtain ⟨issuable, -, hif⟩ := map_ok h
      split_ifs at hif
      cases hif
      exact shrinks_setCommandQueue List.eraseP_sublist

theorem takeOrClose_shrinks {b : ℕ} {p : BusPacket}
    (h : cq.takeOrClose cfg bankStates b = .ok (some (p, cq'))) :
    Shrinks cq cq' := by
  rw [takeOrClose] at h
  split_ifs at h
  · cases h
    exact .of_eq rfl
  · cases h
  · exact takeForOpenRow_shrinks h

/-- What the scan over the banks finds it finds at an open one. -/
theorem refreshScan_found {onOpenRow : ℕ → Except Exit (Option (BusPacket × CommandQueue))} {banks : List ℕ}
    {early : Bool} {sent : BusPacket × CommandQueue}
    (h : cq.refreshScan bankStates onOpenRow banks = .ok (early, some sent)) :
    ∃ b, onOpenRow b = .ok (some sent) := by
  induction banks with
  | nil => cases h
  | cons b rest ih =>
      rw [refreshScan] at h
      split_ifs at h
      · obtain ⟨found, hfound, heq⟩ := map_ok h
        cases heq
        exact ⟨b, hfound⟩
      · cases h
      · exact ih h

theorem sendRefresh_shrinks {onOpenRow : ℕ → Except Exit (Option (BusPacket × CommandQueue))}
    (hopen : ∀ b p cq', onOpenRow b = .ok (some (p, cq')) → Shrinks cq cq') {found : Option BusPacket}
    (h : cq.sendRefresh cfg bankStates onOpenRow = .ok (found, cq')) : Shrinks cq cq' := by
  rw [sendRefresh] at h
  split at h
  · cases h
  · rename_i hscan
    cases h
    obtain ⟨b, hb⟩ := refreshScan_found hscan
    exact hopen b _ _ hb
  · cases h
    exact .of_eq rfl
  · split_ifs at h
    · cases h
      exact .of_eq rfl
    · cases h
      exact .of_eq rfl

/-- A pop that begins with the refresh that waits, or with what stands against it. -/
theorem refreshFirst_shrinks {onOpenRow : ℕ → Except Exit (Option (BusPacket × CommandQueue))}
    (hopen : ∀ b p cq', onOpenRow b = .ok (some (p, cq')) → Shrinks cq cq')
    {next : Option BusPacket × CommandQueue → Except Exit (Option BusPacket × CommandQueue)}
    {found : Option BusPacket}
    (hnext : ∀ sent t, Shrinks cq t → next (sent, t) = .ok (found, cq') → Shrinks cq cq')
    (h : (if cq.refreshWaiting = true then cq.sendRefresh cfg bankStates onOpenRow >>= next
      else pure (none, cq) >>= next) = .ok (found, cq')) : Shrinks cq cq' := by
  split_ifs at h
  · obtain ⟨⟨sent, t⟩, hsent, h⟩ := bind_ok h
    exact hnext sent t (sendRefresh_shrinks hopen hsent) h
  · exact hnext none cq (.of_eq rfl) h

theorem popClosePage_shrinks {found : Option BusPacket}
    (h : cq.popClosePage cfg bankStates = .ok (found, cq')) :
    Shrinks cq cq' := by
  rw [popClosePage] at h
  refine refreshFirst_shrinks (fun _ _ _ => takeForOpenRow_shrinks) (fun sent t hshrinks h => ?_) h
  cases sent with
  | some p =>
      cases h
      exact hshrinks
  | none => exact hshrinks.trans (roundRobin_shrinks (fun _ _ _ => findClosePage_takes) h)

theorem popOpenPage_shrinks {found : Option BusPacket}
    (h : cq.popOpenPage cfg bankStates = .ok (found, cq')) :
    Shrinks cq cq' := by
  rw [popOpenPage] at h
  refine refreshFirst_shrinks (fun _ _ _ => takeOrClose_shrinks) (fun sent t hshrinks h => ?_) h
  cases sent with
  | some p =>
      cases h
      exact hshrinks
  | none =>
      obtain ⟨⟨sent, u⟩, hsearch, h⟩ := bind_ok h
      have hsearched := hshrinks.trans (roundRobin_shrinks (fun _ _ _ => findOpenPage_takes) hsearch)
      cases sent with
      | some p =>
          cases h
          exact hsearched
      | none => exact hsearched.trans (popPrecharge_shrinks h)

/-- What a pop does under its policy; recording an activate leaves the queues. -/
theorem pop_split {found : Option BusPacket} (h : cq.pop cfg bankStates = .ok (found, cq')) :
    ∃ t, (cq.tickWindow.popClosePage cfg bankStates = .ok (found, t) ∨
        cq.tickWindow.popOpenPage cfg bankStates = .ok (found, t)) ∧ cq'.queues = t.queues := by
  have hrecorded : ∀ t p, (afterPop cfg t p).queues = t.queues := fun t p => (same_afterPop cfg t p).queues_eq
  rw [pop] at h
  cases hpolicy : cfg.rowBufferPolicy with
  | closePage =>
      rw [hpolicy] at h
      obtain ⟨⟨sent, t⟩, hsent, h⟩ := bind_ok h
      cases sent with
      | none =>
          cases h
          exact ⟨_, .inl hsent, rfl⟩
      | some p =>
          cases h
          exact ⟨t, .inl hsent, hrecorded t p⟩
  | openPage =>
      rw [hpolicy] at h
      obtain ⟨⟨sent, t⟩, hsent, h⟩ := bind_ok h
      cases sent with
      | none =>
          cases h
          exact ⟨_, .inr hsent, rfl⟩
      | some p =>
          cases h
          exact ⟨t, .inr hsent, hrecorded t p⟩

/-- **A pop only takes packets out of the queues**, under either policy and whatever the banks. -/
theorem pop_shrinks {found : Option BusPacket} (h : cq.pop cfg bankStates = .ok (found, cq')) :
    Shrinks cq cq' := by
  obtain ⟨t, hpolicy, hqueues⟩ := pop_split h
  have hfirst : Shrinks cq cq.tickWindow := .of_eq (same_tickWindow cq).queues_eq
  have hlast : Shrinks t cq' := .of_eq hqueues
  rcases hpolicy with hclose | hopen
  · exact (hfirst.trans (popClosePage_shrinks hclose)).trans hlast
  · exact (hfirst.trans (popOpenPage_shrinks hopen)).trans hlast

/-- No queue holds more than the depth that is configured. -/
def WithinDepth (cfg : Config) (cq : CommandQueue) : Prop :=
  ∀ r b, (cq.queues r b).length ≤ cfg.cmdQueueDepth

theorem WithinDepth.shrinks (h : cq.WithinDepth cfg) (hshrinks : Shrinks cq cq') : cq'.WithinDepth cfg :=
  fun r b => (hshrinks r b).length_le.trans (h r b)

/-- The subtraction of the room test does not wrap: what it finds is the room there is. -/
theorem WithinDepth.hasRoomFor_eq (h : cq.WithinDepth cfg) (hdepth : cfg.cmdQueueDepth < 2 ^ 32)
    {rank bank : ℕ} (hqueue : cfg.HasQueue rank (cfg.slot bank)) (n : ℕ) :
    cq.hasRoomFor cfg n rank bank =
      .ok (decide ((cq.getCommandQueue cfg rank bank).length + n ≤ cfg.cmdQueueDepth)) := by
  have hlength : (cq.getCommandQueue cfg rank bank).length ≤ cfg.cmdQueueDepth := h _ _
  have hroom : ((cfg.cmdQueueDepth - (cq.getCommandQueue cfg rank bank).length : ℤ) % 2 ^ 64).toNat =
      cfg.cmdQueueDepth - (cq.getCommandQueue cfg rank bank).length := by omega
  rw [hasRoomFor, if_pos hqueue, hroom]
  congr 2
  apply propext
  omega

/-- A queue with room for one packet is not full, whatever the width of the subtraction. -/
theorem WithinDepth.not_full (h : cq.WithinDepth cfg) {rank bank : ℕ}
    (hroom : cq.hasRoomFor cfg 1 rank bank = .ok true) :
    (cq.getCommandQueue cfg rank bank).length < cfg.cmdQueueDepth := by
  have hlength : (cq.getCommandQueue cfg rank bank).length ≤ cfg.cmdQueueDepth := h _ _
  rw [hasRoomFor] at hroom
  split_ifs at hroom
  have hone := of_decide_eq_true (Except.ok.inj hroom)
  omega

theorem WithinDepth.push (h : cq.WithinDepth cfg) {rank bank : ℕ} (p : BusPacket)
    (hroom : (cq.getCommandQueue cfg rank bank).length < cfg.cmdQueueDepth) :
    (cq.setCommandQueue cfg rank bank (cq.getCommandQueue cfg rank bank ++ [p])).WithinDepth cfg := by
  intro r b
  rw [setCommandQueue_queues]
  split_ifs
  · rw [List.length_append, List.length_singleton]
    exact hroom
  · exact h r b

/-- The enqueuing of a packet for a queue that is not full does not give up. -/
theorem enqueue_room {p : BusPacket} {e : Exit}
    (hroom : (cq.getCommandQueue cfg p.rank p.bank).length < cfg.cmdQueueDepth)
    (h : cq.enqueue cfg p = .error e) : e ≠ .enqueuedMoreThanAllowed := by
  rw [enqueue] at h
  split at h
  · cases h
  · split at h
    · cases h
      exact fun hbad => by cases hbad
    · dsimp only at h
      rw [List.length_append, List.length_singleton, if_neg (by omega)] at h
      cases h

end CommandQueue

namespace MemorySystem

variable {cfg : Config} {s s' t : MemorySystem} {e : Exit}

/-- The phases of an update, in their order. -/
def phases (cfg : Config) : List (MemorySystem → Except Exit MemorySystem) :=
  (List.range cfg.numRanks).map (fun i s => s.updateRank cfg i) ++
    [fun s => .ok (s.takePending cfg), fun s => .ok s.idleBanks, sendCommand cfg, sendWriteData cfg,
      startWriteData cfg, fun s => .ok (s.checkRefresh cfg), popCommand cfg, schedule cfg,
      fun s => .ok (s.addBackgroundEnergy cfg), returnData cfg, fun s => .ok s.stepClocks]

theorem update_eq_phases (cfg : Config) (s : MemorySystem) :
    s.update cfg = (phases cfg).foldlM (fun s phase => phase s) s := by
  rw [phases, List.foldlM_append, List.foldlM_map, update]
  apply bind_congr
  intro s₁
  simp only [updateController, bind_assoc, List.foldlM_cons, List.foldlM_nil, pure_bind]
  rfl

theorem withinDepth_phase {phase : MemorySystem → Except Exit MemorySystem} (hphase : phase ∈ phases cfg)
    (hs : s.memoryController.commandQueue.WithinDepth cfg) (h : phase s = .ok t) :
    t.memoryController.commandQueue.WithinDepth cfg := by
  simp only [phases, List.mem_append, List.mem_map, List.mem_cons, List.not_mem_nil, or_false] at hphase
  rcases hphase with ⟨i, -, rfl⟩ | rfl | rfl | rfl | rfl | rfl | rfl | rfl | rfl | rfl | rfl | rfl
  · obtain ⟨received, rank, -, ⟨-, rfl⟩ | ⟨p, reads, -, rfl⟩⟩ := updateRank_ok h
    · exact hs
    · exact hs
  · cases h
    obtain ⟨taken, pending, -, htaken⟩ := takePending_eq cfg s
    rw [htaken]
    exact hs
  · cases h
    exact hs
  · rcases sendCommand_ok h with ⟨-, rfl⟩ | ⟨p, left, -, -, ⟨-, rfl⟩ | ⟨-, ranks, -, rfl⟩⟩
    · exact hs
    · exact hs
    · exact hs
  · rcases sendWriteData_ok h with ⟨-, rfl⟩ | ⟨p, left, -, -, ⟨-, rfl⟩ | ⟨-, ranks, -, rfl⟩⟩
    · exact hs
    · exact hs
    · exact hs
  · obtain ⟨mc, hmc, rfl⟩ := map_ok h
    rcases startWriteData_ok hmc with ⟨-, -, hmc⟩ | ⟨_, _, _, _, _, -, -, -, rfl⟩
    · rw [hmc]
      exact hs
    · exact hs
  · cases h
    obtain ⟨ranks, waiting, rank, countdown, next, -, heq⟩ := checkRefresh_eq cfg s
    rw [heq]
    exact hs
  · -- The pop takes packets out.
    obtain ⟨found, cq, hpop, hcases⟩ := popCommand_split h
    have hcq : cq.WithinDepth cfg := hs.shrinks (CommandQueue.pop_shrinks hpop)
    rcases hcases with ⟨-, rfl⟩ | ⟨p, _, _, _, _, -, -, -, rfl⟩
    · exact hcq
    · exact hcq
  · -- The scheduling puts one packet behind a queue with room.
    obtain ⟨mc, hmc, rfl⟩ := map_ok h
    rcases scheduleFrom_split (fun x hx => by cases hx) rfl hmc with
      ⟨rfl, -⟩ | ⟨before, x, rest, bpType, -, -, hroom, -, rfl⟩
    · exact hs
    · exact hs.push _ (hs.not_full hroom)
  · cases h
    exact hs
  · obtain ⟨⟨returned, mc⟩, hr, rfl⟩ := map_ok h
    rcases returnData_ok hr with ⟨-, rfl, rfl⟩ | ⟨_, _, _, _, _, _, _, _, -, -, -, -, rfl, rfl⟩
    · exact hs
    · exact hs
  · cases h
    exact hs

theorem withinDepth_phases {passed : List (MemorySystem → Except Exit MemorySystem)}
    (hpassed : ∀ phase ∈ passed, phase ∈ phases cfg) (hs : s.memoryController.commandQueue.WithinDepth cfg)
    (h : passed.foldlM (fun s phase => phase s) s = .ok t) :
    t.memoryController.commandQueue.WithinDepth cfg := by
  induction passed generalizing s with
  | nil =>
      cases h
      exact hs
  | cons phase passed ih =>
      rw [List.foldlM_cons] at h
      obtain ⟨u, hu, h⟩ := bind_ok h
      obtain ⟨hphase, hpassed⟩ := List.forall_mem_cons.mp hpassed
      exact ih hpassed (withinDepth_phase hphase hs hu) h

/-- The scheduling does not give up for want of room: it enqueues only where there is some. -/
theorem scheduleFrom_room {mc : MemoryController} {front queue : List Transaction}
    (hmc : mc.commandQueue.WithinDepth cfg) (h : mc.scheduleFrom cfg front queue = .error e) :
    e ≠ .enqueuedMoreThanAllowed := by
  induction queue generalizing front with
  | nil => cases h
  | cons transaction rest ih =>
      rw [scheduleFrom] at h
      rcases bind_error h with hroom | ⟨room, hroom, h⟩
      · rw [CommandQueue.hasRoomFor] at hroom
        split_ifs at hroom
        cases hroom
        exact fun hbad => by cases hbad
      cases room with
      | false => exact ih h
      | true =>
          rw [if_pos rfl] at h
          rcases bind_error h with htype | ⟨bpType, -, h⟩
          · rw [Transaction.getBusPacketType] at htype
            split at htype <;> cases htype
            exact fun hbad => by cases hbad
          rcases bind_error h with hactivate | ⟨cq, hactivate, h⟩
          · rw [enqueue_activate] at hactivate
            cases hactivate
          rw [enqueue_activate] at hactivate
          cases hactivate
          rcases bind_error h with hcommand | ⟨cq, -, hbad⟩
          · exact CommandQueue.enqueue_room (hmc.not_full hroom) hcommand
          · cases hbad

theorem update_room (hs : s.memoryController.commandQueue.WithinDepth cfg) (h : s.update cfg = .error e) :
    e ≠ .enqueuedMoreThanAllowed := by
  rintro rfl
  cases update_fails h with
  | ranks h => exact absurd (ranks_exits h) (by decide)
  | sendCommand _ h => exact absurd (sendCommand_exits h) (by decide)
  | sendWriteData _ _ h => exact absurd (sendWriteData_exits h) (by decide)
  | startWriteData _ _ _ h => exact absurd (startWriteData_exits h) (by decide)
  | popCommand hprepared h => exact absurd (popCommand_exits hprepared.idle h) (by decide)
  | @schedule t t' hprepared hpop h =>
      have hprepared' : t.memoryController.commandQueue.WithinDepth cfg := by
        obtain ⟨ranks, waiting, rank, countdown, next, -, heq⟩ := checkRefresh_eq cfg s
        rw [hprepared.queue_eq, heq]
        exact hs
      have hpopped := withinDepth_phase (by simp [phases]) hprepared' hpop
      exact scheduleFrom_room hpopped (map_error h) rfl
  | returnData _ _ _ _ _ _ h => exact absurd (returnData_exits h) (by decide)

theorem withinDepth_act {action : Action} (hs : s.memoryController.commandQueue.WithinDepth cfg)
    (h : s.act cfg action = .ok s') : s'.memoryController.commandQueue.WithinDepth cfg := by
  rcases act_ok h with ⟨-, hupdate⟩ | ⟨-, hsame, -⟩
  · rw [update_eq_phases] at hupdate
    exact withinDepth_phases (fun _ hphase => hphase) hs hupdate
  · rw [hsame.queue_eq]
    exact hs

/-- **The queues stay within their depth in every state a run reaches.** -/
theorem withinDepth_run {actions : List Action} (h : run cfg actions = .ok s) :
    s.memoryController.commandQueue.WithinDepth cfg :=
  foldlM_ok (fun _ _ _ hs hact => withinDepth_act hs hact) (fun _ _ => Nat.zero_le _) h

/-- **The capacity of the command queues**: between updates and behind each phase of an update no queue holds
more than its depth, and the room test, whose depth is a 32-bit value, finds the room there is; the exit
for a queue that is too long is not reached. -/
theorem command_queue_capacity (cfg : Config) (actions : List Action) :
    (∀ s, run cfg actions = .ok s → ∀ n t, ((phases cfg).take n).foldlM (fun s phase => phase s) s = .ok t →
      (∀ rank slot, (t.memoryController.commandQueue.queues rank slot).length ≤ cfg.cmdQueueDepth) ∧
      (cfg.cmdQueueDepth < 2 ^ 32 → ∀ rank bank, cfg.HasQueue rank (cfg.slot bank) → ∀ numberToEnqueue,
        t.memoryController.commandQueue.hasRoomFor cfg numberToEnqueue rank bank =
          .ok (decide ((t.memoryController.commandQueue.getCommandQueue cfg rank bank).length +
            numberToEnqueue ≤
              cfg.cmdQueueDepth)))) ∧
    run cfg actions ≠ .error .enqueuedMoreThanAllowed := by
  refine ⟨fun s hs n t ht => ?_, fun hexit => ?_⟩
  · have hwithin : t.memoryController.commandQueue.WithinDepth cfg :=
      withinDepth_phases (fun _ hphase => List.mem_of_mem_take hphase) (withinDepth_run hs) ht
    exact ⟨hwithin, fun hdepth rank bank hqueue n => hwithin.hasRoomFor_eq hdepth hqueue n⟩
  · obtain ⟨before, action, behind, s, -, hbefore, haction⟩ := foldlM_error hexit
    cases action with
    | update => exact update_room (withinDepth_run hbefore) haction rfl
    | addTransaction transaction => cases haction
    | request isWrite addr => cases haction
    | resetStats => cases haction

/-- With the devices of the example, behind the pop of an update. -/
theorem command_queue_capacity_ddr2 : ∃ s t, run (ddr2Micron 1 (by decide)) writeThenRead = .ok s ∧
    ((phases (ddr2Micron 1 (by decide))).take 8).foldlM (fun s phase => phase s) s = .ok t ∧
    (t.memoryController.commandQueue.queues 0 0).length ≤ 32 ∧
    t.memoryController.commandQueue.hasRoomFor (ddr2Micron 1 (by decide)) 1 0 0 =
      .ok (decide ((t.memoryController.commandQueue.getCommandQueue (ddr2Micron 1 (by decide)) 0 0).length +
        1 ≤ 32)) := by
  have hrun : ∃ s, run (ddr2Micron 1 (by decide)) writeThenRead = .ok s ∧
      ∃ t, ((phases (ddr2Micron 1 (by decide))).take 8).foldlM (fun s phase => phase s) s = .ok t ∧ True := by
    decide +kernel
  obtain ⟨s, hs, t, ht, -⟩ := hrun
  obtain ⟨hlength, hroom⟩ := (command_queue_capacity (ddr2Micron 1 (by decide)) writeThenRead).1 s hs 8 t ht
  exact ⟨s, t, hs, ht, hlength 0 0, hroom (by decide) 0 0 (by decide) 1⟩

end MemorySystem

end RacerArtifacts.Mram
