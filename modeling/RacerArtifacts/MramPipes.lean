import RacerArtifacts.LibPipe
import RacerArtifacts.MramLegality

/-! The data in flight. If the reads of a rank come at least a burst apart, the line of reads in the rank and
its data bus are a pipe, and what was issued when says what they hold; so are the line of write data in the
controller and its data bus, if all writes do. -/

namespace RacerArtifacts.Mram

open Fallible MemoryController Pipe

variable {cfg : Config}

/-- From the issue of a read to the rank's data bus: the command bus, `RL`, and the update behind. -/
def Config.readLine (cfg : Config) : ℕ :=
  cfg.tCMD + RL + 1

/-- From the issue of a write to the controller's data bus: `WL`, and the update behind. -/
def writeLine : ℕ :=
  WL + 1

theorem pred_of_pos : ∀ n, 1 ≤ n → decrement n = n - 1 :=
  fun _ hn => decrement_of_pos hn

namespace Rank

variable {rank : Rank} {L T : ℕ} {entries done wait : List (ℕ × BusPacket)} {slot : Option (ℕ × BusPacket)}

/-- What the rank holds of the reads. -/
abbrev Carries (cfg : Config) (L T : ℕ) (slot : Option (ℕ × BusPacket)) (wait : List (ℕ × BusPacket))
    (rank : Rank) :
    Prop :=
  Pipe.Carries cfg.burst L T slot wait rank.outgoingDataPacket rank.dataCyclesLeft rank.readReturnPacket
    rank.readReturnCountdown

theorem sendData_tick {finished slot₁ : Option (ℕ × BusPacket)}
    (hfinish : Finishes cfg.burst L T slot finished slot₁) (hcarries : Carries cfg L T slot wait rank)
    (hpos : ∀ e ∈ slot, T < e.1 + L + cfg.burst) :
    ∃ left, rank.sendData = (finished.map Prod.snd,
      { rank with outgoingDataPacket := slot₁.map Prod.snd, dataCyclesLeft := left }) ∧
      ∀ e ∈ slot₁, left + (T + 1) = e.1 + L + cfg.burst := by
  have hbus := hcarries.bus_eq
  rw [sendData, hbus]
  cases hfinish with
  | none =>
      refine ⟨rank.dataCyclesLeft, ?_, fun e he => by cases he⟩
      change (none, rank) = (none, { rank with outgoingDataPacket := none })
      rw [← show rank.outgoingDataPacket = none from hbus]
  | @stays e hlt =>
      have hleft := hcarries.left_eq e rfl
      refine ⟨decrement rank.dataCyclesLeft, ?_, fun f hf => ?_⟩
      · dsimp only [Option.map_some]
        rw [decrement_of_pos (by omega), if_neg (by omega)]
        rfl
      · cases hf
        rw [decrement_of_pos (by omega)]
        omega
  | @leaves e heq =>
      have hleft := hcarries.left_eq e rfl
      refine ⟨decrement rank.dataCyclesLeft, ?_, fun f hf => by cases hf⟩
      dsimp only [Option.map_some]
      rw [decrement_of_pos (by omega), if_pos (by omega)]
      rfl

/-- The reads that wait go on, and the first of them goes on the bus when its time has come. -/
theorem startData_tick {slot₁ slot' : Option (ℕ × BusPacket)} {wait' : List (ℕ × BusPacket)}
    (hstart : Starts L T slot₁ wait slot' wait') (hbus : rank.outgoingDataPacket = slot₁.map Prod.snd)
    (hleft : ∀ e ∈ slot₁, rank.dataCyclesLeft + (T + 1) = e.1 + L + cfg.burst)
    (hpackets : rank.readReturnPacket = wait.map Prod.snd)
    (hline : rank.readReturnCountdown = wait.map fun e => e.1 + L - T) (hwait : ∀ e ∈ wait, T < e.1 + L) :
    ∃ rank', rank.startData cfg = .ok rank' ∧ Carries cfg L (T + 1) slot' wait' rank' := by
  have htick : rank.readReturnCountdown.map decrement = wait.map fun e => e.1 + L - (T + 1) := by
    rw [hline]
    exact countdown_tick pred_of_pos hwait
  rw [startData, htick, hpackets]
  cases hstart with
  | waits hlt =>
      refine ⟨{ rank with
        readReturnPacket := wait.map Prod.snd
        readReturnCountdown := wait.map fun e => e.1 + L - (T + 1) }, ?_, hbus, hleft, rfl, rfl⟩
      cases wait with
      | nil => rfl
      | cons e rest =>
          obtain ⟨n, hn⟩ : ∃ n, e.1 + L - (T + 1) = n + 1 := by
            have := hlt e List.mem_cons_self
            exact ⟨e.1 + L - (T + 1) - 1, by omega⟩
          rw [List.map_cons, hn]
          rfl
  | @starts e rest heq hfree =>
      rw [List.map_cons, heq, Nat.sub_self, List.map_cons]
      refine ⟨_, rfl, rfl, fun f hf => ?_, rfl, rfl⟩
      cases hf
      dsimp only
      omega

/-- **The update of a rank is a tick of its pipe.** -/
theorem update_tick (hflow : Flow cfg.burst L T entries done slot wait)
    (hcarries : Carries cfg L T slot wait rank) :
    ∃ (finished slot' : Option (ℕ × BusPacket)) (wait' : List (ℕ × BusPacket)) (rank' : Rank),
      Flow cfg.burst L (T + 1) entries (done ++ finished.toList) slot' wait' ∧
      Carries cfg L (T + 1) slot' wait' rank' ∧ rank.update cfg = .ok (finished.map Prod.snd, rank') := by
  obtain ⟨finished, slot₁, slot', wait', hfinish, hstart, hflow'⟩ := hflow.tick cfg.burst_pos
  obtain ⟨left, hsend, hleft⟩ := sendData_tick hfinish hcarries hflow.slot_lt
  have hsent : ∃ rank', { rank with
      outgoingDataPacket := slot₁.map Prod.snd, dataCyclesLeft := left }.startData cfg = .ok rank' ∧
      Carries cfg L (T + 1) slot' wait' rank' :=
    startData_tick hstart rfl hleft hcarries.packets_eq hcarries.line_eq hflow.wait_lt
  obtain ⟨rank', hrank', hcarries'⟩ := hsent
  refine ⟨finished, slot', wait', rank', hflow', hcarries', ?_⟩
  rw [update, hsend]
  dsimp only
  rw [hrank']
  rfl

end Rank

/-- The commands of a kind among the issued ones, as the data they move. -/
def dataOf (kind : BusPacket → Prop) [DecidablePred kind] (issued : List (ℕ × BusPacket)) :
    List (ℕ × BusPacket) :=
  (issued.filter fun e => decide (kind e.2)).map fun e => (e.1, e.2.toData)

section dataOf

variable {kind : BusPacket → Prop} [DecidablePred kind] {t : ℕ} {p : BusPacket}
  {issued : List (ℕ × BusPacket)}

theorem dataOf_append_self (hp : kind p) :
    dataOf kind (issued ++ [(t, p)]) = dataOf kind issued ++ [(t, p.toData)] := by
  have hself : [(t, p)].filter (fun e => decide (kind e.2)) = [(t, p)] :=
    List.filter_cons_of_pos (decide_eq_true hp)
  rw [dataOf, List.filter_append, List.map_append, hself]
  rfl

theorem dataOf_append_other (hp : ¬ kind p) : dataOf kind (issued ++ [(t, p)]) = dataOf kind issued := by
  have hother : [(t, p)].filter (fun e => decide (kind e.2)) = [] :=
    List.filter_cons_of_neg (by rwa [decide_eq_true_eq])
  rw [dataOf, List.filter_append, hother, List.append_nil]
  rfl

theorem mem_dataOf {e : ℕ × BusPacket} : e ∈ dataOf kind issued ↔ ∃ f ∈ issued, kind f.2 ∧
    (f.1, f.2.toData) = e := by
  simp only [dataOf, List.mem_map, List.mem_filter, decide_eq_true_eq, and_assoc]

theorem data_of_mem {e : ℕ × BusPacket} (he : e ∈ dataOf kind issued) : e.2.busPacketType = .data := by
  obtain ⟨f, -, -, rfl⟩ := mem_dataOf.mp he
  rfl

theorem dataOf_pairwise {D : ℕ} (h : issued.Pairwise fun e f => kind e.2 → kind f.2 → e.1 + D ≤ f.1) :
    (dataOf kind issued).Pairwise fun e f => e.1 + D ≤ f.1 := by
  rw [dataOf, List.pairwise_map, List.pairwise_filter]
  exact h.imp fun hspaced he hf => hspaced (of_decide_eq_true he) (of_decide_eq_true hf)

theorem dataOf_filter (q : ℕ → Prop) [DecidablePred q] :
    (dataOf kind issued).filter (fun e => decide (q e.1)) =
      dataOf kind (issued.filter fun e => decide (q e.1)) := by
  rw [dataOf, dataOf, List.filter_map, List.filter_filter, List.filter_filter]
  refine congrArg _ (List.filter_congr fun e _ => ?_)
  show (decide (q e.1) && decide (kind e.2)) = (decide (kind e.2) && decide (q e.1))
  rw [Bool.and_comm]

end dataOf

/-- The reads of a rank. -/
def ReadOf (r : ℕ) (p : BusPacket) : Prop :=
  p.IsRead ∧ p.rank = r

instance (r : ℕ) : DecidablePred (ReadOf r) :=
  fun _ => inferInstanceAs (Decidable (_ ∧ _))

/-- The ranks hold what was sent to them of reads, and nothing else. -/
def ReadPipes (cfg : Config) (T : ℕ) (sent : List (ℕ × BusPacket)) (ranks : ℕ → Rank) : Prop :=
  ∀ r < cfg.numRanks, ∃ done slot wait,
    Flow cfg.burst cfg.readLine T (dataOf (ReadOf r) sent) done slot wait ∧
    (ranks r).Carries cfg cfg.readLine T slot wait

/-- Data that leaves a rank, as a transaction to return. -/
def returning (e : ℕ × BusPacket) : Transaction :=
  { transactionType := .returnData, address := e.2.physicalAddress, data := e.2.data, timeAdded := 0 }

/-- What the ranks before the `n`-th give back in the update that ends at a time, rank by rank. -/
def returningAt (cfg : Config) (T n : ℕ) (sent : List (ℕ × BusPacket)) : List Transaction :=
  (List.range n).flatMap fun r =>
    ((dataOf (ReadOf r) sent).filter fun e => decide (e.1 + cfg.readLine + cfg.burst = T)).map returning

namespace MemorySystem

variable {s s' t : MemorySystem} {T : ℕ} {sent : List (ℕ × BusPacket)} {ranks ranks' : ℕ → Rank}

theorem readPipes_of_same (h : ReadPipes cfg T sent ranks) (hsame : SamePipes ranks ranks') :
    ReadPipes cfg T sent ranks' := by
  intro r hr
  obtain ⟨done, slot, wait, hflow, hcarries⟩ := h r hr
  refine ⟨done, slot, wait, hflow, ?_⟩
  rw [Rank.Carries, hsame.outgoing_eq, hsame.left_eq, hsame.packets_eq, hsame.countdown_eq]
  exact hcarries

/-- A command that reaches its rank; a read comes a burst behind the reads before it. -/
theorem readPipes_receive (h : ReadPipes cfg T sent ranks) {t : ℕ} {p : BusPacket}
    (ht : t + cfg.readLine = RL + T)
    (hspaced : p.IsRead → ∀ f ∈ sent, f.2.IsRead → f.2.rank = p.rank → f.1 + cfg.burst ≤ t) :
    ReadPipes cfg T (sent ++ [(t, p)]) (receive ranks p) := by
  intro r hr
  obtain ⟨done, slot, wait, hflow, hcarries⟩ := h r hr
  rw [receive]
  by_cases hread : ReadOf r p
  · obtain ⟨hisRead, rfl⟩ := hread
    refine ⟨done, slot, wait ++ [(t, p.toData)], ?_, ?_⟩
    · have hself : ReadOf p.rank p := ⟨hisRead, rfl⟩
      rw [dataOf_append_self hself]
      refine hflow.push (fun f hf => ?_) ?_
      · obtain ⟨f', hmem, hkind, rfl⟩ := mem_dataOf.mp hf
        exact hspaced hisRead f' hmem hkind.1 hkind.2
      · show T < t + cfg.readLine
        rw [ht, RL]
        omega
    · rw [if_pos hisRead, Function.update_self]
      exact hcarries.push (e := (t, p.toData)) ht
  · refine ⟨done, slot, wait, ?_, ?_⟩
    · rw [dataOf_append_other hread]
      exact hflow
    · split_ifs with hisRead
      · rw [Function.update_of_ne fun heq => hread ⟨hisRead, heq.symm⟩]
        exact hcarries
      · exact hcarries

theorem updateRank_tick {r : ℕ} {done wait : List (ℕ × BusPacket)} {slot : Option (ℕ × BusPacket)}
    (hflow : Flow cfg.burst cfg.readLine T (dataOf (ReadOf r) sent) done slot wait)
    (hcarries : (s.ranks r).Carries cfg cfg.readLine T slot wait) :
    ∃ rank reads, (∃ done slot wait,
      Flow cfg.burst cfg.readLine (T + 1) (dataOf (ReadOf r) sent) done slot wait ∧
        rank.Carries cfg cfg.readLine (T + 1) slot wait) ∧
      s.updateRank cfg r = .ok { s with
        memoryController := { s.memoryController with
          returnTransaction := s.memoryController.returnTransaction ++
            ((dataOf (ReadOf r) sent).filter fun e =>
              decide (e.1 + cfg.readLine + cfg.burst = T + 1)).map returning
          totalReadsPerBank := reads }
        ranks := Function.update s.ranks r rank } := by
  obtain ⟨finished, slot', wait', rank, hflow', hcarries', hupdate⟩ := Rank.update_tick hflow hcarries
  have hnew := hflow.new_eq hflow'
  rw [updateRank, hupdate, ← hnew]
  cases finished with
  | none =>
      refine ⟨rank, s.memoryController.totalReadsPerBank, ⟨_, _, _, hflow', hcarries'⟩, ?_⟩
      rw [Option.toList_none, List.map_nil, List.append_nil]
      rfl
  | some e =>
      have hmem : e ∈ dataOf (ReadOf r) sent := by
        refine List.mem_of_mem_filter (p := fun e => decide (e.1 + cfg.readLine + cfg.burst = T + 1)) ?_
        rw [← hnew]
        exact List.mem_singleton_self e
      obtain ⟨reads, hreceive⟩ : ∃ reads,
          s.memoryController.receiveFromBus cfg e.2 = .ok { s.memoryController with
          returnTransaction := s.memoryController.returnTransaction ++ [returning e]
          totalReadsPerBank := reads } := by
        rw [MemoryController.receiveFromBus, if_neg (not_not.mpr (data_of_mem hmem))]
        exact ⟨_, rfl⟩
      refine ⟨rank, reads, ⟨_, _, _, hflow', hcarries'⟩, ?_⟩
      change (s.memoryController.receiveFromBus cfg e.2 >>= fun mc => pure { s with
        memoryController := mc, ranks := Function.update s.ranks r rank }) = _
      rw [hreceive]
      rfl

/-- **The loop over the ranks is a tick of all their pipes**: it goes through, and what is done is to
be returned. -/
theorem updateRanks_tick (h : ReadPipes cfg T sent s.ranks) :
    ∃ ranks reads, ReadPipes cfg (T + 1) sent ranks ∧
      (List.range cfg.numRanks).foldlM (updateRank cfg) s = .ok { s with
        memoryController := { s.memoryController with
          returnTransaction := s.memoryController.returnTransaction ++
            returningAt cfg (T + 1) cfg.numRanks sent
          totalReadsPerBank := reads }
        ranks := ranks } := by
  have hloop := foldlM_range_total (f := updateRank cfg) (n := cfg.numRanks) (s := s)
    (P := fun n t => ∃ ranks reads, t = { s with
        memoryController := { s.memoryController with
          returnTransaction := s.memoryController.returnTransaction ++ returningAt cfg (T + 1) n sent
          totalReadsPerBank := reads }
        ranks := ranks } ∧
      (∀ r < n, ∃ done slot wait, Flow cfg.burst cfg.readLine (T + 1)
        (dataOf (ReadOf r) sent) done slot wait ∧
        (ranks r).Carries cfg cfg.readLine (T + 1) slot wait) ∧
      ∀ r, n ≤ r → ranks r = s.ranks r)
    ⟨s.ranks, s.memoryController.totalReadsPerBank,
      by rw [returningAt, List.range_zero, List.flatMap_nil, List.append_nil],
      fun r hr => absurd hr (Nat.not_lt_zero r), fun _ _ => rfl⟩ ?_
  · obtain ⟨s₁, hs₁, ranks, reads, rfl, hpipes, -⟩ := hloop
    exact ⟨ranks, reads, hpipes, hs₁⟩
  · rintro n hn t ⟨ranks, reads, rfl, hpipes, hothers⟩
    obtain ⟨done, slot, wait, hflow, hcarries⟩ := h n hn
    rw [← hothers n le_rfl] at hcarries
    obtain ⟨rank, reads', hrank, hupdate⟩ := updateRank_tick (s := { s with
        memoryController := { s.memoryController with
          returnTransaction := s.memoryController.returnTransaction ++ returningAt cfg (T + 1) n sent
          totalReadsPerBank := reads }
        ranks := ranks }) hflow hcarries
    refine ⟨_, hupdate, Function.update ranks n rank, reads', ?_, fun r hr => ?_, fun r hr => ?_⟩
    · rw [returningAt, returningAt, List.range_succ, List.flatMap_append, List.flatMap_singleton,
        List.append_assoc]
    · by_cases heq : r = n
      · subst heq
        rw [Function.update_self]
        exact hrank
      · rw [Function.update_of_ne heq]
        exact hpipes r (by omega)
    · rw [Function.update_of_ne (by omega)]
      exact hothers r (by omega)

/-- Of two reads of one rank, and of two writes, the later one comes a burst behind. -/
theorem Timed.burst_spaced (htimed : Timed cfg T s) {e f : ℕ × BusPacket} (he : e ∈ s.history.issued)
    (hf : f ∈ s.history.issued) (hlt : e.1 < f.1) (hrank : e.2.rank = f.2.rank)
    (hkind : e.2.IsRead ∧ f.2.IsRead ∨ e.2.IsWrite ∧ f.2.IsWrite) : e.1 + cfg.burst ≤ f.1 := by
  have hecolumn : e.2.IsColumn := htimed.isColumn he (hkind.imp And.left And.left)
  have hfcolumn : f.2.IsColumn := htimed.isColumn hf (hkind.imp And.right And.right)
  have htype : e.2.busPacketType = f.2.busPacketType := by
    rcases hkind with ⟨hread, hread'⟩ | ⟨hwrite, hwrite'⟩
    · exact ((BusPacket.IsRead.isColumn_of_not_read hecolumn).1.mp hread).trans
        ((BusPacket.IsRead.isColumn_of_not_read hfcolumn).1.mp hread').symm
    · exact ((BusPacket.IsRead.isColumn_of_not_read hecolumn).2.mp hwrite).trans
        ((BusPacket.IsRead.isColumn_of_not_read hfcolumn).2.mp hwrite').symm
  have hdelay := htimed.delay he hf hlt hecolumn hfcolumn hrank
  rw [sameRankDelay, if_pos htype] at hdelay
  exact cfg.burst_le_of_sameTypeDelay hlt hdelay

/-- All issued commands but the one on the bus have reached their ranks. -/
def Arrived (T : ℕ) (s : MemorySystem) (sent : List (ℕ × BusPacket)) : Prop :=
  (s.memoryController.outgoingCmdPacket = none ∧ s.history.issued = sent) ∨
    ∃ t p, s.memoryController.outgoingCmdPacket = some p ∧ s.memoryController.cmdCyclesLeft = 1 ∧ t + 1 = T ∧
      s.history.issued = sent ++ [(t, p)]

theorem sendCommand_arrived (htCMD : cfg.tCMD = 1) (htimed : Timed cfg T s) (harrived : Arrived T s sent)
    (hpipes : ReadPipes cfg (T + 1) sent s.ranks) (h : s.sendCommand cfg = .ok t) :
    t.memoryController.outgoingCmdPacket = none ∧ ReadPipes cfg (T + 1) s.history.issued t.ranks := by
  rcases harrived with ⟨hnone, hissued⟩ | ⟨t₀, p, hbus, hleft, htime, hissued⟩
  · rcases sendCommand_ok h with ⟨-, rfl⟩ | ⟨p, left, hp, -, -⟩
    · rw [hissued]
      exact ⟨hnone, hpipes⟩
    · rw [hnone] at hp
      cases hp
  · rcases sendCommand_ok h with ⟨hnone, -⟩ | ⟨p', left, hp, hleft', ⟨hne, rfl⟩ | ⟨-, ranks, hsame, rfl⟩⟩
    · rw [hbus] at hnone
      cases hnone
    · rw [hleft', hleft] at hne
      exact absurd rfl hne
    · obtain rfl : p = p' := Option.some.inj (hbus.symm.trans hp)
      refine ⟨rfl, ?_⟩
      rw [hissued]
      refine readPipes_of_same (readPipes_receive hpipes ?_ fun hread f hf hfread hrank => ?_) hsame
      · rw [Config.readLine, htCMD]
        omega
      · have hordered := htimed.ordered
        rw [hissued] at hordered
        refine htimed.burst_spaced (f := (t₀, p)) ?_ ?_ ?_ hrank (.inl ⟨hfread, hread⟩)
        · rw [hissued]
          exact List.mem_append_left _ hf
        · rw [hissued]
          exact List.mem_append_right _ (List.mem_singleton_self _)
        · exact (List.pairwise_append.mp hordered).2.2 f hf _ (List.mem_singleton_self _)

/-- The write data, what is on the data bus and what was written are left alone. -/
structure SameWrites (s t : MemorySystem) : Prop where
  outgoing_eq : t.memoryController.outgoingDataPacket = s.memoryController.outgoingDataPacket
  left_eq : t.memoryController.dataCyclesLeft = s.memoryController.dataCyclesLeft
  packets_eq : t.memoryController.writeDataToSend = s.memoryController.writeDataToSend
  countdown_eq : t.memoryController.writeDataCountdown = s.memoryController.writeDataCountdown
  written_eq : t.history.written = s.history.written

theorem SameWrites.trans {u : MemorySystem} (h : SameWrites s t) (h' : SameWrites t u) : SameWrites s u where
  outgoing_eq := h'.outgoing_eq.trans h.outgoing_eq
  left_eq := h'.left_eq.trans h.left_eq
  packets_eq := h'.packets_eq.trans h.packets_eq
  countdown_eq := h'.countdown_eq.trans h.countdown_eq
  written_eq := h'.written_eq.trans h.written_eq

theorem sameWrites_of_phases {s₁ s₂ : MemorySystem}
    (h₁ : (List.range cfg.numRanks).foldlM (updateRank cfg) s = .ok s₁)
    (h₂ : (s₁.takePending cfg).idleBanks.sendCommand cfg = .ok s₂) : SameWrites s s₂ := by
  have hranks : SameWrites s s₁ := by
    refine foldlM_ok (P := SameWrites s) (fun t i t' ih hstep => ?_) ⟨rfl, rfl, rfl, rfl, rfl⟩ h₁
    obtain ⟨received, rank, -, ⟨-, rfl⟩ | ⟨p, reads, -, rfl⟩⟩ := updateRank_ok hstep <;>
    exact ih.trans ⟨rfl, rfl, rfl, rfl, rfl⟩
  have hpending : SameWrites s₁ (s₁.takePending cfg).idleBanks := by
    obtain ⟨taken, pending, -, htaken⟩ := takePending_eq cfg s₁
    rw [htaken]
    exact ⟨rfl, rfl, rfl, rfl, rfl⟩
  have hcommand : SameWrites (s₁.takePending cfg).idleBanks s₂ := by
    rcases sendCommand_ok h₂ with ⟨-, rfl⟩ | ⟨p, left, -, -, ⟨-, rfl⟩ | ⟨-, ranks, -, rfl⟩⟩ <;>
    exact ⟨rfl, rfl, rfl, rfl, rfl⟩
  exact hranks.trans (hpending.trans hcommand)

theorem sendWriteData_samePipes (hdata : ∀ p, s.memoryController.outgoingDataPacket = some p →
    p.busPacketType = .data)
    (h : s.sendWriteData cfg = .ok t) : SamePipes s.ranks t.ranks := by
  rcases sendWriteData_ok h with ⟨-, rfl⟩ | ⟨p, left, hp, -, ⟨-, rfl⟩ | ⟨-, ranks, hsame, rfl⟩⟩
  · exact ⟨fun _ => rfl, fun _ => rfl, fun _ => rfl, fun _ => rfl, fun _ => rfl⟩
  · exact ⟨fun _ => rfl, fun _ => rfl, fun _ => rfl, fun _ => rfl, fun _ => rfl⟩
  · have hread : ¬ p.IsRead := by
      rintro (hbad | hbad) <;>
      · rw [hdata p hp] at hbad
        cases hbad
    rw [receive, if_neg hread] at hsame
    exact hsame

/-- What there is to return, what was returned and the reads that wait for it are left alone. -/
structure SameReturns (s t : MemorySystem) : Prop where
  return_eq : t.memoryController.returnTransaction = s.memoryController.returnTransaction
  returned_eq : t.history.returned = s.history.returned
  pending_eq : t.memoryController.pendingReadTransactions = s.memoryController.pendingReadTransactions

theorem SameReturns.trans {u : MemorySystem} (h : SameReturns s t) (h' : SameReturns t u) :
    SameReturns s u where
  return_eq := h'.return_eq.trans h.return_eq
  returned_eq := h'.returned_eq.trans h.returned_eq
  pending_eq := h'.pending_eq.trans h.pending_eq

/-- Between the ranks and the pop nothing is added to what there is to return. -/
theorem sameReturns_of_phases {s₁ s₂ s₃ s₄ : MemorySystem}
    (h₂ : (s₁.takePending cfg).idleBanks.sendCommand cfg = .ok s₂) (h₃ : s₂.sendWriteData cfg = .ok s₃)
    (h₄ : s₃.startWriteData cfg = .ok s₄) : SameReturns s₁ (s₄.checkRefresh cfg) := by
  have hpending : SameReturns s₁ (s₁.takePending cfg).idleBanks := by
    obtain ⟨taken, pending, -, htaken⟩ := takePending_eq cfg s₁
    rw [htaken]
    exact ⟨rfl, rfl, rfl⟩
  have hcommand : SameReturns (s₁.takePending cfg).idleBanks s₂ := by
    rcases sendCommand_ok h₂ with ⟨-, rfl⟩ | ⟨p, left, -, -, ⟨-, rfl⟩ | ⟨-, ranks, -, rfl⟩⟩ <;>
      exact ⟨rfl, rfl, rfl⟩
  have hsend : SameReturns s₂ s₃ := by
    rcases sendWriteData_ok h₃ with ⟨-, rfl⟩ | ⟨p, left, -, -, ⟨-, rfl⟩ | ⟨-, ranks, -, rfl⟩⟩ <;>
      exact ⟨rfl, rfl, rfl⟩
  have hstart : SameReturns s₃ s₄ := by
    obtain ⟨mc, hmc, rfl⟩ := map_ok h₄
    rcases startWriteData_ok hmc with ⟨-, -, hmc⟩ | ⟨_, _, _, _, _, -, -, -, rfl⟩
    · rw [hmc]
      exact ⟨rfl, rfl, rfl⟩
    · exact ⟨rfl, rfl, rfl⟩
  have hcheck : SameReturns s₄ (s₄.checkRefresh cfg) := by
    obtain ⟨ranks, waiting, rank, countdown, next, -, heq⟩ := checkRefresh_eq cfg s₄
    rw [heq]
    exact ⟨rfl, rfl, rfl⟩
  exact hpending.trans (hcommand.trans (hsend.trans (hstart.trans hcheck)))

theorem sameReturns_popCommand (h : s.popCommand cfg = .ok t) : SameReturns s t := by
  obtain ⟨found, cq, -, ⟨-, rfl⟩ | ⟨p, _, _, _, _, -, -, -, rfl⟩⟩ := popCommand_split h <;>
    exact ⟨rfl, rfl, rfl⟩

theorem schedule_returns (h : s.schedule cfg = .ok t) :
    t.memoryController.returnTransaction = s.memoryController.returnTransaction ∧
      t.history.returned = s.history.returned ∧
      s.memoryController.pendingReadTransactions <+: t.memoryController.pendingReadTransactions := by
  obtain ⟨mc, hmc, rfl⟩ := map_ok h
  rcases scheduleFrom_split (fun x hx => by cases hx) rfl hmc with ⟨rfl, -⟩ | ⟨_, _, _, _, -, -, -, -, rfl⟩
  · exact ⟨rfl, rfl, List.prefix_rfl⟩
  · refine ⟨rfl, rfl, ?_⟩
    dsimp only
    split_ifs
    · exact List.prefix_append _ _
    · exact List.prefix_rfl

/-- Behind the command bus the reads of the ranks are left alone. -/
theorem samePipes_of_phases {s₂ s₃ s₄ s₅ s₆ s₇ : MemorySystem}
    (hdata : ∀ p, s₂.memoryController.outgoingDataPacket = some p → p.busPacketType = .data)
    (h₃ : s₂.sendWriteData cfg = .ok s₃) (h₄ : s₃.startWriteData cfg = .ok s₄)
    (h₅ : (s₄.checkRefresh cfg).popCommand cfg = .ok s₅) (h₆ : s₅.schedule cfg = .ok s₆)
    (h₇ : (s₆.addBackgroundEnergy cfg).returnData cfg = .ok s₇) (hpipes : ReadPipes cfg T sent s₂.ranks) :
    ReadPipes cfg T sent s₇.stepClocks.ranks := by
  have hsend : ReadPipes cfg T sent s₃.ranks := readPipes_of_same hpipes (sendWriteData_samePipes hdata h₃)
  have hstart : s₄.ranks = s₃.ranks := by
    obtain ⟨mc, -, rfl⟩ := map_ok h₄
    rfl
  have hcheck : SamePipes s₄.ranks (s₄.checkRefresh cfg).ranks := by
    obtain ⟨ranks, waiting, rank, countdown, next, hsame, heq⟩ := checkRefresh_eq cfg s₄
    rw [heq]
    exact hsame
  have hpop : s₅.ranks = (s₄.checkRefresh cfg).ranks := by
    obtain ⟨found, cq, -, ⟨-, rfl⟩ | ⟨p, _, _, _, _, -, -, -, rfl⟩⟩ := popCommand_split h₅ <;> rfl
  have hschedule : s₆.ranks = s₅.ranks := by
    obtain ⟨mc, -, rfl⟩ := map_ok h₆
    rfl
  have hreturn : ∀ r, s₇.stepClocks.ranks r = (s₆.ranks r).step := by
    obtain ⟨⟨returned, mc⟩, -, rfl⟩ := map_ok h₇
    cases returned with
    | none => exact fun _ => rfl
    | some pending => exact fun _ => rfl
  intro r hr
  rw [← hstart] at hsend
  obtain ⟨done, slot, wait, hflow, hcarries⟩ := readPipes_of_same hsend hcheck r hr
  rw [← hpop, ← hschedule] at hcarries
  refine ⟨done, slot, wait, hflow, ?_⟩
  rw [hreturn]
  exact hcarries

theorem update_clock (h : s.update cfg = .ok s') :
    s'.memoryController.currentClockCycle = s.memoryController.currentClockCycle + 1 := by
  obtain ⟨t, t', u, hprepared, hpop, hschedule, hfinished⟩ := update_control h
  rw [hfinished.clock_eq, ← hprepared.clock_eq]
  obtain ⟨mc, hmc, rfl⟩ := map_ok hschedule
  rcases scheduleFrom_split (fun x hx => by cases hx) rfl hmc with
    ⟨rfl, -⟩ | ⟨_, _, _, _, -, -, -, -, rfl⟩ <;>
  obtain ⟨found, cq, -, ⟨-, rfl⟩ | ⟨p, _, _, _, _, -, -, -, rfl⟩⟩ := popCommand_split hpop <;> rfl

theorem update_arrived (hpolicy : cfg.rowBufferPolicy = .closePage) (htCMD : cfg.tCMD = 1)
    (hcontrol : Control cfg s)
    (h : s.update cfg = .ok s') : Arrived s'.memoryController.currentClockCycle s' s.history.issued := by
  rw [update_clock h]
  obtain ⟨t, t', u, hprepared, hpop, hschedule, hfinished⟩ := update_control h
  obtain ⟨hshape, -, hfree⟩ := hcontrol.prepared hprepared
  have hbus : SameBus t' s' ∧ s'.history.issued = t'.history.issued := by
    rw [hfinished.issued_eq]
    rcases schedule_ok hpolicy hschedule with rfl | ⟨_, _, _, _, -, -, -, -, -, rfl⟩ <;>
      exact ⟨hfinished.bus_eq, rfl⟩
  rw [Arrived, hbus.1.1, hbus.1.2, hbus.2, ← hprepared.issued_eq, ← hprepared.clock_eq]
  obtain ⟨found, cq, -, ⟨-, rfl⟩ | ⟨p, _, _, _, _, -, -, -, rfl⟩⟩ := popCommand_split hpop
  · exact .inl ⟨hfree, rfl⟩
  · exact .inr ⟨_, p, rfl, htCMD, rfl, rfl⟩

/-- The last phase of an update returns the first of what there is to return to the first pending read of its
address, in the cycle of the update. -/
theorem returnData_returns {s₆ s₇ : MemorySystem}
    (h₇ : (s₆.addBackgroundEnergy cfg).returnData cfg = .ok s₇) :
    (s₆.memoryController.returnTransaction = [] ∧ s₇.stepClocks.memoryController.returnTransaction = [] ∧
        s₇.stepClocks.memoryController.pendingReadTransactions = s₆.memoryController.pendingReadTransactions ∧
        s₇.stepClocks.history.returned = s₆.history.returned) ∨
      ∃ r rest before pending behind, s₆.memoryController.returnTransaction = r :: rest ∧
        s₆.memoryController.pendingReadTransactions = before ++ pending :: behind ∧
        pending.address = r.address ∧
        s₇.stepClocks.memoryController.returnTransaction = rest ∧
        s₇.stepClocks.memoryController.pendingReadTransactions = before ++ behind ∧
        s₇.stepClocks.history.returned =
          s₆.history.returned ++ [(s₇.memoryController.currentClockCycle, pending)] := by
  obtain ⟨⟨returned, mc⟩, hmc, rfl⟩ := map_ok h₇
  rcases returnData_ok hmc with
    ⟨hnone, rfl, rfl⟩ | ⟨r, rest, before, pending, behind, _, _, _, hfirst, hpending, -, haddress, rfl, rfl⟩
  · exact .inl ⟨hnone, hnone, rfl, rfl⟩
  · exact .inr ⟨r, rest, before, pending, behind, hfirst, hpending, haddress, rfl, rfl, rfl⟩

/-- The reads in flight: those sent to the ranks are in their pipes, and the last command may be
on the bus. -/
structure InFlight (cfg : Config) (sent : List (ℕ × BusPacket)) (s : MemorySystem) : Prop where
  arrived : Arrived s.memoryController.currentClockCycle s sent
  pipes : ReadPipes cfg s.memoryController.currentClockCycle sent s.ranks

/-- What there is to return in an update. -/
def toReturn (cfg : Config) (sent : List (ℕ × BusPacket)) (s : MemorySystem) : List Transaction :=
  s.memoryController.returnTransaction ++
    returningAt cfg (s.memoryController.currentClockCycle + 1) cfg.numRanks sent

/-- The phases before the return of data take a tick of the pipes. -/
theorem InFlight.phases (htCMD : cfg.tCMD = 1) (hcontrol : Control cfg s) (h : InFlight cfg sent s)
    {s₁ s₂ : MemorySystem} (h₁ : (List.range cfg.numRanks).foldlM (updateRank cfg) s = .ok s₁)
    (h₂ : (s₁.takePending cfg).idleBanks.sendCommand cfg = .ok s₂) :
    ReadPipes cfg (s.memoryController.currentClockCycle + 1) s.history.issued s₂.ranks ∧
      s₁.memoryController.returnTransaction = toReturn cfg sent s ∧
      s₁.history.returned = s.history.returned := by
  obtain ⟨hranks, hbus⟩ := waits_ranks h₁
  obtain ⟨hpending, hbus'⟩ := waits_takePending cfg s₁
  have hsame := hbus.trans hbus'
  have hissued : (s₁.takePending cfg).idleBanks.history.issued = s.history.issued :=
    hpending.issued_eq.trans hranks.issued_eq
  have harrived : Arrived s.memoryController.currentClockCycle (s₁.takePending cfg).idleBanks sent := by
    rw [Arrived, hissued]
    change ((s₁.takePending cfg).memoryController.outgoingCmdPacket = none ∧ _) ∨ ∃ t p,
      (s₁.takePending cfg).memoryController.outgoingCmdPacket = some p ∧
      (s₁.takePending cfg).memoryController.cmdCyclesLeft = 1 ∧ _
    rw [hsame.1, hsame.2]
    exact h.arrived
  have htimed : Timed cfg s.memoryController.currentClockCycle (s₁.takePending cfg).idleBanks := by
    apply hcontrol.timed.of_same hissued
    intro r b command
    change ((s₁.takePending cfg).memoryController.bankStates r b).next command = _
    rw [hpending.banks_eq, hranks.banks_eq]
  obtain ⟨ranks, reads, hpipes, htick⟩ := updateRanks_tick h.pipes
  obtain rfl := Except.ok.inj (htick.symm.trans h₁)
  refine ⟨?_, rfl, rfl⟩
  have hkept : ∀ t : MemorySystem, (t.takePending cfg).idleBanks.ranks = t.ranks := by
    intro t
    obtain ⟨taken, pending, -, htaken⟩ := takePending_eq cfg t
    rw [htaken]
    rfl
  rw [← hissued]
  refine (sendCommand_arrived htCMD htimed harrived ?_ h₂).2
  rw [hkept]
  exact hpipes

/-- What an update returns of what there is to return: the first of it, if there is one. -/
inductive Returns (cfg : Config) (sent : List (ℕ × BusPacket)) (s s' : MemorySystem) : Prop
  | nothing (hnone : toReturn cfg sent s = []) (hreturn : s'.memoryController.returnTransaction = [])
      (hreturned : s'.history.returned = s.history.returned)
  | first {r : Transaction} {rest : List Transaction} {pending : Transaction}
      (hfirst : toReturn cfg sent s = r :: rest)
      (haddress : pending.address = r.address) (hreturn : s'.memoryController.returnTransaction = rest)
      (hreturned : s'.history.returned =
        s.history.returned ++ [(s.memoryController.currentClockCycle, pending)])

/-- **What an update does to the reads in flight.** All commands issued before have reached their ranks behind
it, each read is one tick further, and the first of those that are done is returned. -/
theorem InFlight.update (hpolicy : cfg.rowBufferPolicy = .closePage) (htCMD : cfg.tCMD = 1)
    (hcontrol : Control cfg s)
    (hdata : ∀ p, s.memoryController.outgoingDataPacket = some p → p.busPacketType = .data)
    (h : InFlight cfg sent s)
    (hupdate : s.update cfg = .ok s') : InFlight cfg s.history.issued s' ∧ Returns cfg sent s s' := by
  have harrived := update_arrived hpolicy htCMD hcontrol hupdate
  have hclock := update_clock hupdate
  obtain ⟨s₁, s₂, s₃, s₄, s₅, s₆, s₇, h₁, h₂, h₃, h₄, h₅, h₆, h₇, rfl⟩ := update_ok hupdate
  obtain ⟨hpipes, hreturn, hreturned⟩ := h.phases htCMD hcontrol h₁ h₂
  have hsame := (sameReturns_of_phases h₂ h₃ h₄).trans (sameReturns_popCommand h₅)
  obtain ⟨hreturn₆, hreturned₆, -⟩ := schedule_returns h₆
  refine ⟨⟨harrived, ?_⟩, ?_⟩
  · rw [hclock]
    refine samePipes_of_phases (fun p hp => hdata p ?_) h₃ h₄ h₅ h₆ h₇ hpipes
    rw [← (sameWrites_of_phases h₁ h₂).outgoing_eq]
    exact hp
  · have hback := hreturn₆.trans (hsame.return_eq.trans hreturn)
    have hbefore := hreturned₆.trans (hsame.returned_eq.trans hreturned)
    rcases returnData_returns h₇ with ⟨hnone, hreturn', -, hreturned'⟩ |
      ⟨r, rest, before, pending, behind, hfirst, -, haddress, hreturn', -, hreturned'⟩
    · exact .nothing (hback.symm.trans hnone) hreturn' (hreturned'.trans hbefore)
    · refine .first (hback.symm.trans hfirst) haddress hreturn' ?_
      rw [hreturned', hbefore, Nat.succ_injective hclock]

theorem act_frame {action : Action} (hne : action ≠ .update) (h : s.act cfg action = .ok s') :
    SameWrites s s' ∧ SameReturns s s' ∧ s'.ranks = s.ranks := by
  cases action with
  | update => exact absurd rfl hne
  | addTransaction transaction =>
      cases h
      obtain ⟨taken, -, htaken⟩ := addTransaction_eq cfg s transaction
      rw [htaken]
      exact ⟨⟨rfl, rfl, rfl, rfl, rfl⟩, ⟨rfl, rfl, rfl⟩, rfl⟩
  | request isWrite addr =>
      cases h
      obtain ⟨taken, pending, -, htaken⟩ := request_eq cfg s isWrite addr
      rw [htaken]
      exact ⟨⟨rfl, rfl, rfl, rfl, rfl⟩, ⟨rfl, rfl, rfl⟩, rfl⟩
  | resetStats =>
      cases h
      exact ⟨⟨rfl, rfl, rfl, rfl, rfl⟩, ⟨rfl, rfl, rfl⟩, rfl⟩

theorem InFlight.init (cfg : Config) : InFlight cfg [] (init cfg) where
  arrived := .inl ⟨rfl, rfl⟩
  pipes := fun _ _ => ⟨[], none, [], .nil, rfl, (fun e he => by cases he), rfl, rfl⟩

theorem InFlight.of_same (h : InFlight cfg sent s) (hwaits : Waits s s') (hbus : SameBus s s')
    (hranks : s'.ranks = s.ranks) :
    InFlight cfg sent s' where
  arrived := by
    rw [Arrived, hbus.1, hbus.2, hwaits.issued_eq, hwaits.clock_eq]
    exact h.arrived
  pipes := by
    rw [hwaits.clock_eq, hranks]
    exact h.pipes

/-- **The reads of a run are in flight in every state it reaches.** -/
theorem inFlight_run (hpolicy : cfg.rowBufferPolicy = .closePage) (htCMD : cfg.tCMD = 1)
    {actions : List Action} (h : run cfg actions = .ok s) : ∃ sent, InFlight cfg sent s := by
  have hstart : Control cfg (MemorySystem.init cfg) ∧
      (Calm cfg (MemorySystem.init cfg) ∧ Legal cfg (MemorySystem.init cfg)) ∧
      ∃ sent, InFlight cfg sent (MemorySystem.init cfg) :=
    ⟨Control.init cfg, calm_run htCMD (show run cfg [] = .ok (MemorySystem.init cfg) from rfl), [],
      InFlight.init cfg⟩
  refine (foldlM_ok (P := fun s => Control cfg s ∧ (Calm cfg s ∧ Legal cfg s) ∧ ∃ sent, InFlight cfg sent s)
    (fun t action t' hinv hact => ?_) hstart h).2.2
  obtain ⟨hcontrol, hcalm, sent, hflight⟩ := hinv
  refine ⟨hcontrol.act hpolicy htCMD hact, Calm.act htCMD hcalm hact, ?_⟩
  rcases act_ok hact with ⟨-, hupdate⟩ | ⟨hne, hwaits, hbus⟩
  · exact ⟨_, (hflight.update hpolicy htCMD hcontrol hcalm.1.data hupdate).1⟩
  · exact ⟨sent, hflight.of_same hwaits hbus (act_frame hne hact).2.2⟩

end MemorySystem

end RacerArtifacts.Mram
