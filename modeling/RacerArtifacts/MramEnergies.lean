import RacerArtifacts.MramDiscipline

/-! The energies that the close-page policy accounts for. Among idle banks the command of a cycle opens one
bank, for that cycle, so that every cycle adds to the background energy by what it issues; bursts add up
over the commands, and nothing is activated, precharged or refreshed. -/

namespace RacerArtifacts.Mram

open Fallible MemoryController

variable {cfg : Config}

/-- The currents of the bursts are not below the one of an open bank, and the products fit in 32 bits. -/
structure Config.EnergiesFit (cfg : Config) : Prop where
  read_ge : cfg.IDD3N ≤ cfg.IDD4R
  write_ge : cfg.IDD3N ≤ cfg.IDD4W
  read_lt : (cfg.IDD4R - cfg.IDD3N) * cfg.BL < 2 ^ 32
  write_lt : (cfg.IDD4W - cfg.IDD3N) * cfg.BL < 2 ^ 32
  readBurst_lt : (cfg.IDD4R - cfg.IDD3N) * cfg.BL / 2 * cfg.numDevices < 2 ^ 32
  writeBurst_lt : (cfg.IDD4W - cfg.IDD3N) * cfg.BL / 2 * cfg.numDevices < 2 ^ 32
  active_lt : cfg.IDD3N * cfg.numDevices < 2 ^ 32
  idle_lt : cfg.IDD2N * cfg.numDevices < 2 ^ 32

theorem unsigned_burst {idd bank BL devices : ℕ} (hge : bank ≤ idd) (hlt : (idd - bank) * BL < 2 ^ 32)
    (hburst : (idd - bank) * BL / 2 * devices < 2 ^ 32) :
    unsigned ((unsigned ((idd - bank : ℤ) * BL) : ℤ) / 2 * devices) = (idd - bank) * BL / 2 * devices := by
  have hproduct : (idd - bank : ℤ) * BL = ((idd - bank) * BL : ℕ) := by
    rw [Nat.cast_mul, Nat.cast_sub hge]
  rw [hproduct, unsigned_natCast hlt]
  exact_mod_cast unsigned_natCast hburst

namespace MemoryController

variable {mc mc' : MemoryController}

/-- What a command adds to the burst energy of its rank. -/
def commandEnergy (cfg : Config) (p : BusPacket) : ℕ :=
  if p.IsRead then (cfg.IDD4R - cfg.IDD3N) * cfg.BL / 2 * cfg.numDevices
  else (cfg.IDD4W - cfg.IDD3N) * cfg.BL / 2 * cfg.numDevices

theorem constrain_state (hidle : ∀ r b, (mc.bankStates r b).currentBankState = .idle) (p : BusPacket)
    {target same other : BankState → BankState}
    (htarget : ∀ bank, (target bank).currentBankState = .rowActive)
    (hsame : ∀ bank, (same bank).currentBankState = bank.currentBankState) (r b : ℕ) :
    (mc.constrain p target same other r b).currentBankState =
      if r = p.rank ∧ b = p.bank then .rowActive else .idle := by
  rw [constrain]
  by_cases hr : r = p.rank
  · rw [if_pos hr, hsame]
    split_ifs
    · exact htarget _
    · exact hidle r b
  · have hp : ¬ (r = p.rank ∧ b = p.bank) := fun h => hr h.1
    have hclosed : (mc.bankStates r b).currentBankState ≠ .rowActive := by
      rw [hidle]
      intro hbad
      cases hbad
    rw [if_neg hr, if_neg hp, if_neg hp, if_neg hclosed]
    exact hidle r b

/-- **The energies of a command**, and the bank it opens. -/
theorem updateBanks_energies (hfit : cfg.EnergiesFit)
    (hidle : ∀ r b, (mc.bankStates r b).currentBankState = .idle) {p : BusPacket} (hcolumn : p.IsColumn)
    (h : mc.updateBanks cfg p = .ok mc') :
    mc'.burstEnergy = Function.update mc.burstEnergy p.rank (mc.burstEnergy p.rank + commandEnergy cfg p) ∧
      mc'.actpreEnergy = mc.actpreEnergy ∧ mc'.refreshEnergy = mc.refreshEnergy ∧
      ∀ r b, (mc'.bankStates r b).currentBankState = if r = p.rank ∧ b = p.bank then .rowActive
      else .idle := by
  rw [updateBanks] at h
  rcases hcolumn with htype | htype
  · have hread : p.IsRead := .inr htype
    simp only [htype] at h
    cases h
    refine ⟨?_, rfl, rfl, constrain_state hidle p (fun _ => rfl) (fun _ => rfl)⟩
    rw [commandEnergy, if_pos hread]
    dsimp only
    rw [unsigned_burst hfit.read_ge hfit.read_lt hfit.readBurst_lt]
  · have hread : ¬ p.IsRead := by simp [BusPacket.IsRead, htype]
    simp only [htype] at h
    cases h
    refine ⟨?_, rfl, rfl, constrain_state hidle p (fun _ => rfl) (fun _ => rfl)⟩
    rw [commandEnergy, if_neg hread]
    dsimp only
    rw [unsigned_burst hfit.write_ge hfit.write_lt hfit.writeBurst_lt]

/-- A rank with an open bank takes the current of an open bank. -/
theorem addBackgroundEnergy_open (hfit : cfg.EnergiesFit) {r b : ℕ} (hb : b < cfg.numBanks)
    (hopen : (mc.bankStates r b).currentBankState = .rowActive) :
    (mc.addBackgroundEnergy cfg).backgroundEnergy r = mc.backgroundEnergy r + cfg.IDD3N * cfg.numDevices := by
  have hany : ((List.range cfg.numBanks).any fun j =>
      decide ((mc.bankStates r j).currentBankState = .refreshing ∨
        (mc.bankStates r j).currentBankState = .rowActive)) = true :=
    List.any_eq_true.mpr ⟨b, List.mem_range.mpr hb, decide_eq_true (.inr hopen)⟩
  rw [addBackgroundEnergy]
  dsimp only
  rw [hany, if_pos rfl]
  exact congrArg _ (by exact_mod_cast unsigned_natCast hfit.active_lt)

/-- A rank whose banks are idle takes the current of idle banks. -/
theorem addBackgroundEnergy_idle (hfit : cfg.EnergiesFit) {r : ℕ}
    (hidle : ∀ b, (mc.bankStates r b).currentBankState = .idle) :
    (mc.addBackgroundEnergy cfg).backgroundEnergy r = mc.backgroundEnergy r + cfg.IDD2N * cfg.numDevices := by
  have hnone : ((List.range cfg.numBanks).any fun j =>
      decide ((mc.bankStates r j).currentBankState = .refreshing ∨
        (mc.bankStates r j).currentBankState = .rowActive)) = false := by
    rw [List.any_eq_false]
    intro j _
    rw [hidle, decide_eq_true_eq]
    rintro (h | h)
    · cases h
    · cases h
  rw [addBackgroundEnergy]
  dsimp only
  rw [hnone, if_neg (by decide)]
  exact congrArg _ (by exact_mod_cast unsigned_natCast hfit.idle_lt)

end MemoryController

namespace MemorySystem

variable {s s' t u : MemorySystem}

/-- Commands to a rank. -/
def commandsTo (r : ℕ) (since : List (ℕ × BusPacket)) : ℕ :=
  since.countP fun e => decide (e.2.rank = r)

def readsTo (r : ℕ) (since : List (ℕ × BusPacket)) : ℕ :=
  since.countP fun e => decide (e.2.rank = r ∧ e.2.IsRead)

def writesTo (r : ℕ) (since : List (ℕ × BusPacket)) : ℕ :=
  since.countP fun e => decide (e.2.rank = r ∧ e.2.IsWrite)

/-- What `updates` updates add to the energies, if `since` is what they issue. -/
structure Accounts (cfg : Config) (updates : ℕ) (since : List (ℕ × BusPacket))
    (s t : MemorySystem) : Prop where
  issued_eq : t.history.issued = s.history.issued ++ since
  commands_le : ∀ r, commandsTo r since ≤ updates
  background_eq : ∀ r, t.memoryController.backgroundEnergy r = s.memoryController.backgroundEnergy r +
    cfg.numDevices * (cfg.IDD3N * commandsTo r since + cfg.IDD2N * (updates - commandsTo r since))
  burst_eq : ∀ r, t.memoryController.burstEnergy r = s.memoryController.burstEnergy r +
    (readsTo r since * ((cfg.IDD4R - cfg.IDD3N) * cfg.BL / 2 * cfg.numDevices) +
      writesTo r since * ((cfg.IDD4W - cfg.IDD3N) * cfg.BL / 2 * cfg.numDevices))
  actpre_eq : t.memoryController.actpreEnergy = s.memoryController.actpreEnergy
  refresh_eq : t.memoryController.refreshEnergy = s.memoryController.refreshEnergy

theorem Accounts.trans {n m : ℕ} {since later : List (ℕ × BusPacket)} (h : Accounts cfg n since s t)
    (h' : Accounts cfg m later t u) : Accounts cfg (n + m) (since ++ later) s u where
  issued_eq := by rw [h'.issued_eq, h.issued_eq, List.append_assoc]
  commands_le := fun r => by
    rw [commandsTo, List.countP_append]
    exact Nat.add_le_add (h.commands_le r) (h'.commands_le r)
  background_eq := fun r => by
    have hidle : n + m - commandsTo r (since ++ later) =
        n - commandsTo r since + (m - commandsTo r later) := by
      have hle := h.commands_le r
      have hle' := h'.commands_le r
      rw [commandsTo] at hle hle' ⊢
      rw [List.countP_append, commandsTo, commandsTo]
      omega
    rw [hidle, h'.background_eq, h.background_eq, commandsTo, commandsTo, commandsTo, List.countP_append]
    ring
  burst_eq := fun r => by
    rw [h'.burst_eq, h.burst_eq, readsTo, readsTo, readsTo, writesTo, writesTo, writesTo, List.countP_append,
      List.countP_append]
    ring
  actpre_eq := h'.actpre_eq.trans h.actpre_eq
  refresh_eq := h'.refresh_eq.trans h.refresh_eq

theorem Accounts.of_same (hissued : t.history.issued = s.history.issued) (henergies : SameEnergies s t) :
    Accounts cfg 0 [] s t where
  issued_eq := by rw [hissued, List.append_nil]
  commands_le := fun r => le_rfl
  background_eq := fun r => by
    rw [henergies.background_eq]
    simp [commandsTo]
  burst_eq := fun r => by
    rw [henergies.burst_eq]
    simp [readsTo, writesTo]
  actpre_eq := henergies.actpre_eq
  refresh_eq := henergies.refresh_eq

theorem schedule_energies (h : t.schedule cfg = .ok u) :
    SameEnergies t u ∧ u.memoryController.bankStates = t.memoryController.bankStates ∧
      u.history.issued = t.history.issued := by
  obtain ⟨mc, hmc, rfl⟩ := map_ok h
  rcases scheduleFrom_split (fun x hx => by cases hx) rfl hmc with ⟨rfl, -⟩ | ⟨_, _, _, _, -, -, -, -, rfl⟩
  · exact ⟨⟨rfl, rfl, rfl, rfl⟩, rfl, rfl⟩
  · exact ⟨⟨rfl, rfl, rfl, rfl⟩, rfl, rfl⟩

/-- Where no refresh waits, what is popped goes to a bank that exists. -/
theorem popped_column {cq cq' : CommandQueue} {bankStates : BankStates} {p : BusPacket}
    (hwaiting : cq.refreshWaiting = false) (hcolumn : ∀ r b, ∀ p ∈ cq.queues r b, p.IsColumn)
    (h : CommandQueue.Popped cfg bankStates cq (some p) cq') : p.IsColumn ∧ p.bank < cfg.numBanks := by
  cases h with
  | refresh hgoes =>
      have hbad := hgoes.1
      rw [hwaiting] at hbad
      cases hbad
  | @column _ k _ _ front _ rest hcand =>
      have hp : p.IsColumn := by
        apply hcolumn _ _ p
        apply CommandQueue.mem_here (k := k)
        rw [hcand.queue_eq]
        exact List.mem_append_right _ List.mem_cons_self
      exact ⟨hp, (CommandQueue.isIssuable_true hp hcand.issuable).2.1⟩

theorem burst_single {p : BusPacket} (hp : p.IsColumn) (T : ℕ) {r : ℕ} :
    (if p.rank = r then commandEnergy cfg p else 0) =
      readsTo r [(T, p)] * ((cfg.IDD4R - cfg.IDD3N) * cfg.BL / 2 * cfg.numDevices) +
        writesTo r [(T, p)] * ((cfg.IDD4W - cfg.IDD3N) * cfg.BL / 2 * cfg.numDevices) := by
  obtain ⟨hread, hwrite⟩ := BusPacket.IsRead.isColumn_of_not_read hp
  rw [commandEnergy, readsTo, writesTo, List.countP_singleton, List.countP_singleton]
  by_cases hr : p.rank = r
  · rcases hp with htype | htype
    · simp [hr, hread, hwrite, htype]
    · simp [hr, hread, hwrite, htype]
  · simp [hr]

/-- What a cycle has added to the energies behind its pop: the bursts of what was issued. A rank that it was
issued to has an open bank, the others have none. -/
structure Spent (cfg : Config) (since : List (ℕ × BusPacket)) (s t : MemorySystem) : Prop where
  issued_eq : t.history.issued = s.history.issued ++ since
  background_eq : t.memoryController.backgroundEnergy = s.memoryController.backgroundEnergy
  burst_eq : ∀ r, t.memoryController.burstEnergy r = s.memoryController.burstEnergy r +
    (readsTo r since * ((cfg.IDD4R - cfg.IDD3N) * cfg.BL / 2 * cfg.numDevices) +
      writesTo r since * ((cfg.IDD4W - cfg.IDD3N) * cfg.BL / 2 * cfg.numDevices))
  actpre_eq : t.memoryController.actpreEnergy = s.memoryController.actpreEnergy
  refresh_eq : t.memoryController.refreshEnergy = s.memoryController.refreshEnergy
  banks : ∀ r, (commandsTo r since = 1 ∧
      ∃ b < cfg.numBanks, (t.memoryController.bankStates r b).currentBankState = .rowActive) ∨
    (commandsTo r since = 0 ∧ ∀ b, (t.memoryController.bankStates r b).currentBankState = .idle)

/-- Behind the pop, a cycle adds the background energies only. -/
theorem Spent.accounts {since : List (ℕ × BusPacket)} (hspent : Spent cfg since s t) (hfit : cfg.EnergiesFit)
    (hschedule : t.schedule cfg = .ok u) (hclosed : Closed cfg u s') : Accounts cfg 1 since s s' := by
  obtain ⟨hscheduled, hbanks, hissued⟩ := schedule_energies hschedule
  refine ⟨?_, fun r => ?_, fun r => ?_, fun r => ?_, ?_, ?_⟩
  · rw [hclosed.issued_eq, hissued, hspent.issued_eq]
  · rcases hspent.banks r with ⟨hone, -⟩ | ⟨hnone, -⟩ <;> omega
  · rw [hclosed.energies.background_eq]
    change (u.memoryController.addBackgroundEnergy cfg).backgroundEnergy r = _
    rcases hspent.banks r with ⟨hone, b, hb, hopen⟩ | ⟨hnone, hidle⟩
    · rw [addBackgroundEnergy_open hfit hb (by rw [hbanks]; exact hopen), hscheduled.background_eq,
        hspent.background_eq, hone]
      simp [Nat.mul_comm]
    · rw [addBackgroundEnergy_idle hfit (by rw [hbanks]; exact hidle), hscheduled.background_eq,
        hspent.background_eq, hnone]
      simp [Nat.mul_comm]
  · rw [hclosed.energies.burst_eq]
    change u.memoryController.burstEnergy r = _
    rw [hscheduled.burst_eq, hspent.burst_eq]
  · calc s'.memoryController.actpreEnergy
        = u.memoryController.actpreEnergy := hclosed.energies.actpre_eq
      _ = t.memoryController.actpreEnergy := hscheduled.actpre_eq
      _ = s.memoryController.actpreEnergy := hspent.actpre_eq
  · calc s'.memoryController.refreshEnergy
        = u.memoryController.refreshEnergy := hclosed.energies.refresh_eq
      _ = t.memoryController.refreshEnergy := hscheduled.refresh_eq
      _ = s.memoryController.refreshEnergy := hspent.refresh_eq

/-- **The energies of a pop.** -/
theorem Opened.spent {t' : MemorySystem} (hopened : Opened cfg s t)
    (hpolicy : cfg.rowBufferPolicy = .closePage) (hfit : cfg.EnergiesFit)
    (hwaiting : t.memoryController.commandQueue.refreshWaiting = false)
    (hcolumn : ∀ r b, ∀ p ∈ t.memoryController.commandQueue.queues r b, p.IsColumn)
    (hpop : t.popCommand cfg = .ok t') : ∃ since, Spent cfg since s t' := by
  obtain ⟨found, cq, hfound, hcases⟩ := popCommand_split hpop
  rcases hcases with ⟨rfl, rfl⟩ | ⟨p, bankStates, burst, actpre, refresh, rfl, -, hupdate, rfl⟩
  · refine ⟨[], ?_, hopened.background_eq, fun r => ?_, hopened.actpre_eq, hopened.refresh_eq,
      fun r => .inr ⟨rfl, hopened.idle r⟩⟩
    · rw [List.append_nil]
      exact hopened.issued_eq
    · change t.memoryController.burstEnergy r = _
      rw [hopened.burst_eq]
      simp [readsTo, writesTo]
  · obtain ⟨hp, hbank⟩ := popped_column hwaiting hcolumn
        (CommandQueue.pop_ok hpolicy hopened.idle hcolumn hfound)
    rw [queueWriteData_eq] at hupdate
    obtain ⟨hburst, hactpre, hrefresh, hstates⟩ :=
      updateBanks_energies hfit (by exact hopened.idle) hp hupdate
    dsimp only at hburst hactpre hrefresh hstates
    refine ⟨[(t.memoryController.currentClockCycle, p)], ?_, hopened.background_eq, fun r => ?_,
      hactpre.trans hopened.actpre_eq, hrefresh.trans hopened.refresh_eq, fun r => ?_⟩
    · change t.history.issued ++ _ = _
      rw [hopened.issued_eq]
    · change burst r = _
      rw [hburst, ← burst_single hp t.memoryController.currentClockCycle, hopened.burst_eq]
      by_cases hr : p.rank = r
      · subst hr
        rw [Function.update_self, if_pos rfl]
      · rw [Function.update_of_ne (Ne.symm hr), if_neg hr]
        rfl
    · by_cases hr : p.rank = r
      · refine .inl ⟨by simp [commandsTo, hr], p.bank, hbank, ?_⟩
        exact (hstates r p.bank).trans (if_pos ⟨hr.symm, rfl⟩)
      · refine .inr ⟨by simp [commandsTo, hr], fun b => ?_⟩
        exact (hstates r b).trans (if_neg fun h => hr h.1.symm)

/-- **What an update adds to the energies.** -/
theorem update_accounts (hpolicy : cfg.rowBufferPolicy = .closePage) (hzero : cfg.refreshCountdown 0 ≠ 0)
    (hfit : cfg.EnergiesFit) (hshape : Shape cfg s) (hinv : Disciplined cfg s) (h : s.update cfg = .ok s') :
    ∃ since, Accounts cfg 1 since s s' := by
  obtain ⟨t, t', u, hopened, hpop, hschedule, hclosed⟩ := update_cycle h
  have hqueue : t.memoryController.commandQueue = s.memoryController.commandQueue := by
    rw [hopened.queue_eq, hinv.checkRefresh hzero]
  obtain ⟨since, hspent⟩ := hopened.spent hpolicy hfit (by rw [hqueue]; exact hinv.waiting)
    (by rw [hqueue]; exact fun r b p hp => (hshape.placed r b p hp).column) hpop
  exact ⟨since, hspent.accounts hfit hschedule hclosed⟩

/-- **What a run without a reset adds to the energies**, from any state that a run reaches. -/
theorem run_accounts (hpolicy : cfg.rowBufferPolicy = .closePage) (hzero : cfg.refreshCountdown 0 ≠ 0)
    (hfit : cfg.EnergiesFit) {actions : List Action} (hreset : .resetStats ∉ actions)
    (htimed : Shape cfg s ∧ Timed cfg s.memoryController.currentClockCycle s) (hinv : Disciplined cfg s)
    (h : actions.foldlM (act cfg) s = .ok t) : ∃ since, Accounts cfg (actions.count .update) since s t := by
  induction actions generalizing s with
  | nil =>
      cases h
      exact ⟨[], .of_same rfl ⟨rfl, rfl, rfl, rfl⟩⟩
  | cons action actions ih =>
      rw [List.foldlM_cons] at h
      obtain ⟨s', hact, h⟩ := bind_ok h
      obtain ⟨later, hlater⟩ := ih (fun hmem => hreset (List.mem_cons_of_mem _ hmem))
        (act_timed hpolicy htimed.1 htimed.2 hact) (hinv.act hzero hact) h
      have hfirst : ∃ since, Accounts cfg (if action = .update then 1 else 0) since s s' := by
        cases action with
        | update => exact update_accounts hpolicy hzero hfit htimed.1 hinv hact
        | addTransaction transaction =>
            cases hact
            obtain ⟨taken, -, htaken⟩ := addTransaction_eq cfg s transaction
            rw [htaken]
            exact ⟨[], .of_same rfl ⟨rfl, rfl, rfl, rfl⟩⟩
        | request isWrite addr =>
            cases hact
            obtain ⟨taken, pending, -, htaken⟩ := request_eq cfg s isWrite addr
            rw [htaken]
            exact ⟨[], .of_same rfl ⟨rfl, rfl, rfl, rfl⟩⟩
        | resetStats => exact absurd List.mem_cons_self hreset
      obtain ⟨since, hsince⟩ := hfirst
      refine ⟨since ++ later, ?_⟩
      rw [List.count_cons, Nat.add_comm]
      simp only [beq_iff_eq]
      exact hsince.trans hlater

/-- **The energies of a run**, since its start or since a reset: the background goes by the cycles that issued
a command to the rank, the bursts go by the commands, and nothing else takes energy. A cycle issues at most
one command. The 64-bit sums do not wrap: an update adds less than 2 ^ 32 to each, and `actual_update` resets
them every `EPOCH_LENGTH` updates, a 32-bit number. -/
theorem energy_accounting (cfg : Config) (hpolicy : cfg.rowBufferPolicy = .closePage)
    (hzero : cfg.refreshCountdown 0 ≠ 0) (hfit : cfg.EnergiesFit) (before after : List Action)
    (hbefore : before = [] ∨ ∃ earlier, before = earlier ++ [.resetStats]) (hafter : .resetStats ∉ after)
    (s₀ s : MemorySystem) (h₀ : run cfg before = .ok s₀) (h : run cfg (before ++ after) = .ok s) :
    ∃ since, s.history.issued = s₀.history.issued ++ since ∧ (since.Pairwise fun e f => e.1 < f.1) ∧
      ∀ r, commandsTo r since ≤ after.count .update ∧
        s.memoryController.backgroundEnergy r = cfg.numDevices *
          (cfg.IDD3N * commandsTo r since + cfg.IDD2N * (after.count .update - commandsTo r since)) ∧
        s.memoryController.burstEnergy r =
          readsTo r since * ((cfg.IDD4R - cfg.IDD3N) * cfg.BL / 2 * cfg.numDevices) +
            writesTo r since * ((cfg.IDD4W - cfg.IDD3N) * cfg.BL / 2 * cfg.numDevices) ∧
        s.memoryController.actpreEnergy r = 0 ∧ s.memoryController.refreshEnergy r = 0 := by
  have hempty : s₀.memoryController.backgroundEnergy = (fun _ => 0) ∧
      s₀.memoryController.burstEnergy = (fun _ => 0) ∧
      s₀.memoryController.actpreEnergy = (fun _ => 0) ∧ s₀.memoryController.refreshEnergy = (fun _ => 0) := by
    rcases hbefore with rfl | ⟨earlier, rfl⟩
    · cases h₀
      exact ⟨rfl, rfl, rfl, rfl⟩
    · rw [run, List.foldlM_append] at h₀
      obtain ⟨t, -, hreset⟩ := bind_ok h₀
      cases hreset
      exact ⟨rfl, rfl, rfl, rfl⟩
  obtain ⟨hbackground, hburst, hactpre, hrefresh⟩ := hempty
  have hordered := (timed_run hpolicy h).2.ordered
  rw [run, List.foldlM_append] at h
  obtain ⟨t, ht, h⟩ := bind_ok h
  obtain rfl : s₀ = t := Except.ok.inj (h₀.symm.trans ht)
  obtain ⟨since, hsince⟩ := run_accounts hpolicy hzero hfit hafter (timed_run hpolicy h₀)
      (disciplined_run hzero h₀) h
  refine ⟨since, hsince.issued_eq, ?_, fun r => ⟨hsince.commands_le r, ?_, ?_, ?_, ?_⟩⟩
  · rw [hsince.issued_eq] at hordered
    exact (List.pairwise_append.mp hordered).2.1
  · rw [hsince.background_eq, hbackground, Nat.zero_add]
  · rw [hsince.burst_eq, hburst, Nat.zero_add]
  · rw [hsince.actpre_eq, hactpre]
  · rw [hsince.refresh_eq, hrefresh]

/-- With the devices of the example, behind an update and a reset: 14 updates, a write and a read. -/
theorem energy_accounting_ddr2 :
    ∃ s, run (ddr2Micron 1 (by decide)) ([.update, .resetStats] ++ writeThenRead) = .ok s ∧
      s.memoryController.backgroundEnergy 0 = 64 * (55 * 2 + 40 * 12) ∧
      s.memoryController.burstEnergy 0 = 2 * (80 * 4 / 2 * 64) := by
  have hstart : ∃ s, run (ddr2Micron 1 (by decide)) [.update, .resetStats] = .ok s ∧
      s.history.issued = [] := by
    decide +kernel
  have hrun : ∃ s, run (ddr2Micron 1 (by decide)) ([.update, .resetStats] ++ writeThenRead) = .ok s ∧
      s.history.issued = writeThenReadIssued 2 14 := by decide +kernel
  obtain ⟨s₀, hs₀, hnone⟩ := hstart
  obtain ⟨s, hs, hissued⟩ := hrun
  obtain ⟨since, hsince, -, henergies⟩ := energy_accounting _ rfl (by decide)
    ⟨by decide, by decide, by decide, by decide, by decide, by decide, by decide, by decide⟩
      [.update, .resetStats]
    writeThenRead (.inr ⟨[.update], rfl⟩) (by decide) s₀ s hs₀ hs
  rw [hnone, hissued, List.nil_append] at hsince
  obtain ⟨-, hbackground, hburst, -⟩ := henergies 0
  rw [← hsince] at hbackground hburst
  exact ⟨s, hs, hbackground, hburst⟩

end MemorySystem

end RacerArtifacts.Mram
