import Mathlib

/-! Cutting a list into contiguous pieces whose keys do not repeat. The greedy cut closes a piece only
when the next key is already in it; it needs as few pieces as any such division, and it needs exactly
as many as the commonest key occurs if and only if some division has one key in each of its pieces. -/

namespace RacerArtifacts.Split

variable {α κ : Type} [DecidableEq κ] (key : α → κ)

/-- The greedy pieces of `cur ++ l`, where `cur` is the piece still open. -/
def cut (cur : List α) : List α → List (List α)
  | [] => [cur]
  | a :: l => if key a ∈ cur.map key then cur :: cut [a] l else cut (cur ++ [a]) l

/-- No key twice in a piece. -/
def Distinct (p : List α) : Prop := (p.map key).Nodup

/-- How often the commonest element of a list occurs. -/
def peak (ks : List κ) : ℕ := (ks.map fun k => ks.count k).foldr max 0

variable {key}

omit [DecidableEq κ] in
theorem distinct_singleton (a : α) : Distinct key [a] := List.nodup_singleton _

omit [DecidableEq κ] in
theorem distinct_append_singleton {cur : List α} {a : α} (hcur : Distinct key cur)
    (ha : key a ∉ cur.map key) : Distinct key (cur ++ [a]) := by
  rw [Distinct, List.map_append, List.nodup_append]
  refine ⟨hcur, List.nodup_singleton _, fun k hk k' hk' heq => ha ?_⟩
  rw [List.map_singleton, List.mem_singleton] at hk'
  rwa [← hk', ← heq]

theorem cut_flatten (key : α → κ) (cur l : List α) : (cut key cur l).flatten = cur ++ l := by
  induction l generalizing cur with
  | nil => simp [cut]
  | cons a l ih =>
      rw [cut]
      split
      · rw [List.flatten_cons, ih]
        rfl
      · rw [ih, List.append_assoc]
        rfl

theorem cut_ne_nil (key : α → κ) (cur l : List α) : cut key cur l ≠ [] := by
  cases l with
  | nil => exact List.cons_ne_nil _ _
  | cons a l =>
      rw [cut]
      split
      · exact List.cons_ne_nil _ _
      · exact cut_ne_nil key (cur ++ [a]) l
termination_by l.length

theorem cut_distinct {cur : List α} (l : List α) (hcur : Distinct key cur) :
    ∀ p ∈ cut key cur l, Distinct key p := by
  induction l generalizing cur with
  | nil =>
      intro p hp
      rw [List.mem_singleton.mp hp]
      exact hcur
  | cons a l ih =>
      rw [cut]
      split
      · intro p hp
        rcases List.mem_cons.mp hp with rfl | hp
        · exact hcur
        · exact ih (distinct_singleton a) p hp
      · rename_i ha
        exact ih (distinct_append_singleton hcur ha)

theorem cut_append {cur p : List α} (l : List α) (h : Distinct key (cur ++ p)) :
    cut key cur (p ++ l) = cut key (cur ++ p) l := by
  induction p generalizing cur with
  | nil => rw [List.nil_append, List.append_nil]
  | cons a p ih =>
      have ha : key a ∉ cur.map key := by
        rw [Distinct, List.map_append, List.nodup_append] at h
        exact fun hmem => h.2.2 _ hmem _ (List.mem_map_of_mem List.mem_cons_self) rfl
      rw [List.cons_append, cut, if_neg ha, ih (by rwa [List.append_assoc]), List.append_assoc]
      rfl

/-- A longer open piece needs more pieces, and at most one more. -/
theorem cut_length_suffix (key : α → κ) (l : List α) : ∀ {cur cur' : List α}, cur' <:+ cur →
    (cut key cur' l).length ≤ (cut key cur l).length ∧
      (cut key cur l).length ≤ (cut key cur' l).length + 1 := by
  induction l with
  | nil =>
      intro cur cur' _
      simp [cut]
  | cons a l ih =>
      intro cur cur' hsuf
      have hsub : key a ∈ cur'.map key → key a ∈ cur.map key := fun h => (hsuf.map key).subset h
      have hone (c : List α) : [a] <:+ c ++ [a] := List.suffix_append _ _
      by_cases h' : key a ∈ cur'.map key
      · simp only [cut, if_pos h', if_pos (hsub h'), List.length_cons]
        omega
      · by_cases h : key a ∈ cur.map key
        · have hahead := ih (hone cur')
          simp only [cut, if_neg h', if_pos h, List.length_cons]
          omega
        · have happ : cur' ++ [a] <:+ cur ++ [a] := by
            obtain ⟨t, rfl⟩ := hsuf
            exact ⟨t, by rw [List.append_assoc]⟩
          simp only [cut, if_neg h', if_neg h]
          exact ih happ

/-- No division into conflict-free pieces has fewer pieces than the greedy one. -/
theorem cut_length_le {l : List α} {ps : List (List α)} (hne : ps ≠ []) (hflat : ps.flatten = l)
    (hps : ∀ p ∈ ps, Distinct key p) : (cut key [] l).length ≤ ps.length := by
  induction ps generalizing l with
  | nil => exact absurd rfl hne
  | cons p ps ih =>
      rw [List.flatten_cons] at hflat
      have hp : Distinct key ([] ++ p) := hps p List.mem_cons_self
      rw [← hflat, cut_append _ hp, List.nil_append]
      by_cases hnil : ps = []
      · subst hnil
        simp [cut]
      · have hrest := ih hnil rfl fun q hq => hps q (List.mem_cons_of_mem p hq)
        have hsuf := (cut_length_suffix key ps.flatten (List.nil_suffix (l := p))).2
        rw [List.length_cons]
        omega

/-- A sublist of a concatenation is a concatenation of sublists of the pieces. -/
theorem exists_flatten_of_sublist {l : List α} {ps : List (List α)} (h : l.Sublist ps.flatten) :
    ∃ qs : List (List α), qs.flatten = l ∧ qs.length = ps.length ∧ ∀ q ∈ qs, ∃ p ∈ ps, q.Sublist p := by
  induction ps generalizing l with
  | nil => exact ⟨[], (List.sublist_nil.mp h).symm, rfl, List.forall_mem_nil _⟩
  | cons p ps ih =>
      obtain ⟨q, rest, rfl, hq, hrest⟩ := List.sublist_append_iff.mp h
      obtain ⟨qs, rfl, hlength, hqs⟩ := ih hrest
      refine ⟨q :: qs, rfl, congrArg Nat.succ hlength, List.forall_mem_cons.mpr ⟨?_, fun r hr => ?_⟩⟩
      · exact ⟨p, List.mem_cons_self, hq⟩
      · obtain ⟨p', hp', hsub⟩ := hqs r hr
        exact ⟨p', List.mem_cons_of_mem p hp', hsub⟩

/-- A sublist needs no more pieces: the pieces of the list divide it. -/
theorem cut_length_sublist {l l' : List α} (h : l.Sublist l') :
    (cut key [] l).length ≤ (cut key [] l').length := by
  have hflat := cut_flatten key [] l'
  rw [List.nil_append] at hflat
  rw [← hflat] at h
  obtain ⟨qs, rfl, hlength, hqs⟩ := exists_flatten_of_sublist h
  have hdistinct : ∀ q ∈ qs, Distinct key q := by
    have hpieces : ∀ p ∈ cut key [] l', Distinct key p := cut_distinct l' List.nodup_nil
    intro q hq
    obtain ⟨p, hp, hsub⟩ := hqs q hq
    exact (hpieces p hp).sublist (hsub.map key)
  have hne : qs ≠ [] := by
    rintro rfl
    exact cut_ne_nil key [] l' (List.eq_nil_of_length_eq_zero hlength.symm)
  rw [← hlength]
  exact cut_length_le hne rfl hdistinct

/-! ### The commonest key -/

theorem count_le_peak (ks : List κ) (k : κ) : ks.count k ≤ peak ks := by
  by_cases hk : k ∈ ks
  · have hmem : ks.count k ∈ ks.map fun k => ks.count k := List.mem_map_of_mem hk
    exact List.le_max_of_le' 0 hmem le_rfl
  · rw [List.count_eq_zero_of_not_mem hk]
    exact Nat.zero_le _

theorem foldr_max_mem {ns : List ℕ} (hne : ns ≠ []) : ns.foldr max 0 ∈ ns := by
  induction ns with
  | nil => exact absurd rfl hne
  | cons n ns ih =>
      rw [List.foldr_cons]
      by_cases hnil : ns = []
      · subst hnil
        simp
      · rcases max_choice n (ns.foldr max 0) with h | h
        · rw [h]
          exact List.mem_cons_self
        · rw [h]
          exact List.mem_cons_of_mem n (ih hnil)

theorem exists_count_eq_peak (ks : List κ) (hne : ks ≠ []) : ∃ k, ks.count k = peak ks := by
  have hmap : (ks.map fun k => ks.count k) ≠ [] := by simpa using hne
  obtain ⟨k, _, hk⟩ := List.mem_map.mp (foldr_max_mem hmap)
  exact ⟨k, hk⟩

theorem peak_perm {ks ks' : List κ} (h : ks.Perm ks') : peak ks = peak ks' := by
  have hfun : (fun k => ks.count k) = fun k => ks'.count k := funext fun k => h.count_eq k
  rw [peak, peak, hfun]
  exact (h.map _).foldr_eq 0

variable {ps : List (List α)}

theorem count_flatten_le (hps : ∀ p ∈ ps, Distinct key p) (k : κ) :
    (ps.flatten.map key).count k ≤ ps.length := by
  induction ps with
  | nil => simp
  | cons p ps ih =>
      have hp : (p.map key).count k ≤ 1 := List.nodup_iff_count_le_one.mp (hps p List.mem_cons_self) k
      have hrest := ih fun q hq => hps q (List.mem_cons_of_mem p hq)
      rw [List.flatten_cons, List.map_append, List.count_append, List.length_cons]
      omega

/-- A key occurs as often as there are pieces exactly when every piece has it. -/
theorem count_flatten_eq_length (hps : ∀ p ∈ ps, Distinct key p) (k : κ) :
    (ps.flatten.map key).count k = ps.length ↔ ∀ p ∈ ps, k ∈ p.map key := by
  induction ps with
  | nil => simp
  | cons p ps ih =>
      have hpd := hps p List.mem_cons_self
      have hp : (p.map key).count k ≤ 1 := List.nodup_iff_count_le_one.mp hpd k
      have hps' : ∀ q ∈ ps, Distinct key q := fun q hq => hps q (List.mem_cons_of_mem p hq)
      have hrest := count_flatten_le hps' k
      rw [List.flatten_cons, List.map_append, List.count_append, List.length_cons]
      constructor
      · intro h
        have hone : 0 < (p.map key).count k := by omega
        have htail := (ih hps').mp (by omega)
        intro q hq
        rcases List.mem_cons.mp hq with rfl | hq
        · exact List.count_pos_iff.mp hone
        · exact htail q hq
      · intro h
        have hone := List.count_eq_one_of_mem hpd (h p List.mem_cons_self)
        have htail := (ih hps').mpr fun q hq => h q (List.mem_cons_of_mem p hq)
        omega

theorem peak_le_length (hps : ∀ p ∈ ps, Distinct key p) : peak (ps.flatten.map key) ≤ ps.length := by
  by_cases hne : ps.flatten.map key = []
  · rw [hne]
    exact Nat.zero_le _
  · obtain ⟨k, hk⟩ := exists_count_eq_peak _ hne
    rw [← hk]
    exact count_flatten_le hps k

/-- The greedy cut needs as many pieces as the commonest key occurs exactly when the list can be cut
into conflict-free pieces that all have one key. -/
theorem cut_length_eq_peak {l : List α} (hne : l ≠ []) :
    (cut key [] l).length = peak (l.map key) ↔
      ∃ ps : List (List α), ps.flatten = l ∧ (∀ p ∈ ps, Distinct key p) ∧ ∃ k, ∀ p ∈ ps, k ∈ p.map key := by
  have hflat : (cut key [] l).flatten = l := cut_flatten key [] l
  have hdist : ∀ p ∈ cut key [] l, Distinct key p := cut_distinct l List.nodup_nil
  constructor
  · intro h
    obtain ⟨k, hk⟩ := exists_count_eq_peak (l.map key) (by simpa using hne)
    refine ⟨cut key [] l, hflat, hdist, k, (count_flatten_eq_length hdist k).mp ?_⟩
    rw [hflat, hk, h]
  · rintro ⟨ps, hps, hpd, k, hk⟩
    have hcount := (count_flatten_eq_length hpd k).mpr hk
    have hpsne : ps ≠ [] := by
      rintro rfl
      exact hne hps.symm
    have hle := cut_length_le hpsne hps hpd
    have hpeak := count_le_peak (l.map key) k
    have hge := peak_le_length hdist
    rw [hflat] at hge
    rw [hps] at hcount
    omega

/-! ### Orders -/

/-- Putting an element into the first piece that has room for its key. -/
def deal (key : α → κ) (a : α) : List (List α) → List (List α)
  | [] => [[a]]
  | p :: ps => if key a ∈ p.map key then p :: deal key a ps else (a :: p) :: ps

theorem deal_flatten (a : α) (ps : List (List α)) : (deal key a ps).flatten.Perm (a :: ps.flatten) := by
  induction ps with
  | nil => exact List.Perm.refl _
  | cons p ps ih =>
      rw [deal]
      split
      · rw [List.flatten_cons, List.flatten_cons]
        exact (ih.append_left p).trans List.perm_middle
      · exact List.Perm.refl _

/-- A property of the pieces survives when the piece that grows keeps it. -/
theorem deal_forall {P : List α → Prop} {a : α} {ps : List (List α)} (hone : P [a])
    (hgrow : ∀ p ∈ ps, key a ∉ p.map key → P p → P (a :: p)) (hps : ∀ p ∈ ps, P p) :
    ∀ p ∈ deal key a ps, P p := by
  induction ps with
  | nil => exact List.forall_mem_singleton.mpr hone
  | cons p ps ih =>
      have hp := hps p List.mem_cons_self
      have hrest : ∀ q ∈ ps, P q := fun q hq => hps q (List.mem_cons_of_mem p hq)
      rw [deal]
      split
      · exact List.forall_mem_cons.mpr ⟨hp, ih (fun q hq => hgrow q (List.mem_cons_of_mem p hq)) hrest⟩
      · rename_i ha
        exact List.forall_mem_cons.mpr ⟨hgrow p List.mem_cons_self ha hp, hrest⟩

/-- Every piece has the keys of all later ones. -/
def Descending (key : α → κ) (ps : List (List α)) : Prop :=
  ps.Pairwise fun p q => q.map key ⊆ p.map key

theorem deal_descending {a : α} {ps : List (List α)} (h : Descending key ps) :
    Descending key (deal key a ps) := by
  induction ps with
  | nil => exact List.pairwise_singleton _ _
  | cons p ps ih =>
      obtain ⟨hp, hrest⟩ := List.pairwise_cons.mp h
      rw [deal]
      split
      · rename_i ha
        refine List.pairwise_cons.mpr ⟨deal_forall ?_ ?_ hp, ih hrest⟩
        · exact List.cons_subset.mpr ⟨ha, List.nil_subset _⟩
        · exact fun q _ _ hq => List.cons_subset.mpr ⟨ha, hq⟩
      · exact List.pairwise_cons.mpr ⟨fun q hq => List.subset_cons_of_subset _ (hp q hq), hrest⟩

/-- **Some order needs no more pieces than the commonest key occurs.** -/
theorem exists_perm_cut_length_eq_peak (key : α → κ) {l : List α} (hne : l ≠ []) :
    ∃ l' : List α, l'.Perm l ∧ (cut key [] l').length = peak (l.map key) := by
  have hdeal : ∀ l : List α, ∃ ps : List (List α), ps.flatten.Perm l ∧ (∀ p ∈ ps, Distinct key p) ∧
      (∀ p ∈ ps, p ≠ []) ∧ Descending key ps := by
    intro l
    induction l with
    | nil => exact ⟨[], List.Perm.refl _, by simp, by simp, List.Pairwise.nil⟩
    | cons a l ih =>
        obtain ⟨ps, hperm, hdist, hfull, hdesc⟩ := ih
        refine ⟨deal key a ps, (deal_flatten a ps).trans (hperm.cons a), ?_, ?_, deal_descending hdesc⟩
        · exact deal_forall (distinct_singleton a) (fun p _ ha hp => List.nodup_cons.mpr ⟨ha, hp⟩) hdist
        · exact deal_forall (List.cons_ne_nil _ _) (fun p _ _ _ => List.cons_ne_nil _ _) hfull
  obtain ⟨ps, hperm, hdist, hfull, hdesc⟩ := hdeal l
  have hps : ps ≠ [] := by
    rintro rfl
    exact hne hperm.symm.eq_nil
  obtain ⟨qs, q, rfl⟩ := (List.eq_nil_or_concat ps).resolve_left hps
  rw [List.concat_eq_append] at *
  obtain ⟨a, q', hq⟩ := List.exists_cons_of_ne_nil (hfull q (by simp))
  have hflat : (qs ++ [q]).flatten ≠ [] := by
    intro h
    rw [h] at hperm
    exact hne hperm.symm.eq_nil
  refine ⟨(qs ++ [q]).flatten, hperm, ?_⟩
  rw [← peak_perm (hperm.map key)]
  refine (cut_length_eq_peak hflat).mpr ⟨qs ++ [q], rfl, hdist, key a, fun p hp => ?_⟩
  have hmem : key a ∈ q.map key := by simp [hq]
  rcases List.mem_append.mp hp with hp | hp
  · exact (List.pairwise_append.mp hdesc).2.2 p hp q (List.mem_singleton_self q) hmem
  · rwa [List.mem_singleton.mp hp]

/-- At most one key occurs more than once. -/
def OneCrowded (ks : List κ) : Prop := ∀ k k', 2 ≤ ks.count k → 2 ≤ ks.count k' → k = k'

theorem mem_of_mem_cut {k : κ} {cur l : List α} (hone : ∀ k', 2 ≤ ((cur ++ l).map key).count k' → k' = k)
    (hlen : 2 ≤ (cut key cur l).length) : ∀ p ∈ cut key cur l, k ∈ p.map key := by
  induction l generalizing cur with
  | nil => simp [cut] at hlen
  | cons a l ih =>
      rw [cut] at hlen ⊢
      split at hlen
      · rename_i ha
        rw [if_pos ha]
        have hk : key a = k := by
          apply hone _
          have hcur : 0 < (cur.map key).count (key a) := List.count_pos_iff.mpr ha
          rw [List.map_append, List.count_append, List.map_cons, List.count_cons_self]
          omega
        refine List.forall_mem_cons.mpr ⟨by rwa [hk] at ha, ?_⟩
        by_cases hlen' : 2 ≤ (cut key [a] l).length
        · refine ih (fun k' hk' => hone k' ?_) hlen'
          rw [List.map_append, List.count_append]
          exact hk'.trans (Nat.le_add_left _ _)
        · obtain ⟨p, hp⟩ : ∃ p, cut key [a] l = [p] := by
            apply List.length_eq_one_iff.mp
            have := List.length_pos_iff.mpr (cut_ne_nil key [a] l)
            omega
          have hflat := cut_flatten key [a] l
          rw [hp, List.flatten_singleton] at hflat
          rw [hp, hflat, List.forall_mem_singleton]
          simp [hk]
      · rename_i ha
        rw [if_neg ha]
        refine ih (fun k' hk' => hone k' ?_) hlen
        rwa [List.append_assoc] at hk'

theorem cut_length_eq_peak_of_oneCrowded {l : List α} (hne : l ≠ []) (h : OneCrowded (l.map key)) :
    (cut key [] l).length = peak (l.map key) := by
  have hdist : ∀ p ∈ cut key [] l, Distinct key p := cut_distinct l List.nodup_nil
  refine (cut_length_eq_peak hne).mpr ⟨cut key [] l, cut_flatten key [] l, hdist, ?_⟩
  by_cases hlen : 2 ≤ (cut key [] l).length
  · by_cases hk : ∃ k, 2 ≤ (l.map key).count k
    · obtain ⟨k, hk⟩ := hk
      exact ⟨k, mem_of_mem_cut (fun k' hk' => h k' k hk' hk) hlen⟩
    · rw [not_exists] at hk
      obtain ⟨a, l', rfl⟩ := List.exists_cons_of_ne_nil hne
      exact ⟨key a, mem_of_mem_cut (fun k' hk' => absurd hk' (hk k')) hlen⟩
  · obtain ⟨p, hp⟩ : ∃ p, cut key [] l = [p] := by
      apply List.length_eq_one_iff.mp
      have := List.length_pos_iff.mpr (cut_ne_nil key [] l)
      omega
    have hflat := cut_flatten key [] l
    rw [hp, List.flatten_singleton, List.nil_append] at hflat
    obtain ⟨a, l', rfl⟩ := List.exists_cons_of_ne_nil hne
    exact ⟨key a, by rw [hp, hflat, List.forall_mem_singleton]; simp⟩

omit [DecidableEq κ] in
/-- Two equal keys in front make the first piece a single one. -/
theorem key_of_first_two {a b : α} {l : List α} {ps : List (List α)} {k : κ} (hab : key a = key b)
    (hflat : ps.flatten = a :: b :: l) (hdist : ∀ p ∈ ps, Distinct key p) (hk : ∀ p ∈ ps, k ∈ p.map key) :
    k = key a := by
  cases ps with
  | nil => cases hflat
  | cons p ps =>
      have hp := hk p List.mem_cons_self
      have hd := hdist p List.mem_cons_self
      rw [List.flatten_cons] at hflat
      match p with
      | [] => cases hp
      | [c] =>
          rw [List.singleton_append] at hflat
          rw [← (List.cons.inj hflat).1]
          simpa using hp
      | c :: d :: p' =>
          rw [List.cons_append, List.cons_append] at hflat
          cases hflat
          simp [Distinct, hab] at hd

theorem exists_perm_cons (key : α → κ) {l : List α} {k : κ} (h : 0 < (l.map key).count k) :
    ∃ a l', l.Perm (a :: l') ∧ key a = k := by
  obtain ⟨a, ha, hk⟩ := List.mem_map.mp (List.count_pos_iff.mp h)
  obtain ⟨s, t, rfl⟩ := List.append_of_mem ha
  exact ⟨a, s ++ t, List.perm_middle, hk⟩

theorem exists_perm_cut_length_ne_peak {l : List α} (h : ¬OneCrowded (l.map key)) :
    ∃ l' : List α, l'.Perm l ∧ (cut key [] l').length ≠ peak (l.map key) := by
  simp only [OneCrowded, not_forall] at h
  obtain ⟨k, k', hk, hk', hne⟩ := h
  obtain ⟨a, l₁, hl₁, ha⟩ := exists_perm_cons key (l := l) (k := k) (by omega)
  rw [(hl₁.map key).count_eq, List.map_cons, ha, List.count_cons_self] at hk
  rw [(hl₁.map key).count_eq, List.map_cons, ha, List.count_cons_of_ne hne] at hk'
  obtain ⟨b, l₂, hl₂, hb⟩ := exists_perm_cons key (l := l₁) (k := k) (by omega)
  rw [(hl₂.map key).count_eq, List.map_cons, hb, List.count_cons_of_ne hne] at hk'
  obtain ⟨c, l₃, hl₃, hc⟩ := exists_perm_cons key (l := l₂) (k := k') (by omega)
  rw [(hl₃.map key).count_eq, List.map_cons, hc, List.count_cons_self] at hk'
  obtain ⟨d, l₄, hl₄, hd⟩ := exists_perm_cons key (l := l₃) (k := k') (by omega)
  have hperm : (a :: b :: (l₄ ++ [d, c])).Perm l := by
    have hend : (l₄ ++ [d, c]).Perm (c :: d :: l₄) := by
      apply List.perm_append_comm.trans
      exact List.Perm.swap c d l₄
    apply ((hend.cons b).cons a).trans
    exact ((((hl₄.cons c).symm.trans hl₃.symm).cons b).trans hl₂.symm |>.cons a).trans hl₁.symm
  refine ⟨_, hperm, fun heq => ?_⟩
  rw [← peak_perm (hperm.map key)] at heq
  obtain ⟨ps, hflat, hdist, k₀, hk₀⟩ := (cut_length_eq_peak (List.cons_ne_nil _ _)).mp heq
  have hfirst := key_of_first_two (ha.trans hb.symm) hflat hdist hk₀
  have hlast : k₀ = key c := by
    have hrev : ((ps.map List.reverse).reverse).flatten = c :: d :: (a :: b :: l₄).reverse := by
      rw [← List.reverse_flatten, hflat, ← List.cons_append, ← List.cons_append, List.reverse_append]
      rfl
    refine key_of_first_two (hc.trans hd.symm) hrev (fun p hp => ?_) fun p hp => ?_
    · obtain ⟨q, hq, rfl⟩ := List.mem_map.mp (List.mem_reverse.mp hp)
      rw [Distinct, List.map_reverse, List.nodup_reverse]
      exact hdist q hq
    · obtain ⟨q, hq, rfl⟩ := List.mem_map.mp (List.mem_reverse.mp hp)
      rw [List.map_reverse, List.mem_reverse]
      exact hk₀ q hq
  rw [ha] at hfirst
  rw [hc] at hlast
  exact hne (hfirst.symm.trans hlast)

/-- **The number of pieces is the same in every order** exactly when at most one key is crowded. -/
theorem forall_perm_cut_length_iff {l : List α} (hne : l ≠ []) :
    (∀ l' : List α, l'.Perm l → (cut key [] l').length = (cut key [] l).length) ↔ OneCrowded (l.map key) := by
  constructor
  · intro h
    by_contra hcrowded
    obtain ⟨l₁, hl₁, hlen₁⟩ := exists_perm_cut_length_eq_peak key hne
    obtain ⟨l₂, hl₂, hlen₂⟩ := exists_perm_cut_length_ne_peak hcrowded
    exact hlen₂ ((h l₂ hl₂).trans ((h l₁ hl₁).symm.trans hlen₁))
  · intro h l' hl'
    have hne' : l' ≠ [] := fun hnil => hne (by rw [hnil] at hl'; exact hl'.symm.eq_nil)
    have h' : OneCrowded (l'.map key) := fun k k' hk hk' => by
      rw [(hl'.map key).count_eq] at hk hk'
      exact h k k' hk hk'
    rw [cut_length_eq_peak_of_oneCrowded hne h, cut_length_eq_peak_of_oneCrowded hne' h',
      peak_perm (hl'.map key)]

end RacerArtifacts.Split
