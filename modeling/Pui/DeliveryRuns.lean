import Pui.Delivery

/-!
# Usage is delivered exactly once

The control plane accounts the batches of the history in order, so its readings are those of a prefix of it.
-/

namespace Pui

open Guard Table Latest List Option

section Errors

variable {P : FleetError → Prop}

theorem raises_chargeAll (hscope : P .scope) (hinvalid : P .invalid) (hbudget : P .budget) (cs : List UsageCheckpoint)
    (l : Ledger) (deltas : TermDeltas) : Raises P (Ledger.chargeAll cs l deltas) := by
  induction cs generalizing l deltas with
  | nil => exact raises_ok _
  | cons c cs ih =>
    refine Raises.bind ?_ fun _ _ => ih _ _
    refine (raises_found hscope).bind fun g _ => (raises_refuse fun _ => hscope).bind fun _ _ =>
      (raises_refuse fun _ => hinvalid).bind fun _ _ => (raises_refuse fun _ => hbudget).bind fun _ _ => Raises.bind ?_ fun _ _ =>
      (raises_refuse fun _ => hbudget).bind fun _ _ => Raises.bind ?_ fun _ _ => raises_pure _
    · unfold TermDeltas.add
      split
      · exact (raises_refuse fun _ => hbudget).bind fun _ _ => raises_pure _
      · exact raises_pure _
    · exact raises_updateEach hscope (fun _ _ => (raises_refuse fun _ => hbudget).bind fun _ _ => raises_pure _) _ _

theorem raises_recordTermUsage (hscope : P .scope) (hstorage : P .storage) (now : Int) (deltas : TermDeltas) (db : Fleet) :
    Raises P (db.recordTermUsage now deltas) := by
  refine (raises_refuse fun _ => hscope).bind fun _ _ => (raises_refuse fun _ => hscope).bind fun _ _ => raises_foldlM (fun db a => ?_) _ _
  split
  · exact (raises_refuse fun _ => hstorage).bind fun _ _ => (raises_refuse fun _ => hstorage).bind fun _ _ => raises_pure _
  · exact raises_ok _

theorem raises_account (hscope : P .scope) (hinvalid : P .invalid) (hbudget : P .budget) (hstorage : P .storage)
    (p : Principal) (b : UsageBatch) (digest : Digest) (now : Int) (db : Fleet) :
    Raises P (db.account p b digest now) := by
  refine Raises.bind ?_ fun _ _ => (raises_chargeAll hscope hinvalid hbudget _ _ _).bind fun _ _ =>
    (raises_recordTermUsage hscope hstorage _ _ _).bind fun _ _ => raises_pure _
  exact (raises_refuse fun _ => hscope).bind fun _ _ => raises_forM
    (fun _ => (raises_found hscope).bind fun _ _ => raises_refuse fun _ => hscope) _

end Errors

theorem Fleet.raises_ingest (digests : Digests) (peer : Peer) (p : Principal) (b : UsageBatch) (now : Int) (db : Fleet) :
    Raises (fun e =>
      (e = .conflict → (b.sequence : Int) = (Delivery.cursor p db).sequence ∧ (Delivery.cursor p db).digest ≠ digests.batch b) ∧
      (e = .sequence → validBatch b = true ∧ (Delivery.cursor p db).sequence < b.sequence ∧
        ((Delivery.cursor p db).sequence = maxInt64 ∨ (b.sequence : Int) ≠ (Delivery.cursor p db).sequence + 1)))
      (db.ingest digests peer p b now) := by
  refine (raises_refuse (by simp)).bind fun _ hvalid => (raises_refuse (by simp)).bind fun _ _ => Raises.bind ?_ fun _ _ =>
    (raises_lockAuthenticatedNode (by simp) (by simp) (by simp) peer p db).bind fun _ _ => ?_
  · exact (raises_found (by simp)).bind fun _ _ => raises_refuse (by simp)
  have hvalid : validBatch b = true := by simpa using hvalid
  show Raises _ (ite _ _ _)
  split
  · exact (raises_refuse fun hc => ⟨fun _ => hc, by simp⟩).bind fun _ _ => raises_pure _
  · next hlt =>
    exact (raises_refuse fun hs => ⟨by simp, fun _ => ⟨hvalid, not_le.mp hlt, hs⟩⟩).bind fun _ _ =>
      (raises_account (by simp) (by simp) (by simp) (by simp) _ _ _ _ _).bind fun _ _ => raises_pure _

variable {cs : List UsageCheckpoint} {deltas : TermDeltas} {b : UsageBatch} {bs : List UsageBatch}

theorem Ledger.sum_charges {l l' : Ledger} {deltas' : TermDeltas}
    (h : Ledger.chargeAll cs l deltas = .ok (l', deltas')) (k : String × String × String) :
    (((Ledger.charges cs l deltas).filter fun e => e.1 = k).map Prod.snd).sum =
      (l'.reading k).uploaded + (l'.reading k).downloaded - ((l.reading k).uploaded + (l.reading k).downloaded) := by
  induction cs generalizing l deltas with
  | nil =>
    cases h
    simp [Ledger.charges]
  | cons c cs ih =>
    simp only [Ledger.chargeAll, bind_eq_ok] at h
    obtain ⟨⟨mid, d⟩, hc, h⟩ := h
    obtain ⟨g, delta, hcharge, -⟩ := charges_of_charge hc
    have hcost : (mid.grants.get? c.grantID).elim 0 FleetGrant.consumedBytes -
        (l.grants.get? c.grantID).elim 0 FleetGrant.consumedBytes = delta := by
      rw [hcharge.grants, get?_put_self, hcharge.grant]
      exact add_sub_cancel_left g.consumedBytes delta
    simp only [Ledger.charges, hc, hcost, filter_cons]
    by_cases hk : c.key = k
    · subst hk
      have hmid : mid.reading c.key = ⟨c.uploaded, c.downloaded⟩ := by
        rw [Ledger.reading, hcharge.meters, get?_put_self, getD_some]
      rw [if_pos (decide_eq_true rfl), map_cons, sum_cons, ih h, hmid, hcharge.delta_eq]
      dsimp only
      omega
    · have hmid : mid.reading k = l.reading k := by
        rw [Ledger.reading, hcharge.meters, get?_put_of_ne fun he => hk he.symm, ← Ledger.reading]
      rw [if_neg (by simpa using hk), ih h, hmid]

theorem Ledger.grant_of_mem_charges {l l' : Ledger} {deltas' : TermDeltas}
    (h : Ledger.chargeAll cs l deltas = .ok (l', deltas')) :
    ∀ e ∈ Ledger.charges cs l deltas, ∃ c ∈ cs, e.1 = c.key := by
  induction cs generalizing l deltas with
  | nil => simp [Ledger.charges]
  | cons c cs ih =>
    simp only [Ledger.chargeAll, bind_eq_ok] at h
    obtain ⟨⟨mid, d⟩, hc, h⟩ := h
    simp only [Ledger.charges, hc, forall_mem_cons]
    refine ⟨⟨c, mem_cons_self, rfl⟩, fun e he => ?_⟩
    obtain ⟨c', hc', hk⟩ := ih h e he
    exact ⟨c', mem_cons_of_mem _ hc', hk⟩

namespace Delivery

section Accounted

variable {digests : Digests} {p : Principal} {db db' : Fleet} {charges : List ((String × String × String) × Int)}
  {history history' : Nat → List UsageCheckpoint} {n : Nat}

theorem Accounted.congr (h : Accounted digests p db charges history n) (hh : ∀ t ≤ n, history' t = history t) :
    Accounted digests p db charges history' n where
  sound := h.sound
  cursor := by rw [h.cursor, batchAt, batchAt, hh n le_rfl]
  owned t ht h1 c hc := h.owned t ht h1 c (hh t ht ▸ hc)
  stored id g hg ho m i := by
    rw [h.stored id g hg ho, latest_congr fun t ht => ?_]
    rw [readings, readings, hh t ht]
  charged := h.charged
  grants := h.grants

theorem Accounted.of_ledger (h : Accounted digests p db charges history n) (hl : db'.toLedger = db.toLedger)
    (hc : Delivery.cursor p db' = Delivery.cursor p db) : Accounted digests p db' charges history n where
  sound := hl ▸ h.sound
  cursor := hc ▸ h.cursor
  owned := by rw [hl]; exact h.owned
  stored := by rw [hl]; exact h.stored
  charged := by rw [hl]; exact h.charged
  grants := by rw [hl]; exact h.grants

theorem Accounted.latest_eq_none (h : Accounted digests p db charges history n) {k : MeterKey}
    (hk : ∀ g, db.grants.get? k.grantID = some g → p.owns g → g.clientID = k.clientID → g.termID ≠ k.termID) :
    latest (readings history) k n = none := by
  cases hl : latest (readings history) k n with
  | none => rfl
  | some r =>
    obtain ⟨t, h1, ht, hr⟩ := exists_of_latest hl
    obtain ⟨c, hc, -⟩ := map_eq_some_iff.mp hr
    have hck : c.meter = k := by simpa using List.find?_some hc
    subst hck
    obtain ⟨g, hg, ho, hclient, hterm⟩ := h.owned t ht h1 c (mem_of_find?_eq_some hc)
    exact absurd hterm (hk g hg ho hclient)

theorem grant_of_elsewhere (he : Elsewhere p db db') {id : String} {g' : FleetGrant} (hg' : db'.grants.get? id = some g')
    (ho : p.owns g') : (∃ g, db.grants.get? id = some g ∧ p.owns g ∧ g'.clientID = g.clientID ∧ g'.termID = g.termID) ∨
      db.grants.get? id = none := by
  cases hg : db.grants.get? id with
  | none => exact .inr rfl
  | some g =>
    obtain ⟨g₂, hg₂, howner⟩ := he.owners id g hg
    rw [hg'] at hg₂
    cases hg₂
    obtain ⟨hown, hc, ht⟩ := Principal.owns_congr (p := p) howner
    exact .inl ⟨g, rfl, hown.mp ho, hc, ht⟩

theorem reading_of_elsewhere (he : Elsewhere p db db') {id : String} (hown : ∀ g, db.grants.get? id = some g → p.owns g)
    (m i : String) : db'.reading (id, m, i) = db.reading (id, m, i) := by
  rw [Ledger.reading, Ledger.reading, he.meters id m i hown]

theorem Accounted.elsewhere (h : Accounted digests p db charges history n) (he : Elsewhere p db db')
    (hs : db'.toLedger.Sound) : Accounted digests p db' charges history n := by
  -- a new grant has no meters and was never charged
  have hnew : ∀ id m i, db.grants.get? id = none → db'.reading (id, m, i) = ⟨0, 0⟩ := by
    intro id m i hid
    rw [reading_of_elsewhere he (fun g hg => by rw [hid] at hg; cases hg), Ledger.reading]
    cases hm : db.meters.get? (id, m, i) with
    | none => rfl
    | some r =>
      obtain ⟨g, hg⟩ := h.sound.meter _ r hm
      rw [hid] at hg
      cases hg
  have hold : ∀ id g, db.grants.get? id = some g → p.owns g → ∀ m i, db'.reading (id, m, i) = db.reading (id, m, i) := by
    intro id g hg ho m i
    refine reading_of_elsewhere he (fun g₂ hg₂ => ?_) m i
    rw [hg] at hg₂
    cases hg₂
    exact ho
  refine ⟨hs, ?_, fun t ht h1 c hc => ?_, fun id g' hg' ho m i => ?_, fun id g' hg' ho m i => ?_, fun e hmem => ?_⟩
  · rw [Delivery.cursor, he.cursor]
    exact h.cursor
  · obtain ⟨g, hg, ho, hclient, hterm⟩ := h.owned t ht h1 c hc
    obtain ⟨g', hg', howner⟩ := he.owners _ g hg
    obtain ⟨hown, hc', ht'⟩ := Principal.owns_congr (p := p) howner
    exact ⟨g', hg', hown.mpr ho, hc'.trans hclient, ht'.trans hterm⟩
  · rcases grant_of_elsewhere he hg' ho with ⟨g, hg, hog, hc, ht⟩ | hid
    · rw [hold id g hg hog, hc, ht]
      exact h.stored id g hg hog m i
    · rw [hnew id m i hid, h.latest_eq_none fun g hg => by rw [hid] at hg; cases hg]
      rfl
  · rcases grant_of_elsewhere he hg' ho with ⟨g, hg, hog, -⟩ | hid
    · rw [hold id g hg hog]
      exact h.charged id g hg hog m i
    · have hnone : charges.filter (fun e => e.1 = (id, m, i)) = [] := by
        refine filter_eq_nil_iff.mpr fun e hmem hk => ?_
        obtain ⟨g, hg⟩ := h.grants e hmem
        rw [of_decide_eq_true hk, hid] at hg
        cases hg
      rw [hnew id m i hid, hnone]
      rfl
  · obtain ⟨g, hg⟩ := h.grants e hmem
    obtain ⟨g', hg', -⟩ := he.owners _ g hg
    exact ⟨g', hg'⟩

theorem find?_key {id client term : String}
    (h : ∀ c ∈ cs, c.grantID = id → c.clientID = client ∧ c.termID = term) (m i : String) :
    (cs.find? fun c => c.key = (id, m, i)) = cs.find? fun c => c.meter = ⟨id, client, term, m, i⟩ := by
  induction cs with
  | nil => rfl
  | cons c cs ih =>
    have hc := h c mem_cons_self
    have heq : decide (c.key = (id, m, i)) = decide (c.meter = ⟨id, client, term, m, i⟩) := by
      simp only [UsageCheckpoint.key, UsageCheckpoint.meter, Prod.mk.injEq, MeterKey.mk.injEq, decide_eq_decide]
      exact ⟨fun hk => ⟨hk.1, (hc hk.1).1, (hc hk.1).2, hk.2⟩, fun hk => ⟨hk.1, hk.2.2.2⟩⟩
    rw [List.find?_cons, List.find?_cons, heq, ih fun c' hc' => h c' (mem_cons_of_mem _ hc')]

theorem Accounted.account (h : Accounted digests p db charges history n)
    (hb : b = batchAt p history (n + 1)) (hvalid : validBatch b = true) (hlock : db.toLedger.lockUsage p b = .ok ()) (hcharge : Ledger.chargeAll b.checkpoints db.toLedger ∅ = .ok (db'.toLedger, deltas))
    (hcursor : db'.cursors.get? (p.nodeID, p.installationID) = some ⟨b.sequence, digests.batch b⟩) :
    Accounted digests p db' (charges ++ Ledger.charges b.checkpoints db.toLedger ∅) history (n + 1) := by
  have hcs : b.checkpoints = history (n + 1) := by rw [hb]; rfl
  obtain ⟨hsame, howned, hmeters⟩ := Ledger.chargeAll_eq_ok (nodup_keys_of_validBatch hvalid) hcharge
  have hkeep := Ledger.KeepsOwners.of_owner hsame
  have hback : ∀ id g', db'.grants.get? id = some g' → ∃ g, db.grants.get? id = some g ∧ g.owner = g'.owner := by
    intro id g' hg'
    have hid := hsame id
    rw [hg', map_some] at hid
    exact map_eq_some_iff.mp hid.symm
  have hbatch : ∀ c ∈ b.checkpoints, ∃ g, db.grants.get? c.grantID = some g ∧ p.owns g ∧
      g.clientID = c.clientID ∧ g.termID = c.termID := by
    intro c hc
    obtain ⟨g, hg, hclient, hterm⟩ := howned c hc
    obtain ⟨g₂, hg₂, ho⟩ := Ledger.owns_of_lockUsage hlock c hc
    rw [hg] at hg₂
    cases hg₂
    exact ⟨g, hg, ho, hclient, hterm⟩
  have hafter : ∀ t ≤ n + 1, 1 ≤ t → ∀ c ∈ history t, ∃ g, db.grants.get? c.grantID = some g ∧ p.owns g ∧
      g.clientID = c.clientID ∧ g.termID = c.termID := by
    intro t ht h1 c hc
    rcases Nat.lt_or_eq_of_le ht with hlt | rfl
    · exact h.owned t (Nat.le_of_lt_succ hlt) h1 c hc
    · exact hbatch c (hcs ▸ hc)
  refine ⟨Ledger.Sound.chargeAll h.sound hcharge, ?_, fun t ht h1 c hc => ?_, fun id g' hg' ho m i => ?_,
    fun id g' hg' ho m i => ?_, fun e he => ?_⟩
  · rw [Delivery.cursor, hcursor, getD_some, if_neg n.succ_ne_zero, ← hb]
    rw [hb]
    rfl
  · obtain ⟨g, hg, ho, hclient, hterm⟩ := hafter t ht h1 c hc
    obtain ⟨g', hg', howner⟩ := hkeep _ g hg
    obtain ⟨hown, hc', ht'⟩ := Principal.owns_congr (p := p) howner
    exact ⟨g', hg', hown.mpr ho, hc'.trans hclient, ht'.trans hterm⟩
  · obtain ⟨g, hg, howner⟩ := hback id g' hg'
    obtain ⟨hown, hcl, hte⟩ := Principal.owns_congr (p := p) howner
    have hnames : ∀ c ∈ b.checkpoints, c.grantID = id → c.clientID = g'.clientID ∧ c.termID = g'.termID := by
      intro c hc hid
      obtain ⟨gc, hgc, -, hclient, hterm⟩ := hbatch c hc
      rw [hid, hg] at hgc
      cases hgc
      exact ⟨hclient.symm.trans hcl, hterm.symm.trans hte⟩
    have hstored := h.stored id g hg (hown.mpr ho) m i
    rw [hcl, hte] at hstored
    rw [Ledger.reading, hmeters, find?_key hnames, latest, readings, ← hcs]
    cases b.checkpoints.find? fun c => decide (c.meter = ⟨id, g'.clientID, g'.termID, m, i⟩) with
    | none => exact hstored
    | some c => rfl
  · obtain ⟨g, hg, howner⟩ := hback id g' hg'
    rw [filter_append, map_append, sum_append, Ledger.sum_charges hcharge,
      h.charged id g hg ((Principal.owns_congr howner).1.mpr ho)]
    omega
  · have hgrant : ∃ g, db.grants.get? e.1.1 = some g := by
      rcases mem_append.mp he with he | he
      · exact h.grants e he
      · obtain ⟨c, hc, hk⟩ := Ledger.grant_of_mem_charges hcharge e he
        obtain ⟨g, hg, -⟩ := hbatch c hc
        exact ⟨g, by rw [hk]; exact hg⟩
    obtain ⟨g, hg⟩ := hgrant
    obtain ⟨g', hg', -⟩ := hkeep _ g hg
    exact ⟨g', hg'⟩

end Accounted

section Steps

variable {digests : Digests} {p : Principal} {s : Delivery} {history : Nat → List UsageCheckpoint} {n : Nat}

theorem agrees_start {db : Fleet} (hdb : Unused p db) : Agrees digests p (start p db) (fun _ => []) 0 := by
  have hreading : ∀ id g, db.grants.get? id = some g → p.owns g → ∀ m i, db.reading (id, m, i) = ⟨0, 0⟩ := by
    intro id g hg ho m i
    rw [Ledger.reading, hdb.meters id g hg ho m i]
    rfl
  have haccounted : Accounted digests p db [] (fun _ => []) 0 := by
    refine ⟨hdb.sound, ?_, fun t ht h1 => by omega, hreading, fun id g hg ho m i => ?_, by simp⟩
    · rw [Delivery.cursor, hdb.cursor]
      rfl
    · rw [hreading id g hg ho m i]
      rfl
  exact {
    kept := UsageStore.kept_new _ _
    nodeID := rfl
    installationID := rfl
    accounted := haccounted
    durable := le_rfl
    exposed := le_rfl
    returned := by simp [start]
    sent := by simp [start]
    ordered := by simp [start]
    receipts := by simp [start]
    sending := by simp [start]
    next := ⟨0, 0, rfl, Nat.zero_le _⟩ }

theorem Agrees.append {node : UsageStore} (h : Agrees digests p s history n)
    (hcs : s.node.appendUsage cs = .ok node) : ∃ history', Agrees digests p { s with node := node } history' n := by
  obtain ⟨history', hkept, hsame, -, hnode, hinst, hexposed, hdurable⟩ := h.kept.appendUsage hcs
  -- what was handed out lies below the exposed number, where the history did not change
  have hbatch : ∀ t ≤ s.node.exposedUsage, batchAt p history' t = batchAt p history t := by
    intro t ht
    rw [batchAt, batchAt, hsame t ht]
  obtain ⟨a, len, hsending, ha⟩ := h.next
  exact ⟨history', {
    h with
    kept := hkept
    nodeID := hnode.trans h.nodeID
    installationID := hinst.trans h.installationID
    accounted := h.accounted.congr fun t ht => hsame t (ht.trans h.exposed)
    durable := hdurable.trans_le h.durable
    exposed := h.exposed.trans_eq hexposed.symm
    returned := fun b hb => by
      obtain ⟨heq, h1, hle⟩ := h.returned b hb
      exact ⟨heq.trans (hbatch _ hle).symm, h1, hle.trans_eq hexposed.symm⟩
    next := by
      refine ⟨a, len, hsending.trans (map_congr_left fun t ht => (hbatch t ?_).symm), ?_⟩
      · have hmem : batchAt p history t ∈ s.sending := hsending ▸ mem_map_of_mem ht
        exact (h.returned _ (h.sending _ hmem)).2.2
      · show a ≤ node.durableUsage + 1
        rw [hdurable]
        exact ha }⟩

theorem Agrees.pending {limit : Nat} {node : UsageStore} (h : Agrees digests p s history n)
    (hbs : s.node.pendingUsage limit = .ok (bs, node)) :
    Agrees digests p { s with node := node, sending := bs, returned := bs ++ s.returned } history n := by
  obtain ⟨hkept, hexposed, hdurable, -, hnode, hinst, -, -, len, hlist, hlen⟩ := h.kept.pendingUsage hbs
  have hlist : bs = (List.range' (s.node.durableUsage + 1) len).map (batchAt p history) := by
    rw [hlist]
    refine map_congr_left fun t _ => ?_
    rw [UsageStore.batchAt, batchAt, h.nodeID, h.installationID]
  have hnew : ∀ b ∈ bs, b = batchAt p history b.sequence ∧ 1 ≤ b.sequence ∧ b.sequence ≤ node.exposedUsage := by
    intro b hb
    rw [hlist] at hb
    obtain ⟨t, ht, rfl⟩ := mem_map.mp hb
    have hrange := mem_range'_1.mp ht
    refine ⟨rfl, ?_, ?_⟩
    · show 1 ≤ t
      omega
    · show t ≤ node.exposedUsage
      omega
  exact {
    h with
    kept := hkept
    nodeID := hnode.trans h.nodeID
    installationID := hinst.trans h.installationID
    durable := hdurable.trans_le h.durable
    exposed := h.exposed.trans hexposed
    returned := fun b hb => by
      rcases mem_append.mp hb with hb | hb
      · exact hnew b hb
      · obtain ⟨heq, h1, hle⟩ := h.returned b hb
        exact ⟨heq, h1, hle.trans hexposed⟩
    sent := fun b hb => mem_append_right _ (h.sent b hb)
    ordered := fun b hb => ⟨mem_append_right _ (h.ordered b hb).1, (h.ordered b hb).2⟩
    sending := fun b hb => mem_append_left _ hb
    next := ⟨_, len, hlist, hdurable.symm ▸ le_rfl⟩ }

theorem Agrees.head (h : Agrees digests p s history n) (hs : s.sending = b :: bs) :
    b ∈ s.returned ∧ b.sequence ≤ s.node.durableUsage + 1 ∧
      ∃ len, bs = (List.range' (b.sequence + 1) len).map (batchAt p history) := by
  obtain ⟨a, len, hsending, ha⟩ := h.next
  rw [hs] at hsending
  cases len with
  | zero => cases hsending
  | succ len =>
    rw [range'_succ, map_cons, List.cons.injEq] at hsending
    obtain ⟨rfl, hbs⟩ := hsending
    exact ⟨h.sending _ (hs ▸ mem_cons_self), ha, len, hbs⟩

theorem Agrees.send (h : Agrees digests p s history n) (hs : s.sending = b :: bs) :
    Agrees digests p { s with sent := b :: s.sent, ordered := b :: s.ordered } history n := by
  obtain ⟨hret, hseq, -⟩ := h.head hs
  exact {
    h with
    sent := forall_mem_cons.mpr ⟨hret, h.sent⟩
    ordered := forall_mem_cons.mpr ⟨⟨hret, hseq.trans (Nat.succ_le_succ h.durable)⟩, h.ordered⟩ }

theorem Agrees.ingested (h : Agrees digests p s history n) (hb : b ∈ s.sent) (peer : Peer) (now : Int) :
    ∃ n', Agrees digests p (s.ingested digests p b peer now) history n' := by
  unfold Delivery.ingested
  split
  · exact ⟨n, h⟩
  · next r db hingest =>
    obtain ⟨hvalid, -, hcase⟩ := Fleet.ingest_eq_ok hingest
    have hcursor : (cursor p s.master).sequence = n := by rw [h.accounted.cursor]
    rcases hcase with ⟨hle, hr, rfl⟩ | ⟨hnext, hr, hlock, ledger, deltas, _, _, _, hcharge, -, rfl⟩
    · refine ⟨n, ?_⟩
      rw [if_pos (show (b.sequence : Int) ≤ (cursor p s.master).sequence from hle)]
      exact {
        h with
        accounted := h.accounted.of_ledger rfl (by rw [cursor, get?_put_self]; rfl)
        receipts := forall_mem_cons.mpr ⟨by
          rw [hr]
          show (cursor p s.master).sequence.toNat ≤ n
          omega, h.receipts⟩ }
    · have hseq : b.sequence = n + 1 := by
        have hnext : (b.sequence : Int) = (cursor p s.master).sequence + 1 := hnext
        omega
      obtain ⟨hbatch, -, hexposed⟩ := h.returned b (h.sent b hb)
      rw [hseq] at hbatch hexposed
      refine ⟨n + 1, ?_⟩
      rw [if_neg (by omega)]
      exact {
        h with
        accounted := h.accounted.account hbatch hvalid hlock hcharge (get?_put_self _ _ _)
        durable := Nat.le_succ_of_le h.durable
        exposed := hexposed
        ordered := fun c hc => ⟨(h.ordered c hc).1, Nat.le_succ_of_le (h.ordered c hc).2⟩
        receipts := forall_mem_cons.mpr ⟨by rw [hr]; exact hseq.le, fun r' hr' => Nat.le_succ_of_le (h.receipts r' hr')⟩ }

theorem Agrees.stopSending (h : Agrees digests p s history n) : Agrees digests p { s with sending := [] } history n :=
  { h with
    sending := by simp
    next := ⟨0, 0, rfl, Nat.zero_le _⟩ }

theorem Agrees.received {r : UsageReceipt} (h : Agrees digests p s history n) (hr : r ∈ s.receipts) :
    Agrees digests p (s.received r) history n := by
  unfold Delivery.received
  split
  · exact h
  · next b bs hs =>
    split
    · exact h.stopSending
    · next hge =>
      split
      · exact h.stopSending
      · next node hack =>
        obtain ⟨hkept, hexposed, hdurable, -, hnode, hinst, -⟩ := h.kept.acknowledge hack
        obtain ⟨-, -, len, hbs⟩ := h.head hs
        have hn := h.receipts r hr
        have hd := h.durable
        exact {
          h with
          kept := hkept
          nodeID := hnode.trans h.nodeID
          installationID := hinst.trans h.installationID
          durable := by
            show node.durableUsage ≤ n
            omega
          exposed := h.exposed.trans_eq hexposed.symm
          returned := fun c hc => by
            obtain ⟨heq, h1, hle⟩ := h.returned c hc
            exact ⟨heq, h1, hle.trans_eq hexposed.symm⟩
          sending := fun c hc => h.sending c (hs ▸ mem_cons_of_mem _ hc)
          next := by
            refine ⟨_, len, hbs, ?_⟩
            show b.sequence + 1 ≤ node.durableUsage + 1
            omega }

theorem Agrees.other {op : LedgerOp} (h : Agrees digests p s history n) (hop : op.Foreign p) :
    Agrees digests p { s with master := op.step digests s.master } history n :=
  { h with
    accounted := h.accounted.elsewhere (elsewhere_step hop _) (op.sound_step digests _ h.accounted.sound) }

theorem Agrees.step (h : Agrees digests p s history n) (a : Action) :
    ∃ history' n', Agrees digests p (step digests p s a) history' n' := by
  cases a with
  | append cs =>
    simp only [Delivery.step]
    split
    · exact ⟨history, n, h⟩
    · next node hcs =>
      obtain ⟨history', h'⟩ := h.append hcs
      exact ⟨history', n, h'⟩
  | pending limit =>
    simp only [Delivery.step]
    split
    · exact ⟨history, n, h⟩
    · next bs node hbs => exact ⟨history, n, h.pending hbs⟩
  | send =>
    simp only [Delivery.step]
    split
    · exact ⟨history, n, h⟩
    · next b bs hs => exact ⟨history, n, h.send hs⟩
  | resend b =>
    simp only [Delivery.step]
    split
    · next hb => exact ⟨history, n, { h with sent := forall_mem_cons.mpr ⟨hb, h.sent⟩ }⟩
    · exact ⟨history, n, h⟩
  | deliver b peer now =>
    simp only [Delivery.step]
    split
    · next hb => exact ⟨history, h.ingested hb peer now⟩
    · exact ⟨history, n, h⟩
  | receive r =>
    simp only [Delivery.step]
    split
    · next hr => exact ⟨history, n, h.received hr⟩
    · exact ⟨history, n, h⟩
  | crash => exact ⟨history, n, h.stopSending⟩
  | other op =>
    simp only [Delivery.step]
    split
    · next hop => exact ⟨history, n, h.other hop⟩
    · exact ⟨history, n, h⟩

end Steps

section Run

variable {digests : Digests} {p : Principal} {s : Delivery} {history : Nat → List UsageCheckpoint} {n : Nat}

theorem agrees_after (digests : Digests) {db : Fleet} (hdb : Unused p db) (as : List Action) :
    ∃ history n, Agrees digests p (Run.after (step digests p) (start p db) as) history n :=
  Run.inv_after (I := fun s => ∃ history n, Agrees digests p s history n)
    (fun _ a h => by
      obtain ⟨history, n, h⟩ := h
      exact h.step a)
    ⟨_, 0, agrees_start hdb⟩ as

theorem Agrees.reported_eq (h : Agrees digests p s history n) (k : MeterKey) :
    s.reported k = meterOf (latest (readings history) k s.node.sequence) := by
  rw [← h.kept.meters k, reported]
  cases s.node.meters.get? k with
  | none => rfl
  | some c => rfl

theorem Agrees.stored_eq (h : Agrees digests p s history n) (k : MeterKey) :
    s.stored p k = meterOf (latest (readings history) k n) := by
  rw [stored]
  split
  · next hg =>
    rw [h.accounted.latest_eq_none fun g hg' => by rw [hg] at hg'; cases hg']
    rfl
  · next g hg =>
    split
    · next hown =>
      obtain ⟨hn, hi, hc, ht⟩ := hown
      rw [h.accounted.stored _ g hg ⟨hn, hi⟩, hc, ht]
    · next hown =>
      rw [h.accounted.latest_eq_none fun g' hg' ho hc ht => by
        rw [hg] at hg'
        cases hg'
        exact hown ⟨ho.1, ho.2, hc, ht⟩]
      rfl

theorem meterOf_le {log : Nat → MeterKey → Option (Nat × Nat)} (h : Rising log) (k : MeterKey) {m : Nat} (hmn : m ≤ n) :
    (meterOf (latest log k m)).uploaded ≤ (meterOf (latest log k n)).uploaded ∧
      (meterOf (latest log k m)).downloaded ≤ (meterOf (latest log k n)).downloaded := by
  cases hm : latest log k m with
  | none =>
    cases latest log k n with
    | none => exact ⟨le_rfl, le_rfl⟩
    | some r => exact ⟨Int.natCast_nonneg r.1, Int.natCast_nonneg r.2⟩
  | some r =>
    obtain ⟨r', hr', hle⟩ := latest_le h hmn hm
    rw [hr']
    exact ⟨Int.ofNat_le.mpr hle.1, Int.ofNat_le.mpr hle.2⟩

theorem Agrees.sequence_le (h : Agrees digests p s history n) : n ≤ s.node.sequence :=
  h.exposed.trans h.kept.exposed

theorem Agrees.queued (h : Agrees digests p s history n) (hb : b ∈ s.returned)
    (hopen : s.node.durableUsage < b.sequence) : s.node.queue.get? b.sequence = some b := by
  obtain ⟨heq, -, hexposed⟩ := h.returned b hb
  rw [h.kept.queue, if_pos ⟨hopen, hexposed.trans h.kept.exposed⟩, UsageStore.batchAt, h.nodeID, h.installationID]
  exact congrArg some heq.symm

theorem Agrees.no_conflict (h : Agrees digests p s history n) (hb : b ∈ s.returned) (peer : Peer)
    (now : Int) : s.master.ingest digests peer p b now ≠ .error .conflict := by
  intro he
  obtain ⟨heq, h1, -⟩ := h.returned b hb
  obtain ⟨hseq, hdigest⟩ := (Fleet.raises_ingest digests peer p b now s.master _ he).1 rfl
  rw [h.accounted.cursor] at hseq hdigest
  have hn : b.sequence = n := Int.ofNat_inj.mp hseq
  rw [hn] at heq h1
  rw [if_neg (by omega), heq] at hdigest
  exact hdigest rfl

theorem Agrees.in_sequence (h : Agrees digests p s history n) (hb : b.sequence ≤ n + 1) (peer : Peer)
    (now : Int) : s.master.ingest digests peer p b now ≠ .error .sequence := by
  intro he
  obtain ⟨hvalid, hlt, hcase⟩ := (Fleet.raises_ingest digests peer p b now s.master _ he).2 rfl
  rw [h.accounted.cursor] at hlt hcase
  have hmax := sequence_le_of_validBatch hvalid
  have hb : (b.sequence : Int) ≤ n + 1 := Int.ofNat_le.mpr hb
  dsimp only at hlt hcase
  omega

theorem Agrees.drained (h : Agrees digests p s history n) (hempty : ∀ m, s.node.queue.get? m = none) :
    n = s.node.sequence := by
  have hlast := hempty s.node.sequence
  rw [h.kept.queue] at hlast
  split at hlast
  · cases hlast
  · next hout =>
    have hle := h.sequence_le
    have hd := h.durable
    omega

/-- For every run: the control plane stores for a meter at most what the node reported, and has charged for it exactly
what it stores; a batch that was handed out is never a conflict, and never out of sequence when it follows what was
accounted; and when the queue is empty, the control plane stores what the node reported. -/
theorem exactly_once (digests : Digests) (p : Principal) (db : Fleet) (hdb : Unused p db) (as : List Action) :
    let s := Run.after (step digests p) (start p db) as
    (∀ k, (s.stored p k).uploaded ≤ (s.reported k).uploaded ∧ (s.stored p k).downloaded ≤ (s.reported k).downloaded) ∧
      (∀ id g, s.master.grants.get? id = some g → p.owns g → ∀ m i, s.chargedFor (id, m, i) =
        (s.master.reading (id, m, i)).uploaded + (s.master.reading (id, m, i)).downloaded) ∧
      (∀ b ∈ s.returned, s.node.durableUsage < b.sequence → s.node.queue.get? b.sequence = some b) ∧
      (∀ b ∈ s.returned, ∀ peer now, s.master.ingest digests peer p b now ≠ .error .conflict) ∧
      (∀ b ∈ s.returned, (b.sequence : Int) ≤ (cursor p s.master).sequence + 1 →
        ∀ peer now, s.master.ingest digests peer p b now ≠ .error .sequence) ∧
      (∀ b ∈ s.ordered, ∀ peer now, s.master.ingest digests peer p b now ≠ .error .sequence) ∧
      ((∀ n, s.node.queue.get? n = none) → ∀ k, s.stored p k = s.reported k) := by
  intro s
  obtain ⟨history, n, h⟩ := agrees_after digests hdb as
  refine ⟨fun k => ?_, h.accounted.charged, fun b => h.queued, fun b => h.no_conflict, fun b _ hb => h.in_sequence ?_,
    fun b hb => h.in_sequence (h.ordered b hb).2, fun hempty k => ?_⟩
  · rw [h.stored_eq, h.reported_eq]
    exact meterOf_le h.kept.rising k h.sequence_le
  · rw [h.accounted.cursor] at hb
    exact Int.ofNat_le.mp hb
  · rw [h.stored_eq, h.reported_eq, h.drained hempty]

/-- A node reports three bytes up and four down, the control plane grants it credit and accounts the batch, and the
receipt empties the queue: seven bytes are charged, and both sides have the same reading. -/
theorem exactly_once_receipt :
    let p : Principal := ⟨"", Sample.node, Sample.node, ""⟩
    let c : UsageCheckpoint := ⟨Sample.client, Sample.client, "edge", Sample.node, 3, 4, 1, Sample.grant⟩
    let s := Run.after (step Sample.digests p) (start p (Sample.fleet 0)) [.append [c], .pending 1, .send,
      .other (.reserve (Sample.request 50) "" 0),
      .deliver ⟨Sample.node, Sample.node, 1, [c]⟩ ⟨none, fun _ => none⟩ 5, .receive ⟨1, 1⟩]
    Unused p (Sample.fleet 0) ∧ s.charged = [((Sample.grant, "edge", Sample.node), 7)] ∧
      s.stored p c.meter = s.reported c.meter := by
  intro p c s
  have hopening := Sample.opening_fleet (show (0 : Int) ≤ 0 by decide) (by decide)
  have hdb : Unused p (Sample.fleet 0) := ⟨hopening.sound, rfl, fun _ _ hg => nomatch hg⟩
  have hrun : s.charged = [((Sample.grant, "edge", Sample.node), 7)] ∧ s.node.queue.entries = [] := by decide +kernel
  refine ⟨hdb, hrun.1, (exactly_once Sample.digests p _ hdb _).2.2.2.2.2.2 (fun n => ?_) c.meter⟩
  show s.node.queue.get? n = none
  rw [get?, AList.lookup, hrun.2]
  rfl

end Run

end Delivery

end Pui
