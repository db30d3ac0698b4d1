import Pui.Consistency

/-!
# Runs of the governor store

Each operation of the store keeps it consistent, whatever becomes of its writes, and a database that a process left
can always be opened again.
-/

namespace Pui

open Crash Crash.Prog Guard List

namespace Governor

variable {law : String → Option Record → Prop} {J : String → Record → Memory → Prop} {s : Store} {u : PolicyUpdate} {row : Option Record} {r' : Record}
  {st : Status Store Database}

theorem ne_empty_of_valid {g : Grant} (h : g.validate = .ok ()) : g.id ≠ "" := by
  simp only [Grant.validate, unit_bind_eq_ok, refuse_eq_ok, not_or, Bool.not_eq_true'] at h
  intro he
  rw [he] at h
  exact absurd h.1.1 (by decide)

theorem Consistent.ne_empty_of_index (h : Consistent law J s) {client id : String}
    (hc : s.clients.get? client = some id) : id ≠ "" := by
  obtain ⟨r, hr, -, -⟩ := (h.index client id).mp hc
  have hv := ne_empty_of_valid (h.durable.valid id r hr)
  rwa [h.durable.key id r hr] at hv

def Applied (row : Option Record) (g : Grant) (r' : Record) : Prop :=
  row = none ∧ r' = .fresh g ∨
    ∃ r, row = some r ∧ r.suspended = false ∧ r.grant.clientID = g.clientID ∧
      checkApply r.grant.policy (retainCredit g.policy r.grant.policy) = .ok () ∧
      r' = r.withPolicy (retainCredit g.policy r.grant.policy)

theorem apply_keeps (hf : Follows law J) (h : Consistent law J s) (g : Grant) (hlaw : ∀ r', Applied (s.row g.id) g r' → law g.id (some r')) :
    Spec (Store.apply g) s (fun _ t => Consistent law J t ∧ ∃ r', Applied (s.row g.id) g r' ∧ Settled s t r') (Stops law J) := by
  unfold Store.apply
  simp only [spec_failIf_bind, spec_read_bind]
  refine ⟨fun _ => h, fun hv => ⟨fun _ => h, fun hi => ⟨fun _ => h, fun hc => ⟨fun _ => h, fun hs => ?_⟩⟩⟩⟩
  have hv : g.validate = .ok () := not_not.mp hv
  have hi : g.policy.enabled = true → ∀ id, s.clients.get? g.clientID = some id → id = g.id := by
    intro he id hid
    by_contra hne
    exact hi ⟨he, by simp [hid, hne, h.ne_empty_of_index hid]⟩
  cases hm : s.accounts.get? g.id with
  | none =>
    have hr := h.row_eq_none hm
    refine (create_keeps hf h hv hr ?_ (hlaw _ (.inl ⟨hr, rfl⟩))).mono ?_ fun _ _ h => h
    · intro he
      cases hid : s.clients.get? g.clientID with
      | none => rfl
      | some id =>
        obtain ⟨r, hr', -⟩ := (h.index _ _).mp hid
        rw [hi he id hid, hr] at hr'
        cases hr'
    · exact fun _ t ht => ⟨ht.1, _, .inl ⟨hr, rfl⟩, ht.2⟩
  | some m =>
    obtain ⟨r, hr⟩ := h.exists_row hm
    have hid : r.grant.id ≠ "" := ne_empty_of_valid (h.durable.valid _ r hr)
    simp only [hr, Option.any_some, decide_eq_true_eq, not_and, not_or, not_not, Bool.not_eq_true] at hc hs
    obtain ⟨hcl, -⟩ := hc hid
    have hpol := (h.agree _ m r hm hr).policy
    have happ : ∀ p, p = retainCredit g.policy m.account.policy ∧ p.validate = .ok () ∧
        checkApply m.account.policy p = .ok () → Applied (s.row g.id) g (r.withPolicy p) := by
      rintro p ⟨rfl, -, hck⟩
      rw [hpol] at hck ⊢
      exact .inr ⟨r, hr, hs, hcl, hck, rfl⟩
    refine (change_keeps (b := g.policy.enabled) hf h hr hm hcl
      (Cell.apply_changes rfl (retainCredit g.policy m.account.policy)) ?_).mono ?_ fun _ _ h => h
    · rintro p ⟨rfl, hpv, hck⟩
      refine ⟨hs, hpv, ?_, enabled_retainCredit _ _, ?_, hlaw _ (happ _ ⟨rfl, hpv, hck⟩)⟩
      · rw [term_of_checkApply hck]
        exact congrArg Policy.term hpol
      · rw [enabled_retainCredit]
        exact hi
    · rintro _ t ⟨ht, p, ⟨rfl, hpv, hck⟩, hset⟩
      exact ⟨ht, _, happ _ ⟨rfl, hpv, hck⟩, hset⟩

theorem applyCredit_keeps (hf : Follows law J) (h : Consistent law J s) (credits : List Credit) (env : Nat → Surroundings)
    (hlaw : ∀ c ∈ credits, ∀ r, r.suspended = false → r.grant.policy.revision = c.policyRevision →
      creditAdvance r.grant.policy (r.grant.policy.withCredit c.creditRevision c.creditCeiling) = true →
      law c.grantID (some r) →
      law c.grantID (some (r.withPolicy (r.grant.policy.withCredit c.creditRevision c.creditCeiling)))) :
    Spec (Store.applyCredit credits env) s (fun _ => Consistent law J) (Stops law J) := by
  unfold Store.applyCredit
  simp only [spec_failIf_bind, spec_read_bind]
  refine ⟨fun _ => h, fun _ => ⟨fun _ => h, fun _ => ?_⟩⟩
  refine (Spec.forM (I := fun l t => Consistent law J t ∧ ∀ e ∈ l, e.1 ∈ credits) ?_ ?_).mono
    (fun _ _ ht => ht.1) fun _ _ h => h
  · rintro ⟨c, i⟩ l t ⟨ht, hl⟩
    have hc : c ∈ credits := hl (c, i) (by simp)
    have hl' : ∀ e ∈ l, e.1 ∈ credits := fun e he => hl e (mem_cons_of_mem _ he)
    simp only [spec_failIf_bind]
    refine ⟨fun _ => ht, fun _ => ?_⟩
    cases hm : t.accounts.get? c.grantID with
    | none =>
      refine Spec.focus (fun _ => ht) fun cell hcell => ?_
      simp [Store.cell, hm] at hcell
    | some m =>
      obtain ⟨r, hr⟩ := ht.exists_row hm
      obtain ⟨hpol, hqua, -⟩ := ht.agree _ m r hm hr
      refine (credit_keeps hf ht hr hm (Cell.applyCredit_changes rfl _ _ _ _ _) ?_).mono
        (fun _ t ht => ⟨ht, hl'⟩) fun _ _ h => h
      rintro p ⟨rfl, hrev, hadv, hck⟩ hne
      simp only [Cell.account, hpol, hqua] at hrev hadv hck hne ⊢
      obtain ⟨hadv, hs⟩ := hadv.resolve_left hne
      have hpv := policy_valid (ht.durable.valid _ r hr)
      exact ⟨hs, validate_of_creditAdvance hpv hadv, rfl, rfl,
        hlaw c hc r hs hrev.symm hadv (hr ▸ ht.durable.lawful _)⟩
  · exact ⟨h, fun e he => fst_mem_of_mem_zipIdx he⟩

structure Ready (s : Store) (u : PolicyUpdate) : Prop where
  valid : u.grant.validate = .ok ()
  client : ∀ r, s.row u.grantID = some r → r.grant.clientID = u.clientID
  free : s.row u.grantID = none → s.clients.get? u.clientID = none

theorem ready_of_validateUpdate (h : Consistent law J s) {env : Surroundings} {seen : List PolicyUpdate} (hu : s.validateUpdate env seen u = .ok ()) :
    Ready s u ∧ u.grantID ∉ seen.map PolicyUpdate.grantID ∧ u.clientID ∉ seen.map PolicyUpdate.clientID := by
  simp only [Store.validateUpdate, unit_bind_eq_ok, refuse_eq_ok, not_or, not_not] at hu
  obtain ⟨-, ⟨hv, hg, hc, -⟩, hrow⟩ := hu
  refine ⟨⟨hv, ?_, ?_⟩, hg, hc⟩
  · intro r hr
    have hne : r.grant.id ≠ "" := ne_empty_of_valid (h.durable.valid _ r hr)
    have hfilter : (some r).filter (fun r => decide (r.grant.id ≠ "")) = some r := by simp [hne]
    rw [hr, hfilter] at hrow
    simp only [unit_bind_eq_ok, refuse_eq_ok, not_or, not_not] at hrow
    exact hrow.1.2.1
  · intro hr
    rw [hr] at hrow
    simp only [Option.filter_none, unit_bind_eq_ok, refuse_eq_ok] at hrow
    cases hcl : s.clients.get? u.clientID with
    | none => rfl
    | some id =>
      rw [hcl] at hrow
      exact absurd (h.ne_empty_of_index hcl) (by simpa using hrow.1)

theorem ready_of_validateUpdates (h : Consistent law J s) {env : Nat → Surroundings} {updates : List PolicyUpdate} :
    ∀ {seen : List PolicyUpdate}, s.validateUpdates env seen updates = .ok () →
      (∀ u ∈ updates, Ready s u ∧ u.grantID ∉ seen.map PolicyUpdate.grantID ∧
        u.clientID ∉ seen.map PolicyUpdate.clientID) ∧
      (updates.map PolicyUpdate.grantID).Nodup ∧ (updates.map PolicyUpdate.clientID).Nodup := by
  induction updates with
  | nil => simp
  | cons u rest ih =>
    intro seen hu
    simp only [Store.validateUpdates, unit_bind_eq_ok] at hu
    obtain ⟨hrest, hg, hc⟩ := ih hu.2
    have hu := ready_of_validateUpdate h hu.1
    simp only [map_append, map_cons, map_nil, mem_append, mem_singleton, not_or] at hrest
    refine ⟨?_, ?_, ?_⟩
    · intro v hv
      rcases mem_cons.mp hv with rfl | hv
      · exact hu
      · exact ⟨(hrest v hv).1, (hrest v hv).2.1.1, (hrest v hv).2.2.1⟩
    · refine nodup_cons.mpr ⟨?_, hg⟩
      intro hm
      obtain ⟨v, hv, he⟩ := mem_map.mp hm
      exact (hrest v hv).2.1.2 he
    · refine nodup_cons.mpr ⟨?_, hc⟩
      intro hm
      obtain ⟨v, hv, he⟩ := mem_map.mp hm
      exact (hrest v hv).2.2.2 he

def Updated (row : Option Record) (u : PolicyUpdate) (r' : Record) : Prop :=
  row = none ∧ r' = .fresh u.grant ∨
    ∃ r q, row = some r ∧ r.suspended = false ∧ r.grant.clientID = u.clientID ∧
      mergeAuthority r.grant.policy u.policy = .ok q ∧ r' = r.withPolicy q

theorem update_keeps (hf : Follows law J) (h : Consistent law J s) (u : PolicyUpdate) (hu : Ready s u) (env : Surroundings)
    (hlaw : ∀ r', Updated (s.row u.grantID) u r' → law u.grantID (some r')) :
    Spec (do
      match s.accounts.get? u.grantID with
      | some _ => Store.onAccount u.grantID (Cell.applyAuthority env.now u.policy)
      | none => Store.create (.fresh u.grant)
      update fun s => s.index u.policy.enabled u.clientID u.grantID) s
      (fun _ t => Consistent law J t ∧ ∃ r', Updated (s.row u.grantID) u r' ∧ Settled s t r') (Stops law J) := by
  cases hm : s.accounts.get? u.grantID with
  | none =>
    have hr := h.row_eq_none hm
    refine (create_keeps (g := u.grant) hf h hu.valid hr (fun _ => hu.free hr) (hlaw _ (.inl ⟨hr, rfl⟩))).mono ?_
      fun _ _ h => h
    exact fun _ t ht => ⟨ht.1, _, .inl ⟨hr, rfl⟩, ht.2⟩
  | some m =>
    obtain ⟨r, hr⟩ := h.exists_row hm
    obtain ⟨hpol, hqua, -⟩ := h.agree _ m r hm hr
    have hpv := policy_valid (h.durable.valid _ r hr)
    have hupd : ∀ q, m.account.quarantined = false ∧ mergeAuthority m.account.policy u.policy = .ok q ∧
        checkApply m.account.policy q = .ok () → Updated (s.row u.grantID) u (r.withPolicy q) := by
      rintro q ⟨hs, hq, -⟩
      exact .inr ⟨r, q, hr, hqua ▸ hs, hu.client r hr, hpol ▸ hq, rfl⟩
    refine (change_keeps (b := u.policy.enabled) hf h hr hm (hu.client r hr)
      (Cell.applyAuthority_changes rfl env.now u.policy) ?_).mono ?_ fun _ _ h => h
    · intro q hq
      obtain ⟨hs, hmerge, hck⟩ := id hq
      simp only [Cell.account, hpol, hqua] at hs hmerge hck
      refine ⟨hs, validate_of_mergeAuthority hpv hmerge, term_of_checkApply hck, enabled_of_mergeAuthority hmerge, ?_,
        hlaw _ (hupd q hq)⟩
      -- A merged policy is enabled only where the current one is, so the index has this grant already.
      intro he id' hid'
      have hlive : r.live := by
        refine ⟨?_, hs⟩
        rcases eq_or_advance_of_mergeAuthority hmerge with rfl | hadv
        · exact he
        · exact (authorityAdvance_eq_true.mp hadv).2.2.1 he
      have hself := (h.index u.clientID u.grantID).mpr ⟨r, hr, hu.client r hr, hlive⟩
      exact Option.some.inj (hid'.symm.trans hself)
    · rintro _ t ⟨ht, q, hq, hset⟩
      exact ⟨ht, _, hupd q hq, hset⟩

theorem Ready.of_settled {t : Store} {v : PolicyUpdate} {r : Record} (h : Ready s v) (hset : Settled s t r)
    (hid : r.grant.id = u.grantID) (hcl : r.grant.clientID = u.clientID) (hg : v.grantID ≠ u.grantID)
    (hc : v.clientID ≠ u.clientID) : Ready t v := by
  have hrow : t.row v.grantID = s.row v.grantID := by rw [hset.1, hid, if_neg hg]
  have hclient : t.clients.get? v.clientID = s.clients.get? v.clientID := hset.2 _ (hcl ▸ hc)
  exact ⟨h.valid, hrow ▸ h.client, hrow ▸ hclient ▸ h.free⟩

theorem Updated.grant_id (h : Updated row u r')
    (hkey : ∀ r, row = some r → r.grant.id = u.grantID) : r'.grant.id = u.grantID := by
  rcases h with ⟨-, rfl⟩ | ⟨r, q, hr, -, -, -, rfl⟩
  · rfl
  · exact hkey r hr

theorem Updated.grant_clientID (h : Updated row u r') :
    r'.grant.clientID = u.clientID := by
  rcases h with ⟨-, rfl⟩ | ⟨r, q, -, -, hc, -, rfl⟩
  · rfl
  · exact hc

theorem applyAuthority_keeps (hf : Follows law J) (h : Consistent law J s) (updates : List PolicyUpdate)
    (checking applying : Nat → Surroundings)
    (hlaw : ∀ u ∈ updates, ∀ row r', law u.grantID row → Updated row u r' → law u.grantID (some r')) :
    Spec (Store.applyAuthority updates checking applying) s (fun _ t => Consistent law J t ∧
      ∀ u ∈ updates, ∃ row r', law u.grantID row ∧ Updated row u r' ∧ t.row u.grantID = some r') (Stops law J) := by
  unfold Store.applyAuthority
  simp only [spec_read_bind, spec_ofExcept_bind]
  refine ⟨fun _ _ => h, fun _ hval => ?_⟩
  simp only [Store.validateAuthorityLocked, unit_bind_eq_ok] at hval
  obtain ⟨hready, hg, hc⟩ := ready_of_validateUpdates h hval.2
  refine (Spec.forM (I := fun l t => Consistent law J t ∧ (∀ e ∈ l, e.1 ∈ updates ∧ Ready t e.1) ∧
    (l.map fun e => e.1.grantID).Nodup ∧ (l.map fun e => e.1.clientID).Nodup ∧
    ∀ u ∈ updates, u ∈ l.map Prod.fst ∨ (u.grantID ∉ (l.map fun e => e.1.grantID) ∧
      ∃ row r', law u.grantID row ∧ Updated row u r' ∧ t.row u.grantID = some r')) ?_ ?_).mono
    (fun _ t ht => ⟨ht.1, fun u hu => ((ht.2.2.2.2 u hu).resolve_left not_mem_nil).2⟩) fun _ _ h => h
  · rintro ⟨u, i⟩ l t ⟨ht, hl, hlg, hlc, hdone⟩
    obtain ⟨hmem, hu⟩ := hl (u, i) (by simp)
    simp only [map_cons, nodup_cons] at hlg hlc
    simp only [spec_failIf_bind, spec_read_bind]
    refine ⟨fun _ => ht, fun _ => ?_⟩
    refine (update_keeps hf ht u hu (applying i) fun r' hr' =>
      hlaw u hmem _ r' (ht.durable.lawful _) hr').mono ?_ fun _ _ h => h
    rintro _ t' ⟨ht', r', hr', hset⟩
    have hid := hr'.grant_id fun r hr => ht.durable.key _ r hr
    refine ⟨ht', fun e he => ?_, hlg.2, hlc.2, fun v hv => ?_⟩
    · obtain ⟨hmem', hv⟩ := hl e (mem_cons_of_mem _ he)
      refine ⟨hmem', hv.of_settled hset hid hr'.grant_clientID ?_ ?_⟩
      · exact fun heq => hlg.1 (mem_map.mpr ⟨e, he, heq⟩)
      · exact fun heq => hlc.1 (mem_map.mpr ⟨e, he, heq⟩)
    · rcases hdone v hv with hmem | ⟨hnot, row, r₁, hlaw₁, hupdated, hrow⟩
      · rcases mem_cons.mp hmem with rfl | hmem
        · exact .inr ⟨hlg.1, t.row v.grantID, r', ht.durable.lawful _, hr', by rw [hset.1, if_pos hid.symm]⟩
        · exact .inl hmem
      · rw [map_cons, mem_cons, not_or] at hnot
        refine .inr ⟨hnot.2, row, r₁, hlaw₁, hupdated, ?_⟩
        rw [hset.1, if_neg (hid ▸ hnot.1), hrow]
  · refine ⟨h, ?_, ?_, ?_, fun u hu => .inl ?_⟩
    · intro e he
      have hmem := fst_mem_of_mem_zipIdx he
      exact ⟨hmem, (hready e.1 hmem).1⟩
    · rwa [show (updates.zipIdx.map fun e => e.1.grantID) = updates.map PolicyUpdate.grantID by
        rw [← zipIdx_map_fst 0 updates, map_map]; simp [Function.comp_def]]
    · rwa [show (updates.zipIdx.map fun e => e.1.clientID) = updates.map PolicyUpdate.clientID by
        rw [← zipIdx_map_fst 0 updates, map_map]; simp [Function.comp_def]]
    · rwa [zipIdx_map_fst]

theorem suspendRows_eq_ok {wanted : String → Bool} {ids : List String} {t : Store}
    (hk : ∀ id r, s.row id = some r → r.grant.id = id) (h : Store.suspendRows wanted s ids = .ok t) :
    (∀ id, t.row id = if id ∈ ids ∧ wanted id = false then (s.row id).map ({ · with suspended := true })
      else s.row id) ∧
      t.db.journalID = s.db.journalID ∧ t.accounts = s.accounts ∧ t.clients = s.clients := by
  induction ids generalizing s with
  | nil =>
    simp only [Store.suspendRows, Except.ok.injEq] at h
    subst h
    simp
  | cons id ids ih =>
    unfold Store.suspendRows at h
    split at h
    · next hw =>
      obtain ⟨h1, h2⟩ := ih hk h
      refine ⟨fun id' => ?_, h2⟩
      rw [h1]
      by_cases hid : id' = id
      · subst hid
        simp [hw]
      · simp [hid]
    · next hw =>
      simp only [bind_eq_ok, found_eq_ok] at h
      obtain ⟨r, hr, h⟩ := h
      have hkey := hk id r hr
      have hsave : ∀ id', (s.save { r with suspended := true }).row id' =
          if id' = id then some { r with suspended := true } else s.row id' := by
        intro id'
        simp [Store.save, Store.row, Table.get?_put, hkey]
      have hk' : ∀ id' r', (s.save { r with suspended := true }).row id' = some r' → r'.grant.id = id' := by
        intro id' r' hr'
        rw [hsave] at hr'
        split at hr'
        · next hid =>
          cases hr'
          exact hkey.trans hid.symm
        · exact hk id' r' hr'
      obtain ⟨h1, h2⟩ := ih hk' h
      refine ⟨fun id' => ?_, h2⟩
      rw [h1, hsave]
      by_cases hid : id' = id
      · subst hid
        simp [hw, hr]
      · simp [hid]

theorem suspendOthers_keeps (hf : Follows law J) (h : Consistent law J s) (wanted : List String)
    (hlaw : ∀ id r, id ∉ wanted → law id (some r) → law id (some { r with suspended := true })) :
    Spec (Store.suspendOthers wanted) s (fun _ => Consistent law J) (Stops law J) := by
  -- Rows and accounts are known under the same identifiers, so every unwanted row is suspended.
  have hrows : ∀ t, Store.suspendRows (· ∈ wanted) s s.accounts.keys = .ok t →
      (∀ id, t.row id = if id ∈ wanted then s.row id else (s.row id).map ({ · with suspended := true })) ∧
        t.db.journalID = s.db.journalID ∧ t.accounts = s.accounts ∧ t.clients = s.clients := by
    intro t ht
    obtain ⟨h1, h2⟩ := suspendRows_eq_ok h.durable.key ht
    refine ⟨fun id => ?_, h2⟩
    rw [h1]
    by_cases hw : id ∈ wanted
    · simp [hw]
    · have hk : id ∈ s.accounts.keys ↔ (s.row id).isSome = true := by
        rw [← AList.mem_keys, ← AList.lookup_isSome]
        exact iff_of_eq (congrArg (· = true) (h.known id))
      cases hr : s.row id with
      | none => simp [hw]
      | some r => simp [hw, hk, hr]
  have hcase : ∀ t : Store, (∀ id, t.row id = if id ∈ wanted then s.row id
      else (s.row id).map ({ · with suspended := true })) → ∀ id r', t.row id = some r' →
      ∃ r, s.row id = some r ∧ (id ∈ wanted ∧ r' = r ∨ id ∉ wanted ∧ r' = { r with suspended := true }) := by
    intro t hrow id r' hr'
    rw [hrow] at hr'
    split at hr'
    · next hw => exact ⟨r', hr', .inl ⟨hw, rfl⟩⟩
    · next hw =>
      obtain ⟨r, hr, rfl⟩ := Option.map_eq_some_iff.mp hr'
      exact ⟨r, hr, .inr ⟨hw, rfl⟩⟩
  have hdur : ∀ t, Store.suspendRows (· ∈ wanted) s s.accounts.keys = .ok t → Durable law t.db := by
    intro t ht
    obtain ⟨hrow, hj, -, -⟩ := hrows t ht
    refine ⟨hj ▸ h.durable.journal, ?_, ?_, ?_, ?_⟩
    · intro id r' hr'
      obtain ⟨r, hr, ⟨-, rfl⟩ | ⟨-, rfl⟩⟩ := hcase t hrow id r' hr'
      · exact h.durable.key id _ hr
      · exact h.durable.key id r hr
    · intro id r' hr'
      obtain ⟨r, hr, ⟨-, rfl⟩ | ⟨-, rfl⟩⟩ := hcase t hrow id r' hr'
      · exact h.durable.valid id _ hr
      · exact h.durable.valid id r hr
    · intro id r₁ id' r₂ h₁ h₂ hl₁ hl₂ hc
      obtain ⟨r, hr, ⟨-, rfl⟩ | ⟨-, rfl⟩⟩ := hcase t hrow id r₁ h₁
      · obtain ⟨r', hr', ⟨-, rfl⟩ | ⟨-, rfl⟩⟩ := hcase t hrow id' r₂ h₂
        · exact h.durable.unique id _ id' _ hr hr' hl₁ hl₂ hc
        · cases hl₂.2
      · cases hl₁.2
    · intro id
      change law id (t.row id)
      have hl : law id (s.row id) := h.durable.lawful id
      rw [hrow]
      split
      · exact hl
      · next hw =>
        cases hr : s.row id with
        | none =>
          rw [hr] at hl
          exact hl
        | some r =>
          rw [hr] at hl
          exact hlaw id r hw hl
  unfold Store.suspendOthers
  refine Spec.bind (Q := fun _ t => Store.suspendRows (· ∈ wanted) s s.accounts.keys = .ok t)
    (Spec.write h ?_ ?_) ?_
  · exact fun e _ => ⟨h, h.durable⟩
  · intro _ t ht
    simp only [bind_eq_ok, pure_eq_ok, Prod.mk.injEq] at ht
    obtain ⟨t', ht, -, rfl⟩ := ht
    exact ⟨ht, hdur _ ht⟩
  · intro _ t ht
    obtain ⟨hrow, hj, hacc, hcl⟩ := hrows t ht
    refine (spec_update _).mpr ⟨hdur t ht, ?_, ?_, ?_⟩
    · intro id
      simp only [Table.get?_mapRows, Option.isSome_map, hacc, h.known id]
      change (s.row id).isSome = (t.row id).isSome
      rw [hrow]
      split <;> simp
    · intro id m r' hm hr'
      simp only [Table.get?_mapRows, hacc, Option.map_eq_some_iff] at hm
      obtain ⟨m, hm, rfl⟩ := hm
      obtain ⟨r, hr, ⟨hw, rfl⟩ | ⟨hw, rfl⟩⟩ := hcase t hrow id r' hr'
      · rw [if_pos hw]
        exact h.agree id m _ hm hr
      · rw [if_neg hw]
        obtain ⟨hpol, -, hj⟩ := h.agree id m r hm hr
        exact ⟨hpol, rfl, hf.suspend id r m hj⟩
    · intro client id
      simp only [Table.get?_keep, hcl, Option.filter_eq_some_iff, decide_eq_true_eq]
      change _ ↔ ∃ r, t.row id = some r ∧ r.grant.clientID = client ∧ r.live
      rw [h.index]
      constructor
      · rintro ⟨⟨r, hr, hc, hl⟩, hw⟩
        exact ⟨r, by rw [hrow, if_pos hw, hr], hc, hl⟩
      · rintro ⟨r', hr', hc, hl⟩
        obtain ⟨r, hr, ⟨hw, rfl⟩ | ⟨-, rfl⟩⟩ := hcase t hrow id r' hr'
        · exact ⟨⟨r', hr, hc, hl⟩, hw⟩
        · cases hl.2

theorem Applied.grant_id {g : Grant} (h : Applied row g r')
    (hkey : ∀ r, row = some r → r.grant.id = g.id) : r'.grant.id = g.id := by
  rcases h with ⟨-, rfl⟩ | ⟨r, hr, -, -, -, rfl⟩
  · rfl
  · exact hkey r hr

theorem reconcile_keeps (hf : Follows law J) (h : Consistent law J s) (grants : List Grant)
    (hsus : ∀ id r, id ∉ grants.map Grant.id → law id (some r) → law id (some { r with suspended := true }))
    (happ : ∀ g ∈ grants, ∀ row r', law g.id row → Applied row g r' → law g.id (some r')) :
    Spec (Store.reconcile grants) s (fun _ t => Consistent law J t ∧
      ∀ g ∈ grants, ∃ row r', law g.id row ∧ Applied row g r' ∧ t.row g.id = some r') (Stops law J) := by
  unfold Store.reconcile
  simp only [spec_failIf_bind]
  refine ⟨fun _ => h, fun hchecks => Spec.bind (suspendOthers_keeps hf h _ hsus) fun _ t ht => ?_⟩
  simp only [not_or, not_not] at hchecks
  obtain ⟨-, hnodup, -⟩ := hchecks
  -- What is done stays done, because no later grant has the same identifier.
  refine (Spec.forM (I := fun l t => Consistent law J t ∧ (l.map Grant.id).Nodup ∧ (∀ g ∈ l, g ∈ grants) ∧
    ∀ g ∈ grants, g ∈ l ∨ (g.id ∉ l.map Grant.id ∧
      ∃ row r', law g.id row ∧ Applied row g r' ∧ t.row g.id = some r')) ?_ ?_).mono
    (fun _ t ht => ⟨ht.1, fun g hg => ((ht.2.2.2 g hg).resolve_left not_mem_nil).2⟩) fun _ _ h => h
  · rintro g l t ⟨ht, hids, hl, hdone⟩
    rw [map_cons, nodup_cons] at hids
    have hg : g ∈ grants := hl g (by simp)
    refine (apply_keeps hf ht g fun r' hr' => happ g hg _ r' (ht.durable.lawful _) hr').mono ?_ fun _ _ h => h
    rintro _ t' ⟨ht', r', hr', hset⟩
    have hid := hr'.grant_id fun r hr => ht.durable.key _ r hr
    refine ⟨ht', hids.2, fun g' hg' => hl g' (mem_cons_of_mem _ hg'), fun g' hg' => ?_⟩
    rcases hdone g' hg' with hmem | ⟨hnot, row, r₁, hlaw, happlied, hrow⟩
    · rcases mem_cons.mp hmem with rfl | hmem
      · exact .inr ⟨hids.1, t.row g'.id, r', ht.durable.lawful _, hr', by rw [hset.1, if_pos hid.symm]⟩
      · exact .inl hmem
    · rw [map_cons, mem_cons, not_or] at hnot
      refine .inr ⟨hnot.2, row, r₁, hlaw, happlied, ?_⟩
      rw [hset.1, if_neg (hid ▸ hnot.1), hrow]
  · exact ⟨ht, hnodup, fun g hg => hg, fun g hg => .inl hg⟩

structure Restored (done : List (Sigma fun _ : String => Record)) (s : Store) : Prop where
  known : ∀ id, (s.accounts.get? id).isSome = true ↔ ∃ r, ⟨id, r⟩ ∈ done
  agree : ∀ id m r, s.accounts.get? id = some m → ⟨id, r⟩ ∈ done → r.restore = .ok m
  index : ∀ client id, s.clients.get? client = some id ↔ ∃ r, ⟨id, r⟩ ∈ done ∧ r.grant.clientID = client ∧ r.live

theorem restore_next {done : List (Sigma fun _ : String => Record)} (hs : Restored done s) {r : Record}
    (hv : r.grant.validate = .ok ()) (hnew : ∀ r', ⟨r.grant.id, r'⟩ ∉ done)
    (hu : r.live → ∀ id r', ⟨id, r'⟩ ∈ done → r'.live → r'.grant.clientID ≠ r.grant.clientID) :
    ∃ t, s.restore r = .ok t ∧ Restored (done ++ [⟨r.grant.id, r⟩]) t ∧ t.db = s.db ∧ t.journalID = s.journalID := by
  obtain ⟨m, hm⟩ := Record.exists_restore (policy_valid hv)
  have hlive : (r.grant.policy.enabled = true ∧ (!r.suspended) = true) ↔ r.live := by simp [Record.live]
  refine ⟨{ s with
    clients := if r.grant.policy.enabled = true ∧ (!r.suspended) = true then s.clients.put r.grant.clientID r.grant.id
      else s.clients
    accounts := s.accounts.put r.grant.id m }, ?_, ⟨?_, ?_, ?_⟩, rfl, rfl⟩
  · simp only [Store.restore, bind_eq_ok, refuse_eq_ok, pure_eq_ok]
    refine ⟨(), not_not.mpr hv, (), ?_, m, hm, rfl⟩
    rintro ⟨he, hsu, hsome⟩
    obtain ⟨id, hid⟩ := Option.isSome_iff_exists.mp hsome
    obtain ⟨r', hr', hc, hl⟩ := (hs.index _ _).mp hid
    exact hu (hlive.mp ⟨he, hsu⟩) id r' hr' hl hc
  · intro id
    rw [Table.get?_put]
    split
    · next hid => simp [hid]
    · next hid =>
      rw [hs.known]
      simp [hid]
  · intro id m' r' hm' hr'
    rw [Table.get?_put] at hm'
    split at hm'
    · next hid =>
      cases hm'
      subst hid
      rcases mem_append.mp hr' with hr' | hr'
      · exact absurd hr' (hnew r')
      · simp only [mem_singleton, Sigma.mk.injEq, heq_eq_eq, true_and] at hr'
        exact hr' ▸ hm
    · next hid =>
      refine hs.agree id m' r' hm' ?_
      simpa [hid] using hr'
  · intro client id
    simp only [mem_append, mem_singleton, Sigma.mk.injEq, heq_eq_eq]
    by_cases hl : r.live
    · rw [if_pos (hlive.mpr hl), Table.get?_put]
      by_cases hcl : client = r.grant.clientID
      · subst hcl
        rw [if_pos rfl]
        constructor
        · rintro ⟨⟩
          exact ⟨r, .inr ⟨rfl, rfl⟩, rfl, hl⟩
        · rintro ⟨r', hr' | ⟨rfl, -⟩, hc, hl'⟩
          · exact absurd hc (hu hl id r' hr' hl')
          · rfl
      · rw [if_neg hcl, hs.index]
        constructor
        · rintro ⟨r', hr', hc, hl'⟩
          exact ⟨r', .inl hr', hc, hl'⟩
        · rintro ⟨r', hr' | ⟨-, rfl⟩, hc, hl'⟩
          · exact ⟨r', hr', hc, hl'⟩
          · exact absurd hc.symm hcl
    · rw [if_neg (mt hlive.mp hl), hs.index]
      constructor
      · rintro ⟨r', hr', hc, hl'⟩
        exact ⟨r', .inl hr', hc, hl'⟩
      · rintro ⟨r', hr' | ⟨-, rfl⟩, hc, hl'⟩
        · exact ⟨r', hr', hc, hl'⟩
        · exact absurd hl' hl

theorem restore_all {db : Database} (hd : Durable law db) (todo : List (Sigma fun _ : String => Record)) :
    ∀ {d : List (Sigma fun _ : String => Record)} {s : Store}, d ++ todo = db.grants.entries → Restored d s →
      ∃ t, todo.foldlM (fun s e => do
          refuse (e.2.grant.id ≠ e.1) NodeError.grant
          s.restore e.2) s = .ok t ∧ Restored db.grants.entries t ∧ t.db = s.db ∧ t.journalID = s.journalID := by
  induction todo with
  | nil =>
    intro d s he hs
    rw [append_nil] at he
    exact ⟨s, rfl, he ▸ hs, rfl, rfl⟩
  | cons e todo ih =>
    intro d s he hs
    obtain ⟨id, r⟩ := e
    have hdone : ∀ id' r', ⟨id', r'⟩ ∈ d → db.grants.get? id' = some r' := fun id' r' h' =>
      Table.mem_entries.mp (he ▸ mem_append_left _ h')
    have hr : db.grants.get? id = some r := Table.mem_entries.mp (he ▸ mem_append_right _ (by simp))
    have hkey : r.grant.id = id := hd.key id r hr
    have hnodup : (d ++ ⟨id, r⟩ :: todo).Nodup := he ▸ db.grants.nodupKeys.nodup
    have hnew : ∀ r', ⟨r.grant.id, r'⟩ ∉ d := by
      intro r' h'
      rw [hkey] at h'
      have hrr : r' = r := Option.some.inj ((hdone id r' h').symm.trans hr)
      exact disjoint_of_nodup_append hnodup (hrr ▸ h') (by simp)
    have hu : r.live → ∀ id' r', ⟨id', r'⟩ ∈ d → r'.live → r'.grant.clientID ≠ r.grant.clientID := by
      intro hl id' r' h' hl' hc
      have hid := hd.unique id' r' id r (hdone id' r' h') hr hl' hl hc
      rw [hid, ← hkey] at h'
      exact hnew r' h'
    obtain ⟨t, ht, hres, hdb, hj⟩ := restore_next hs (hd.valid id r hr) hnew hu
    rw [hkey] at hres
    obtain ⟨t', ht', hres', hdb', hj'⟩ := ih (d := d ++ [⟨id, r⟩]) (by simpa using he) hres
    refine ⟨t', ?_, hres', hdb'.trans hdb, hj'.trans hj⟩
    simp only [foldlM_cons, bind_eq_ok]
    exact ⟨t, ⟨(), by simpa using hkey, ht⟩, ht'⟩

theorem open_durable (hf : Follows law J) {db : Database} (hd : Durable law db) (newID : FreshID) :
    ∃ s, db.open newID = .ok s ∧ Consistent law J s ∧ s.db.grants = db.grants := by
  have hj : validID (db.journalID.getD newID) = true := by
    cases h : db.journalID with
    | none => exact newID.2
    | some id => exact hd.journal id h
  have hempty : Restored []
      ⟨{ db with journalID := some (db.journalID.getD newID) }, ∅, ∅, db.journalID.getD newID⟩ :=
    ⟨by simp, by simp, by simp⟩
  obtain ⟨s, hs, hres, hdb, -⟩ := restore_all hd db.grants.entries rfl hempty
  have hrow : ∀ id, s.row id = db.grants.get? id := fun id => by rw [Store.row, hdb]
  refine ⟨s, ?_, ⟨⟨?_, ?_, ?_, ?_, ?_⟩, ?_, ?_, ?_⟩, by rw [hdb]⟩
  · simp only [Database.open, unit_bind_eq_ok, refuse_eq_ok]
    exact ⟨by simp [hj], hs⟩
  · rw [hdb]
    rintro id ⟨⟩
    exact hj
  · exact hdb ▸ hd.key
  · exact hdb ▸ hd.valid
  · exact hdb ▸ hd.unique
  · exact hdb ▸ hd.lawful
  · intro id
    rw [Bool.eq_iff_iff, hres.known, hrow, Option.isSome_iff_exists]
    exact exists_congr fun r => Table.mem_entries
  · intro id m r hm hr
    have hm' := hres.agree id m r hm (Table.mem_entries.mpr (hrow id ▸ hr))
    obtain ⟨-, hpol, hqua, -⟩ := Record.restore_eq_ok hm'
    exact ⟨hpol, hqua, hf.restore id r m (hr ▸ hrow id ▸ hd.lawful id) hm'⟩
  · intro client id
    rw [hres.index]
    simp only [hrow, Table.mem_entries]

theorem Guarded.applied (hg : Guarded law) {g : Grant} (hl : law g.id row) (h : Applied row g r') : law g.id (some r') := by
  rcases h with ⟨rfl, rfl⟩ | ⟨r, rfl, hs, -, hck, rfl⟩
  · exact hg.create g hl
  · exact hg.change _ r _ hs (advances_of_checkApply hck) hl

theorem Guarded.updated (hg : Guarded law) (hl : law u.grantID row) (h : Updated row u r') : law u.grantID (some r') := by
  rcases h with ⟨rfl, rfl⟩ | ⟨r, q, rfl, hs, -, hq, rfl⟩
  · exact hg.create u.grant hl
  · exact hg.change _ r _ hs (advances_of_mergeAuthority hq) hl

theorem Follows.keeps (hg : Guarded law) (hf : Follows law J) (op : Op) :
    machine.Keeps (Consistent law J) (Durable law) op.prog := by
  intro s h
  have hstop : ∀ e t, Stops law J e t → Stops law J e t := fun _ _ ht => ht
  cases op with
  | apply g => exact (apply_keeps hf h g fun r' => hg.applied (h.durable.lawful _)).mono (fun _ _ ht => ht.1) hstop
  | applyCredit credits env =>
    exact applyCredit_keeps hf h credits env fun c _ r hs _ hadv hl =>
      hg.change _ r _ hs (advances_of_creditAdvance hadv) hl
  | applyAuthority updates checking applying =>
    exact (applyAuthority_keeps hf h updates checking applying fun u _ row r' hl => hg.updated hl).mono
      (fun _ _ ht => ht.1) hstop
  | suspendOthers wanted => exact suspendOthers_keeps hf h wanted fun id r _ hl => hg.suspend id r hl
  | reconcile grants =>
    exact (reconcile_keeps hf h grants (fun id r _ hl => hg.suspend id r hl) fun g _ row r' hl => hg.applied hl).mono
      (fun _ _ ht => ht.1) hstop
  | take id dir requested upTo turn =>
    refine Spec.bind (take_keeps hf h id dir requested upTo turn ?_) fun _ t ht => (spec_pure _).mpr ht
    exact fun r m k n _ _ _ hn hl => hg.reserve id r n hn.running hn.grows hl

theorem consistent_of_open (hf : Follows law J) {db : Database} (hd : Durable law db) {newID : FreshID}
    (hs : db.open newID = .ok s) : Consistent law J s := by
  obtain ⟨s', hs', hcon, -⟩ := open_durable hf hd newID
  have heq : s = s' := Except.ok.inj (hs.symm.trans hs')
  exact heq ▸ hcon

theorem Follows.holds_after (hg : Guarded law) (hf : Follows law J)
    (h : Machine.Holds (Consistent law J) (Durable law) st) (events : List (Event Op FreshID)) :
    Machine.Holds (Consistent law J) (Durable law) (machine.after st events) :=
  Machine.inv_after (hf.keeps hg) (fun _ hs => hs.durable) (fun _ _ _ hd hs => consistent_of_open hf hd hs) h events

def reached (events : List (Event Op FreshID)) : Status Store Database := machine.after (.down ⟨none, ∅⟩) events

theorem holds_reached (hg : Guarded law) (hf : Follows law J) (h0 : ∀ id, law id none) (events : List (Event Op FreshID)) :
    Machine.Holds (Consistent law J) (Durable law) (reached events) := by
  refine hf.holds_after hg ?_ events
  exact ⟨by simp, by simp, by simp, by simp, fun id => by simpa using h0 id⟩

theorem guarded_true : Guarded fun _ _ => True := ⟨by simp, by simp, by simp, by simp⟩

theorem guarded_suspended {r : Record} (hr : r.suspended = true) (id : String) :
    Guarded fun id' row => id' = id → row = some r := by
  refine ⟨?_, ?_, ?_, ?_⟩
  · rintro id' r' n hs - hl hid
    cases hl hid
    exact absurd hr (by simp [hs])
  · rintro id' r' hl hid
    cases hl hid
    rw [← hr]
  · rintro id' r' p hs - hl hid
    cases hl hid
    exact absurd hr (by simp [hs])
  · rintro g hl hid
    cases hl hid

theorem Durable.of_law {k : String → Option Record → Prop} {db : Database} (h : Durable law db)
    (hk : ∀ id, k id (db.grants.get? id)) : Durable k db :=
  ⟨h.journal, h.key, h.valid, h.unique, hk⟩

theorem Consistent.of_law {k : String → Option Record → Prop} {J' : String → Record → Memory → Prop}
    (h : Consistent law J s) (hk : ∀ id, k id (s.row id))
    (hj : ∀ id m r, s.accounts.get? id = some m → s.row id = some r → J id r m → J' id r m) : Consistent k J' s := by
  refine ⟨h.durable.of_law hk, h.known, fun id m r hm hr => ?_, h.index⟩
  obtain ⟨hpol, hqua, hkept⟩ := h.agree id m r hm hr
  exact ⟨hpol, hqua, hj id m r hm hr hkept⟩

theorem holds_of_law {k : String → Option Record → Prop}
    (h : Machine.Holds (Consistent law J) (Durable law) st) (hl : ∀ id, k id ((machine.kept st).grants.get? id)) :
    Machine.Holds (Consistent k J) (Durable k) st := by
  cases st with
  | up s => exact Consistent.of_law h hl fun _ _ _ _ _ hj => hj
  | down db => exact Durable.of_law h hl

/-- In every run of the store, whatever becomes of its writes: the database can be opened, each account of a running
store has the policy of its row, the index lists exactly the enabled grants that are not suspended, and a suspended
row is never changed again. -/
theorem reached_reopens (events : List (Event Op FreshID)) (newID : FreshID) :
    (∃ s, (machine.kept (reached events)).open newID = .ok s) ∧
      (∀ s, reached events = .up s →
        (∀ id, (s.accounts.get? id).map (·.account.policy) = (s.row id).map (·.grant.policy)) ∧
        ∀ client id, s.clients.get? client = some id ↔
          ∃ r, s.row id = some r ∧ r.grant.clientID = client ∧ r.grant.policy.enabled = true ∧ r.suspended = false) ∧
      ∀ id r, (machine.kept (reached events)).grants.get? id = some r → r.suspended = true →
        ∀ later, (machine.kept (reached (events ++ later))).grants.get? id = some r := by
  have hinv := holds_reached guarded_true follows_untied (fun _ => trivial) events
  refine ⟨?_, ?_, ?_⟩
  · obtain ⟨s, hs, -⟩ := open_durable follows_untied (Machine.kept_of_holds (m := machine) (fun s hs => hs.durable) hinv) newID
    exact ⟨s, hs⟩
  · intro s hs
    rw [hs] at hinv
    refine ⟨fun id => ?_, hinv.index⟩
    cases hm : s.accounts.get? id with
    | none =>
      rw [hinv.row_eq_none hm]
      rfl
    | some m =>
      obtain ⟨r, hr⟩ := hinv.exists_row hm
      rw [hr]
      exact congrArg some (hinv.agree id m r hm hr).policy
  · intro id r hr hs later
    have hlaw := holds_of_law (k := fun id' row => id' = id → row = some r) hinv fun id' hid => hid ▸ hr
    have hafter := follows_untied.holds_after (guarded_suspended hs id) hlaw later
    have hkept := Machine.kept_of_holds (m := machine) (fun s hs => hs.durable) hafter
    unfold reached
    rw [Machine.after, Run.after_append]
    exact hkept.lawful id rfl

end Governor

end Pui
