import Pui.Applied

/-!
# Authority updates on top of a deployment

An update waits in a table, under its grant and bound to the applied deployment, until the node fetched and confirmed
it.
-/

namespace Pui

open Guard Table List

def supportsRuntime (core : String) : Bool := ["xray", "ssh", "singbox", "mtproto"].contains core

structure PublishedAuthorityScope where
  coreID : String
  payloadSHA256 : Digest
  deploymentSHA256 : Digest
  descriptor : DescriptorScope
  baseGrant : Option Grant

def Fleet.publishedAuthorityMetadata (db : Fleet) (nodeID : String) (baseRevision : Nat) (runtimeID clientID : String) :
    Except FleetError PublishedAuthorityScope := do
  refuse (!validID nodeID ∨ baseRevision = 0 ∨ baseRevision > maxInt64 ∨ !runtimeName runtimeID ∨
    (clientID ≠ "" ∧ !validID clientID)) .invalid
  let runtime ← found ((db.publishedRuntimes.get? (nodeID, baseRevision, runtimeID)).filter fun r =>
    (db.deployments.get? (nodeID, baseRevision)).any fun d => d.digest = r.deploymentDigest) .scope
  if clientID = "" then return ⟨runtime.coreID, runtime.payloadDigest, runtime.deploymentDigest, DescriptorScope.empty, none⟩
  else do
    let client ← found (db.publishedClients.get? (nodeID, baseRevision, runtimeID, clientID)) .scope
    refuse (client.baseGrant.any fun g => g.validate ≠ .ok () ∨ g.clientID ≠ clientID) .scope
    return ⟨runtime.coreID, runtime.payloadDigest, runtime.deploymentDigest, client.scope, client.baseGrant⟩

def authorityRate (r : Rate) : AuthorityRate := ⟨r.mode, r.bitsPerSecond, (r.burstBytes % 2 ^ 32).toNat⟩

/-- An update has to agree with the grant of the deployment. -/
def AuthorityUpdate.checkBase (u : AuthorityUpdate) (rates : Rates) (base : Grant) : Except FleetError Unit := do
  refuse (base.id ≠ u.grantID ∨ base.clientID ≠ u.clientID ∨ base.policy.term ≠ u.termID ∨
    base.policy.quotaUnlimited ≠ u.quotaUnlimited ∨ base.policy.expiresUnixMilli ≠ u.expiresUnixMilli ∨
    (u.enabled ∧ !base.policy.enabled)) .scope
  refuse (u.authorityRevision < base.policy.authorityRevision ∨ u.creditRevision < base.policy.creditRevision ∨
    u.creditCeiling < base.policy.creditCeiling) .recovery
  refuse (u.authorityRevision = base.policy.authorityRevision ∧ (rates.upload ≠ base.policy.upload ∨
    rates.download ≠ base.policy.download ∨ u.enabled ≠ base.policy.enabled)) .revision
  refuse (u.authorityRevision = base.policy.authorityRevision ∧ (u.creditRevision ≠ base.policy.creditRevision ∨
    u.creditCeiling ≠ base.policy.creditCeiling)) .creditDeliveryRequired

def FleetAuthorityUpdate.requireEnabled (hashes : Hashes) (grantID : String) (previous : FleetAuthorityUpdate)
    (enabled : Bool) : Except FleetError Unit :=
  if enabled then do
    let old ← previous.decode hashes grantID
    refuse (!old.enabled) .scope
  else .ok ()

def Fleet.storeAuthorityUpdate (db : Fleet) (grantID : String) (incoming : FleetAuthorityUpdate) : Fleet :=
  { db with
    grantStops := if incoming.payload.enabled then db.grantStops.drop grantID else db.grantStops
    authorityUpdates := db.authorityUpdates.put grantID incoming }

def Fleet.replaceAuthorityUpdate (hashes : Hashes) (db : Fleet) (grantID : String) (incoming : FleetAuthorityUpdate) :
    Except FleetError Fleet :=
  match db.authorityUpdates.get? grantID with
  | none => .ok (db.storeAuthorityUpdate grantID incoming)
  | some previous => do
    refuse (previous.base.baseConfigurationRevision > incoming.base.baseConfigurationRevision ∨
      previous.revision > incoming.revision) .recovery
    if previous.base ≠ incoming.base then return db.storeAuthorityUpdate grantID incoming
    else do
      previous.requireEnabled hashes grantID incoming.payload.enabled
      if previous.revision = incoming.revision then do
        let old ← previous.decode hashes grantID
        refuse (old.creditRevision > incoming.payload.creditRevision ∨ old.creditCeiling > incoming.payload.creditCeiling) .recovery
        refuse (old.creditRevision ≠ incoming.payload.creditRevision ∨ old.creditCeiling ≠ incoming.payload.creditCeiling)
          .creditDeliveryRequired
        refuse (old ≠ incoming.payload) .conflict
        return { db with authorityUpdates := db.authorityUpdates.put grantID { previous with deliveryBlocked := false } }
      else return db.storeAuthorityUpdate grantID { incoming with
        acknowledgedRevision := previous.acknowledgedRevision, acknowledgedSHA256 := previous.acknowledgedSHA256 }

def Fleet.incomingUpdate (hashes : Hashes) (grantID : String) (baseRevision : Nat) (enabled : Bool) (now : Int)
    (db : Fleet) : Except FleetError FleetAuthorityUpdate := do
  refuse (!validID grantID ∨ baseRevision = 0 ∨ baseRevision > maxInt64) .invalid
  db.lockAuthority
  let grant ← found (db.grants.get? grantID) .notFound
  db.lockNode grant.nodeID grant.installationID
  let placementID ← found grant.placementID .scope
  db.requireRuntimeJournal grant.nodeID grant.installationID grant.runtimeID
  let node ← found (db.nodes.get? grant.nodeID) .notFound
  refuse (node.appliedRevision ≠ baseRevision ∨ node.desiredRevision ≠ node.appliedRevision) .revision
  let managed ← db.managedAuthority grant.clientID grant.termID enabled
  let term ← found managed .scope
  refuse (enabled ∧ term.expiresUnixMilli ≠ 0 ∧ term.expiresUnixMilli ≤ now) .scope
  let scope ← db.publishedAuthorityMetadata grant.nodeID baseRevision grant.runtimeID grant.clientID
  refuse (!supportsRuntime scope.coreID ∨ scope.descriptor.placementID ≠ placementID) .scope
  let _ ← found ((db.rateBudgets.get? grant.clientID).filter (·.clientID = grant.clientID)) .notFound
  let share ← found (db.rateShares.get? grantID) .notFound
  refuse (share.nodeID ≠ grant.nodeID ∨ share.installationID ≠ grant.installationID ∨ share.runtimeID ≠ grant.runtimeID ∨
    share.budgetID ≠ grant.clientID) .scope
  let rates ← decodeRates share.desired
  refuse (!enabled ∧ rates ≠ Rates.zero) .scope
  let agent ← found (db.nodeJournals.get? grant.nodeID) .notFound
  let runtime ← found (db.runtimeJournals.get? (grant.nodeID, grant.runtimeID)) .notFound
  let journal ← found agent.stateJournalID .scope
  refuse (runtime.coreID ≠ scope.coreID) .scope
  let update : AuthorityUpdate := ⟨grantID, grant.clientID, grant.termID, uint64 share.revision, uint64 grant.revision,
    uint64 grant.issuedBytes, grant.unlimited, enabled, term.expiresUnixMilli, authorityRate rates.upload,
    authorityRate rates.download, scope.descriptor.credentialGeneration, scope.descriptor.placementID,
    scope.descriptor.placementRevision, scope.descriptor.sha256⟩
  scope.baseGrant.toList.forM (update.checkBase rates)
  refuse (db.authorityUpdates.entries.any fun e => e.1 ≠ grantID && e.2.base.nodeID = grant.nodeID &&
    e.2.base.runtimeID = grant.runtimeID && e.2.base.baseConfigurationRevision = baseRevision &&
    e.2.clientID = grant.clientID) .scope
  let base : AuthorityBase := ⟨grant.nodeID, grant.installationID, journal, grant.runtimeID, runtime.stateJournalID,
    runtime.creditJournalID, baseRevision, scope.payloadSHA256⟩
  refuse ((⟨base, [update]⟩ : AuthorityUpdateBatch).validate false ≠ .ok ()) .invalid
  return ⟨base, grant.clientID, grant.termID, placementID, scope.descriptor.sha256, share.revision, update,
    hashes.update update, 0, [], false⟩

def Fleet.queueAuthorityUpdate (hashes : Hashes) (grantID : String) (baseRevision : Nat) (enabled : Bool) (now : Int)
    (db : Fleet) : Except FleetError Fleet := do
  let incoming ← db.incomingUpdate hashes grantID baseRevision enabled now
  db.replaceAuthorityUpdate hashes grantID incoming

def Fleet.anyRuntimeAuthority (db : Fleet) (p : Principal) (runtime : String) : Bool :=
  db.grants.entries.any fun e => e.2.nodeID = p.nodeID && (runtime = "" || e.2.runtimeID = runtime)

/-- The check is a transaction of its own: a node whose journal was replaced, or lost after authority was issued to it, is
held, and the hold is stored although the answer is an error. -/
def Fleet.requireAgentJournal (db : Fleet) (peer : Peer) (p : Principal) (journalID : String) :
    Fleet × Except FleetError Unit :=
  if !validID journalID then (db, .error .invalid)
  else
    match db.lockAuthenticatedNode peer p with
    | .error e => (db, .error e)
    | .ok () =>
      match db.requireNodeJournal p.nodeID p.installationID journalID with
      | .ok () => (db, .ok ())
      | .error .recovery => (db.holdNodeJournal p, .error .recovery)
      | .error .scope =>
        if db.anyRuntimeAuthority p "" then (db.holdNodeJournal p, .error .recovery) else (db, .error .scope)
      | .error e => (db, .error e)

def Fleet.authorityDeliveryScope (db : Fleet) (peer : Peer) (p : Principal) (request : AuthorityBase) :
    Except FleetError FleetRuntimeJournal := do
  db.lockAuthority
  db.lockAuthenticatedNode peer p
  db.requireNodeJournal p.nodeID p.installationID request.agentStateJournalID
  let runtime ← found (db.runtimeJournals.get? (p.nodeID, request.runtimeID)) .notFound
  refuse (runtime.installationID ≠ p.installationID ∨ runtime.stateJournalID ≠ request.stateJournalID ∨
    runtime.creditJournalID ≠ request.creditJournalID) .creditJournal
  let node ← found (db.nodes.get? p.nodeID) .notFound
  refuse (node.appliedRevision ≠ request.baseConfigurationRevision ∨ node.appliedRevision ≠ node.desiredRevision) .revision
  let scope ← db.publishedAuthorityMetadata p.nodeID request.baseConfigurationRevision request.runtimeID ""
  refuse (!supportsRuntime scope.coreID ∨ scope.payloadSHA256 ≠ request.basePayloadSHA256) .scope
  return runtime

def Fleet.updateTerm (db : Fleet) (row : FleetAuthorityUpdate) (active : Bool) : Except FleetError FleetTerm :=
  if active then do
    let term ← db.managedAuthority row.clientID row.termID true
    found term .scope
  else found ((db.terms.get? row.termID).filter (·.clientID = row.clientID)) .notFound

def Fleet.validateAuthorityEntry (db : Fleet) (grantID : String) (row : FleetAuthorityUpdate) (update : AuthorityUpdate)
    (requireActive : Bool) (now : Int) : Except FleetError Unit := do
  let scope ← db.publishedAuthorityMetadata row.base.nodeID row.base.baseConfigurationRevision row.base.runtimeID row.clientID
  refuse (scope.payloadSHA256 ≠ row.base.basePayloadSHA256 ∨ scope.descriptor.sha256 ≠ update.descriptorSHA256 ∨
    scope.descriptor.credentialGeneration ≠ update.credentialGeneration ∨ scope.descriptor.placementID ≠ update.placementID ∨
    scope.descriptor.placementRevision ≠ update.placementRevision) .scope
  let grant ← found (db.grants.get? grantID) .notFound
  let share ← found (db.rateShares.get? grantID) .notFound
  refuse (grant.nodeID ≠ row.base.nodeID ∨ grant.installationID ≠ row.base.installationID ∨
    grant.runtimeID ≠ row.base.runtimeID ∨ grant.clientID ≠ row.clientID ∨ grant.termID ≠ row.termID ∨
    grant.placementID ≠ some row.placementID ∨ grant.unlimited ≠ update.quotaUnlimited ∨
    grant.revision < update.creditRevision ∨ grant.issuedBytes < update.creditCeiling ∨ share.nodeID ≠ row.base.nodeID ∨
    share.installationID ≠ row.base.installationID ∨ share.runtimeID ≠ row.base.runtimeID ∨
    share.budgetID ≠ row.clientID ∨ share.revision ≠ row.revision) .revision
  let rates ← decodeRates share.desired
  refuse (rates ≠ authorityRates update ∨ (!update.enabled ∧ rates ≠ Rates.zero)) .scope
  let term ← db.updateTerm row (requireActive && update.enabled)
  refuse (term.expiresUnixMilli ≠ update.expiresUnixMilli ∨ (requireActive ∧ update.enabled ∧
    term.expiresUnixMilli ≠ 0 ∧ term.expiresUnixMilli ≤ now)) .scope

def Fleet.fetchUpdate (hashes : Hashes) (request : AuthorityBase) (allowed : String → Bool) (now : Int)
    (s : List AuthorityUpdate × Fleet) (e : String × FleetAuthorityUpdate) : Except FleetError (List AuthorityUpdate × Fleet) := do
  refuse (e.2.base ≠ request) .recovery
  let update ← e.2.decode hashes e.1
  let blocked := { s.2 with authorityUpdates := s.2.authorityUpdates.put e.1 { e.2 with deliveryBlocked := true } }
  if !allowed e.1 then return (s.1, blocked)
  else
    match s.2.validateAuthorityEntry e.1 e.2 update true now with
    | .ok () => return (s.1 ++ [update], s.2)
    | .error .revision => return (s.1, blocked)
    | .error .scope => return (s.1, blocked)
    | .error e => .error e

def Fleet.dueUpdates (db : Fleet) (request : AuthorityBase) : List (String × FleetAuthorityUpdate) :=
  (((db.authorityUpdates.keep fun _ row => row.base.nodeID = request.nodeID && row.base.installationID = request.installationID &&
    row.base.runtimeID = request.runtimeID && row.base.baseConfigurationRevision = request.baseConfigurationRevision &&
    row.acknowledgedRevision < row.revision && !row.deliveryBlocked).entries.map fun e => (e.1, e.2)).mergeSort
      fun a b => decide (a.1 ≤ b.1)).take maxAuthorityUpdates

abbrev AuthorityDeliveryValidator := List (String × FleetAuthorityUpdate) → Except FleetError (String → Bool)

def Fleet.fetchAuthorityUpdates (hashes : Hashes) (peer : Peer) (p : Principal) (request : AuthorityBase)
    (authorize : Option AuthorityDeliveryValidator) (now : Int) (db : Fleet) :
    Except FleetError (AuthorityUpdateBatch × Fleet) := do
  refuse (!request.valid ∨ !p.require request.nodeID request.installationID) .scope
  (db.requireAgentJournal peer p request.agentStateJournalID).2
  let runtime ← db.authorityDeliveryScope peer p request
  if !runtime.ready ∨ runtime.receivedUnixMilli ≤ 0 ∨ runtime.receivedUnixMilli < now - 30000 then return (⟨request, []⟩, db)
  else if db.dueUpdates request = [] then return (⟨request, []⟩, db)
  else do
    let authorize ← found authorize .scope
    let allowed ← authorize (db.dueUpdates request)
    let (updates, db) ← (db.dueUpdates request).foldlM (Fleet.fetchUpdate hashes request allowed now) ([], db)
    nodeError ((⟨request, updates⟩ : AuthorityUpdateBatch).validate true)
    return (⟨request, updates⟩, db)

def Fleet.acknowledgeRow (hashes : Hashes) (db : Fleet) (base : AuthorityBase) (now : Int) (update : AuthorityUpdate) :
    Except FleetError (Option (AuthorityUpdate × FleetAuthorityUpdate)) := do
  let row ← found (db.authorityUpdates.get? update.grantID) .notFound
  refuse (row.base ≠ base) .scope
  if row.acknowledgedRevision = update.authorityRevision ∧ row.acknowledgedSHA256 = hashes.update update then return none
  else do
    refuse (row.revision ≠ update.authorityRevision ∨ row.payloadSHA256 ≠ hashes.update update ∨ row.payload ≠ update) .revision
    db.validateAuthorityEntry update.grantID row update false now
    return some (update, row)

def Fleet.acknowledgeUpdate (db : Fleet) (e : AuthorityUpdate × FleetAuthorityUpdate) : Except FleetError Fleet := do
  let id := e.1.grantID
  let share ← found (db.rateShares.get? id) .notFound
  let desired ← decodeRates share.desired
  refuse (share.revision ≠ e.2.revision ∨ desired ≠ authorityRates e.1) .revision
  return { db with
    rateShares := db.rateShares.put id { share with appliedRevision := e.2.revision, outstanding := share.desired }
    grantStops := if e.1.enabled then db.grantStops.drop id
      else db.grantStops.put id ⟨e.2.base.baseConfigurationRevision, e.2.revision⟩
    authorityUpdates := db.authorityUpdates.put id { e.2 with
      acknowledgedRevision := e.2.revision, acknowledgedSHA256 := e.2.payloadSHA256 } }

def Fleet.acknowledgeAuthorityUpdates (hashes : Hashes) (peer : Peer) (p : Principal) (batch : AuthorityUpdateBatch)
    (now : Int) (db : Fleet) : Except FleetError (Digest × Fleet) := do
  refuse (batch.validate false ≠ .ok () ∨ !p.require batch.base.nodeID batch.base.installationID) .invalid
  (db.requireAgentJournal peer p batch.base.agentStateJournalID).2
  let _ ← db.authorityDeliveryScope peer p batch.base
  let answers ← batch.updates.mapM (db.acknowledgeRow hashes batch.base now)
  let rows := answers.filterMap id
  refuse (rows.any fun e => db.rateBudgets.get? e.2.clientID = none) .scope
  let db ← rows.foldlM Fleet.acknowledgeUpdate db
  return (hashes.updates batch, db)

/-- An update on offer has the last revision of its grant's share. -/
def Fleet.OffersUpdate (db : Fleet) (nodeID runtimeID : String) (u : AuthorityUpdate) : Prop :=
  ∃ share, db.rateShares.get? u.grantID = some share ∧ share.nodeID = nodeID ∧ share.runtimeID = runtimeID ∧
    u.authorityRevision = uint64 share.revision ∧ share.desired = authorityRates u

variable {hashes : Hashes} {db db' : Fleet} {grantID : String} {now : Int} {row : FleetAuthorityUpdate} {update : AuthorityUpdate}
  {batch : AuthorityUpdateBatch}

/-- The check of the journal changes nothing but the hold of a node that it refuses. -/
theorem Fleet.requireAgentJournal_eq_or_held (peer : Peer) (p : Principal) (journalID : String) :
    (db.requireAgentJournal peer p journalID).1 = db ∨
      db.requireAgentJournal peer p journalID = (db.holdNodeJournal p, .error .recovery) := by
  unfold Fleet.requireAgentJournal
  split
  · exact .inl rfl
  · split
    · exact .inl rfl
    · split
      · exact .inl rfl
      · exact .inr rfl
      · split
        · exact .inr rfl
        · exact .inl rfl
      · exact .inl rfl

theorem Fleet.replaceAuthorityUpdate_eq_ok
    {incoming : FleetAuthorityUpdate} (h : db.replaceAuthorityUpdate hashes grantID incoming = .ok db') :
    ∃ stops updates, db' = { db with grantStops := stops, authorityUpdates := updates } := by
  unfold Fleet.replaceAuthorityUpdate at h
  split at h
  · cases h
    exact ⟨_, _, rfl⟩
  · obtain ⟨-, h⟩ := unit_bind_eq_ok.mp h
    split at h
    · cases h
      exact ⟨_, _, rfl⟩
    · obtain ⟨-, h⟩ := unit_bind_eq_ok.mp h
      split at h
      · simp only [bind_eq_ok, pure_eq_ok] at h
        obtain ⟨-, -, -, -, -, -, -, -, rfl⟩ := h
        exact ⟨_, _, rfl⟩
      · cases h
        exact ⟨_, _, rfl⟩

theorem Fleet.queueAuthorityUpdate_eq_ok {baseRevision : Nat} {enabled : Bool} (h : db.queueAuthorityUpdate hashes grantID baseRevision enabled now = .ok db') :
    ∃ stops updates, db' = { db with grantStops := stops, authorityUpdates := updates } := by
  obtain ⟨incoming, -, h⟩ := bind_eq_ok.mp h
  exact Fleet.replaceAuthorityUpdate_eq_ok h

theorem Fleet.validateAuthorityEntry_eq_ok {requireActive : Bool}
    (h : db.validateAuthorityEntry grantID row update requireActive now = .ok ()) :
    ∃ share, db.rateShares.get? grantID = some share ∧ share.nodeID = row.base.nodeID ∧
      share.runtimeID = row.base.runtimeID ∧ share.revision = row.revision ∧ share.desired = authorityRates update := by
  simp only [Fleet.validateAuthorityEntry, bind_eq_ok, found_eq_ok, refuse_eq_ok, decodeRates_eq_ok, not_or, not_not] at h
  obtain ⟨scope, -, -, -, grant, -, share, hshare, -, hscope, rates, ⟨-, rfl⟩, -, ⟨hrates, -⟩, -⟩ := h
  obtain ⟨-, -, -, -, -, -, -, -, -, hnode, -, hruntime, -, hrevision⟩ := hscope
  exact ⟨share, hshare, hnode, hruntime, hrevision, hrates⟩

theorem FleetAuthorityUpdate.decode_eq_ok (h : row.decode hashes grantID = .ok update) :
    update.grantID = grantID ∧ update.authorityRevision = uint64 row.revision := by
  simp only [FleetAuthorityUpdate.decode, bind_eq_ok, refuse_eq_ok, pure_eq_ok, not_or, not_not] at h
  obtain ⟨-, -, -, ⟨hid, -, -, -, hrevision, -⟩, -, -, rfl⟩ := h
  exact ⟨hid, hrevision⟩

theorem Fleet.fetchUpdate_eq_ok {request : AuthorityBase} {allowed : String → Bool}
    {s s' : List AuthorityUpdate × Fleet} {e : String × FleetAuthorityUpdate}
    (h : Fleet.fetchUpdate hashes request allowed now s e = .ok s') :
    (∃ updates, s'.2 = { s.2 with authorityUpdates := updates }) ∧
      ∀ u ∈ s'.1, u ∈ s.1 ∨ s.2.OffersUpdate request.nodeID request.runtimeID u := by
  simp only [Fleet.fetchUpdate, bind_eq_ok, refuse_eq_ok, not_not] at h
  obtain ⟨-, hbase, update, hupdate, h⟩ := h
  split at h
  · cases h
    exact ⟨⟨_, rfl⟩, fun u hu => .inl hu⟩
  · split at h
    · next hvalid =>
      cases h
      refine ⟨⟨_, rfl⟩, fun u hu => ?_⟩
      rcases mem_append.mp hu with hu | hu
      · exact .inl hu
      · rw [mem_singleton] at hu
        subst hu
        obtain ⟨hid, hrevision⟩ := FleetAuthorityUpdate.decode_eq_ok hupdate
        obtain ⟨share, hshare, hnode, hruntime, hrev, hrates⟩ := Fleet.validateAuthorityEntry_eq_ok hvalid
        refine .inr ⟨share, ?_, ?_, ?_, ?_, hrates⟩
        · rw [hid, hshare]
        · rw [hnode, hbase]
        · rw [hruntime, hbase]
        · rw [hrevision, hrev]
    · cases h
      exact ⟨⟨_, rfl⟩, fun u hu => .inl hu⟩
    · cases h
      exact ⟨⟨_, rfl⟩, fun u hu => .inl hu⟩
    · cases h

theorem Fleet.fetchAuthorityUpdates_eq_ok {peer : Peer} {p : Principal} {request : AuthorityBase}
    {authorize : Option AuthorityDeliveryValidator}
    (h : db.fetchAuthorityUpdates hashes peer p request authorize now = .ok (batch, db')) :
    batch.base = request ∧ (∀ u ∈ batch.updates, db.OffersUpdate request.nodeID request.runtimeID u) ∧
      ∃ updates, db' = { db with authorityUpdates := updates } := by
  simp only [Fleet.fetchAuthorityUpdates, unit_bind_eq_ok] at h
  obtain ⟨-, -, h⟩ := h
  obtain ⟨runtime, -, h⟩ := bind_eq_ok.mp h
  split at h
  · cases h
    exact ⟨rfl, by simp, _, rfl⟩
  · split at h
    · cases h
      exact ⟨rfl, by simp, _, rfl⟩
    · simp only [bind_eq_ok, pure_eq_ok, Prod.mk.injEq] at h
      obtain ⟨-, -, allowed, -, ⟨updates, u⟩, hfold, -, -, rfl, rfl⟩ := h
      have hinv := foldlM_keeps (I := fun s : List AuthorityUpdate × Fleet =>
          (∃ rows, s.2 = { db with authorityUpdates := rows }) ∧
            ∀ u ∈ s.1, db.OffersUpdate request.nodeID request.runtimeID u)
        (fun s e _ s' hstep ⟨⟨rows, hrows⟩, hoffers⟩ => by
          obtain ⟨⟨rows', hrows'⟩, hnew⟩ := Fleet.fetchUpdate_eq_ok hstep
          rw [hrows] at hrows' hnew
          exact ⟨⟨rows', hrows'⟩, fun u hu => (hnew u hu).elim (hoffers u) id⟩) hfold ⟨⟨_, rfl⟩, by simp⟩
      exact ⟨rfl, hinv.2, hinv.1⟩

def AuthorityUpdateBatch.Claims (batch : AuthorityUpdateBatch) (id : String) (share : FleetRateShare) : Prop :=
  ∃ u ∈ batch.updates, u.grantID = id ∧ share.nodeID = batch.base.nodeID ∧ share.runtimeID = batch.base.runtimeID ∧
    share.revision = u.authorityRevision

theorem Fleet.acknowledgeRow_eq_ok {base : AuthorityBase} {e : AuthorityUpdate × FleetAuthorityUpdate}
    (h : db.acknowledgeRow hashes base now update = .ok (some e)) :
    e.1 = update ∧ ∃ share, db.rateShares.get? update.grantID = some share ∧ share.nodeID = base.nodeID ∧
      share.runtimeID = base.runtimeID ∧ share.revision = update.authorityRevision := by
  simp only [Fleet.acknowledgeRow, bind_eq_ok, refuse_eq_ok, found_eq_ok, not_not] at h
  obtain ⟨row, -, -, rfl, h⟩ := h
  split at h
  · simp at h
  · simp only [bind_eq_ok, refuse_eq_ok, pure_eq_ok, not_or, not_not, Option.some.injEq] at h
    obtain ⟨-, ⟨hrevision, -⟩, ⟨⟩, hvalid, rfl⟩ := h
    obtain ⟨share, hshare, hnode, hruntime, hrev, -⟩ := Fleet.validateAuthorityEntry_eq_ok hvalid
    exact ⟨rfl, share, hshare, hnode, hruntime, hrev.trans hrevision⟩

theorem Fleet.acknowledgeAuthorityUpdates_eq_ok {peer : Peer} {p : Principal} {digest : Digest}
    (h : db.acknowledgeAuthorityUpdates hashes peer p batch now = .ok (digest, db')) :
    ∃ shares stops updates, db.Confirms shares batch.Claims ∧
      db' = { db with rateShares := shares, grantStops := stops, authorityUpdates := updates } := by
  simp only [Fleet.acknowledgeAuthorityUpdates, bind_eq_ok, pure_eq_ok, Prod.mk.injEq] at h
  obtain ⟨-, -, -, -, -, -, answers, hanswers, -, -, u, hfold, -, rfl⟩ := h
  have hall : ∀ e ∈ answers.filterMap id, ∃ share, db.rateShares.get? e.1.grantID = some share ∧
      batch.Claims e.1.grantID share := by
    intro e he
    obtain ⟨update, hupdate, hrow⟩ := exists_of_mem_mapM hanswers (by simpa using he)
    obtain ⟨rfl, share, hshare, hnode, hruntime, hrev⟩ := Fleet.acknowledgeRow_eq_ok hrow
    exact ⟨share, hshare, e.1, hupdate, rfl, hnode, hruntime, hrev⟩
  -- The invariant of the loop over the confirmed rows.
  generalize answers.filterMap id = rows at hall hfold
  suffices hloop : ∀ mid, (∃ shares stops updates, db.Confirms shares batch.Claims ∧
        mid = { db with rateShares := shares, grantStops := stops, authorityUpdates := updates }) →
      rows.foldlM Fleet.acknowledgeUpdate mid = .ok u → ∃ shares stops updates, db.Confirms shares batch.Claims ∧
        u = { db with rateShares := shares, grantStops := stops, authorityUpdates := updates } from
    hloop db ⟨_, _, _, Fleet.Confirms.refl db _, rfl⟩ hfold
  clear hfold
  induction rows with
  | nil =>
    intro mid hmid hfold
    cases hfold
    exact hmid
  | cons e rows ih =>
    rintro mid ⟨shares, stops, updates, hshares, rfl⟩ hfold
    rw [foldlM_cons, bind_eq_ok] at hfold
    obtain ⟨next, hnext, hfold⟩ := hfold
    obtain ⟨share, hshare, hclaim⟩ := hall e mem_cons_self
    simp only [Fleet.acknowledgeUpdate, bind_eq_ok, found_eq_ok, refuse_eq_ok, decodeRates_eq_ok, pure_eq_ok, not_or,
      not_not] at hnext
    obtain ⟨current, hcurrent, -, -, -, ⟨hrev, -⟩, rfl⟩ := hnext
    refine ih (fun e' he' => hall e' (mem_cons_of_mem e he')) _ ⟨_, _, _, ?_, rfl⟩ hfold
    have hput := hshares.put hshare hclaim
    rw [← hshares.confirmed_eq hshare hcurrent, FleetRateShare.confirmed, hrev] at hput
    rw [hrev]
    exact hput

end Pui
