import Pui.Publication

/-!
# Delivering deployments, and what comes of them

A report that a deployment is applied confirms the rate shares it carries and proves that its disabled grants are
stopped.
-/

namespace Pui

open Guard Table List

structure Deployment where
  nodeID : String
  authorityGeneration : Nat
  revision : Nat
  payload : Payload
  payloadSHA256 : Digest
  deriving DecidableEq

inductive ApplyStage where
  | received
  | applied
  | rejected
  | unknown (stage : Nat)
  deriving DecidableEq

structure ApplyResult where
  authorityGeneration : Nat
  revision : Nat
  stage : ApplyStage
  payloadSHA256 : Digest
  assetManifestSHA256 : Digest
  deriving DecidableEq

def Fleet.delivery (peer : Peer) (p : Principal) (generation : Nat) (db : Fleet) :
    Except FleetError (Option Deployment × Fleet) := do
  refuse (generation = 0 ∨ generation > maxInt64) .scope
  db.lockAuthority
  db.lockAuthenticatedNode peer p
  db.requireNodeJournal p.nodeID p.installationID ""
  let node ← found (db.nodes.get? p.nodeID) .notFound
  refuse (uint64 node.authorityGeneration ≠ generation) .scope
  if node.desiredRevision = 0 then return (none, db)
  else do
    let d ← found (db.deployments.get? (p.nodeID, node.desiredRevision)) .notFound
    let node := { node with sentRevision := node.desiredRevision }
    let db := { db with nodes := db.nodes.put p.nodeID node }
    return (some ⟨p.nodeID, generation, uint64 node.desiredRevision, d.payload, d.digest⟩, db.pruneDeployments p.nodeID node)

/-- The share that a grant of an applied deployment confirms. -/
def Fleet.acknowledgeGrant (db : Fleet) (p : Principal) (runtimeID : String) (g : Grant) :
    Except FleetError (Option (String × FleetRateShare)) := do
  let share ← found (db.rateShares.get? g.id) .scope
  refuse (share.nodeID ≠ p.nodeID ∨ share.installationID ≠ p.installationID ∨ share.runtimeID ≠ runtimeID) .scope
  if uint64 share.revision ≠ g.rateRevision then return none
  else do
    let desired ← decodeRates share.desired
    refuse (desired.upload ≠ g.policy.upload ∨ desired.download ≠ g.policy.download) .scope
    return some (g.id, { share with appliedRevision := share.revision, outstanding := share.desired })

def Bundle.claims (b : Bundle) : List (String × Grant) :=
  b.runtimes.flatMap fun r => (r.grants.filter fun g => g.rateRevision ≠ 0).map fun g => (r.id, g)

def Fleet.acknowledgeConfiguration (db : Fleet) (p : Principal) (payload : Payload) : Except FleetError Fleet :=
  match payload.decode with
  | none => .ok db
  | some b => do
    let answers ← b.claims.mapM fun claim => db.acknowledgeGrant p claim.1 claim.2
    let changed := answers.filterMap id
    refuse (changed.any fun e => db.rateBudgets.get? e.2.budgetID = none) .scope
    return { db with rateShares := changed.foldl (fun shares e => shares.put e.1 e.2) db.rateShares }

/-- Whether an enabled grant takes back the proof that it was stopped. -/
def Fleet.restarts (db : Fleet) (p : Principal) (revision : Int) (r : Runtime) (g : Grant) (stop : FleetGrantStop) : Bool :=
  g.policy.enabled && g.rateRevision ≠ 0 && (db.rateShares.get? g.id).any fun share =>
    share.nodeID = p.nodeID && share.installationID = p.installationID && share.runtimeID = r.id &&
      uint64 share.revision = g.rateRevision && share.appliedRevision = share.revision &&
      stop.deploymentRevision ≤ revision && stop.rateRevision ≤ share.revision

def Fleet.clearAppliedEnabledStops (db : Fleet) (p : Principal) (revision : Int) (payload : Payload) : Fleet :=
  match payload.decode with
  | none => db
  | some b =>
    { db with
      grantStops := db.grantStops.keep fun id stop =>
        !b.runtimes.any fun r => r.grants.any fun g => g.id = id && db.restarts p revision r g stop }

def Fleet.stoppedGrant (db : Fleet) (nodeID : String) (revision : Int) (r : Runtime) (g : Grant) :
    Except FleetError (Option (String × FleetGrantStop)) :=
  if g.policy.enabled ∨ g.policy.upload.mode ≠ .blocked ∨ g.policy.download.mode ≠ .blocked ∨ g.rateRevision = 0 then .ok none
  else
    match (db.rateShares.get? g.id).filter fun share => share.nodeID = nodeID && share.runtimeID = r.id &&
      uint64 share.revision = g.rateRevision && share.appliedRevision = share.revision with
    | none => .ok none
    | some share => do
      let outstanding ← decodeRates share.outstanding
      return if outstanding = Rates.zero then some (g.id, ⟨revision, share.revision⟩) else none

def Fleet.recordStoppedGrants (db : Fleet) (nodeID : String) (revision : Int) (payload : Payload) : Except FleetError Fleet :=
  match payload.decode with
  | none => .ok db
  | some b => do
    let answers ← (b.runtimes.flatMap fun r => r.grants.map fun g => (r, g)).mapM fun claim =>
      db.stoppedGrant nodeID revision claim.1 claim.2
    let stops := answers.filterMap id
    return { db with grantStops := stops.foldl (fun (stops : Table _ _) e => stops.put e.1 e.2) db.grantStops }

def FleetAuthorityUpdate.decode (hashes : Hashes) (grantID : String) (row : FleetAuthorityUpdate) :
    Except FleetError AuthorityUpdate := do
  let update := row.payload
  refuse (hashes.updateSize update = 0 ∨ hashes.updateSize update > 4096 ∨ hashes.update update ≠ row.payloadSHA256) .recovery
  refuse (update.grantID ≠ grantID ∨ update.clientID ≠ row.clientID ∨ update.termID ≠ row.termID ∨
    update.placementID ≠ row.placementID ∨ update.authorityRevision ≠ uint64 row.revision ∨
    update.descriptorSHA256 ≠ row.descriptorSHA256) .recovery
  refuse ((⟨row.base, [update]⟩ : AuthorityUpdateBatch).validate false ≠ .ok ()) .recovery
  return update

def authorityRates (u : AuthorityUpdate) : Rates :=
  ⟨⟨u.upload.mode, u.upload.bitsPerSecond, u.upload.burstBytes⟩, ⟨u.download.mode, u.download.bitsPerSecond, u.download.burstBytes⟩⟩

structure AppliedStopScope where
  runtime : String
  descriptor : DescriptorScope
  grant : Grant
  journal : FleetRuntimeJournal
  agentJournal : String

def AppliedStopScope.authorityCovers (hashes : Hashes) (claim : AppliedStopScope) (grantID : String)
    (row : FleetAuthorityUpdate) : Bool :=
  let policy := claim.grant.policy
  claim.runtime = row.base.runtimeID && claim.grant.clientID = row.clientID && policy.term = row.termID &&
    claim.agentJournal = row.base.agentStateJournalID && claim.journal.stateJournalID = row.base.stateJournalID &&
    claim.journal.creditJournalID = row.base.creditJournalID && claim.descriptor.placementID = row.placementID &&
    claim.descriptor.sha256 = row.descriptorSHA256 &&
    match row.decode hashes grantID with
    | .error _ => false
    | .ok u =>
      claim.descriptor.credentialGeneration = u.credentialGeneration && claim.descriptor.placementRevision = u.placementRevision &&
        policy.authorityRevision ≥ u.authorityRevision && policy.creditRevision ≥ u.creditRevision &&
        policy.creditCeiling ≥ u.creditCeiling && policy.quotaUnlimited = u.quotaUnlimited &&
        policy.expiresUnixMilli = u.expiresUnixMilli && (u.enabled || !policy.enabled) &&
        (policy.creditRevision ≠ u.creditRevision || policy.creditCeiling = u.creditCeiling) &&
        (policy.authorityRevision ≠ u.authorityRevision || (policy.enabled = u.enabled &&
          policy.upload = (authorityRates u).upload && policy.download = (authorityRates u).download)) &&
        (policy.enabled || (policy.upload = Rate.zero && policy.download = Rate.zero))

def AppliedStopScope.creditCovers (claim : AppliedStopScope) (row : FleetCreditUpdate) : Bool :=
  let policy := claim.grant.policy
  claim.runtime = row.runtimeID && claim.grant.clientID = row.clientID && policy.term = row.termID &&
    !policy.quotaUnlimited && claim.journal.stateJournalID = row.stateJournalID &&
    claim.journal.creditJournalID = row.creditJournalID && policy.creditRevision ≥ uint64 row.revision &&
    policy.creditCeiling ≥ uint64 row.creditCeiling &&
    (policy.creditRevision ≠ uint64 row.revision || policy.creditCeiling = uint64 row.creditCeiling)

def Fleet.appliedScopes (hashes : Hashes) (db : Fleet) (p : Principal) (agent : String) (revision : Int) (r : Runtime) :
    Except FleetError (List (String × AppliedStopScope)) := do
  let descriptors ← nodeError (r.descriptorScopes hashes)
  match (db.runtimeJournals.get? (p.nodeID, r.id)).filter fun j =>
    j.installationID = p.installationID && j.coreID = r.core && j.stateJournalID ≠ "" with
  | none => return []
  | some journal =>
    return (r.grants.filter fun g => g.policy.revision = uint64 revision).map fun g =>
      (g.id, ⟨r.id, (descriptors.get? g.clientID).getD DescriptorScope.empty, g, journal, agent⟩)

def Fleet.supersedeAppliedOutboxes (hashes : Hashes) (db : Fleet) (p : Principal) (revision : Int) (payload : Payload) :
    Except FleetError Fleet :=
  match payload.decode with
  | none => .ok db
  | some b => do
    let agent ← found (db.nodeJournals.get? p.nodeID) .notFound
    match agent.stateJournalID with
    | none => return db
    | some journal => do
      let scopes ← b.runtimes.mapM (db.appliedScopes hashes p journal revision)
      let claims : Table String AppliedStopScope := scopes.flatten.foldl (fun claims e => claims.put e.1 e.2) ∅
      return { db with
        authorityUpdates := db.authorityUpdates.keep fun id row =>
          !(row.base.nodeID = p.nodeID && row.base.installationID = p.installationID &&
            row.base.baseConfigurationRevision < revision && (claims.get? id).any fun claim =>
              claim.authorityCovers hashes id row)
        creditUpdates := db.creditUpdates.keep fun id row =>
          !(row.nodeID = p.nodeID && row.installationID = p.installationID && row.baseConfigurationRevision < revision &&
            (claims.get? id).any fun claim => claim.creditCovers row) }

def Fleet.recordStops (db : Fleet) (p : Principal) (node : FleetNode) (revision : Int) (payload : Payload) :
    Except FleetError Fleet :=
  if revision = node.desiredRevision ∧ revision ≥ node.appliedRevision then
    (db.clearAppliedEnabledStops p revision payload).recordStoppedGrants p.nodeID revision payload
  else .ok db

def Fleet.recordApplied (hashes : Hashes) (db : Fleet) (p : Principal) (node : FleetNode) (revision : Int) (payload : Payload) :
    Except FleetError Fleet := do
  let db ← db.acknowledgeConfiguration p payload
  let db ← db.recordStops p node revision payload
  db.supersedeAppliedOutboxes hashes p revision payload

def Fleet.observe (hashes : Hashes) (peer : Peer) (p : Principal) (generation : Nat) (result : ApplyResult) (db : Fleet) :
    Except FleetError Fleet := do
  refuse (generation = 0 ∨ generation > maxInt64 ∨ result.authorityGeneration ≠ generation ∨ result.revision = 0 ∨
    result.revision > maxInt64) .invalid
  refuse (result.stage ≠ .received ∧ result.stage ≠ .applied ∧ result.stage ≠ .rejected) .invalid
  db.lockAuthority
  db.lockAuthenticatedNode peer p
  db.requireNodeJournal p.nodeID p.installationID ""
  let node ← found (db.nodes.get? p.nodeID) .notFound
  refuse (uint64 node.authorityGeneration ≠ generation) .scope
  let d ← found (db.deployments.get? (p.nodeID, result.revision)) .notFound
  refuse (d.digest ≠ result.payloadSHA256) .revision
  if result.stage = .applied then do
    refuse (result.assetManifestSHA256 ≠ hashes.assetManifest d.payload) .revision
    let db ← db.recordApplied hashes p node result.revision d.payload
    let node := { node with appliedRevision := max node.appliedRevision result.revision }
    return { db with nodes := db.nodes.put p.nodeID node }.pruneDeployments p.nodeID node
  else return db.pruneDeployments p.nodeID node

variable {db db' : Fleet} {p : Principal} {payload : Payload}

theorem Fleet.acknowledgeGrant_eq_ok {runtimeID id : String} {g : Grant} {s : FleetRateShare}
    (h : db.acknowledgeGrant p runtimeID g = .ok (some (id, s))) :
    id = g.id ∧ ∃ share, db.rateShares.get? g.id = some share ∧ share.nodeID = p.nodeID ∧ share.runtimeID = runtimeID ∧
      uint64 share.revision = g.rateRevision ∧ s = share.confirmed := by
  unfold Fleet.acknowledgeGrant at h
  simp only [bind_eq_ok, refuse_eq_ok, found_eq_ok, not_or, not_not] at h
  obtain ⟨share, hshare, -, ⟨hnode, -, hruntime⟩, h⟩ := h
  split at h
  · simp at h
  · next hrev =>
    simp only [bind_eq_ok, decodeRates_eq_ok, pure_eq_ok, Option.some.injEq, Prod.mk.injEq] at h
    obtain ⟨-, -, -, -, rfl, rfl⟩ := h
    exact ⟨rfl, share, hshare, hnode, hruntime, not_not.mp hrev, rfl⟩

def Payload.Claims (payload : Payload) (nodeID id : String) (share : FleetRateShare) : Prop :=
  ∃ b, payload.decode = some b ∧ ∃ r ∈ b.runtimes, ∃ g ∈ r.grants, g.id = id ∧ share.nodeID = nodeID ∧
    share.runtimeID = r.id ∧ uint64 share.revision = g.rateRevision

theorem Fleet.acknowledgeConfiguration_eq_ok (h : db.acknowledgeConfiguration p payload = .ok db') :
    ∃ shares, db' = { db with rateShares := shares } ∧ db.Confirms shares (payload.Claims p.nodeID) := by
  unfold Fleet.acknowledgeConfiguration at h
  split at h
  · cases h
    exact ⟨_, rfl, Fleet.Confirms.refl db _⟩
  · next b hb =>
    simp only [bind_eq_ok, pure_eq_ok] at h
    obtain ⟨answers, hanswers, -, -, rfl⟩ := h
    refine ⟨_, rfl, ?_⟩
    have hall : ∀ e ∈ answers.filterMap id, ∃ share, db.rateShares.get? e.1 = some share ∧
        payload.Claims p.nodeID e.1 share ∧ e.2 = share.confirmed := by
      rintro ⟨gid, s⟩ he
      obtain ⟨claim, hclaim, hack⟩ := exists_of_mem_mapM hanswers (by simpa using he)
      obtain ⟨rfl, share, hshare, hnode, hruntime, hrev, rfl⟩ := Fleet.acknowledgeGrant_eq_ok hack
      simp only [Bundle.claims, mem_flatMap, mem_map, mem_filter] at hclaim
      obtain ⟨r, hr, g, ⟨hg, -⟩, rfl⟩ := hclaim
      exact ⟨share, hshare, ⟨b, hb, r, hr, g, hg, rfl, hnode, hruntime, hrev⟩, rfl⟩
    -- The invariant of the loop over the changed shares.
    generalize answers.filterMap id = changed at hall
    suffices hloop : ∀ shares, db.Confirms shares (payload.Claims p.nodeID) →
        db.Confirms (changed.foldl (fun shares e => shares.put e.1 e.2) shares) (payload.Claims p.nodeID) from
      hloop _ (Fleet.Confirms.refl db _)
    induction changed with
    | nil => exact fun _ hs => hs
    | cons e changed ih =>
      intro shares hs
      obtain ⟨share, hget, hclaim, he⟩ := hall e mem_cons_self
      rw [foldl_cons, he]
      exact ih (fun e' he' => hall e' (mem_cons_of_mem e he')) _ (hs.put hget hclaim)

theorem Fleet.recordStops_eq_ok {node : FleetNode} {revision : Int}
    (h : db.recordStops p node revision payload = .ok db') : ∃ stops, db' = { db with grantStops := stops } := by
  have hclear : ∃ stops, db.clearAppliedEnabledStops p revision payload = { db with grantStops := stops } := by
    unfold Fleet.clearAppliedEnabledStops
    split
    · exact ⟨_, rfl⟩
    · exact ⟨_, rfl⟩
  unfold Fleet.recordStops at h
  split at h
  · obtain ⟨stops, hstops⟩ := hclear
    rw [hstops] at h
    unfold Fleet.recordStoppedGrants at h
    split at h
    · cases h
      exact ⟨_, rfl⟩
    · simp only [bind_eq_ok, pure_eq_ok] at h
      obtain ⟨-, -, rfl⟩ := h
      exact ⟨_, rfl⟩
  · cases h
    exact ⟨_, rfl⟩

theorem Fleet.supersedeAppliedOutboxes_eq_ok {hashes : Hashes} {revision : Int} (h : db.supersedeAppliedOutboxes hashes p revision payload = .ok db') :
    ∃ authorities credits, db' = { db with authorityUpdates := authorities, creditUpdates := credits } := by
  unfold Fleet.supersedeAppliedOutboxes at h
  split at h
  · cases h
    exact ⟨_, _, rfl⟩
  · obtain ⟨agent, -, h⟩ := bind_eq_ok.mp h
    split at h
    · cases h
      exact ⟨_, _, rfl⟩
    · simp only [bind_eq_ok, pure_eq_ok] at h
      obtain ⟨-, -, rfl⟩ := h
      exact ⟨_, _, rfl⟩

structure Fleet.Prunes (db : Fleet) (nodes : Table String FleetNode) (deployments : Table (String × Int) FleetDeployment) :
    Prop where
  nodes : ∀ n, (nodes.get? n).map FleetNode.desiredRevision = (db.nodes.get? n).map FleetNode.desiredRevision
  rows : ∀ k d, deployments.get? k = some d → db.deployments.get? k = some d

theorem Fleet.prunes_keep {nodeID : String} {node node' : FleetNode} (h : db.nodes.get? nodeID = some node)
    (hd : node'.desiredRevision = node.desiredRevision) (q : String × Int → FleetDeployment → Bool) :
    db.Prunes (db.nodes.put nodeID node') (db.deployments.keep q) := by
  refine ⟨fun n => ?_, fun k d hk => ?_⟩
  · rw [get?_put]
    split
    · next hn => simp [hn, h, hd]
    · rfl
  · rw [get?_keep, Option.filter_eq_some_iff] at hk
    exact hk.1

theorem Fleet.delivery_eq_ok {peer : Peer} {generation : Nat} {sent : Option Deployment}
    (h : db.delivery peer p generation = .ok (sent, db')) :
    (∀ d, sent = some d → ∃ node row, db.nodes.get? p.nodeID = some node ∧
      db.deployments.get? (p.nodeID, node.desiredRevision) = some row ∧ d.nodeID = p.nodeID ∧
      d.revision = uint64 node.desiredRevision ∧ d.payload = row.payload) ∧
    ∃ nodes deployments runtimes clients, db.Prunes nodes deployments ∧ db' = { db with
      nodes := nodes, deployments := deployments, publishedRuntimes := runtimes, publishedClients := clients } := by
  simp only [Fleet.delivery, unit_bind_eq_ok] at h
  obtain ⟨-, -, -, -, h⟩ := h
  obtain ⟨node, hnode, h⟩ := bind_eq_ok.mp h
  rw [found_eq_ok] at hnode
  obtain ⟨-, h⟩ := unit_bind_eq_ok.mp h
  split at h
  · cases h
    exact ⟨fun d hd => (by cases hd), _, _, _, _, ⟨fun _ => rfl, fun _ _ hd => hd⟩, rfl⟩
  · simp only [bind_eq_ok, found_eq_ok, pure_eq_ok, Prod.mk.injEq] at h
    obtain ⟨row, hrow, rfl, rfl⟩ := h
    refine ⟨fun d hd => ?_, _, _, _, _, ?_, rfl⟩
    · cases hd
      exact ⟨node, row, hnode, hrow, rfl, rfl, rfl⟩
    · exact Fleet.prunes_keep hnode (by rfl) _

theorem Fleet.observe_eq_ok {hashes : Hashes} {peer : Peer} {generation : Nat} {result : ApplyResult} (h : db.observe hashes peer p generation result = .ok db') :
    ∃ d shares, db.deployments.get? (p.nodeID, result.revision) = some d ∧
      db.Confirms shares (fun id share => result.stage = .applied ∧ d.payload.Claims p.nodeID id share) ∧
      ∃ nodes deployments runtimes clients stops authorities credits, db.Prunes nodes deployments ∧ db' = { db with
        rateShares := shares, nodes := nodes, deployments := deployments, publishedRuntimes := runtimes,
        publishedClients := clients, grantStops := stops, authorityUpdates := authorities, creditUpdates := credits } := by
  simp only [Fleet.observe, unit_bind_eq_ok] at h
  obtain ⟨-, -, -, -, -, h⟩ := h
  obtain ⟨node, hnode, h⟩ := bind_eq_ok.mp h
  rw [found_eq_ok] at hnode
  obtain ⟨-, h⟩ := unit_bind_eq_ok.mp h
  obtain ⟨d, hd, h⟩ := bind_eq_ok.mp h
  rw [found_eq_ok] at hd
  obtain ⟨-, h⟩ := unit_bind_eq_ok.mp h
  split at h
  · next hstage =>
    simp only [bind_eq_ok, pure_eq_ok, Fleet.recordApplied] at h
    obtain ⟨-, -, u, ⟨u₁, hack, u₂, hstops, hsuper⟩, rfl⟩ := h
    obtain ⟨shares, rfl, hshares⟩ := Fleet.acknowledgeConfiguration_eq_ok hack
    obtain ⟨stops, rfl⟩ := Fleet.recordStops_eq_ok hstops
    obtain ⟨authorities, credits, rfl⟩ := Fleet.supersedeAppliedOutboxes_eq_ok hsuper
    refine ⟨d, shares, hd, hshares.mono fun _ _ hc => ⟨hstage, hc⟩, _, _, _, _, _, _, _, ?_, rfl⟩
    exact Fleet.prunes_keep hnode (by rfl) _
  · cases h
    refine ⟨d, _, hd, Fleet.Confirms.refl db _, _, _, _, _, _, _, _, ⟨fun _ => rfl, fun k d' hk => ?_⟩, rfl⟩
    rw [get?_keep, Option.filter_eq_some_iff] at hk
    exact hk.1

end Pui
