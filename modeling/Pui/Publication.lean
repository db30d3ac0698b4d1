import Pui.RateShares

/-!
# Publishing deployments

A deployment is published with the next revision of its node, after its grants were checked.
-/

namespace Pui

open Guard Table List

def Bundle.mapGrants (f : Grant → Grant) (b : Bundle) : Bundle :=
  { b with runtimes := b.runtimes.map fun r => { r with grants := r.grants.map f } }

def Bundle.withRevision (revision : Nat) (b : Bundle) : Bundle :=
  b.mapGrants fun g => { g with policy := { g.policy with revision := revision } }

def Bundle.sorted (b : Bundle) : Bundle :=
  { b with
    runtimes := (b.runtimes.map fun r =>
        { r with grants := r.grants.mergeSort fun x y => decide (x.id ≤ y.id) }).mergeSort fun x y => decide (x.id ≤ y.id) }

def Bundle.normalized (b : Bundle) : Bundle := (b.withRevision 1).sorted

def Fleet.runtimeGrant (db : Fleet) (p : Principal) (runtimeID : String) (g : Grant) : Except FleetError Grant := do
  let a ← found ((db.grants.get? g.id).filter fun a => a.nodeID = p.nodeID && a.installationID = p.installationID) .scope
  let s ← found ((db.rateShares.get? g.id).filter fun s => s.nodeID = p.nodeID && s.installationID = p.installationID) .scope
  refuse (g.policy.creditRevision ≠ 0 ∧ g.policy.creditRevision ≠ uint64 a.revision) .revision
  refuse (g.policy.authorityRevision ≠ 0 ∧ g.policy.authorityRevision ≠ uint64 s.revision) .revision
  refuse (a.runtimeID ≠ runtimeID ∨ a.clientID ≠ g.clientID ∨ a.termID ≠ g.policy.term ∨
    a.unlimited ≠ g.policy.quotaUnlimited ∨ uint64 a.issuedBytes ≠ g.policy.creditCeiling ∨ s.runtimeID ≠ runtimeID ∨
    uint64 s.revision ≠ g.rateRevision) .scope
  let rates ← decodeRates s.desired
  refuse (rates.upload ≠ g.policy.upload ∨ rates.download ≠ g.policy.download) .scope
  return { g with policy := { g.policy with
    creditRevision := uint64 a.revision, authorityRevision := uint64 s.revision } }

def Fleet.validateRuntimeGrants (db : Fleet) (p : Principal) (b : Bundle) : Except FleetError Bundle := do
  let runtimes ← b.runtimes.mapM fun r => do
    let grants ← r.grants.mapM (db.runtimeGrant p r.id)
    return { r with grants := grants }
  return { b with runtimes := runtimes }

/-- A grant of a managed client belongs to one of its terms. -/
def Fleet.guardGrant (db : Fleet) (now : Int) (g : Grant) : Except FleetError Unit :=
  match db.clients.get? g.clientID with
  | none => .ok ()
  | some client => do
    let term ← found (db.terms.get? g.policy.term) .scope
    refuse (term.clientID ≠ g.clientID ∨ g.policy.expiresUnixMilli ≠ term.expiresUnixMilli) .scope
    refuse (g.policy.enabled ∧ (client.panelClientID = none ∨ client.currentTermID ≠ some g.policy.term ∨
      term.state ≠ .active ∨ (term.expiresUnixMilli ≠ 0 ∧ term.expiresUnixMilli ≤ now))) .scope

def Fleet.guardOwnedPlacement (db : Fleet) (nodeID : String) (r : Runtime) (g : Grant) : Except FleetError Unit :=
  match (db.clients.get? g.clientID).filter fun client => client.owned && g.policy.enabled with
  | none => .ok ()
  | some client => do
    let row ← found (db.grants.get? g.id) .scope
    let placementID ← found row.placementID .scope
    let placement ← found (db.placements.get? placementID) .scope
    refuse (row.nodeID ≠ nodeID ∨ row.clientID ≠ g.clientID ∨ row.termID ≠ g.policy.term ∨ row.runtimeID ≠ r.id ∨
      !placement.enabled ∨ placement.graphDigest.length ≠ 32 ∨ placement.clientID ≠ row.clientID ∨
      placement.nodeID ≠ nodeID ∨ placement.installationID ≠ row.installationID ∨ placement.runtimeID ≠ r.id ∨
      placement.coreID ≠ r.core ∨ placement.credentialGeneration ≠ client.credentialGeneration) .scope

def Fleet.guardManagedBundle (db : Fleet) (nodeID : String) (b : Bundle) (now : Int) : Except FleetError Fleet := do
  b.grants.forM (db.guardGrant now)
  b.runtimes.forM fun r => r.grants.forM (db.guardOwnedPlacement nodeID r)
  return { db with grantStops := db.grantStops.keep fun id _ => !b.grants.any fun g => g.policy.enabled && g.id = id }

def Fleet.guardPayload (db : Fleet) (nodeID : String) (payload : Payload) (now : Int) : Except FleetError Fleet :=
  match payload.decode with
  | some b => db.guardManagedBundle nodeID b now
  | none => .ok db

def Fleet.indexedRuntimes (db : Fleet) (nodeID installationID : String) (b : Bundle) : List Runtime :=
  let registered := (db.runtimeJournals.keep fun k j => k.1 = nodeID && j.installationID = installationID).entries
  let missing := registered.filter fun e => !b.runtimes.any fun r => r.id = e.1.2
  (b.runtimes ++ missing.map fun e => (⟨e.1.2, e.2.coreID, [], [], []⟩ : Runtime)).mergeSort fun x y => decide (x.id ≤ y.id)

def nodeError {α : Type} : Except NodeError α → Except FleetError α
  | .ok a => .ok a
  | .error e => .error (.node e)

def Fleet.indexRuntime (hashes : Hashes) (nodeID : String) (revision : Int) (digest : Digest) (b : Bundle) (db : Fleet)
    (r : Runtime) : Except FleetError Fleet := do
  let projection ← nodeError (b.project r.id r.core)
  let scopes ← nodeError (r.descriptorScopes hashes)
  let runtimes ← db.publishedRuntimes.create .storage (nodeID, revision, r.id)
    ⟨r.core, digest, hashes.payload (.bundle projection)⟩
  let clients := scopes.entries.foldl (fun (clients : Table _ _) e => clients.put (nodeID, revision, r.id, e.1)
    ⟨e.2, r.grants.find? fun g => g.clientID = e.1⟩) db.publishedClients
  return { db with publishedRuntimes := runtimes, publishedClients := clients }

def Fleet.indexDeploymentAdmissions (hashes : Hashes) (nodeID installationID : String) (revision : Int) (d : FleetDeployment)
    (db : Fleet) : Except FleetError Fleet :=
  match d.payload.decode with
  | none => .ok db
  | some b => do
    refuse (hashes.payload d.payload ≠ d.digest) .scope
    if db.publishedRuntimes.entries.any fun e => e.1.1 = nodeID && e.1.2.1 = revision then return db
    else (db.indexedRuntimes nodeID installationID b).foldlM (Fleet.indexRuntime hashes nodeID revision d.digest b) db

def FleetNode.needs (node : FleetNode) (revision : Int) : Bool :=
  revision = node.desiredRevision || revision = node.appliedRevision || revision = node.sentRevision

def Fleet.pruneDeployments (db : Fleet) (nodeID : String) (node : FleetNode) : Fleet :=
  { db with
    publishedClients := db.publishedClients.keep fun k _ => k.1 ≠ nodeID || node.needs k.2.1
    publishedRuntimes := db.publishedRuntimes.keep fun k _ => k.1 ≠ nodeID || node.needs k.2.1
    deployments := db.deployments.keep fun k _ => k.1 ≠ nodeID || node.needs k.2 }

/-- Publish a payload, unless it is the one that is desired already. -/
def Fleet.publish (digests : Digests) (nodeID : String) (payload : Payload) (now : Int) (db : Fleet) :
    Except FleetError (Nat × Fleet) := do
  refuse (!validID nodeID ∨ digests.payloadSize payload = 0 ∨ digests.payloadSize payload > 2 ^ 25) .invalid
  db.lockAuthority
  let node ← found (db.nodes.get? nodeID) .notFound
  let db ← db.guardPayload nodeID payload now
  let d : FleetDeployment := ⟨digests.payload payload, payload⟩
  match (db.deployments.get? (nodeID, node.desiredRevision)).filter fun current => current.digest = d.digest with
  | some current => do
    let db ← db.indexDeploymentAdmissions digests.toHashes nodeID node.installationID node.desiredRevision current
    return (uint64 node.desiredRevision, db)
  | none => do
    refuse (node.desiredRevision = maxInt64) .revision
    let node := { node with desiredRevision := node.desiredRevision + 1 }
    let db := { db with
      deployments := db.deployments.put (nodeID, node.desiredRevision) d
      nodes := db.nodes.put nodeID node }
    let db ← db.indexDeploymentAdmissions digests.toHashes nodeID node.installationID node.desiredRevision d
    return (uint64 node.desiredRevision, db.pruneDeployments nodeID node)

def Fleet.desiredBundle (db : Fleet) (nodeID : String) (node : FleetNode) : Option Bundle :=
  (db.deployments.get? (nodeID, node.desiredRevision)).bind (·.payload.decode)

/-- Publish a bundle, unless it is the desired one up to order and revisions. -/
def Fleet.publishConfiguration (digests : Digests) (p : Principal) (desired : Bundle)
    (admissions : Bundle → Except FleetError Unit) (now : Int) (db : Fleet) : Except FleetError (Nat × Fleet) := do
  refuse (!desired.valid) (.node .configuration)
  db.lockAuthority
  db.lockNode p.nodeID p.installationID
  let node ← found (db.nodes.get? p.nodeID) .notFound
  refuse (node.desiredRevision = maxInt64) .revision
  let b ← db.validateRuntimeGrants p desired
  admissions b
  match db.desiredBundle p.nodeID node with
  | some previous =>
    if previous.normalized = b.normalized then do
      let old ← found (db.deployments.get? (p.nodeID, node.desiredRevision)) .notFound
      let db ← db.indexDeploymentAdmissions digests.toHashes p.nodeID node.installationID node.desiredRevision old
      return (uint64 node.desiredRevision, db)
    else db.publish digests p.nodeID (.bundle (b.sorted.withRevision (uint64 (node.desiredRevision + 1)))) now
  | none => db.publish digests p.nodeID (.bundle (b.withRevision (uint64 (node.desiredRevision + 1)))) now

def Fleet.publishDeployment (digests : Digests) (nodeID : String) (payload : Payload)
    (admissions : Bundle → Except FleetError Unit) (now : Int) (db : Fleet) : Except FleetError (Nat × Fleet) := do
  refuse (!validID nodeID ∨ digests.payloadSize payload = 0 ∨ digests.payloadSize payload > 2 ^ 25) .invalid
  match payload.decode with
  | none => db.publish digests nodeID payload now
  | some b => do
    db.lockAuthority
    let node ← found (db.nodes.get? nodeID) .notFound
    db.publishConfiguration digests ⟨"", nodeID, node.installationID, ""⟩ b admissions now

variable {db db' : Fleet} {nodeID : String} {now : Int} {b : Bundle} {digests : Digests} {revision : Nat} {p : Principal}
  {admissions : Bundle → Except FleetError Unit}

theorem Fleet.guardPayload_eq_ok {payload : Payload}
    (h : db.guardPayload nodeID payload now = .ok db') : ∃ stops, db' = { db with grantStops := stops } := by
  unfold Fleet.guardPayload at h
  split at h
  · simp only [Fleet.guardManagedBundle, bind_eq_ok, pure_eq_ok] at h
    obtain ⟨-, -, -, -, rfl⟩ := h
    exact ⟨_, rfl⟩
  · cases h
    exact ⟨_, rfl⟩

theorem Fleet.indexRuntime_eq_ok {hashes : Hashes} {revision : Int} {digest : Digest} {r : Runtime} (h : db.indexRuntime hashes nodeID revision digest b r = .ok db') :
    ∃ runtimes clients, db' = { db with publishedRuntimes := runtimes, publishedClients := clients } := by
  simp only [Fleet.indexRuntime, bind_eq_ok, pure_eq_ok] at h
  obtain ⟨-, -, -, -, runtimes, -, rfl⟩ := h
  exact ⟨_, _, rfl⟩

theorem Fleet.indexDeploymentAdmissions_eq_ok {hashes : Hashes} {installationID : String} {revision : Int}
    {d : FleetDeployment} (h : db.indexDeploymentAdmissions hashes nodeID installationID revision d = .ok db') :
    ∃ runtimes clients, db' = { db with publishedRuntimes := runtimes, publishedClients := clients } := by
  unfold Fleet.indexDeploymentAdmissions at h
  split at h
  · cases h
    exact ⟨_, _, rfl⟩
  · simp only [unit_bind_eq_ok] at h
    obtain ⟨-, h⟩ := h
    split at h
    · cases h
      exact ⟨_, _, rfl⟩
    · refine foldlM_keeps (I := fun u : Fleet => ∃ runtimes clients, u = { db with
        publishedRuntimes := runtimes, publishedClients := clients }) ?_ h ⟨_, _, rfl⟩
      rintro _ r - u' hr ⟨_, _, rfl⟩
      obtain ⟨_, _, rfl⟩ := Fleet.indexRuntime_eq_ok hr
      exact ⟨_, _, rfl⟩

def Fleet.withDeployment (db : Fleet) (nodeID : String) (node : FleetNode) (d : FleetDeployment) : Fleet :=
  { db with
    nodes := db.nodes.put nodeID { node with desiredRevision := node.desiredRevision + 1 }
    deployments := (db.deployments.put (nodeID, node.desiredRevision + 1) d).keep fun k _ =>
      k.1 ≠ nodeID || { node with desiredRevision := node.desiredRevision + 1 : FleetNode }.needs k.2 }

theorem Fleet.publish_eq_ok {payload : Payload} (h : db.publish digests nodeID payload now = .ok (revision, db')) :
    ∃ stops runtimes clients node, db.nodes.get? nodeID = some node ∧
      (db' = { db with grantStops := stops, publishedRuntimes := runtimes, publishedClients := clients } ∨
        node.desiredRevision ≠ maxInt64 ∧ db' = { db.withDeployment nodeID node ⟨digests.payload payload, payload⟩ with
          grantStops := stops, publishedRuntimes := runtimes, publishedClients := clients }) := by
  simp only [Fleet.publish, unit_bind_eq_ok] at h
  obtain ⟨-, -, h⟩ := h
  obtain ⟨node, hnode, h⟩ := bind_eq_ok.mp h
  rw [found_eq_ok] at hnode
  obtain ⟨mid, hguard, h⟩ := bind_eq_ok.mp h
  obtain ⟨stops, rfl⟩ := Fleet.guardPayload_eq_ok hguard
  split at h
  · simp only [bind_eq_ok, pure_eq_ok, Prod.mk.injEq] at h
    obtain ⟨u, hindex, -, rfl⟩ := h
    obtain ⟨runtimes, clients, rfl⟩ := Fleet.indexDeploymentAdmissions_eq_ok hindex
    exact ⟨stops, runtimes, clients, node, hnode, .inl rfl⟩
  · simp only [bind_eq_ok, refuse_eq_ok, pure_eq_ok, Prod.mk.injEq] at h
    obtain ⟨-, hmax, u, hindex, -, rfl⟩ := h
    obtain ⟨runtimes, clients, rfl⟩ := Fleet.indexDeploymentAdmissions_eq_ok hindex
    exact ⟨stops, _, _, node, hnode, .inr ⟨hmax, rfl⟩⟩

def Grant.Carries (g : Grant) (share : FleetRateShare) : Prop :=
  g.policy.authorityRevision = uint64 share.revision ∧ g.rateRevision = uint64 share.revision ∧
    share.desired = ⟨g.policy.upload, g.policy.download⟩

def Fleet.Offers (db : Fleet) (nodeID runtimeID : String) (g : Grant) : Prop :=
  ∃ share, db.rateShares.get? g.id = some share ∧ share.nodeID = nodeID ∧ share.runtimeID = runtimeID ∧ g.Carries share

def Fleet.OffersBundle (db : Fleet) (nodeID : String) (b : Bundle) : Prop :=
  ∀ r ∈ b.runtimes, ∀ g ∈ r.grants, db.Offers nodeID r.id g

theorem Fleet.runtimeGrant_eq_ok {runtimeID : String} {g g' : Grant}
    (h : db.runtimeGrant p runtimeID g = .ok g') : db.Offers p.nodeID runtimeID g' := by
  simp only [Fleet.runtimeGrant, bind_eq_ok, refuse_eq_ok, found_eq_ok, pure_eq_ok, decodeRates_eq_ok,
    Option.filter_eq_some_iff, not_or, not_not, Bool.and_eq_true, decide_eq_true_eq] at h
  obtain ⟨a, -, s, ⟨hs, hnode, -⟩, -, -, -, -, -, ⟨-, -, -, -, -, hruntime, hrate⟩, rates, ⟨-, rfl⟩, -, ⟨hup, hdown⟩, rfl⟩ := h
  refine ⟨s, hs, hnode, hruntime, rfl, hrate.symm, ?_⟩
  rw [← hup, ← hdown]

theorem Fleet.validateRuntimeGrants_eq_ok {b' : Bundle}
    (h : db.validateRuntimeGrants p b = .ok b') : db.OffersBundle p.nodeID b' := by
  simp only [Fleet.validateRuntimeGrants, bind_eq_ok, pure_eq_ok] at h
  obtain ⟨runtimes, hruntimes, rfl⟩ := h
  intro r' hr' g' hg'
  obtain ⟨r, -, hr⟩ := exists_of_mem_mapM hruntimes hr'
  simp only [bind_eq_ok, pure_eq_ok] at hr
  obtain ⟨grants, hgrants, rfl⟩ := hr
  obtain ⟨g, -, hg⟩ := exists_of_mem_mapM hgrants hg'
  exact Fleet.runtimeGrant_eq_ok hg

theorem Fleet.OffersBundle.withRevision (h : db.OffersBundle nodeID b)
    (revision : Nat) : db.OffersBundle nodeID (b.withRevision revision) := by
  intro r' hr' g' hg'
  obtain ⟨r, hr, rfl⟩ := mem_map.mp hr'
  obtain ⟨g, hg, rfl⟩ := mem_map.mp hg'
  exact h r hr g hg

theorem Fleet.OffersBundle.sorted (h : db.OffersBundle nodeID b) :
    db.OffersBundle nodeID b.sorted := by
  intro r' hr' g' hg'
  obtain ⟨r, hr, rfl⟩ := mem_map.mp (mem_mergeSort.mp hr')
  exact h r hr g' (mem_mergeSort.mp hg')

def Fleet.OffersPayload (db : Fleet) (nodeID : String) (payload : Payload) : Prop :=
  ∀ b, payload.decode = some b → db.OffersBundle nodeID b

theorem Fleet.OffersBundle.payload (h : db.OffersBundle nodeID b) :
    db.OffersPayload nodeID (.bundle b) := by
  intro b' hb'
  simp only [Payload.decode, Option.ite_none_right_eq_some, Option.some.injEq] at hb'
  obtain ⟨-, rfl⟩ := hb'
  exact h

def Fleet.PublishedAs (digests : Digests) (db db' : Fleet) (nodeID : String) : Prop :=
  ∃ stops runtimes clients,
    db' = { db with grantStops := stops, publishedRuntimes := runtimes, publishedClients := clients } ∨
    ∃ node payload, db.nodes.get? nodeID = some node ∧ node.desiredRevision ≠ maxInt64 ∧
      db.OffersPayload nodeID payload ∧ db' = { db.withDeployment nodeID node ⟨digests.payload payload, payload⟩ with
        grantStops := stops, publishedRuntimes := runtimes, publishedClients := clients }

theorem Fleet.publishedAs_of_publish {payload : Payload} (h : db.publish digests nodeID payload now = .ok (revision, db')) (ho : db.OffersPayload nodeID payload) :
    Fleet.PublishedAs digests db db' nodeID := by
  obtain ⟨stops, runtimes, clients, node, hnode, h | ⟨hmax, h⟩⟩ := Fleet.publish_eq_ok h
  · exact ⟨stops, runtimes, clients, .inl h⟩
  · exact ⟨stops, runtimes, clients, .inr ⟨node, payload, hnode, hmax, ho, h⟩⟩

theorem Fleet.publishConfiguration_eq_ok {desired : Bundle}
    (h : db.publishConfiguration digests p desired admissions now = .ok (revision, db')) :
    Fleet.PublishedAs digests db db' p.nodeID := by
  simp only [Fleet.publishConfiguration, unit_bind_eq_ok] at h
  obtain ⟨-, -, -, h⟩ := h
  obtain ⟨node, -, h⟩ := bind_eq_ok.mp h
  obtain ⟨-, h⟩ := unit_bind_eq_ok.mp h
  obtain ⟨b, hb, h⟩ := bind_eq_ok.mp h
  obtain ⟨-, h⟩ := unit_bind_eq_ok.mp h
  have hoffers := Fleet.validateRuntimeGrants_eq_ok hb
  split at h
  · split at h
    · simp only [bind_eq_ok, pure_eq_ok, Prod.mk.injEq] at h
      obtain ⟨old, -, u, hindex, -, rfl⟩ := h
      obtain ⟨runtimes, clients, rfl⟩ := Fleet.indexDeploymentAdmissions_eq_ok hindex
      exact ⟨_, runtimes, clients, .inl rfl⟩
    · exact Fleet.publishedAs_of_publish h (hoffers.sorted.withRevision _).payload
  · exact Fleet.publishedAs_of_publish h (hoffers.withRevision _).payload

theorem Fleet.publishDeployment_eq_ok {payload : Payload}
    (h : db.publishDeployment digests nodeID payload admissions now = .ok (revision, db')) :
    Fleet.PublishedAs digests db db' nodeID := by
  simp only [Fleet.publishDeployment, unit_bind_eq_ok] at h
  obtain ⟨-, h⟩ := h
  split at h
  · next hdecode =>
    refine Fleet.publishedAs_of_publish h fun b hb => ?_
    rw [hdecode] at hb
    cases hb
  · obtain ⟨-, h⟩ := unit_bind_eq_ok.mp h
    obtain ⟨node, -, h⟩ := bind_eq_ok.mp h
    exact Fleet.publishConfiguration_eq_ok h

end Pui
