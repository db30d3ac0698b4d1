import Mathlib.Data.List.Basic
import Pui.AuthorityDelivery

/-!
# Stopping grants

A stop publishes a deployment that is made of what is in force, except that the grants to be stopped are disabled.
-/

namespace Pui

open Guard Table List

structure StopEnvironment where
  /-- Whether the panel has a record of a client. -/
  panel : Int → Bool
  authority : Option AuthorityDeliveryValidator
  credit : Option (List (String × FleetCreditUpdate) → Except FleetError (String → Bool))
  carryProvenance : Fleet → Except FleetError Unit
  requeueCredit : Fleet → Except FleetError (Table String FleetCreditUpdate)

structure StopRuntimeScope where
  journal : FleetRuntimeJournal
  digest : Digest
  descriptors : Table String DescriptorScope

structure StopComposition where
  bundle : Bundle
  grants : Table String Grant := ∅
  runtimes : Table String String := ∅
  clients : Table (String × String) String := ∅
  placements : Table String String := ∅
  pendingAuthorities : List (String × FleetAuthorityUpdate) := []
  pendingCredits : List (String × FleetCreditUpdate) := []

def Fleet.stopRuntimeScope (hashes : Hashes) (db : Fleet) (p : Principal) (revision : Int) (digest : Digest) (b : Bundle)
    (r : Runtime) : Except FleetError StopRuntimeScope := do
  db.requireRuntimeJournal p.nodeID p.installationID r.id
  let journal ← found (db.runtimeJournals.get? (p.nodeID, r.id)) .notFound
  refuse (journal.coreID ≠ r.core) .stopComposition
  let projection ← nodeError (b.project r.id r.core)
  let descriptors ← nodeError (r.descriptorScopes hashes)
  let indexed ← found (db.publishedRuntimes.get? (p.nodeID, revision, r.id)) .stopComposition
  refuse (indexed.coreID ≠ r.core ∨ indexed.payloadDigest ≠ hashes.payload (.bundle projection) ∨
    indexed.deploymentDigest ≠ digest) .stopComposition
  return ⟨journal, hashes.payload (.bundle projection), descriptors⟩

def StopComposition.addGrant (revision : Int) (scope : StopRuntimeScope) (r : Runtime) (s : StopComposition) (g : Grant) :
    Except FleetError StopComposition := do
  refuse (g.policy.revision ≠ uint64 revision ∨ g.policy.authorityRevision ≠ g.rateRevision) .stopComposition
  return { s with
    grants := s.grants.put g.id g
    runtimes := s.runtimes.put g.id r.id
    clients := s.clients.put (r.id, g.clientID) g.id
    placements := s.placements.put g.id ((scope.descriptors.get? g.clientID).getD DescriptorScope.empty).placementID }

def Fleet.addRuntime (hashes : Hashes) (db : Fleet) (p : Principal) (revision : Int) (digest : Digest)
    (s : StopComposition × Table String StopRuntimeScope) (r : Runtime) :
    Except FleetError (StopComposition × Table String StopRuntimeScope) := do
  let scope ← db.stopRuntimeScope hashes p revision digest s.1.bundle r
  let composition ← r.grants.foldlM (StopComposition.addGrant revision scope r) s.1
  return (composition, s.2.put r.id scope)

def stopPolicy (previous : Option Grant) (policy : Policy) : Except FleetError Policy :=
  match previous with
  | none => .ok policy
  | some previous =>
    match mergeAuthority previous.policy policy with
    | .ok merged => .ok merged
    | .error _ => .error .stopComposition

def StopComposition.addAuthority (hashes : Hashes) (revision : Int) (journal : Option String)
    (scopes : Table String StopRuntimeScope) (targets : List String) (s : StopComposition)
    (e : String × FleetAuthorityUpdate) : Except FleetError StopComposition := do
  let (id, row) := e
  let scope ← found (scopes.get? row.base.runtimeID) .stopComposition
  refuse (journal ≠ some row.base.agentStateJournalID ∨ row.base.stateJournalID ≠ scope.journal.stateJournalID ∨
    row.base.creditJournalID ≠ scope.journal.creditJournalID ∨ row.base.basePayloadSHA256 ≠ scope.digest) .stopComposition
  let update ← found (row.decode hashes id).toOption .stopComposition
  let descriptor ← found (scope.descriptors.get? row.clientID) .stopComposition
  refuse (descriptor.placementID ≠ row.placementID ∨ descriptor.credentialGeneration ≠ update.credentialGeneration ∨
    descriptor.placementRevision ≠ update.placementRevision ∨ descriptor.sha256 ≠ row.descriptorSHA256) .stopComposition
  refuse ((row.acknowledgedRevision = row.revision ∧ row.acknowledgedSHA256 ≠ row.payloadSHA256) ∨
    (row.deliveryBlocked ∧ id ∉ targets)) .stopComposition
  let policy ← found (update.policy (uint64 revision)).toOption .stopComposition
  let previous := s.grants.get? id
  refuse ((s.clients.get? (row.base.runtimeID, row.clientID)).any (· ≠ id)) .stopComposition
  refuse (previous.any fun previous => previous.clientID ≠ row.clientID ∨ s.runtimes.get? id ≠ some row.base.runtimeID)
    .stopComposition
  let policy ← stopPolicy previous policy
  let pending : Bool := policy.enabled && row.acknowledgedRevision < row.revision && !targets.contains id &&
    previous.all fun previous => policy ≠ previous.policy
  return { s with
    grants := s.grants.put id ⟨id, row.clientID, policy.authorityRevision, policy⟩
    runtimes := s.runtimes.put id row.base.runtimeID
    clients := s.clients.put (row.base.runtimeID, row.clientID) id
    placements := s.placements.put id row.placementID
    pendingAuthorities := if pending then s.pendingAuthorities ++ [e] else s.pendingAuthorities }

def StopComposition.addCredit (scopes : Table String StopRuntimeScope) (targets : List String) (s : StopComposition)
    (e : String × FleetCreditUpdate) : Except FleetError StopComposition := do
  let (id, row) := e
  let grant ← found (s.grants.get? id) .stopComposition
  refuse (s.runtimes.get? id ≠ some row.runtimeID ∨ row.clientID ≠ grant.clientID ∨ row.termID ≠ grant.policy.term ∨
    grant.policy.quotaUnlimited ∨ (scopes.get? row.runtimeID).all fun scope =>
      row.stateJournalID ≠ scope.journal.stateJournalID ∨ row.creditJournalID ≠ scope.journal.creditJournalID) .stopComposition
  refuse ((row.acknowledgedRevision = row.revision ∧ row.acknowledgedCeiling ≠ row.creditCeiling) ∨ row.revision ≤ 0 ∨
    row.creditCeiling < 0) .stopComposition
  if uint64 row.revision ≤ grant.policy.creditRevision then do
    refuse ((uint64 row.revision = grant.policy.creditRevision ∧ uint64 row.creditCeiling ≠ grant.policy.creditCeiling) ∨
      uint64 row.creditCeiling > grant.policy.creditCeiling) .stopComposition
    return s
  else do
    refuse (uint64 row.creditCeiling < grant.policy.creditCeiling) .stopComposition
    let pending : Bool := grant.policy.enabled && row.acknowledgedRevision < row.revision && !targets.contains id
    return { s with
      grants := s.grants.put id { grant with
        policy := grant.policy.withCredit (uint64 row.revision) (uint64 row.creditCeiling) }
      pendingCredits := if pending then s.pendingCredits ++ [e] else s.pendingCredits }

def byRuntime {ρ : Type} (runtime : ρ → String) (t : Table String ρ) : List (String × ρ) :=
  (t.entries.map fun e => (e.1, e.2)).mergeSort fun a b =>
    runtime a.2 < runtime b.2 || (runtime a.2 = runtime b.2 && decide (a.1 ≤ b.1))

def validatePending {ρ : Type} (validator : Option (List (String × ρ) → Except FleetError (String → Bool)))
    (runtime : ρ → String) (size : Nat) (pending : List (String × ρ)) : Except FleetError Unit :=
  (pending.map fun e => runtime e.2).dedup.forM fun r => do
    let validator ← found validator .stopComposition
    ((pending.filter fun e => runtime e.2 = r).toChunks size).forM fun piece => do
      let allowed ← validator piece
      refuse (piece.any fun e => !allowed e.1) .stopComposition

def StopComposition.lockStopSources (db : Fleet) (panel : Int → Bool) (targets : List String) (s : StopComposition) :
    Except FleetError Unit :=
  (s.grants.entries.map fun e => e.2.clientID).dedup.forM fun clientID => do
    let client ← found (db.clients.get? clientID) .stopComposition
    let enabled := s.grants.entries.any fun e => e.2.clientID = clientID && e.1 ∉ targets && e.2.policy.enabled
    refuse (!client.owned ∨ (enabled ∧ !client.panelClientID.any panel)) .stopComposition

def StopComposition.verifyGrant (db : Fleet) (p : Principal) (targets : List String) (s : StopComposition)
    (e : Sigma fun _ : String => Grant) : Except FleetError Grant := do
  let (id, grant) := (e.1, e.2)
  let ledger ← found ((db.grants.get? id).filter fun a => a.nodeID = p.nodeID && a.installationID = p.installationID)
    .stopComposition
  let share ← found ((db.rateShares.get? id).filter fun a => a.nodeID = p.nodeID && a.installationID = p.installationID)
    .stopComposition
  refuse (ledger.clientID ≠ grant.clientID ∨ ledger.termID ≠ grant.policy.term ∨ s.runtimes.get? id ≠ some ledger.runtimeID ∨
    ledger.unlimited ≠ grant.policy.quotaUnlimited ∨ ledger.placementID = none ∨ share.runtimeID ≠ ledger.runtimeID ∨
    share.budgetID ≠ ledger.clientID ∨ uint64 ledger.revision < grant.policy.creditRevision ∨
    uint64 ledger.issuedBytes < grant.policy.creditCeiling ∨ uint64 share.revision < grant.policy.authorityRevision)
    .stopComposition
  refuse ((s.placements.get? id).any fun placement => placement ≠ "" ∧ some placement ≠ ledger.placementID) .stopComposition
  if id ∈ targets then
    return { grant with policy := grant.policy.withCredit (uint64 ledger.revision) (uint64 ledger.issuedBytes) }
  else do
    let rates ← decodeRates share.desired
    refuse (uint64 ledger.revision ≠ grant.policy.creditRevision ∨ uint64 ledger.issuedBytes ≠ grant.policy.creditCeiling ∨
      uint64 share.revision ≠ grant.policy.authorityRevision ∨ uint64 share.revision ≠ grant.rateRevision ∨
      rates.upload ≠ grant.policy.upload ∨ rates.download ≠ grant.policy.download) .stopComposition
    return grant

def StopComposition.verifyStopLedgers (db : Fleet) (p : Principal) (targets : List String) (s : StopComposition) :
    Except FleetError (Table String Grant) := do
  let grants ← s.grants.entries.foldlM (fun (grants : Table String Grant) e => do
    let grant ← s.verifyGrant db p targets e
    return grants.put e.1 grant) ∅
  refuse (targets.any fun id => s.grants.get? id = none) .stopComposition
  return grants

def Fleet.composeStopAuthority (hashes : Hashes) (env : StopEnvironment) (db : Fleet) (p : Principal) (revision : Int)
    (base : FleetDeployment) (targets : List String) : Except FleetError StopComposition := do
  let b ← found base.payload.decode .stopComposition
  db.requireNodeJournal p.nodeID p.installationID ""
  let agent ← found (db.nodeJournals.get? p.nodeID) .notFound
  let (s, scopes) ← b.runtimes.foldlM (db.addRuntime hashes p revision base.digest) ({ bundle := b }, ∅)
  let authorities := db.authorityUpdates.keep fun _ row => row.base.nodeID = p.nodeID &&
    row.base.installationID = p.installationID && row.base.baseConfigurationRevision = revision
  let s ← (byRuntime (·.base.runtimeID) authorities).foldlM
    (StopComposition.addAuthority hashes revision agent.stateJournalID scopes targets) s
  s.lockStopSources db env.panel targets
  validatePending env.authority (·.base.runtimeID) 128 s.pendingAuthorities
  let credits := db.creditUpdates.keep fun _ row => row.nodeID = p.nodeID && row.installationID = p.installationID &&
    row.baseConfigurationRevision = revision
  let s ← (byRuntime (·.runtimeID) credits).foldlM (StopComposition.addCredit scopes targets) s
  validatePending env.credit (·.runtimeID) 32 s.pendingCredits
  let grants ← s.verifyStopLedgers db p targets
  return { s with grants := grants }

def Fleet.stopGrant (before : Fleet) (s : Table String Grant × Fleet) (id : String) :
    Except FleetError (Table String Grant × Fleet) := do
  let grant ← found (s.1.get? id) .stopComposition
  let ledger ← found (before.grants.get? id) .stopComposition
  let expected ← found (before.rateShares.get? id) .stopComposition
  let (share, db) ← s.2.zeroStopRateShare id ledger expected
  let policy := { grant.policy with
    authorityRevision := uint64 share.revision, enabled := false, upload := Rate.zero, download := Rate.zero }
  return (s.1.put id { grant with rateRevision := uint64 share.revision, policy := policy }, db)

def StopComposition.stopBundle (s : StopComposition) (grants : Table String Grant) (revision : Nat) : Bundle :=
  { s.bundle with
    runtimes := s.bundle.runtimes.map fun r =>
      { r with
        grants := ((grants.entries.filter fun e => s.runtimes.get? e.1 = some r.id).map fun e =>
          { e.2 with policy := { e.2.policy with revision := revision } }).mergeSort fun x y => decide (x.id ≤ y.id) } }

def Fleet.lockStopRatePools (db : Fleet) (targets : List String) : Except FleetError Unit :=
  refuse (targets.any fun id => (db.rateShares.get? id).any fun share => db.rateBudgets.get? share.budgetID = none)
    .stopComposition

def Fleet.stopGrants (digests : Digests) (env : StopEnvironment) (p : Principal) (request : StopConfigurationRequest)
    (db : Fleet) : Except FleetError (StopConfigurationResult × Fleet) := do
  db.lockNode p.nodeID p.installationID
  let node ← found (db.nodes.get? p.nodeID) .notFound
  refuse (node.desiredRevision ≠ node.appliedRevision ∨ node.appliedRevision ≠ request.expectedBaseRevision) .revision
  let base ← found (db.deployments.get? (p.nodeID, node.appliedRevision)) .notFound
  refuse (digests.payload base.payload ≠ base.digest ∨ base.digest ≠ request.expectedBaseSHA256) .revision
  let s ← db.composeStopAuthority digests.toHashes env p node.appliedRevision base request.grantIDs
  db.lockStopRatePools request.grantIDs
  let (grants, db) ← request.grantIDs.foldlM db.stopGrant (s.grants, db)
  let node := { node with desiredRevision := node.desiredRevision + 1 }
  let b := s.stopBundle grants (uint64 node.desiredRevision)
  refuse (!b.valid) .stopComposition
  let d : FleetDeployment := ⟨digests.payload (.bundle b), .bundle b⟩
  let deployments ← db.deployments.create .storage (p.nodeID, node.desiredRevision) d
  let db := { db with deployments := deployments, nodes := db.nodes.put p.nodeID node }
  let db ← db.indexDeploymentAdmissions digests.toHashes p.nodeID node.installationID node.desiredRevision d
  env.carryProvenance db
  let db := db.pruneDeployments p.nodeID node
  let credits ← env.requeueCredit db
  return (⟨uint64 node.desiredRevision, d.digest, request.grantIDs, false⟩, { db with creditUpdates := credits })

def OperationResult.decodeStop : OperationResult → Option StopConfigurationResult
  | .stop result => some { result with replayed := true }
  | _ => none

def Fleet.stopConfiguration (digests : Digests) (env : StopEnvironment) (p : Principal) (request : StopConfigurationRequest)
    (db : Fleet) : Except FleetError (StopConfigurationResult × Fleet) := do
  refuse (!validID request.operationID ∨ !validID p.nodeID ∨ !validID p.installationID ∨ request.expectedBaseRevision = 0 ∨
    request.expectedBaseRevision ≥ maxInt64 ∨ request.expectedBaseSHA256.length ≠ 32 ∨ request.grantIDs.length = 0 ∨
    request.grantIDs.length > 1024) .invalid
  let request := { request with grantIDs := sortIDs request.grantIDs }
  refuse (¬request.grantIDs.all validID ∨ ¬request.grantIDs.Nodup) .invalid
  db.lockAuthority
  db.operation request.operationID (digests.stopConfiguration p.nodeID p.installationID request) .stop
    OperationResult.decodeStop (Fleet.stopGrants digests env p request)

def Keyed (grants : Table String Grant) : Prop := ∀ id g, grants.get? id = some g → g.id = id

variable {grants grants' : Table String Grant} {hashes : Hashes} {db : Fleet} {p : Principal} {revision : Int}
  {scopes : Table String StopRuntimeScope} {targets : List String} {s : StopComposition} {shares : Table String FleetRateShare}

theorem Keyed.put (h : Keyed grants) {id : String} {g : Grant} (hg : g.id = id) :
    Keyed (grants.put id g) := by
  intro id' g' hget
  rw [get?_put] at hget
  split at hget
  · next heq =>
    cases hget
    exact hg.trans heq.symm
  · exact h id' g' hget

theorem keyed_empty : Keyed ∅ := fun _ _ h => by simp at h

theorem Fleet.keyed_addRuntime {digest : Digest}
    {s s' : StopComposition × Table String StopRuntimeScope} {r : Runtime}
    (h : db.addRuntime hashes p revision digest s r = .ok s') (hs : Keyed s.1.grants) : Keyed s'.1.grants := by
  simp only [Fleet.addRuntime, bind_eq_ok, pure_eq_ok] at h
  obtain ⟨scope, -, composition, hfold, rfl⟩ := h
  refine foldlM_keeps (I := fun c : StopComposition => Keyed c.grants) (fun c g _ c' hc hk => ?_) hfold hs
  simp only [StopComposition.addGrant, bind_eq_ok, pure_eq_ok] at hc
  obtain ⟨-, -, rfl⟩ := hc
  exact hk.put rfl

theorem StopComposition.keyed_addAuthority {journal : Option String} {s' : StopComposition}
    {e : String × FleetAuthorityUpdate} (h : s.addAuthority hashes revision journal scopes targets e = .ok s')
    (hs : Keyed s.grants) : Keyed s'.grants := by
  simp only [StopComposition.addAuthority, bind_eq_ok, pure_eq_ok] at h
  obtain ⟨scope, -, -, -, update, -, descriptor, -, -, -, -, -, policy, -, -, -, -, -, merged, -, rfl⟩ := h
  exact hs.put rfl

theorem StopComposition.keyed_addCredit
    {s' : StopComposition} {e : String × FleetCreditUpdate} (h : s.addCredit scopes targets e = .ok s')
    (hs : Keyed s.grants) : Keyed s'.grants := by
  simp only [StopComposition.addCredit, bind_eq_ok, found_eq_ok] at h
  obtain ⟨grant, hgrant, -, -, -, -, h⟩ := h
  split at h
  · simp only [bind_eq_ok, pure_eq_ok] at h
    obtain ⟨-, -, rfl⟩ := h
    exact hs
  · simp only [bind_eq_ok, pure_eq_ok] at h
    obtain ⟨-, -, rfl⟩ := h
    exact hs.put (hs e.1 grant hgrant)

def StopComposition.Checked (s : StopComposition) (p : Principal) (shares : Table String FleetRateShare)
    (targets : List String) (id : String) (g : Grant) : Prop :=
  g.id = id ∧ ∃ share, shares.get? id = some share ∧ share.nodeID = p.nodeID ∧ s.runtimes.get? id = some share.runtimeID ∧
    (id ∈ targets ∨ g.Carries share)

theorem StopComposition.verifyGrant_eq_ok
    {e : Sigma fun _ : String => Grant} {g : Grant} (h : s.verifyGrant db p targets e = .ok g) (he : e.2.id = e.1) :
    s.Checked p db.rateShares targets e.1 g := by
  simp only [StopComposition.verifyGrant, bind_eq_ok, found_eq_ok, refuse_eq_ok, Option.filter_eq_some_iff, not_or, not_not,
    Bool.and_eq_true, decide_eq_true_eq] at h
  obtain ⟨ledger, -, share, ⟨hshare, hnode, -⟩, -, ⟨-, -, hruntime, -, -, hruntime', -⟩, -, -, h⟩ := h
  rw [← hruntime'] at hruntime
  split at h
  · next htarget =>
    cases h
    exact ⟨he, share, hshare, hnode, hruntime, .inl htarget⟩
  · simp only [bind_eq_ok, refuse_eq_ok, pure_eq_ok, decodeRates_eq_ok, not_or, not_not] at h
    obtain ⟨rates, ⟨-, rfl⟩, -, ⟨-, -, hauthority, hrate, hup, hdown⟩, rfl⟩ := h
    refine ⟨he, share, hshare, hnode, hruntime, .inr ⟨hauthority.symm, hrate.symm, ?_⟩⟩
    rw [← hup, ← hdown]

theorem StopComposition.verifyStopLedgers_eq_ok (h : s.verifyStopLedgers db p targets = .ok grants) (hs : Keyed s.grants) :
    ∀ id g, grants.get? id = some g → s.Checked p db.rateShares targets id g := by
  simp only [StopComposition.verifyStopLedgers, bind_eq_ok, pure_eq_ok] at h
  obtain ⟨grants', hfold, -, -, rfl⟩ := h
  refine foldlM_keeps (I := fun t : Table String Grant => ∀ id g, t.get? id = some g →
    s.Checked p db.rateShares targets id g) (fun t e he t' ht hI => ?_) hfold fun id g hget => by simp at hget
  simp only [bind_eq_ok, pure_eq_ok] at ht
  obtain ⟨grant, hgrant, rfl⟩ := ht
  intro id g hget
  rw [get?_put] at hget
  split at hget
  · next heq =>
    cases hget
    rw [heq]
    exact StopComposition.verifyGrant_eq_ok hgrant (hs e.1 e.2 (mem_entries.mp he))
  · exact hI id g hget

theorem Fleet.composeStopAuthority_eq_ok {env : StopEnvironment} {base : FleetDeployment}
    (h : db.composeStopAuthority hashes env p revision base targets = .ok s) :
    ∀ id g, s.grants.get? id = some g → s.Checked p db.rateShares targets id g := by
  simp only [Fleet.composeStopAuthority, bind_eq_ok, pure_eq_ok] at h
  obtain ⟨b, -, -, -, agent, -, ⟨s₁, scopes⟩, hruntimes, s₂, hauthorities, -, -, -, -, s₃, hcredits, -, -, grants, hverify, rfl⟩ := h
  have h₁ : Keyed s₁.grants := foldlM_keeps (I := fun c : StopComposition × Table String StopRuntimeScope => Keyed c.1.grants)
    (fun c r _ c' hc => Fleet.keyed_addRuntime hc) hruntimes keyed_empty
  have h₂ : Keyed s₂.grants := foldlM_keeps (I := fun c : StopComposition => Keyed c.grants)
    (fun c e _ c' hc => StopComposition.keyed_addAuthority hc) hauthorities h₁
  have h₃ : Keyed s₃.grants := foldlM_keeps (I := fun c : StopComposition => Keyed c.grants)
    (fun c e _ c' hc => StopComposition.keyed_addCredit hc) hcredits h₂
  have hchecked := StopComposition.verifyStopLedgers_eq_ok hverify h₃
  exact hchecked

def FleetRateShare.stopped (share : FleetRateShare) : FleetRateShare :=
  { share with revision := share.revision + 1, desired := Rates.zero }

/-- The change to `shares` takes the rates of some shares away. -/
def Fleet.Stops (db : Fleet) (shares : Table String FleetRateShare) : Prop :=
  ∀ id, shares.get? id = db.rateShares.get? id ∨
    ∃ share, db.rateShares.get? id = some share ∧ share.revision ≠ maxInt64 ∧ shares.get? id = some share.stopped

theorem Fleet.stopGrant_eq_ok {before : Fleet} {db' : Fleet} {id : String}
    (h : before.stopGrant (grants, db) id = .ok (grants', db')) :
    ∃ g share, grants.get? id = some g ∧ before.rateShares.get? id = some share ∧ db.rateShares.get? id = some share ∧
      share.revision ≠ maxInt64 ∧ db' = { db with rateShares := db.rateShares.put id share.stopped } ∧
      ∃ g', g'.id = g.id ∧ g'.Carries share.stopped ∧ grants' = grants.put id g' := by
  simp only [Fleet.stopGrant, bind_eq_ok, found_eq_ok, pure_eq_ok, Prod.mk.injEq] at h
  obtain ⟨g, hg, ledger, -, share, hshare, ⟨share', mid⟩, hzero, rfl, rfl⟩ := h
  obtain ⟨hget, hrev, rfl, rfl⟩ := Fleet.zeroStopRateShare_eq_ok hzero
  refine ⟨g, share, hg, hshare, hget, hrev, rfl, _, ?_, ?_, rfl⟩
  · rfl
  · exact ⟨rfl, rfl, rfl⟩

theorem Fleet.stopGrants_fold {before : Fleet} {db' : Fleet}
    (h : targets.foldlM before.stopGrant (grants, { before with rateShares := shares }) = .ok (grants', db'))
    (hstops : before.Stops shares) (hchecked : ∀ id g, grants.get? id = some g → s.Checked p shares targets id g) :
    ∃ shares', db' = { before with rateShares := shares' } ∧ before.Stops shares' ∧
      ∀ id g, grants'.get? id = some g → s.Checked p shares' [] id g := by
  induction targets generalizing grants shares with
  | nil =>
    cases h
    exact ⟨shares, rfl, hstops, hchecked⟩
  | cons id targets ih =>
    rw [foldlM_cons, bind_eq_ok] at h
    obtain ⟨⟨grants₁, db₁⟩, hstep, h⟩ := h
    obtain ⟨g, share, hg, hbefore, hshare, hrev, rfl, g', hid, hcarries, rfl⟩ := Fleet.stopGrant_eq_ok hstep
    refine ih h (fun id' => ?_) fun id' g₁ hget => ?_
    · show (shares.put id share.stopped).get? id' = _ ∨ _
      rw [get?_put]
      split
      · next heq => exact .inr ⟨share, heq ▸ hbefore, hrev, rfl⟩
      · exact hstops id'
    · rw [get?_put] at hget
      show s.Checked p (shares.put id share.stopped) targets id' g₁
      split at hget
      · next heq =>
        cases hget
        subst heq
        obtain ⟨hkey, share₀, hshare₀, hnode, hruntime, -⟩ := hchecked id' g hg
        have hsame : share₀ = share := Option.some.inj (hshare₀.symm.trans hshare)
        subst hsame
        exact ⟨hid.trans hkey, _, get?_put_self _ _ _, hnode, hruntime, .inr hcarries⟩
      · next hne =>
        obtain ⟨hkey, share₀, hshare₀, hnode, hruntime, hoffer⟩ := hchecked id' g₁ hget
        refine ⟨hkey, share₀, ?_, hnode, hruntime, hoffer.imp_left fun hmem => ?_⟩
        · rw [get?_put_of_ne hne, hshare₀]
        · exact (mem_cons.mp hmem).resolve_left hne

theorem StopComposition.offers_stopBundle (h : ∀ id g, grants.get? id = some g → s.Checked p shares [] id g) (revision : Nat) :
    ({ db with rateShares := shares } : Fleet).OffersBundle p.nodeID (s.stopBundle grants revision) := by
  intro r' hr' g' hg'
  obtain ⟨r, -, rfl⟩ := mem_map.mp hr'
  obtain ⟨e, he, rfl⟩ := mem_map.mp (mem_mergeSort.mp hg')
  obtain ⟨he, hruntime'⟩ := mem_filter.mp he
  obtain ⟨hid, share, hshare, hnode, hruntime, hcarries⟩ := h e.1 e.2 (mem_entries.mp he)
  have hr : share.runtimeID = r.id := Option.some.inj (hruntime.symm.trans (of_decide_eq_true hruntime'))
  refine ⟨share, ?_, hnode, hr, hcarries.resolve_left (not_mem_nil)⟩
  show shares.get? e.2.id = some share
  rw [hid, hshare]

theorem Fleet.stopConfiguration_eq_ok {digests : Digests} {env : StopEnvironment}
    {request : StopConfigurationRequest} {db' : Fleet} {result : StopConfigurationResult}
    (h : db.stopConfiguration digests env p request = .ok (result, db')) :
    db' = db ∨ ∃ ops shares runtimes clients credits node d, db.Stops shares ∧ db.nodes.get? p.nodeID = some node ∧
      node.desiredRevision ≠ maxInt64 ∧ ({ db with rateShares := shares } : Fleet).OffersPayload p.nodeID d.payload ∧
      db' = { db.withDeployment p.nodeID node d with
        operations := ops, rateShares := shares, publishedRuntimes := runtimes, publishedClients := clients,
        creditUpdates := credits } := by
  simp only [Fleet.stopConfiguration, unit_bind_eq_ok, refuse_eq_ok, not_or] at h
  obtain ⟨⟨-, -, -, -, hexpected, -⟩, -, -, h⟩ := h
  rcases Fleet.operation_eq_ok h with ⟨-, -, -, -, rfl⟩ | ⟨-, mid, hbody, rfl⟩
  · exact .inl rfl
  · right
    simp only [Fleet.stopGrants, bind_eq_ok, found_eq_ok, refuse_eq_ok, create_eq_ok, pure_eq_ok, Prod.mk.injEq, not_or,
      not_not] at hbody
    obtain ⟨-, -, node, hnode, -, ⟨hdesired, happlied⟩, base, -, -, -, s, hcompose, -, -, ⟨grants, stopped⟩, hfold, -, -, -, ⟨-, rfl⟩, indexed,
      hindex, -, -, credits, -, -, rfl⟩ := hbody
    obtain ⟨shares, rfl, hstops, hchecked⟩ := Fleet.stopGrants_fold hfold (fun _ => .inl rfl)
      (Fleet.composeStopAuthority_eq_ok hcompose)
    obtain ⟨runtimes, clients, rfl⟩ := Fleet.indexDeploymentAdmissions_eq_ok hindex
    refine ⟨_, shares, _, _, credits, node, _, hstops, hnode, ?_, ?_, rfl⟩
    · rw [hdesired, happlied]
      omega
    · exact (StopComposition.offers_stopBundle hchecked _).payload

end Pui
