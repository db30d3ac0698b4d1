import Pui.Configuration
import Pui.Rows
import Pui.Usage

/-!
# The control plane's database

The tables of the control plane, and the checks that its transactions share.
-/

namespace Pui

open Guard

inductive FleetError where
  | invalid
  | budget
  | conflict
  | sequence
  | scope
  | revision
  | recovery
  | drain
  | enrollment
  | creditJournal
  | creditDeliveryRequired
  | stopComposition
  | notFound
  | storage
  | json
  | node (e : NodeError)
  deriving DecidableEq

structure Rates where
  upload : Rate
  download : Rate
  deriving DecidableEq

def Rate.zero : Rate := ⟨.blocked, 0, 0⟩

def Rates.zero : Rates := ⟨Rate.zero, Rate.zero⟩

def Rates.validate (r : Rates) : Except NodeError Unit :=
  Policy.validate ⟨"rate-validation", 1, 0, false, 0, false, 0, 0, r.upload, r.download⟩

def decodeRates (r : Rates) : Except FleetError Rates :=
  match r.validate with
  | .error e => .error (.node e)
  | .ok () => .ok r

structure FleetFence where
  recoveryRequired : Bool
  deriving DecidableEq

structure FleetNode where
  installationID : String
  enabled : Bool
  authorityGeneration : Int := 0
  desiredRevision : Int := 0
  appliedRevision : Int := 0
  sentRevision : Int := 0
  deriving DecidableEq

/-- The certificate that a node last received when it rotated its credential. -/
structure FleetCredential where
  installationID : String
  keyDigest : Digest
  certificate : List UInt8
  deriving DecidableEq

structure FleetEnrollment where
  nodeID : String
  installationID : String
  expiresUnixMilli : Int
  requestID : Option String
  keyDigest : Digest
  certificate : List UInt8
  deriving DecidableEq

structure FleetNodeJournal where
  installationID : String
  stateJournalID : Option String
  recoveryRequired : Bool
  deriving DecidableEq

structure FleetRuntimeJournal where
  installationID : String
  coreID : String
  stateJournalID : String
  creditJournalID : String
  ready : Bool := false
  receivedUnixMilli : Int := 0
  deriving DecidableEq

structure FleetClient where
  panelClientID : Option Int
  revision : Int
  credentialGeneration : Int
  currentTermID : Option String
  pendingTermID : Option String
  owned : Bool
  deriving DecidableEq

inductive TermKind where
  | activation
  | renewal
  | trafficReset
  | unknown (kind : String)
  deriving DecidableEq

inductive TermState where
  | pending
  | active
  | draining
  | closed
  deriving DecidableEq

structure FleetTerm where
  clientID : String
  generation : Int
  predecessorID : Option String
  kind : TermKind
  state : TermState
  credentialGeneration : Int
  sourcePolicyDigest : Digest
  budgetID : String
  durationMillis : Int
  startedUnixMilli : Int
  expiresUnixMilli : Int
  rates : Rates
  openingUploaded : Int
  openingDownloaded : Int
  deriving DecidableEq

structure FleetPlacement where
  clientID : String
  nodeID : String
  installationID : String
  runtimeID : String
  coreID : String
  revision : Int
  enabled : Bool
  credentialGeneration : Int
  sourcePolicyDigest : Digest
  graphDigest : Digest
  currentGrantID : Option String
  currentGrantTermID : Option String
  deriving DecidableEq

structure FleetBudget where
  limitBytes : Int
  unlimited : Bool
  usedBytes : Int
  reservedBytes : Int
  deriving DecidableEq

structure FleetGrant where
  placementID : Option String
  nodeID : String
  installationID : String
  runtimeID : String
  clientID : String
  termID : String
  unlimited : Bool
  issuedBytes : Int
  consumedBytes : Int
  revision : Int
  deriving DecidableEq

structure FleetMeter where
  uploaded : Int
  downloaded : Int
  deriving DecidableEq

structure FleetUsageCursor where
  sequence : Int
  digest : Digest
  deriving DecidableEq

structure FleetTermUsage where
  uploaded : Int
  downloaded : Int
  observedUnixMilli : Int
  receivedUnixMilli : Int
  deriving DecidableEq

structure FleetTermUsageDay where
  uploaded : Int
  downloaded : Int
  deriving DecidableEq

structure FleetRateBudget where
  clientID : String
  termID : String
  revision : Int
  desired : Rates
  deriving DecidableEq

structure FleetRateShare where
  budgetID : String
  nodeID : String
  installationID : String
  runtimeID : String
  revision : Int
  appliedRevision : Int
  desired : Rates
  outstanding : Rates
  deriving DecidableEq

/-- The proof that a node applied a state in which a grant is disabled. -/
structure FleetGrantStop where
  deploymentRevision : Int
  rateRevision : Int
  deriving DecidableEq

structure FleetDeployment where
  digest : Digest
  payload : Payload
  deriving DecidableEq

structure FleetPublishedRuntime where
  coreID : String
  deploymentDigest : Digest
  payloadDigest : Digest
  deriving DecidableEq

structure FleetPublishedClientAdmission where
  scope : DescriptorScope
  baseGrant : Option Grant
  deriving DecidableEq

structure FleetAuthorityUpdate where
  base : AuthorityBase
  clientID : String
  termID : String
  placementID : String
  descriptorSHA256 : Digest
  revision : Int
  payload : AuthorityUpdate
  payloadSHA256 : Digest
  acknowledgedRevision : Int
  acknowledgedSHA256 : Digest
  deliveryBlocked : Bool
  deriving DecidableEq

structure FleetCreditUpdate where
  nodeID : String
  installationID : String
  runtimeID : String
  stateJournalID : String
  creditJournalID : String
  clientID : String
  termID : String
  baseConfigurationRevision : Int
  revision : Int
  creditCeiling : Int
  acknowledgedRevision : Int
  acknowledgedCeiling : Int
  deriving DecidableEq

structure StopConfigurationResult where
  revision : Nat
  payloadSHA256 : Digest
  grantIDs : List String
  replayed : Bool
  deriving DecidableEq

structure TransitionResult where
  clientID : String
  client : FleetClient
  termID : String
  term : FleetTerm
  pendingDrain : Bool
  replayed : Bool
  deriving DecidableEq

inductive OperationResult where
  | empty
  | grant (id : String) (row : FleetGrant)
  | transition (result : TransitionResult)
  | share (id : String) (row : FleetRateShare)
  | stop (result : StopConfigurationResult)
  deriving DecidableEq

structure FleetOperation where
  digest : Digest
  result : OperationResult
  deriving DecidableEq

structure Ledger where
  budgets : Table String FleetBudget := ∅
  grants : Table String FleetGrant := ∅
  links : Table (String × String) Unit := ∅
  meters : Table (String × String × String) FleetMeter := ∅

structure Fleet extends Ledger where
  fence : Option FleetFence := some ⟨false⟩
  nodes : Table String FleetNode := ∅
  credentials : Table String FleetCredential := ∅
  enrollments : Table String FleetEnrollment := ∅
  nodeJournals : Table String FleetNodeJournal := ∅
  runtimeJournals : Table (String × String) FleetRuntimeJournal := ∅
  clients : Table String FleetClient := ∅
  terms : Table String FleetTerm := ∅
  placements : Table String FleetPlacement := ∅
  placementInbounds : Table (String × String) (Option Int) := ∅
  cursors : Table (String × String) FleetUsageCursor := ∅
  operations : Table String FleetOperation := ∅
  termUsages : Table String FleetTermUsage := ∅
  termUsageDays : Table (String × Int) FleetTermUsageDay := ∅
  rateBudgets : Table String FleetRateBudget := ∅
  rateShares : Table String FleetRateShare := ∅
  grantStops : Table String FleetGrantStop := ∅
  deployments : Table (String × Int) FleetDeployment := ∅
  publishedRuntimes : Table (String × Int × String) FleetPublishedRuntime := ∅
  publishedClients : Table (String × Int × String × String) FleetPublishedClientAdmission := ∅
  authorityUpdates : Table String FleetAuthorityUpdate := ∅
  creditUpdates : Table String FleetCreditUpdate := ∅

def Fleet.operation {α : Type} (db : Fleet) (id : String) (digest : Digest) (encode : α → OperationResult)
    (decode : OperationResult → Option α) (body : Fleet → Except FleetError (α × Fleet)) : Except FleetError (α × Fleet) :=
  match db.operations.get? id with
  | some op => do
    refuse (op.digest ≠ digest) .conflict
    let result ← found (decode op.result) .json
    return (result, db)
  | none => do
    let (result, db) ← body { db with operations := db.operations.put id ⟨digest, .empty⟩ }
    return (result, { db with operations := db.operations.put id ⟨digest, encode result⟩ })

theorem Fleet.operation_eq_ok {α : Type} {db db' : Fleet} {id : String} {digest : Digest} {encode : α → OperationResult}
    {decode : OperationResult → Option α} {body : Fleet → Except FleetError (α × Fleet)} {a : α}
    (h : db.operation id digest encode decode body = .ok (a, db')) :
    (∃ op, db.operations.get? id = some op ∧ op.digest = digest ∧ decode op.result = some a ∧ db' = db) ∨
    (db.operations.get? id = none ∧ ∃ mid, body { db with operations := db.operations.put id ⟨digest, .empty⟩ } = .ok (a, mid) ∧
      db' = { mid with operations := mid.operations.put id ⟨digest, encode a⟩ }) := by
  unfold Fleet.operation at h
  cases hop : db.operations.get? id with
  | some op =>
    simp only [hop, bind_eq_ok, refuse_eq_ok, found_eq_ok, pure_eq_ok, Prod.mk.injEq, not_not] at h
    obtain ⟨-, hd, r, hr, rfl, rfl⟩ := h
    exact .inl ⟨op, rfl, hd, hr, rfl⟩
  | none =>
    simp only [hop, bind_eq_ok, pure_eq_ok, Prod.mk.injEq] at h
    obtain ⟨⟨r, mid⟩, hb, rfl, rfl⟩ := h
    exact .inr ⟨rfl, mid, hb, rfl⟩

def exceeds (a b : Int) : Bool := a < 0 || b < 0 || b > maxInt64 - a

theorem exceeds_eq_false {a b : Int} : exceeds a b = false ↔ 0 ≤ a ∧ 0 ≤ b ∧ a + b ≤ maxInt64 := by
  simp only [exceeds, Bool.or_eq_false_iff, decide_eq_false_iff_not]
  omega

def sortIDs (ids : List String) : List String := ids.mergeSort fun a b => decide (a ≤ b)

theorem mem_sortIDs {ids : List String} {id : String} : id ∈ sortIDs ids ↔ id ∈ ids := List.mem_mergeSort

section Checks

variable (db : Fleet)

def Fleet.lockAuthority : Except FleetError Unit := do
  let fence ← found db.fence .notFound
  refuse fence.recoveryRequired .recovery

def Fleet.lockNode (nodeID installationID : String) : Except FleetError Unit := do
  let node ← found (db.nodes.get? nodeID) .notFound
  refuse (!node.enabled ∨ node.installationID ≠ installationID) .scope

def Fleet.requireNodeJournal (nodeID installationID agentJournal : String) : Except FleetError Unit := do
  let node ← found (db.nodeJournals.get? nodeID) .scope
  refuse (node.recoveryRequired ∨ node.installationID ≠ installationID ∨ node.stateJournalID = none) .recovery
  refuse (agentJournal ≠ "" ∧ node.stateJournalID ≠ some agentJournal) .recovery

def Fleet.requireRuntimeJournal (nodeID installationID runtimeID : String) : Except FleetError Unit := do
  db.requireNodeJournal nodeID installationID ""
  let runtime ← found (db.runtimeJournals.get? (nodeID, runtimeID)) .scope
  refuse (runtime.installationID ≠ installationID) .recovery

def Fleet.lockClient (id : String) : Except FleetError FleetClient := do
  let client ← found (db.clients.get? id) .notFound
  refuse (client.panelClientID = none) .scope
  return client

def Fleet.managedAuthority (clientID termID : String) (active : Bool) : Except FleetError (Option FleetTerm) :=
  match db.clients.get? clientID with
  | none => .ok none
  | some client => do
    let term ← found ((db.terms.get? termID).filter (·.clientID = clientID)) .notFound
    refuse (active ∧ (client.panelClientID = none ∨ client.currentTermID ≠ some termID ∨ term.state ≠ .active)) .scope
    return some term

end Checks

structure Principal where
  controlPlaneID : String
  nodeID : String
  installationID : String
  serial : String
  deriving DecidableEq

def Principal.require (p : Principal) (nodeID installationID : String) : Bool :=
  p.nodeID = nodeID && p.installationID = installationID

def Fleet.holdNodeJournal (db : Fleet) (p : Principal) : Fleet :=
  let journal := (db.nodeJournals.get? p.nodeID).getD ⟨p.installationID, none, true⟩
  { db with nodeJournals := db.nodeJournals.put p.nodeID { journal with recoveryRequired := true } }

structure Certificate where
  serial : String
  isCA : Bool
  keyDigest : Option Digest
  deriving DecidableEq

structure Peer where
  verified : Option Principal
  parse : List UInt8 → Option Certificate

def Fleet.lastEnrollment (db : Fleet) (nodeID installationID : String) : Option FleetEnrollment :=
  let redeemed := db.enrollments.keep fun _ e =>
    e.nodeID = nodeID && e.installationID = installationID && e.requestID.isSome
  (redeemed.entries.foldl (fun best e =>
    match best with
    | none => some e
    | some b =>
      if b.2.expiresUnixMilli < e.2.expiresUnixMilli ∨ (b.2.expiresUnixMilli = e.2.expiresUnixMilli ∧ e.1 < b.1) then some e
      else some b) none).map (·.2)

def Fleet.recoveryCredential (db : Fleet) (peer : Peer) (nodeID installationID : String) : Except FleetError Certificate := do
  let current ← match db.credentials.get? nodeID with
    | some current => pure current
    | none => do
      let e ← found (db.lastEnrollment nodeID installationID) .enrollment
      pure ⟨e.installationID, e.keyDigest, e.certificate⟩
  refuse (current.installationID ≠ installationID) .enrollment
  let certificate ← found (peer.parse current.certificate) .enrollment
  refuse certificate.isCA .enrollment
  refuse (certificate.keyDigest ≠ some current.keyDigest) .enrollment
  return certificate

def Fleet.authorizeRegisteredPeer (db : Fleet) (peer : Peer) (p : Principal) : Except FleetError Unit :=
  if p.serial = "" then .ok ()
  else do
    refuse (peer.verified ≠ some p) .scope
    let current ← db.recoveryCredential peer p.nodeID p.installationID
    refuse (current.serial ≠ p.serial) .scope

def Fleet.lockAuthenticatedNode (db : Fleet) (peer : Peer) (p : Principal) : Except FleetError Unit := do
  db.lockNode p.nodeID p.installationID
  db.authorizeRegisteredPeer peer p

theorem raises_lockAuthenticatedNode {P : FleetError → Prop} (hnotFound : P .notFound) (hscope : P .scope) (henrollment : P .enrollment)
    (peer : Peer) (p : Principal) (db : Fleet) : Raises P (db.lockAuthenticatedNode peer p) := by
  refine Raises.bind ((raises_found hnotFound).bind fun _ _ => raises_refuse fun _ => hscope) fun _ _ => ?_
  unfold Fleet.authorizeRegisteredPeer
  split
  · exact raises_ok _
  · refine (raises_refuse fun _ => hscope).bind fun _ _ => Raises.bind ?_ fun _ _ => raises_refuse fun _ => hscope
    unfold Fleet.recoveryCredential
    split
    · exact (raises_refuse fun _ => henrollment).bind fun _ _ => (raises_found henrollment).bind fun _ _ =>
        (raises_refuse fun _ => henrollment).bind fun _ _ => (raises_refuse fun _ => henrollment).bind fun _ _ => raises_pure _
    · exact (raises_found henrollment).bind fun _ _ => (raises_refuse fun _ => henrollment).bind fun _ _ =>
        (raises_found henrollment).bind fun _ _ => (raises_refuse fun _ => henrollment).bind fun _ _ =>
        (raises_refuse fun _ => henrollment).bind fun _ _ => raises_pure _

end Pui
