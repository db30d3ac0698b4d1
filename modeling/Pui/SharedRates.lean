import Pui.AuthorityScope
import Pui.StopConfiguration

/-!
# Rates across the control plane and its nodes

The control plane, the runtimes of its nodes, each with a governor store that may die, and everything that was ever
sent.
-/

namespace Pui

open Crash Crash.Prog Guard Table

/-- The grants that a runtime puts in force when it applies a deployment. -/
def Deployment.runtimeGrants (hashes : Hashes) (runtimeID : String) (intents : List AuthorityIntent) (d : Deployment) :
    Except NodeError (List Grant) := do
  let b ← found d.payload.decode .configuration
  match b.runtimes.find? fun r => r.id = runtimeID with
  | none => return []
  | some r => do
    let digest := hashes.payload (.bundle ⟨b.version, [r]⟩)
    let (grants, _) ← r.prepareAuthority hashes runtimeID d.revision digest intents
    return grants

namespace Governor

/-- What changes in a governor store without the control plane. -/
inductive Local where
  | applyCredit (credits : List Credit) (env : Nat → Surroundings)
  | take (id : String) (dir : Direction) (requested : Int) (upTo : Bool) (turn : Turn)

def Local.op : Local → Op
  | .applyCredit credits env => .applyCredit credits env
  | .take id dir requested upTo turn => .take id dir requested upTo turn

def localMachine : Machine Local FreshID Store Database NodeError := { machine with op := fun l => l.op.prog }

end Governor

open Governor

structure RateReport where
  nodeID : String
  runtimeID : String
  grantID : String
  authority : Authority
  deriving DecidableEq

namespace SharedRates

structure Net where
  master : Fleet
  /-- The runtimes of the nodes, by node and runtime. -/
  nodes : String → String → Status Store Database := fun _ _ => .down ⟨none, ∅⟩
  /-- The deployments and the batches that were sent. -/
  deployments : List Deployment := []
  batches : List AuthorityUpdateBatch := []
  /-- The deployments and the batches that a runtime applied, and the reports of single shares. -/
  applied : List (String × Deployment) := []
  confirmed : List AuthorityUpdateBatch := []
  reports : List RateReport := []

inductive Action where
  | requestRateShare (request : RateRequest) (now : Int)
  | publishDeployment (nodeID : String) (payload : Payload) (admissions : Bundle → Except FleetError Unit) (now : Int)
  | publishConfiguration (p : Principal) (desired : Bundle) (admissions : Bundle → Except FleetError Unit) (now : Int)
  | stopConfiguration (env : StopEnvironment) (p : Principal) (request : StopConfigurationRequest)
  | queueAuthorityUpdate (grantID : String) (baseRevision : Nat) (enabled : Bool) (now : Int)
  | delivery (peer : Peer) (p : Principal) (generation : Nat)
  | fetchAuthorityUpdates (peer : Peer) (p : Principal) (request : AuthorityBase)
      (authorize : Option AuthorityDeliveryValidator) (now : Int)
  | observe (peer : Peer) (p : Principal) (generation : Nat) (result : ApplyResult)
  | acknowledgeAuthorityUpdates (peer : Peer) (p : Principal) (batch : AuthorityUpdateBatch) (now : Int)
  | confirmRateShare (p : Principal) (grantID : String) (revision : Nat) (applied : Rates)
  | environment (db : Fleet)
  | deploy (runtimeID : String) (d : Deployment) (intents : List AuthorityIntent) (fates : List Fate)
  | update (batch : AuthorityUpdateBatch) (checking applying : Nat → Surroundings) (fates : List Fate)
  | runtime (nodeID runtimeID : String) (event : Event Local FreshID)
  | report (nodeID runtimeID grantID : String)

def Net.transact {α : Type} (net : Net) (result : Except FleetError (α × Fleet)) (send : α → Net → Net) : Net :=
  match result with
  | .ok (a, db) => send a { net with master := db }
  | .error _ => net

def Net.commit (net : Net) (result : Except FleetError Fleet) : Net :=
  match result with
  | .ok db => { net with master := db }
  | .error _ => net

/-- What other transactions may leave of nodes and rate budgets. -/
def allows (db db' : Fleet) : Bool :=
  (db.nodes.entries.all fun e => (db'.nodes.get? e.1).any fun node => e.2.desiredRevision ≤ node.desiredRevision) &&
    (db'.nodes.entries.all fun e => 0 ≤ e.2.desiredRevision && e.2.desiredRevision ≤ maxInt64) &&
    (db.rateBudgets.entries.all fun e => (db'.rateBudgets.get? e.1).any fun budget => e.2.desired ≤ budget.desired) &&
    db'.rateBudgets.entries.all fun e => e.2.desired.validate = .ok ()

def others (db db' : Fleet) : Fleet :=
  { db' with
    rateShares := db.rateShares
    deployments := db.deployments.keep fun k _ => (db'.deployments.get? k).isSome }

def Net.setNode (net : Net) (nodeID runtimeID : String) (st : Status Store Database) : Net :=
  { net with nodes := fun n r => if n = nodeID ∧ r = runtimeID then st else net.nodes n r }

def Net.execute (net : Net) (nodeID runtimeID : String) (x : Prog Store NodeError Unit) (fates : List Fate)
    (done : Net → Net) : Net :=
  match net.nodes nodeID runtimeID with
  | .down _ => net
  | .up s => x.settle s fates (fun _ t => done (net.setNode nodeID runtimeID (.up t))) fun h t =>
      match h with
      | .failed _ => net.setNode nodeID runtimeID (.up t)
      | .crashed => net.setNode nodeID runtimeID (.down t.db)

def Net.received (net : Net) (nodeID : String) (i : AuthorityIntent) : Bool :=
  i.base.nodeID = nodeID && net.batches.any fun batch => batch.base = i.base && batch.updates.contains i.update

def Net.completed (net : Net) (nodeID : String) (result : ApplyResult) : Bool :=
  net.deployments.any fun d => d.nodeID = nodeID && d.revision = result.revision &&
    d.payload.decode.any fun b => b.runtimes.all fun r => net.applied.contains (r.id, d)

def Net.row (net : Net) (nodeID runtimeID grantID : String) : Option Record :=
  (machine.kept (net.nodes nodeID runtimeID)).grants.get? grantID

section Step

variable (digests : Digests)

def Net.step (net : Net) : Action → Net
  | .requestRateShare request now => net.transact (net.master.requestRateShare digests request now) fun _ => id
  | .publishDeployment nodeID payload admissions now =>
    net.transact (net.master.publishDeployment digests nodeID payload admissions now) fun _ => id
  | .publishConfiguration p desired admissions now =>
    net.transact (net.master.publishConfiguration digests p desired admissions now) fun _ => id
  | .stopConfiguration env p request => net.transact (net.master.stopConfiguration digests env p request) fun _ => id
  | .queueAuthorityUpdate grantID baseRevision enabled now =>
    net.commit (net.master.queueAuthorityUpdate digests.toHashes grantID baseRevision enabled now)
  | .delivery peer p generation =>
    net.transact (net.master.delivery peer p generation) fun sent net =>
      { net with deployments := sent.toList ++ net.deployments }
  | .fetchAuthorityUpdates peer p request authorize now =>
    net.transact (net.master.fetchAuthorityUpdates digests.toHashes peer p request authorize now) fun batch net =>
      { net with batches := batch :: net.batches }
  | .observe peer p generation result =>
    if result.stage = .applied ∧ !net.completed p.nodeID result then net
    else net.commit (net.master.observe digests.toHashes peer p generation result)
  | .acknowledgeAuthorityUpdates peer p batch now =>
    if batch ∈ net.confirmed then
      net.transact (net.master.acknowledgeAuthorityUpdates digests.toHashes peer p batch now) fun _ => id
    else net
  | .confirmRateShare p grantID revision applied =>
    if net.reports.any fun report => report.nodeID = p.nodeID && report.grantID = grantID &&
        report.authority = ⟨revision, applied.upload, applied.download⟩ then
      net.commit (net.master.confirmRateShare p grantID revision applied)
    else net
  | .environment db => if allows net.master db then { net with master := others net.master db } else net
  | .deploy runtimeID d intents fates =>
    if d ∈ net.deployments ∧ intents.all (net.received d.nodeID) then
      net.execute d.nodeID runtimeID (do
        let grants ← ofExcept (d.runtimeGrants digests.toHashes runtimeID intents)
        Store.reconcile grants) fates fun net => { net with applied := (runtimeID, d) :: net.applied }
    else net
  | .update batch checking applying fates =>
    if batch ∈ net.batches then
      net.execute batch.base.nodeID batch.base.runtimeID (do
        let updates ← ofExcept batch.policies
        Store.applyAuthority updates checking applying) fates fun net => { net with confirmed := batch :: net.confirmed }
    else net
  | .runtime nodeID runtimeID event =>
    net.setNode nodeID runtimeID (localMachine.step (net.nodes nodeID runtimeID) event)
  | .report nodeID runtimeID grantID =>
    match net.row nodeID runtimeID grantID with
    | none => net
    | some r => { net with reports := ⟨nodeID, runtimeID, grantID, r.grant.policy.authority⟩ :: net.reports }

def Net.after (net : Net) (actions : List Action) : Net := Run.after (Net.step digests) net actions

end Step

def Net.enforced (net : Net) (nodeID runtimeID grantID : String) : Rates :=
  match net.nodes nodeID runtimeID with
  | .down _ => Rates.zero
  | .up s => (s.accounts.get? grantID).elim Rates.zero fun m => ⟨m.account.policy.upload, m.account.policy.download⟩

end SharedRates

end Pui
