import Pui.Requests

/-!
# Terms of a client

A client's authority rests on one term at a time.
-/

namespace Pui

open Guard Table

def Fleet.setRateBudget (id clientID termID : String) (revision : Int) (desired : Rates) (db : Fleet) : Except FleetError Fleet := do
  refuse (!validID id ∨ !validID clientID ∨ !validID termID ∨ revision ≤ 0 ∨ revision > maxInt64 ∨
    desired.validate.isOk = false) .invalid
  db.lockAuthority
  let _ ← db.managedAuthority clientID termID true
  let taken := (db.rateBudgets.get? id).isSome || db.rateBudgets.entries.any fun e => e.2.clientID = clientID
  let rows := if taken then db.rateBudgets else db.rateBudgets.put id ⟨clientID, termID, revision, desired⟩
  let current ← found (rows.get? id) .scope
  refuse (current.clientID ≠ clientID) .scope
  let previous ← decodeRates current.desired
  refuse (current.revision > revision ∨
    (current.revision = revision ∧ (previous ≠ desired ∨ current.termID ≠ termID))) .revision
  return { db with rateBudgets := rows.put id { current with termID := termID, revision := revision, desired := desired } }

def Fleet.activateRatePool (clientID termID : String) (term : FleetTerm) (db : Fleet) : Except FleetError Fleet := do
  let revision : Int := (db.rateBudgets.get? clientID).elim 0 (·.revision)
  refuse (revision = maxInt64) .revision
  let rates ← decodeRates term.rates
  db.setRateBudget clientID clientID termID (revision + 1) rates

def OperationResult.decodeTransition : OperationResult → Option TransitionResult
  | .transition result => some { result with replayed := true }
  | _ => none

def Fleet.lifecycleOperation (operationID : String) (digest : Digest)
    (apply : Fleet → Except FleetError (TransitionResult × Fleet)) (db : Fleet) : Except FleetError (TransitionResult × Fleet) := do
  refuse (!validID operationID) .invalid
  db.lockAuthority
  db.operation operationID digest .transition OperationResult.decodeTransition apply

def validTermSpec (kind : TermKind) (spec : TermSpec) : Bool :=
  !exceeds spec.openingUploaded spec.openingDownloaded &&
    spec.openingUploaded + spec.openingDownloaded = spec.openingUsedBytes &&
    0 ≤ spec.quotaBytes && 0 ≤ spec.openingUsedBytes &&
    (if spec.unlimited then spec.quotaBytes = 0 else spec.openingUsedBytes ≤ spec.quotaBytes) &&
    0 ≤ spec.durationMillis && 0 ≤ spec.expiresUnixMilli && (spec.durationMillis = 0 || spec.expiresUnixMilli = 0) &&
    spec.rates.validate.isOk &&
    match kind with
    | .activation => true
    | .renewal => spec.openingUsedBytes = 0 && 0 < spec.durationMillis && spec.expiresUnixMilli = 0
    | .trafficReset => spec.openingUsedBytes = 0 && spec.durationMillis = 0 && spec.expiresUnixMilli = 0
    | .unknown _ => false

def TransitionRequest.valid (request : TransitionRequest) : Bool :=
  validID request.clientID && request.expectedRevision != 0 && request.expectedRevision ≤ maxInt64 &&
    request.expectedCredentialGeneration != 0 && request.expectedCredentialGeneration ≤ maxInt64 &&
    (request.expectedTermID = "" || validID request.expectedTermID) && request.sourcePolicyDigest.length == 32 &&
    validTermSpec request.kind request.spec

def startTerm (now : Int) (term : FleetTerm) : Except FleetError FleetTerm := do
  refuse (term.durationMillis > maxInt64 - now) .invalid
  let term := { term with
    startedUnixMilli := now
    expiresUnixMilli := if 0 < term.durationMillis then now + term.durationMillis else term.expiresUnixMilli }
  refuse (term.kind ≠ .trafficReset ∧ term.expiresUnixMilli ≠ 0 ∧ term.expiresUnixMilli ≤ now) .invalid
  return term

def Fleet.lastGeneration (db : Fleet) (clientID : String) : Int :=
  ((db.terms.keep fun _ t => t.clientID = clientID).entries.map (·.2.generation)).foldr max 0

def Fleet.createTerm (termID : String) (term : FleetTerm) (spec : TermSpec) (db : Fleet) : Except FleetError Fleet := do
  let budgets ← db.budgets.create .storage term.budgetID ⟨spec.quotaBytes, spec.unlimited, spec.openingUsedBytes, 0⟩
  refuse (db.terms.entries.any fun e => e.2.budgetID = term.budgetID) .storage
  let terms ← db.terms.create .storage termID term
  let usages ← db.termUsages.create .storage termID ⟨0, 0, 0, 0⟩
  return { db with budgets := budgets, terms := terms, termUsages := usages }

/-- The new term of a transition, and the current one put to drain. -/
def Fleet.openTerm (request : TransitionRequest) (termID : String) (now : Int) (client : FleetClient) (term : FleetTerm)
    (db : Fleet) : Except FleetError (FleetTerm × FleetClient × Fleet) :=
  if request.kind = .activation then do
    refuse (client.currentTermID.isSome) .conflict
    let term ← startTerm now term
    return (term, { client with currentTermID := some termID }, db)
  else do
    let currentID ← found client.currentTermID .scope
    let previous ← found ((db.terms.get? currentID).filter (·.clientID = request.clientID)) .notFound
    refuse (previous.state ≠ .active ∨ previous.generation = maxInt64 ∨
      (request.kind = .renewal ∧ (previous.expiresUnixMilli = 0 ∨ previous.expiresUnixMilli > now))) .revision
    let term := { term with
      predecessorID := some currentID, state := .pending
      expiresUnixMilli := if request.kind = .trafficReset then previous.expiresUnixMilli else term.expiresUnixMilli }
    return (term, { client with pendingTermID := some termID },
      { db with terms := db.terms.put currentID { previous with state := .draining } })

def Fleet.openRatePool (clientID termID : String) (term : FleetTerm) (db : Fleet) : Except FleetError Fleet :=
  if term.state = .active then db.activateRatePool clientID termID term else .ok db

def Fleet.transition (digests : Digests) (request : TransitionRequest) (termID : String) (now : Int) (db : Fleet) :
    Except FleetError (TransitionResult × Fleet) := do
  refuse (!request.valid) .invalid
  db.lifecycleOperation request.operationID (digests.transition request) fun db => do
    let client ← db.lockClient request.clientID
    refuse (client.revision ≠ request.expectedRevision ∨
      client.credentialGeneration ≠ request.expectedCredentialGeneration ∨ client.revision = maxInt64) .revision
    refuse client.pendingTermID.isSome .drain
    refuse (client.currentTermID.getD "" ≠ request.expectedTermID) .revision
    let generation := db.lastGeneration request.clientID
    refuse (generation = maxInt64) .revision
    let (term, client, db) ← db.openTerm request termID now client {
      clientID := request.clientID, generation := generation + 1, predecessorID := none, kind := request.kind
      state := .active, credentialGeneration := client.credentialGeneration
      sourcePolicyDigest := request.sourcePolicyDigest, budgetID := termID
      durationMillis := request.spec.durationMillis, startedUnixMilli := 0
      expiresUnixMilli := request.spec.expiresUnixMilli, rates := request.spec.rates
      openingUploaded := request.spec.openingUploaded, openingDownloaded := request.spec.openingDownloaded }
    let db ← db.createTerm termID term request.spec
    let client := { client with revision := client.revision + 1 }
    let db := { db with clients := db.clients.put request.clientID client }
    let db ← db.openRatePool request.clientID termID term
    return (⟨request.clientID, client, termID, term, term.state = .pending, false⟩, db)

def Fleet.requireStoppedGrants (clientID termID : String) (db : Fleet) : Except FleetError Unit := do
  let ids := (db.toLedger.grants.keep fun _ g => g.clientID = clientID && g.termID = termID).keys
  refuse (∃ id ∈ ids, db.rateShares.get? id = none ∨ db.grantStops.get? id = none) .drain
  ids.forM fun id => do
    let share ← found (db.rateShares.get? id) .drain
    let stop ← found (db.grantStops.get? id) .drain
    refuse (share.budgetID ≠ clientID ∨ stop.deploymentRevision = 0 ∨ stop.rateRevision > share.appliedRevision) .drain
    let outstanding ← decodeRates share.outstanding
    refuse (outstanding ≠ Rates.zero) .drain

def Fleet.pendingTerms (clientID pendingTermID : String) (expectedRevision expectedCredentialGeneration : Nat) (db : Fleet) :
    Except FleetError (FleetClient × FleetTerm × String × FleetTerm) := do
  let client ← db.lockClient clientID
  refuse (client.revision ≠ expectedRevision ∨ client.credentialGeneration ≠ expectedCredentialGeneration ∨
    client.revision = maxInt64 ∨ client.pendingTermID ≠ some pendingTermID ∨ client.currentTermID = none) .revision
  let currentID ← found client.currentTermID .revision
  let term ← found ((db.terms.get? pendingTermID).filter (·.clientID = clientID)) .notFound
  let previous ← found ((db.terms.get? currentID).filter (·.clientID = clientID)) .notFound
  refuse (term.state ≠ .pending ∨ previous.state ≠ .draining ∨ term.predecessorID ≠ some currentID) .revision
  return (client, term, currentID, previous)

def CompleteTransitionRequest.valid (request : CompleteTransitionRequest) : Bool :=
  validID request.clientID && validID request.pendingTermID && request.expectedRevision != 0 &&
    request.expectedRevision ≤ maxInt64 && request.expectedCredentialGeneration != 0 &&
    request.expectedCredentialGeneration ≤ maxInt64 && request.sourcePolicyDigest.length == 32

def Fleet.completeTransition (digests : Digests) (request : CompleteTransitionRequest) (now : Int) (db : Fleet) :
    Except FleetError (TransitionResult × Fleet) := do
  refuse (!request.valid) .invalid
  db.lifecycleOperation request.operationID (digests.complete request) fun db => do
    let (client, term, currentID, previous) ← db.pendingTerms request.clientID request.pendingTermID
      request.expectedRevision request.expectedCredentialGeneration
    refuse (term.sourcePolicyDigest ≠ request.sourcePolicyDigest) .revision
    let _ ← found ((db.rateBudgets.get? request.clientID).filter (·.clientID = request.clientID)) .notFound
    db.requireStoppedGrants request.clientID currentID
    let term ← startTerm now term
    let term := { term with state := .active, credentialGeneration := client.credentialGeneration }
    let client := { client with
      currentTermID := some request.pendingTermID, pendingTermID := none, revision := client.revision + 1 }
    let db := { db with
      terms := (db.terms.put request.pendingTermID term).put currentID { previous with state := .closed }
      clients := db.clients.put request.clientID client }
    let db ← db.activateRatePool request.clientID request.pendingTermID term
    return (⟨request.clientID, client, request.pendingTermID, term, false, false⟩, db)

def CancelTransitionRequest.valid (request : CancelTransitionRequest) : Bool :=
  validID request.clientID && validID request.pendingTermID && request.expectedRevision != 0 &&
    request.expectedRevision ≤ maxInt64 && request.expectedCredentialGeneration != 0 &&
    request.expectedCredentialGeneration ≤ maxInt64

def Fleet.cancelTransition (digests : Digests) (request : CancelTransitionRequest) (db : Fleet) :
    Except FleetError (TransitionResult × Fleet) := do
  refuse (!request.valid) .invalid
  db.lifecycleOperation request.operationID (digests.cancel request) fun db => do
    let (client, term, currentID, previous) ← db.pendingTerms request.clientID request.pendingTermID
      request.expectedRevision request.expectedCredentialGeneration
    let previous := { previous with state := .active }
    let client := { client with pendingTermID := none, revision := client.revision + 1 }
    let db := { db with
      terms := (db.terms.put request.pendingTermID { term with state := .closed }).put currentID previous
      clients := db.clients.put request.clientID client }
    return (⟨request.clientID, client, currentID, previous, false, false⟩, db)

end Pui
