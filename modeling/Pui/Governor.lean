import Pui.Backing
import Pui.Machine
import Pui.Table

/-!
# The governor store

A database with one row for each grant, and in memory one account for each row and an index by client.
-/

namespace Pui

open Crash Crash.Prog Guard

def maxAuthorityUpdates : Nat := 128

def maxCreditUpdates : Nat := 128

structure PolicyUpdate where
  grantID : String
  clientID : String
  policy : Policy
  deriving DecidableEq

def PolicyUpdate.grant (u : PolicyUpdate) : Grant := ⟨u.grantID, u.clientID, u.policy.authorityRevision, u.policy⟩

structure Credit where
  grantID : String
  clientID : String
  termID : String
  policyRevision : Nat
  creditRevision : Nat
  creditCeiling : Nat
  deriving DecidableEq

abbrev FreshID : Type := { id : String // validID id = true }

def Credit.valid (c : Credit) : Bool :=
  validID c.grantID && validID c.clientID && validID c.termID && c.policyRevision != 0 &&
    c.policyRevision ≤ maxInt64 && c.creditRevision != 0 && c.creditRevision ≤ maxInt64 && c.creditCeiling != 0 &&
    c.creditCeiling ≤ maxInt64

def validateCredits (credits : List Credit) : Except NodeError Unit := do
  refuse (credits.length = 0 ∨ credits.length > maxCreditUpdates) .report
  refuse (¬credits.all Credit.valid ∨ ¬(credits.map Credit.grantID).Nodup) .report

/-- What the surroundings answer when one item of a batch is handled. -/
structure Surroundings where
  cancelled : Bool
  now : Option Int

namespace Governor

structure Database where
  journalID : Option String
  grants : Table String Record

structure Store where
  db : Database
  accounts : Table String Memory
  clients : Table String String
  journalID : String

namespace Store

def row (s : Store) (id : String) : Option Record := s.db.grants.get? id

def save (s : Store) (r : Record) : Store := { s with db := { s.db with grants := s.db.grants.put r.grant.id r } }

def cell (id : String) (s : Store) : Option Cell := (s.accounts.get? id).map fun m => ⟨s.row id, m⟩

def setCell (id : String) (c : Cell) (s : Store) : Store :=
  { c.record.elim s s.save with accounts := s.accounts.put id c.memory }

def onAccount {α : Type} (id : String) (x : Prog Cell NodeError α) : Prog Store NodeError α :=
  focus (cell id) (setCell id) .grant x

def restore (s : Store) (r : Record) : Except NodeError Store := do
  refuse (r.grant.validate ≠ .ok ()) .grant
  refuse (r.grant.policy.enabled ∧ !r.suspended ∧ (s.clients.get? r.grant.clientID).isSome) .grant
  let clients := if r.grant.policy.enabled ∧ !r.suspended then s.clients.put r.grant.clientID r.grant.id else s.clients
  let m ← r.restore
  return { s with clients := clients, accounts := s.accounts.put r.grant.id m }

def index (s : Store) (enabled : Bool) (clientID id : String) : Store :=
  if enabled then { s with clients := s.clients.put clientID id }
  else if s.clients.get? clientID = some id then { s with clients := s.clients.drop clientID }
  else s

def create (r : Record) : Prog Store NodeError Unit := do
  write .storage fun s => .ok ((), s.save r)
  let s ← read
  let s' ← ofExcept (s.restore r)
  update fun _ => s'

def apply (grant : Grant) : Prog Store NodeError Unit := do
  failIf (grant.validate ≠ .ok ()) .grant
  let s ← read
  failIf (grant.policy.enabled ∧ (s.clients.get? grant.clientID).any (fun id => id ≠ "" ∧ id ≠ grant.id)) .grant
  failIf ((s.row grant.id).any fun r => r.grant.id ≠ "" ∧
    (r.grant.clientID ≠ grant.clientID ∨ r.grant.policy.term ≠ grant.policy.term)) .grant
  failIf ((s.row grant.id).any fun r => r.suspended) .grant
  match s.accounts.get? grant.id with
  | some m => onAccount grant.id (Cell.apply (retainCredit grant.policy m.account.policy))
  | none => create (.fresh grant)
  update fun s => s.index grant.policy.enabled grant.clientID grant.id

def applyCredit (credits : List Credit) (env : Nat → Surroundings) : Prog Store NodeError Unit := do
  failIf (validateCredits credits ≠ .ok ()) .grant
  let s ← read
  failIf (credits.any fun c => (s.row c.grantID).all fun r => r.suspended ∨ r.grant.clientID ≠ c.clientID ∨
    r.grant.policy.term ≠ c.termID ∨ r.grant.policy.revision ≠ c.policyRevision ∨
    (s.accounts.get? c.grantID).isNone) .grant
  credits.zipIdx.forM fun (c, i) => do
    failIf (env i).cancelled .context
    onAccount c.grantID (Cell.applyCredit (env i).now c.termID c.policyRevision c.creditRevision c.creditCeiling)

def validateUpdate (s : Store) (env : Surroundings) (seen : List PolicyUpdate) (u : PolicyUpdate) :
    Except NodeError Unit := do
  refuse env.cancelled .context
  refuse (u.grant.validate ≠ .ok () ∨ u.grantID ∈ seen.map PolicyUpdate.grantID ∨
    u.clientID ∈ seen.map PolicyUpdate.clientID ∨
    (!u.policy.enabled ∧ (u.policy.upload.mode ≠ .blocked ∨ u.policy.download.mode ≠ .blocked))) .grant
  match (s.row u.grantID).filter (fun r => r.grant.id ≠ "") with
  | some r => do
    refuse (r.suspended ∨ r.grant.clientID ≠ u.clientID ∨ r.grant.policy.term ≠ u.policy.term) .grant
    let m ← found (s.accounts.get? u.grantID) .grant
    m.account.validateAuthority env.now u.policy
  | none => do
    refuse ((s.clients.get? u.clientID).any (· ≠ "")) .grant
    let a ← Account.new u.policy
    a.validateAuthority env.now u.policy

def validateUpdates (s : Store) (env : Nat → Surroundings) : List PolicyUpdate → List PolicyUpdate →
    Except NodeError Unit
  | _, [] => .ok ()
  | seen, u :: rest => do
    s.validateUpdate (env seen.length) seen u
    s.validateUpdates env (seen ++ [u]) rest

def validateAuthorityLocked (s : Store) (updates : List PolicyUpdate) (env : Nat → Surroundings) :
    Except NodeError Unit := do
  refuse (updates.length = 0 ∨ updates.length > maxAuthorityUpdates) .grant
  s.validateUpdates env [] updates

def applyAuthority (updates : List PolicyUpdate) (checking applying : Nat → Surroundings) :
    Prog Store NodeError Unit := do
  let s ← read
  ofExcept (s.validateAuthorityLocked updates checking)
  updates.zipIdx.forM fun (u, i) => do
    failIf (applying i).cancelled .context
    let s ← read
    match s.accounts.get? u.grantID with
    | some _ => onAccount u.grantID (Cell.applyAuthority (applying i).now u.policy)
    | none => create (.fresh u.grant)
    update fun s => s.index u.policy.enabled u.clientID u.grantID

def suspendRows (wanted : String → Bool) (s : Store) : List String → Except NodeError Store
  | [] => .ok s
  | id :: ids =>
    if wanted id then suspendRows wanted s ids
    else do
      let r ← found (s.row id) .json
      suspendRows wanted (s.save { r with suspended := true }) ids

def suspendOthers (wanted : List String) : Prog Store NodeError Unit := do
  write .storage fun s => do
    let s' ← suspendRows (· ∈ wanted) s s.accounts.keys
    return ((), s')
  update fun s => { s with
    accounts := s.accounts.mapRows fun id m => if id ∈ wanted then m else { m with account := m.account.quarantine }
    clients := s.clients.keep fun _ id => id ∈ wanted }

def reconcile (grants : List Grant) : Prog Store NodeError Unit := do
  failIf ((∃ g ∈ grants, g.validate ≠ .ok ()) ∨ ¬(grants.map Grant.id).Nodup ∨ ¬(grants.map Grant.clientID).Nodup)
    .grant
  suspendOthers (grants.map Grant.id)
  grants.forM apply

def take (id : String) (dir : Direction) (requested : Int) (upTo : Bool) (turn : Turn) :
    Prog Store NodeError (Option Nat) :=
  onAccount id (Cell.take dir requested upTo turn)

end Store

def Database.open (newID : FreshID) (db : Database) : Except NodeError Store := do
  let journalID := db.journalID.getD newID
  refuse (!validID journalID) .grant
  db.grants.entries.foldlM
    (fun s e => do
      refuse (e.2.grant.id ≠ e.1) .grant
      s.restore e.2)
    ⟨{ db with journalID := some journalID }, ∅, ∅, journalID⟩

/-- The operations of the store, with what their surroundings answer. -/
inductive Op where
  | apply (grant : Grant)
  | applyCredit (credits : List Credit) (env : Nat → Surroundings)
  | applyAuthority (updates : List PolicyUpdate) (checking applying : Nat → Surroundings)
  | suspendOthers (wanted : List String)
  | reconcile (grants : List Grant)
  | take (id : String) (dir : Direction) (requested : Int) (upTo : Bool) (turn : Turn)

def Op.prog : Op → Prog Store NodeError Unit
  | .apply grant => Store.apply grant
  | .applyCredit credits env => Store.applyCredit credits env
  | .applyAuthority updates checking applying => Store.applyAuthority updates checking applying
  | .suspendOthers wanted => Store.suspendOthers wanted
  | .reconcile grants => Store.reconcile grants
  | .take id dir requested upTo turn => do
    let _ ← Store.take id dir requested upTo turn

def machine : Machine Op FreshID Store Database NodeError where
  op := Op.prog
  durable := Store.db
  start := Database.open

end Governor

end Pui
