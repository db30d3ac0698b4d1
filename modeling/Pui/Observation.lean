import Pui.Fleet

/-!
# What a node reports about its grants

The governor store answers the observation of its grants page by page (`Governor.Store.authority`).
-/

namespace Pui

open Guard

def maxEntries : Nat := 1024

structure GrantAuthority where
  grantID : String
  clientID : String
  termID : String
  policyRevision : Nat
  authorityRevision : Nat
  creditCeiling : Nat
  quotaUnlimited : Bool
  reservedHighWater : Nat
  burnedHighWater : Nat
  admissionHighWater : Nat
  admissionKnown : Bool
  spendableBytes : Nat
  spendableKnown : Bool
  authorizationActive : Bool
  deriving DecidableEq

/-- A part of the observations, and where the next one starts. -/
structure Page where
  grants : List GrantAuthority
  next : String
  deriving DecidableEq

namespace GrantAuthority

def remaining (g : GrantAuthority) : Nat :=
  if g.authorizationActive ∧ g.creditCeiling > g.admissionHighWater then g.creditCeiling - g.admissionHighWater else 0

def validate (g : GrantAuthority) : Except NodeError Unit := do
  refuse (g.authorityRevision > maxInt64) .report
  refuse (!validID g.grantID ∨ !validID g.clientID ∨ !validID g.termID ∨ g.policyRevision = 0 ∨
    g.policyRevision > maxInt64 ∨ g.creditCeiling > maxInt64 ∨ g.reservedHighWater > maxInt64 ∨
    g.admissionHighWater > maxInt64 ∨ g.spendableBytes > maxInt64) .report
  refuse ((g.quotaUnlimited ∧ g.creditCeiling ≠ 0) ∨ (!g.admissionKnown ∧ g.admissionHighWater ≠ 0) ∨
    (!g.spendableKnown ∧ g.spendableBytes ≠ 0)) .report
  refuse (g.admissionKnown ∧ g.admissionHighWater > g.reservedHighWater) .report
  refuse (g.burnedHighWater > g.reservedHighWater ∨ (g.admissionKnown ∧ g.burnedHighWater ≠ 0)) .report
  refuse (!g.quotaUnlimited ∧ g.reservedHighWater > g.creditCeiling) .report
  refuse (g.spendableKnown ∧ (g.quotaUnlimited ∨ g.spendableBytes > g.creditCeiling - g.burnedHighWater ∨
    (!g.authorizationActive ∧ g.spendableBytes ≠ 0))) .report
  refuse (g.spendableKnown ∧ g.admissionKnown ∧ g.remaining ≠ g.spendableBytes) .report

end GrantAuthority

namespace Governor

namespace Store

def keysAfter (s : Store) (after : String) : List String :=
  (sortIDs s.db.grants.keys).filter fun id => after = "" ∨ after < id

end Store

def active (r : Record) (a : Account) (now : Int) : Bool :=
  a.policy.enabled && !r.suspended && !a.quarantined &&
    (a.policy.expiresUnixMilli = 0 || now < a.policy.expiresUnixMilli) &&
    (a.policy.upload.mode ≠ .blocked || a.policy.download.mode ≠ .blocked)

def observe (id : String) (r : Record) (a : Account) (now : Int) : Except NodeError GrantAuthority := do
  refuse (r.grant.policy ≠ a.policy ∨ a.previouslyReserved > maxUint64 - a.uploaded ∨
    a.previouslyReserved + a.uploaded > maxUint64 - a.downloaded) .grant
  refuse (a.spent > r.reserved) .grant
  return {
    grantID := id, clientID := r.grant.clientID, termID := a.policy.term
    policyRevision := a.policy.revision, authorityRevision := a.policy.authorityRevision
    creditCeiling := a.policy.creditCeiling, quotaUnlimited := a.policy.quotaUnlimited
    reservedHighWater := r.reserved, burnedHighWater := a.previouslyReserved
    admissionHighWater := if a.previouslyReserved = 0 then a.spent else 0
    admissionKnown := a.previouslyReserved = 0
    spendableBytes := if active r a now ∧ !a.policy.quotaUnlimited ∧ a.policy.creditCeiling > a.spent
      then a.policy.creditCeiling - a.spent else 0
    spendableKnown := !a.policy.quotaUnlimited
    authorizationActive := active r a now }

def Store.authority (s : Store) (after : String) (limit : Int) (now : Option Int) (cancelled : Nat → Bool) :
    Except NodeError Page := do
  refuse ((after ≠ "" ∧ !validID after) ∨ limit ≤ 0 ∨ limit > maxEntries) .grant
  let now ← found now .clock
  let listed := (s.keysAfter after).take (limit.toNat + 1)
  let ids := listed.take limit.toNat
  let next := if listed.length > limit.toNat then ids.getLastD "" else ""
  let snapshots ← ids.zipIdx.mapM fun (id, i) => do
    refuse (cancelled i) .context
    let m ← found (s.accounts.get? id) .grant
    return (id, m.account)
  let grants ← snapshots.mapM fun (id, a) => do
    let r ← found (s.row id) .json
    observe id r a now
  return ⟨grants, next⟩

theorem Store.exists_of_mem_authority {s : Store} {after : String} {limit : Int} {now : Option Int} {cancelled : Nat → Bool}
    {page : Page} (h : s.authority after limit now cancelled = .ok page) {o : GrantAuthority} (ho : o ∈ page.grants) :
    ∃ t r m, s.row o.grantID = some r ∧ s.accounts.get? o.grantID = some m ∧ observe o.grantID r m.account t = .ok o := by
  simp only [Store.authority, bind_eq_ok, pure_eq_ok] at h
  obtain ⟨-, -, t, -, snapshots, hsnap, grants, hgrants, rfl⟩ := h
  obtain ⟨⟨id, a⟩, hmem, hobs⟩ := exists_of_mem_mapM hgrants ho
  obtain ⟨⟨id', i⟩, -, hacc⟩ := exists_of_mem_mapM hsnap hmem
  simp only [bind_eq_ok, found_eq_ok, pure_eq_ok, Prod.mk.injEq] at hacc hobs
  obtain ⟨-, -, m, hm, rfl, rfl⟩ := hacc
  obtain ⟨r, hr, hobs⟩ := hobs
  have hid : o.grantID = id' := by
    simp only [observe, unit_bind_eq_ok, pure_eq_ok] at hobs
    rw [← hobs.2.2]
  rw [hid]
  exact ⟨t, r, m, hr, hm, hobs⟩

end Governor

/-- The last observation of a grant that the control plane accepted. -/
structure FleetGrantAuthority where
  nodeID : String := ""
  runtimeID : String := ""
  reportSequence : Int := 0
  policyRevision : Int := 0
  authorityRevision : Int := 0
  creditCeiling : Int := 0
  quotaUnlimited : Bool := false
  reservedHighWater : Int := 0
  burnedHighWater : Int := 0
  admissionHighWater : Int := 0
  admissionKnown : Bool := false
  spendableBytes : Int := 0
  spendableKnown : Bool := false
  authorizationActive : Bool := false
  receivedUnixMilli : Int := 0
  deriving DecidableEq

namespace GrantAuthority

def regresses (o : GrantAuthority) (old : FleetGrantAuthority) : Bool :=
  o.authorityRevision < old.authorityRevision || o.policyRevision < old.policyRevision ||
    o.creditCeiling < old.creditCeiling || o.reservedHighWater < old.reservedHighWater ||
    o.burnedHighWater < old.burnedHighWater || (o.admissionKnown && o.admissionHighWater < old.admissionHighWater)

def stored (o : GrantAuthority) (old : FleetGrantAuthority) (nodeID runtimeID : String) (sequence : Nat) (now : Int) :
    FleetGrantAuthority where
  nodeID := nodeID
  runtimeID := runtimeID
  reportSequence := sequence
  policyRevision := o.policyRevision
  authorityRevision := o.authorityRevision
  creditCeiling := o.creditCeiling
  quotaUnlimited := o.quotaUnlimited
  reservedHighWater := o.reservedHighWater
  burnedHighWater := o.burnedHighWater
  admissionHighWater := if o.admissionKnown then (o.admissionHighWater : Int) else old.admissionHighWater
  admissionKnown := o.admissionKnown
  spendableBytes := o.spendableBytes
  spendableKnown := o.spendableKnown
  authorizationActive := o.authorizationActive
  receivedUnixMilli := now

end GrantAuthority

end Pui
