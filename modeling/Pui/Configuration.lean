import Mathlib.Data.List.Dedup
import Pui.Governor

/-!
# Deployments and authority updates

What a control plane sends to its nodes.
-/

namespace Pui

open Guard

abbrev Digest := List UInt8

def runtimeName (name : String) : Bool :=
  match name.toList with
  | [] => false
  | c :: cs => ('a' ≤ c && c ≤ 'z') && cs.length ≤ 47 &&
    cs.all fun c => ('a' ≤ c && c ≤ 'z') || ('0' ≤ c && c ≤ '9') || c == '-'

structure Descriptor where
  clientID : String
  credentialGeneration : Nat
  placementID : String
  placementRevision : Nat
  inboundInstanceID : String
  inboundTag : String
  deriving DecidableEq

def Descriptor.valid (d : Descriptor) : Bool :=
  validID d.clientID && validID d.placementID && validID d.inboundInstanceID && d.credentialGeneration != 0 &&
    d.credentialGeneration ≤ maxInt64 && d.placementRevision != 0 && d.placementRevision ≤ maxInt64 &&
    d.inboundTag != "" && d.inboundTag.utf8ByteSize ≤ 128 && !d.inboundTag.toList.contains (Char.ofNat 0)

def validDescriptors (ds : List Descriptor) : Bool :=
  ds.length ≤ 1000000 && ds.all Descriptor.valid && decide (ds.map fun d => (d.inboundTag, d.clientID)).Nodup

structure Runtime where
  id : String
  core : String
  configuration : List UInt8
  grants : List Grant
  admissions : List Descriptor
  deriving DecidableEq

structure Bundle where
  version : Nat
  runtimes : List Runtime
  deriving DecidableEq

def Bundle.grants (b : Bundle) : List Grant := b.runtimes.flatMap Runtime.grants

def Bundle.valid (b : Bundle) : Bool :=
  b.version == 1 && b.runtimes.length ≤ 32 && decide (b.runtimes.map Runtime.id).Nodup &&
    (b.runtimes.all fun r => runtimeName r.id && runtimeName r.core && r.grants.length ≤ 1000000 &&
      r.configuration.length != 0 && validDescriptors r.admissions && decide (r.grants.map Grant.clientID).Nodup &&
      r.grants.all fun g => g.validate = .ok ()) &&
    decide (b.grants.map Grant.id).Nodup

inductive Payload where
  | bundle (b : Bundle)
  | other (bytes : List UInt8)
  deriving DecidableEq

def Payload.decode : Payload → Option Bundle
  | .bundle b => if b.valid then some b else none
  | .other _ => none

theorem Payload.nodup_of_decode {payload : Payload} {b : Bundle} (h : payload.decode = some b) :
    (b.runtimes.map Runtime.id).Nodup ∧ ∀ r ∈ b.runtimes, (r.grants.map Grant.clientID).Nodup := by
  cases payload with
  | other bytes => cases h
  | bundle b' =>
    simp only [Payload.decode, Option.ite_none_right_eq_some, Option.some.injEq] at h
    obtain ⟨hvalid, rfl⟩ := h
    simp only [Bundle.valid, Bool.and_eq_true, decide_eq_true_eq, List.all_eq_true] at hvalid
    exact ⟨hvalid.1.1.2, fun r hr => (hvalid.1.2 r hr).1.2⟩

def Bundle.project (b : Bundle) (id core : String) : Except NodeError Bundle := do
  refuse (b.version ≠ 1 ∨ !runtimeName id ∨ !runtimeName core) .configuration
  match b.runtimes.find? fun r => r.id = id with
  | none => return ⟨b.version, []⟩
  | some r => do
    refuse (r.core ≠ core) .configuration
    return ⟨b.version, [r]⟩

structure AuthorityRate where
  mode : Mode
  bitsPerSecond : Nat
  burstBytes : Nat
  deriving DecidableEq

structure AuthorityUpdate where
  grantID : String
  clientID : String
  termID : String
  authorityRevision : Nat
  creditRevision : Nat
  creditCeiling : Nat
  quotaUnlimited : Bool
  enabled : Bool
  expiresUnixMilli : Int
  upload : AuthorityRate
  download : AuthorityRate
  credentialGeneration : Nat
  placementID : String
  placementRevision : Nat
  descriptorSHA256 : Digest
  deriving DecidableEq

structure AuthorityBase where
  nodeID : String
  installationID : String
  agentStateJournalID : String
  runtimeID : String
  stateJournalID : String
  creditJournalID : String
  baseConfigurationRevision : Nat
  basePayloadSHA256 : Digest
  deriving DecidableEq

structure AuthorityUpdateBatch where
  base : AuthorityBase
  updates : List AuthorityUpdate
  deriving DecidableEq

def AuthorityRate.rate (r : AuthorityRate) : Except NodeError Rate :=
  match r.mode with
  | .unknown _ => .error .report
  | mode => if r.burstBytes > 2 ^ 20 then .error .report else .ok ⟨mode, r.bitsPerSecond, r.burstBytes⟩

def AuthorityUpdate.policy (base : Nat) (u : AuthorityUpdate) : Except NodeError Policy := do
  refuse (base = 0 ∨ base > maxInt64 ∨ !validID u.grantID ∨ !validID u.clientID ∨ !validID u.termID ∨
    !validID u.placementID ∨ u.descriptorSHA256.length ≠ 32 ∨ u.authorityRevision = 0 ∨
    u.authorityRevision > maxInt64 ∨ u.creditRevision = 0 ∨ u.creditRevision > maxInt64 ∨ u.creditCeiling > maxInt64 ∨
    u.credentialGeneration = 0 ∨ u.credentialGeneration > maxInt64 ∨ u.placementRevision = 0 ∨
    u.placementRevision > maxInt64) .report
  let up ← u.upload.rate
  let down ← u.download.rate
  let policy : Policy := ⟨u.termID, base, u.authorityRevision, u.enabled, u.expiresUnixMilli, u.quotaUnlimited,
    u.creditCeiling, u.creditRevision, up, down⟩
  refuse (policy.validate ≠ .ok () ∨ (!policy.enabled ∧ (up.mode ≠ .blocked ∨ down.mode ≠ .blocked))) .report
  return policy

def AuthorityBase.valid (b : AuthorityBase) : Bool :=
  validID b.nodeID && validID b.installationID && validID b.agentStateJournalID && runtimeName b.runtimeID &&
    validID b.stateJournalID && validID b.creditJournalID && b.stateJournalID != b.creditJournalID &&
    b.agentStateJournalID != b.stateJournalID && b.agentStateJournalID != b.creditJournalID &&
    b.baseConfigurationRevision != 0 && b.baseConfigurationRevision ≤ maxInt64 && b.basePayloadSHA256.length == 32

def AuthorityUpdateBatch.validate (batch : AuthorityUpdateBatch) (allowEmpty : Bool) : Except NodeError Unit := do
  refuse (batch.updates.length > maxAuthorityUpdates) .report
  refuse (!batch.base.valid ∨ (batch.updates.length = 0 ∧ !allowEmpty)) .report
  batch.updates.forM fun u => do
    let _ ← u.policy batch.base.baseConfigurationRevision
  refuse (¬(batch.updates.map AuthorityUpdate.grantID).Nodup ∨ ¬(batch.updates.map AuthorityUpdate.clientID).Nodup) .report

def AuthorityUpdateBatch.policies (batch : AuthorityUpdateBatch) : Except NodeError (List PolicyUpdate) := do
  batch.validate false
  batch.updates.mapM fun u => do
    let policy ← u.policy batch.base.baseConfigurationRevision
    return ⟨u.grantID, u.clientID, policy⟩

/-- The digests that bind messages together, the code's SHA-256 of the encoded values. -/
structure Hashes where
  payload : Payload → Digest
  payloadSize : Payload → Nat
  assetManifest : Payload → Digest
  descriptors : String → String → List Descriptor → Digest
  update : AuthorityUpdate → Digest
  updateSize : AuthorityUpdate → Nat
  updates : AuthorityUpdateBatch → Digest

structure DescriptorScope where
  credentialGeneration : Nat
  placementID : String
  placementRevision : Nat
  sha256 : Digest
  deriving DecidableEq

def DescriptorScope.empty : DescriptorScope := ⟨0, "", 0, []⟩

def Descriptor.before (a b : Descriptor) : Bool :=
  a.inboundInstanceID < b.inboundInstanceID ||
    (a.inboundInstanceID = b.inboundInstanceID && decide (a.inboundTag ≤ b.inboundTag))

def Runtime.descriptorScope (hashes : Hashes) (r : Runtime) (client : String) : Except NodeError DescriptorScope := do
  let group := r.admissions.filter fun d => d.clientID = client
  let first ← found group.head? .configuration
  refuse (group.any fun d => d.credentialGeneration ≠ first.credentialGeneration ∨ d.placementID ≠ first.placementID ∨
    d.placementRevision ≠ first.placementRevision) .configuration
  return ⟨first.credentialGeneration, first.placementID, first.placementRevision,
    hashes.descriptors r.id client (group.mergeSort Descriptor.before)⟩

def Runtime.descriptorScopes (hashes : Hashes) (r : Runtime) : Except NodeError (Table String DescriptorScope) := do
  refuse (!runtimeName r.id ∨ !validDescriptors r.admissions) .configuration
  (r.admissions.map Descriptor.clientID).dedup.foldlM (fun scopes client => do
    let scope ← r.descriptorScope hashes client
    return scopes.put client scope) ∅

end Pui
