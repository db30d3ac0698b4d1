import Pui.Configuration
import Pui.GovernorRuns

/-!
# Deployments with the updates on top of them

What a worker puts in force when it applies a deployment.
-/

namespace Pui

open Crash Guard Table List

structure Authority where
  revision : Nat
  upload : Rate
  download : Rate
  deriving DecidableEq

def Policy.authority (p : Policy) : Authority := ⟨p.authorityRevision, p.upload, p.download⟩

def AuthorityUpdate.authority (u : AuthorityUpdate) : Authority :=
  ⟨u.authorityRevision, ⟨u.upload.mode, u.upload.bitsPerSecond, u.upload.burstBytes⟩,
    ⟨u.download.mode, u.download.bitsPerSecond, u.download.burstBytes⟩⟩

theorem AuthorityRate.rate_eq_ok {a : AuthorityRate} {r : Rate} (h : a.rate = .ok r) :
    r = ⟨a.mode, a.bitsPerSecond, a.burstBytes⟩ := by
  unfold AuthorityRate.rate at h
  split at h
  · cases h
  · split at h
    · cases h
    · cases h
      rfl

theorem authority_of_update {base : Nat} {u : AuthorityUpdate} {p : Policy} (h : u.policy base = .ok p) :
    p.authority = u.authority := by
  simp only [AuthorityUpdate.policy, bind_eq_ok, pure_eq_ok] at h
  obtain ⟨-, -, up, hup, down, hdown, -, -, rfl⟩ := h
  rw [AuthorityRate.rate_eq_ok hup, AuthorityRate.rate_eq_ok hdown]
  rfl

variable {current : Policy} {scope : AuthorityScope}

theorem authority_of_mergeAuthority {desired merged : Policy} (h : mergeAuthority current desired = .ok merged) :
    merged.authority = desired.authority := by
  simp only [mergeAuthority, unit_bind_eq_ok, pure_eq_ok] at h
  obtain ⟨-, -, -, -, -, -, rfl⟩ := h
  split
  · rfl
  · rfl

theorem revision_le_of_mergeAuthority {desired merged : Policy} (h : mergeAuthority current desired = .ok merged) :
    current.authorityRevision ≤ merged.authorityRevision := by
  rcases eq_or_advance_of_mergeAuthority h with rfl | hadvance
  · exact Nat.le_refl _
  · exact Nat.le_of_lt (authorityAdvance_eq_true.mp hadvance).2.1

theorem authority_retainCredit (base persisted : Policy) : (retainCredit base persisted).authority = base.authority := by
  unfold retainCredit
  split
  · rfl
  · split
    · next h => exact (congrArg Policy.authority h).symm
    · rfl

theorem revision_le_of_checkApply {p : Policy} (h : checkApply current p = .ok ()) :
    current.authorityRevision ≤ p.authorityRevision := by
  unfold checkApply at h
  split at h
  · cases h
  · split at h
    · cases h
    · next hrev => exact Nat.le_of_not_lt fun hlt => hrev (.inl hlt)

structure AuthorityIntent where
  base : AuthorityBase
  update : AuthorityUpdate
  deriving DecidableEq

structure AuthorityScope where
  revision : Nat
  digest : Digest
  descriptors : Table String DescriptorScope
  grants : Table String Grant

/-- An update has to be for the descriptors and the grant of its client. -/
def AuthorityScope.validate (scope : AuthorityScope) (u : AuthorityUpdate) : Except NodeError Unit := do
  let claim ← found (scope.descriptors.get? u.clientID) .identity
  refuse (claim.credentialGeneration ≠ u.credentialGeneration ∨ claim.placementID ≠ u.placementID ∨
    claim.placementRevision ≠ u.placementRevision ∨ claim.sha256 ≠ u.descriptorSHA256) .identity
  refuse ((scope.grants.get? u.clientID).any fun g => g.id ≠ u.grantID ∨ g.policy.term ≠ u.termID ∨
    g.policy.expiresUnixMilli ≠ u.expiresUnixMilli ∨ g.policy.quotaUnlimited ≠ u.quotaUnlimited) .identity

def mergePolicy (prior : Option Grant) (policy : Policy) : Except NodeError Policy :=
  match prior with
  | none => .ok policy
  | some prior => mergeAuthority prior.policy policy

def AuthorityScope.merge (runtimeID : String) (scope : AuthorityScope) (intent : AuthorityIntent) :
    Except NodeError AuthorityScope := do
  refuse (intent.base.runtimeID ≠ runtimeID) .identity
  scope.validate intent.update
  let policy ← intent.update.policy scope.revision
  let policy ← mergePolicy (scope.grants.get? intent.update.clientID) policy
  let grant : Grant := ⟨intent.update.grantID, intent.update.clientID, policy.authorityRevision, policy⟩
  return { scope with grants := scope.grants.put intent.update.clientID grant }

def AuthorityScope.sortedGrants (scope : AuthorityScope) : List Grant :=
  (scope.grants.entries.map fun e => e.2).mergeSort fun x y => decide (x.id ≤ y.id)

def Runtime.authorityScope (hashes : Hashes) (revision : Nat) (digest : Digest) (r : Runtime) :
    Except NodeError AuthorityScope := do
  let descriptors ← r.descriptorScopes hashes
  refuse (r.grants.any fun g => g.policy.authorityRevision ≠ 0 ∧ g.policy.revision ≠ revision) .revision
  return ⟨revision, digest, descriptors, r.grants.foldl (fun grants g => grants.put g.clientID g) ∅⟩

def Runtime.prepareAuthority (hashes : Hashes) (runtimeID : String) (revision : Nat) (digest : Digest)
    (intents : List AuthorityIntent) (r : Runtime) : Except NodeError (List Grant × AuthorityScope) := do
  let scope ← r.authorityScope hashes revision digest
  let scope ← intents.foldlM (AuthorityScope.merge runtimeID) scope
  return (scope.sortedGrants, scope)

def FromDeployment (runtimeID : String) (intents : List AuthorityIntent) (r : Runtime) (g : Grant) : Prop :=
  g ∈ r.grants ∨ ∃ i ∈ intents, i.base.runtimeID = runtimeID ∧ g.id = i.update.grantID ∧ g.policy.authority = i.update.authority

/-- The scope has a grant for every grant of the deployment. -/
def AuthorityScope.Covers (scope : AuthorityScope) (r : Runtime) : Prop :=
  ∀ g₀ ∈ r.grants, ∃ g, scope.grants.get? g₀.clientID = some g ∧ g.id = g₀.id ∧
    g₀.policy.authorityRevision ≤ g.policy.authorityRevision

theorem get?_foldl_put (l : List Grant) (t : Table String Grant) (client : String) :
    (l.foldl (fun t g => t.put g.clientID g) t).get? client =
      ((l.reverse.find? fun g => g.clientID = client).or (t.get? client)) := by
  induction l generalizing t with
  | nil => simp
  | cons g l ih =>
    rw [foldl_cons, ih, reverse_cons, List.find?_append, get?_put]
    cases l.reverse.find? fun g => g.clientID = client with
    | some g' => rfl
    | none =>
      by_cases hc : client = g.clientID
      · simp [hc]
      · simp [hc, Ne.symm hc]

theorem Runtime.authorityScope_eq_ok {hashes : Hashes} {revision : Nat} {digest : Digest} {r : Runtime} (h : r.authorityScope hashes revision digest = .ok scope) :
    (∀ client g, scope.grants.get? client = some g → g ∈ r.grants) ∧
      ((r.grants.map Grant.clientID).Nodup → scope.Covers r) := by
  simp only [Runtime.authorityScope, bind_eq_ok, pure_eq_ok] at h
  obtain ⟨-, -, -, -, rfl⟩ := h
  refine ⟨fun client g hg => ?_, fun hnodup g₀ hg₀ => ?_⟩
  · simp only [get?_foldl_put, get?_empty, Option.or_none] at hg
    exact mem_reverse.mp (mem_of_find?_eq_some hg)
  · simp only [get?_foldl_put, get?_empty, Option.or_none]
    cases hfind : r.grants.reverse.find? fun g => decide (g.clientID = g₀.clientID) with
    | none =>
      rw [List.find?_eq_none] at hfind
      exact absurd (decide_eq_true rfl) (hfind g₀ (mem_reverse.mpr hg₀))
    | some g =>
      have hmem := mem_reverse.mp (mem_of_find?_eq_some hfind)
      have hclient : g.clientID = g₀.clientID := by simpa using List.find?_some hfind
      rw [inj_on_of_nodup_map hnodup hmem hg₀ hclient]
      exact ⟨g₀, rfl, rfl, Nat.le_refl _⟩

theorem AuthorityScope.merge_eq_ok {runtimeID : String} {scope' : AuthorityScope} {i : AuthorityIntent}
    (h : scope.merge runtimeID i = .ok scope') :
    i.base.runtimeID = runtimeID ∧ ∃ g, g.id = i.update.grantID ∧ g.policy.authority = i.update.authority ∧
      scope' = { scope with grants := scope.grants.put i.update.clientID g } ∧
      ∀ prior, scope.grants.get? i.update.clientID = some prior → prior.id = g.id ∧
        prior.policy.authorityRevision ≤ g.policy.authorityRevision := by
  simp only [AuthorityScope.merge, AuthorityScope.validate, bind_eq_ok, refuse_eq_ok, pure_eq_ok, not_not] at h
  obtain ⟨-, hruntime, -, ⟨-, -, -, -, hsame⟩, policy, hpolicy, merged, hmerged, rfl⟩ := h
  refine ⟨hruntime, _, rfl, ?_, rfl, fun prior hprior => ⟨?_, ?_⟩⟩
  · rw [← authority_of_update hpolicy]
    unfold mergePolicy at hmerged
    split at hmerged
    · cases hmerged
      rfl
    · exact authority_of_mergeAuthority hmerged
  · rw [hprior] at hsame
    by_contra hne
    exact hsame (by simp [hne])
  · rw [hprior] at hmerged
    exact revision_le_of_mergeAuthority hmerged

theorem Runtime.prepareAuthority_eq_ok {hashes : Hashes} {runtimeID : String} {revision : Nat} {digest : Digest}
    {intents : List AuthorityIntent} {r : Runtime} {grants : List Grant}
    (h : r.prepareAuthority hashes runtimeID revision digest intents = .ok (grants, scope)) :
    (∀ g ∈ grants, FromDeployment runtimeID intents r g) ∧
      ((r.grants.map Grant.clientID).Nodup → ∀ g₀ ∈ r.grants, ∃ g ∈ grants, g.id = g₀.id ∧
        g₀.policy.authorityRevision ≤ g.policy.authorityRevision) := by
  simp only [Runtime.prepareAuthority, bind_eq_ok, pure_eq_ok, Prod.mk.injEq] at h
  obtain ⟨first, hfirst, last, hfold, rfl, rfl⟩ := h
  obtain ⟨hfrom, hcovers⟩ := Runtime.authorityScope_eq_ok hfirst
  have hinv := foldlM_keeps (I := fun s : AuthorityScope =>
      (∀ client g, s.grants.get? client = some g → FromDeployment runtimeID intents r g) ∧
        ((r.grants.map Grant.clientID).Nodup → s.Covers r))
    (fun s i hi s' hs hprev => by
      obtain ⟨hsfrom, hscovers⟩ := hprev
      obtain ⟨hruntime, g, hid, hauthority, rfl, hprior⟩ := AuthorityScope.merge_eq_ok hs
      refine ⟨fun client g' hg' => ?_, fun hnodup g₀ hg₀ => ?_⟩
      · rw [get?_put] at hg'
        split at hg'
        · cases hg'
          exact .inr ⟨i, hi, hruntime, hid, hauthority⟩
        · exact hsfrom client g' hg'
      · obtain ⟨prior, hget, hid₀, hrev₀⟩ := hscovers hnodup g₀ hg₀
        rw [get?_put]
        split
        · next hclient =>
          obtain ⟨hsame, hrev⟩ := hprior prior (hclient ▸ hget)
          exact ⟨g, rfl, hsame.symm.trans hid₀, Nat.le_trans hrev₀ hrev⟩
        · exact ⟨prior, hget, hid₀, hrev₀⟩)
    hfold ⟨fun client g hg => .inl (hfrom client g hg), hcovers⟩
  refine ⟨fun g hg => ?_, fun hnodup g₀ hg₀ => ?_⟩
  · obtain ⟨e, he, rfl⟩ := mem_map.mp (mem_mergeSort.mp hg)
    exact hinv.1 e.1 e.2 (mem_entries.mp he)
  · obtain ⟨g, hget, hid, hrev⟩ := hinv.2 hnodup g₀ hg₀
    exact ⟨g, mem_mergeSort.mpr (mem_map.mpr ⟨⟨_, g⟩, mem_entries.mpr hget, rfl⟩), hid, hrev⟩

end Pui
