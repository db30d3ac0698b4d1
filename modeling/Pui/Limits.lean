import Mathlib.Algebra.Group.Int.Defs
import Mathlib.Data.String.Basic
import Mathlib.Tactic.Basic
import Pui.Guard

/-!
# Policies and accounts

The policy that a node enforces for one client: an authorization with its rates, and a ceiling on the bytes it may
ever forward.
-/

namespace Pui

open Guard List

def maxUint64 : Nat := 2 ^ 64 - 1

def maxInt64 : Nat := 2 ^ 63 - 1

inductive NodeError where
  | blocked
  | expired
  | quota
  | revision
  | term
  | size
  | clock
  | context
  | grant
  | report
  | json
  | storage
  | usage
  | configuration
  | spoolFull
  | identity
  | counterCheckpoint
  | invalid (text : String)
  deriving DecidableEq

private def lowerHex (c : Char) : Bool := ('0' ≤ c && c ≤ '9') || ('a' ≤ c && c ≤ 'f')

def validID (id : String) : Bool :=
  id.toList.length == 36 &&
    id.toList.zipIdx.all (fun (c, i) => if i = 8 ∨ i = 13 ∨ i = 18 ∨ i = 23 then c == '-' else lowerHex c) &&
    id.toList.any (fun c => c != '-' && c != '0')

theorem utf8ByteSize_of_validID {id : String} (h : validID id = true) : id.utf8ByteSize = 36 := by
  have hascii : ∀ c ∈ id.toList, c.utf8Size = 1 := by
    intro c hc
    obtain ⟨i, hi, rfl⟩ := mem_iff_getElem.mp hc
    simp only [validID, Bool.and_eq_true, all_eq_true] at h
    have hchar := h.1.2 (id.toList[i], i) (mk_mem_zipIdx_iff_getElem?.mpr (List.getElem?_eq_getElem hi))
    rw [Char.utf8Size_eq_one_iff]
    by_cases hdash : i = 8 ∨ i = 13 ∨ i = 18 ∨ i = 23
    · rw [if_pos hdash, beq_iff_eq] at hchar
      rw [show id.toList[i] = '-' from hchar]
      decide
    · rw [if_neg hdash] at hchar
      simp only [lowerHex, Bool.or_eq_true, Bool.and_eq_true, decide_eq_true_eq] at hchar
      rcases hchar with hdigit | hletter
      · exact UInt32.le_trans hdigit.2 (by decide)
      · exact UInt32.le_trans hletter.2 (by decide)
  have hlen : id.toList.length = 36 := by
    simp only [validID, Bool.and_eq_true, beq_iff_eq] at h
    exact h.1.1
  have hsum : ∀ cs : List Char, (∀ c ∈ cs, c.utf8Size = 1) → (String.ofList cs).utf8ByteSize = cs.length := by
    intro cs hcs
    rw [String.utf8ByteSize_ofList]
    induction cs with
    | nil => rfl
    | cons c cs ih =>
      rw [String.utf8Len_cons, ih fun d hd => hcs d (mem_cons_of_mem c hd), hcs c mem_cons_self, length_cons]
  rw [← hlen, ← hsum id.toList hascii, String.ofList_toList]

inductive Mode where
  | blocked
  | limited
  | unlimited
  | unknown (code : Nat)
  deriving DecidableEq

inductive Direction where
  | upload
  | download
  deriving DecidableEq

structure Rate where
  mode : Mode
  bitsPerSecond : Nat
  burstBytes : Int
  deriving DecidableEq

structure Policy where
  term : String
  revision : Nat
  authorityRevision : Nat
  enabled : Bool
  expiresUnixMilli : Int
  quotaUnlimited : Bool
  creditCeiling : Nat
  creditRevision : Nat
  upload : Rate
  download : Rate
  deriving DecidableEq

def Policy.withCredit (p : Policy) (creditRevision creditCeiling : Nat) : Policy :=
  { p with creditRevision := creditRevision, creditCeiling := creditCeiling }

def Policy.rate (p : Policy) : Direction → Rate
  | .upload => p.upload
  | .download => p.download

def Rate.validate (r : Rate) : Except NodeError Unit :=
  match r.mode with
  | .blocked | .unlimited =>
    if r.bitsPerSecond ≠ 0 ∨ r.burstBytes ≠ 0 then .error (.invalid "non-limited rate carries limit values")
    else .ok ()
  | .limited =>
    if r.bitsPerSecond = 0 ∨ r.bitsPerSecond > 2 ^ 53 ∨ r.burstBytes < 1 ∨ r.burstBytes > 2 ^ 20 then
      .error (.invalid "invalid limited rate")
    else .ok ()
  | .unknown code => .error (.invalid ("unknown rate mode " ++ toString code))

def Policy.validate (p : Policy) : Except NodeError Unit := do
  refuse (p.term = "" ∨ p.revision = 0 ∨ p.expiresUnixMilli < 0) (.invalid "invalid policy identity or expiry")
  p.upload.validate
  p.download.validate
  refuse (p.quotaUnlimited ∧ p.creditCeiling ≠ 0) (.invalid "unlimited quota carries a credit ceiling")

def creditAdvance (before after : Policy) : Bool :=
  if before.quotaUnlimited ∨ after.creditRevision ≤ before.creditRevision ∨
      after.creditCeiling ≤ before.creditCeiling then false
  else before.withCredit after.creditRevision after.creditCeiling = after

def authorityAdvance (before after : Policy) : Bool :=
  if before.revision ≠ after.revision ∨ before.term ≠ after.term ∨
      before.expiresUnixMilli ≠ after.expiresUnixMilli ∨ before.quotaUnlimited ≠ after.quotaUnlimited ∨
      after.authorityRevision ≤ before.authorityRevision ∨ (!before.enabled ∧ after.enabled) ∨
      after.creditRevision < before.creditRevision ∨ after.creditCeiling < before.creditCeiling ∨
      (after.creditRevision = before.creditRevision ∧ after.creditCeiling ≠ before.creditCeiling) then false
  else
    { before.withCredit after.creditRevision after.creditCeiling with
      authorityRevision := after.authorityRevision, enabled := after.enabled,
      upload := after.upload, download := after.download } = after

/-- The policy of an authority update, with credit of `current` that is newer. -/
def mergeAuthority (current desired : Policy) : Except NodeError Policy := do
  refuse (desired.authorityRevision = 0 ∨ desired.authorityRevision > maxInt64 ∨ desired.creditRevision = 0 ∨
    desired.creditRevision > maxInt64 ∨ desired.creditCeiling > maxInt64) .revision
  desired.validate
  refuse (desired.term ≠ current.term) .term
  refuse (desired.revision ≠ current.revision ∨ desired.expiresUnixMilli ≠ current.expiresUnixMilli ∨
    desired.quotaUnlimited ≠ current.quotaUnlimited ∨ (!current.enabled ∧ desired.enabled)) .revision
  refuse (desired.creditRevision < current.creditRevision ∧ desired.creditCeiling > current.creditCeiling) .revision
  let merged := if desired.creditRevision < current.creditRevision then desired.withCredit current.creditRevision current.creditCeiling
    else desired
  refuse (merged ≠ current ∧ !authorityAdvance current merged) .revision
  return merged

/-- The policy of a deployment, with credit of `persisted` that is newer. -/
def retainCredit (base persisted : Policy) : Policy :=
  if base.revision ≠ persisted.revision ∨ base.creditRevision ≥ persisted.creditRevision ∨
      base.creditCeiling > persisted.creditCeiling then base
  else if base.withCredit persisted.creditRevision persisted.creditCeiling = persisted then persisted
  else base

variable {before after current desired merged : Policy}

theorem creditAdvance_eq_true :
    creditAdvance before after = true ↔
      before.quotaUnlimited = false ∧ before.creditRevision < after.creditRevision ∧
        before.creditCeiling < after.creditCeiling ∧ before.withCredit after.creditRevision after.creditCeiling = after := by
  unfold creditAdvance
  split
  · next h =>
    simp only [Bool.false_eq_true, false_iff]
    rintro ⟨hq, hr, hc, -⟩
    rcases h with h | h | h
    · rw [hq] at h; exact Bool.false_ne_true h
    · omega
    · omega
  · next h =>
    simp only [not_or, Bool.not_eq_true, Nat.not_le] at h
    simp [h]

theorem authorityAdvance_eq_true :
    authorityAdvance before after = true ↔
      (before.revision = after.revision ∧ before.term = after.term ∧
        before.expiresUnixMilli = after.expiresUnixMilli ∧ before.quotaUnlimited = after.quotaUnlimited) ∧
      before.authorityRevision < after.authorityRevision ∧ (after.enabled = true → before.enabled = true) ∧
      before.creditRevision ≤ after.creditRevision ∧ before.creditCeiling ≤ after.creditCeiling ∧
      (after.creditRevision = before.creditRevision → after.creditCeiling = before.creditCeiling) := by
  obtain ⟨at', ar, aa, ae, ax, aq, ac, acr, au, ad⟩ := after
  unfold authorityAdvance Policy.withCredit
  simp only
  split
  · next h => grind
  · next h => grind

theorem Policy.validate_eq_ok {p : Policy} :
    p.validate = .ok () ↔
      (p.term ≠ "" ∧ p.revision ≠ 0 ∧ 0 ≤ p.expiresUnixMilli) ∧ p.upload.validate = .ok () ∧
        p.download.validate = .ok () ∧ (p.quotaUnlimited = true → p.creditCeiling = 0) := by
  simp only [Policy.validate, unit_bind_eq_ok, refuse_eq_ok, not_or, not_and, not_not, not_lt]

theorem Policy.validate_withCredit {p : Policy} {creditRevision creditCeiling : Nat} (h : p.validate = .ok ())
    (hq : p.quotaUnlimited = true → creditCeiling = 0) :
    (p.withCredit creditRevision creditCeiling).validate = .ok () := by
  rw [Policy.validate_eq_ok] at h ⊢
  exact ⟨h.1, h.2.1, h.2.2.1, hq⟩

theorem validate_of_creditAdvance (hb : before.validate = .ok ())
    (h : creditAdvance before after = true) : after.validate = .ok () := by
  obtain ⟨hq, -, -, he⟩ := creditAdvance_eq_true.mp h
  rw [← he]
  exact Policy.validate_withCredit hb fun h => by simp [hq] at h

theorem eq_or_advance_of_mergeAuthority (h : mergeAuthority current desired = .ok merged) :
    merged = current ∨ authorityAdvance current merged = true := by
  simp only [mergeAuthority, unit_bind_eq_ok, refuse_eq_ok, pure_eq_ok] at h
  obtain ⟨-, -, -, -, -, hm, rfl⟩ := h
  by_contra hn
  rw [not_or, Bool.not_eq_true] at hn
  exact hm ⟨hn.1, by simp [hn.2]⟩

theorem validate_of_mergeAuthority (hc : current.validate = .ok ())
    (h : mergeAuthority current desired = .ok merged) : merged.validate = .ok () := by
  simp only [mergeAuthority, unit_bind_eq_ok, refuse_eq_ok, pure_eq_ok, not_or, not_not] at h
  obtain ⟨-, hd, -, ⟨-, -, hq, -⟩, -, -, rfl⟩ := h
  split
  · refine Policy.validate_withCredit hd fun h => (Policy.validate_eq_ok.mp hc).2.2.2 ?_
    rw [← hq, h]
  · exact hd

theorem enabled_of_mergeAuthority (h : mergeAuthority current desired = .ok merged) : merged.enabled = desired.enabled := by
  simp only [mergeAuthority, unit_bind_eq_ok, refuse_eq_ok, pure_eq_ok] at h
  obtain ⟨-, -, -, -, -, -, rfl⟩ := h
  split <;> rfl

theorem authorityRevision_of_mergeAuthority
    (h : mergeAuthority current desired = .ok merged) : merged.authorityRevision = desired.authorityRevision := by
  simp only [mergeAuthority, unit_bind_eq_ok, refuse_eq_ok, pure_eq_ok] at h
  obtain ⟨-, -, -, -, -, -, rfl⟩ := h
  split <;> rfl

theorem enabled_retainCredit (base persisted : Policy) : (retainCredit base persisted).enabled = base.enabled := by
  unfold retainCredit
  split
  · rfl
  · split
    · next h => exact (congrArg Policy.enabled h).symm
    · rfl

def checkApply (current p : Policy) : Except NodeError Unit :=
  if p.term ≠ current.term then .error .term
  else if p.authorityRevision < current.authorityRevision ∨ p.creditRevision < current.creditRevision ∨
      p.revision < current.revision ∨
      (p.revision = current.revision ∧ p ≠ current ∧ !creditAdvance current p ∧ !authorityAdvance current p) then
    .error .revision
  else if (p.creditRevision ≠ 0 ∨ current.creditRevision ≠ 0) ∧
      (p.creditCeiling < current.creditCeiling ∨
        (p.creditRevision = current.creditRevision ∧ p.creditCeiling ≠ current.creditCeiling)) then
    .error .revision
  else if (p.authorityRevision ≠ 0 ∨ current.authorityRevision ≠ 0) ∧
      p.quotaUnlimited ≠ current.quotaUnlimited then
    .error .revision
  else .ok ()

theorem term_of_checkApply {p : Policy} (h : checkApply current p = .ok ()) : p.term = current.term := by
  unfold checkApply at h
  split at h
  · cases h
  · next ht => exact not_not.mp ht

theorem checkApply_self (p : Policy) : checkApply p p = .ok () := by
  simp [checkApply]

structure Bucket where
  bitsPerSecond : Nat
  burst : Int
  deriving DecidableEq

def Rate.bucket (r : Rate) : Option Bucket :=
  if r.mode = .limited then some ⟨r.bitsPerSecond, r.burstBytes⟩ else none

structure Account where
  quarantined : Bool
  policy : Policy
  uploaded : Nat
  downloaded : Nat
  previouslyReserved : Nat
  uploadBucket : Option Bucket
  downloadBucket : Option Bucket
  deriving DecidableEq

namespace Account

def new (p : Policy) : Except NodeError Account := do
  p.validate
  return ⟨false, p, 0, 0, 0, p.upload.bucket, p.download.bucket⟩

def restore (p : Policy) (previouslyReserved : Nat) : Except NodeError Account := do
  let a ← new p
  return { a with previouslyReserved := previouslyReserved }

def quarantine (a : Account) : Account := { a with quarantined := true }

def bucket (a : Account) : Direction → Option Bucket
  | .upload => a.uploadBucket
  | .download => a.downloadBucket

def spent (a : Account) : Nat := a.previouslyReserved + a.uploaded + a.downloaded

def allowed (a : Account) (now : Option Int) (dir : Direction) (n : Nat) : Except NodeError Unit :=
  match now with
  | none => .error .clock
  | some t =>
    if a.quarantined ∨ !a.policy.enabled ∨ (a.policy.rate dir).mode = .blocked then .error .blocked
    else if a.policy.expiresUnixMilli ≠ 0 ∧ t ≥ a.policy.expiresUnixMilli then .error .expired
    else if a.uploaded > maxUint64 - a.previouslyReserved ∨
        a.downloaded > maxUint64 - a.previouslyReserved - a.uploaded ∨
        n > maxUint64 - a.previouslyReserved - a.uploaded - a.downloaded then .error .quota
    else if !a.policy.quotaUnlimited ∧ (a.spent > a.policy.creditCeiling ∨ n > a.policy.creditCeiling - a.spent) then
      .error .quota
    else .ok ()

def unexpired (now : Option Int) (p : Policy) : Except NodeError Unit :=
  match now with
  | none => .error .clock
  | some t => if p.expiresUnixMilli ≠ 0 ∧ t ≥ p.expiresUnixMilli then .error .expired else .ok ()

def authorityTime (now : Option Int) (p : Policy) : Except NodeError Unit :=
  if !p.enabled then .ok () else unexpired now p

def validateAuthority (a : Account) (now : Option Int) (desired : Policy) : Except NodeError Unit := do
  refuse a.quarantined .blocked
  let merged ← mergeAuthority a.policy desired
  authorityTime now merged

/-- A bucket that is reconfigured keeps its tokens and a new one starts empty. -/
private def replaceBucket (current : Option Bucket) (old next : Rate) : Option Bucket :=
  if next = old then current else next.bucket

def install (a : Account) (p : Policy) : Account :=
  { a with
    policy := p
    uploadBucket := replaceBucket a.uploadBucket a.policy.upload p.upload
    downloadBucket := replaceBucket a.downloadBucket a.policy.download p.download }

end Account

end Pui
