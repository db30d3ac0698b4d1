import Mathlib.Data.List.MinMax
import Pui.Backing
import Pui.Run

/-!
# Updates in any order

Between two deployments a grant is updated with another authority or with credit alone, in any order and more than
once.
-/

namespace Pui

open Crash Crash.Prog Guard List

def Largest {α : Type} (rank : α → Nat) (l : List α) (a : α) : Prop := a ∈ l ∧ ∀ b ∈ l, rank b ≤ rank a

namespace Largest

variable {α : Type} {rank : α → Nat} {l : List α} {a b : α}

theorem exists_of_ne_nil (hl : l ≠ []) : ∃ a, Largest rank l a := by
  cases h : l.argmax rank with
  | none => exact absurd (argmax_eq_none.mp h) hl
  | some a => exact ⟨a, argmax_mem h, fun b hb => le_of_mem_argmax hb h⟩

theorem concat_left (h : Largest rank l a) (hb : rank b ≤ rank a) : Largest rank (l ++ [b]) a :=
  ⟨mem_append_left _ h.1, forall_mem_append.mpr ⟨h.2, by simpa using hb⟩⟩

theorem concat_right (h : Largest rank l a) (hb : rank a ≤ rank b) : Largest rank (l ++ [b]) b :=
  ⟨by simp, forall_mem_append.mpr ⟨fun c hc => (h.2 c hc).trans hb, by simp⟩⟩

theorem congr {l' : List α} (h : Largest rank l a) (hl : ∀ b, b ∈ l ↔ b ∈ l') : Largest rank l' a :=
  ⟨(hl a).mp h.1, fun b hb => h.2 b ((hl b).mpr hb)⟩

theorem rank_eq (h : Largest rank l a) (h' : Largest rank l b) : rank a = rank b := le_antisymm (h'.2 a h.1) (h.2 b h'.1)

end Largest

inductive LimitUpdate where
  | authority (desired : Policy)
  | credit (term : String) (policyRevision creditRevision ceiling : Nat)
  deriving DecidableEq

structure Policy.Grows (p q : Policy) : Prop where
  revision : p.revision ≤ q.revision
  authorityRevision : p.authorityRevision ≤ q.authorityRevision
  creditRevision : p.creditRevision ≤ q.creditRevision
  creditCeiling : p.creditCeiling ≤ q.creditCeiling

theorem Policy.Grows.refl (p : Policy) : p.Grows p := ⟨le_rfl, le_rfl, le_rfl, le_rfl⟩

variable {p : Policy}

theorem Policy.Grows.trans {q r : Policy} (h : p.Grows q) (h' : q.Grows r) : p.Grows r :=
  ⟨h.1.trans h'.1, h.2.trans h'.2, h.3.trans h'.3, h.4.trans h'.4⟩

def Policy.join (p : Policy) : LimitUpdate → Policy
  | .authority desired =>
    if p.authorityRevision < desired.authorityRevision then
      if desired.creditRevision < p.creditRevision then desired.withCredit p.creditRevision p.creditCeiling else desired
    else p
  | .credit _ _ creditRevision ceiling => if p.creditRevision < creditRevision then p.withCredit creditRevision ceiling else p

def Policy.Passes (p : Policy) : Prop := ¬(p.upload.mode = .blocked ∧ p.download.mode = .blocked)

instance (p : Policy) : Decidable p.Passes := inferInstanceAs (Decidable ¬_)

structure Policy.Alongside (base p : Policy) : Prop where
  term : p.term = base.term
  revision : p.revision = base.revision
  expiresUnixMilli : p.expiresUnixMilli = base.expiresUnixMilli
  metered : p.quotaUnlimited = false
  enabled : p.enabled = true
  passes : p.Passes

structure Policy.Sendable (p : Policy) : Prop where
  validate : p.validate = .ok ()
  authorityRevision : 0 < p.authorityRevision ∧ p.authorityRevision ≤ maxInt64
  creditRevision : 0 < p.creditRevision ∧ p.creditRevision ≤ maxInt64
  creditCeiling : p.creditCeiling ≤ maxInt64

def InOrder (k l : Nat × Nat) : Prop := (k.1 < l.1 → k.2 < l.2) ∧ (k.1 = l.1 → k.2 = l.2)

def Policy.credit (p : Policy) : Nat × Nat := (p.creditRevision, p.creditCeiling)

structure Cell.Serves (c : Cell) : Prop where
  stored : ∃ r, c.record = some r ∧ r.grant.policy = c.account.policy
  quarantined : c.account.quarantined = false

theorem checkApply_of_advance {q : Policy} (h : creditAdvance p q = true ∨ authorityAdvance p q = true) :
    checkApply p q = .ok () := by
  have hgrows : q.term = p.term ∧ q.quotaUnlimited = p.quotaUnlimited ∧ p.Grows q ∧
      (q.creditRevision = p.creditRevision → q.creditCeiling = p.creditCeiling) := by
    rcases h with h | h
    · obtain ⟨-, hrevision, hceiling, he⟩ := creditAdvance_eq_true.mp h
      rw [← he]
      exact ⟨rfl, rfl, ⟨le_rfl, le_rfl, hrevision.le, hceiling.le⟩, fun heq => absurd heq hrevision.ne'⟩
    · obtain ⟨⟨hrevision, hterm, -, hquota⟩, hauthority, -, hcredit, hceiling, hsame⟩ := authorityAdvance_eq_true.mp h
      exact ⟨hterm.symm, hquota.symm, ⟨hrevision.le, hauthority.le, hcredit, hceiling⟩, hsame⟩
  obtain ⟨hterm, hquota, ⟨hrevision, hauthority, hcredit, hceiling⟩, hsame⟩ := hgrows
  unfold checkApply
  rw [if_neg (not_not.mpr hterm), if_neg, if_neg, if_neg]
  · exact fun h => h.2 hquota
  · rintro ⟨-, hlt | ⟨heq, hne⟩⟩
    · omega
    · exact hne (hsame heq)
  · rintro (hlt | hlt | hlt | ⟨-, -, hnot⟩)
    · omega
    · omega
    · omega
    · simp only [Bool.not_eq_true'] at hnot
      simp [hnot] at h

namespace Cell

def deliver (c : Cell) (d : Option Int × LimitUpdate) : Cell :=
  match d.2 with
  | .authority desired => settle (applyAuthority d.1 desired) c [] (fun _ c => c) fun _ c => c
  | .credit term policyRevision creditRevision ceiling =>
    settle (applyCredit d.1 term policyRevision creditRevision ceiling) c [] (fun _ c => c) fun _ c => c

variable {c : Cell}

theorem applyLocked_completes {r : Record} (hr : c.record = some r) (hp : r.grant.policy = c.account.policy)
    (h : creditAdvance c.account.policy p = true ∨ authorityAdvance c.account.policy p = true) :
    Completes (applyLocked p) c () (c.switched r p) := by
  have hcheck := checkApply_of_advance h
  have hne : p ≠ c.account.policy := by
    rintro rfl
    rcases h with h | h
    · exact absurd (creditAdvance_eq_true.mp h).2.1 (lt_irrefl _)
    · exact absurd (authorityAdvance_eq_true.mp h).2.1 (lt_irrefl _)
  have hauthority : ¬p.authorityRevision < c.account.policy.authorityRevision := by
    rcases h with h | h
    · rw [← (creditAdvance_eq_true.mp h).2.2.2]
      exact lt_irrefl _
    · exact not_lt.mpr (authorityAdvance_eq_true.mp h).2.1.le
  -- the row has the policy in force, so its own check is the one that was made before
  have hstore : ¬(r.grant.policy.term ≠ p.term ∨ p.authorityRevision < r.grant.policy.authorityRevision ∨
      (r.grant.policy.revision ≥ p.revision ∧ !creditAdvance r.grant.policy p ∧ !authorityAdvance r.grant.policy p)) := by
    rw [hp]
    rintro (hterm | hlt | ⟨-, hnot⟩)
    · exact hterm (term_of_checkApply hcheck).symm
    · exact hauthority hlt
    · simp only [Bool.not_eq_true'] at hnot
      simp [hnot] at h
  refine completes_read_bind.mpr ((completes_ofExcept hcheck).bind ?_)
  rw [if_neg hne]
  refine (completes_write (a := ()) (t := c.stored r p) ?_).bind (completes_update _ _)
  rw [hr]
  exact bind_eq_ok.mpr ⟨r, rfl, bind_eq_ok.mpr ⟨(), refuse_eq_ok.mpr hstore, rfl⟩⟩

theorem serves_switched {r : Record} (hq : c.account.quarantined = false) (p : Policy) :
    (c.switched r p).Serves ∧ (c.switched r p).account.policy = p :=
  ⟨⟨⟨_, rfl, rfl⟩, hq⟩, rfl⟩

end Cell

namespace Cell

variable {c : Cell} {now : Option Int}

theorem deliver_stale_authority (hc : c.Serves) {desired : Policy}
    (h : desired.authorityRevision ≤ c.account.policy.authorityRevision) : c.deliver (now, .authority desired) = c := by
  obtain ⟨r, hr, -⟩ := hc.stored
  have hmerged : ∀ q, mergeAuthority c.account.policy desired = .ok q → q = c.account.policy := by
    intro q hq
    refine (eq_or_advance_of_mergeAuthority hq).resolve_right fun hadv => ?_
    have hlt := (authorityAdvance_eq_true.mp hadv).2.1
    rw [authorityRevision_of_mergeAuthority hq] at hlt
    omega
  unfold deliver
  refine Spec.settle (P := fun c' => c' = c) (applyAuthority_changes hr now desired) ?_ ?_ []
  · rintro _ c' ⟨q, ⟨-, hq, -⟩, ⟨-, rfl⟩ | ⟨hne, -⟩⟩
    · rfl
    · exact absurd (hmerged q hq) hne
  · rintro (e | -) c' hc'
    · exact hc'
    · rcases hc' with hc' | ⟨q, ⟨-, hq, -⟩, hne, -⟩
      · exact hc'
      · exact absurd (hmerged q hq) hne

theorem deliver_stale_credit (hc : c.Serves) {term : String} {policyRevision creditRevision ceiling : Nat}
    (h : creditRevision ≤ c.account.policy.creditRevision) :
    c.deliver (now, .credit term policyRevision creditRevision ceiling) = c := by
  obtain ⟨r, hr, -⟩ := hc.stored
  have hsame : ∀ q, q = c.account.policy.withCredit creditRevision ceiling →
      (q = c.account.policy ∨ creditAdvance c.account.policy q = true ∧ c.account.quarantined = false) →
      q = c.account.policy := by
    rintro _ rfl hq
    refine hq.resolve_right fun hadv => ?_
    have hlt : c.account.policy.creditRevision < creditRevision := (creditAdvance_eq_true.mp hadv.1).2.1
    omega
  unfold deliver
  refine Spec.settle (P := fun c' => c' = c) (applyCredit_changes hr now term policyRevision creditRevision ceiling) ?_ ?_ []
  · rintro _ c' ⟨q, ⟨heq, -, hq, -⟩, ⟨-, rfl⟩ | ⟨hne, -⟩⟩
    · rfl
    · exact absurd (hsame q heq hq) hne
  · rintro (e | -) c' hc'
    · exact hc'
    · rcases hc' with hc' | ⟨q, ⟨heq, -, hq, -⟩, hne, -⟩
      · exact hc'
      · exact absurd (hsame q heq hq) hne

theorem unexpired_congr {q : Policy} (h : p.expiresUnixMilli = q.expiresUnixMilli) :
    Account.unexpired now p = Account.unexpired now q := by
  unfold Account.unexpired
  rw [h]

theorem deliver_authority (hc : c.Serves) {base desired : Policy} (hcurrent : base.Alongside c.account.policy)
    (hdesired : base.Alongside desired) (hsend : desired.Sendable) (htime : Account.unexpired now base = .ok ())
    (hle : InOrder c.account.policy.credit desired.credit) (hge : InOrder desired.credit c.account.policy.credit)
    (h : c.account.policy.authorityRevision < desired.authorityRevision) :
    (c.deliver (now, .authority desired)).Serves ∧
      (c.deliver (now, .authority desired)).account.policy = c.account.policy.join (.authority desired) := by
  obtain ⟨r, hr, hp⟩ := hc.stored
  generalize hcur : c.account.policy = current at *
  obtain ⟨hlt, heq⟩ := hle
  obtain ⟨hgt, -⟩ := hge
  simp only [Policy.credit] at hlt heq hgt
  obtain ⟨merged, hmerged⟩ : ∃ merged, current.join (.authority desired) = merged := ⟨_, rfl⟩
  have hjoin : merged = if desired.creditRevision < current.creditRevision then
      desired.withCredit current.creditRevision current.creditCeiling else desired := by
    rw [← hmerged, Policy.join, if_pos h]
  have hadv : authorityAdvance current merged = true := by
    rw [authorityAdvance_eq_true, hjoin]
    have hrevision := hcurrent.revision.trans hdesired.revision.symm
    have hterm := hcurrent.term.trans hdesired.term.symm
    have hexpires := hcurrent.expiresUnixMilli.trans hdesired.expiresUnixMilli.symm
    have hquota := hcurrent.metered.trans hdesired.metered.symm
    split
    · exact ⟨⟨hrevision, hterm, hexpires, hquota⟩, h, fun _ => hcurrent.enabled, le_rfl, le_rfl, fun _ => rfl⟩
    · next hnot =>
      refine ⟨⟨hrevision, hterm, hexpires, hquota⟩, h, fun _ => hcurrent.enabled, not_lt.mp hnot, ?_, fun he => (heq he.symm).symm⟩
      rcases Nat.eq_or_lt_of_le (not_lt.mp hnot) with he | hl
      · exact (heq he).le
      · exact (hlt hl).le
  have hmerge : mergeAuthority current desired = .ok merged := by
    simp only [mergeAuthority, unit_bind_eq_ok, refuse_eq_ok, pure_eq_ok, ← hjoin]
    refine ⟨?_, hsend.validate, ?_, ?_, ?_, ?_, trivial⟩
    · obtain ⟨-, ha, hcr, hcc⟩ := hsend
      omega
    · exact not_not.mpr (hdesired.term.trans hcurrent.term.symm)
    · rw [hdesired.revision, hcurrent.revision, hdesired.expiresUnixMilli, hcurrent.expiresUnixMilli, hdesired.metered,
        hcurrent.metered, hcurrent.enabled]
      simp
    · rintro ⟨hl, hg⟩
      exact absurd (hgt hl) (not_lt.mpr hg.le)
    · rintro ⟨-, hnot⟩
      simp [hadv] at hnot
  have henabled : merged.enabled = true := (enabled_of_mergeAuthority hmerge).trans hdesired.enabled
  have hexpires : merged.expiresUnixMilli = base.expiresUnixMilli := by
    rw [← (authorityAdvance_eq_true.mp hadv).1.2.2.1]
    exact hcurrent.expiresUnixMilli
  have hcompletes : Completes (applyAuthority now desired) c () (c.switched r merged) := by
    refine completes_read_bind.mpr ((completes_failIf (by simp [hc.quarantined])).bind ?_)
    rw [hcur]
    refine (completes_ofExcept hmerge).bind ((completes_ofExcept (a := ()) ?_).bind ?_)
    · rw [Account.authorityTime, if_neg (by simp [henabled]), unexpired_congr hexpires]
      exact htime
    · exact applyLocked_completes hr (hp.trans hcur.symm) (.inr (hcur ▸ hadv))
  have hdeliver : c.deliver (now, .authority desired) = c.switched r merged := by
    simp only [deliver]
    exact hcompletes.settle
  rw [hmerged, hdeliver]
  exact serves_switched hc.quarantined merged

theorem deliver_credit (hc : c.Serves) {base : Policy} (hcurrent : base.Alongside c.account.policy)
    {creditRevision ceiling : Nat} (hrevision : creditRevision ≤ maxInt64) (hceiling : ceiling ≤ maxInt64)
    (htime : Account.unexpired now base = .ok ()) (hle : InOrder c.account.policy.credit (creditRevision, ceiling))
    (h : c.account.policy.creditRevision < creditRevision) :
    (c.deliver (now, .credit base.term base.revision creditRevision ceiling)).Serves ∧
      (c.deliver (now, .credit base.term base.revision creditRevision ceiling)).account.policy =
        c.account.policy.join (.credit base.term base.revision creditRevision ceiling) := by
  obtain ⟨r, hr, hp⟩ := hc.stored
  have hgrows : c.account.policy.creditCeiling < ceiling := hle.1 h
  have hadv : creditAdvance c.account.policy (c.account.policy.withCredit creditRevision ceiling) = true :=
    creditAdvance_eq_true.mpr ⟨hcurrent.metered, h, hgrows, rfl⟩
  have hne : c.account.policy.withCredit creditRevision ceiling ≠ c.account.policy := by
    intro he
    have := congrArg Policy.creditRevision he
    exact absurd this h.ne'
  have hcompletes : Completes (applyCredit now base.term base.revision creditRevision ceiling) c ()
      (c.switched r (c.account.policy.withCredit creditRevision ceiling)) := by
    refine completes_read_bind.mpr ((completes_failIf (not_not.mpr hcurrent.term.symm)).bind
      ((completes_failIf ?_).bind ?_))
    · have := hcurrent.revision
      omega
    · rw [if_neg hne]
      refine (completes_failIf (by simp [hadv])).bind ((completes_failIf ?_).bind ((completes_ofExcept (a := ()) ?_).bind
        (applyLocked_completes hr hp (.inl hadv))))
      · rintro (hq | he | hblocked)
        · simp [hc.quarantined] at hq
        · simp [Policy.withCredit, hcurrent.enabled] at he
        · exact hcurrent.passes hblocked
      · exact (unexpired_congr hcurrent.expiresUnixMilli).trans htime
  have hdeliver : c.deliver (now, .credit base.term base.revision creditRevision ceiling) =
      c.switched r (c.account.policy.withCredit creditRevision ceiling) := by
    simp only [deliver]
    exact hcompletes.settle
  rw [Policy.join, if_pos h, hdeliver]
  exact serves_switched hc.quarantined _

end Cell

def authorities (us : List LimitUpdate) : List Policy :=
  us.filterMap fun
    | .authority desired => some desired
    | .credit .. => none

def credits (us : List LimitUpdate) : List (Nat × Nat) :=
  us.map fun
    | .authority desired => desired.credit
    | .credit _ _ creditRevision ceiling => (creditRevision, ceiling)

structure Commuting (base : Policy) (us : List LimitUpdate) : Prop where
  inForce : base.Alongside base
  authority : ∀ p ∈ authorities us, base.Alongside p ∧ p.Sendable
  credit : ∀ term policyRevision creditRevision ceiling, .credit term policyRevision creditRevision ceiling ∈ us →
    term = base.term ∧ policyRevision = base.revision ∧ creditRevision ≤ maxInt64 ∧ ceiling ≤ maxInt64
  distinct : ∀ p ∈ base :: authorities us, ∀ q ∈ base :: authorities us,
    p.authorityRevision = q.authorityRevision → p = q
  rising : ∀ p ∈ base :: authorities us, ∀ q ∈ base :: authorities us,
    p.authorityRevision ≤ q.authorityRevision → p.creditRevision ≤ q.creditRevision
  ordered : ∀ k ∈ base.credit :: credits us, ∀ l ∈ base.credit :: credits us, InOrder k l

theorem mem_authorities {us : List LimitUpdate} : p ∈ authorities us ↔ .authority p ∈ us := by
  rw [authorities, mem_filterMap]
  constructor
  · rintro ⟨u, hu, he⟩
    cases u with
    | authority desired =>
      cases he
      exact hu
    | credit term policyRevision creditRevision ceiling => cases he
  · exact fun h => ⟨_, h, rfl⟩

theorem credit_mem_credits {us : List LimitUpdate} (h : p ∈ authorities us) : p.credit ∈ credits us :=
  mem_map.mpr ⟨_, mem_authorities.mp h, rfl⟩

structure Merged (base : Policy) (done : List LimitUpdate) (c : Cell) : Prop where
  serves : c.Serves
  policy : ∃ top credit, Largest Policy.authorityRevision (base :: authorities done) top ∧
    Largest Prod.fst (base.credit :: credits done) credit ∧ c.account.policy = top.withCredit credit.1 credit.2

namespace Commuting

variable {base : Policy} {us done : List LimitUpdate} {c : Cell} {now : Option Int}

theorem alongside (h : Commuting base us) (hp : p ∈ base :: authorities us) : base.Alongside p := by
  rcases mem_cons.mp hp with rfl | hp
  · exact h.inForce
  · exact (h.authority p hp).1

theorem merged_step (h : Commuting base us) (hdone : ∀ u ∈ done, u ∈ us) (hc : Merged base done c) {u : LimitUpdate}
    (hu : u ∈ us) (htime : Account.unexpired now base = .ok ()) :
    Merged base (done ++ [u]) (c.deliver (now, u)) ∧ c.account.policy.Grows (c.deliver (now, u)).account.policy := by
  obtain ⟨hserves, top, credit, htop, hcredit, hpolicy⟩ := hc
  have hauthorities : ∀ p ∈ base :: authorities done, p ∈ base :: authorities us := by
    intro p hp
    rcases mem_cons.mp hp with rfl | hp
    · exact mem_cons_self
    · exact mem_cons_of_mem _ (mem_authorities.mpr (hdone _ (mem_authorities.mp hp)))
  have hcredits : ∀ k ∈ base.credit :: credits done, k ∈ base.credit :: credits us := by
    intro k hk
    rcases mem_cons.mp hk with rfl | hk
    · exact mem_cons_self
    · obtain ⟨u, hu, rfl⟩ := mem_map.mp hk
      exact mem_cons_of_mem _ (mem_map_of_mem (hdone u hu))
  have htopmem := hauthorities top htop.1
  have htopalong := h.alongside htopmem
  have hcurrent : base.Alongside c.account.policy := by
    rw [hpolicy]
    exact { htopalong with }
  have hnumber : c.account.policy.authorityRevision = top.authorityRevision := by rw [hpolicy]; rfl
  have hcreditOf : c.account.policy.credit = credit := by rw [hpolicy]; rfl
  have hcreditRevision : c.account.policy.creditRevision = credit.1 := by rw [hpolicy]; rfl
  -- the credit in force covers what the authority in force came with
  have htopcredit : top.creditRevision ≤ credit.1 := by
    refine hcredit.2 top.credit ?_
    rcases mem_cons.mp htop.1 with rfl | hmem
    · exact mem_cons_self
    · exact mem_cons_of_mem _ (credit_mem_credits hmem)
  cases u with
  | authority desired =>
    have hmem : desired ∈ authorities us := mem_authorities.mpr hu
    obtain ⟨halong, hsend⟩ := h.authority desired hmem
    have hauth : base :: authorities (done ++ [.authority desired]) = (base :: authorities done) ++ [desired] := by
      simp [authorities]
    have hcred : base.credit :: credits (done ++ [.authority desired]) = (base.credit :: credits done) ++ [desired.credit] := by
      simp [credits]
    have hdesired : desired.credit ∈ base.credit :: credits us := mem_cons_of_mem _ (credit_mem_credits hmem)
    by_cases hlt : c.account.policy.authorityRevision < desired.authorityRevision
    · have hle := h.ordered credit (hcredits credit hcredit.1) desired.credit hdesired
      have hge := h.ordered desired.credit hdesired credit (hcredits credit hcredit.1)
      obtain ⟨hserves', hjoin⟩ := Cell.deliver_authority hserves hcurrent halong hsend htime (hcreditOf.symm ▸ hle)
        (hcreditOf.symm ▸ hge) hlt
      rw [Policy.join, if_pos hlt, hcreditRevision] at hjoin
      have htop' := htop.concat_right (b := desired) (by omega)
      by_cases hold : desired.creditRevision < credit.1
      · rw [if_pos hold] at hjoin
        refine ⟨⟨hserves', desired, credit, hauth ▸ htop', hcred ▸ hcredit.concat_left hold.le, ?_⟩, ?_⟩
        · rw [hjoin, hpolicy]
          rfl
        · rw [hjoin]
          exact ⟨(hcurrent.revision.trans halong.revision.symm).le, hlt.le, hcreditRevision.le, le_rfl⟩
      · rw [if_neg hold] at hjoin
        refine ⟨⟨hserves', desired, desired.credit, hauth ▸ htop', hcred ▸ hcredit.concat_right (not_lt.mp hold), ?_⟩, ?_⟩
        · rw [hjoin]
          rfl
        · rw [hjoin]
          refine ⟨(hcurrent.revision.trans halong.revision.symm).le, hlt.le, hcreditRevision.trans_le (not_lt.mp hold), ?_⟩
          have hceiling : c.account.policy.creditCeiling = credit.2 := by rw [hpolicy]; rfl
          rw [hceiling]
          rcases Nat.eq_or_lt_of_le (not_lt.mp hold) with heq | hl
          · exact (hle.2 heq).le
          · exact (hle.1 hl).le
    · -- a stale update brings no more than the authority in force came with
      have hstale : desired.authorityRevision ≤ top.authorityRevision := by omega
      have hold : desired.creditRevision ≤ credit.1 :=
        (h.rising desired (mem_cons_of_mem _ hmem) top htopmem hstale).trans htopcredit
      rw [Cell.deliver_stale_authority hserves (by omega)]
      exact ⟨⟨hserves, top, credit, hauth ▸ htop.concat_left hstale, hcred ▸ hcredit.concat_left hold, hpolicy⟩, .refl _⟩
  | credit term policyRevision creditRevision ceiling =>
    obtain ⟨rfl, rfl, hrevision, hceiling⟩ := h.credit _ _ _ _ hu
    have hauth : base :: authorities (done ++ [.credit base.term base.revision creditRevision ceiling]) =
        base :: authorities done := by
      simp [authorities]
    have hcred : base.credit :: credits (done ++ [.credit base.term base.revision creditRevision ceiling]) =
        (base.credit :: credits done) ++ [(creditRevision, ceiling)] := by
      simp [credits]
    have hnew : (creditRevision, ceiling) ∈ base.credit :: credits us :=
      mem_cons_of_mem _ (mem_map.mpr ⟨_, hu, rfl⟩)
    by_cases hlt : c.account.policy.creditRevision < creditRevision
    · have hle := h.ordered credit (hcredits credit hcredit.1) _ hnew
      obtain ⟨hserves', hjoin⟩ := Cell.deliver_credit hserves hcurrent hrevision hceiling htime (hcreditOf.symm ▸ hle) hlt
      rw [Policy.join, if_pos hlt] at hjoin
      refine ⟨⟨hserves', top, (creditRevision, ceiling), hauth ▸ htop, hcred ▸ hcredit.concat_right ?_, ?_⟩, ?_⟩
      · show credit.1 ≤ creditRevision
        omega
      · rw [hjoin, hpolicy]
        rfl
      · rw [hjoin]
        have hgrows : c.account.policy.creditCeiling < ceiling := (hcreditOf.symm ▸ hle).1 hlt
        exact ⟨le_rfl, le_rfl, hlt.le, hgrows.le⟩
    · rw [Cell.deliver_stale_credit hserves (by omega)]
      refine ⟨⟨hserves, top, credit, hauth ▸ htop, hcred ▸ hcredit.concat_left ?_, hpolicy⟩, .refl _⟩
      show creditRevision ≤ credit.1
      omega

theorem merged_after (h : Commuting c.account.policy us) (hc : c.Serves) (order : List (Option Int × LimitUpdate))
    (hmem : ∀ d ∈ order, d.2 ∈ us) (htime : ∀ d ∈ order, Account.unexpired d.1 c.account.policy = .ok ()) :
    Merged c.account.policy (order.map Prod.snd) (Run.after Cell.deliver c order) := by
  induction order using List.reverseRecOn with
  | nil => exact ⟨hc, c.account.policy, c.account.policy.credit, ⟨by simp, by simp [authorities]⟩, ⟨by simp, by simp [credits]⟩, rfl⟩
  | append_singleton order d ih =>
    rw [Run.after_concat, map_append]
    have hmerged := ih (fun d hd => hmem d (mem_append_left _ hd)) fun d hd => htime d (mem_append_left _ hd)
    refine (h.merged_step ?_ hmerged (hmem d (by simp)) (htime d (by simp))).1
    intro u hu
    obtain ⟨d', hd', rfl⟩ := mem_map.mp hu
    exact hmem d' (mem_append_left _ hd')

theorem grows_after (h : Commuting c.account.policy us) (hc : c.Serves) (before between : List (Option Int × LimitUpdate))
    (hmem : ∀ d ∈ before ++ between, d.2 ∈ us)
    (htime : ∀ d ∈ before ++ between, Account.unexpired d.1 c.account.policy = .ok ()) :
    (Run.after Cell.deliver c before).account.policy.Grows (Run.after Cell.deliver c (before ++ between)).account.policy := by
  induction between using List.reverseRecOn with
  | nil =>
    rw [append_nil]
    exact .refl _
  | append_singleton between d ih =>
    rw [← append_assoc] at hmem htime ⊢
    have hmem' : ∀ d ∈ before ++ between, d.2 ∈ us := fun d hd => hmem d (mem_append_left _ hd)
    have htime' := fun d hd => htime d (mem_append_left _ hd)
    rw [Run.after_concat]
    refine (ih hmem' htime').trans (h.merged_step ?_ (h.merged_after hc _ hmem' htime') (hmem d (by simp)) (htime d (by simp))).2
    intro u hu
    obtain ⟨d', hd', rfl⟩ := mem_map.mp hu
    exact hmem' d' hd'

end Commuting

/-- Whatever the order in which updates are delivered, and however often, the same policy is in force in the end: the
largest authority with the largest credit.  On the way nothing goes back. -/
theorem updates_commute {c : Cell} {us : List LimitUpdate} (hc : c.Serves) (h : Commuting c.account.policy us) :
    ∃ top credit, Largest Policy.authorityRevision (c.account.policy :: authorities us) top ∧
      Largest Prod.fst (c.account.policy.credit :: credits us) credit ∧
      ∀ order : List (Option Int × LimitUpdate), (∀ u, u ∈ order.map Prod.snd ↔ u ∈ us) →
        (∀ d ∈ order, Account.unexpired d.1 c.account.policy = .ok ()) →
        (Run.after Cell.deliver c order).account.policy = top.withCredit credit.1 credit.2 ∧
        ∀ before between later, order = before ++ between ++ later →
          (Run.after Cell.deliver c before).account.policy.Grows
            (Run.after Cell.deliver c (before ++ between)).account.policy := by
  obtain ⟨top, htop⟩ : ∃ top, Largest Policy.authorityRevision (c.account.policy :: authorities us) top :=
    Largest.exists_of_ne_nil (cons_ne_nil _ _)
  obtain ⟨credit, hcredit⟩ : ∃ credit, Largest Prod.fst (c.account.policy.credit :: credits us) credit :=
    Largest.exists_of_ne_nil (cons_ne_nil _ _)
  refine ⟨top, credit, htop, hcredit, fun order hsame htime => ?_⟩
  have hmem : ∀ d ∈ order, d.2 ∈ us := fun d hd => (hsame d.2).mp (mem_map_of_mem hd)
  constructor
  · obtain ⟨-, top', credit', htop', hcredit', hpolicy⟩ := h.merged_after hc order hmem htime
    have hauthorities : ∀ p, p ∈ c.account.policy :: authorities (order.map Prod.snd) ↔
        p ∈ c.account.policy :: authorities us := by
      intro p
      rw [mem_cons, mem_cons, mem_authorities, mem_authorities, hsame]
    have hcredits : ∀ k, k ∈ c.account.policy.credit :: credits (order.map Prod.snd) ↔
        k ∈ c.account.policy.credit :: credits us := by
      intro k
      simp only [mem_cons, credits, mem_map (l := us), mem_map (l := order.map Prod.snd), hsame]
    have htop' := htop'.congr hauthorities
    have hcredit' := hcredit'.congr hcredits
    obtain rfl : top' = top := h.distinct _ htop'.1 _ htop.1 (htop'.rank_eq htop)
    have hceiling : credit'.2 = credit.2 := (h.ordered _ hcredit'.1 _ hcredit.1).2 (hcredit'.rank_eq hcredit)
    rw [hpolicy, hcredit'.rank_eq hcredit, hceiling]
  · rintro before between later rfl
    exact h.grows_after hc before between (fun d hd => hmem d (mem_append_left _ hd))
      fun d hd => htime d (mem_append_left _ hd)

namespace UpdateSample

def unlimited : Rate := ⟨.unlimited, 0, 0⟩

def blocked : Rate := ⟨.blocked, 0, 0⟩

def policy (authorityRevision creditRevision creditCeiling : Nat) (r : Rate) : Policy :=
  ⟨"term", 1, authorityRevision, true, 0, false, creditCeiling, creditRevision, r, r⟩

def served (p : Policy) : Cell :=
  ⟨some ⟨⟨"grant", "client", 0, p⟩, 0, false⟩, ⟨⟨false, p, 0, 0, 0, none, none⟩, 0⟩⟩

def updates : List LimitUpdate :=
  [.authority (policy 1 1 10 unlimited), .authority (policy 2 1 10 ⟨.limited, 80, 1⟩), .credit "term" 1 2 20]

end UpdateSample

theorem updates_commute_two : ∃ top credit,
    Largest Policy.authorityRevision (UpdateSample.policy 0 1 10 UpdateSample.unlimited :: authorities UpdateSample.updates) top ∧
    Largest Prod.fst ((UpdateSample.policy 0 1 10 UpdateSample.unlimited).credit :: credits UpdateSample.updates) credit ∧
    ∀ order : List (Option Int × LimitUpdate), (∀ u, u ∈ order.map Prod.snd ↔ u ∈ UpdateSample.updates) →
      (∀ d ∈ order, Account.unexpired d.1 (UpdateSample.policy 0 1 10 UpdateSample.unlimited) = .ok ()) →
      (Run.after Cell.deliver (UpdateSample.served (UpdateSample.policy 0 1 10 UpdateSample.unlimited)) order).account.policy =
        top.withCredit credit.1 credit.2 := by
  have hc : (UpdateSample.served (UpdateSample.policy 0 1 10 UpdateSample.unlimited)).Serves := ⟨⟨_, rfl, rfl⟩, rfl⟩
  have h : Commuting (UpdateSample.policy 0 1 10 UpdateSample.unlimited) UpdateSample.updates := by
    refine ⟨⟨rfl, rfl, rfl, rfl, rfl, by decide⟩, ?_, ?_, by decide, by decide, ?_⟩
    · intro p hp
      simp only [UpdateSample.updates, authorities, filterMap_cons, filterMap_nil, mem_cons, not_mem_nil,
        or_false] at hp
      rcases hp with rfl | rfl
      · exact ⟨⟨rfl, rfl, rfl, rfl, rfl, by decide⟩, ⟨by decide, by decide, by decide, by decide⟩⟩
      · exact ⟨⟨rfl, rfl, rfl, rfl, rfl, by decide⟩, ⟨by decide, by decide, by decide, by decide⟩⟩
    · simp only [UpdateSample.updates, mem_cons, LimitUpdate.credit.injEq, not_mem_nil, reduceCtorEq, or_false, false_or]
      rintro _ _ _ _ ⟨rfl, rfl, rfl, rfl⟩
      decide
    · simp [UpdateSample.updates, UpdateSample.policy, credits, Policy.credit, InOrder]
  obtain ⟨top, credit, htop, hcredit, hall⟩ := updates_commute hc h
  exact ⟨top, credit, htop, hcredit, fun order hsame htime => (hall order hsame htime).1⟩

/-- Where the policy in force blocks both directions, credit that comes before an authority that opens one is refused
and lost, and after it the same credit is put in force. -/
theorem blocked_policy_loses_credit :
    let cell := UpdateSample.served (UpdateSample.policy 0 1 10 UpdateSample.blocked)
    let opens := (some 0, LimitUpdate.authority (UpdateSample.policy 1 1 10 UpdateSample.unlimited))
    let credit := (some 0, LimitUpdate.credit "term" 1 2 20)
    (Run.after Cell.deliver cell [opens, credit]).account.policy = UpdateSample.policy 1 2 20 UpdateSample.unlimited ∧
    (Run.after Cell.deliver cell [credit, opens]).account.policy = UpdateSample.policy 1 1 10 UpdateSample.unlimited := by
  decide

end Pui
