import Pui.GovernorRuns
import Pui.Observation

/-!
# Observations of the governor are valid and never go back

An observation is valid when the account stands for its row (`Memory.StandsFor`) and the row's numbers fit
(`Record.Within`).
-/

namespace Pui

open Crash Crash.Prog Guard List

structure Memory.StandsFor (m : Memory) (r : Record) : Prop where
  policy : m.account.policy = r.grant.policy
  reserved : m.reserved = r.reserved
  spent : m.account.spent ≤ r.reserved

variable {r : Record} {o : GrantAuthority} {row : Option Record} {events : List (Event Op FreshID)} {st : Status Store Database}
  {s : Store} {now : Option Int} {cancelled : Nat → Bool}

theorem Record.restored {m : Memory} (h : r.restore = .ok m) :
    m.StandsFor r ∧ m.account.previouslyReserved = r.reserved := by
  obtain ⟨hreserved, hpolicy, -, hspent⟩ := Record.restore_eq_ok h
  refine ⟨⟨hpolicy, hreserved, hspent.le⟩, ?_⟩
  simp only [Record.restore, Account.restore, Account.new, bind_eq_ok, pure_eq_ok] at h
  obtain ⟨a, ⟨_, ⟨_, -, rfl⟩, rfl⟩, rfl⟩ := h
  split <;> rfl

theorem Account.previouslyReserved_consume (a : Account) (dir : Direction) (k : Nat) :
    (a.consume dir k).previouslyReserved = a.previouslyReserved := by
  cases dir <;> rfl

theorem Account.policy_consume (a : Account) (dir : Direction) (k : Nat) : (a.consume dir k).policy = a.policy := by
  cases dir <;> rfl

namespace Memory.StandsFor

variable {m : Memory} {r : Record}

theorem change (h : m.StandsFor r) (p : Policy) :
    StandsFor { m with account := m.account.install p } (r.withPolicy p) := ⟨rfl, h.reserved, h.spent⟩

theorem reserve (h : m.StandsFor r) {n : Nat} (hn : r.reserved ≤ n) :
    StandsFor { m with reserved := n } { r with reserved := n } := ⟨h.policy, rfl, h.spent.trans hn⟩

theorem consume (h : m.StandsFor r) (dir : Direction) {k : Nat} (hk : m.account.spent + k ≤ m.reserved) :
    StandsFor { m with account := m.account.consume dir k } r := by
  refine ⟨(Account.policy_consume _ _ _).trans h.policy, h.reserved, ?_⟩
  rw [Account.spent_consume, ← h.reserved]
  exact hk

theorem suspend (h : m.StandsFor r) :
    StandsFor { m with account := m.account.quarantine } { r with suspended := true } :=
  ⟨h.policy, h.reserved, h.spent⟩

end Memory.StandsFor

namespace Governor

theorem observe_eq_ok {id : String} {a : Account} {now : Int}
    (h : observe id r a now = .ok o) :
    a.spent ≤ r.reserved ∧ o.grantID = id ∧ o.clientID = r.grant.clientID ∧ o.termID = a.policy.term ∧
      o.policyRevision = a.policy.revision ∧ o.authorityRevision = a.policy.authorityRevision ∧
      o.creditCeiling = a.policy.creditCeiling ∧ o.quotaUnlimited = a.policy.quotaUnlimited ∧
      o.reservedHighWater = r.reserved ∧ o.burnedHighWater = a.previouslyReserved ∧
      o.admissionHighWater = (if a.previouslyReserved = 0 then a.spent else 0) ∧
      o.admissionKnown = decide (a.previouslyReserved = 0) ∧ o.spendableKnown = !a.policy.quotaUnlimited ∧
      o.authorizationActive = active r a now ∧
      o.spendableBytes = if active r a now ∧ !a.policy.quotaUnlimited ∧ a.policy.creditCeiling > a.spent
        then a.policy.creditCeiling - a.spent else 0 := by
  simp only [observe, bind_eq_ok, refuse_eq_ok, pure_eq_ok, Nat.not_lt] at h
  obtain ⟨-, -, -, hspent, rfl⟩ := h
  exact ⟨hspent, rfl, rfl, rfl, rfl, rfl, rfl, rfl, rfl, rfl, rfl, rfl, rfl, rfl, rfl⟩

end Governor

structure Record.Within (r : Record) : Prop where
  revision : r.grant.policy.revision ≤ maxInt64
  authorityRevision : r.grant.policy.authorityRevision ≤ maxInt64
  creditCeiling : r.grant.policy.creditCeiling ≤ maxInt64
  reserved : r.reserved ≤ maxInt64
  ceiling : r.grant.policy.quotaUnlimited = false → r.reserved ≤ r.grant.policy.creditCeiling

theorem validate_of_observe {m : Memory} {now : Int} (hv : r.grant.validate = .ok ())
    (hw : r.Within) (hm : m.StandsFor r) (h : Governor.observe r.grant.id r m.account now = .ok o) : o.validate = .ok () := by
  obtain ⟨hspent, hid, hclient, hterm, hrevision, hauthority, hceiling, hquota, hreserved, hburned, hadmission, hknown,
    hspendable, hactive, hbytes⟩ := Governor.observe_eq_ok h
  simp only [Grant.validate, unit_bind_eq_ok, refuse_eq_ok, not_or, Bool.not_eq_true', Bool.not_eq_false] at hv
  obtain ⟨⟨hvid, hvclient, hvterm, -⟩, hvpolicy⟩ := hv
  obtain ⟨⟨-, hpositive, -⟩, -, -, hunlimited⟩ := Policy.validate_eq_ok.mp hvpolicy
  rw [hm.policy] at hterm hrevision hauthority hceiling hquota hspendable hbytes
  have hburn : m.account.previouslyReserved ≤ m.account.spent := by
    unfold Account.spent
    omega
  have hbounds := hw.revision
  have hbounds' := hw.authorityRevision
  have hmax := hw.creditCeiling
  have hmax' := hw.reserved
  have hwithin := hw.ceiling
  simp only [GrantAuthority.validate, unit_bind_eq_ok, refuse_eq_ok, GrantAuthority.remaining, hid, hclient, hterm, hvid,
    hvclient, hvterm, hrevision, hauthority, hceiling, hquota, hreserved, hburned, hadmission, hknown, hspendable, hactive,
    hbytes]
  -- What is left is arithmetic, by whether the quota is limited, the grant active and the admissions known.
  cases hq : r.grant.policy.quotaUnlimited with
  | true =>
    have hzero := hunlimited hq
    by_cases hprev : m.account.previouslyReserved = 0
    · simp only [hprev, hzero]
      simp
      omega
    · simp only [hprev, hzero]
      simp
      omega
  | false =>
    have hle := hwithin hq
    cases Governor.active r m.account now with
    | false =>
      by_cases hprev : m.account.previouslyReserved = 0
      · simp [hprev]
        omega
      · simp [hprev]
        omega
    | true =>
      by_cases hprev : m.account.previouslyReserved = 0
      · by_cases hlt : m.account.spent < r.grant.policy.creditCeiling
        · simp [hprev, hlt]
          omega
        · simp [hprev, hlt]
          omega
      · by_cases hlt : m.account.spent < r.grant.policy.creditCeiling
        · simp [hprev, hlt]
          omega
        · simp [hprev, hlt]
          omega

def Policy.Bounded (p : Policy) : Prop :=
  p.revision ≤ maxInt64 ∧ p.authorityRevision ≤ maxInt64 ∧ p.creditCeiling ≤ maxInt64

def Policy.Suits (p : Policy) (row : Option Record) : Prop :=
  p.Bounded ∧ ∀ r, row = some r → (r.grant.policy.quotaUnlimited = true ∨ r.grant.policy.creditRevision = 0) →
    p.quotaUnlimited = false → r.reserved ≤ p.creditCeiling

instance (p : Policy) : Decidable p.Bounded := inferInstanceAs (Decidable (_ ∧ _ ∧ _))

instance (p : Policy) : (row : Option Record) → Decidable (p.Suits row)
  | none => decidable_of_iff p.Bounded ⟨fun h => ⟨h, fun _ hr => nomatch hr⟩, fun h => h.1⟩
  | some r => decidable_of_iff (p.Bounded ∧ ((r.grant.policy.quotaUnlimited = true ∨ r.grant.policy.creditRevision = 0) →
      p.quotaUnlimited = false → r.reserved ≤ p.creditCeiling))
    ⟨fun h => ⟨h.1, fun _ hr => Option.some.inj hr ▸ h.2⟩, fun h => ⟨h.1, h.2 r rfl⟩⟩

namespace Governor

/-- The operation hands the store numbers that fit and puts no quota below a reservation. -/
def Op.Fits (s : Store) : Op → Prop
  | .apply g => g.policy.Suits (s.row g.id)
  | .reconcile grants => ∀ g ∈ grants, g.policy.Suits (s.row g.id)
  | .applyAuthority updates _ _ => ∀ u ∈ updates, u.policy.Bounded
  | .take id _ requested _ _ => ∀ m, s.accounts.get? id = some m → m.account.policy.quotaUnlimited = true →
    m.account.spent + requested.toNat + reservationSize m.account.policy ≤ maxInt64
  | .applyCredit _ _ => True
  | .suspendOthers _ => True

instance (s : Store) : (op : Op) → Decidable (op.Fits s)
  | .apply g => inferInstanceAs (Decidable (g.policy.Suits (s.row g.id)))
  | .reconcile grants => inferInstanceAs (Decidable (∀ g ∈ grants, g.policy.Suits (s.row g.id)))
  | .applyAuthority updates _ _ => inferInstanceAs (Decidable (∀ u ∈ updates, u.policy.Bounded))
  | .take id _ requested _ _ => inferInstanceAs (Decidable (∀ m ∈ s.accounts.get? id,
      m.account.policy.quotaUnlimited = true →
        m.account.spent + requested.toNat + reservationSize m.account.policy ≤ maxInt64))
  | .applyCredit _ _ => inferInstanceAs (Decidable True)
  | .suspendOthers _ => inferInstanceAs (Decidable True)

variable {s : Store}

def within (_ : String) (row : Option Record) : Prop := ∀ r, row = some r → r.Within

end Governor

theorem retainCredit_eq (base persisted : Policy) : retainCredit base persisted = base ∨ retainCredit base persisted = persisted := by
  unfold retainCredit
  split
  · exact .inl rfl
  · split
    · exact .inr rfl
    · exact .inl rfl

theorem Record.Within.fresh {g : Grant} (h : g.policy.Bounded) : (Record.fresh g).Within :=
  ⟨h.1, h.2.1, h.2.2, Nat.zero_le _, fun _ => Nat.zero_le _⟩

theorem Record.Within.applied {g : Grant} {r' : Record} (hrow : ∀ r, row = some r → r.Within)
    (hs : g.policy.Suits row) (h : Governor.Applied row g r') : r'.Within := by
  rcases h with ⟨-, rfl⟩ | ⟨r, hr, -, -, hck, rfl⟩
  · exact .fresh hs.1
  · have hw := hrow r hr
    rcases retainCredit_eq g.policy r.grant.policy with he | he
    · rw [he] at hck ⊢
      refine ⟨hs.1.1, hs.1.2.1, hs.1.2.2, hw.reserved, fun hlimited => ?_⟩
      by_cases hfree : r.grant.policy.quotaUnlimited = true ∨ r.grant.policy.creditRevision = 0
      · exact hs.2 r hr hfree hlimited
      · rw [not_or, Bool.not_eq_true] at hfree
        exact (hw.ceiling hfree.1).trans ((advances_of_checkApply hck).creditCeiling hfree.2)
    · rw [he]
      exact ⟨hw.revision, hw.authorityRevision, hw.creditCeiling, hw.reserved, hw.ceiling⟩

theorem Policy.Suits.applied {g : Grant} {r' : Record} (hs : g.policy.Suits row)
    (h : Governor.Applied row g r') (hw : r'.Within) : g.policy.Suits (some r') := by
  refine ⟨hs.1, ?_⟩
  rintro _ ⟨⟩ hfree hlimited
  rcases h with ⟨-, rfl⟩ | ⟨r, hr, -, -, -, rfl⟩
  · exact Nat.zero_le _
  · rcases retainCredit_eq g.policy r.grant.policy with he | he
    · rw [he] at hw ⊢
      exact hw.ceiling hlimited
    · rw [he] at hfree
      exact hs.2 r hr hfree hlimited

theorem Record.Within.updated {u : PolicyUpdate} {r' : Record} (hrow : ∀ r, row = some r → r.Within)
    (hu : u.policy.Bounded) (h : Governor.Updated row u r') : r'.Within := by
  rcases h with ⟨-, rfl⟩ | ⟨r, q, hr, -, -, hq, rfl⟩
  · exact .fresh hu
  · have hw := hrow r hr
    rcases eq_or_advance_of_mergeAuthority hq with rfl | hadv
    · exact ⟨hw.revision, hw.authorityRevision, hw.creditCeiling, hw.reserved, hw.ceiling⟩
    · obtain ⟨⟨hrevision, -, -, hquota⟩, -, -, -, hceiling, -⟩ := authorityAdvance_eq_true.mp hadv
      have hq' : q.authorityRevision ≤ maxInt64 ∧ q.creditCeiling ≤ maxInt64 := by
        simp only [mergeAuthority, unit_bind_eq_ok, refuse_eq_ok, pure_eq_ok] at hq
        obtain ⟨-, -, -, -, -, -, rfl⟩ := hq
        split
        · exact ⟨hu.2.1, hw.creditCeiling⟩
        · exact hu.2
      refine ⟨hrevision ▸ hw.revision, hq'.1, hq'.2, hw.reserved, fun hlimited => ?_⟩
      exact (hw.ceiling (hquota.trans hlimited)).trans hceiling

theorem Record.Within.credited {c : Credit} (hw : r.Within) (hc : c.creditCeiling ≤ maxInt64)
    (hadv : creditAdvance r.grant.policy (r.grant.policy.withCredit c.creditRevision c.creditCeiling) = true) :
    (r.withPolicy (r.grant.policy.withCredit c.creditRevision c.creditCeiling)).Within := by
  obtain ⟨hlimited, -, hceiling, -⟩ := creditAdvance_eq_true.mp hadv
  exact ⟨hw.revision, hw.authorityRevision, hc, hw.reserved, fun _ => (hw.ceiling hlimited).trans hceiling.le⟩

theorem Record.Within.reserved_to {m : Memory} {k n requested : Nat} (hw : r.Within)
    (hk : k ≤ requested) (hn : Cell.MayReserve r ⟨some r, m⟩ k n)
    (hroom : m.account.policy.quotaUnlimited = true →
      m.account.spent + requested + reservationSize m.account.policy ≤ maxInt64) :
    Record.Within { r with reserved := n } := by
  have hpolicy : r.grant.policy = m.account.policy := hn.policy
  have heq : n = reservation m.account.policy (m.account.spent + k) := hn.eq
  have hceiling : r.grant.policy.quotaUnlimited = false → n ≤ r.grant.policy.creditCeiling := by
    intro hlimited
    rw [heq, hpolicy]
    exact reservation_le (hpolicy ▸ hlimited) _
  refine ⟨hw.revision, hw.authorityRevision, hw.creditCeiling, ?_, hceiling⟩
  cases hq : r.grant.policy.quotaUnlimited with
  | false => exact (hceiling hq).trans hw.creditCeiling
  | true =>
    have hle := hroom (hpolicy ▸ hq)
    have hblock : n ≤ m.account.spent + k + reservationSize m.account.policy := by
      rw [heq, reservation, ← hpolicy, hq]
      simp only [if_true]
      split <;> omega
    exact hblock.trans (by omega)

namespace Governor

theorem follows_standsFor {law : String → Option Record → Prop} : Follows law fun _ r m => m.StandsFor r where
  restore _ _ _ _ h := (Record.restored h).1
  create _ _ _ h := (Record.restored h).1
  change _ _ _ p h := h.change p
  reserve _ _ _ _ h hn := h.reserve hn
  consume _ _ _ dir _ h hk := h.consume dir hk
  suspend _ _ _ h := h.suspend

def InRange : Store → Prop := Consistent within fun _ r m => m.StandsFor r

theorem within_valid_credits {credits : List Credit} (h : validateCredits credits = .ok ()) :
    ∀ c ∈ credits, c.creditCeiling ≤ maxInt64 := by
  simp only [validateCredits, unit_bind_eq_ok, refuse_eq_ok, not_or, not_not] at h
  intro c hc
  have hv := all_eq_true.mp h.2.1 c hc
  simp only [Credit.valid, Bool.and_eq_true, decide_eq_true_eq] at hv
  exact hv.2

theorem reconcile_inRange (grants : List Grant) (hids : (grants.map Grant.id).Nodup)
    (hfits : ∀ g ∈ grants, g.policy.Suits (s.row g.id)) (hcon : InRange s) :
    (Store.reconcile grants).Spec s (fun _ => InRange) (Halt.post InRange fun t => Durable within t.db) := by
  -- The law under which the rows wait for their grant.
  set law : String → Option Record → Prop := fun id row => within id row ∧ ∀ g ∈ grants, g.id = id → g.policy.Suits row
    with hlaw
  have hcon' : Consistent law (fun _ r m => m.StandsFor r) s :=
    hcon.of_law (fun id => ⟨hcon.durable.lawful id, fun g hg hid => hid ▸ hfits g hg⟩) fun _ _ _ _ _ hj => hj
  have hback : ∀ t, Consistent law (fun _ r m => m.StandsFor r) t → InRange t := fun t ht =>
    ht.of_law (fun id => (ht.durable.lawful id).1) fun _ _ _ _ _ hj => hj
  refine (reconcile_keeps follows_standsFor hcon' grants ?_ ?_).mono (fun _ t ht => hback t ht.1) ?_
  · rintro id r hid ⟨hl, -⟩
    have hw := hl r rfl
    refine ⟨?_, fun g hg heq => absurd (heq ▸ mem_map_of_mem hg) hid⟩
    rintro _ ⟨⟩
    exact ⟨hw.revision, hw.authorityRevision, hw.creditCeiling, hw.reserved, hw.ceiling⟩
  · rintro g hg row r' ⟨hl, hsuits⟩ happ
    have hw := Record.Within.applied hl (hsuits g hg rfl) happ
    refine ⟨?_, fun g' hg' heq => ?_⟩
    · rintro _ ⟨⟩
      exact hw
    · rw [inj_on_of_nodup_map hids hg' hg heq]
      exact (hsuits g hg rfl).applied happ hw
  · rintro (e | -) t ht
    · exact hback t ht
    · exact Durable.of_law ht fun id => (ht.lawful id).1

theorem fits_keeps (op : Op) (hfits : op.Fits s) (hcon : InRange s) :
    op.prog.Spec s (fun _ => InRange) (Halt.post InRange fun t => Durable within (machine.durable t)) := by
  have hrow : ∀ id, ∀ r, s.row id = some r → r.Within := fun id => hcon.durable.lawful id
  have hf : ∀ {law}, Follows law fun _ r m => m.StandsFor r := follows_standsFor
  cases op with
  | apply g =>
    refine (apply_keeps hf hcon g ?_).mono (fun _ _ ht => ht.1) fun _ _ ht => ht
    rintro r' happ _ ⟨⟩
    exact Record.Within.applied (hrow g.id) hfits happ
  | applyCredit credits env =>
    by_cases hv : validateCredits credits = .ok ()
    · refine applyCredit_keeps hf hcon credits env ?_
      rintro c hc r - - hadv hl _ ⟨⟩
      exact (hl r rfl).credited (within_valid_credits hv c hc) hadv
    · simp only [Op.prog, Store.applyCredit, spec_failIf_bind]
      exact ⟨fun _ => hcon, fun hn => absurd hv hn⟩
  | applyAuthority updates checking applying =>
    refine (applyAuthority_keeps hf hcon updates checking applying ?_).mono (fun _ _ ht => ht.1) fun _ _ ht => ht
    rintro u hu row r' hl hupd _ ⟨⟩
    exact Record.Within.updated hl (hfits u hu) hupd
  | suspendOthers wanted =>
    refine suspendOthers_keeps hf hcon wanted ?_
    rintro id r - hl _ ⟨⟩
    have hw := hl r rfl
    exact ⟨hw.revision, hw.authorityRevision, hw.creditCeiling, hw.reserved, hw.ceiling⟩
  | reconcile grants =>
    by_cases hids : (grants.map Grant.id).Nodup
    · exact reconcile_inRange grants hids hfits hcon
    · simp only [Op.prog, Store.reconcile, spec_failIf_bind]
      exact ⟨fun _ => hcon, fun hn => absurd (.inr (.inl hids)) hn⟩
  | take id dir requested upTo turn =>
    refine Spec.bind (take_keeps hf hcon id dir requested upTo turn ?_) fun _ t ht => (spec_pure _).mpr ht
    rintro r m k n hr hm hk hn hl _ ⟨⟩
    exact (hl r rfl).reserved_to hk hn (hfits m hm)

theorem inRange_reached (h : Run.Along machine.step (Machine.Meets fun s op => Op.Fits s op) (.down ⟨none, ∅⟩) events) :
    Machine.Holds InRange (Durable within) (reached events) := by
  refine Run.inv_after_along (I := Machine.Holds InRange (Durable within)) ?_ ?_ h
  · intro st e hmeets hst
    refine Machine.holds_step_of (C := fun s op => Op.Fits s op) (fun op s => fits_keeps op) (fun s hs => hs.durable) ?_
      st e hmeets hst
    exact fun newID db s hd hs => consistent_of_open follows_standsFor hd hs
  · exact ⟨by simp, by simp, by simp, by simp, fun id r hr => by simp at hr⟩

end Governor

structure Record.Reaches (r : Record) (w : FleetGrantAuthority) : Prop where
  policyRevision : w.policyRevision ≤ r.grant.policy.revision
  authorityRevision : w.authorityRevision ≤ r.grant.policy.authorityRevision
  counted : r.grant.policy.creditRevision ≠ 0
  creditCeiling : w.creditCeiling ≤ r.grant.policy.creditCeiling
  reserved : w.reservedHighWater ≤ r.reserved

/-- An account is not behind what the control plane stored of it. -/
structure Account.Reaches (a : Account) (w : FleetGrantAuthority) : Prop where
  burned : w.burnedHighWater ≤ a.previouslyReserved
  admitted : a.previouslyReserved = 0 → w.admissionHighWater ≤ a.spent

structure FleetGrantAuthority.Sound (w : FleetGrantAuthority) : Prop where
  burned : w.burnedHighWater ≤ w.reservedHighWater
  admitted : w.admissionHighWater ≤ w.reservedHighWater

namespace Record.Reaches

variable {r : Record} {w : FleetGrantAuthority}

theorem change (h : r.Reaches w) {p : Policy} (hp : r.grant.policy.AdvancesTo p) : (r.withPolicy p).Reaches w := by
  have h1 := hp.revision
  have h2 := hp.authorityRevision
  have h3 := hp.creditCeiling h.counted
  have h4 := hp.creditRevision
  have h5 := h.counted
  have h6 := h.policyRevision
  have h7 := h.authorityRevision
  have h8 := h.creditCeiling
  refine ⟨?_, ?_, ?_, ?_, h.reserved⟩
  · exact h6.trans (by exact_mod_cast h1)
  · exact h7.trans (by exact_mod_cast h2)
  · simp only [Record.withPolicy]
    omega
  · exact h8.trans (by exact_mod_cast h3)

theorem reserve (h : r.Reaches w) {n : Nat} (hn : r.reserved ≤ n) : Record.Reaches { r with reserved := n } w :=
  ⟨h.policyRevision, h.authorityRevision, h.counted, h.creditCeiling, h.reserved.trans (by exact_mod_cast hn)⟩

end Record.Reaches

namespace Governor

def floor (observed : Table String FleetGrantAuthority) (id : String) (row : Option Record) : Prop :=
  ∀ w, observed.get? id = some w → w.Sound ∧ ∃ r, row = some r ∧ r.Reaches w

def floorAccounts (observed : Table String FleetGrantAuthority) (id : String) (r : Record) (m : Memory) : Prop :=
  m.StandsFor r ∧ ∀ w, observed.get? id = some w → m.account.Reaches w

variable {observed : Table String FleetGrantAuthority}

theorem guarded_floor : Guarded (floor observed) where
  reserve id r n _ hn hl w hw := by
    obtain ⟨hsound, _, ⟨⟩, hr⟩ := hl w hw
    exact ⟨hsound, _, rfl, hr.reserve hn⟩
  suspend id r hl w hw := by
    obtain ⟨hsound, _, ⟨⟩, hr⟩ := hl w hw
    exact ⟨hsound, _, rfl, ⟨hr.policyRevision, hr.authorityRevision, hr.counted, hr.creditCeiling, hr.reserved⟩⟩
  change id r p _ hp hl w hw := by
    obtain ⟨hsound, _, ⟨⟩, hr⟩ := hl w hw
    exact ⟨hsound, _, rfl, hr.change hp⟩
  create g hl w hw := by
    obtain ⟨-, _, hr, -⟩ := hl w hw
    cases hr

theorem follows_floor : Follows (floor observed) (floorAccounts observed) where
  restore id r m hl h := by
    obtain ⟨hstands, hprev⟩ := Record.restored h
    refine ⟨hstands, fun w hw => ?_⟩
    obtain ⟨hsound, _, ⟨⟩, hr⟩ := hl w hw
    have hreserved := hr.reserved
    have hburned := hsound.burned
    have hadmitted := hsound.admitted
    exact ⟨by omega, fun hzero => by omega⟩
  create g m hl h := by
    refine ⟨(Record.restored h).1, fun w hw => ?_⟩
    obtain ⟨-, _, hr, -⟩ := hl w hw
    cases hr
  change id r m p h := ⟨h.1.change p, fun w hw => ⟨(h.2 w hw).burned, (h.2 w hw).admitted⟩⟩
  reserve id r m n h hn := ⟨h.1.reserve hn, h.2⟩
  consume id r m dir k h hk := by
    refine ⟨h.1.consume dir hk, fun w hw => ⟨?_, fun hzero => ?_⟩⟩
    · rw [Account.previouslyReserved_consume]
      exact (h.2 w hw).burned
    · rw [Account.previouslyReserved_consume] at hzero
      rw [Account.spent_consume]
      have := (h.2 w hw).admitted hzero
      push_cast
      omega
  suspend id r m h := ⟨h.1.suspend, fun w hw => ⟨(h.2 w hw).burned, (h.2 w hw).admitted⟩⟩

def Above (observed : Table String FleetGrantAuthority) : Status Store Database → Prop :=
  Machine.Holds (Consistent (floor observed) (floorAccounts observed)) (Durable (floor observed))

theorem above_reached_empty (events : List (Event Op FreshID)) : Above ∅ (reached events) :=
  holds_reached guarded_floor follows_floor (fun id w hw => by simp at hw) events

theorem Above.after (h : Above observed st) (events : List (Event Op FreshID)) :
    Above observed (machine.after st events) :=
  follows_floor.holds_after guarded_floor h events

theorem Above.not_regresses (h : Above observed (.up s)) {after : String} {limit : Int} {page : Page} (hpage : s.authority after limit now cancelled = .ok page)
    (ho : o ∈ page.grants) : o.regresses ((observed.get? o.grantID).getD {}) = false := by
  obtain ⟨t, r, m, hr, hm, hobs⟩ := Store.exists_of_mem_authority hpage ho
  obtain ⟨hstands, hfloor⟩ := (h.agree o.grantID m r hm hr).kept
  obtain ⟨-, -, -, -, hrevision, hauthority, hceiling, -, hreserved, hburned, hadmission, hknown, -⟩ := observe_eq_ok hobs
  rw [hstands.policy] at hrevision hauthority hceiling
  simp only [GrantAuthority.regresses, Bool.or_eq_false_iff, decide_eq_false_iff_not, not_lt, Bool.and_eq_false_imp]
  cases hw : observed.get? o.grantID with
  | none =>
    simp only [Option.getD_none]
    refine ⟨⟨⟨⟨⟨?_, ?_⟩, ?_⟩, ?_⟩, ?_⟩, fun _ => ?_⟩ <;> exact Int.natCast_nonneg _
  | some w =>
    obtain ⟨-, _, hr', hreach⟩ := h.durable.lawful o.grantID w hw
    cases hr.symm.trans hr'
    have haccount := hfloor w hw
    rw [hrevision, hauthority, hceiling, hreserved, hburned]
    refine ⟨⟨⟨⟨⟨hreach.authorityRevision, hreach.policyRevision⟩, hreach.creditCeiling⟩, hreach.reserved⟩,
      haccount.burned⟩, fun hk => ?_⟩
    rw [hknown, decide_eq_true_eq] at hk
    rw [hadmission, if_pos hk]
    exact haccount.admitted hk

def accept (observed : Table String FleetGrantAuthority) (nodeID runtimeID : String) (sequence : Nat) (received : Int)
    (grants : List GrantAuthority) : Table String FleetGrantAuthority :=
  grants.foldl (fun stored o => stored.put o.grantID
    (o.stored ((observed.get? o.grantID).getD {}) nodeID runtimeID sequence received)) observed

theorem Above.accept (h : Above observed (.up s)) {after : String} {limit : Int} {page : Page} (hpage : s.authority after limit now cancelled = .ok page)
    (grants : List GrantAuthority) (hgrants : ∀ o ∈ grants, o ∈ page.grants ∧
      ∀ r, s.row o.grantID = some r → r.grant.policy.creditRevision ≠ 0)
    (nodeID runtimeID : String) (sequence : Nat) (received : Int) :
    Above (accept observed nodeID runtimeID sequence received grants) (.up s) := by
  have hnew : ∀ o ∈ grants, ∀ r m, s.row o.grantID = some r → s.accounts.get? o.grantID = some m →
      (o.stored ((observed.get? o.grantID).getD {}) nodeID runtimeID sequence received).Sound ∧
        r.Reaches (o.stored ((observed.get? o.grantID).getD {}) nodeID runtimeID sequence received) ∧
        m.account.Reaches (o.stored ((observed.get? o.grantID).getD {}) nodeID runtimeID sequence received) := by
    intro o ho r m hr hm
    obtain ⟨hmem, hcounted⟩ := hgrants o ho
    obtain ⟨t, r', m', hr', hm', hobs⟩ := Store.exists_of_mem_authority hpage hmem
    cases hr.symm.trans hr'
    cases hm.symm.trans hm'
    obtain ⟨hstands, hfloor⟩ := (h.agree o.grantID m r hm hr).kept
    obtain ⟨hspent, -, -, -, hrevision, hauthority, hceiling, -, hreserved, hburned, hadmission, hknown, -⟩ :=
      observe_eq_ok hobs
    have hprev : m.account.previouslyReserved ≤ m.account.spent := by
      unfold Account.spent
      omega
    -- What was known of the admissions before is within what is reserved now.
    have hold : ((observed.get? o.grantID).getD {}).admissionHighWater ≤ r.reserved := by
      cases hw : observed.get? o.grantID with
      | none => exact Int.natCast_nonneg _
      | some w =>
        obtain ⟨hsound, _, hr₂, hreach⟩ := h.durable.lawful o.grantID w hw
        cases hr.symm.trans hr₂
        exact hsound.admitted.trans hreach.reserved
    refine ⟨⟨?_, ?_⟩, ⟨?_, ?_, hcounted r hr, ?_, ?_⟩, ⟨?_, fun hzero => ?_⟩⟩
    · simp only [GrantAuthority.stored, hburned, hreserved]
      omega
    · simp only [GrantAuthority.stored, hadmission, hknown, hreserved]
      by_cases hzero : m.account.previouslyReserved = 0
      · simp only [hzero, decide_true, if_true]
        exact_mod_cast hspent
      · simpa [hzero] using hold
    · simp only [GrantAuthority.stored, hrevision, hstands.policy]
      exact le_rfl
    · simp only [GrantAuthority.stored, hauthority, hstands.policy]
      exact le_rfl
    · simp only [GrantAuthority.stored, hceiling, hstands.policy]
      exact le_rfl
    · simp only [GrantAuthority.stored, hreserved]
      exact le_rfl
    · simp only [GrantAuthority.stored, hburned]
      exact le_rfl
    · simp only [GrantAuthority.stored, hknown, hadmission, hzero, decide_true, if_true]
      exact le_rfl
  refine Consistent.of_law h (fun id w hw => ?_) fun id m r hm hr hj => ⟨hj.1, fun w hw => ?_⟩
  · rcases Table.get?_foldl_put _ _ hw with hw | ⟨o, ho, rfl, rfl⟩
    · exact h.durable.lawful id w hw
    · obtain ⟨t, r, m, hr, hm, -⟩ := Store.exists_of_mem_authority hpage (hgrants o ho).1
      obtain ⟨hsound, hreach, -⟩ := hnew o ho r m hr hm
      exact ⟨hsound, r, hr, hreach⟩
  · rcases Table.get?_foldl_put _ _ hw with hw | ⟨o, ho, rfl, rfl⟩
    · exact hj.2 w hw
    · exact (hnew o ho r m hr hm).2.2

structure Reporting where
  governor : Status Store Database
  observed : Table String FleetGrantAuthority

inductive ReportAct where
  | governor (event : Event Op FreshID)
  | report (after : String) (limit : Int) (now : Option Int) (cancelled : Nat → Bool) (carried : String → Bool)
    (nodeID runtimeID : String) (sequence : Nat) (received : Int)

namespace Reporting

def step (w : Reporting) : ReportAct → Reporting
  | .governor event => { w with governor := machine.step w.governor event }
  | .report after limit now cancelled carried nodeID runtimeID sequence received =>
    match w.governor with
    | .down _ => w
    | .up s =>
      match s.authority after limit now cancelled with
      | .error _ => w
      | .ok page =>
        let grants := page.grants.filter fun o => carried o.grantID
        if grants.any fun o => o.regresses ((w.observed.get? o.grantID).getD {}) then w
        else { w with observed := accept w.observed nodeID runtimeID sequence received grants }

def after (acts : List ReportAct) : Reporting := Run.after step ⟨.down ⟨none, ∅⟩, ∅⟩ acts

def Counted (w : Reporting) : ReportAct → Prop
  | .governor _ => True
  | .report .. => ∀ s, w.governor = .up s → ∀ id r, s.row id = some r → r.grant.policy.creditRevision ≠ 0

instance (w : Reporting) : (act : ReportAct) → Decidable (w.Counted act)
  | .governor _ => inferInstanceAs (Decidable True)
  | .report .. =>
    match h : w.governor with
    | .down _ => isTrue fun s hs => nomatch h.symm.trans hs
    | .up s => decidable_of_iff (∀ e ∈ s.db.grants.entries, e.2.grant.policy.creditRevision ≠ 0)
      ⟨fun hall s' hs id r hr => by cases h.symm.trans hs; exact hall ⟨id, r⟩ (Table.mem_entries.mpr hr),
        fun hall e he => hall s h e.1 e.2 (Table.mem_entries.mp he)⟩

theorem Counted.rows {after : String} {limit : Int}
    {carried : String → Bool} {nodeID runtimeID : String} {sequence : Nat} {received : Int}
    (h : Counted ⟨st, observed⟩ (.report after limit now cancelled carried nodeID runtimeID sequence received))
    (hs : st = .up s) :
    ∀ id r, s.row id = some r → r.grant.policy.creditRevision ≠ 0 := h s hs

theorem above_step {w : Reporting} {act : ReportAct} (hc : w.Counted act) (h : Above w.observed w.governor) :
    Above (w.step act).observed (w.step act).governor := by
  cases act with
  | governor event => exact h.after [event]
  | report after limit now cancelled carried nodeID runtimeID sequence received =>
    obtain ⟨governor, observed⟩ := w
    cases governor with
    | down db => exact h
    | up s =>
      simp only [step]
      cases hpage : s.authority after limit now cancelled with
      | error e => exact h
      | ok page =>
        simp only
        split
        · exact h
        · exact h.accept hpage _ (fun o ho => ⟨(mem_filter.mp ho).1, hc.rows rfl o.grantID⟩) _ _ _ _

theorem above_after {acts : List ReportAct} (h : Run.Along step Counted ⟨.down ⟨none, ∅⟩, ∅⟩ acts) :
    Above (after acts).observed (after acts).governor :=
  Run.inv_after_along (I := fun w : Reporting => Above w.observed w.governor) (fun _ _ => above_step)
    (above_reached_empty []) h

end Reporting

structure Precedes (o o' : GrantAuthority) : Prop where
  policyRevision : o.policyRevision ≤ o'.policyRevision
  authorityRevision : o.authorityRevision ≤ o'.authorityRevision
  creditCeiling : o.creditCeiling ≤ o'.creditCeiling
  reservedHighWater : o.reservedHighWater ≤ o'.reservedHighWater
  burnedHighWater : o.burnedHighWater ≤ o'.burnedHighWater
  admissionHighWater : o'.admissionKnown = true → o.admissionHighWater ≤ o'.admissionHighWater

def Observed (s : Store) (o : GrantAuthority) : Prop :=
  ∃ after limit now cancelled page, s.authority after limit now cancelled = .ok page ∧ o ∈ page.grants

theorem precedes_of_later {later : List (Event Op FreshID)} {t : Store} {o' : GrantAuthority}
    (hs : reached events = .up s) (ht : reached (events ++ later) = .up t)
    (hcounted : ∀ r, s.row o.grantID = some r → r.grant.policy.creditRevision ≠ 0) (ho : Observed s o)
    (ho' : Observed t o') (hid : o'.grantID = o.grantID) : Precedes o o' := by
  obtain ⟨after, limit, now, cancelled, page, hpage, ho⟩ := ho
  obtain ⟨after', limit', now', cancelled', page', hpage', ho'⟩ := ho'
  have habove : Above ∅ (.up s) := hs ▸ above_reached_empty events
  -- The first observation, stored, is a floor for everything that comes later.
  have hfloor := habove.accept hpage [o] (fun o' h' => by rw [mem_singleton.mp h']; exact ⟨ho, hcounted⟩)
    "" "" 0 0
  have hlater := hfloor.after later
  have hrun : machine.after (.up s) later = .up t := by
    rw [← ht, ← hs]
    unfold reached Machine.after
    rw [Run.after_append]
  rw [hrun] at hlater
  have hnot := hlater.not_regresses hpage' ho'
  rw [hid, show (accept ∅ "" "" 0 0 [o]).get? o.grantID = some (o.stored {} "" "" 0 0) by simp [accept]] at hnot
  simp only [GrantAuthority.regresses, GrantAuthority.stored, Option.getD_some, Bool.or_eq_false_iff, decide_eq_false_iff_not,
    not_lt, Bool.and_eq_false_imp, Int.ofNat_le] at hnot
  obtain ⟨⟨⟨⟨⟨hauthority, hrevision⟩, hceiling⟩, hreserved⟩, hburned⟩, hadmission⟩ := hnot
  refine ⟨hrevision, hauthority, hceiling, hreserved, hburned, fun hk => ?_⟩
  obtain ⟨_, r, m, -, -, hobs⟩ := Store.exists_of_mem_authority hpage ho
  obtain ⟨-, -, -, -, -, -, -, -, -, -, hadm, hknown, -⟩ := observe_eq_ok hobs
  have hle := hadmission hk
  by_cases hprev : m.account.previouslyReserved = 0
  · rw [hknown, hprev] at hle
    simpa using hle
  · rw [hadm, if_neg hprev]
    exact Nat.zero_le _

namespace ReportSample

def unlimited : Policy :=
  ⟨"33333333-3333-4333-8333-333333333333", 1, 0, true, 0, true, 0, 1, ⟨.unlimited, 0, 0⟩, ⟨.unlimited, 0, 0⟩⟩

def limited : Policy := { unlimited with revision := 2, quotaUnlimited := false }

def metered : Policy := { unlimited with quotaUnlimited := false, creditCeiling := 2 ^ 30 }

def grant (p : Policy) : Grant :=
  ⟨"11111111-1111-4111-8111-111111111111", "22222222-2222-4222-8222-222222222222", 0, p⟩

def start : Event Op FreshID := .start ⟨"44444444-4444-4444-8444-444444444444", by decide⟩

def take : Event Op FreshID := .op (.take (grant unlimited).id .upload 1 false ⟨false, some 1, some 1, some 1, true⟩) []

def lowered : List (Event Op FreshID) := [start, .op (.apply (grant unlimited)) [], take, .op (.apply (grant limited)) []]

def restarted : List (Event Op FreshID) := [start, .op (.apply (grant metered)) [], take, .crash, start]

def reported : List ReportAct :=
  (restarted.take 3).map .governor ++
    .report "" 16 (some 1) (fun _ => false) (fun _ => true) "node" "edge" 1 1 :: (restarted.drop 3).map .governor

def page (st : Status Store Database) : List GrantAuthority :=
  match st with
  | .down _ => []
  | .up s =>
    match s.authority "" 16 (some 1) fun _ => false with
    | .error _ => []
    | .ok page => page.grants

theorem observed_of_mem_page (ho : o ∈ page st) :
    ∃ s, st = .up s ∧ Observed s o := by
  cases st with
  | down db => cases ho
  | up s =>
    simp only [page] at ho
    split at ho
    · cases ho
    · next p hp => exact ⟨s, rfl, _, _, _, _, p, hp, ho⟩

end ReportSample

/-- In every run of the governor, through crashes and restarts: every observation is valid if the run's steps fit; a
later one of a grant whose credit is counted does not go back; and the control plane never refuses it. -/
theorem observations_hold (events later : List (Event Op FreshID)) (acts : List ReportAct) :
    (Run.Along machine.step (Machine.Meets fun s op => Op.Fits s op) (.down ⟨none, ∅⟩) events →
      ∀ s o, reached events = .up s → Observed s o → o.validate = .ok ()) ∧
    (∀ s t o o', reached events = .up s → reached (events ++ later) = .up t →
      (∀ r, s.row o.grantID = some r → r.grant.policy.creditRevision ≠ 0) → Observed s o → Observed t o' →
      o'.grantID = o.grantID → Precedes o o') ∧
    (Run.Along Reporting.step Reporting.Counted ⟨.down ⟨none, ∅⟩, ∅⟩ acts →
      ∀ s o, (Reporting.after acts).governor = .up s → Observed s o →
        o.regresses (((Reporting.after acts).observed.get? o.grantID).getD {}) = false) := by
  refine ⟨?_, ?_, ?_⟩
  · rintro hfits s o hs ⟨after, limit, now, cancelled, page, hpage, ho⟩
    have h := inRange_reached hfits
    rw [hs] at h
    obtain ⟨t, r, m, hr, hm, hobs⟩ := Store.exists_of_mem_authority hpage ho
    rw [← h.durable.key o.grantID r hr] at hobs
    exact validate_of_observe (h.durable.valid _ r hr) (h.durable.lawful _ r hr) (h.agree _ m r hm hr).kept hobs
  · exact fun s t o o' hs ht hcounted ho ho' hid => precedes_of_later hs ht hcounted ho ho' hid
  · rintro hcounted s o hs ⟨after, limit, now, cancelled, page, hpage, ho⟩
    have h := Reporting.above_after hcounted
    rw [hs] at h
    exact h.not_regresses hpage ho

theorem observations_hold_restarted :
    (∃ s o, reached ReportSample.restarted = .up s ∧ Observed s o ∧ o.validate = .ok ()) ∧
      (∃ s t o o', reached (ReportSample.restarted.take 3) = .up s ∧ reached ReportSample.restarted = .up t ∧
        Observed s o ∧ Observed t o' ∧ Precedes o o') ∧
      ∃ s o, (Reporting.after ReportSample.reported).governor = .up s ∧ Observed s o ∧
        o.regresses (((Reporting.after ReportSample.reported).observed.get? o.grantID).getD {}) = false := by
  obtain ⟨hvalid, -, hchecks⟩ := observations_hold ReportSample.restarted [] ReportSample.reported
  obtain ⟨-, hprecedes, -⟩ := observations_hold (ReportSample.restarted.take 3) (ReportSample.restarted.drop 3) []
  have hfits : Run.Along machine.step (Machine.Meets fun s op => Op.Fits s op) (.down ⟨none, ∅⟩) ReportSample.restarted := by
    decide +kernel
  have hcounted : Run.Along Reporting.step Reporting.Counted ⟨.down ⟨none, ∅⟩, ∅⟩ ReportSample.reported := by
    decide +kernel
  have hpages : ∃ o ∈ ReportSample.page (reached (ReportSample.restarted.take 3)),
      ∃ o' ∈ ReportSample.page (reached ReportSample.restarted), o'.grantID = o.grantID ∧
        o' ∈ ReportSample.page (Reporting.after ReportSample.reported).governor := by
    decide +kernel
  have hrows : Reporting.Counted ⟨reached (ReportSample.restarted.take 3), ∅⟩
      (.report "" 16 none (fun _ => false) (fun _ => true) "" "" 0 0) := by
    decide +kernel
  obtain ⟨o, ho, o', ho', hid, hrep⟩ := hpages
  obtain ⟨s, hs, hobs⟩ := ReportSample.observed_of_mem_page ho
  obtain ⟨t, ht, hobs'⟩ := ReportSample.observed_of_mem_page ho'
  obtain ⟨u, hu, hobs''⟩ := ReportSample.observed_of_mem_page hrep
  refine ⟨⟨t, o', ht, hobs', hvalid hfits t o' ht hobs'⟩, ⟨s, t, o, o', hs, ht, hobs, hobs', ?_⟩, u, o', hu, hobs'', ?_⟩
  · rw [← take_append_drop 3 ReportSample.restarted] at ht
    exact hprecedes s t o o' hs ht (hrows.rows hs o.grantID) hobs hobs' hid
  · exact hchecks hcounted u o' hu hobs''

/-- The code lets a deployment bring a grant's quota under the bytes it has already reserved, and the observation of
the grant is then refused by the check that both sides make.  Every policy of the run has the credit revision 1. -/
theorem lowered_quota_is_refused :
    ∃ s o, reached ReportSample.lowered = .up s ∧ Observed s o ∧ o.validate = .error .report ∧
      ReportSample.unlimited.creditRevision ≠ 0 ∧ ReportSample.limited.creditRevision ≠ 0 := by
  have h : ∃ o ∈ ReportSample.page (reached ReportSample.lowered), o.validate = .error .report := by decide +kernel
  obtain ⟨o, ho, hv⟩ := h
  obtain ⟨s, hs, hobs⟩ := ReportSample.observed_of_mem_page ho
  exact ⟨s, o, hs, hobs, hv, by decide, by decide⟩

end Governor

end Pui
