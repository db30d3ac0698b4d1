import Mathlib.Algebra.Order.Group.Nat
import Pui.Limits
import Pui.Prog

/-!
# One grant of the governor

The governor keeps one record for each grant: the policy in force, the bytes reserved so far and whether the grant was
suspended.
-/

namespace Pui

open Crash Crash.Prog Guard

structure Grant where
  id : String
  clientID : String
  rateRevision : Nat
  policy : Policy
  deriving DecidableEq

structure Record where
  grant : Grant
  reserved : Nat
  suspended : Bool
  deriving DecidableEq

def Record.fresh (grant : Grant) : Record := ⟨grant, 0, false⟩

def Grant.validate (g : Grant) : Except NodeError Unit := do
  refuse (!validID g.id ∨ !validID g.clientID ∨ !validID g.policy.term ∨
    (g.policy.authorityRevision ≠ 0 ∧ g.rateRevision ≠ g.policy.authorityRevision)) .grant
  g.policy.validate

def Record.withPolicy (r : Record) (p : Policy) : Record :=
  { r with
    grant := { r.grant with
      policy := p
      rateRevision := if p.authorityRevision ≠ 0 then p.authorityRevision else r.grant.rateRevision } }

variable {r : Record} {x : Prog Cell NodeError Unit} {n : Nat}

theorem Record.withPolicy_self (h : r.grant.validate = .ok ()) : r.withPolicy r.grant.policy = r := by
  simp only [Grant.validate, unit_bind_eq_ok, refuse_eq_ok, not_or] at h
  unfold Record.withPolicy
  split
  · next ha =>
    have hr : r.grant.rateRevision = r.grant.policy.authorityRevision := by
      by_contra hne
      exact h.1.2.2.2 ⟨ha, hne⟩
    rw [← hr]
  · rfl

theorem Record.validate_withPolicy {p : Policy} (hr : r.grant.validate = .ok ())
    (hp : p.validate = .ok ()) (ht : p.term = r.grant.policy.term) : (r.withPolicy p).grant.validate = .ok () := by
  simp only [Grant.validate, unit_bind_eq_ok, refuse_eq_ok, not_or] at hr ⊢
  obtain ⟨⟨h1, h2, h3, -⟩, -⟩ := hr
  refine ⟨⟨h1, h2, ht ▸ h3, ?_⟩, hp⟩
  rintro ⟨ha, hne⟩
  simp only [Record.withPolicy] at ha hne
  rw [if_pos ha] at hne
  exact hne rfl

/-- An account in memory, with the reserved total that its backing remembers. -/
structure Memory where
  account : Account
  reserved : Nat
  deriving DecidableEq

def Record.restore (r : Record) : Except NodeError Memory := do
  let a ← Account.restore r.grant.policy r.reserved
  return ⟨if r.suspended then a.quarantine else a, r.reserved⟩

theorem Record.restore_eq_ok {m : Memory} (h : r.restore = .ok m) :
    m.reserved = r.reserved ∧ m.account.policy = r.grant.policy ∧ m.account.quarantined = r.suspended ∧
      m.account.spent = r.reserved := by
  simp only [Record.restore, Account.restore, Account.new, bind_eq_ok, pure_eq_ok] at h
  obtain ⟨a, ⟨_, ⟨_, -, rfl⟩, rfl⟩, rfl⟩ := h
  refine ⟨rfl, ?_⟩
  cases r.suspended <;> simp [Account.quarantine, Account.spent]

theorem Record.exists_restore (h : r.grant.policy.validate = .ok ()) : ∃ m, r.restore = .ok m := by
  simp [Record.restore, Account.restore, Account.new, h, bind, Except.bind, pure, Except.pure]

structure Cell where
  record : Option Record
  memory : Memory
  deriving DecidableEq

def minimumReservationBlock : Nat := 256 * 2 ^ 10

def maximumReservationBlock : Nat := 8 * 2 ^ 20

def reservationSize (p : Policy) : Nat :=
  if p.upload.mode = .unlimited ∨ p.download.mode = .unlimited then maximumReservationBlock
  else max minimumReservationBlock
    (min maximumReservationBlock ((p.upload.bitsPerSecond + p.download.bitsPerSecond) / 80))

def reservation (p : Policy) (total : Nat) : Nat :=
  let next := if total ≤ maxUint64 - reservationSize p then total + reservationSize p else total
  if p.quotaUnlimited then next else min next p.creditCeiling

namespace Cell

def account (c : Cell) : Account := c.memory.account

def storePolicy (p : Policy) : Prog Cell NodeError Unit :=
  write .storage fun c => do
    let r ← found c.record .json
    refuse (r.grant.policy.term ≠ p.term ∨ p.authorityRevision < r.grant.policy.authorityRevision ∨
      (r.grant.policy.revision ≥ p.revision ∧ !creditAdvance r.grant.policy p ∧
        !authorityAdvance r.grant.policy p)) .revision
    return ((), { c with record := some (r.withPolicy p) })

def reserve (p : Policy) (total : Nat) : Prog Cell NodeError Unit := do
  let c ← read
  if total ≤ c.memory.reserved then pure ()
  else do
    write .storage fun c => do
      let r ← found c.record .json
      refuse (r.suspended ∨ r.grant.policy ≠ p ∨ r.reserved > reservation p total ∨
        (!p.quotaUnlimited ∧ total > p.creditCeiling)) .grant
      return ((), { c with record := some { r with reserved := reservation p total } })
    update fun c => { c with memory := { c.memory with reserved := reservation p total } }

def applyLocked (p : Policy) : Prog Cell NodeError Unit := do
  let c ← read
  ofExcept (checkApply c.account.policy p)
  if p = c.account.policy then pure ()
  else do
    storePolicy p
    update fun c => { c with memory := { c.memory with account := c.account.install p } }

def apply (p : Policy) : Prog Cell NodeError Unit := do
  ofExcept p.validate
  applyLocked p

def applyCredit (now : Option Int) (term : String) (policyRevision creditRevision ceiling : Nat) :
    Prog Cell NodeError Unit := do
  let c ← read
  failIf (term ≠ c.account.policy.term) .term
  failIf (policyRevision ≠ c.account.policy.revision ∨ creditRevision = 0 ∨ creditRevision > maxInt64 ∨
    ceiling > maxInt64) .revision
  let p := c.account.policy.withCredit creditRevision ceiling
  if p = c.account.policy then pure ()
  else do
    failIf (!creditAdvance c.account.policy p) .revision
    failIf (c.account.quarantined ∨ !p.enabled ∨ (p.upload.mode = .blocked ∧ p.download.mode = .blocked)) .blocked
    ofExcept (Account.unexpired now p)
    applyLocked p

def applyAuthority (now : Option Int) (desired : Policy) : Prog Cell NodeError Unit := do
  let c ← read
  failIf c.account.quarantined .blocked
  let merged ← ofExcept (mergeAuthority c.account.policy desired)
  ofExcept (Account.authorityTime now merged)
  applyLocked merged

def quarantine : Prog Cell NodeError Unit :=
  update fun c => { c with memory := { c.memory with account := c.account.quarantine } }

end Cell

/-- What the surroundings answer during one turn of an admission. -/
structure Turn where
  cancelled : Bool
  clock : Option Int
  clockAgain : Option Int
  clockExpiry : Option Int
  allowN : Bool

namespace Account

def takeSize (a : Account) (dir : Direction) (requested : Int) (upTo : Bool) : Int :=
  if upTo then
    let n := if a.policy.quotaUnlimited then requested
      else min requested ((a.policy.creditCeiling - a.previouslyReserved - a.uploaded - a.downloaded : Nat) : Int)
    match a.bucket dir with
    | none => n
    | some b => min n b.burst
  else requested

def consume (a : Account) (dir : Direction) (n : Nat) : Account :=
  match dir with
  | .upload => { a with uploaded := a.uploaded + n }
  | .download => { a with downloaded := a.downloaded + n }

theorem spent_consume (a : Account) (dir : Direction) (n : Nat) : (a.consume dir n).spent = a.spent + n := by
  cases dir <;> simp only [consume, spent] <;> omega

theorem takeSize_le (a : Account) (dir : Direction) (requested : Int) (upTo : Bool) :
    a.takeSize dir requested upTo ≤ requested := by
  unfold takeSize
  by_cases hup : upTo = true
  · rw [if_pos hup]
    have hn : (if a.policy.quotaUnlimited then requested else min requested
        ((a.policy.creditCeiling - a.previouslyReserved - a.uploaded - a.downloaded : Nat) : Int)) ≤ requested := by
      split
      · exact le_rfl
      · exact min_le_left _ _
    cases a.bucket dir with
    | none => exact hn
    | some b => exact (min_le_left _ _).trans hn
  · rw [if_neg hup]

/-- What a turn of `take` comes to under the lock: an error, no bytes yet, or so many bytes that are to be reserved. -/
def turn (a : Account) (dir : Direction) (requested : Int) (upTo : Bool) (turn : Turn) : Except NodeError (Option Nat) := do
  refuse (requested ≤ 0) .size
  refuse turn.cancelled .context
  (if upTo then a.allowed turn.clock dir 1 else .ok () : Except NodeError Unit)
  let n := a.takeSize dir requested upTo
  a.allowed turn.clockAgain dir n.toNat
  match a.bucket dir, turn.allowN with
  | some b, false => do
    refuse (n > b.burst) .size
    refuse (a.policy.expiresUnixMilli ≠ 0 ∧ turn.clockExpiry = none) .clock
    return none
  | _, _ => return some n.toNat

theorem turn_eq_ok {a : Account} {dir : Direction} {requested : Int} {upTo : Bool} {turn : Turn} {n : Nat}
    (h : a.turn dir requested upTo turn = .ok (some n)) : n = (a.takeSize dir requested upTo).toNat := by
  simp only [Account.turn, unit_bind_eq_ok] at h
  obtain ⟨-, -, -, -, h⟩ := h
  split at h
  · simp only [unit_bind_eq_ok, pure_eq_ok] at h
    cases h.2.2
  · exact (Option.some.inj (pure_eq_ok.mp h)).symm

end Account

def Cell.take (dir : Direction) (requested : Int) (upTo : Bool) (turn : Turn) : Prog Cell NodeError (Option Nat) := do
  let c ← read
  match ← ofExcept (c.account.turn dir requested upTo turn) with
  | none => pure none
  | some n => do
    reserve c.account.policy (c.account.spent + n)
    update fun c => { c with memory := { c.memory with account := c.account.consume dir n } }
    pure (some n)

namespace Cell

def stored (c : Cell) (r : Record) (p : Policy) : Cell := { c with record := some (r.withPolicy p) }

def switched (c : Cell) (r : Record) (p : Policy) : Cell :=
  { record := some (r.withPolicy p), memory := { c.memory with account := c.account.install p } }

/-- `x` puts one of the policies in `ok` in force, and stores before it switches. -/
def Changes (c : Cell) (r : Record) (ok : Policy → Prop) (x : Prog Cell NodeError Unit) : Prop :=
  Spec x c
    (fun _ c' => ∃ p, ok p ∧ (p = c.account.policy ∧ c' = c ∨ p ≠ c.account.policy ∧ c' = c.switched r p))
    (Halt.post (fun c' => c' = c) fun c' => c' = c ∨ ∃ p, ok p ∧ p ≠ c.account.policy ∧ c' = c.stored r p)

variable {c : Cell} {r : Record}

theorem Changes.mono {ok ok' : Policy → Prop} (h : Changes c r ok x)
    (hi : ∀ p, ok p → ok' p) : Changes c r ok' x := by
  refine Spec.mono h ?_ ?_
  · rintro _ t ⟨p, hp, ht⟩
    exact ⟨p, hi p hp, ht⟩
  · rintro (e | -) t ht
    · exact ht
    · rcases ht with ht | ⟨p, hp, ht⟩
      · exact .inl ht
      · exact .inr ⟨p, hi p hp, ht⟩

theorem applyLocked_changes (hr : c.record = some r) (p : Policy) :
    Changes c r (fun q => q = p ∧ checkApply c.account.policy p = .ok ()) (applyLocked p) := by
  unfold Changes applyLocked
  simp only [spec_read_bind, spec_ofExcept_bind, Halt.post_failed, implies_true, true_and]
  rintro ⟨⟩ hc
  split
  · next hp => exact (spec_pure _).mpr ⟨p, ⟨rfl, hc⟩, .inl ⟨hp, rfl⟩⟩
  · next hp =>
    refine Spec.bind (Q := fun _ c' => c' = c.stored r p) (Spec.write rfl ?_ ?_) ?_
    · exact fun e _ => ⟨rfl, .inl rfl⟩
    · intro _ t ht
      simp only [hr, bind_eq_ok, found_eq_ok, Option.some.injEq, pure_eq_ok, Prod.mk.injEq] at ht
      obtain ⟨_, rfl, _, -, -, rfl⟩ := ht
      exact ⟨rfl, .inr ⟨p, ⟨rfl, hc⟩, hp, rfl⟩⟩
    · rintro _ _ rfl
      exact (spec_update _).mpr ⟨p, ⟨rfl, hc⟩, .inr ⟨hp, rfl⟩⟩

theorem apply_changes (hr : c.record = some r) (p : Policy) :
    Changes c r (fun q => q = p ∧ p.validate = .ok () ∧ checkApply c.account.policy p = .ok ()) (apply p) := by
  unfold Changes apply
  simp only [spec_ofExcept_bind, Halt.post_failed, implies_true, true_and]
  rintro ⟨⟩ hv
  exact (applyLocked_changes hr p).mono fun q hq => ⟨hq.1, hv, hq.2⟩

theorem applyCredit_changes (hr : c.record = some r) (now : Option Int) (term : String)
    (policyRevision creditRevision ceiling : Nat) :
    Changes c r
      (fun q => q = c.account.policy.withCredit creditRevision ceiling ∧ policyRevision = c.account.policy.revision ∧
        (q = c.account.policy ∨ creditAdvance c.account.policy q = true ∧ c.account.quarantined = false) ∧
        checkApply c.account.policy q = .ok ())
      (applyCredit now term policyRevision creditRevision ceiling) := by
  unfold Changes applyCredit
  simp only [spec_read_bind, spec_failIf_bind, Halt.post_failed, implies_true, true_and]
  rintro - hrev
  have hrev : policyRevision = c.account.policy.revision := by
    by_contra hne
    exact hrev (.inl hne)
  split
  · next hp => exact (spec_pure _).mpr ⟨_, ⟨rfl, hrev, .inl hp, hp ▸ checkApply_self _⟩, .inl ⟨hp, rfl⟩⟩
  · simp only [spec_failIf_bind, spec_ofExcept_bind, Halt.post_failed, implies_true, true_and, Bool.not_eq_true', Bool.not_eq_false,
      not_or, Bool.not_eq_true]
    intro ha hb _ _
    refine (applyLocked_changes hr _).mono fun q hq => ?_
    rw [hq.1]
    exact ⟨rfl, hrev, .inr ⟨ha, hb.1⟩, hq.2⟩

theorem applyAuthority_changes (hr : c.record = some r) (now : Option Int) (desired : Policy) :
    Changes c r
      (fun q => c.account.quarantined = false ∧ mergeAuthority c.account.policy desired = .ok q ∧
        checkApply c.account.policy q = .ok ())
      (applyAuthority now desired) := by
  unfold Changes applyAuthority
  simp only [spec_read_bind, spec_failIf_bind, spec_ofExcept_bind, Halt.post_failed, implies_true, true_and]
  rintro hb q hq ⟨⟩ -
  refine (applyLocked_changes hr q).mono fun q' hq' => ?_
  rw [hq'.1]
  exact ⟨Bool.not_eq_true _ ▸ hb, hq, hq'.2⟩

end Cell

theorem le_reservation {p : Policy} {total : Nat} (h : p.quotaUnlimited = true ∨ total ≤ p.creditCeiling) :
    total ≤ reservation p total := by
  have hn : total ≤ if total ≤ maxUint64 - reservationSize p then total + reservationSize p else total := by
    split <;> omega
  unfold reservation
  cases hq : p.quotaUnlimited with
  | true => simpa only [if_true] using hn
  | false => simpa [hn] using h.resolve_left (by simp [hq])

theorem reservation_le {p : Policy} (h : p.quotaUnlimited = false) (total : Nat) :
    reservation p total ≤ p.creditCeiling := by
  unfold reservation
  simp only [h, Bool.false_eq_true, if_false]
  exact min_le_right _ _

def Record.Grows (r r' : Record) : Prop :=
  r.reserved ≤ r'.reserved ∧
    (r'.reserved = r.reserved ∨ r.grant.policy.quotaUnlimited = true ∨ r'.reserved ≤ r.grant.policy.creditCeiling)

theorem Record.Grows.of_eq {r' : Record} (h : r'.reserved = r.reserved) : r.Grows r' := ⟨h.ge, .inl h⟩

namespace Cell

/-- Memory agrees with the row `r`, and `n` bytes are spent within its reservation. -/
structure Sound (n : Nat) (r : Record) (c : Cell) : Prop where
  record : c.record = some r
  policy : c.account.policy = r.grant.policy
  reserved : c.memory.reserved = r.reserved
  admitted : n ≤ c.account.spent
  spent : c.account.spent ≤ r.reserved

def Durable (n : Nat) (r : Record) (c : Cell) : Prop :=
  ∃ r', c.record = some r' ∧ n ≤ r'.reserved ∧ r.Grows r'

def Stops (n : Nat) (r : Record) : Halt NodeError → Cell → Prop :=
  Halt.post (fun c => ∃ r', Sound n r' c ∧ r.Grows r') (Durable n r)

theorem Sound.durable (h : Sound n r c) : Durable n r c :=
  ⟨r, h.record, h.admitted.trans h.spent, .of_eq rfl⟩

theorem Sound.switched (h : Sound n r c) (p : Policy) : Sound n (r.withPolicy p) (c.switched r p) :=
  ⟨rfl, rfl, h.reserved, h.admitted, h.spent⟩

theorem Changes.sound {ok : Policy → Prop} (h : Changes c r ok x)
    (hs : Sound n r c) : Spec x c (fun _ c' => ∃ r', Sound n r' c' ∧ r.Grows r') (Stops n r) := by
  refine Spec.mono h ?_ ?_
  · rintro _ t ⟨p, -, ⟨-, rfl⟩ | ⟨-, rfl⟩⟩
    · exact ⟨r, hs, .of_eq rfl⟩
    · exact ⟨_, hs.switched p, .of_eq rfl⟩
  · rintro (e | -) t ht
    · subst ht
      exact ⟨r, hs, .of_eq rfl⟩
    · rcases ht with rfl | ⟨p, -, -, rfl⟩
      · exact hs.durable
      · exact ⟨_, rfl, hs.admitted.trans hs.spent, .of_eq rfl⟩

theorem reserve_sound {total : Nat} (hs : Sound n r c) :
    Spec (reserve c.account.policy total) c
      (fun _ c' => ∃ r', Sound n r' c' ∧ r.Grows r' ∧ c'.account = c.account ∧ total ≤ r'.reserved) (Stops n r) := by
  unfold reserve
  simp only [spec_read_bind]
  split
  · next h => exact (spec_pure _).mpr ⟨r, hs, .of_eq rfl, rfl, hs.reserved ▸ h⟩
  · next h =>
    -- The row and the cached total are equal, so the row lags behind what is asked for.
    have hlag : r.reserved < total := hs.reserved ▸ Nat.lt_of_not_le h
    set next := reservation c.account.policy total with hnext
    refine Spec.bind (Q := fun _ c' => c' = { c with record := some { r with reserved := next } } ∧ total ≤ next ∧
      r.Grows { r with reserved := next }) (Spec.write ⟨r, hs, .of_eq rfl⟩ ?_ ?_) ?_
    · exact fun e _ => ⟨⟨r, hs, .of_eq rfl⟩, hs.durable⟩
    · intro _ t ht
      simp only [hs.record, bind_eq_ok, found_eq_ok, refuse_eq_ok, Option.some.injEq, pure_eq_ok,
        Prod.mk.injEq] at ht
      obtain ⟨_, rfl, _, hc, -, rfl⟩ := ht
      have hquota : c.account.policy.quotaUnlimited = true ∨ total ≤ c.account.policy.creditCeiling := by
        grind
      have htotal : total ≤ next := le_reservation hquota
      have hgrow : r.Grows { r with reserved := next } := by
        refine ⟨by simp only; omega, .inr ?_⟩
        cases hq : r.grant.policy.quotaUnlimited with
        | true => exact .inl rfl
        | false => exact .inr (hs.policy ▸ reservation_le (hs.policy ▸ hq) total)
      exact ⟨⟨rfl, htotal, hgrow⟩, _, rfl, by have := hs.admitted; have := hs.spent; simp only; omega, hgrow⟩
    · rintro _ _ ⟨rfl, htotal, hgrow⟩
      refine (spec_update _).mpr ⟨{ r with reserved := next }, ⟨rfl, hs.policy, rfl, hs.admitted, ?_⟩, hgrow, rfl, htotal⟩
      exact hs.spent.trans (by simp only; omega)

/-- A take leaves the account alone unless it reserves and then consumes the size it settled on. -/
theorem take_of_grant {Q : Option Nat → Cell → Prop} {E : Halt NodeError → Cell → Prop} {dir : Direction} {requested : Int}
    {upTo : Bool} {turn : Turn} (hstay : Q none c) (hfail : ∀ e, E (.failed e) c)
    (hgrant : ∀ k, k = (c.account.takeSize dir requested upTo).toNat → Spec (do
      reserve c.account.policy (c.account.spent + k)
      update fun c => { c with memory := { c.memory with account := c.account.consume dir k } }
      pure (some k)) c Q E) : Spec (take dir requested upTo turn) c Q E := by
  unfold take
  simp only [spec_read_bind, spec_ofExcept_bind]
  refine ⟨fun e _ => hfail e, fun o ho => ?_⟩
  cases o with
  | none => exact (spec_pure _).mpr hstay
  | some n => exact hgrant n (Account.turn_eq_ok ho)

theorem take_sound (hs : Sound n r c) (dir : Direction) (requested : Int) (upTo : Bool) (turn : Turn) :
    Spec (take dir requested upTo turn) c (fun o c' => ∃ r', Sound (n + o.getD 0) r' c' ∧ r.Grows r') (Stops n r) := by
  have stay : ∃ r', Sound n r' c ∧ r.Grows r' := ⟨r, hs, .of_eq rfl⟩
  refine take_of_grant stay (fun _ => stay) fun k _ => Spec.bind (reserve_sound hs) ?_
  rintro _ t ⟨r', ht, hgrow, ha, htotal⟩
  refine (spec_update_bind _).mpr ((spec_pure _).mpr ⟨r', ⟨ht.record, ?_, ht.reserved, ?_, ?_⟩, hgrow⟩)
  · rw [← ht.policy]
    cases dir <;> rfl
  · have := ht.admitted
    change n + k ≤ (t.account.consume dir k).spent
    rw [Account.spent_consume]
    omega
  · change (t.account.consume dir k).spent ≤ r'.reserved
    rw [Account.spent_consume, ha]
    exact htotal

end Cell

end Pui
