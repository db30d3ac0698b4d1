import Pui.Governor

/-!
# Rows and accounts that move together

What a step of the governor may do to the row of a grant (`Guarded`), and to the row and the account together
(`Follows`).
-/

namespace Pui

open Crash Crash.Prog Guard Option

structure Policy.AdvancesTo (p q : Policy) : Prop where
  term : q.term = p.term
  revision : p.revision ≤ q.revision
  authorityRevision : p.authorityRevision ≤ q.authorityRevision
  creditRevision : p.creditRevision ≤ q.creditRevision
  creditCeiling : p.creditRevision ≠ 0 → p.creditCeiling ≤ q.creditCeiling

theorem Policy.AdvancesTo.refl (p : Policy) : p.AdvancesTo p := ⟨rfl, le_rfl, le_rfl, le_rfl, fun _ => le_rfl⟩

theorem advances_of_checkApply {p q : Policy} (h : checkApply p q = .ok ()) : p.AdvancesTo q := by
  unfold checkApply at h
  split at h
  · cases h
  · next hterm =>
    split at h
    · cases h
    · next hrevision =>
      split at h
      · cases h
      · next hcredit =>
        simp only [not_or, not_lt] at hrevision
        refine ⟨not_not.mp hterm, hrevision.2.2.1, hrevision.1, hrevision.2.1, fun hne => ?_⟩
        by_contra hlt
        exact hcredit ⟨.inr hne, .inl (by omega)⟩

theorem advances_of_creditAdvance {p q : Policy} (h : creditAdvance p q = true) : p.AdvancesTo q := by
  obtain ⟨-, hrevision, hceiling, he⟩ := creditAdvance_eq_true.mp h
  rw [← he]
  exact ⟨rfl, le_rfl, le_rfl, hrevision.le, fun _ => hceiling.le⟩

theorem advances_of_mergeAuthority {p desired q : Policy} (h : mergeAuthority p desired = .ok q) : p.AdvancesTo q := by
  rcases eq_or_advance_of_mergeAuthority h with rfl | hadv
  · exact .refl q
  · obtain ⟨⟨hrevision, hterm, -, -⟩, hauthority, -, hcredit, hceiling, -⟩ := authorityAdvance_eq_true.mp hadv
    exact ⟨hterm.symm, hrevision.le, hauthority.le, hcredit, fun _ => hceiling⟩

namespace Cell

variable {c : Cell} {r : Record}

def grown (c : Cell) (r : Record) (n : Nat) : Cell := { c with record := some { r with reserved := n } }

def reserving (c : Cell) (r : Record) (n : Nat) : Cell :=
  { record := some { r with reserved := n }, memory := { c.memory with reserved := n } }

def admitting (c : Cell) (dir : Direction) (k : Nat) : Cell :=
  { c with memory := { c.memory with account := c.account.consume dir k } }

/-- What the stored reservation may become when `k` more bytes are asked for. -/
structure MayReserve (r : Record) (c : Cell) (k n : Nat) : Prop where
  running : r.suspended = false
  policy : r.grant.policy = c.account.policy
  grows : r.reserved ≤ n
  total : c.account.spent + k ≤ n
  eq : n = reservation c.account.policy (c.account.spent + k)

theorem reserve_rule {P E : Cell → Prop} {k : Nat} (hr : c.record = some r) (hstay : P c) (hdead : E c)
    (hgrow : ∀ n, MayReserve r c k n → E (c.grown r n)) :
    Spec (reserve c.account.policy (c.account.spent + k)) c
      (fun _ c' => c' = c ∧ c.account.spent + k ≤ c.memory.reserved ∨ ∃ n, MayReserve r c k n ∧ c' = c.reserving r n)
      (Halt.post P E) := by
  unfold reserve
  simp only [spec_read_bind]
  split
  · next h => exact (spec_pure _).mpr (.inl ⟨rfl, h⟩)
  · set n := reservation c.account.policy (c.account.spent + k) with hn
    refine Spec.bind (Q := fun _ c' => MayReserve r c k n ∧ c' = c.grown r n) (Spec.write hstay ?_ ?_) ?_
    · exact fun e _ => ⟨hstay, hdead⟩
    · intro _ t ht
      simp only [hr, bind_eq_ok, found_eq_ok, refuse_eq_ok, Option.some.injEq, pure_eq_ok, Prod.mk.injEq, not_or,
        Bool.not_eq_true, not_not, Nat.not_lt] at ht
      obtain ⟨_, rfl, _, ⟨hs, hp, hle, hq⟩, -, rfl⟩ := ht
      have htotal : c.account.spent + k ≤ n := by
        refine le_reservation ?_
        by_cases hun : c.account.policy.quotaUnlimited = true
        · exact .inl hun
        · exact .inr (Nat.le_of_not_lt fun hlt => hq ⟨by simpa using hun, hlt⟩)
      have hmay : MayReserve r c k n := ⟨hs, hp, hle, htotal, hn⟩
      exact ⟨⟨hmay, rfl⟩, hgrow n hmay⟩
    · rintro _ _ ⟨hmay, rfl⟩
      exact (spec_update _).mpr (.inr ⟨n, hmay, rfl⟩)

theorem take_rule {P E : Cell → Prop} {dir : Direction} {requested : Int} {upTo : Bool} {turn : Turn}
    (hr : c.record = some r) (hstay : P c) (hdead : E c)
    (hroom : ∀ k, k ≤ requested.toNat → c.account.spent + k ≤ c.memory.reserved → P (c.admitting dir k))
    (hgrow : ∀ k n, k ≤ requested.toNat → MayReserve r c k n →
      E (c.grown r n) ∧ P ((c.reserving r n).admitting dir k)) :
    Spec (take dir requested upTo turn) c (fun _ => P) (Halt.post P E) := by
  refine take_of_grant hstay (fun _ => hstay) fun k hsize => ?_
  have hk : k ≤ requested.toNat := hsize ▸ Int.toNat_le_toNat (c.account.takeSize_le dir requested upTo)
  refine Spec.bind (reserve_rule hr hstay hdead fun n hn => (hgrow _ n hk hn).1) ?_
  rintro _ t (⟨rfl, hle⟩ | ⟨n, hn, rfl⟩)
  · exact (spec_update_bind _).mpr ((spec_pure _).mpr (hroom _ hk hle))
  · exact (spec_update_bind _).mpr ((spec_pure _).mpr (hgrow _ n hk hn).2)

end Cell

namespace Governor

/-- A law of the rows that every change of a row keeps. -/
structure Guarded (law : String → Option Record → Prop) : Prop where
  reserve : ∀ id r n, r.suspended = false → r.reserved ≤ n → law id (some r) → law id (some { r with reserved := n })
  suspend : ∀ id r, law id (some r) → law id (some { r with suspended := true })
  change : ∀ id r p, r.suspended = false → r.grant.policy.AdvancesTo p → law id (some r) → law id (some (r.withPolicy p))
  create : ∀ g, law g.id none → law g.id (some (.fresh g))

/-- A property of rows and accounts that every change of the two keeps. -/
structure Follows (law : String → Option Record → Prop) (J : String → Record → Memory → Prop) : Prop where
  restore : ∀ id r m, law id (some r) → r.restore = .ok m → J id r m
  create : ∀ g m, law g.id none → (Record.fresh g).restore = .ok m → J g.id (.fresh g) m
  change : ∀ id r m p, J id r m → J id (r.withPolicy p) { m with account := m.account.install p }
  reserve : ∀ id r m n, J id r m → r.reserved ≤ n → J id { r with reserved := n } { m with reserved := n }
  consume : ∀ id r m dir k, J id r m → m.account.spent + k ≤ m.reserved →
    J id r { m with account := m.account.consume dir k }
  suspend : ∀ id r m, J id r m → J id { r with suspended := true } { m with account := m.account.quarantine }

/-- Nothing is asked of a row and its account together. -/
abbrev Untied (_ : String) (_ : Record) (_ : Memory) : Prop := True

theorem follows_untied {law : String → Option Record → Prop} : Follows law Untied := by constructor <;> simp

end Governor

end Pui
