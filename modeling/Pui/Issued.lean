import Mathlib.Order.Basic

/-!
# Values that were issued

An issuer hands out values under rising revisions, and a holder moves to later revisions in its own time.
-/

namespace Issued

variable {α : Type} [Preorder α] {issued : Nat → Option α} {h h' : Nat} {b b' v : α}

def Covers (issued : Nat → Option α) (h : Nat) (b : α) : Prop := ∀ q v, h ≤ q → issued q = some v → v ≤ b

theorem Covers.holder (hc : Covers issued h b) (hh : h ≤ h') : Covers issued h' b :=
  fun q v hq hv => hc q v (Nat.le_trans hh hq) hv

theorem Covers.issue (hc : Covers issued h b) (hb : b ≤ b') (hv : v ≤ b') (q : Nat) :
    Covers (Function.update issued q (some v)) h b' := by
  intro q' v' hq' hv'
  rw [Function.update_apply] at hv'
  split at hv'
  · cases hv'
    exact hv
  · exact (hc q' v' hq' hv').trans hb

theorem covers_of_last (hlast : ∀ q, h < q → issued q = none) (hv : issued h = some v) : Covers issued h v := by
  intro q v' hq hv'
  rcases Nat.lt_or_eq_of_le hq with hlt | rfl
  · rw [hlast q hlt] at hv'
    cases hv'
  · rw [hv] at hv'
    cases hv'
    exact le_rfl

theorem covers_none (hnone : ∀ q, issued q = none) (h : Nat) (b : α) : Covers issued h b := by
  intro q v _ hv
  rw [hnone q] at hv
  cases hv

end Issued
