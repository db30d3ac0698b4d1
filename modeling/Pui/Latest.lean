import Mathlib.Algebra.Order.Group.Nat

/-!
# Logs of readings

What counts for a key is its last reading up to an entry of a numbered log (`latest`).
-/

namespace Latest

open Option

variable {κ ρ : Type}

def latest (log : Nat → κ → Option ρ) (k : κ) : Nat → Option ρ
  | 0 => none
  | n + 1 => (log (n + 1) k).or (latest log k n)

def Silent (log : Nat → κ → Option ρ) (k : κ) (n : Nat) : Prop := ∀ t, n < t → log t k = none

variable {log : Nat → κ → Option ρ} {k : κ}

theorem Silent.mono {m n : Nat} (h : Silent log k m) (hmn : m ≤ n) : Silent log k n :=
  fun t ht => h t (lt_of_le_of_lt hmn ht)

theorem latest_of_silent {m n : Nat} (h : Silent log k m) (hmn : m ≤ n) : latest log k n = latest log k m := by
  induction n, hmn using Nat.le_induction with
  | base => rfl
  | succ n hmn ih => rw [latest, h (n + 1) (Nat.lt_succ_of_le hmn), none_or, ih]

theorem latest_congr {log' : Nat → κ → Option ρ} {n : Nat} (h : ∀ t ≤ n, log t k = log' t k) :
    latest log k n = latest log' k n := by
  induction n with
  | zero => rfl
  | succ n ih => rw [latest, latest, h (n + 1) le_rfl, ih fun t ht => h t (Nat.le_succ_of_le ht)]

theorem exists_of_latest {n : Nat} {r : ρ} (h : latest log k n = some r) : ∃ t, 1 ≤ t ∧ t ≤ n ∧ log t k = some r := by
  induction n with
  | zero => cases h
  | succ n ih =>
    rw [latest] at h
    cases hlog : log (n + 1) k with
    | none =>
      rw [hlog, none_or] at h
      obtain ⟨t, h1, ht, hr⟩ := ih h
      exact ⟨t, h1, Nat.le_succ_of_le ht, hr⟩
    | some r' =>
      rw [hlog, some_or] at h
      exact ⟨n + 1, Nat.succ_pos n, le_rfl, by rw [hlog, h]⟩

section Order

variable [Preorder ρ]

def Rising (log : Nat → κ → Option ρ) : Prop :=
  ∀ k n r r', latest log k n = some r → log (n + 1) k = some r' → r ≤ r'

theorem latest_le {m n : Nat} {r : ρ} (h : Rising log) (hmn : m ≤ n) (hr : latest log k m = some r) :
    ∃ r', latest log k n = some r' ∧ r ≤ r' := by
  induction n, hmn using Nat.le_induction with
  | base => exact ⟨r, hr, le_rfl⟩
  | succ n hmn ih =>
    obtain ⟨r', hr', hle⟩ := ih
    cases hlog : log (n + 1) k with
    | none => exact ⟨r', by rw [latest, hlog, hr', none_or], hle⟩
    | some r'' => exact ⟨r'', by rw [latest, hlog, some_or], hle.trans (h k n r' r'' hr' hlog)⟩

end Order

variable [DecidableEq κ]

def write (log : Nat → κ → Option ρ) (t : Nat) (k : κ) (r : ρ) : Nat → κ → Option ρ :=
  fun n k' => if n = t ∧ k' = k then some r else log n k'

theorem latest_write_of_lt {t n : Nat} (hn : n < t) (k k' : κ) (r : ρ) :
    latest (write log t k r) k' n = latest log k' n := by
  refine latest_congr fun s hs => ?_
  have hst : s ≠ t := by omega
  simp [write, hst]

theorem latest_write_of_ne {t : Nat} {k' : κ} (hk : k' ≠ k) (r : ρ) (n : Nat) :
    latest (write log t k r) k' n = latest log k' n :=
  latest_congr fun s _ => by simp [write, hk]

theorem silent_write_self {t : Nat} (h : Silent log k t) (r : ρ) : Silent (write log t k r) k t := by
  intro s hs
  have hst : s ≠ t := by omega
  simp [write, hst, h s hs]

theorem silent_write_of_ne {t m : Nat} {k' : κ} (hk : k' ≠ k) (r : ρ) (h : Silent log k' m) :
    Silent (write log t k r) k' m := by
  intro s hs
  simp [write, hk, h s hs]

theorem latest_write_self {t n : Nat} (ht : 1 ≤ t) (htn : t ≤ n) (h : Silent log k t) (r : ρ) :
    latest (write log t k r) k n = some r := by
  rw [latest_of_silent (silent_write_self h r) htn]
  obtain ⟨t, rfl⟩ := Nat.exists_eq_add_of_le' ht
  simp [latest, write]

theorem rising_write [Preorder ρ] {t : Nat} {r : ρ} (hlog : Rising log) (h : Silent log k t)
    (hr : ∀ n r₀, latest log k n = some r₀ → r₀ ≤ r) : Rising (write log t k r) := by
  intro k' n r₀ r' hlast hnext
  by_cases hk : k' = k
  · subst hk
    by_cases hnt : n + 1 = t
    · -- the written entry is above everything before it
      rw [latest_write_of_lt (by omega)] at hlast
      have hr' : r = r' := by simpa [write, hnt] using hnext
      rw [← hr']
      exact hr n r₀ hlast
    · have hnext' : log (n + 1) k' = some r' := by simpa [write, hnt] using hnext
      have hle : n + 1 ≤ t := by
        by_contra hgt
        rw [h (n + 1) (by omega)] at hnext'
        cases hnext'
      rw [latest_write_of_lt (by omega)] at hlast
      exact hlog k' n r₀ r' hlast hnext'
  · rw [latest_write_of_ne hk] at hlast
    exact hlog k' n r₀ r' hlast (by simpa [write, hk] using hnext)

end Latest
