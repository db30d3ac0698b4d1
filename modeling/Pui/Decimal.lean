import Mathlib.Data.List.TakeWhile
import Mathlib.Data.Nat.Digits.Defs

/-!
# Decimal texts

Numbers as runs of decimal digits, and texts that are cut at a separator.
-/

namespace Decimal

open List

def value (cs : List Char) : Option Nat := if cs ≠ [] ∧ cs.all Char.isDigit then some (Nat.ofDigitChars 10 cs 0) else none

theorem isDigit_of_mem_toDigits {n : Nat} {c : Char} (h : c ∈ Nat.toDigits 10 n) : c.isDigit :=
  Nat.isDigit_of_mem_toDigits (b := 10) (by decide) (by decide) h

@[simp] theorem value_toDigits (n : Nat) : value (Nat.toDigits 10 n) = some n := by
  rw [value, if_pos ⟨Nat.toDigits_ne_nil, all_eq_true.mpr fun c hc => isDigit_of_mem_toDigits hc⟩,
    Nat.ofDigitChars_toDigits (by decide) (by decide)]

theorem toDigits_eq_cons (n : Nat) : ∃ c rest, Nat.toDigits 10 n = c :: rest ∧ c.isDigit := by
  cases h : Nat.toDigits 10 n with
  | nil => exact absurd h Nat.toDigits_ne_nil
  | cons c rest => exact ⟨c, rest, rfl, isDigit_of_mem_toDigits (n := n) (h ▸ mem_cons_self)⟩

private theorem digitChar_inj : ∀ d < 16, ∀ e < 16, d.digitChar = e.digitChar → d = e := by decide

/-- A number is read back from its digits in any base up to sixteen. -/
theorem toDigits_injective {b : Nat} (hb : 1 < b) (hb' : b ≤ 16) : Function.Injective (Nat.toDigits b) := by
  intro n m h
  induction n using Nat.strongRecOn generalizing m with
  | ind n ih =>
    rw [Nat.toDigits_eq_if hb, Nat.toDigits_eq_if hb (n := m)] at h
    have hlast : ∀ k, k % b < 16 := fun k => (Nat.mod_lt k (by omega)).trans_le hb'
    split at h <;> split at h
    · exact digitChar_inj n (by omega) m (by omega) (List.cons.inj h).1
    · rw [← nil_append [_]] at h
      exact absurd (append_inj' h rfl).1.symm Nat.toDigits_ne_nil
    · rw [← nil_append [m.digitChar]] at h
      exact absurd (append_inj' h rfl).1 Nat.toDigits_ne_nil
    · obtain ⟨hdiv, hmod⟩ := append_inj' h rfl
      have hquot := ih (n / b) (Nat.div_lt_self (by omega) hb) hdiv
      have hrem := digitChar_inj _ (hlast n) _ (hlast m) (List.cons.inj hmod).1
      rw [← Nat.div_add_mod n b, ← Nat.div_add_mod m b, hquot, hrem]

theorem toDigits_inj {n m : Nat} (h : Nat.toDigits 10 n = Nat.toDigits 10 m) : n = m := toDigits_injective (by decide) (by decide) h

theorem isAlphanum_of_mem_toDigits {b n : Nat} {c : Char} (hb : 1 < b) (hb' : b ≤ 16) (h : c ∈ Nat.toDigits b n) : c.isAlphanum := by
  have hdigit : ∀ d < 16, d.digitChar.isAlphanum := by decide
  induction n using Nat.strongRecOn with
  | ind n ih =>
    rw [Nat.toDigits_eq_if hb] at h
    split at h
    · rw [mem_singleton.mp h]
      exact hdigit n (by omega)
    · rcases mem_append.mp h with hfront | hlast
      · exact ih (n / b) (Nat.div_lt_self (by omega) hb) hfront
      · rw [mem_singleton.mp hlast]
        exact hdigit _ ((Nat.mod_lt n (by omega)).trans_le hb')

def cut (sep : Char) (cs : List Char) : List Char × Option (List Char) :=
  match cs.dropWhile (· ≠ sep) with
  | [] => (cs, none)
  | _ :: rest => (cs.takeWhile (· ≠ sep), some rest)

theorem cut_append {sep : Char} {front : List Char} (h : sep ∉ front) (rest : List Char) :
    cut sep (front ++ sep :: rest) = (front, some rest) := by
  have hfront : ∀ c ∈ front, decide (c ≠ sep) = true := fun c hc => decide_eq_true fun heq => h (heq ▸ hc)
  have hdrop : (front ++ sep :: rest).dropWhile (fun c => decide (c ≠ sep)) = sep :: rest := by
    rw [dropWhile_append_of_pos hfront, dropWhile_cons_of_neg (by simp)]
  have htake : (front ++ sep :: rest).takeWhile (fun c => decide (c ≠ sep)) = front := by
    rw [takeWhile_append_of_pos hfront, takeWhile_cons_of_neg (by simp), append_nil]
  rw [cut, hdrop, htake]

theorem cut_of_not_mem {sep : Char} {cs : List Char} (h : sep ∉ cs) : cut sep cs = (cs, none) := by
  have hdrop : cs.dropWhile (fun c => decide (c ≠ sep)) = [] :=
    dropWhile_eq_nil_iff.mpr fun c hc => decide_eq_true fun heq => h (heq ▸ hc)
  rw [cut, hdrop]

theorem not_mem_toDigits {c : Char} (h : c.isDigit = false) (n : Nat) : c ∉ Nat.toDigits 10 n :=
  fun hmem => Bool.false_ne_true (h.symm.trans (isDigit_of_mem_toDigits hmem))

theorem stem_unique {p q : Char → Prop} {stem stem' rest rest' : List Char} (hdisjoint : ∀ c, p c → ¬ q c) (hstem : ∀ c ∈ stem, p c)
    (hstem' : ∀ c ∈ stem', p c) (hrest : ∃ c cs, rest = c :: cs ∧ q c) (hrest' : ∃ c cs, rest' = c :: cs ∧ q c)
    (h : stem ++ rest = stem' ++ rest') : stem = stem' ∧ rest = rest' := by
  induction stem generalizing stem' with
  | nil =>
    cases stem' with
    | nil => exact ⟨rfl, h⟩
    | cons c stem' =>
      obtain ⟨d, cs, rfl, hd⟩ := hrest
      obtain ⟨rfl, -⟩ := List.cons.inj h
      exact absurd hd (hdisjoint _ (hstem' _ mem_cons_self))
  | cons c stem ih =>
    cases stem' with
    | nil =>
      obtain ⟨d, cs, rfl, hd⟩ := hrest'
      obtain ⟨rfl, -⟩ := List.cons.inj h
      exact absurd hd (hdisjoint _ (hstem _ mem_cons_self))
    | cons c' stem' =>
      obtain ⟨rfl, htail⟩ := List.cons.inj h
      obtain ⟨rfl, rfl⟩ := ih (fun c hc => hstem c (mem_cons_of_mem _ hc)) (fun c hc => hstem' c (mem_cons_of_mem _ hc)) htail
      exact ⟨rfl, rfl⟩

end Decimal
