import Mathlib.Data.List.Basic
import Mathlib.Logic.Function.Basic

/-!
# Keyed families under lists of changes

A state that is a family of rows under keys, and a list of changes each of which concerns one key.
-/

namespace Keyed

open List

variable {α β κ ρ : Type} [DecidableEq κ]

theorem foldl_alter (key : α → κ) (change : α → ρ → ρ) (l : List α) (m : κ → ρ) (k : κ) :
    (l.foldl (fun m a => Function.update m (key a) (change a (m (key a)))) m) k =
      (l.filter fun a => key a = k).foldl (fun row a => change a row) (m k) := by
  induction l generalizing m with
  | nil => rfl
  | cons a l ih =>
    rw [foldl_cons, ih]
    by_cases hk : key a = k
    · subst hk
      simp
    · rw [Function.update_of_ne (Ne.symm hk), filter_cons_of_neg (by simpa using hk)]

theorem foldl_assign (key : α → κ) (target : κ → ρ) {value : α → ρ} {l : List α} (h : ∀ a ∈ l, value a = target (key a))
    (m : κ → ρ) (k : κ) :
    (l.foldl (fun m a => Function.update m (key a) (value a)) m) k = if k ∈ l.map key then target k else m k := by
  induction l generalizing m with
  | nil => simp
  | cons a l ih =>
    rw [foldl_cons, ih (fun b hb => h b (mem_cons_of_mem a hb)), map_cons]
    by_cases hmem : k ∈ l.map key
    · rw [if_pos hmem, if_pos (mem_cons_of_mem _ hmem)]
    · rw [if_neg hmem]
      by_cases hk : k = key a
      · subst hk
        rw [Function.update_self, if_pos mem_cons_self, h a mem_cons_self]
      · rw [Function.update_of_ne hk, if_neg (by simp [hk, hmem])]

theorem filter_flatMap_of_not_mem {key : α → κ} {items : α → List β} {keyOf : β → κ} {l : List α}
    (hitems : ∀ a ∈ l, ∀ b ∈ items a, keyOf b = key a) {k : κ} (hk : k ∉ l.map key) :
    ((l.flatMap items).filter fun b => keyOf b = k) = [] := by
  rw [filter_eq_nil_iff]
  intro b hb
  obtain ⟨a, ha, hb⟩ := mem_flatMap.mp hb
  rw [decide_eq_true_eq, hitems a ha b hb]
  exact fun heq => hk (mem_map.mpr ⟨a, ha, heq⟩)

theorem filter_flatMap_of_mem {key : α → κ} {items : α → List β} {keyOf : β → κ} {l : List α} (hkeys : (l.map key).Nodup)
    (hitems : ∀ a ∈ l, ∀ b ∈ items a, keyOf b = key a) {a : α} (ha : a ∈ l) :
    ((l.flatMap items).filter fun b => keyOf b = key a) = items a := by
  induction l with
  | nil => cases ha
  | cons a' l ih =>
    rw [map_cons, nodup_cons] at hkeys
    have hrest : ∀ b ∈ l, ∀ x ∈ items b, keyOf x = key b := fun b hb => hitems b (mem_cons_of_mem a' hb)
    rw [flatMap_cons, filter_append]
    rcases mem_cons.mp ha with rfl | ha
    · have hself : ((items a).filter fun b => keyOf b = key a) = items a := by
        rw [filter_eq_self]
        exact fun b hb => decide_eq_true (hitems a mem_cons_self b hb)
      rw [hself, filter_flatMap_of_not_mem hrest hkeys.1, append_nil]
    · have hother : ((items a').filter fun b => keyOf b = key a) = [] := by
        rw [filter_eq_nil_iff]
        intro b hb
        rw [decide_eq_true_eq, hitems a' mem_cons_self b hb]
        exact fun heq => hkeys.1 (mem_map.mpr ⟨a, ha, heq.symm⟩)
      rw [hother, nil_append, ih hkeys.2 hrest ha]

end Keyed
