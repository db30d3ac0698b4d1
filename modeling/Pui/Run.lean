import Mathlib.Algebra.BigOperators.Group.List.Basic
import Mathlib.Algebra.Ring.Int.Defs
import Mathlib.Data.List.Infix
import Mathlib.Order.Defs.Unbundled

/-!
# Runs

A system that takes step after step, each one decided by an action: its state after a list of actions.
-/

namespace Run

open List

variable {S A : Type} {step : S → A → S}

def after (step : S → A → S) (s : S) (as : List A) : S := as.foldl step s

@[simp] theorem after_nil (s : S) : after step s [] = s := rfl

@[simp] theorem after_cons (s : S) (a : A) (as : List A) : after step s (a :: as) = after step (step s a) as := rfl

theorem after_append (s : S) (as bs : List A) : after step s (as ++ bs) = after step (after step s as) bs :=
  foldl_append

theorem after_concat (s : S) (as : List A) (a : A) : after step s (as ++ [a]) = step (after step s as) a := by
  rw [after_append]
  rfl

theorem inv_after_of_mem {I : S → Prop} {as : List A} (hstep : ∀ s, ∀ a ∈ as, I s → I (step s a)) {s : S} (hs : I s) :
    I (after step s as) := by
  induction as generalizing s with
  | nil => exact hs
  | cons a as ih =>
    exact ih (fun s b hb => hstep s b (mem_cons_of_mem a hb)) (hstep s a mem_cons_self hs)

theorem inv_after {I : S → Prop} (hstep : ∀ s a, I s → I (step s a)) {s : S} (hs : I s) (as : List A) :
    I (after step s as) :=
  inv_after_of_mem (fun s a _ => hstep s a) hs

def Along (step : S → A → S) (C : S → A → Prop) : S → List A → Prop
  | _, [] => True
  | s, a :: as => C s a ∧ Along step C (step s a) as

instance (C : S → A → Prop) [∀ s a, Decidable (C s a)] : (s : S) → (as : List A) → Decidable (Along step C s as)
  | _, [] => inferInstanceAs (Decidable True)
  | s, a :: as =>
    have := instDecidableAlong C (step s a) as
    inferInstanceAs (Decidable (C s a ∧ Along step C (step s a) as))

theorem inv_after_along {I : S → Prop} {C : S → A → Prop} (hstep : ∀ s a, C s a → I s → I (step s a)) {s : S} (hs : I s)
    {as : List A} (h : Along step C s as) : I (after step s as) := by
  induction as generalizing s with
  | nil => exact hs
  | cons a as ih => exact ih (hstep s a h.1 hs) h.2

def total (step : S → A → S) (f : S → A → Int) : S → List A → Int
  | _, [] => 0
  | s, a :: as => f s a + total step f (step s a) as

theorem add_total_along {I : S → Prop} {C : S → A → Prop} {f : S → A → Int} {g : S → Int} (hstep : ∀ s a, C s a → I s → I (step s a))
    (hshare : ∀ s a, C s a → I s → g (step s a) = g s + f s a) {s : S} (hs : I s) {as : List A} (h : Along step C s as) :
    g (after step s as) = g s + total step f s as := by
  induction as generalizing s with
  | nil => exact (Int.add_zero _).symm
  | cons a as ih => rw [after_cons, ih (hstep s a h.1 hs) h.2, hshare s a h.1 hs, total, Int.add_assoc]

theorem total_sum {ι : Type} (l : List ι) (f : ι → S → A → Int) (s : S) (as : List A) :
    total step (fun s a => (l.map fun i => f i s a).sum) s as = (l.map fun i => total step (f i) s as).sum := by
  induction as generalizing s with
  | nil => simp [total]
  | cons a as ih => simp only [total, ih, sum_map_add]

theorem along_of_forall_mem {C : S → A → Prop} {as : List A} (h : ∀ a ∈ as, ∀ s, C s a) (s : S) : Along step C s as := by
  induction as generalizing s with
  | nil => exact trivial
  | cons a as ih => exact ⟨h a mem_cons_self s, ih (fun b hb => h b (mem_cons_of_mem a hb)) _⟩

theorem along_append {C : S → A → Prop} {s : S} {as bs : List A} :
    Along step C s (as ++ bs) ↔ Along step C s as ∧ Along step C (after step s as) bs := by
  induction as generalizing s with
  | nil => exact (iff_of_eq (true_and _)).symm
  | cons a as ih => rw [cons_append, after_cons, Along, Along, ih, and_assoc]

theorem rel_after {I : S → Prop} {R : S → S → Prop} (hrefl : ∀ s, R s s) (htrans : ∀ s t u, R s t → R t u → R s u)
    (hstep : ∀ s a, I s → I (step s a)) (hrel : ∀ s a, I s → R s (step s a)) {s : S} (hs : I s) (as : List A) :
    R s (after step s as) := by
  induction as generalizing s with
  | nil => exact hrefl s
  | cons a as ih => exact htrans _ _ _ (hrel s a hs) (ih (hstep s a hs))

end Run
