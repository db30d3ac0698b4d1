import Mathlib.Logic.Basic

/-!
# Checks that refuse

Straight-line code that returns at the first check that does not pass is a computation in `Except`.
-/

namespace Guard

open List

variable {ε α β : Type}

def refuse (c : Prop) [Decidable c] (e : ε) : Except ε Unit := if c then .error e else .ok ()

def found (o : Option α) (e : ε) : Except ε α := o.elim (.error e) .ok

theorem bind_eq_ok {x : Except ε α} {f : α → Except ε β} {b : β} :
    (x >>= f) = .ok b ↔ ∃ a, x = .ok a ∧ f a = .ok b := by
  cases x with
  | error e => simp [bind, Except.bind]
  | ok a => simp [bind, Except.bind]

@[simp] theorem pure_eq_ok {a b : α} : (pure a : Except ε α) = .ok b ↔ a = b := by
  simp [pure, Except.pure]

theorem map_eq_ok {x : Except ε α} {f : α → β} {b : β} : x.map f = .ok b ↔ ∃ a, x = .ok a ∧ f a = b := by
  cases x <;> simp [Except.map]

theorem unit_bind_eq_ok {x : Except ε Unit} {f : Unit → Except ε β} {b : β} :
    (x >>= f) = .ok b ↔ x = .ok () ∧ f () = .ok b := by
  rw [bind_eq_ok]
  exact ⟨fun ⟨(), hx, hf⟩ => ⟨hx, hf⟩, fun ⟨hx, hf⟩ => ⟨(), hx, hf⟩⟩

@[simp] theorem refuse_eq_ok {c : Prop} [Decidable c] {e : ε} {u : Unit} : refuse c e = .ok u ↔ ¬c := by
  unfold refuse
  split <;> simp_all

theorem refuse_of {c : Prop} [Decidable c] (h : c) (e : ε) : refuse c e = .error e := if_pos h

theorem refuse_of_not {c : Prop} [Decidable c] (h : ¬c) (e : ε) : refuse c e = .ok () := if_neg h

theorem ok_bind (a : α) (f : α → Except ε β) : (Except.ok a >>= f) = f a := rfl

theorem error_bind (e : ε) (f : α → Except ε β) : (Except.error e >>= f) = .error e := rfl

@[simp] theorem found_eq_ok {o : Option α} {e : ε} {a : α} : found o e = .ok a ↔ o = some a := by
  cases o <;> simp [found]

theorem isOk_eq_true {x : Except ε Unit} : x.isOk = true ↔ x = .ok () := by
  cases x with
  | error e => simp [Except.isOk, Except.toBool]
  | ok u => simp [Except.isOk, Except.toBool]

theorem forM_eq_ok {f : α → Except ε Unit} {l : List α} : l.forM f = .ok () ↔ ∀ a ∈ l, f a = .ok () := by
  induction l with
  | nil => simp
  | cons a l ih =>
    show (f a >>= fun _ => l.forM f) = .ok () ↔ _
    rw [unit_bind_eq_ok, ih, forall_mem_cons]

theorem mapM_cons_eq_ok {f : α → Except ε β} {a : α} {l : List α} {bs : List β} :
    (a :: l).mapM f = .ok bs ↔ ∃ b bs', f a = .ok b ∧ l.mapM f = .ok bs' ∧ bs = b :: bs' := by
  simp only [mapM_cons, bind_eq_ok, pure_eq_ok]
  constructor
  · rintro ⟨b, hb, bs', hbs, rfl⟩
    exact ⟨b, bs', hb, hbs, rfl⟩
  · rintro ⟨b, bs', hb, hbs, rfl⟩
    exact ⟨b, hb, bs', hbs, rfl⟩

theorem exists_of_mem_mapM {f : α → Except ε β} {l : List α} {bs : List β} (h : l.mapM f = .ok bs) {b : β} (hb : b ∈ bs) :
    ∃ a ∈ l, f a = .ok b := by
  induction l generalizing bs with
  | nil =>
    cases h
    cases hb
  | cons a l ih =>
    obtain ⟨b', bs', hb', hbs, rfl⟩ := mapM_cons_eq_ok.mp h
    rcases mem_cons.mp hb with rfl | hb
    · exact ⟨a, mem_cons_self, hb'⟩
    · obtain ⟨a', ha', hf⟩ := ih hbs hb
      exact ⟨a', mem_cons_of_mem a ha', hf⟩

theorem exists_mem_of_mapM {f : α → Except ε β} {l : List α} {bs : List β} (h : l.mapM f = .ok bs) {a : α} (ha : a ∈ l) :
    ∃ b ∈ bs, f a = .ok b := by
  induction l generalizing bs with
  | nil => cases ha
  | cons a' l ih =>
    obtain ⟨b', bs', hb', hbs, rfl⟩ := mapM_cons_eq_ok.mp h
    rcases mem_cons.mp ha with rfl | ha
    · exact ⟨b', mem_cons_self, hb'⟩
    · obtain ⟨b, hb, hf⟩ := ih hbs ha
      exact ⟨b, mem_cons_of_mem b' hb, hf⟩

theorem foldlM_keeps {f : β → α → Except ε β} {I : β → Prop} {l : List α}
    (hf : ∀ b, ∀ a ∈ l, ∀ b', f b a = .ok b' → I b → I b') {b b' : β} (h : l.foldlM f b = .ok b') (hb : I b) : I b' := by
  induction l generalizing b with
  | nil =>
    cases h
    exact hb
  | cons a l ih =>
    rw [foldlM_cons, bind_eq_ok] at h
    obtain ⟨c, hc, h⟩ := h
    exact ih (fun b a' ha' => hf b a' (mem_cons_of_mem a ha')) h (hf b a mem_cons_self c hc hb)

def Raises (P : ε → Prop) (x : Except ε α) : Prop := ∀ e, x = .error e → P e

variable {P : ε → Prop}

theorem raises_ok (a : α) : Raises P (.ok a) := fun _ h => nomatch h

@[simp] theorem raises_pure (a : α) : Raises P (pure a) := raises_ok a

theorem raises_error {e : ε} (h : P e) : Raises P (.error e : Except ε α) := fun _ he => by cases he; exact h

theorem Raises.bind {x : Except ε α} {f : α → Except ε β} (hx : Raises P x) (hf : ∀ a, x = .ok a → Raises P (f a)) :
    Raises P (x >>= f) := by
  cases x with
  | error e => exact raises_error (hx e rfl)
  | ok a => exact hf a rfl

theorem raises_refuse {c : Prop} [Decidable c] {e : ε} (h : c → P e) : Raises P (refuse c e) := by
  unfold refuse
  split
  · next hc => exact raises_error (h hc)
  · exact raises_ok ()

theorem raises_found {o : Option α} {e : ε} (h : P e) : Raises P (found o e) := by
  cases o with
  | none => exact raises_error h
  | some a => exact raises_ok a

theorem raises_forM {f : α → Except ε Unit} (hf : ∀ a, Raises P (f a)) (l : List α) : Raises P (l.forM f) := by
  induction l with
  | nil => exact raises_ok _
  | cons a l ih => exact (hf a).bind fun _ _ => ih

theorem raises_mapM {f : α → Except ε β} (hf : ∀ a, Raises P (f a)) (l : List α) : Raises P (l.mapM f) := by
  induction l with
  | nil => exact raises_ok _
  | cons a l ih =>
    rw [mapM_cons]
    exact (hf a).bind fun _ _ => ih.bind fun _ _ => raises_pure _

theorem raises_foldlM {f : β → α → Except ε β} (hf : ∀ b a, Raises P (f b a)) (l : List α) (b : β) :
    Raises P (l.foldlM f b) := by
  induction l generalizing b with
  | nil => exact raises_ok _
  | cons a l ih => exact (hf b a).bind fun _ _ => ih _

end Guard
