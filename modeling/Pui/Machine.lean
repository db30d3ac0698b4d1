import Pui.Prog
import Pui.Run

/-!
# Processes that die and start over

A machine runs programs over a state, a part of which is durable.
-/

namespace Crash

/-- Programs over a durable part of a state, and how a process starts from one. -/
structure Machine (ι κ σ δ ε : Type) where
  op : ι → Prog σ ε Unit
  durable : σ → δ
  start : κ → δ → Except ε σ

inductive Status (σ δ : Type) where
  | up (s : σ)
  | down (d : δ)

inductive Event (ι κ : Type) where
  | op (i : ι) (fates : List Fate)
  | crash
  | start (k : κ)

namespace Machine

variable {ι κ σ δ ε : Type} (m : Machine ι κ σ δ ε)

def kept : Status σ δ → δ
  | .up s => m.durable s
  | .down d => d

def step : Status σ δ → Event ι κ → Status σ δ
  | .up s, .op i fates =>
    (m.op i).settle s fates (fun _ t => .up t) fun h t =>
      match h with
      | .failed _ => .up t
      | .crashed => .down (m.durable t)
  | .up s, .crash => .down (m.durable s)
  | .down d, .start k =>
    match m.start k d with
    | .ok s => .up s
    | .error _ => .down d
  | st, _ => st

def after (st : Status σ δ) (events : List (Event ι κ)) : Status σ δ := Run.after m.step st events

def Holds (I : σ → Prop) (D : δ → Prop) : Status σ δ → Prop
  | .up s => I s
  | .down d => D d

def Keeps (I : σ → Prop) (D : δ → Prop) (x : Prog σ ε Unit) : Prop :=
  ∀ s, I s → x.Spec s (fun _ => I) (Halt.post I fun t => D (m.durable t))

variable {m} {I : σ → Prop} {D : δ → Prop}

def Meets (C : σ → ι → Prop) : Status σ δ → Event ι κ → Prop
  | .up s, .op i _ => C s i
  | _, _ => True

instance (C : σ → ι → Prop) [∀ s i, Decidable (C s i)] : (st : Status σ δ) → (e : Event ι κ) → Decidable (Meets C st e)
  | .up s, .op i _ => inferInstanceAs (Decidable (C s i))
  | .up _, .crash | .up _, .start _ | .down _, _ => inferInstanceAs (Decidable True)

theorem holds_step_of {C : σ → ι → Prop}
    (hop : ∀ i s, C s i → I s → (m.op i).Spec s (fun _ => I) (Halt.post I fun t => D (m.durable t)))
    (hdur : ∀ s, I s → D (m.durable s)) (hstart : ∀ k d s, D d → m.start k d = .ok s → I s) (st : Status σ δ)
    (e : Event ι κ) (hc : Meets C st e) (h : Holds I D st) : Holds I D (m.step st e) := by
  cases st with
  | up s =>
    cases e with
    | op i fates =>
      simp only [step]
      refine (hop i s hc h).settle (P := Holds I D) ?_ ?_ fates
      · exact fun _ t ht => ht
      · rintro (e | -) t ht
        · exact ht
        · exact ht
    | crash => exact hdur s h
    | start k => exact h
  | down d =>
    cases e with
    | op i fates => exact h
    | crash => exact h
    | start k =>
      cases hs : m.start k d with
      | ok s => simpa [step, hs, Holds] using hstart k d s h hs
      | error e => simpa [step, hs, Holds] using h

theorem holds_step (hop : ∀ i, m.Keeps I D (m.op i)) (hdur : ∀ s, I s → D (m.durable s))
    (hstart : ∀ k d s, D d → m.start k d = .ok s → I s) (st : Status σ δ) (e : Event ι κ) (h : Holds I D st) :
    Holds I D (m.step st e) := by
  refine holds_step_of (C := fun _ _ => True) (fun i s _ => hop i s) hdur hstart st e ?_ h
  cases st <;> cases e <;> trivial

theorem inv_after (hop : ∀ i, m.Keeps I D (m.op i)) (hdur : ∀ s, I s → D (m.durable s))
    (hstart : ∀ k d s, D d → m.start k d = .ok s → I s) {st : Status σ δ} (h : Holds I D st)
    (events : List (Event ι κ)) : Holds I D (m.after st events) :=
  Run.inv_after (holds_step hop hdur hstart) h events

theorem kept_of_holds (hdur : ∀ s, I s → D (m.durable s)) {st : Status σ δ} (h : Holds I D st) : D (m.kept st) := by
  cases st with
  | up s => exact hdur s h
  | down d => exact h

end Machine

end Crash
