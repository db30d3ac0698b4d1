import Mathlib.Logic.Basic

/-!
# Programs whose writes can be refused or be their last

Programs are values of `EStateM`, whose state also carries a schedule of fates.
-/

namespace Crash

inductive Fate where
  | done
  | refused
  | crashed
  deriving DecidableEq

inductive Halt (ε : Type) where
  | failed (e : ε)
  | crashed
  deriving DecidableEq

def Halt.post {σ ε : Type} (I D : σ → Prop) : Halt ε → σ → Prop
  | .failed _ => I
  | .crashed => D

@[simp] theorem Halt.post_failed {σ ε : Type} (I D : σ → Prop) (e : ε) (s : σ) :
    Halt.post I D (.failed e) s ↔ I s := Iff.rfl

structure World (σ : Type) where
  state : σ
  fates : List Fate

abbrev Prog (σ ε α : Type) : Type := EStateM (Halt ε) (World σ) α

namespace Prog

variable {σ τ ε α β : Type}

def fail (e : ε) : Prog σ ε α := throw (.failed e)

def failIf (c : Prop) [Decidable c] (e : ε) : Prog σ ε Unit := if c then fail e else pure ()

def ofExcept : Except ε α → Prog σ ε α
  | .ok a => pure a
  | .error e => fail e

def read : Prog σ ε σ := fun w => .ok w.state w

def update (f : σ → σ) : Prog σ ε Unit := fun w => .ok () { w with state := f w.state }

def write (refusal : ε) (f : σ → Except ε (α × σ)) : Prog σ ε α := fun w =>
  match w.fates with
  | .refused :: fates => .error (.failed refusal) { w with fates := fates }
  | .crashed :: fates =>
    match f w.state with
    | .error _ => .error .crashed { w with fates := fates }
    | .ok (_, s) => .error .crashed ⟨s, fates⟩
  | fates =>
    match f w.state with
    | .error e => .error (.failed e) ⟨w.state, fates.tail⟩
    | .ok (a, s) => .ok a ⟨s, fates.tail⟩

def attempt (x : Prog σ ε α) : Prog σ ε (Except ε α) := fun w =>
  match x w with
  | .ok a w' => .ok (.ok a) w'
  | .error (.failed e) w' => .ok (.error e) w'
  | .error .crashed w' => .error .crashed w'

def focus (get : σ → Option τ) (set : τ → σ → σ) (missing : ε) (x : Prog τ ε α) : Prog σ ε α := fun w =>
  match get w.state with
  | none => .error (.failed missing) w
  | some t =>
    match x ⟨t, w.fates⟩ with
    | .ok a w' => .ok a ⟨set w'.state w.state, w'.fates⟩
    | .error h w' => .error h ⟨set w'.state w.state, w'.fates⟩

def settle (x : Prog σ ε α) (s : σ) (fates : List Fate) (ok : α → σ → β) (stop : Halt ε → σ → β) : β :=
  match x ⟨s, fates⟩ with
  | .ok a w => ok a w.state
  | .error h w => stop h w.state

/-- However the writes of `x` go, its result satisfies `Q` or what stops it `E`, and it crashes only by the schedule. -/
def Spec (x : Prog σ ε α) (s : σ) (Q : α → σ → Prop) (E : Halt ε → σ → Prop) : Prop :=
  ∀ fates, match x ⟨s, fates⟩ with
    | .ok a w => Q a w.state ∧ w.fates ⊆ fates
    | .error h w => E h w.state ∧ w.fates ⊆ fates ∧ (h = .crashed → .crashed ∈ fates)

variable {x : Prog σ ε α} {f : α → Prog σ ε β} {s : σ} {Q : α → σ → Prop} {R : β → σ → Prop}
  {E : Halt ε → σ → Prop}

theorem Spec.mono {Q' : α → σ → Prop} {E' : Halt ε → σ → Prop} (h : Spec x s Q E)
    (hQ : ∀ a t, Q a t → Q' a t) (hE : ∀ e t, E e t → E' e t) : Spec x s Q' E' := by
  intro fates
  have hx := h fates
  split at hx
  · exact ⟨hQ _ _ hx.1, hx.2⟩
  · exact ⟨hE _ _ hx.1, hx.2⟩

theorem Spec.bind (hx : Spec x s Q E) (hf : ∀ a t, Q a t → Spec (f a) t R E) : Spec (x >>= f) s R E := by
  intro fates
  have h := hx fates
  change match EStateM.bind x f ⟨s, fates⟩ with
    | .ok a w => R a w.state ∧ w.fates ⊆ fates
    | .error h w => E h w.state ∧ w.fates ⊆ fates ∧ (h = .crashed → .crashed ∈ fates)
  unfold EStateM.bind
  cases hr : x ⟨s, fates⟩ with
  | ok a w =>
    rw [hr] at h
    have hnext := hf a w.state h.1 w.fates
    change match f a ⟨w.state, w.fates⟩ with
      | .ok a w => R a w.state ∧ w.fates ⊆ fates
      | .error h w => E h w.state ∧ w.fates ⊆ fates ∧ (h = .crashed → .crashed ∈ fates)
    revert hnext
    cases f a ⟨w.state, w.fates⟩ with
    | ok b w' => exact fun hnext => ⟨hnext.1, fun _ hmem => h.2 (hnext.2 hmem)⟩
    | error e w' => exact fun hnext => ⟨hnext.1, fun _ hmem => h.2 (hnext.2.1 hmem), fun hcrash => h.2 (hnext.2.2 hcrash)⟩
  | error e w =>
    rw [hr] at h
    exact h

theorem Spec.settle {P : β → Prop} {ok : α → σ → β} {stop : Halt ε → σ → β} (h : Spec x s Q E)
    (hok : ∀ a t, Q a t → P (ok a t)) (hstop : ∀ e t, E e t → P (stop e t)) (fates : List Fate) :
    P (x.settle s fates ok stop) := by
  have hx := h fates
  unfold Prog.settle
  cases hr : x ⟨s, fates⟩ with
  | ok a w =>
    rw [hr] at hx
    exact hok a w.state hx.1
  | error e w =>
    rw [hr] at hx
    exact hstop e w.state hx.1

@[simp] theorem spec_pure (a : α) : Spec (pure a : Prog σ ε α) s Q E ↔ Q a s :=
  ⟨fun h => (h []).1, fun h _ => ⟨h, fun _ hmem => hmem⟩⟩

@[simp] theorem spec_fail (e : ε) : Spec (fail e : Prog σ ε α) s Q E ↔ E (.failed e) s :=
  ⟨fun h => (h []).1, fun h _ => ⟨h, fun _ hmem => hmem, fun hcrash => nomatch hcrash⟩⟩

@[simp] theorem spec_fail_bind (e : ε) : Spec ((fail e : Prog σ ε α) >>= f) s R E ↔ E (.failed e) s :=
  ⟨fun h => (h []).1, fun h _ => ⟨h, fun _ hmem => hmem, fun hcrash => nomatch hcrash⟩⟩

@[simp] theorem spec_read_bind {f : σ → Prog σ ε β} : Spec (read >>= f) s R E ↔ Spec (f s) s R E := Iff.rfl

@[simp] theorem spec_update (g : σ → σ) {Q : Unit → σ → Prop} :
    Spec (update g : Prog σ ε Unit) s Q E ↔ Q () (g s) :=
  ⟨fun h => (h []).1, fun h _ => ⟨h, fun _ hmem => hmem⟩⟩

@[simp] theorem spec_update_bind (g : σ → σ) {f : Unit → Prog σ ε β} :
    Spec (update g >>= f) s R E ↔ Spec (f ()) (g s) R E := Iff.rfl

@[simp] theorem spec_failIf (c : Prop) [Decidable c] (e : ε) {Q : Unit → σ → Prop} :
    Spec (failIf c e : Prog σ ε Unit) s Q E ↔ (c → E (.failed e) s) ∧ (¬c → Q () s) := by
  unfold failIf
  split <;> simp_all

@[simp] theorem spec_failIf_bind (c : Prop) [Decidable c] (e : ε) {f : Unit → Prog σ ε β} :
    Spec (failIf c e >>= f) s R E ↔ (c → E (.failed e) s) ∧ (¬c → Spec (f ()) s R E) := by
  unfold failIf
  split <;> simp_all

@[simp] theorem spec_ofExcept_bind (r : Except ε α) :
    Spec (ofExcept r >>= f) s R E ↔
      (∀ e, r = .error e → E (.failed e) s) ∧ (∀ a, r = .ok a → Spec (f a) s R E) := by
  cases r <;> simp [ofExcept]

theorem Spec.write {refusal : ε} {g : σ → Except ε (α × σ)} (hr : E (.failed refusal) s)
    (he : ∀ e, g s = .error e → E (.failed e) s ∧ E .crashed s)
    (hok : ∀ a t, g s = .ok (a, t) → Q a t ∧ E .crashed t) : Spec (write refusal g) s Q E := by
  intro fates
  unfold Prog.write
  rcases fates with - | ⟨- | - | -, fates⟩
  · cases h : g s with
    | error e => simpa [h] using (he e h).1
    | ok p => simpa [h] using (hok p.1 p.2 h).1
  · cases h : g s with
    | error e => simpa [h] using (he e h).1
    | ok p => simpa [h] using (hok p.1 p.2 h).1
  · exact ⟨hr, fun _ => List.mem_cons_of_mem _, fun hcrash => nomatch hcrash⟩
  · cases h : g s with
    | error e => simpa [h] using (he e h).2
    | ok p => simpa [h] using (hok p.1 p.2 h).2

theorem Spec.attempt {Q : Except ε α → σ → Prop}
    (h : Spec x s (fun a t => Q (.ok a) t)
      (fun e t => match e with | .failed e => Q (.error e) t | .crashed => E .crashed t)) :
    Spec (attempt x) s Q E := by
  intro fates
  have hx := h fates
  unfold Prog.attempt
  cases hr : x ⟨s, fates⟩ with
  | ok a w =>
    rw [hr] at hx
    exact hx
  | error e w =>
    rw [hr] at hx
    cases e with
    | failed e => exact ⟨hx.1, hx.2.1⟩
    | crashed => exact hx

theorem Spec.focus {get : σ → Option τ} {set : τ → σ → σ} {missing : ε} {y : Prog τ ε α}
    (hn : get s = none → E (.failed missing) s)
    (hs : ∀ t, get s = some t → Spec y t (fun a t' => Q a (set t' s)) (fun e t' => E e (set t' s))) :
    Spec (focus get set missing y) s Q E := by
  intro fates
  unfold Prog.focus
  cases hg : get s with
  | none => simpa [hg] using hn hg
  | some t =>
    have h := hs t hg fates
    cases hr : y ⟨t, fates⟩ with
    | ok a w => simpa [hg, hr] using h
    | error e w => simpa [hg, hr] using h

theorem Spec.forM {f : β → Prog σ ε PUnit} {I : List β → σ → Prop} {l : List β}
    (hf : ∀ b l' t, I (b :: l') t → Spec (f b) t (fun _ => I l') E) (hi : I l s) :
    Spec (l.forM f) s (fun _ => I []) E := by
  induction l generalizing s with
  | nil => simpa using hi
  | cons b l ih => exact Spec.bind (hf b l s hi) fun _ t ht => ih ht

def Completes (x : Prog σ ε α) (s : σ) (a : α) (t : σ) : Prop := x ⟨s, []⟩ = .ok a ⟨t, []⟩

variable {a : α} {b : β} {t : σ}

theorem Completes.settle {γ : Type} {ok : α → σ → γ} {stop : Halt ε → σ → γ} (h : Completes x s a t) :
    x.settle s [] ok stop = ok a t := by
  rw [Prog.settle, h]

theorem Completes.bind {t' : σ} (hx : Completes x s a t) (hf : Completes (f a) t b t') : Completes (x >>= f) s b t' := by
  change EStateM.bind x f ⟨s, []⟩ = _
  unfold EStateM.bind
  rw [hx]
  exact hf

theorem completes_pure (a : α) (s : σ) : Completes (pure a : Prog σ ε α) s a s := rfl

theorem completes_update (g : σ → σ) (s : σ) : Completes (update g : Prog σ ε Unit) s () (g s) := rfl

theorem completes_read_bind {f : σ → Prog σ ε β} : Completes (read >>= f) s b t ↔ Completes (f s) s b t := Iff.rfl

theorem completes_failIf {c : Prop} [Decidable c] {e : ε} (h : ¬c) : Completes (failIf c e : Prog σ ε Unit) s () s := by
  rw [failIf, if_neg h]
  exact completes_pure () s

theorem completes_ofExcept {r : Except ε α} (h : r = .ok a) : Completes (ofExcept r : Prog σ ε α) s a s := by
  rw [h]
  exact completes_pure a s

theorem completes_write {refusal : ε} {g : σ → Except ε (α × σ)} (h : g s = .ok (a, t)) :
    Completes (write refusal g) s a t := by
  unfold Completes write
  simp [h]

def Returns (x : Prog σ ε α) (s : σ) (Q : α → σ → Prop) : Prop := ∃ a t, Completes x s a t ∧ Q a t

theorem Returns.mono {Q' : α → σ → Prop} (h : Returns x s Q) (hQ : ∀ a t, Q a t → Q' a t) : Returns x s Q' := by
  obtain ⟨a, t, hx, hq⟩ := h
  exact ⟨a, t, hx, hQ a t hq⟩

theorem Returns.bind (hx : Returns x s Q) (hf : ∀ a t, Q a t → Returns (f a) t R) : Returns (x >>= f) s R := by
  obtain ⟨a, t, hx, hq⟩ := hx
  obtain ⟨b, t', hf, hr⟩ := hf a t hq
  exact ⟨b, t', hx.bind hf, hr⟩

theorem Returns.and_spec {Q' : α → σ → Prop} (h : Returns x s Q) (hx : Spec x s Q' E) : Returns x s fun a t => Q a t ∧ Q' a t := by
  obtain ⟨a, t, hrun, hq⟩ := h
  have hspec := hx []
  rw [hrun] at hspec
  exact ⟨a, t, hrun, hq, hspec.1⟩

theorem Spec.returns (h : Spec x s Q E) (hE : ∀ e t, ¬E (.failed e) t) : Returns x s Q := by
  have hx := h []
  cases hr : x ⟨s, []⟩ with
  | ok a w =>
    rw [hr] at hx
    obtain ⟨t, fates⟩ := w
    cases List.eq_nil_of_subset_nil hx.2
    exact ⟨a, t, hr, hx.1⟩
  | error e w =>
    rw [hr] at hx
    cases e with
    | failed e => exact absurd hx.1 (hE e w.state)
    | crashed => exact absurd (hx.2.2 rfl) List.not_mem_nil

theorem Returns.settle {γ : Type} {ok : α → σ → γ} {stop : Halt ε → σ → γ} {P : γ → Prop} (h : Returns x s Q)
    (hok : ∀ a t, Q a t → P (ok a t)) : P (x.settle s [] ok stop) := by
  obtain ⟨a, t, hrun, hq⟩ := h
  rw [hrun.settle]
  exact hok a t hq

theorem returns_pure (ha : Q a s) : Returns (pure a : Prog σ ε α) s Q := ⟨a, s, completes_pure a s, ha⟩

theorem returns_read_bind {f : σ → Prog σ ε β} : Returns (read >>= f) s R ↔ Returns (f s) s R := Iff.rfl

theorem returns_update_bind {g : σ → σ} {f : Unit → Prog σ ε β} : Returns (update g >>= f) s R ↔ Returns (f ()) (g s) R := Iff.rfl

theorem returns_update {g : σ → σ} {Q : Unit → σ → Prop} (h : Q () (g s)) : Returns (update g : Prog σ ε Unit) s Q :=
  ⟨(), g s, completes_update g s, h⟩

theorem returns_attempt_write {refusal : ε} {g : σ → Except ε (α × σ)} {Q : Except ε α → σ → Prop}
    (herror : ∀ e, g s = .error e → Q (.error e) s) (hok : ∀ a t, g s = .ok (a, t) → Q (.ok a) t) :
    Returns (attempt (write refusal g)) s Q := by
  cases h : g s with
  | error e =>
    refine ⟨.error e, s, ?_, herror e h⟩
    unfold Completes attempt write
    simp [h]
  | ok r =>
    refine ⟨.ok r.1, r.2, ?_, hok r.1 r.2 h⟩
    unfold Completes attempt write
    simp [h]

end Prog

end Crash
