import Pui.Backing
import Pui.Run

/-!
# A grant through all its processes

The stored row of one grant, the memory of its process, and the bytes that all processes admitted together.
-/

namespace Pui

open Crash Crash.Prog Option

structure Lifetime where
  record : Record
  memory : Option Memory
  admitted : Nat

namespace Lifetime

variable {s : Lifetime}

/-- A grant whose row was just written, with nothing admitted. -/
def fresh (g : Grant) : Lifetime := ⟨.fresh g, none, 0⟩

inductive Action where
  | take (dir : Direction) (requested : Int) (upTo : Bool) (turn : Turn) (fates : List Fate)
  | apply (p : Policy) (fates : List Fate)
  | applyCredit (now : Option Int) (term : String) (policyRevision creditRevision ceiling : Nat) (fates : List Fate)
  | applyAuthority (now : Option Int) (desired : Policy) (fates : List Fate)
  | quarantine
  | suspend
  | crash
  | reopen

def run (s : Lifetime) (fates : List Fate) (x : Prog Cell NodeError Nat) : Lifetime :=
  match s.memory with
  | none => s
  | some m =>
    x.settle ⟨some s.record, m⟩ fates
      (fun n c => ⟨c.record.getD s.record, some c.memory, s.admitted + n⟩)
      (fun h c => ⟨c.record.getD s.record, if h = .crashed then none else some c.memory, s.admitted⟩)

def step (s : Lifetime) : Action → Lifetime
  | .take dir requested upTo turn fates => s.run fates ((·.getD 0) <$> Cell.take dir requested upTo turn)
  | .apply p fates => s.run fates ((fun _ => 0) <$> Cell.apply p)
  | .applyCredit now term policyRevision creditRevision ceiling fates =>
    s.run fates ((fun _ => 0) <$> Cell.applyCredit now term policyRevision creditRevision ceiling)
  | .applyAuthority now desired fates => s.run fates ((fun _ => 0) <$> Cell.applyAuthority now desired)
  | .quarantine => s.run [] ((fun _ => 0) <$> Cell.quarantine)
  | .suspend => { s with record := { s.record with suspended := true } }
  | .crash => { s with memory := none }
  | .reopen =>
    match s.memory with
    | some _ => s
    | none =>
      match s.record.grant.validate, s.record.restore with
      | .ok _, .ok m => { s with memory := some m }
      | _, _ => s

def after (s : Lifetime) (actions : List Action) : Lifetime := Run.after step s actions

/-- What was admitted is reserved, and memory agrees with the row. -/
structure Sound (s : Lifetime) : Prop where
  admitted : s.admitted ≤ s.record.reserved
  memory : ∀ m, s.memory = some m → Cell.Sound s.admitted s.record ⟨some s.record, m⟩

theorem sound_fresh (g : Grant) : (fresh g).Sound := ⟨le_rfl, fun _ h => nomatch h⟩

def Follows (s t : Lifetime) : Prop := t.Sound ∧ s.record.Grows t.record

theorem Sound.of_cell {n : Nat} {r : Record} {c : Cell} (h : Cell.Sound n r c) : Sound ⟨r, some c.memory, n⟩ := by
  refine ⟨h.admitted.trans h.spent, ?_⟩
  rintro _ ⟨⟩
  exact ⟨rfl, h.policy, h.reserved, h.admitted, h.spent⟩

theorem run_follows (hs : s.Sound) {fates : List Fate} {x : Prog Cell NodeError Nat}
    (hx : ∀ c, Cell.Sound s.admitted s.record c →
      Spec x c (fun n c' => ∃ r, Cell.Sound (s.admitted + n) r c' ∧ s.record.Grows r)
        (Cell.Stops s.admitted s.record)) :
    s.Follows (s.run fates x) := by
  unfold run
  cases hm : s.memory with
  | none => exact ⟨hs, .of_eq rfl⟩
  | some m =>
    refine (hx _ (hs.memory m hm)).settle ?_ ?_ fates
    · rintro n c ⟨r, hc, hg⟩
      simp only [hc.record, getD_some]
      exact ⟨.of_cell hc, hg⟩
    · rintro (e | -) c hc
      · obtain ⟨r, hc, hg⟩ := hc
        simp only [hc.record, getD_some, reduceCtorEq, if_false]
        exact ⟨.of_cell hc, hg⟩
      · obtain ⟨r, hc, hn, hg⟩ := hc
        simp only [hc, getD_some, if_true]
        exact ⟨⟨hn, fun _ h => nomatch h⟩, hg⟩

theorem change_follows (hs : s.Sound) {fates : List Fate} {x : Prog Cell NodeError Unit}
    (hx : ∀ c, Cell.Sound s.admitted s.record c →
      Spec x c (fun _ c' => ∃ r, Cell.Sound s.admitted r c' ∧ s.record.Grows r) (Cell.Stops s.admitted s.record)) :
    s.Follows (s.run fates ((fun _ => 0) <$> x)) := by
  refine run_follows hs fun c hc => ?_
  rw [map_eq_pure_bind]
  exact Spec.bind (hx c hc) fun _ t ht => (spec_pure _).mpr ht

theorem restore_sound (hs : s.Sound) {m : Memory} (hm : s.record.restore = .ok m) :
    Cell.Sound s.admitted s.record ⟨some s.record, m⟩ := by
  obtain ⟨hr, hp, -, hs'⟩ := Record.restore_eq_ok hm
  exact ⟨rfl, hp, hr, hs' ▸ hs.admitted, hs'.le⟩

theorem step_follows (hs : s.Sound) (a : Action) : s.Follows (s.step a) := by
  cases a with
  | take dir requested upTo turn fates =>
    refine run_follows hs fun c hc => ?_
    rw [map_eq_pure_bind]
    exact Spec.bind (Cell.take_sound hc dir requested upTo turn) fun o t ht => (spec_pure _).mpr ht
  | apply p fates => exact change_follows hs fun c hc => (Cell.apply_changes hc.record p).sound hc
  | applyCredit now term policyRevision creditRevision ceiling fates =>
    exact change_follows hs fun c hc => (Cell.applyCredit_changes hc.record _ _ _ _ _).sound hc
  | applyAuthority now desired fates =>
    exact change_follows hs fun c hc => (Cell.applyAuthority_changes hc.record now desired).sound hc
  | quarantine =>
    refine change_follows (x := Cell.quarantine) hs fun c hc => (spec_update _).mpr ⟨s.record, ?_, .of_eq rfl⟩
    exact ⟨hc.record, hc.policy, hc.reserved, hc.admitted, hc.spent⟩
  | suspend =>
    refine ⟨⟨hs.admitted, fun m hm => ?_⟩, .of_eq rfl⟩
    have hc := hs.memory m hm
    exact ⟨rfl, hc.policy, hc.reserved, hc.admitted, hc.spent⟩
  | crash => exact ⟨⟨hs.admitted, fun _ h => nomatch h⟩, .of_eq rfl⟩
  | reopen =>
    simp only [step]
    split
    · exact ⟨hs, .of_eq rfl⟩
    · split
      · next m _ hm =>
        refine ⟨⟨hs.admitted, ?_⟩, .of_eq rfl⟩
        rintro _ ⟨⟩
        exact restore_sound hs hm
      · exact ⟨hs, .of_eq rfl⟩

theorem sound_after (g : Grant) (actions : List Action) : ((fresh g).after actions).Sound :=
  Run.inv_after (I := Sound) (fun _ a hs => (step_follows hs a).1) (sound_fresh g) actions

theorem reserved_mono (hs : s.Sound) (actions : List Action) :
    s.record.reserved ≤ (s.after actions).record.reserved :=
  Run.rel_after (R := fun s t : Lifetime => s.record.reserved ≤ t.record.reserved) (fun _ => le_rfl)
    (fun _ _ _ => le_trans) (fun _ a hs => (step_follows hs a).1) (fun _ a hs => (step_follows hs a).2.1) hs actions

theorem reserved_le_ceiling (g : Grant) (actions : List Action)
    (h : ∀ before, before <+: actions → ((fresh g).after before).record.grant.policy.quotaUnlimited = false) :
    ∃ before, before <+: actions ∧
      ((fresh g).after actions).record.reserved ≤ ((fresh g).after before).record.grant.policy.creditCeiling := by
  induction actions using List.reverseRecOn with
  | nil => exact ⟨[], List.prefix_rfl, Nat.zero_le _⟩
  | append_singleton actions a ih =>
    have hpre : actions <+: actions ++ [a] := List.prefix_append _ _
    have hs : (fresh g).after (actions ++ [a]) = ((fresh g).after actions).step a := Run.after_concat _ _ _
    rw [hs]
    rcases (step_follows (sound_after g actions) a).2.2 with heq | hun | hle
    · obtain ⟨before, hb, hle⟩ := ih fun before hb => h before (hb.trans hpre)
      exact ⟨before, hb.trans hpre, heq ▸ hle⟩
    · exact absurd hun (by simp [h actions hpre])
    · exact ⟨actions, hpre, hle⟩

/-- The processes of a grant together never admit more than its row has reserved, the reservation never goes back,
and while the stored quota was never unlimited it stays within some ceiling that was stored on the way. -/
theorem admitted_le_reserved (g : Grant) (actions later : List Action) :
    ((fresh g).after actions).admitted ≤ ((fresh g).after actions).record.reserved ∧
      ((fresh g).after actions).record.reserved ≤ ((fresh g).after (actions ++ later)).record.reserved ∧
      ((∀ before, before <+: actions → ((fresh g).after before).record.grant.policy.quotaUnlimited = false) →
        ∃ before, before <+: actions ∧
          ((fresh g).after actions).record.reserved ≤
            ((fresh g).after before).record.grant.policy.creditCeiling) := by
  refine ⟨(sound_after g actions).admitted, ?_, reserved_le_ceiling g actions⟩
  have h := reserved_mono (sound_after g actions) later
  unfold after at h ⊢
  rwa [Run.after_append]

end Lifetime

end Pui
