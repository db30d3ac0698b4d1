import Pui.Guard
import Pui.Table

/-!
# Statements on tables

The statements that a transaction runs against its tables, each of which may fail.
-/

namespace Table

open Guard List

variable {κ ρ ε : Type} [DecidableEq κ]

def create (taken : ε) (t : Table κ ρ) (k : κ) (r : ρ) : Except ε (Table κ ρ) :=
  if (t.get? k).isSome then .error taken else .ok (t.put k r)

@[simp] theorem create_eq_ok {taken : ε} {t u : Table κ ρ} {k : κ} {r : ρ} :
    t.create taken k r = .ok u ↔ t.get? k = none ∧ t.put k r = u := by
  unfold create
  cases h : t.get? k with
  | none => simp
  | some old => simp

def createEach (taken : ε) (r : ρ) : List κ → Table κ ρ → Except ε (Table κ ρ)
  | [], t => .ok t
  | k :: ks, t => do
    let t ← t.create taken k r
    createEach taken r ks t

theorem get?_createEach {taken : ε} {r : ρ} {ks : List κ} {t u : Table κ ρ} (h : createEach taken r ks t = .ok u) (k : κ) :
    u.get? k = if k ∈ ks then some r else t.get? k := by
  induction ks generalizing t with
  | nil =>
    cases h
    simp
  | cons k' ks ih =>
    simp only [createEach, bind_eq_ok, create_eq_ok] at h
    obtain ⟨t', ⟨-, rfl⟩, h⟩ := h
    rw [ih h, get?_put]
    by_cases hk : k ∈ ks
    · simp [hk]
    · simp [hk]

theorem total_createEach {M : Type} [AddCommMonoid M] {taken : ε} {r : ρ} {ks : List κ} {t u : Table κ ρ}
    (h : createEach taken r ks t = .ok u) (f : κ → ρ → M) :
    u.total f = t.total f + (ks.map fun k => f k r).sum := by
  induction ks generalizing t with
  | nil =>
    cases h
    simp
  | cons k ks ih =>
    simp only [createEach, bind_eq_ok, create_eq_ok] at h
    obtain ⟨t', ⟨hk, rfl⟩, h⟩ := h
    rw [ih h, total_put_of_none hk, map_cons, sum_cons, add_assoc]

/-- Replace the row under each of a list of keys by what `f` makes of it. -/
def updateEach (missing : ε) (f : κ → ρ → Except ε ρ) : List κ → Table κ ρ → Except ε (Table κ ρ)
  | [], t => .ok t
  | k :: ks, t => do
    let r ← found (t.get? k) missing
    let r ← f k r
    updateEach missing f ks (t.put k r)

section

variable {missing : ε} {f : κ → ρ → Except ε ρ} {ks : List κ} {t u : Table κ ρ}

theorem raises_updateEach {P : ε → Prop} (hmissing : P missing) (hf : ∀ k r, Raises P (f k r)) (ks : List κ) (t : Table κ ρ) :
    Raises P (t.updateEach missing f ks) := by
  induction ks generalizing t with
  | nil => exact raises_ok _
  | cons k ks ih => exact (raises_found hmissing).bind fun r _ => (hf k r).bind fun _ _ => ih _

theorem get?_updateEach_of_notMem (h : updateEach missing f ks t = .ok u) {k : κ} (hk : k ∉ ks) :
    u.get? k = t.get? k := by
  induction ks generalizing t with
  | nil =>
    cases h
    rfl
  | cons k' ks ih =>
    simp only [updateEach, bind_eq_ok, found_eq_ok] at h
    obtain ⟨r, -, r', -, h⟩ := h
    obtain ⟨hne, hk⟩ := ne_and_not_mem_of_not_mem_cons hk
    rw [ih h hk, get?_put_of_ne hne]

theorem get?_updateEach_of_mem (hks : ks.Nodup) (h : updateEach missing f ks t = .ok u) {k : κ} (hk : k ∈ ks) :
    ∃ r r', t.get? k = some r ∧ f k r = .ok r' ∧ u.get? k = some r' := by
  induction ks generalizing t with
  | nil => exact absurd hk not_mem_nil
  | cons k' ks ih =>
    simp only [updateEach, bind_eq_ok, found_eq_ok] at h
    obtain ⟨r, hr, r', hf, h⟩ := h
    obtain ⟨hk', hks⟩ := nodup_cons.mp hks
    rcases mem_cons.mp hk with rfl | hk
    · exact ⟨r, r', hr, hf, by rw [get?_updateEach_of_notMem h hk', get?_put_self]⟩
    · obtain ⟨s, s', hs, hfs, hu⟩ := ih hks h hk
      have hne : k ≠ k' := fun he => hk' (he ▸ hk)
      exact ⟨s, s', by rwa [get?_put_of_ne hne] at hs, hfs, hu⟩

theorem before_updateEach (hks : ks.Nodup) (h : updateEach missing f ks t = .ok u) {k : κ} {r' : ρ} (hr' : u.get? k = some r') :
    ∃ r, t.get? k = some r ∧ ((k ∈ ks ∧ f k r = .ok r') ∨ (k ∉ ks ∧ r' = r)) := by
  by_cases hk : k ∈ ks
  · obtain ⟨r, s, hr, hf, hs⟩ := get?_updateEach_of_mem hks h hk
    obtain rfl : s = r' := Option.some.inj (hs.symm.trans hr')
    exact ⟨r, hr, .inl ⟨hk, hf⟩⟩
  · exact ⟨r', by rw [← get?_updateEach_of_notMem h hk, hr'], .inr ⟨hk, rfl⟩⟩

theorem after_updateEach (hks : ks.Nodup) (h : updateEach missing f ks t = .ok u) {k : κ} {r : ρ} (hr : t.get? k = some r) :
    ∃ r', u.get? k = some r' ∧ ((k ∈ ks ∧ f k r = .ok r') ∨ (k ∉ ks ∧ r' = r)) := by
  by_cases hk : k ∈ ks
  · obtain ⟨s, r', hs, hf, hr'⟩ := get?_updateEach_of_mem hks h hk
    obtain rfl : s = r := Option.some.inj (hs.symm.trans hr)
    exact ⟨r', hr', .inl ⟨hk, hf⟩⟩
  · exact ⟨r, by rw [get?_updateEach_of_notMem h hk, hr], .inr ⟨hk, rfl⟩⟩

end

section Seconds

variable {α β : Type} [DecidableEq α]

def seconds (t : Table (α × β) ρ) (a : α) : List β :=
  t.entries.filterMap fun e => if e.1.1 = a then some e.1.2 else none

theorem mem_seconds [DecidableEq β] {t : Table (α × β) ρ} {a : α} {b : β} : b ∈ t.seconds a ↔ ∃ r, t.get? (a, b) = some r := by
  simp only [seconds, mem_filterMap, Option.ite_none_right_eq_some, Option.some.injEq]
  constructor
  · rintro ⟨⟨⟨a', b'⟩, r⟩, he, rfl, rfl⟩
    exact ⟨r, mem_entries.mp he⟩
  · rintro ⟨r, hr⟩
    exact ⟨⟨(a, b), r⟩, mem_entries.mpr hr, rfl, rfl⟩

theorem nodup_seconds (t : Table (α × β) ρ) (a : α) : (t.seconds a).Nodup := by
  have hkeys : (t.entries.map Sigma.fst).Nodup := t.nodupKeys
  unfold seconds
  generalize t.entries = es at hkeys ⊢
  induction es with
  | nil => exact nodup_nil
  | cons e es ih =>
    obtain ⟨hnot, hes⟩ := nodup_cons.mp hkeys
    rw [filterMap_cons]
    by_cases ha : e.1.1 = a
    · simp only [ha, if_true]
      refine nodup_cons.mpr ⟨fun hm => ?_, ih hes⟩
      simp only [mem_filterMap, Option.ite_none_right_eq_some, Option.some.injEq] at hm
      obtain ⟨e', he', ha', hb'⟩ := hm
      have heq : e'.1 = e.1 := Prod.ext (by rw [ha', ha]) hb'
      exact hnot (mem_map.mpr ⟨e', he', heq⟩)
    · simp only [ha, if_false]
      exact ih hes

end Seconds

end Table
