import Mathlib.Algebra.BigOperators.Group.List.Basic
import Mathlib.Algebra.Order.BigOperators.Group.List
import Mathlib.Data.List.AList
import Mathlib.Tactic.Abel

/-!
# Tables

A database table, a bucket of a key-value file or an in-memory map: finitely many rows under distinct keys.
-/

abbrev Table (κ ρ : Type) : Type := AList (fun _ : κ => ρ)

namespace Table

open List Option

variable {κ ρ : Type} [DecidableEq κ]

def get? (t : Table κ ρ) (k : κ) : Option ρ := t.lookup k

def put (t : Table κ ρ) (k : κ) (r : ρ) : Table κ ρ := t.insert k r

def drop (t : Table κ ρ) (k : κ) : Table κ ρ := AList.erase k t

@[simp] theorem get?_empty (k : κ) : get? (∅ : Table κ ρ) k = none := AList.lookup_empty k

theorem get?_put (t : Table κ ρ) (k k' : κ) (r : ρ) :
    (t.put k r).get? k' = if k' = k then some r else t.get? k' := by
  unfold get? put
  by_cases h : k' = k
  · subst h; simp
  · simp [h]

theorem get?_drop (t : Table κ ρ) (k k' : κ) :
    (t.drop k).get? k' = if k' = k then none else t.get? k' := by
  unfold get? drop
  by_cases h : k' = k
  · subst h; simp
  · simp [h]

@[simp] theorem get?_put_self (t : Table κ ρ) (k : κ) (r : ρ) : (t.put k r).get? k = some r := by
  simp [get?_put]

@[simp] theorem get?_put_of_ne {k k' : κ} (h : k' ≠ k) (t : Table κ ρ) (r : ρ) :
    (t.put k r).get? k' = t.get? k' := by
  simp [get?_put, h]

theorem get?_drop_self (t : Table κ ρ) (k : κ) : (t.drop k).get? k = none := by
  simp [get?_drop]

theorem get?_drop_of_ne {k k' : κ} (h : k' ≠ k) (t : Table κ ρ) : (t.drop k).get? k' = t.get? k' := by
  simp [get?_drop, h]

theorem get?_put_eq_some {t : Table κ ρ} {k k' : κ} {r r' : ρ} :
    (t.put k r).get? k' = some r' ↔ k' = k ∧ r' = r ∨ k' ≠ k ∧ t.get? k' = some r' := by
  rw [get?_put]
  by_cases hk : k' = k
  · simp [hk, eq_comm]
  · simp [hk]

theorem get?_drop_eq_some {t : Table κ ρ} {k k' : κ} {r : ρ} :
    (t.drop k).get? k' = some r ↔ k' ≠ k ∧ t.get? k' = some r := by
  rw [get?_drop]
  split <;> simp [*]

theorem forall_put {t : Table κ ρ} {k : κ} {r : ρ} {P : κ → ρ → Prop} (hrow : P k r)
    (h : ∀ k r, t.get? k = some r → P k r) : ∀ k' r', (t.put k r).get? k' = some r' → P k' r' := by
  intro k' r' hget
  rcases get?_put_eq_some.mp hget with ⟨rfl, rfl⟩ | ⟨-, hget⟩
  · exact hrow
  · exact h k' r' hget

theorem forall_drop {t : Table κ ρ} {P : κ → ρ → Prop} (h : ∀ k r, t.get? k = some r → P k r) (k : κ) :
    ∀ k' r, (t.drop k).get? k' = some r → P k' r :=
  fun k' r hget => h k' r (get?_drop_eq_some.mp hget).2

theorem put_put (t : Table κ ρ) (k : κ) (r r' : ρ) : (t.put k r).put k r' = t.put k r' := AList.insert_insert t

theorem get?_foldl_put {α : Type} (key : α → κ) (row : α → ρ) {l : List α} {t : Table κ ρ} {k : κ} {r : ρ}
    (h : get? (l.foldl (fun t a => put t (key a) (row a)) t) k = some r) :
    get? t k = some r ∨ ∃ a ∈ l, key a = k ∧ row a = r := by
  induction l generalizing t with
  | nil => exact .inl h
  | cons a l ih =>
    rcases ih h with hput | ⟨b, hb, hk⟩
    · rcases get?_put_eq_some.mp hput with ⟨rfl, rfl⟩ | ⟨-, hput⟩
      · exact .inr ⟨a, mem_cons_self, rfl, rfl⟩
      · exact .inl hput
    · exact .inr ⟨b, mem_cons_of_mem a hb, hk⟩

theorem get?_foldl_put_of_nodup {α : Type} (key : α → κ) (row : α → ρ) {l : List α} (hl : (l.map key).Nodup)
    (t : Table κ ρ) (k : κ) :
    get? (l.foldl (fun t a => put t (key a) (row a)) t) k = ((l.find? fun a => key a = k).map row).or (get? t k) := by
  induction l generalizing t with
  | nil => rfl
  | cons a l ih =>
    rw [map_cons, nodup_cons] at hl
    rw [foldl_cons, ih hl.2, get?_put, List.find?_cons]
    by_cases hk : key a = k
    · have hnone : (l.find? fun b => key b = k) = none :=
        List.find?_eq_none.mpr fun b hb he => hl.1 (hk ▸ of_decide_eq_true he ▸ mem_map_of_mem hb)
      simp [hnone, hk]
    · have hk' : k ≠ key a := fun he => hk he.symm
      simp [hk, hk']

theorem get?_foldl_alter {α : Type} (key : α → κ) (change : α → Option ρ → ρ) (l : List α) (t : Table κ ρ) (k : κ) :
    get? (l.foldl (fun t a => put t (key a) (change a (get? t (key a)))) t) k =
      (l.filter fun a => key a = k).foldl (fun row a => some (change a row)) (get? t k) := by
  induction l generalizing t with
  | nil => rfl
  | cons a l ih =>
    rw [foldl_cons, ih]
    by_cases hk : key a = k
    · subst hk
      simp
    · rw [get?_put_of_ne (Ne.symm hk), filter_cons_of_neg (by simpa using hk)]

def mapRows {σ : Type} (f : κ → ρ → σ) (t : Table κ ρ) : Table κ σ where
  entries := t.entries.map fun e => ⟨e.1, f e.1 e.2⟩
  nodupKeys := by
    have h : (t.entries.map fun e => (⟨e.1, f e.1 e.2⟩ : Sigma fun _ : κ => σ)).keys = t.entries.keys := by
      simp [List.keys, Function.comp_def]
    rw [List.NodupKeys, h]
    exact t.nodupKeys

def keep (p : κ → ρ → Bool) (t : Table κ ρ) : Table κ ρ where
  entries := t.entries.filter fun e => p e.1 e.2
  nodupKeys := t.nodupKeys.sublist filter_sublist

theorem mem_entries {t : Table κ ρ} {k : κ} {r : ρ} : ⟨k, r⟩ ∈ t.entries ↔ t.get? k = some r :=
  AList.mem_lookup_iff.symm

theorem mem_keys_iff {t : Table κ ρ} {k : κ} : k ∈ t.keys ↔ (t.get? k).isSome := by
  rw [← AList.mem_keys, ← AList.lookup_isSome]
  rfl

theorem get?_mapRows {σ : Type} (f : κ → ρ → σ) (t : Table κ ρ) (k : κ) : (t.mapRows f).get? k = (t.get? k).map (f k) := by
  apply Option.ext
  intro r
  rw [← mem_entries, Option.map_eq_some_iff]
  simp only [mapRows, List.mem_map, Sigma.mk.injEq, heq_eq_eq]
  constructor
  · rintro ⟨⟨k', r'⟩, hm, rfl, rfl⟩
    exact ⟨r', mem_entries.mp hm, rfl⟩
  · rintro ⟨r', hm, rfl⟩
    exact ⟨⟨k, r'⟩, mem_entries.mpr hm, rfl, rfl⟩

theorem get?_keep (p : κ → ρ → Bool) (t : Table κ ρ) (k : κ) : (t.keep p).get? k = (t.get? k).filter (p k) := by
  apply Option.ext
  intro r
  rw [← mem_entries, filter_eq_some_iff, ← mem_entries]
  simp [keep]

def overlay (t u : Table κ ρ) : Table κ ρ := u ∪ t

theorem get?_overlay (t u : Table κ ρ) (k : κ) : (t.overlay u).get? k = (u.get? k).or (t.get? k) := by
  unfold overlay get?
  by_cases hk : k ∈ u
  · rw [AList.lookup_union_left hk]
    obtain ⟨r, hr⟩ := isSome_iff_exists.mp (AList.lookup_isSome.mpr hk)
    simp [hr]
  · rw [AList.lookup_union_right hk, AList.lookup_eq_none.mpr hk]
    rfl

theorem perm_of_get?_eq {t u : Table κ ρ} (h : ∀ k, t.get? k = u.get? k) : t.entries.Perm u.entries := by
  refine (perm_ext_iff_of_nodup t.nodupKeys.nodup u.nodupKeys.nodup).mpr ?_
  rintro ⟨k, r⟩
  rw [mem_entries, mem_entries, h k]

theorem perm_entries_put (t : Table κ ρ) (k : κ) (r : ρ) :
    (t.put k r).entries.Perm (⟨k, r⟩ :: t.entries.filter fun e => e.1 ≠ k) := by
  have hdrop : (t.drop k).entries.Perm (t.keep fun k' _ => k' ≠ k).entries := by
    refine perm_of_get?_eq fun k' => ?_
    rw [get?_drop, get?_keep]
    by_cases hk : k' = k
    · simp [hk]
    · rw [if_neg hk]
      cases t.get? k' <;> simp [hk, Option.filter]
  exact hdrop.cons ⟨k, r⟩

section Total

variable {M : Type} [AddCommMonoid M]

def total (t : Table κ ρ) (f : κ → ρ → M) : M := (t.entries.map fun e => f e.1 e.2).sum

theorem total_put (t : Table κ ρ) (k : κ) (r : ρ) (f : κ → ρ → M) :
    (t.put k r).total f = f k r + (t.drop k).total f := by
  rw [total, total, put, AList.entries_insert, map_cons, sum_cons]
  rfl

theorem total_eq_add_drop (t : Table κ ρ) (k : κ) (f : κ → ρ → M) :
    t.total f = (t.get? k).elim 0 (f k) + (t.drop k).total f := by
  cases h : t.get? k with
  | none =>
    have hk : k ∉ t.keys := by
      rw [← AList.mem_keys, ← AList.lookup_eq_none]
      exact h
    have he : (t.drop k).entries = t.entries := kerase_of_notMem_keys hk
    simp [total, he]
  | some r =>
    have hp : (t.put k r).entries.Perm t.entries := by
      refine perm_of_get?_eq fun k' => ?_
      rw [get?_put]
      split
      · next hk => rw [hk, h]
      · rfl
    rw [show t.total f = (t.put k r).total f from (hp.map _).sum_eq.symm, total_put]
    rfl

theorem total_congr {t : Table κ ρ} {f g : κ → ρ → M} (h : ∀ k r, t.get? k = some r → f k r = g k r) :
    t.total f = t.total g := by
  unfold total
  congr 1
  refine map_congr_left ?_
  rintro ⟨k, r⟩ he
  exact h k r (mem_entries.mp he)

theorem total_eq_zero {t : Table κ ρ} {f : κ → ρ → M} (h : ∀ k r, t.get? k = some r → f k r = 0) : t.total f = 0 := by
  rw [total_congr h]
  simp [total]

theorem total_change (t : Table κ ρ) (k : κ) {f g : κ → ρ → M} (h : ∀ k' r, k' ≠ k → f k' r = g k' r) :
    t.total g + (t.get? k).elim 0 (f k) = t.total f + (t.get? k).elim 0 (g k) := by
  have hd : (t.drop k).total f = (t.drop k).total g := by
    refine total_congr fun k' r hr => h k' r ?_
    rintro rfl
    simp [get?_drop] at hr
  rw [total_eq_add_drop t k f, total_eq_add_drop t k g, hd]
  abel

theorem total_put_of_get? {t : Table κ ρ} {k : κ} {old : ρ} (h : t.get? k = some old) (r : ρ) (f : κ → ρ → M) :
    (t.put k r).total f + f k old = t.total f + f k r := by
  rw [total_put, total_eq_add_drop t k, h, elim_some]
  abel

theorem total_put_add (t : Table κ ρ) (k : κ) (r : ρ) (f : κ → ρ → M) :
    (t.put k r).total f + (t.get? k).elim 0 (f k) = t.total f + f k r := by
  rw [total_put, total_eq_add_drop t k]
  abel

theorem total_put_of_none {t : Table κ ρ} {k : κ} (h : t.get? k = none) (r : ρ) (f : κ → ρ → M) :
    (t.put k r).total f = t.total f + f k r := by
  rw [total_put, total_eq_add_drop t k, h, elim_none, zero_add, add_comm]

theorem total_put_of_add {N : Type} [AddCancelCommMonoid N] {t : Table κ ρ} {k : κ} {r : ρ} {f : κ → ρ → N} {x : N}
    (h : f k r = (t.get? k).elim 0 (f k) + x) : (t.put k r).total f = t.total f + x := by
  have hput := t.total_put_add k r f
  rw [h, add_comm _ x, ← add_assoc] at hput
  exact add_right_cancel hput

theorem total_eq_of_get?_eq {t u : Table κ ρ} (h : ∀ k, t.get? k = u.get? k) (f : κ → ρ → M) : t.total f = u.total f :=
  ((perm_of_get?_eq h).map _).sum_eq

theorem get?_overlay_put (t u : Table κ ρ) (k k' : κ) (r : ρ) :
    (t.overlay (u.put k r)).get? k' = ((t.overlay u).put k r).get? k' := by
  rw [get?_overlay, get?_put, get?_put, get?_overlay]
  split <;> rfl

theorem total_overlay_put {u : Table κ ρ} {k : κ} (hk : u.get? k = none) (t : Table κ ρ) (r : ρ) (f : κ → ρ → M) :
    (t.overlay (u.put k r)).total f + (t.get? k).elim 0 (f k) = (t.overlay u).total f + f k r := by
  rw [total_eq_of_get?_eq (get?_overlay_put t u k · r), ← total_put_add (t.overlay u) k r f, get?_overlay, hk,
    none_or]

theorem total_overlay (t u : Table κ ρ) (f : κ → ρ → M) :
    (t.overlay u).total f + u.total (fun k _ => (t.get? k).elim 0 (f k)) = t.total f + u.total f := by
  refine AList.insertRec (C := fun u : Table κ ρ =>
    (t.overlay u).total f + Table.total u (fun k _ => (t.get? k).elim 0 (f k)) = t.total f + Table.total u f) ?_ ?_ u
  · rw [total_eq_of_get?_eq (u := t) fun k => by rw [get?_overlay, get?_empty, none_or]]
    simp [total]
  · intro k r u hk ih
    have hnone : get? u k = none := AList.lookup_eq_none.mpr hk
    have hput := total_overlay_put hnone t r f
    show (t.overlay (put u k r)).total f + total (put u k r) _ = t.total f + total (put u k r) f
    rw [total_put_of_none hnone, total_put_of_none hnone, add_comm (total u _), ← add_assoc, hput, add_right_comm, ih,
      add_assoc]

omit [DecidableEq κ] in
theorem total_mapRows {σ : Type} (t : Table κ ρ) (g : κ → ρ → σ) (f : κ → σ → M) :
    (t.mapRows g).total f = t.total fun k r => f k (g k r) := by
  simp only [total, mapRows, List.map_map, Function.comp_def]

theorem total_get?_le {σ : Type} (u : Table κ σ) (t : Table κ ρ) (f : κ → ρ → Nat) :
    u.total (fun k _ => (t.get? k).elim 0 (f k)) ≤ t.total f := by
  refine AList.insertRec (C := fun u : Table κ σ =>
    ∀ t : Table κ ρ, Table.total u (fun k _ => (t.get? k).elim 0 (f k)) ≤ t.total f) ?_ ?_ u t
  · intro t
    simp [total]
  · intro k r u hk ih t
    have hnone : get? u k = none := AList.lookup_eq_none.mpr hk
    have hrest : total u (fun k' _ => (t.get? k').elim 0 (f k')) = total u fun k' _ => ((t.drop k).get? k').elim 0 (f k') := by
      refine total_congr fun k' r' hr' => ?_
      have hne : k' ≠ k := by
        rintro rfl
        rw [hnone] at hr'
        cases hr'
      rw [get?_drop, if_neg hne]
    show total (put u k r) _ ≤ _
    rw [total_put_of_none hnone, hrest, total_eq_add_drop t k, add_comm]
    exact Nat.add_le_add_left (ih (t.drop k)) _

theorem total_eq_of_embed {κ' σ : Type} [DecidableEq κ'] {e : κ → κ'} (he : Function.Injective e) (t : Table κ ρ) (u : Table κ' σ)
    {f : κ → ρ → M} {g : κ' → σ → M} (hrow : ∀ k r, t.get? k = some r → ∃ s, u.get? (e k) = some s ∧ g (e k) s = f k r)
    (hrest : ∀ k' s, u.get? k' = some s → (∀ k r, t.get? k = some r → e k ≠ k') → g k' s = 0) : t.total f = u.total g := by
  refine AList.insertRec (C := fun t : Table κ ρ => ∀ u : Table κ' σ,
    (∀ k r, get? t k = some r → ∃ s, u.get? (e k) = some s ∧ g (e k) s = f k r) →
    (∀ k' s, u.get? k' = some s → (∀ k r, get? t k = some r → e k ≠ k') → g k' s = 0) → Table.total t f = u.total g)
    ?_ ?_ t u hrow hrest
  · intro u _ hrest
    exact (total_eq_zero fun k' s hs => hrest k' s hs fun k r hr => by simp at hr).symm
  · intro k r t hk ih u hrow hrest
    have hnone : get? t k = none := AList.lookup_eq_none.mpr hk
    have hne : ∀ k₀ r₀, get? t k₀ = some r₀ → k₀ ≠ k := by
      rintro k₀ r₀ hr₀ rfl
      rw [hnone] at hr₀
      cases hr₀
    have hput : ∀ k₀ r₀, get? t k₀ = some r₀ → get? (put t k r) k₀ = some r₀ := by
      intro k₀ r₀ hr₀
      rw [get?_put_of_ne (hne k₀ r₀ hr₀), hr₀]
    obtain ⟨s, hs, hg⟩ := hrow k r (get?_put_self t k r)
    show total (put t k r) f = u.total g
    rw [total_put_of_none hnone, total_eq_add_drop u (e k), hs, elim_some, hg, add_comm, ih (u.drop (e k))]
    · intro k₀ r₀ hr₀
      rw [get?_drop, if_neg fun h => hne k₀ r₀ hr₀ (he h)]
      exact hrow k₀ r₀ (hput k₀ r₀ hr₀)
    · intro k' s' hs' hout
      obtain ⟨hk', hs'⟩ := get?_drop_eq_some.mp hs'
      exact hrest k' s' hs' (forall_put (Ne.symm hk') hout)

omit [DecidableEq κ] in
theorem total_add (t : Table κ ρ) (f g : κ → ρ → M) : (t.total fun k r => f k r + g k r) = t.total f + t.total g :=
  sum_map_add

omit [DecidableEq κ] in
theorem total_keep_add (t : Table κ ρ) (p : κ → ρ → Bool) (f : κ → ρ → M) :
    (t.keep p).total f + (t.keep fun k r => !p k r).total f = t.total f := by
  unfold total keep
  rw [← sum_append, ← map_append]
  exact ((filter_append_perm _ _).map _).sum_eq

theorem total_keep (t : Table κ ρ) (p : κ → ρ → Bool) (f : κ → ρ → M) :
    (t.keep p).total f = t.total fun k r => if p k r then f k r else 0 := by
  have hin : (t.keep p).total f = (t.keep p).total fun k r => if p k r then f k r else 0 := by
    refine total_congr fun k r hr => ?_
    rw [get?_keep, filter_eq_some_iff] at hr
    rw [if_pos hr.2]
  have hout : ((t.keep fun k r => !p k r).total fun k r => if p k r then f k r else 0) = 0 := by
    refine total_eq_zero fun k r hr => if_neg ?_
    rw [get?_keep, filter_eq_some_iff] at hr
    simpa using hr.2
  rw [← total_keep_add t p, hout, add_zero, hin]

theorem total_le_total {t : Table κ ρ} {f g : κ → ρ → Int} (h : ∀ k r, t.get? k = some r → f k r ≤ g k r) :
    t.total f ≤ t.total g := by
  refine sum_le_sum ?_
  rintro ⟨k, r⟩ he
  exact h k r (mem_entries.mp he)

end Total

end Table
