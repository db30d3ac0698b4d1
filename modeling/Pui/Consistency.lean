import Pui.Tracking

/-!
# The governor's database and memory agree

`Durable` speaks of the database alone, so it also holds of what a dead process leaves; `Consistent` adds the memory.
-/

namespace Pui

open Crash Crash.Prog Guard Option

def Record.live (r : Record) : Prop := r.grant.policy.enabled = true ∧ r.suspended = false

namespace Governor

variable {id : String} {c : Cell} {x : Prog Cell NodeError Unit}

structure Durable (law : String → Option Record → Prop) (db : Database) : Prop where
  journal : ∀ id, db.journalID = some id → validID id = true
  key : ∀ id r, db.grants.get? id = some r → r.grant.id = id
  valid : ∀ id r, db.grants.get? id = some r → r.grant.validate = .ok ()
  unique : ∀ id r id' r', db.grants.get? id = some r → db.grants.get? id' = some r' → r.live → r'.live →
    r.grant.clientID = r'.grant.clientID → id = id'
  lawful : ∀ id, law id (db.grants.get? id)

/-- An account has the policy of its row, and the two are as `J` says. -/
structure Agrees (J : String → Record → Memory → Prop) (id : String) (r : Record) (m : Memory) : Prop where
  policy : m.account.policy = r.grant.policy
  quarantined : m.account.quarantined = r.suspended
  kept : J id r m

structure Consistent (law : String → Option Record → Prop) (J : String → Record → Memory → Prop) (s : Store) : Prop where
  durable : Durable law s.db
  known : ∀ id, (s.accounts.get? id).isSome = (s.row id).isSome
  agree : ∀ id m r, s.accounts.get? id = some m → s.row id = some r → Agrees J id r m
  index : ∀ client id, s.clients.get? client = some id ↔
    ∃ r, s.row id = some r ∧ r.grant.clientID = client ∧ r.live

def Stops (law : String → Option Record → Prop) (J : String → Record → Memory → Prop) : Halt NodeError → Store → Prop :=
  Halt.post (Consistent law J) fun s => Durable law s.db

variable {law : String → Option Record → Prop} {J : String → Record → Memory → Prop} {s t : Store} {db db' : Database} {r : Record} {m : Memory}

theorem Consistent.exists_row (h : Consistent law J s) (hm : s.accounts.get? id = some m) :
    ∃ r, s.row id = some r := by
  have hk := h.known id
  rw [hm] at hk
  exact isSome_iff_exists.mp hk.symm

theorem Consistent.row_eq_none (h : Consistent law J s) (hm : s.accounts.get? id = none) : s.row id = none := by
  have hk := h.known id
  rw [hm] at hk
  exact isNone_iff_eq_none.mp (isSome_eq_false_iff.mp hk.symm)

theorem policy_valid {g : Grant} (h : g.validate = .ok ()) : g.policy.validate = .ok () := by
  simp only [Grant.validate, unit_bind_eq_ok] at h
  exact h.2

def Vacant (db : Database) (r : Record) : Prop :=
  r.live → ∀ id r', db.grants.get? id = some r' → r'.live → r'.grant.clientID = r.grant.clientID → id = r.grant.id

theorem Consistent.vacant_of_row (h : Consistent law J s) {r' : Record} (hr : s.row r'.grant.id = some r)
    (hc : r.grant.clientID = r'.grant.clientID) (hl : r'.live → r.live) : Vacant s.db r' := by
  intro hl' id r₂ h₂ hl₂ hc₂
  exact h.durable.unique id r₂ r'.grant.id r h₂ hr hl₂ (hl hl') (hc₂.trans hc.symm)

theorem Consistent.vacant_of_index (h : Consistent law J s)
    (hi : r.live → ∀ id, s.clients.get? r.grant.clientID = some id → id = r.grant.id) : Vacant s.db r := by
  intro hl id r' hr' hl' hc
  exact hi hl id ((h.index _ _).mpr ⟨r', hr', hc, hl'⟩)

theorem Durable.put (h : Durable law db) (hv : r.grant.validate = .ok ()) (hu : Vacant db r)
    (hlaw : law r.grant.id (some r)) (hj : db'.journalID = db.journalID)
    (hg : ∀ id, db'.grants.get? id = if id = r.grant.id then some r else db.grants.get? id) :
    Durable law db' := by
  have hcase : ∀ id r', db'.grants.get? id = some r' →
      id = r.grant.id ∧ r' = r ∨ id ≠ r.grant.id ∧ db.grants.get? id = some r' := by
    intro id r' h'
    rw [hg] at h'
    by_cases hid : id = r.grant.id
    · rw [if_pos hid, Option.some.injEq] at h'
      exact .inl ⟨hid, h'.symm⟩
    · rw [if_neg hid] at h'
      exact .inr ⟨hid, h'⟩
  refine ⟨hj ▸ h.journal, ?_, ?_, ?_, ?_⟩
  · intro id r' h'
    rcases hcase id r' h' with ⟨rfl, rfl⟩ | ⟨-, h'⟩
    · rfl
    · exact h.key id r' h'
  · intro id r' h'
    rcases hcase id r' h' with ⟨-, rfl⟩ | ⟨-, h'⟩
    · exact hv
    · exact h.valid id r' h'
  · intro id r₁ id' r₂ h₁ h₂ hl₁ hl₂ hc
    rcases hcase id r₁ h₁ with ⟨rfl, rfl⟩ | ⟨-, h₁⟩
    · rcases hcase id' r₂ h₂ with ⟨rfl, rfl⟩ | ⟨-, h₂⟩
      · rfl
      · exact (hu hl₁ id' r₂ h₂ hl₂ hc.symm).symm
    · rcases hcase id' r₂ h₂ with ⟨rfl, rfl⟩ | ⟨-, h₂⟩
      · exact hu hl₂ id r₁ h₁ hl₁ hc
      · exact h.unique id r₁ id' r₂ h₁ h₂ hl₁ hl₂ hc
  · intro id
    rw [hg]
    split
    · next hid => exact hid ▸ hlaw
    · exact h.lawful id

theorem Consistent.put (h : Consistent law J s) (hv : r.grant.validate = .ok ()) (hu : Vacant s.db r)
    (hlaw : law r.grant.id (some r)) (hj : t.db.journalID = s.db.journalID)
    (hrow : ∀ id, t.row id = if id = r.grant.id then some r else s.row id)
    (hacc : ∀ id, t.accounts.get? id = if id = r.grant.id then some m else s.accounts.get? id)
    (hm : Agrees J r.grant.id r m)
    (hidx : ∀ client id, t.clients.get? client = some id ↔
      if id = r.grant.id then client = r.grant.clientID ∧ r.live else s.clients.get? client = some id) :
    Consistent law J t := by
  refine ⟨h.durable.put hv hu hlaw hj hrow, ?_, ?_, ?_⟩
  · intro id
    rw [hacc, hrow]
    split
    · rfl
    · exact h.known id
  · intro id m' r' hm' hr'
    rw [hacc] at hm'
    rw [hrow] at hr'
    split at hm'
    · next hid =>
      rw [if_pos hid] at hr'
      cases hm'
      cases hr'
      exact hid ▸ hm
    · next hid =>
      rw [if_neg hid] at hr'
      exact h.agree id m' r' hm' hr'
  · intro client id
    rw [hidx, hrow]
    split
    · next hid =>
      constructor
      · rintro ⟨rfl, hl⟩
        exact ⟨r, rfl, rfl, hl⟩
      · rintro ⟨r', ⟨⟩, rfl, hl⟩
        exact ⟨rfl, hl⟩
    · exact h.index client id

theorem get?_clients_index (h : Consistent law J s) (hu : Vacant s.db r) (hr : r.suspended = false)
    (hc : ∀ r', s.row r.grant.id = some r' → r'.grant.clientID = r.grant.clientID)
    (ht : t.clients = s.clients ∨ r.grant.policy.enabled = true ∧ t.clients = s.clients.put r.grant.clientID r.grant.id)
    (client id : String) :
    (t.index r.grant.policy.enabled r.grant.clientID r.grant.id).clients.get? client = some id ↔
      if id = r.grant.id then client = r.grant.clientID ∧ r.live else s.clients.get? client = some id := by
  have hold : s.clients.get? client = some r.grant.id → client = r.grant.clientID := by
    intro hcl
    obtain ⟨r', hr', hrc, -⟩ := (h.index _ _).mp hcl
    rw [← hc r' hr', hrc]
  cases he : r.grant.policy.enabled with
  | true =>
    have hl : r.live := ⟨he, hr⟩
    have hget : (t.index true r.grant.clientID r.grant.id).clients.get? client =
        if client = r.grant.clientID then some r.grant.id else s.clients.get? client := by
      rcases ht with ht | ⟨-, ht⟩
      · simp only [Store.index, if_true, ht, Table.get?_put]
      · simp only [Store.index, if_true, ht, Table.get?_put]
        split <;> rfl
    rw [hget]
    by_cases hcl : client = r.grant.clientID
    · subst hcl
      by_cases hid : id = r.grant.id
      · simp [hid, hl]
      · simp only [if_true, hid, if_false, Option.some.injEq, Ne.symm hid, false_iff]
        intro hcl
        obtain ⟨r', hr', hrc, hl'⟩ := (h.index _ _).mp hcl
        exact hid (hu hl id r' hr' hl' hrc)
    · by_cases hid : id = r.grant.id
      · subst hid
        simp only [hcl, if_false, if_true, false_and, iff_false]
        exact fun h' => hcl (hold h')
      · simp [hcl, hid]
  | false =>
    have hl : ¬r.live := fun hl => by simp [hl.1] at he
    have ht : t.clients = s.clients := ht.resolve_right fun h => by simp [h.1] at he
    by_cases hcur : s.clients.get? r.grant.clientID = some r.grant.id
    · have hget : (t.index false r.grant.clientID r.grant.id).clients.get? client =
          if client = r.grant.clientID then none else s.clients.get? client := by
        simp only [Store.index, Bool.false_eq_true, if_false, ht, hcur, if_true, Table.get?_drop]
      rw [hget]
      by_cases hcl : client = r.grant.clientID
      · subst hcl
        by_cases hid : id = r.grant.id
        · simp [hid, hl]
        · simp [hid, hcur, Ne.symm hid]
      · by_cases hid : id = r.grant.id
        · subst hid
          simp only [hcl, if_false, if_true, false_and, iff_false]
          exact fun h' => hcl (hold h')
        · simp [hcl, hid]
    · have hget : (t.index false r.grant.clientID r.grant.id).clients.get? client = s.clients.get? client := by
        simp only [Store.index, Bool.false_eq_true, if_false, ht, hcur]
      rw [hget]
      by_cases hid : id = r.grant.id
      · subst hid
        simp only [if_true, hl, and_false, iff_false]
        intro h'
        rw [hold h'] at h'
        exact hcur h'
      · simp [hid]

@[simp] theorem db_index (b : Bool) (client id : String) : (s.index b client id).db = s.db := by
  unfold Store.index
  split
  · rfl
  · split <;> rfl

@[simp] theorem accounts_index (b : Bool) (client id : String) : (s.index b client id).accounts = s.accounts := by
  unfold Store.index
  split
  · rfl
  · split <;> rfl

theorem get?_clients_index_of_ne (b : Bool) {client client' : String} (id : String) (h : client' ≠ client) :
    (s.index b client id).clients.get? client' = s.clients.get? client' := by
  unfold Store.index
  split
  · exact Table.get?_put_of_ne h _ _
  · split
    · simp [Table.get?_drop, h]
    · rfl

def Settled (s t : Store) (r : Record) : Prop :=
  (∀ id, t.row id = if id = r.grant.id then some r else s.row id) ∧
    ∀ client, client ≠ r.grant.clientID → t.clients.get? client = s.clients.get? client

theorem row_setCell (hc : c.record = some r) (id' : String) :
    (Store.setCell id c s).row id' = if id' = r.grant.id then some r else s.row id' := by
  simp [Store.setCell, hc, Store.row, Store.save, Table.get?_put]

theorem accounts_setCell (hc : c.record = some r) (id' : String) :
    (Store.setCell id c s).accounts.get? id' = if id' = id then some c.memory else s.accounts.get? id' := by
  simp [Store.setCell, hc, Store.save, Table.get?_put]

theorem clients_setCell (hc : c.record = some r) :
    (Store.setCell id c s).clients = s.clients := by
  simp [Store.setCell, hc, Store.save]

theorem journalID_setCell (hc : c.record = some r) :
    (Store.setCell id c s).db.journalID = s.db.journalID := by
  simp [Store.setCell, hc, Store.save]

theorem Consistent.setCell (h : Consistent law J s) {w : Record} (hr : s.row id = some r)
    (hc : c.record = some w) (hid : w.grant.id = id) (hcl : w.grant.clientID = r.grant.clientID)
    (hv : w.grant.validate = .ok ()) (hl : w.live ↔ r.live) (hlaw : law id (some w))
    (hm : Agrees J id w c.memory) :
    Consistent law J (Store.setCell id c s) := by
  subst hid
  refine h.put (r := w) (m := c.memory) hv ?_ hlaw (journalID_setCell hc) (row_setCell hc) (accounts_setCell hc) hm ?_
  · exact h.vacant_of_row (r := r) hr hcl.symm hl.mp
  · intro client id'
    rw [clients_setCell hc]
    split
    · next hid' =>
      rw [h.index, hid', hcl, hl]
      constructor
      · rintro ⟨r₂, h₂, rfl, hl₂⟩
        rw [Option.some.inj (h₂.symm.trans hr)] at hl₂ ⊢
        exact ⟨rfl, hl₂⟩
      · rintro ⟨rfl, hl₂⟩
        exact ⟨r, hr, rfl, hl₂⟩
    · rfl

theorem Consistent.setCell_index (h : Consistent law J s) {w : Record}
    (hr : s.row id = some r) (hc : c.record = some w) (hid : w.grant.id = id)
    (hcl : w.grant.clientID = r.grant.clientID) (hv : w.grant.validate = .ok ()) (hs' : w.suspended = false)
    (hm : Agrees J id w c.memory) (hu : Vacant s.db w)
    (hlaw : law id (some w)) :
    Consistent law J ((Store.setCell id c s).index w.grant.policy.enabled w.grant.clientID id) := by
  subst hid
  refine h.put (r := w) (m := c.memory) hv hu hlaw ?_ ?_ ?_ hm ?_
  · rw [db_index]
    exact journalID_setCell hc
  · intro id'
    unfold Store.row
    rw [db_index]
    exact row_setCell hc id'
  · intro id'
    rw [accounts_index, accounts_setCell hc]
  · refine get?_clients_index h hu hs' ?_ (.inl (clients_setCell hc))
    intro r₂ h₂
    rw [hcl, Option.some.inj (hr.symm.trans h₂)]

theorem take_keeps (hf : Follows law J) (h : Consistent law J s) (id : String) (dir : Direction) (requested : Int)
    (upTo : Bool) (turn : Turn)
    (hlaw : ∀ r m k n, s.row id = some r → s.accounts.get? id = some m → k ≤ requested.toNat →
      Cell.MayReserve r ⟨some r, m⟩ k n → law id (some r) → law id (some { r with reserved := n })) :
    Spec (Store.take id dir requested upTo turn) s (fun _ => Consistent law J) (Stops law J) := by
  refine Spec.focus (fun _ => h) fun c hc => ?_
  simp only [Store.cell, map_eq_some_iff] at hc
  obtain ⟨m, hm, rfl⟩ := hc
  obtain ⟨r, hr⟩ := h.exists_row hm
  have hkey := h.durable.key id r hr
  have hvalid := h.durable.valid id r hr
  have hrow : law id (some r) := hr ▸ h.durable.lawful id
  have hm' := h.agree id m r hm hr
  rw [hr]
  -- The row keeps its grant, so only the reservation and the account can have changed.
  have hset : ∀ (c' : Cell) n, c'.record = some { r with reserved := n } → law id (some { r with reserved := n }) →
      Agrees J id { r with reserved := n } c'.memory → Consistent law J (Store.setCell id c' s) := fun c' n hc' hl hj =>
    h.setCell (w := { r with reserved := n }) hr hc' hkey rfl hvalid Iff.rfl hl hj
  have hconsume : ∀ r' m' k, Agrees J id r' m' → m'.account.spent + k ≤ m'.reserved →
      Agrees J id r' { m' with account := m'.account.consume dir k } := by
    rintro r' m' k ⟨hp, hq, hj⟩ hle
    refine ⟨?_, ?_, hf.consume id r' m' dir k hj hle⟩
    · cases dir <;> exact hp
    · cases dir <;> exact hq
  have hstay : Consistent law J (Store.setCell id ⟨some r, m⟩ s) := hset _ r.reserved rfl hrow hm'
  refine (Cell.take_rule (P := fun c' => Consistent law J (Store.setCell id c' s))
    (E := fun c' => Durable law (Store.setCell id c' s).db) rfl hstay hstay.durable ?_ ?_).mono (fun _ _ ht => ht) ?_
  · exact fun k _ hle => hset _ r.reserved rfl hrow (hconsume r m k hm' hle)
  · intro k n hk hn
    have hl := hlaw r m k n hr hm hk hn hrow
    have hj : Agrees J id { r with reserved := n } { m with reserved := n } :=
      ⟨hm'.policy, hm'.quarantined, hf.reserve id r m n hm'.kept hn.grows⟩
    exact ⟨(hset ((⟨some r, m⟩ : Cell).reserving r n) n rfl hl hj).durable, hset _ n rfl hl (hconsume _ _ k hj hn.total)⟩
  · rintro (e | -) c' hc'
    · exact hc'
    · exact hc'

theorem credit_keeps (hf : Follows law J) (h : Consistent law J s) (hr : s.row id = some r) (hm : s.accounts.get? id = some m)
    {ok : Policy → Prop} (hx : Cell.Changes ⟨some r, m⟩ r ok x)
    (hok : ∀ p, ok p → p ≠ r.grant.policy → r.suspended = false ∧ p.validate = .ok () ∧
      p.term = r.grant.policy.term ∧ p.enabled = r.grant.policy.enabled ∧ law id (some (r.withPolicy p))) :
    Spec (Store.onAccount id x) s (fun _ => Consistent law J) (Stops law J) := by
  have hkey := h.durable.key id r hr
  have hvalid := h.durable.valid id r hr
  obtain ⟨hpol, hqua, hj⟩ := h.agree id m r hm hr
  have hself : Consistent law J (Store.setCell id ⟨some r, m⟩ s) :=
    h.setCell hr rfl hkey rfl hvalid Iff.rfl (hr ▸ h.durable.lawful id) ⟨hpol, hqua, hj⟩
  have hnew : ∀ p, ok p → p ≠ m.account.policy →
      Consistent law J (Store.setCell id (Cell.switched ⟨some r, m⟩ r p) s) := by
    intro p hp hne
    obtain ⟨-, hv, ht, he, hl⟩ := hok p hp (hpol ▸ hne)
    refine h.setCell (w := r.withPolicy p) hr rfl hkey rfl (Record.validate_withPolicy hvalid hv ht) ?_ hl
      ⟨rfl, hqua, hf.change id r m p hj⟩
    unfold Record.live
    rw [← he]
    rfl
  refine Spec.focus (fun _ => h) fun c hc => ?_
  simp only [Store.cell, hm, hr, map_some, Option.some.injEq] at hc
  subst hc
  refine Spec.mono hx ?_ ?_
  · rintro _ c' ⟨p, hp, ⟨-, rfl⟩ | ⟨hne, rfl⟩⟩
    · exact hself
    · exact hnew p hp hne
  · rintro (e | -) c' hc'
    · rw [hc']
      exact hself
    · rcases hc' with rfl | ⟨p, hp, hne, rfl⟩
      · exact hself.durable
      · exact (hnew p hp hne).durable

theorem change_keeps (hf : Follows law J) (h : Consistent law J s) {client : String} (hr : s.row id = some r)
    (hm : s.accounts.get? id = some m) (hcl : r.grant.clientID = client) {ok : Policy → Prop} {b : Bool} (hx : Cell.Changes ⟨some r, m⟩ r ok x)
    (hok : ∀ p, ok p → r.suspended = false ∧ p.validate = .ok () ∧ p.term = r.grant.policy.term ∧
      p.enabled = b ∧ (p.enabled = true → ∀ id', s.clients.get? client = some id' → id' = id) ∧
      law id (some (r.withPolicy p))) :
    Spec (do
      Store.onAccount id x
      update fun s => s.index b client id) s
      (fun _ t => Consistent law J t ∧ ∃ p, ok p ∧ Settled s t (r.withPolicy p)) (Stops law J) := by
  subst hcl
  have hkey : r.grant.id = id := h.durable.key id r hr
  have hvalid := h.durable.valid id r hr
  obtain ⟨hpol, hqua, hj⟩ := h.agree id m r hm hr
  have hvac : ∀ p, ok p → Vacant s.db (r.withPolicy p) := fun p hp =>
    h.vacant_of_index fun hl => by
      simp only [Record.withPolicy, hkey]
      exact (hok p hp).2.2.2.2.1 hl.1
  have hnew : ∀ p, ok p → ∀ c : Cell, c.record = some (r.withPolicy p) → Agrees J id (r.withPolicy p) c.memory →
      Consistent law J ((Store.setCell id c s).index b r.grant.clientID id) ∧
        Settled s ((Store.setCell id c s).index b r.grant.clientID id) (r.withPolicy p) := by
    intro p hp c hc hcj
    obtain ⟨hs, hv, ht, he, -, hl⟩ := hok p hp
    rw [← he]
    refine ⟨h.setCell_index (w := r.withPolicy p) hr hc hkey rfl (Record.validate_withPolicy hvalid hv ht) hs hcj
      (hvac p hp) hl, fun id' => ?_, fun client' hne => ?_⟩
    · unfold Store.row
      rw [db_index]
      exact row_setCell hc id'
    · have hne : client' ≠ r.grant.clientID := hne
      rw [get?_clients_index_of_ne _ _ hne, clients_setCell hc]
  have hself : Consistent law J (Store.setCell id ⟨some r, m⟩ s) :=
    h.setCell hr rfl hkey rfl hvalid Iff.rfl (hr ▸ h.durable.lawful id) ⟨hpol, hqua, hj⟩
  refine Spec.bind (Q := fun _ t => Consistent law J (t.index b r.grant.clientID id) ∧
    ∃ p, ok p ∧ Settled s (t.index b r.grant.clientID id) (r.withPolicy p)) ?_ fun _ t ht => (spec_update _).mpr ht
  refine Spec.focus (fun _ => h) fun c hc => ?_
  simp only [Store.cell, hm, hr, map_some, Option.some.injEq] at hc
  subst hc
  refine Spec.mono hx ?_ ?_
  · rintro _ c' ⟨p, hp, ⟨rfl, rfl⟩ | ⟨-, rfl⟩⟩
    · have hrow : r.withPolicy m.account.policy = r := by rw [hpol, Record.withPolicy_self hvalid]
      obtain ⟨h1, h2⟩ := hnew _ hp ⟨some r, m⟩ (by rw [Cell.account, hrow]) ⟨rfl, hqua, hrow.symm ▸ hj⟩
      exact ⟨h1, _, hp, h2⟩
    · obtain ⟨h1, h2⟩ := hnew p hp (Cell.switched ⟨some r, m⟩ r p) rfl ⟨rfl, hqua, hf.change id r m p hj⟩
      exact ⟨h1, p, hp, h2⟩
  · rintro (e | -) c' hc'
    · rw [hc']
      exact hself
    · rcases hc' with rfl | ⟨p, hp, -, rfl⟩
      · exact hself.durable
      · obtain ⟨-, hv, ht, -, -, hl⟩ := hok p hp
        refine h.durable.put (r := r.withPolicy p) (Record.validate_withPolicy hvalid hv ht) (hvac p hp) ?_ ?_ ?_
        · rw [← hkey] at hl
          exact hl
        · exact journalID_setCell rfl
        · exact row_setCell rfl

theorem create_keeps (hf : Follows law J) (h : Consistent law J s) {g : Grant} (hv : g.validate = .ok ()) (hr : s.row g.id = none)
    (hi : g.policy.enabled = true → s.clients.get? g.clientID = none) (hlaw : law g.id (some (.fresh g))) :
    Spec (do
      Store.create (.fresh g)
      update fun s => s.index g.policy.enabled g.clientID g.id) s
      (fun _ t => Consistent law J t ∧ Settled s t (.fresh g)) (Stops law J) := by
  have hvac : Vacant s.db (.fresh g) := h.vacant_of_index fun hl id hid => by
    rw [show s.clients.get? (Record.fresh g).grant.clientID = none from hi hl.1] at hid
    cases hid
  obtain ⟨m, hm⟩ := Record.exists_restore (r := .fresh g) (policy_valid hv)
  have hj : J g.id (.fresh g) m := hf.create g m (hr ▸ h.durable.lawful g.id) hm
  obtain ⟨-, hpol, hqua, -⟩ := Record.restore_eq_ok hm
  have hrow : ∀ id, (s.save (.fresh g)).row id = if id = g.id then some (.fresh g) else s.row id := by
    intro id
    simp [Store.save, Store.row, Table.get?_put, Record.fresh]
  set clients := if g.policy.enabled = true then s.clients.put g.clientID g.id else s.clients with hclients
  have hrestore : (s.save (.fresh g)).restore (.fresh g) =
      .ok { s.save (.fresh g) with clients := clients, accounts := s.accounts.put g.id m } := by
    simp only [Store.restore, bind_eq_ok, refuse_eq_ok, pure_eq_ok]
    refine ⟨(), ?_, (), ?_, m, hm, ?_⟩
    · exact not_not.mpr hv
    · rintro ⟨he, -, hsome⟩
      rw [show (s.save (.fresh g)).clients.get? (Record.fresh g).grant.clientID = none from hi he] at hsome
      exact absurd hsome (by simp)
    · simp [hclients, Record.fresh, Store.save]
  refine Spec.bind (Q := fun _ t => t = { s.save (.fresh g) with
    clients := clients, accounts := s.accounts.put g.id m }) ?_ ?_
  · refine Spec.bind (Q := fun _ t => t = s.save (.fresh g)) (Spec.write h ?_ ?_) ?_
    · rintro e ⟨⟩
    · rintro _ t ⟨⟩
      exact ⟨rfl, h.durable.put (r := .fresh g) hv hvac hlaw rfl hrow⟩
    · rintro _ _ rfl
      simp [hrestore]
  · rintro _ _ rfl
    refine (spec_update _).mpr ⟨?_, ?_, ?_⟩
    · refine h.put (r := .fresh g) (m := m) hv hvac hlaw ?_ ?_ ?_ ⟨hpol, hqua, hj⟩ ?_
      · rw [db_index]
        rfl
      · intro id
        unfold Store.row
        rw [db_index]
        exact hrow id
      · intro id
        rw [accounts_index]
        exact Table.get?_put _ _ _ _
      · refine get?_clients_index h hvac rfl ?_ ?_
        · intro r' hr'
          rw [show s.row (Record.fresh g).grant.id = none from hr] at hr'
          cases hr'
        · by_cases he : g.policy.enabled = true
          · exact .inr ⟨he, by simp [hclients, he, Record.fresh]⟩
          · exact .inl (by simp [hclients, he])
    · intro id
      unfold Store.row
      rw [db_index]
      exact hrow id
    · intro client hne
      have hne : client ≠ g.clientID := hne
      rw [get?_clients_index_of_ne _ _ hne]
      simp only [hclients]
      split
      · exact Table.get?_put_of_ne hne _ _
      · rfl

end Governor

end Pui
