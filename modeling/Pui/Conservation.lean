import Pui.Accounting
import Pui.Transitions

/-!
# Conservation of the quota ledger

A limited budget is split into what was used, what is set aside for its grants, which is exactly what they may still
consume, and what is left.
-/

namespace Pui

open Guard Table List

def FleetGrant.left (g : FleetGrant) : Int := if g.unlimited then 0 else g.issuedBytes - g.consumedBytes

def leftOf (grants : Table String FleetGrant) (id : String) : Int := (grants.get? id).elim 0 FleetGrant.left

def outstanding (grants : Table String FleetGrant) (links : Table (String × String) Unit) (budgetID : String) : Int :=
  links.total fun k _ => if k.2 = budgetID then leftOf grants k.1 else 0

def drawn (f : FleetGrant → Int) (grants : Table String FleetGrant) (links : Table (String × String) Unit) (budgetID : String) : Int :=
  links.total fun k _ => if k.2 = budgetID then (grants.get? k.1).elim 0 f else 0

def metered (meters : Table (String × String × String) FleetMeter) (grantID : String) : Int :=
  meters.total fun k m => if k.1 = grantID then m.uploaded + m.downloaded else 0

variable {l l' : Ledger} {ids : List String} {placementID clientID termID : String} {g : FleetGrant} {b : FleetBudget}
  {c : UsageCheckpoint} {deltas : TermDeltas} {now : Int} {db db' : Fleet} {result : String × FleetGrant} {term : FleetTerm}

namespace Ledger

structure Conserved (l : Ledger) : Prop where
  budget : ∀ id b, l.budgets.get? id = some b → b.unlimited = false →
    0 ≤ b.usedBytes ∧ 0 ≤ b.reservedBytes ∧ b.usedBytes + b.reservedBytes ≤ b.limitBytes ∧
      b.reservedBytes = outstanding l.grants l.links id
  grant : ∀ id g, l.grants.get? id = some g →
    (g.unlimited = false → g.consumedBytes ≤ g.issuedBytes) ∧ g.consumedBytes = metered l.meters id

structure Sound (l : Ledger) : Prop extends Conserved l where
  link : ∀ g b u, l.links.get? (g, b) = some u → ∃ grant budget, l.grants.get? g = some grant ∧
    l.budgets.get? b = some budget ∧ (grant.unlimited = true → budget.unlimited = true)
  meter : ∀ k m, l.meters.get? k = some m → ∃ grant, l.grants.get? k.1 = some grant

theorem Sound.grant_of_link (h : l.Sound) (g b : String) (u : Unit) (hu : l.links.get? (g, b) = some u) :
    ∃ grant, l.grants.get? g = some grant := by
  obtain ⟨grant, -, hgrant, -⟩ := h.link g b u hu
  exact ⟨grant, hgrant⟩

structure Opening (l : Ledger) : Prop where
  budget : ∀ id b, l.budgets.get? id = some b → b.unlimited = false →
    0 ≤ b.usedBytes ∧ b.usedBytes ≤ b.limitBytes ∧ b.reservedBytes = 0
  grants : ∀ id, l.grants.get? id = none
  links : ∀ k, l.links.get? k = none
  meters : ∀ k, l.meters.get? k = none

theorem Opening.sound (h : l.Opening) : l.Sound where
  budget id b hb hu := by
    obtain ⟨h0, hl, hr⟩ := h.budget id b hb hu
    have hout : outstanding l.grants l.links id = 0 := total_eq_zero fun k u hk => by simp [h.links k] at hk
    rw [hr, hout]
    exact ⟨h0, le_rfl, by omega, rfl⟩
  grant id g hg := by simp [h.grants id] at hg
  link g b u hu := by simp [h.links (g, b)] at hu
  meter k m hm := by simp [h.meters k] at hm

theorem outstanding_eq_drawn (grants : Table String FleetGrant) (links : Table (String × String) Unit) (budgetID : String) :
    outstanding grants links budgetID = drawn FleetGrant.left grants links budgetID := rfl

theorem drawn_put (f : FleetGrant → Int) (grants : Table String FleetGrant) (links : Table (String × String) Unit)
    (id budgetID : String) (g : FleetGrant) :
    drawn f (grants.put id g) links budgetID =
      drawn f grants links budgetID + (links.get? (id, budgetID)).elim 0 fun _ => f g - (grants.get? id).elim 0 f := by
  have hchange := links.total_change (id, budgetID)
    (f := fun k _ => if k.2 = budgetID then (grants.get? k.1).elim 0 f else 0)
    (g := fun k _ => if k.2 = budgetID then ((grants.put id g).get? k.1).elim 0 f else 0)
    (fun k _ hk => by
      by_cases hb : k.2 = budgetID
      · have hid : k.1 ≠ id := fun h => hk (Prod.ext h hb)
        simp [hb, hid]
      · simp [hb])
  unfold drawn
  cases hl : links.get? (id, budgetID) with
  | none => simpa [hl] using hchange
  | some u =>
    simp only [hl, Option.elim_some, if_true, get?_put_self] at hchange ⊢
    omega

theorem outstanding_put (grants : Table String FleetGrant) (links : Table (String × String) Unit) (id budgetID : String)
    (g : FleetGrant) :
    outstanding (grants.put id g) links budgetID =
      outstanding grants links budgetID + (links.get? (id, budgetID)).elim 0 fun _ => g.left - leftOf grants id :=
  drawn_put FleetGrant.left grants links id budgetID g

theorem drawn_createEach (f : FleetGrant → Int) {grants : Table String FleetGrant} {links links' : Table (String × String) Unit}
    {id : String}
    (h : createEach FleetError.storage () (ids.map fun b => (id, b)) links = .ok links') (hnd : ids.Nodup) (b : String) :
    drawn f grants links' b = drawn f grants links b + if b ∈ ids then (grants.get? id).elim 0 f else 0 := by
  unfold drawn
  rw [total_createEach h]
  congr 1
  clear h
  induction ids with
  | nil => simp
  | cons c ids ih =>
    obtain ⟨hc, hnd⟩ := nodup_cons.mp hnd
    rw [map_cons, map_cons, sum_cons, ih hnd]
    by_cases hcb : c = b
    · subst hcb
      simp [hc]
    · have hbc : b ≠ c := fun h => hcb h.symm
      simp [hcb, hbc]

theorem metered_put (meters : Table (String × String × String) FleetMeter) (k : String × String × String) (m : FleetMeter)
    (id : String) :
    metered (meters.put k m) id = metered meters id + if k.1 = id then
      m.uploaded + m.downloaded - (((meters.get? k).getD ⟨0, 0⟩).uploaded + ((meters.get? k).getD ⟨0, 0⟩).downloaded) else 0 := by
  have hput := meters.total_put_add k m fun k m => if k.1 = id then m.uploaded + m.downloaded else 0
  unfold metered
  cases hm : meters.get? k with
  | none =>
    simp only [hm, Option.elim_none, Option.getD_none] at hput ⊢
    split at hput <;> simp_all
  | some old =>
    simp only [hm, Option.elim_some, Option.getD_some] at hput ⊢
    split at hput
    · next hk =>
      rw [if_pos hk]
      omega
    · next hk =>
      rw [if_neg hk]
      omega

theorem lockBudgets_eq_ok (h : l.lockBudgets ids = .ok ()) :
    ids.Nodup ∧ ∀ id ∈ ids, ∃ b, l.budgets.get? id = some b := by
  simp only [lockBudgets, refuse_eq_ok, not_or, not_not, not_exists, not_and] at h
  obtain ⟨-, hnd, hall⟩ := h
  exact ⟨hnd, fun id hid => Option.ne_none_iff_exists'.mp (hall id hid)⟩

theorem reserveGrant_eq_ok {request : ReserveRequest}
    (h : l.reserveGrant request placementID = .ok g) :
    g.unlimited = request.unlimited ∧ (g.clientID = request.clientID ∧ g.termID = request.termID) ∧
      ((l.grants.get? request.grantID = none ∧ g.issuedBytes = 0 ∧ g.consumedBytes = 0) ∨
        ∃ old, l.grants.get? request.grantID = some old ∧ g.issuedBytes = old.issuedBytes ∧
          g.consumedBytes = old.consumedBytes ∧ old.unlimited = g.unlimited ∧
          (old.clientID = request.clientID ∧ old.termID = request.termID) ∧
          ∀ b, b ∈ request.budgetIDs ↔ ∃ u, l.links.get? (request.grantID, b) = some u) := by
  unfold reserveGrant at h
  cases hg : l.grants.get? request.grantID with
  | none =>
    simp only [hg, pure_eq_ok] at h
    subst h
    exact ⟨rfl, ⟨rfl, rfl⟩, .inl ⟨rfl, rfl, rfl⟩⟩
  | some old =>
    simp only [hg, unit_bind_eq_ok, refuse_eq_ok, pure_eq_ok, not_or, not_not] at h
    obtain ⟨⟨-, -, hclient, hterm, -, hu, -⟩, -, hl, rfl⟩ := h
    refine ⟨hu, ⟨hclient, hterm⟩, .inr ⟨old, rfl, rfl, rfl, rfl, ⟨hclient, hterm⟩, fun b => ?_⟩⟩
    rw [← hl, mem_sortIDs, mem_seconds]

theorem reserve_budget_eq_ok {unlimited : Bool} {bytes : Int} {b' : FleetBudget}
    (h : FleetBudget.reserve unlimited bytes b = .ok b') :
    (b.unlimited = true ∧ b' = b) ∨ (b.unlimited = false ∧ unlimited = false ∧
      b.usedBytes + b.reservedBytes + bytes ≤ b.limitBytes ∧ b' = { b with reservedBytes := b.reservedBytes + bytes }) := by
  simp only [FleetBudget.reserve, unit_bind_eq_ok, refuse_eq_ok] at h
  obtain ⟨hu, h⟩ := h
  cases hb : b.unlimited with
  | true =>
    simp only [hb, if_true, pure_eq_ok] at h
    exact .inl ⟨rfl, h.symm⟩
  | false =>
    simp only [hb, Bool.false_eq_true, if_false, unit_bind_eq_ok, refuse_eq_ok, pure_eq_ok] at h
    refine .inr ⟨rfl, by simpa [hb] using hu, ?_, h.2.symm⟩
    omega

def gained (request : ReserveRequest) : Int := if request.unlimited then 0 else request.bytes

structure Reserves (l : Ledger) (request : ReserveRequest) (g : FleetGrant) (l' : Ledger) : Prop where
  nodup : request.budgetIDs.Nodup
  unlimited : g.unlimited = request.unlimited
  issued : g.issuedBytes = (l.grants.get? request.grantID).elim 0 FleetGrant.issuedBytes + request.bytes
  consumed : g.consumedBytes = (l.grants.get? request.grantID).elim 0 FleetGrant.consumedBytes
  owner : g.clientID = request.clientID ∧ g.termID = request.termID
  kept : ∀ old, l.grants.get? request.grantID = some old → old.unlimited = g.unlimited
  keptOwner : ∀ old, l.grants.get? request.grantID = some old → old.clientID = request.clientID ∧ old.termID = request.termID
  grants : l'.grants = l.grants.put request.grantID g
  budgets : l.budgets.updateEach .scope (fun _ => FleetBudget.reserve request.unlimited request.bytes) request.budgetIDs =
    .ok l'.budgets
  link : ∀ id b u, l'.links.get? (id, b) = some u →
    (id = request.grantID ∧ b ∈ request.budgetIDs) ∨ l.links.get? (id, b) = some u
  linked : ∀ b ∈ request.budgetIDs, ∃ u, l'.links.get? (request.grantID, b) = some u
  keptLink : ∀ k u, l.links.get? k = some u → l'.links.get? k = some u
  drawn : ∀ f b, drawn f l'.grants l'.links b = drawn f l.grants l.links b +
    if b ∈ request.budgetIDs then f g - (l.grants.get? request.grantID).elim 0 f else 0
  meters : l'.meters = l.meters

theorem Reserves.outstanding {request : ReserveRequest} (h : Reserves l request g l') (b : String) :
    outstanding l'.grants l'.links b = outstanding l.grants l.links b + if b ∈ request.budgetIDs then gained request else 0 := by
  have hgained : g.left - (l.grants.get? request.grantID).elim 0 FleetGrant.left = gained request := by
    have hissued := h.issued
    have hconsumed := h.consumed
    cases hold : l.grants.get? request.grantID with
    | none =>
      simp only [hold, Option.elim_none] at hissued hconsumed
      simp only [Option.elim_none, FleetGrant.left, gained, h.unlimited]
      split <;> omega
    | some old =>
      have hkept := (h.kept old hold).trans h.unlimited
      simp only [hold, Option.elim_some] at hissued hconsumed
      simp only [Option.elim_some, FleetGrant.left, gained, h.unlimited, hkept]
      split <;> omega
  rw [outstanding_eq_drawn, outstanding_eq_drawn, h.drawn, hgained]

theorem reserves_of_reserve {request : ReserveRequest}
    (hl : ∀ g b u, l.links.get? (g, b) = some u → ∃ grant, l.grants.get? g = some grant) (h : l.reserve request placementID = .ok (g, l')) : Reserves l request g l' := by
  simp only [reserve, bind_eq_ok, refuse_eq_ok, pure_eq_ok, Prod.mk.injEq] at h
  obtain ⟨_, hlock, start, hstart, _, -, budgets, hbudgets, links, hlinks, rfl, rfl⟩ := h
  obtain ⟨hnd, -⟩ := lockBudgets_eq_ok hlock
  obtain ⟨hu, howner, hcases⟩ := reserveGrant_eq_ok hstart
  rcases hcases with ⟨hnone, hissued, hconsumed⟩ | ⟨old, hsome, hissued, hconsumed, hkept, hkeptOwner, hlinked⟩
  · -- a new grant: no link names it yet, and those of the request are added
    simp only [reserveLinks, hnone, Option.isSome_none, Bool.false_eq_true, if_false] at hlinks
    have hfree : ∀ b, l.links.get? (request.grantID, b) = none := fun b => by
      by_contra hne
      obtain ⟨u, hul⟩ := Option.ne_none_iff_exists'.mp hne
      obtain ⟨grant, hgrant⟩ := hl _ _ u hul
      rw [hnone] at hgrant
      cases hgrant
    refine ⟨hnd, hu, by simp [hnone, hissued], by simp [hnone, hconsumed], howner, by simp [hnone], by simp [hnone], rfl, hbudgets,
      ?_, fun b hb => ?_, fun k u hk => ?_, fun f b => ?_, rfl⟩
    · intro id b u hul
      rw [get?_createEach hlinks] at hul
      split at hul
      · next hm =>
        obtain ⟨b', hb', he⟩ := mem_map.mp hm
        cases he
        exact .inl ⟨rfl, hb'⟩
      · exact .inr hul
    · rw [get?_createEach hlinks]
      exact ⟨(), if_pos (mem_map_of_mem hb)⟩
    · rw [get?_createEach hlinks, if_neg, hk]
      rintro hmem
      obtain ⟨b, -, rfl⟩ := mem_map.mp hmem
      rw [hfree b] at hk
      cases hk
    · rw [drawn_createEach f hlinks hnd, drawn_put, hfree b, get?_put_self, hnone]
      simp
  · -- a grant that is there: its links are those of the request
    simp only [reserveLinks, hsome, Option.isSome_some, if_true, Except.ok.injEq] at hlinks
    subst hlinks
    refine ⟨hnd, hu, by simp [hsome, hissued], by simp [hsome, hconsumed], howner, ?_, ?_, rfl, hbudgets, ?_,
      fun b hb => (hlinked b).mp hb, fun _ _ hk => hk, fun f b => ?_, rfl⟩
    · intro o ho
      rw [hsome] at ho
      cases ho
      exact hkept
    · intro o ho
      rw [hsome] at ho
      cases ho
      exact hkeptOwner
    · intro id b u hul
      exact .inr hul
    · rw [drawn_put, hsome]
      congr 1
      by_cases hb : b ∈ request.budgetIDs
      · obtain ⟨u, hul⟩ := (hlinked b).mp hb
        simp [hb, hul]
      · have hnl : l.links.get? (request.grantID, b) = none := by
          by_contra hne
          obtain ⟨u, hul⟩ := Option.ne_none_iff_exists'.mp hne
          exact hb ((hlinked b).mpr ⟨u, hul⟩)
        simp [hb, hnl]

theorem Sound.reserve {request : ReserveRequest} (hl : l.Sound)
    (hbytes : 0 ≤ request.bytes) (h : l.reserve request placementID = .ok (g, l')) : l'.Sound := by
  have hr := reserves_of_reserve hl.grant_of_link h
  refine ⟨⟨?_, ?_⟩, ?_, ?_⟩
  · intro id b' hb' hlim
    obtain ⟨b, hb, ⟨hmem, hf⟩ | ⟨hmem, rfl⟩⟩ := before_updateEach hr.nodup hr.budgets hb'
    · rcases reserve_budget_eq_ok hf with ⟨hu, rfl⟩ | ⟨hu, hreq, hroom, rfl⟩
      · rw [hu] at hlim
        cases hlim
      · obtain ⟨h0, h1, -, hout⟩ := hl.budget id b hb hu
        rw [hr.outstanding, if_pos hmem, gained, hreq, ← hout]
        refine ⟨h0, ?_, ?_, rfl⟩
        · show 0 ≤ b.reservedBytes + request.bytes
          omega
        · show b.usedBytes + (b.reservedBytes + request.bytes) ≤ b.limitBytes
          omega
    · obtain ⟨h0, h1, h2, hout⟩ := hl.budget id b' hb hlim
      rw [hr.outstanding, if_neg hmem, add_zero]
      exact ⟨h0, h1, h2, hout⟩
  · intro id g' hg'
    rw [hr.grants, get?_put] at hg'
    rw [hr.meters]
    split at hg'
    · next hid =>
      subst hid
      cases hg'
      cases hold : l.grants.get? request.grantID with
      | none =>
        -- a new grant has no meters yet
        have hm : metered l.meters request.grantID = 0 := total_eq_zero fun k m hk => by
          by_cases hkid : k.1 = request.grantID
          · obtain ⟨grant, hgrant⟩ := hl.meter k m hk
            rw [hkid, hold] at hgrant
            cases hgrant
          · simp [hkid]
        simp only [hr.issued, hr.consumed, hold, Option.elim_none, hm]
        exact ⟨fun _ => by omega, trivial⟩
      | some old =>
        obtain ⟨hle, hm⟩ := hl.grant _ old hold
        simp only [hr.issued, hr.consumed, hold, Option.elim_some, hm]
        refine ⟨fun hu => ?_, trivial⟩
        have := hle ((hr.kept old hold).trans hu)
        omega
    · exact hl.grant id g' hg'
  · intro id b u hu
    rw [hr.grants]
    rcases hr.link id b u hu with ⟨rfl, hmem⟩ | hlink
    · obtain ⟨budget, budget', hb, hf, hb'⟩ := get?_updateEach_of_mem hr.nodup hr.budgets hmem
      refine ⟨g, budget', get?_put_self _ _ _, hb', fun hun => ?_⟩
      rcases reserve_budget_eq_ok hf with ⟨hu, rfl⟩ | ⟨-, hreq, -⟩
      · exact hu
      · rw [hr.unlimited, hreq] at hun
        cases hun
    · obtain ⟨grant, budget, hgrant, hbudget, himp⟩ := hl.link id b u hlink
      obtain ⟨budget', hb', hchange⟩ := after_updateEach hr.nodup hr.budgets hbudget
      have hkeep : budget'.unlimited = budget.unlimited := by
        rcases hchange with ⟨-, hf⟩ | ⟨-, rfl⟩
        · rcases reserve_budget_eq_ok hf with ⟨-, rfl⟩ | ⟨-, -, -, rfl⟩ <;> rfl
        · rfl
      by_cases hid : id = request.grantID
      · subst hid
        refine ⟨g, budget', get?_put_self _ _ _, hb', fun hun => ?_⟩
        rw [hkeep]
        exact himp ((hr.kept grant hgrant).trans hun)
      · exact ⟨grant, budget', by rw [get?_put_of_ne hid, hgrant], hb', fun hun => by rw [hkeep]; exact himp hun⟩
  · intro k m hm
    rw [hr.meters] at hm
    obtain ⟨grant, hgrant⟩ := hl.meter k m hm
    rw [hr.grants, get?_put]
    split
    · exact ⟨g, rfl⟩
    · exact ⟨grant, hgrant⟩

theorem charge_budget_eq_ok {delta : Int} {b' : FleetBudget} (h : FleetBudget.charge delta b = .ok b') :
    0 ≤ b.usedBytes ∧ 0 ≤ delta ∧ b' = { b with
      usedBytes := b.usedBytes + delta
      reservedBytes := if b.unlimited then b.reservedBytes else b.reservedBytes - delta } ∧
    (b.unlimited = false → delta ≤ b.reservedBytes) := by
  simp only [FleetBudget.charge, unit_bind_eq_ok, refuse_eq_ok, pure_eq_ok, not_or, Bool.not_eq_true, exceeds_eq_false] at h
  obtain ⟨⟨⟨hused, hdelta, -⟩, hroom⟩, rfl⟩ := h
  exact ⟨hused, hdelta, rfl, fun hu => by simpa [hu] using hroom⟩

structure Charges (c : UsageCheckpoint) (l : Ledger) (g : FleetGrant) (delta : Int) (l' : Ledger) : Prop where
  grant : l.grants.get? c.grantID = some g
  owner : g.clientID = c.clientID ∧ g.termID = c.termID ∧ g.runtimeID = c.meterID
  uploaded : (l.reading c.key).uploaded ≤ c.uploaded
  downloaded : (l.reading c.key).downloaded ≤ c.downloaded
  delta_eq : delta = c.uploaded + c.downloaded - ((l.reading c.key).uploaded + (l.reading c.key).downloaded)
  room : g.unlimited = false → g.consumedBytes + delta ≤ g.issuedBytes
  budgets : l.budgets.updateEach .scope (fun _ => FleetBudget.charge delta) (l.links.seconds c.grantID) = .ok l'.budgets
  grants : l'.grants = l.grants.put c.grantID { g with consumedBytes := g.consumedBytes + delta }
  links : l'.links = l.links
  meters : l'.meters = l.meters.put c.key ⟨c.uploaded, c.downloaded⟩

theorem charges_of_charge {deltas' : TermDeltas}
    (h : l.charge c deltas = .ok (l', deltas')) :
    ∃ g delta, Charges c l g delta l' ∧ deltas.add (g.clientID, g.termID) (c.uploaded - (l.reading c.key).uploaded)
      (c.downloaded - (l.reading c.key).downloaded) c.observedUnixMilli = .ok deltas' := by
  simp only [charge, bind_eq_ok, found_eq_ok, refuse_eq_ok, pure_eq_ok, Prod.mk.injEq, not_or, not_and, not_lt, not_not,
    Bool.not_eq_true, exceeds_eq_false] at h
  obtain ⟨g, hg, -, howner, -, ⟨hup, hdown⟩, -, -, d, hd, -, ⟨-, hroom⟩, budgets, hbudgets, rfl, rfl⟩ := h
  refine ⟨g, _, ⟨hg, howner, hup, hdown, by omega, fun hu => ?_, hbudgets, rfl, rfl, rfl⟩, hd⟩
  have := hroom (by simp [hu])
  omega

theorem Charges.delta_nonneg {delta : Int}
    (h : Charges c l g delta l') : 0 ≤ delta := by
  have hup := h.uploaded
  have hdown := h.downloaded
  have heq := h.delta_eq
  omega

theorem Sound.charge {delta : Int} (hl : l.Sound)
    (h : Charges c l g delta l') : l'.Sound := by
  have hnd := l.links.nodup_seconds c.grantID
  have hout : ∀ b, outstanding l'.grants l'.links b = outstanding l.grants l.links b +
      (l.links.get? (c.grantID, b)).elim 0 fun _ => if g.unlimited then 0 else -delta := fun b => by
    rw [h.grants, h.links, outstanding_put]
    congr 2
    funext u
    simp only [FleetGrant.left, leftOf, h.grant, Option.elim_some]
    split <;> omega
  have hflag : ∀ {id b}, l.budgets.get? id = some b → ∃ b', l'.budgets.get? id = some b' ∧ b'.unlimited = b.unlimited := by
    intro id b hb
    obtain ⟨b', hb', ⟨-, hf⟩ | ⟨-, rfl⟩⟩ := after_updateEach hnd h.budgets hb
    · obtain ⟨-, -, rfl, -⟩ := charge_budget_eq_ok hf
      exact ⟨_, hb', rfl⟩
    · exact ⟨_, hb', rfl⟩
  refine ⟨⟨?_, ?_⟩, ?_, ?_⟩
  · intro id b' hb' hlim
    obtain ⟨b, hb, ⟨hmem, hf⟩ | ⟨hmem, rfl⟩⟩ := before_updateEach hnd h.budgets hb'
    · obtain ⟨-, hdelta, rfl, hroom⟩ := charge_budget_eq_ok hf
      obtain ⟨h0, h1, h2, hres⟩ := hl.budget id b hb hlim
      obtain ⟨u, hu⟩ := mem_seconds.mp hmem
      -- a limited budget backs limited grants only, so the grant gives up what the budget released
      have hgrant : g.unlimited = false := by
        obtain ⟨grant, budget, hgr, hbu, himp⟩ := hl.link _ _ u hu
        rw [h.grant] at hgr
        rw [hb] at hbu
        cases hgr
        cases hbu
        by_contra hne
        rw [himp (by simpa using hne)] at hlim
        cases hlim
      have hlim' : b.unlimited = false := hlim
      have := hroom hlim'
      simp only [hout, hu, hgrant, hlim', Option.elim_some, Bool.false_eq_true, if_false]
      omega
    · have hnone : l.links.get? (c.grantID, id) = none := by
        by_contra hne
        exact hmem (mem_seconds.mpr (Option.ne_none_iff_exists'.mp hne))
      rw [hout, hnone, Option.elim_none, add_zero]
      exact hl.budget id b' hb hlim
  · intro id g' hg'
    rw [h.grants, get?_put] at hg'
    rw [h.meters, metered_put]
    split at hg'
    · next hid =>
      subst hid
      cases hg'
      obtain ⟨-, hm⟩ := hl.grant _ g h.grant
      refine ⟨h.room, ?_⟩
      have heq := h.delta_eq
      unfold reading at heq
      rw [if_pos (show c.key.1 = c.grantID from rfl), ← hm]
      rw [heq]
    · next hid =>
      have hk : c.key.1 ≠ id := fun he => hid he.symm
      rw [if_neg hk, add_zero]
      exact hl.grant id g' hg'
  · intro id b u hu
    rw [h.links] at hu
    obtain ⟨grant, budget, hgr, hbu, himp⟩ := hl.link id b u hu
    obtain ⟨budget', hb', hkeep⟩ := hflag hbu
    rw [h.grants, get?_put]
    split
    · next hid =>
      subst hid
      rw [h.grant] at hgr
      cases hgr
      exact ⟨_, budget', rfl, hb', fun hun => by rw [hkeep]; exact himp hun⟩
    · exact ⟨grant, budget', hgr, hb', fun hun => by rw [hkeep]; exact himp hun⟩
  · intro k m hm
    rw [h.meters, get?_put] at hm
    rw [h.grants, get?_put]
    split at hm
    · next hk =>
      subst hk
      exact ⟨_, if_pos rfl⟩
    · obtain ⟨grant, hgr⟩ := hl.meter k m hm
      split
      · exact ⟨_, rfl⟩
      · exact ⟨grant, hgr⟩

theorem Sound.chargeAll {cs : List UsageCheckpoint} {deltas' : TermDeltas} (hl : l.Sound)
    (h : Ledger.chargeAll cs l deltas = .ok (l', deltas')) : l'.Sound := by
  induction cs generalizing l deltas with
  | nil =>
    cases h
    exact hl
  | cons c cs ih =>
    simp only [Ledger.chargeAll, bind_eq_ok] at h
    obtain ⟨⟨mid, d⟩, hc, h⟩ := h
    obtain ⟨g, delta, hcharge, -⟩ := charges_of_charge hc
    exact ih (hl.charge hcharge) h

theorem Sound.moveLimits {limits : Table String Int} {budgets : Table String FleetBudget}
    (hl : l.Sound) (hnd : ids.Nodup)
    (h : l.budgets.updateEach .scope (fun id b => b.moveLimit ((limits.get? id).getD 0)) ids = .ok budgets) :
    ({ l with budgets := budgets } : Ledger).Sound := by
  have hmove : ∀ {limit : Int} {b b' : FleetBudget}, b.moveLimit limit = .ok b' →
      b.usedBytes + b.reservedBytes ≤ limit ∧ b' = { b with limitBytes := limit } := by
    intro limit b b' hb
    simp only [FleetBudget.moveLimit, unit_bind_eq_ok, refuse_eq_ok, pure_eq_ok, not_or] at hb
    obtain ⟨⟨-, -, hroom⟩, rfl⟩ := hb
    exact ⟨by omega, rfl⟩
  refine ⟨⟨?_, hl.grant⟩, ?_, hl.meter⟩
  · intro id b' hb' hlim
    obtain ⟨b, hb, ⟨-, hf⟩ | ⟨-, rfl⟩⟩ := before_updateEach hnd h hb'
    · obtain ⟨hroom, rfl⟩ := hmove hf
      obtain ⟨h0, h1, -, hout⟩ := hl.budget id b hb hlim
      exact ⟨h0, h1, hroom, hout⟩
    · exact hl.budget id b' hb hlim
  · intro id b u hu
    obtain ⟨grant, budget, hgr, hbu, himp⟩ := hl.link id b u hu
    obtain ⟨budget', hb', ⟨-, hf⟩ | ⟨-, rfl⟩⟩ := after_updateEach hnd h hbu
    · obtain ⟨-, rfl⟩ := hmove hf
      exact ⟨grant, _, hgr, hb', himp⟩
    · exact ⟨grant, _, hgr, hb', himp⟩

theorem Sound.createBudget {id : String} (hl : l.Sound) (hid : l.budgets.get? id = none)
    (hused : 0 ≤ b.usedBytes) (hreserved : b.reservedBytes = 0) (hlimit : b.unlimited = false → b.usedBytes ≤ b.limitBytes) :
    ({ l with budgets := l.budgets.put id b } : Ledger).Sound := by
  refine ⟨⟨?_, hl.grant⟩, ?_, hl.meter⟩
  · intro id' b' hb' hlim
    rw [get?_put] at hb'
    split at hb'
    · next he =>
      subst he
      cases hb'
      have hout : outstanding l.grants l.links id' = 0 := total_eq_zero fun k u hk => by
        by_cases hkid : k.2 = id'
        · obtain ⟨-, budget, -, hbu, -⟩ := hl.link k.1 k.2 u hk
          rw [hkid, hid] at hbu
          cases hbu
        · simp [hkid]
      rw [hreserved]
      exact ⟨hused, le_rfl, by have := hlimit hlim; omega, hout.symm⟩
    · exact hl.budget id' b' hb' hlim
  · intro g b' u hu
    obtain ⟨grant, budget, hgr, hbu, himp⟩ := hl.link g b' u hu
    have hne : b' ≠ id := by
      rintro rfl
      rw [hid] at hbu
      cases hbu
    exact ⟨grant, budget, hgr, by rw [get?_put_of_ne hne]; exact hbu, himp⟩

end Ledger

namespace Fleet

open Ledger

theorem bytes_nonneg_of_valid {request : ReserveRequest} (h : request.valid = true) : 0 ≤ request.bytes := by
  simp only [ReserveRequest.valid, Bool.and_eq_true] at h
  obtain ⟨⟨⟨-, hbytes⟩, -⟩, -⟩ := h
  split at hbytes
  · exact (of_decide_eq_true hbytes).ge
  · exact (of_decide_eq_true hbytes).le

/-- A reservation repeats an earlier answer, or it is made in the ledger. -/
theorem reserve_eq_ok {digests : Digests} {request : ReserveRequest}
    (h : Fleet.reserve digests request placementID now db = .ok (result, db')) :
    let sorted := { request with budgetIDs := sortIDs request.budgetIDs }
    (∃ row, db.operations.get? request.operationID = some row ∧ OperationResult.decodeGrant row.result = some result ∧ db' = db) ∨
      ∃ ledger operations, 0 ≤ sorted.bytes ∧ db.guardManagedReservation sorted placementID now = .ok () ∧
        db.toLedger.reserve sorted placementID = .ok (result.2, ledger) ∧ result.1 = request.grantID ∧ db' = { db with toLedger := ledger, operations := operations } := by
  simp only [Fleet.reserve, bind_eq_ok, refuse_eq_ok] at h
  obtain ⟨-, hvalid, -, -, hop⟩ := h
  rcases operation_eq_ok hop with ⟨row, hrow, -, hstored, rfl⟩ | ⟨-, mid, hbody, rfl⟩
  · exact .inl ⟨row, hrow, hstored, rfl⟩
  · simp only [bind_eq_ok, pure_eq_ok, Prod.mk.injEq] at hbody
    obtain ⟨-, -, -, -, ⟨⟩, hguard, ⟨grant, ledger⟩, hreserve, rfl, rfl⟩ := hbody
    have hbytes : 0 ≤ request.bytes := bytes_nonneg_of_valid (by simpa using hvalid)
    exact .inr ⟨ledger, _, hbytes, hguard, hreserve, rfl, rfl⟩

theorem toLedger_reserve {digests : Digests} {request : ReserveRequest}
    (h : Fleet.reserve digests request placementID now db = .ok (result, db')) (hdb : db.toLedger.Sound) : db'.toLedger.Sound := by
  rcases reserve_eq_ok h with ⟨-, -, -, rfl⟩ | ⟨ledger, operations, hbytes, -, hreserve, -, rfl⟩
  · exact hdb
  · exact hdb.reserve hbytes hreserve

theorem recordTermUsage_eq_ok (h : db.recordTermUsage now deltas = .ok db') :
    ∃ usages days, db' = { db with termUsages := usages, termUsageDays := days } := by
  simp only [recordTermUsage, unit_bind_eq_ok] at h
  obtain ⟨-, -, h⟩ := h
  generalize deltas.entries = es at h
  induction es generalizing db with
  | nil =>
    cases h
    exact ⟨_, _, rfl⟩
  | cons e es ih =>
    simp only [foldlM_cons, bind_eq_ok] at h
    obtain ⟨mid, hmid, h⟩ := h
    obtain ⟨usages, days, rfl⟩ := ih h
    split at hmid
    · simp only [addTermUsage, unit_bind_eq_ok, pure_eq_ok] at hmid
      obtain ⟨-, -, rfl⟩ := hmid
      exact ⟨_, _, rfl⟩
    · cases hmid
      exact ⟨_, _, rfl⟩

/-- A batch of usage was settled before, or it is the next one and is charged to the ledger and to the terms. -/
theorem ingest_eq_ok {digests : Digests} {peer : Peer} {p : Principal} {b : UsageBatch}
    {receipt : UsageReceipt} (h : Fleet.ingest digests peer p b now db = .ok (receipt, db')) :
    let cursor := (db.cursors.get? (p.nodeID, p.installationID)).getD ⟨0, []⟩
    validBatch b = true ∧ p.require b.nodeID b.installationID = true ∧
      (((b.sequence : Int) ≤ cursor.sequence ∧ receipt = ⟨cursor.sequence.toNat, cursor.sequence.toNat⟩ ∧
          db' = { db with cursors := db.cursors.put (p.nodeID, p.installationID) cursor }) ∨
        ((b.sequence : Int) = cursor.sequence + 1 ∧ receipt = ⟨b.sequence, b.sequence⟩ ∧
          db.toLedger.lockUsage p b = .ok () ∧
          ∃ ledger deltas cursors usages days, Ledger.chargeAll b.checkpoints db.toLedger ∅ = .ok (ledger, deltas) ∧
            recordTermUsage now deltas { db with toLedger := ledger, cursors := cursors } =
              .ok { db with toLedger := ledger, cursors := cursors, termUsages := usages, termUsageDays := days } ∧
            db' = { db with
              toLedger := ledger
              cursors := db.cursors.put (p.nodeID, p.installationID) ⟨b.sequence, digests.batch b⟩
              termUsages := usages
              termUsageDays := days })) := by
  simp only [Fleet.ingest, unit_bind_eq_ok, refuse_eq_ok] at h
  obtain ⟨hvalid, hreq, -, -, h⟩ := h
  refine ⟨by simpa using hvalid, by simpa using hreq, ?_⟩
  split at h
  · next hle =>
    simp only [unit_bind_eq_ok, pure_eq_ok, Prod.mk.injEq] at h
    obtain ⟨-, rfl, rfl⟩ := h
    exact .inl ⟨hle, rfl, rfl⟩
  · simp only [bind_eq_ok, refuse_eq_ok, pure_eq_ok, Prod.mk.injEq, account, not_or, not_not] at h
    obtain ⟨-, ⟨-, hnext⟩, mid, ⟨_, hlock, ⟨ledger, deltas⟩, hcharge, recorded, hrec, rfl⟩, rfl, rfl⟩ := h
    obtain ⟨usages, days, rfl⟩ := recordTermUsage_eq_ok hrec
    exact .inr ⟨hnext, rfl, hlock, ledger, deltas, _, usages, days, hcharge, hrec, by rw [put_put]⟩

theorem toLedger_ingest {digests : Digests} {peer : Peer} {p : Principal} {b : UsageBatch}
    {receipt : UsageReceipt} (h : Fleet.ingest digests peer p b now db = .ok (receipt, db')) (hdb : db.toLedger.Sound) :
    db'.toLedger.Sound := by
  rcases (ingest_eq_ok h).2.2 with ⟨-, -, rfl⟩ | ⟨-, -, -, ledger, deltas, _, _, _, hcharge, -, rfl⟩
  · exact hdb
  · exact Sound.chargeAll hdb hcharge

/-- A credit request is a replay, or it moves the limits of the parent budgets and reserves on the placement's grant. -/
theorem reserveClientCredit_eq_ok {digests : Digests} {request : ClientCreditRequest} {ids : CreditIDs}
    (h : Fleet.reserveClientCredit digests request ids now db = .ok (result, db')) :
    (db.operations.get? request.operationID ≠ none ∧ db' = db) ∨
    (db.operations.get? request.operationID = none ∧ ∃ placement term budgets amount moved db'' placements operations,
      db.creditScope { request with parentBudgetIDs := sortIDs request.parentBudgetIDs } = .ok (placement, term) ∧
      (term.budgetID :: sortIDs request.parentBudgetIDs).Nodup ∧
      db.budgets.updateEach .scope (fun id b => b.moveLimit ((request.parentLimitBytes.get? id).getD 0))
        (sortIDs request.parentBudgetIDs) = .ok budgets ∧
      moved = { db with
        operations := db.operations.put request.operationID
          ⟨digests.clientCredit { request with parentBudgetIDs := sortIDs request.parentBudgetIDs }, .empty⟩
        budgets := budgets } ∧
      moved.toLedger.creditAmount { request with parentBudgetIDs := sortIDs request.parentBudgetIDs } placement.clientID term =
        .ok amount ∧
      Fleet.reserve digests {
        operationID := ids.ledgerOperation
        grantID := if placement.currentGrantTermID = some request.termID then placement.currentGrantID.getD ids.grantID
          else ids.grantID
        nodeID := placement.nodeID, installationID := placement.installationID, runtimeID := placement.runtimeID
        clientID := placement.clientID, termID := request.termID
        budgetIDs := term.budgetID :: sortIDs request.parentBudgetIDs, bytes := amount, unlimited := false }
        request.placementID now moved = .ok (result, db'') ∧
      db' = { db'' with placements := placements, operations := operations }) := by
  simp only [Fleet.reserveClientCredit, bind_eq_ok] at h
  obtain ⟨-, -, -, -, ⟨placement, term⟩, hscope, hop⟩ := h
  rcases operation_eq_ok hop with ⟨row, hrow, -, -, rfl⟩ | ⟨hfree, mid, hbody, rfl⟩
  · exact .inl ⟨by simp [hrow], rfl⟩
  · simp only [bind_eq_ok, pure_eq_ok, Prod.mk.injEq] at hbody
    obtain ⟨_, hlock, budgets, hmove, amount, hamount, ⟨grant, db''⟩, hreserve, rfl, rfl⟩ := hbody
    exact .inr ⟨hfree, placement, term, budgets, amount, _, db'', _, _, hscope, (lockBudgets_eq_ok hlock).1, hmove, rfl, hamount,
      hreserve, rfl⟩

theorem toLedger_reserveClientCredit {digests : Digests} {request : ClientCreditRequest} {ids : CreditIDs}
    (h : Fleet.reserveClientCredit digests request ids now db = .ok (result, db')) (hdb : db.toLedger.Sound) :
    db'.toLedger.Sound := by
  rcases reserveClientCredit_eq_ok h with
    ⟨-, rfl⟩ | ⟨-, _, term, budgets, _, _, db'', _, _, -, hnd, hmove, rfl, -, hreserve, rfl⟩
  · exact hdb
  · have hreserved : db''.toLedger.Sound := by
      refine toLedger_reserve hreserve ?_
      exact hdb.moveLimits (nodup_cons.mp hnd).2 hmove
    exact hreserved

theorem toLedger_transition {digests : Digests} {request : TransitionRequest}
    {result : TransitionResult} (h : Fleet.transition digests request termID now db = .ok (result, db'))
    (hdb : db.toLedger.Sound) : db'.toLedger.Sound := by
  rcases transition_eq_ok h with ⟨-, -, -, -, -, -, rfl⟩ | hran
  · exact hdb
  · have hopens : db.Opens _ _ _ db' := hran.effect
    rw [hopens.ledger]
    exact hdb.createBudget hopens.free.2 hopens.used rfl hopens.fits

end Fleet

inductive LedgerOp where
  | reserve (request : ReserveRequest) (placementID : String) (now : Int)
  | reserveClientCredit (request : ClientCreditRequest) (ids : CreditIDs) (now : Int)
  | transition (request : TransitionRequest) (termID : String) (now : Int)
  | ingest (peer : Peer) (p : Principal) (b : UsageBatch) (now : Int)

def LedgerOp.run (digests : Digests) (db : Fleet) : LedgerOp → Except FleetError Fleet
  | .reserve request placementID now => (·.2) <$> db.reserve digests request placementID now
  | .reserveClientCredit request ids now => (·.2) <$> db.reserveClientCredit digests request ids now
  | .transition request termID now => (·.2) <$> db.transition digests request termID now
  | .ingest peer p b now => (·.2) <$> db.ingest digests peer p b now

def LedgerOp.step (digests : Digests) (db : Fleet) (op : LedgerOp) : Fleet :=
  match op.run digests db with
  | .ok db' => db'
  | .error _ => db

theorem map_snd_eq_ok {ε α β : Type} {x : Except ε (α × β)} {b : β} (h : (·.2) <$> x = .ok b) : ∃ a, x = .ok (a, b) := by
  cases x with
  | error e => cases h
  | ok r =>
    cases h
    exact ⟨r.1, rfl⟩

theorem LedgerOp.sound_step (digests : Digests) (db : Fleet) (op : LedgerOp) (hdb : db.toLedger.Sound) :
    (op.step digests db).toLedger.Sound := by
  unfold LedgerOp.step
  split
  · next db' h =>
    cases op with
    | reserve request placementID now =>
      obtain ⟨result, h⟩ := map_snd_eq_ok h
      exact Fleet.toLedger_reserve h hdb
    | reserveClientCredit request ids now =>
      obtain ⟨result, h⟩ := map_snd_eq_ok h
      exact Fleet.toLedger_reserveClientCredit h hdb
    | transition request termID now =>
      obtain ⟨result, h⟩ := map_snd_eq_ok h
      exact Fleet.toLedger_transition h hdb
    | ingest peer p b now =>
      obtain ⟨receipt, h⟩ := map_snd_eq_ok h
      exact Fleet.toLedger_ingest h hdb
  · exact hdb

namespace Sample

def node : String := "11111111-1111-1111-1111-111111111111"

def grant : String := "22222222-2222-2222-2222-222222222222"

def client : String := "33333333-3333-3333-3333-333333333333"

def digests : Digests where
  payload _ := []
  payloadSize _ := 1
  assetManifest _ := []
  descriptors _ _ _ := []
  update _ := []
  updateSize _ := 1
  updates _ := []
  reserve _ := []
  clientCredit _ := []
  transition _ := []
  complete _ := []
  cancel _ := []
  rateShare _ := []
  stopConfiguration _ _ _ := []
  batch _ := []

def fleet (used : Int) : Fleet where
  budgets := (∅ : Table String FleetBudget).put client ⟨100, false, used, 0⟩
  fence := some ⟨false⟩
  nodes := (∅ : Table String FleetNode).put node { installationID := node, enabled := true }
  nodeJournals := (∅ : Table String FleetNodeJournal).put node ⟨node, some node, false⟩
  runtimeJournals := (∅ : Table (String × String) FleetRuntimeJournal).put (node, "edge")
    { installationID := node, coreID := "edge", stateJournalID := node, creditJournalID := node }

def request (bytes : Int) : ReserveRequest := ⟨grant, grant, node, node, "edge", client, client, [client], bytes, false⟩

theorem opening_fleet {used : Int} (h0 : 0 ≤ used) (h100 : used ≤ 100) : (fleet used).toLedger.Opening := by
  refine ⟨fun id b hb _ => ?_, fun _ => rfl, fun _ => rfl, fun _ => rfl⟩
  rw [show (fleet used).budgets = (∅ : Table String FleetBudget).put client ⟨100, false, used, 0⟩ from rfl, get?_put] at hb
  split at hb
  · cases hb
    exact ⟨h0, h100, rfl⟩
  · cases hb

end Sample

/-- Conservation: from budgets whose opening usage is within their limits, every run of the transactions, with replays,
conflicts and failures, leaves books that balance, and a call that fails there changes no budget, grant, link or
meter. -/
theorem conserved_after (digests : Digests) {db : Fleet} (hdb : db.toLedger.Opening) (ops : List LedgerOp) :
    (Run.after (LedgerOp.step digests) db ops).toLedger.Conserved ∧
      ∀ (op : LedgerOp) (e : FleetError), op.run digests (Run.after (LedgerOp.step digests) db ops) = .error e →
        (op.step digests (Run.after (LedgerOp.step digests) db ops)).toLedger =
          (Run.after (LedgerOp.step digests) db ops).toLedger := by
  constructor
  · exact (Run.inv_after (I := fun db : Fleet => db.toLedger.Sound) (LedgerOp.sound_step digests) hdb.sound ops).toConserved
  · intro op e he
    simp only [LedgerOp.step, he]

/-- A budget of 100 bytes, 10 of them used before, and a request for 40 that is granted: the books balance. -/
theorem conserved_after_request :
    let after := Run.after (LedgerOp.step Sample.digests) (Sample.fleet 10) [.reserve (Sample.request 40) "" 0]
    (Sample.fleet 10).toLedger.Opening ∧ after.budgets.get? Sample.client = some ⟨100, false, 10, 40⟩ ∧
      after.toLedger.Conserved := by
  have hopening := Sample.opening_fleet (show (0 : Int) ≤ 10 by decide) (by decide)
  exact ⟨hopening, by decide +kernel, (conserved_after Sample.digests hopening _).1⟩

end Pui
