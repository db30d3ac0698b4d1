import Mathlib.Algebra.Group.Prod
import Mathlib.Data.List.Sort
import Pui.CreditCeiling

/-!
# The usage of terms

A batch of usage is written to three places.
-/

namespace Pui

open Guard Table List Option

def FleetTermUsage.bytes (u : FleetTermUsage) : Int × Int := (u.uploaded, u.downloaded)

def FleetTermUsageDay.bytes (d : FleetTermUsageDay) : Int × Int := (d.uploaded, d.downloaded)

def TermUsageDelta.bytes (d : TermUsageDelta) : Int × Int := (d.uploaded, d.downloaded)

def TermDeltas.share (deltas : TermDeltas) (termID : String) : Int × Int :=
  deltas.total fun k d => if k.2 = termID then d.bytes else 0

def Ledger.consumedIn (l : Ledger) (termID : String) : Int := l.grants.total fun _ g => if g.termID = termID then g.consumedBytes else 0

def Fleet.projection (db : Fleet) (termID : String) : Int × Int := (db.termUsages.get? termID).elim 0 FleetTermUsage.bytes

def Fleet.history (db : Fleet) (termID : String) : Int × Int :=
  db.termUsageDays.total fun k d => if k.1 = termID then d.bytes else 0

def Fleet.unknownTermUsage (db : Fleet) (termID : String) (t : FleetTerm) : Bool :=
  match db.termUsages.get? termID, db.budgets.get? t.budgetID with
  | some u, some b => b.usedBytes ≠ t.openingUploaded + t.openingDownloaded + u.uploaded + u.downloaded
  | _, _ => true

variable {deltas deltas' : TermDeltas} {l l' : Ledger} {cs : List UsageCheckpoint} {now : Int} {result : String × FleetGrant}
  {request : ClientCreditRequest}

theorem TermDeltas.share_add {key : String × String} {up down observed : Int} (hup : 0 ≤ up)
    (hdown : 0 ≤ down) (h : deltas.add key up down observed = .ok deltas') (id : String) :
    deltas'.share id = deltas.share id + if key.2 = id then (up, down) else 0 := by
  unfold TermDeltas.add at h
  split at h
  · simp only [unit_bind_eq_ok, pure_eq_ok] at h
    obtain ⟨-, rfl⟩ := h
    refine total_put_of_add ?_
    by_cases hid : key.2 = id
    · simp only [if_pos hid]
      cases deltas.get? key with
      | none => rfl
      | some d => rfl
    · simp only [if_neg hid, add_zero]
      cases deltas.get? key with
      | none => rfl
      | some d => rfl
  · cases h
    obtain rfl : up = 0 := by omega
    obtain rfl : down = 0 := by omega
    have hnothing : (if key.2 = id then ((0, 0) : Int × Int) else 0) = 0 := ite_self _
    rw [hnothing, add_zero]

namespace Ledger

theorem consumedIn_put {grantID : String} {g g' : FleetGrant} (hgrants : l'.grants = l.grants.put grantID g')
    (hg : l.grants.get? grantID = some g) (hterm : g'.termID = g.termID) (id : String) :
    l'.consumedIn id = l.consumedIn id + if g.termID = id then g'.consumedBytes - g.consumedBytes else 0 := by
  have hput := total_put_of_get? hg g' fun _ g => if g.termID = id then g.consumedBytes else 0
  unfold consumedIn
  rw [hgrants]
  rw [hterm] at hput
  split at hput
  · next hid =>
    rw [if_pos hid]
    omega
  · next hid =>
    rw [if_neg hid]
    omega

theorem consumedIn_charge {c : UsageCheckpoint}
    (h : l.charge c deltas = .ok (l', deltas')) (id : String) :
    l'.consumedIn id + ((deltas.share id).1 + (deltas.share id).2) =
      l.consumedIn id + ((deltas'.share id).1 + (deltas'.share id).2) := by
  obtain ⟨g, delta, hc, hadd⟩ := charges_of_charge h
  have hup := hc.uploaded
  have hdown := hc.downloaded
  have hdelta := hc.delta_eq
  rw [consumedIn_put hc.grants hc.grant rfl, TermDeltas.share_add (by omega) (by omega) hadd]
  by_cases hid : g.termID = id
  · simp only [if_pos hid, Prod.fst_add, Prod.snd_add]
    omega
  · simp only [if_neg hid, add_zero]

theorem consumedIn_chargeAll (h : chargeAll cs l deltas = .ok (l', deltas')) (id : String) :
    l'.consumedIn id + ((deltas.share id).1 + (deltas.share id).2) =
      l.consumedIn id + ((deltas'.share id).1 + (deltas'.share id).2) := by
  induction cs generalizing l deltas with
  | nil =>
    cases h
    rfl
  | cons c cs ih =>
    simp only [chargeAll, bind_eq_ok] at h
    obtain ⟨⟨mid, d⟩, hcharge, h⟩ := h
    change chargeAll cs mid d = _ at h
    have hstep := consumedIn_charge hcharge id
    have hrest := ih h
    omega

theorem owners_chargeAll (h : chargeAll cs l deltas = .ok (l', deltas')) : l'.links = l.links ∧ ∀ id g', l'.grants.get? id = some g' →
      ∃ g, l.grants.get? id = some g ∧ g.clientID = g'.clientID ∧ g.termID = g'.termID := by
  induction cs generalizing l deltas with
  | nil =>
    cases h
    exact ⟨rfl, fun id g' hg' => ⟨g', hg', rfl, rfl⟩⟩
  | cons c cs ih =>
    simp only [chargeAll, bind_eq_ok] at h
    obtain ⟨⟨mid, d⟩, hcharge, h⟩ := h
    obtain ⟨g, delta, hc, -⟩ := charges_of_charge hcharge
    obtain ⟨hlinks, howners⟩ := ih h
    refine ⟨hlinks.trans hc.links, fun id g' hg' => ?_⟩
    obtain ⟨g₁, hg₁, hclient, hterm⟩ := howners id g' hg'
    rw [hc.grants, get?_put] at hg₁
    split at hg₁
    · next hid =>
      cases hg₁
      subst hid
      exact ⟨g, hc.grant, hclient, hterm⟩
    · exact ⟨g₁, hg₁, hclient, hterm⟩

end Ledger

namespace Fleet

variable {digests : Digests} {db db' : Fleet}

theorem addTermUsage_eq_ok {termID : String} {delta : TermUsageDelta} (h : db.addTermUsage now termID delta = .ok db') :
    (∀ id, db'.projection id = db.projection id + if termID = id then delta.bytes else 0) ∧
      (∀ id, db'.history id = db.history id + if termID = id then delta.bytes else 0) ∧
      (∀ id, (db.termUsages.get? id).isSome → (db'.termUsages.get? id).isSome) ∧
      (∀ k d, db'.termUsageDays.get? k = some d → k.1 = termID ∨ ∃ d, db.termUsageDays.get? k = some d) ∧ db'.terms = db.terms := by
  simp only [addTermUsage, unit_bind_eq_ok, pure_eq_ok] at h
  obtain ⟨-, -, rfl⟩ := h
  refine ⟨fun id => ?_, fun id => ?_, fun id hid => ?_, fun k d hd => ?_, rfl⟩
  · unfold projection
    show ((db.termUsages.put termID _).get? id).elim 0 FleetTermUsage.bytes = _
    rw [get?_put]
    by_cases hid : id = termID
    · subst hid
      rw [if_pos rfl, if_pos rfl, elim_some]
      cases db.termUsages.get? id <;> rfl
    · rw [if_neg hid, if_neg fun h => hid h.symm, add_zero]
  · refine total_put_of_add ?_
    by_cases hid : termID = id
    · simp only [if_pos hid]
      cases db.termUsageDays.get? (termID, (now / 1000).tdiv 86400 * 86400) with
      | none => rfl
      | some d => rfl
    · simp only [if_neg hid, add_zero]
      cases db.termUsageDays.get? (termID, (now / 1000).tdiv 86400 * 86400) with
      | none => rfl
      | some d => rfl
  · show ((db.termUsages.put termID _).get? id).isSome
    rw [get?_put]
    split
    · rfl
    · exact hid
  · change (db.termUsageDays.put _ _).get? k = some d at hd
    rw [get?_put] at hd
    split at hd
    · next hk => exact .inl (by rw [hk])
    · exact .inr ⟨d, hd⟩

theorem recordTermUsage_adds (h : db.recordTermUsage now deltas = .ok db') :
    (∀ id, (db.terms.get? id).isSome → db'.projection id = db.projection id + deltas.share id ∧
      db'.history id = db.history id + deltas.share id) ∧
    (∀ id, (db.termUsages.get? id).isSome → (db'.termUsages.get? id).isSome) ∧
    (∀ k d, db'.termUsageDays.get? k = some d → (db.terms.get? k.1).isSome ∨ ∃ d, db.termUsageDays.get? k = some d) := by
  simp only [recordTermUsage, unit_bind_eq_ok] at h
  obtain ⟨-, -, h⟩ := h
  unfold TermDeltas.share total
  generalize deltas.entries = es at h ⊢
  induction es generalizing db with
  | nil =>
    cases h
    exact ⟨fun _ _ => ⟨(add_zero _).symm, (add_zero _).symm⟩, fun _ h => h, fun k d hd => .inr ⟨d, hd⟩⟩
  | cons e es ih =>
    simp only [foldlM_cons, bind_eq_ok] at h
    obtain ⟨mid, hmid, h⟩ := h
    obtain ⟨hadds, hkept, hrows⟩ := ih h
    split at hmid
    · next hterm =>
      obtain ⟨hprojection, hhistory, hkept', hrows', hterms⟩ := addTermUsage_eq_ok hmid
      rw [hterms] at hadds hrows
      refine ⟨fun id hid => ?_, fun id hid => hkept id (hkept' id hid), fun k d hd => ?_⟩
      · obtain ⟨hp, hh⟩ := hadds id hid
        rw [map_cons, sum_cons, hp, hh, hprojection, hhistory, add_assoc, add_assoc]
        exact ⟨rfl, rfl⟩
      · rcases hrows k d hd with hsome | ⟨d', hd'⟩
        · exact .inl hsome
        · rcases hrows' k d' hd' with hk | hold
          · exact .inl (by rw [hk]; exact hterm)
          · exact .inr hold
    · next hterm =>
      cases hmid
      refine ⟨fun id hid => ?_, hkept, hrows⟩
      have hne : e.1.2 ≠ id := by
        rintro rfl
        exact hterm hid
      simp only [map_cons, sum_cons, if_neg hne, zero_add]
      exact hadds id hid

structure Projected (db : Fleet) : Prop extends Settled db where
  owned : ∀ id g, db.grants.get? id = some g → (db.clients.get? g.clientID).isSome
  exclusive : ∀ id g u termID, db.links.get? (id, termID) = some u → db.grants.get? id = some g →
    (db.terms.get? termID).isSome → g.termID = termID
  recorded : ∀ id, (db.terms.get? id).isSome → (db.termUsages.get? id).isSome
  usage : ∀ id, (db.terms.get? id).isSome → (db.projection id).1 + (db.projection id).2 = db.toLedger.consumedIn id
  days : ∀ id, (db.terms.get? id).isSome → db.history id = db.projection id
  rows : ∀ k d, db.termUsageDays.get? k = some d → (db.terms.get? k.1).isSome

theorem Unissued.projected (h : db.Unissued) (hdays : ∀ k, db.termUsageDays.get? k = none) : db.Projected where
  toSettled := h.settled
  owned id g hg := by simp [h.grants id] at hg
  exclusive id g u termID hu := by simp [h.links] at hu
  recorded id hid := by simp [h.terms id] at hid
  usage id hid := by simp [h.terms id] at hid
  days id hid := by simp [h.terms id] at hid
  rows k d hd := by simp [hdays k] at hd

theorem SameTerms.isSome (h : db.SameTerms db') (id : String) : (db'.terms.get? id).isSome = (db.terms.get? id).isSome := by
  rw [← isSome_map, h.terms, isSome_map]

theorem Projected.untouched (h : db.Projected) (hsame : db.Untouched db') : db'.Projected where
  toSettled := h.toSettled.of_ledger hsame.toSameTerms hsame.ledger
  owned := by
    intro id g
    rw [hsame.ledger, hsame.clients]
    exact h.owned id g
  exclusive := by
    intro id g u termID
    rw [hsame.ledger, hsame.toSameTerms.isSome]
    exact h.exclusive id g u termID
  recorded := by
    intro id
    rw [hsame.toSameTerms.isSome, hsame.usages]
    exact h.recorded id
  usage := by
    intro id
    unfold projection
    rw [hsame.toSameTerms.isSome, hsame.usages, hsame.ledger]
    exact h.usage id
  days := by
    intro id
    unfold history projection
    rw [hsame.toSameTerms.isSome, hsame.usages, hsame.days]
    exact h.days id
  rows := by
    intro k d
    rw [hsame.toSameTerms.isSome, hsame.days]
    exact h.rows k d

theorem Projected.opens {clientID termID : String} {spec : TermSpec} (h : db.Projected)
    (hopens : db.Opens clientID termID spec db') :
    db'.Projected := by
  have hsettled := h.toSettled.opens hopens
  obtain ⟨⟨hfree, hbudget⟩, -, -, -, hledger, hterms, hclients, -, husages, hdays⟩ := hopens
  have hgrants : db'.grants = db.grants := by rw [hledger]
  have hlinks : db'.links = db.links := by rw [hledger]
  have hconsumed : ∀ id, db'.toLedger.consumedIn id = db.toLedger.consumedIn id := by
    intro id
    rw [hledger]
    rfl
  have hhistory : ∀ id, db'.history id = db.history id := by
    intro id
    unfold history
    rw [hdays]
  have hterm : ∀ id, (db'.terms.get? id).isSome → id = termID ∨ id ≠ termID ∧ (db.terms.get? id).isSome := by
    intro id hid
    have hscope := hterms id
    by_cases he : id = termID
    · exact .inl he
    · rw [if_neg he] at hscope
      rw [← isSome_map (f := FleetTerm.scope), hscope, isSome_map] at hid
      exact .inr ⟨he, hid⟩
  have hkept : ∀ id, (db.terms.get? id).isSome → (db'.terms.get? id).isSome := by
    intro id hid
    have hscope := hterms id
    rw [← isSome_map (f := FleetTerm.scope), hscope]
    split
    · rfl
    · rw [isSome_map]
      exact hid
  have hprojection : ∀ id, db'.projection id = if id = termID then 0 else db.projection id := by
    intro id
    unfold projection
    rw [husages, get?_put]
    split
    · rfl
    · rfl
  -- every grant's term was there before, so none is of the new term
  have hunused : db.toLedger.consumedIn termID = 0 := by
    refine total_eq_zero fun id g hg => if_neg ?_
    rintro rfl
    obtain ⟨t, -, ht, -⟩ := h.linked id g hg (h.owned id g hg)
    rw [hfree] at ht
    cases ht
  have hempty : db.history termID = 0 := by
    refine total_eq_zero fun k d hd => if_neg ?_
    rintro rfl
    have hsome := h.rows k d hd
    rw [hfree] at hsome
    cases hsome
  refine ⟨hsettled, fun id g hg => ?_, fun id g u b hu hg hb => ?_, fun id hid => ?_, fun id hid => ?_, fun id hid => ?_,
    fun k d hd => ?_⟩
  · rw [hclients]
    exact h.owned id g (by rw [← hgrants]; exact hg)
  · rw [hlinks] at hu
    rw [hgrants] at hg
    rcases hterm b hb with rfl | ⟨-, hold⟩
    · obtain ⟨-, budget, hbud⟩ := h.refers id b u hu
      rw [hbudget] at hbud
      cases hbud
    · exact h.exclusive id g u b hu hg hold
  · rw [husages, get?_put]
    rcases hterm id hid with rfl | ⟨hne, hold⟩
    · rw [if_pos rfl]
      rfl
    · rw [if_neg hne]
      exact h.recorded id hold
  · rw [hprojection, hconsumed]
    rcases hterm id hid with rfl | ⟨hne, hold⟩
    · rw [if_pos rfl, hunused]
      rfl
    · rw [if_neg hne]
      exact h.usage id hold
  · rw [hprojection, hhistory]
    rcases hterm id hid with rfl | ⟨hne, hold⟩
    · rw [if_pos rfl, hempty]
    · rw [if_neg hne]
      exact h.days id hold
  · rw [hdays] at hd
    exact hkept _ (h.rows k d hd)

structure SameUsage (db db' : Fleet) : Prop where
  terms : db'.terms = db.terms
  clients : db'.clients = db.clients
  usages : db'.termUsages = db.termUsages
  days : db'.termUsageDays = db.termUsageDays

theorem Projected.issues (h : db.Projected) (hsettled : db'.Settled) (hsame : db.SameUsage db')
    (hgrants : ∀ id g', db'.grants.get? id = some g' → (db.clients.get? g'.clientID).isSome)
    (hlinks : ∀ id g' u termID, db'.links.get? (id, termID) = some u → db'.grants.get? id = some g' →
      (db.terms.get? termID).isSome → g'.termID = termID)
    (hconsumed : ∀ id, db'.toLedger.consumedIn id = db.toLedger.consumedIn id) : db'.Projected where
  toSettled := hsettled
  owned := by
    rw [hsame.clients]
    exact hgrants
  exclusive := by
    rw [hsame.terms]
    exact hlinks
  recorded := by
    rw [hsame.terms, hsame.usages]
    exact h.recorded
  usage := by
    intro id
    unfold projection
    rw [hsame.terms, hsame.usages, hconsumed]
    exact h.usage id
  days := by
    intro id
    unfold history projection
    rw [hsame.terms, hsame.usages, hsame.days]
    exact h.days id
  rows := by
    rw [hsame.terms, hsame.days]
    exact h.rows

theorem Projected.of_grants (h : db.Projected) (hsettled : db'.Settled) (hsame : db.SameUsage db')
    (hgrants : db'.grants = db.grants) (hlinks : db'.links = db.links) : db'.Projected := by
  refine h.issues hsettled hsame ?_ ?_ fun id => ?_
  · rw [hgrants]
    exact h.owned
  · rw [hgrants, hlinks]
    exact h.exclusive
  · unfold Ledger.consumedIn
    rw [hgrants]

theorem Projected.reserves {request : ReserveRequest} {g : FleetGrant} (h : db.Projected) (hsettled : db'.Settled)
    (hsame : db.SameUsage db') (hr : Ledger.Reserves db.toLedger request g db'.toLedger)
    (hclient : (db.clients.get? request.clientID).isSome)
    (hbudgets : ∀ b ∈ request.budgetIDs, (db.terms.get? b).isSome → request.termID = b) : db'.Projected := by
  have hcases : ∀ id g', db'.grants.get? id = some g' →
      (id = request.grantID ∧ g' = g) ∨ (id ≠ request.grantID ∧ db.grants.get? id = some g') := by
    rw [hr.grants]
    exact fun _ _ => get?_put_eq_some.mp
  refine h.issues hsettled hsame (fun id g' hg' => ?_) (fun id g' u termID hu hg' hterm => ?_) fun id => ?_
  · rcases hcases id g' hg' with ⟨-, rfl⟩ | ⟨-, hg⟩
    · rw [hr.owner.1]
      exact hclient
    · exact h.owned id g' hg
  · rcases hr.link id termID u hu with ⟨rfl, hmem⟩ | hlink
    · rcases hcases _ g' hg' with ⟨-, rfl⟩ | ⟨hne, -⟩
      · rw [hr.owner.2]
        exact hbudgets termID hmem hterm
      · exact absurd rfl hne
    · rcases hcases id g' hg' with ⟨rfl, rfl⟩ | ⟨-, hg⟩
      · -- a link that was there belongs to a grant that was there
        obtain ⟨⟨old, hold⟩, -⟩ := h.refers _ _ u hlink
        rw [hr.owner.2, ← (hr.keptOwner old hold).2]
        exact h.exclusive _ old u termID hlink hold hterm
      · exact h.exclusive id g' u termID hlink hg hterm
  · have hput := db.grants.total_put_add request.grantID g fun _ g => if g.termID = id then g.consumedBytes else 0
    unfold Ledger.consumedIn
    rw [hr.grants]
    cases hold : db.grants.get? request.grantID with
    | none =>
      have hzero : g.consumedBytes = 0 := by rw [hr.consumed, hold, elim_none]
      rw [hold, elim_none, hzero, ite_self] at hput
      omega
    | some old =>
      have heq : g.consumedBytes = old.consumedBytes := by rw [hr.consumed, hold, elim_some]
      have hterm : g.termID = old.termID := hr.owner.2.trans (hr.keptOwner old hold).2.symm
      rw [hold, elim_some, heq, hterm] at hput
      omega

theorem reserve_sameUsage {request : ReserveRequest} {placementID : String}
    (h : db.reserve digests request placementID now = .ok (result, db')) : db.SameUsage db' := by
  rcases reserve_eq_ok h with ⟨-, -, -, rfl⟩ | ⟨ledger, operations, -, -, -, -, rfl⟩
  · exact ⟨rfl, rfl, rfl, rfl⟩
  · exact ⟨rfl, rfl, rfl, rfl⟩

theorem reserveClientCredit_sameUsage {ids : CreditIDs}
    (h : db.reserveClientCredit digests request ids now = .ok (result, db')) : db.SameUsage db' := by
  rcases reserveClientCredit_eq_ok h with
    ⟨-, rfl⟩ | ⟨-, _, _, _, _, _, _, _, _, -, -, -, rfl, -, hreserve, rfl⟩
  · exact ⟨rfl, rfl, rfl, rfl⟩
  · have hsame := reserve_sameUsage hreserve
    exact ⟨hsame.terms, hsame.clients, hsame.usages, hsame.days⟩

theorem Projected.reserveClientCredit {ids : CreditIDs}
    (h : db.Projected) (hparents : ∀ id ∈ request.parentBudgetIDs, db.terms.get? id = none)
    (hrun : db.reserveClientCredit digests request ids now = .ok (result, db')) : db'.Projected := by
  have hsettled := h.toSettled.reserveClientCredit hrun
  have hsame := reserveClientCredit_sameUsage hrun
  rcases reserveClientCredit_eq_ok hrun with
    ⟨-, rfl⟩ | ⟨-, placement, term, budgets, amount, moved, db'', _, _, hscope, hnd, hmove, hmoved, -, hreserve, hdb'⟩
  · exact h
  · have hledger : db'.toLedger = db''.toLedger := by rw [hdb']
    obtain ⟨-, hclient, hterm⟩ := creditScope_eq_ok hscope
    have hset : moved.Settled := by
      rw [hmoved]
      exact (h.toSettled.moveLimits (nodup_cons.mp hnd).2 hmove).of_operations _
    have hgrants : moved.grants = db.grants := by rw [hmoved]
    have hlinks : moved.links = db.links := by rw [hmoved]
    have hmovedSame : db.SameUsage moved := by
      rw [hmoved]
      exact ⟨rfl, rfl, rfl, rfl⟩
    rcases reserve_cases hset hreserve with ⟨-, -, -, hkept⟩ | ⟨-, hr⟩
    · refine h.of_grants hsettled hsame ?_ ?_
      · rw [hledger, hkept]
        exact hgrants
      · rw [hledger, hkept]
        exact hlinks
    · rw [← hledger] at hr
      refine (h.of_grants hset hmovedSame hgrants hlinks).reserves hsettled ?_ hr ?_ fun b hb hsome => ?_
      · exact ⟨hsame.terms.trans hmovedSame.terms.symm, hsame.clients.trans hmovedSame.clients.symm,
          hsame.usages.trans hmovedSame.usages.symm, hsame.days.trans hmovedSame.days.symm⟩
      · rw [hmovedSame.clients]
        exact hclient
      · rw [hmovedSame.terms] at hsome
        rcases mem_cons.mp (mem_sortIDs.mp hb) with rfl | hb
        · exact (h.own _ term hterm).1.symm
        · rw [hparents b (mem_sortIDs.mp hb)] at hsome
          cases hsome

theorem Projected.ingest {peer : Peer} {p : Principal} {b : UsageBatch} {receipt : UsageReceipt} (h : db.Projected)
    (hrun : db.ingest digests peer p b now = .ok (receipt, db')) : db'.Projected := by
  have hsettled := h.toSettled.ingest hrun
  rcases (ingest_eq_ok hrun).2.2 with ⟨-, -, rfl⟩ | ⟨-, -, -, ledger, deltas, cursors, usages, days, hcharge, hrec, rfl⟩
  · exact h.of_grants hsettled ⟨rfl, rfl, rfl, rfl⟩ rfl rfl
  · obtain ⟨hlinks, howners⟩ := Ledger.owners_chargeAll hcharge
    obtain ⟨hadds, hkept, hrows⟩ := recordTermUsage_adds hrec
    refine ⟨hsettled, fun id g' hg' => ?_, fun id g' u termID hu hg' hterm => ?_, fun id hid => hkept id (h.recorded id hid),
      fun id hid => ?_, fun id hid => ?_, fun k d hd => ?_⟩
    · obtain ⟨g, hg, hclient, -⟩ := howners id g' hg'
      exact hclient ▸ h.owned id g hg
    · obtain ⟨g, hg, -, hgterm⟩ := howners id g' hg'
      exact hgterm ▸ h.exclusive id g u termID (hlinks ▸ hu) hg hterm
    · have hold := h.usage id hid
      have hstep := Ledger.consumedIn_chargeAll hcharge id
      rw [show TermDeltas.share ∅ id = 0 from rfl, Prod.fst_zero, Prod.snd_zero] at hstep
      refine (congrArg (fun share => share.1 + share.2) (hadds id hid).1).trans ?_
      change (db.projection id + deltas.share id).1 + (db.projection id + deltas.share id).2 = ledger.consumedIn id
      rw [Prod.fst_add, Prod.snd_add]
      omega
    · refine (hadds id hid).2.trans (Eq.trans ?_ (hadds id hid).1.symm)
      exact congrArg (· + deltas.share id) (h.days id hid)
    · rcases hrows k d hd with hsome | ⟨d', hd'⟩
      · exact hsome
      · exact h.rows k d' hd'

end Fleet

/-- A call that moves a client between terms, issues credit or settles usage. -/
inductive UsageOp where
  | lifecycle (op : TermOp)
  | reserveClientCredit (request : ClientCreditRequest) (ids : CreditIDs) (now : Int)
  | ingest (peer : Peer) (p : Principal) (b : UsageBatch) (now : Int)

namespace UsageOp

def run (digests : Digests) (db : Fleet) : UsageOp → Except FleetError Fleet
  | .lifecycle op => (·.2) <$> op.run digests db
  | .reserveClientCredit request ids now => (·.2) <$> db.reserveClientCredit digests request ids now
  | .ingest peer p b now => (·.2) <$> db.ingest digests peer p b now

def step (digests : Digests) (db : Fleet) (op : UsageOp) : Fleet :=
  match op.run digests db with
  | .ok db' => db'
  | .error _ => db

def SparesTerms (db : Fleet) : UsageOp → Prop
  | .reserveClientCredit request _ _ => ∀ id ∈ request.parentBudgetIDs, db.terms.get? id = none
  | _ => True

instance (db : Fleet) : (op : UsageOp) → Decidable (op.SparesTerms db)
  | .lifecycle _ => inferInstanceAs (Decidable True)
  | .reserveClientCredit request _ _ => inferInstanceAs (Decidable (∀ id ∈ request.parentBudgetIDs, db.terms.get? id = none))
  | .ingest .. => inferInstanceAs (Decidable True)

theorem projected_step (digests : Digests) (db : Fleet) (op : UsageOp) (hop : op.SparesTerms db) (hdb : db.Projected) :
    (op.step digests db).Projected := by
  unfold step
  split
  · next db' h =>
    cases op with
    | lifecycle op =>
      obtain ⟨result, h⟩ := map_snd_eq_ok h
      rcases TermOp.run_eq_ok h with ⟨-, -, -, -, -, -, rfl⟩ | hran
      · exact hdb
      · cases op with
        | transition request termID now => exact hdb.opens hran.effect
        | complete request now => exact hdb.untouched hran.effect
        | cancel request => exact hdb.untouched hran.effect
    | reserveClientCredit request ids now =>
      obtain ⟨result, h⟩ := map_snd_eq_ok h
      exact hdb.reserveClientCredit hop h
    | ingest peer p b now =>
      obtain ⟨receipt, h⟩ := map_snd_eq_ok h
      exact hdb.ingest h
  · exact hdb

end UsageOp

namespace Fleet

variable {db : Fleet}

theorem Projected.exclusive_term (h : db.Projected) {id : String} {t : FleetTerm} (ht : db.terms.get? id = some t) :
    db.Exclusive t.clientID id := by
  intro gid g u hu hg
  have hterm := h.exclusive gid g u id hu hg (by rw [ht]; rfl)
  obtain ⟨t', -, ht', hclient, -⟩ := h.linked gid g hg (h.owned gid g hg)
  rw [hterm, ht] at ht'
  cases ht'
  exact ⟨hclient.symm, hterm⟩

theorem Projected.total_consumed (h : db.Projected) {id : String} {t : FleetTerm} (ht : db.terms.get? id = some t) :
    ((db.toLedger.termGrants t.clientID id).total fun _ g => g.consumedBytes) = db.toLedger.consumedIn id := by
  unfold Ledger.termGrants Ledger.consumedIn
  rw [total_keep]
  refine total_congr fun gid g hg => ?_
  by_cases hterm : g.termID = id
  · obtain ⟨t', -, ht', hclient, -⟩ := h.linked gid g hg (h.owned gid g hg)
    rw [hterm, ht] at ht'
    cases ht'
    simp [hterm, hclient]
  · simp [hterm]

theorem history_eq (db : Fleet) (id : String) :
    db.history id = (db.termUsageDays.total fun k d => if k.1 = id then d.uploaded else 0,
      db.termUsageDays.total fun k d => if k.1 = id then d.downloaded else 0) := by
  unfold history total
  induction db.termUsageDays.entries with
  | nil => rfl
  | cons e es ih =>
    simp only [map_cons, sum_cons] at ih ⊢
    rw [ih]
    by_cases hid : e.1.1 = id
    · simp only [if_pos hid]
      rfl
    · simp only [if_neg hid, zero_add]

end Fleet

/-- The projections of usage agree with the ledger. In every run of the lifecycle, of credit requests that name no
term's own budget as a parent, and of batches of usage: the usage row of a term counts what its grants consumed, which
is what its own budget has used since it was opened, and the term's days add up to it. -/
theorem usage_agrees (digests : Digests) {db : Fleet} (hdb : db.Unissued) (hdays : ∀ k, db.termUsageDays.get? k = none)
    {ops : List UsageOp} (hops : Run.Along (UsageOp.step digests) (fun db op => op.SparesTerms db) db ops) :
    let now := Run.after (UsageOp.step digests) db ops
    ∀ id t, now.terms.get? id = some t → ∃ own, now.budgets.get? t.budgetID = some own ∧
      (now.projection id).1 + (now.projection id).2 = ((now.toLedger.termGrants t.clientID id).total fun _ g => g.consumedBytes) ∧
      (now.projection id).1 + (now.projection id).2 = own.usedBytes - (t.openingUploaded + t.openingDownloaded) ∧
      (now.projection id).1 = (now.termUsageDays.total fun k d => if k.1 = id then d.uploaded else 0) ∧
      (now.projection id).2 = (now.termUsageDays.total fun k d => if k.1 = id then d.downloaded else 0) ∧
      now.unknownTermUsage id t = false := by
  intro now id t ht
  have h : now.Projected := Run.inv_after_along (UsageOp.projected_step digests) (hdb.projected hdays) hops
  have hsome : (now.terms.get? id).isSome := by rw [ht]; rfl
  obtain ⟨hid, own, hown, hused⟩ := h.own id t ht
  have husage := h.usage id hsome
  have hconsumed := h.total_consumed ht
  have hdrawn : drawn FleetGrant.consumedBytes now.grants now.links id = now.toLedger.consumedIn id := by
    rw [← (h.exclusive_term ht).drawn_eq, ← Fleet.total_termGrants _ FleetGrant.consumedBytes, hconsumed]
    rintro gid g hg - rfl
    exact h.toSettled.link_of_client (h.owned gid g hg) _ gid g hg rfl rfl
  obtain ⟨hup, hdown⟩ := Prod.mk.inj ((h.days id hsome).symm.trans (now.history_eq id))
  refine ⟨own, by rw [hid]; exact hown, husage.trans hconsumed.symm, by omega, hup, hdown, ?_⟩
  obtain ⟨u, hu⟩ := isSome_iff_exists.mp (h.recorded id hsome)
  have hbytes : now.projection id = u.bytes := by rw [Fleet.projection, hu, elim_some]
  rw [Fleet.unknownTermUsage, hu, hid, hown]
  rw [hbytes, FleetTermUsage.bytes] at husage
  simp only [ne_eq, decide_not, Bool.not_eq_false', decide_eq_true_eq]
  omega

namespace Sample

def otherTerm : String := "77777777-7777-7777-7777-777777777777"

def activateOther : TransitionRequest := { activation with operationID := placement, clientID := other }

def batch (clientID termID : String) : UsageBatch := ⟨node, node, 1, [⟨clientID, termID, "edge", node, 3, 4, 1, grant⟩]⟩

def ingest (clientID termID : String) : UsageOp := .ingest ⟨none, fun _ => none⟩ ⟨"", node, node, ""⟩ (batch clientID termID) 8

def usageRun : List UsageOp :=
  [.lifecycle (.transition activation ⟨term, by decide⟩ 5),
    .reserveClientCredit (credit client placement term [] 40 0) ⟨grant, other⟩ 6, ingest client term]

/-- Two clients, one of which draws on the budget of the other's term. -/
def sharedRun : List UsageOp :=
  [.lifecycle (.transition activation ⟨term, by decide⟩ 5), .lifecycle (.transition activateOther ⟨otherTerm, by decide⟩ 5),
    .reserveClientCredit (credit client other otherTerm [term] 40 0) ⟨grant, other⟩ 6, ingest other otherTerm]

end Sample

/-- Seven bytes that a term used: the usage row has them, and so has its budget. -/
theorem usage_agrees_run :
    let now := Run.after (UsageOp.step Sample.digests) Sample.placed Sample.usageRun
    now.projection Sample.term = (3, 4) ∧ ∃ t own, now.terms.get? Sample.term = some t ∧
      now.budgets.get? t.budgetID = some own ∧ 7 = own.usedBytes - (t.openingUploaded + t.openingDownloaded) ∧
      now.unknownTermUsage Sample.term t = false := by
  have hrun : Run.Along (UsageOp.step Sample.digests) (fun db op => op.SparesTerms db) Sample.placed Sample.usageRun ∧
      (let now := Run.after (UsageOp.step Sample.digests) Sample.placed Sample.usageRun
      now.projection Sample.term = (3, 4) ∧ (now.terms.get? Sample.term).isSome) := by decide +kernel
  obtain ⟨halong, hprojection, hterm⟩ := hrun
  obtain ⟨t, ht⟩ := isSome_iff_exists.mp hterm
  obtain ⟨own, hown, -, hused, -, -, hknown⟩ := usage_agrees Sample.digests Sample.unissued_placed (fun _ => rfl) halong _ t ht
  refine ⟨hprojection, t, own, ht, hown, ?_, hknown⟩
  rw [hprojection] at hused
  exact hused

theorem sortIDs_eq_insertionSort (ids : List String) : sortIDs ids = ids.insertionSort (· ≤ ·) :=
  mergeSort_eq_insertionSort (· ≤ ·) ids

/-- Seven bytes that another client used through a budget that its credit names as a parent: the budget of the term has
them, the usage row has not, and the usage test of the group summaries fails. -/
theorem shared_budget_is_unknown_usage :
    let now := Run.after (UsageOp.step Sample.digests) Sample.placed Sample.sharedRun
    ∃ t own, now.terms.get? Sample.term = some t ∧ now.budgets.get? t.budgetID = some own ∧
      own.usedBytes - (t.openingUploaded + t.openingDownloaded) = 7 ∧ now.projection Sample.term = (0, 0) ∧
      now.unknownTermUsage Sample.term t = true := by
  intro now
  have hnow : ((now.terms.get? Sample.term).bind fun t => (now.budgets.get? t.budgetID).map fun own =>
      (own.usedBytes - (t.openingUploaded + t.openingDownloaded), now.projection Sample.term, now.unknownTermUsage Sample.term t)) =
      some (7, (0, 0), true) := by
    simp only [now, Run.after, Sample.sharedRun, foldl_cons, foldl_nil, UsageOp.step, UsageOp.run,
      Fleet.reserveClientCredit, Fleet.reserve, sortIDs_eq_insertionSort]
    decide +kernel
  obtain ⟨t, ht, hnow⟩ := bind_eq_some_iff.mp hnow
  obtain ⟨own, hown, hnow⟩ := map_eq_some_iff.mp hnow
  simp only [Prod.mk.injEq] at hnow
  exact ⟨t, own, ht, hown, hnow.1, hnow.2.1, hnow.2.2⟩

end Pui
