import Mathlib.Order.Bounds.Basic
import Pui.TermBudgets

/-!
# The authority ceiling

A credit request may carry a ceiling on what its client's term stands for.
-/

namespace Pui

open Guard Table List

def Ledger.issuedTo (l : Ledger) (clientID termID : String) : Int := (l.termGrants clientID termID).total fun _ g => g.issuedBytes

namespace Ledger

theorem issuedTo_put {l l' : Ledger} {clientID termID id : String} {g : FleetGrant} (hgrants : l'.grants = l.grants.put id g)
    (howner : g.clientID = clientID ∧ g.termID = termID)
    (hkept : ∀ old, l.grants.get? id = some old → old.clientID = clientID ∧ old.termID = termID) :
    l'.issuedTo clientID termID = l.issuedTo clientID termID + (g.issuedBytes - (l.grants.get? id).elim 0 FleetGrant.issuedBytes) := by
  unfold issuedTo termGrants
  rw [total_keep, total_keep, hgrants]
  have hput := l.grants.total_put_add id g fun _ g => if g.clientID = clientID && g.termID = termID then g.issuedBytes else 0
  have hown : (g.clientID = clientID && g.termID = termID : Bool) = true := by simp [howner.1, howner.2]
  rw [if_pos hown] at hput
  cases hold : l.grants.get? id with
  | none =>
    rw [hold, Option.elim_none] at hput
    rw [Option.elim_none]
    omega
  | some old =>
    obtain ⟨hc, ht⟩ := hkept old hold
    rw [hold, Option.elim_some, if_pos (by simp [hc, ht])] at hput
    rw [Option.elim_some]
    omega

theorem partialAmount_isGreatest {l : Ledger} {ids : List String} {amount n : Int} (h : l.partialAmount ids amount = .ok n) :
    IsGreatest {m | m ≤ amount ∧ ∀ id ∈ ids, ∀ b, l.budgets.get? id = some b → b.unlimited = false →
      b.usedBytes + b.reservedBytes + m ≤ b.limitBytes} n := by
  induction ids generalizing amount with
  | nil =>
    cases h
    exact ⟨⟨le_rfl, fun _ h => nomatch h⟩, fun m hm => hm.1⟩
  | cons id ids ih =>
    simp only [partialAmount, bind_eq_ok, found_eq_ok] at h
    obtain ⟨b, hb, h⟩ := h
    cases hu : b.unlimited with
    | true =>
      rw [hu, if_pos rfl] at h
      obtain ⟨⟨hle, hfits⟩, hgreatest⟩ := ih h
      refine ⟨⟨hle, forall_mem_cons.mpr ⟨fun b' hb' hu' => ?_, hfits⟩⟩, fun m hm => ?_⟩
      · rw [hb] at hb'
        cases hb'
        rw [hu] at hu'
        cases hu'
      · exact hgreatest ⟨hm.1, (forall_mem_cons.mp hm.2).2⟩
    | false =>
      simp only [hu, Bool.false_eq_true, if_false, unit_bind_eq_ok] at h
      obtain ⟨⟨hle, hfits⟩, hgreatest⟩ := ih h.2
      refine ⟨⟨by omega, forall_mem_cons.mpr ⟨fun b' hb' _ => ?_, hfits⟩⟩, fun m hm => ?_⟩
      · rw [hb] at hb'
        cases hb'
        omega
      · obtain ⟨hfit, hrest⟩ := forall_mem_cons.mp hm.2
        have hroom := hfit b hb hu
        exact hgreatest ⟨le_min hm.1 (by omega), hrest⟩

theorem ceilingAmount_eq_ok {l : Ledger} {request : ClientCreditRequest} {own : FleetBudget} {clientID : String} {amount n : Int}
    (h : l.ceilingAmount request own clientID amount = .ok n) (hceiling : 0 < request.authorityCeiling) :
    ∃ used reserved, l.ceilingUsage own clientID request.termID = .ok (used, reserved) ∧
      used + reserved + n ≤ request.authorityCeiling ∧
      (request.allowPartial = true → n = min amount (request.authorityCeiling - used - reserved)) := by
  rw [ceilingAmount, if_neg (by omega)] at h
  simp only [bind_eq_ok, refuse_eq_ok, pure_eq_ok] at h
  obtain ⟨⟨used, reserved⟩, husage, -, -, -, hroom, rfl⟩ := h
  refine ⟨used, reserved, husage, ?_, fun hpart => by rw [if_pos hpart]⟩
  cases hpart : request.allowPartial with
  | true =>
    rw [if_pos rfl]
    omega
  | false =>
    simp only [hpart, Bool.not_false, true_and, not_lt] at hroom
    simp only [Bool.false_eq_true, if_false]
    omega

theorem creditAmount_eq_ok {l : Ledger} {request : ClientCreditRequest} {clientID : String} {term : FleetTerm} {n : Int}
    (h : l.creditAmount request clientID term = .ok n) (hceiling : 0 < request.authorityCeiling) :
    ∃ own used reserved, l.budgets.get? term.budgetID = some own ∧
      l.ceilingUsage own clientID request.termID = .ok (used, reserved) ∧ 0 < n ∧ used + reserved + n ≤ request.authorityCeiling ∧
      (request.allowPartial = true → IsGreatest {m | (m ≤ request.bytes ∧ ∀ id ∈ term.budgetID :: request.parentBudgetIDs,
        ∀ b, l.budgets.get? id = some b → b.unlimited = false → b.usedBytes + b.reservedBytes + m ≤ b.limitBytes) ∧
        used + reserved + m ≤ request.authorityCeiling} n) := by
  simp only [creditAmount, bind_eq_ok, found_eq_ok, refuse_eq_ok, pure_eq_ok] at h
  obtain ⟨own, hown, amount, hamount, _, hn, _, hpos, rfl⟩ := h
  obtain ⟨used, reserved, husage, hle, hmin⟩ := ceilingAmount_eq_ok hn hceiling
  refine ⟨own, used, reserved, hown, husage, by omega, hle, fun hpart => ?_⟩
  rw [budgetAmount, if_pos hpart] at hamount
  obtain ⟨⟨hrequested, hfits⟩, hgreatest⟩ := partialAmount_isGreatest hamount
  have hn := hmin hpart
  refine ⟨⟨⟨by omega, fun id hid b hb hu => ?_⟩, hle⟩, fun m hm => ?_⟩
  · have hfit := hfits id hid b hb hu
    omega
  · have hle' := hgreatest hm.1
    have hroom := hm.2
    omega

end Ledger

namespace Fleet

variable {digests : Digests} {db db' : Fleet}

def standing (db : Fleet) (clientID : String) (term : FleetTerm) (termID : String) : Int :=
  term.openingUploaded + term.openingDownloaded + db.toLedger.issuedTo clientID termID

theorem drawn_consumed_add_outstanding (hdb : db.toLedger.Sound) {id : String} {b : FleetBudget} (hb : db.budgets.get? id = some b)
    (hu : b.unlimited = false) :
    drawn FleetGrant.consumedBytes db.grants db.links id + outstanding db.grants db.links id =
      drawn FleetGrant.issuedBytes db.grants db.links id := by
  unfold drawn outstanding
  rw [← total_add]
  refine total_congr fun k u hk => ?_
  by_cases hid : k.2 = id
  · obtain ⟨grant, budget, hgrant, hbudget, hunlimited⟩ := hdb.link k.1 k.2 u hk
    rw [hid, hb] at hbudget
    cases hbudget
    have hg : grant.unlimited = false := by
      by_contra hne
      rw [hunlimited (by simpa using hne)] at hu
      cases hu
    rw [if_pos hid, if_pos hid, if_pos hid, leftOf, hgrant, Option.elim_some, Option.elim_some, Option.elim_some, FleetGrant.left, hg]
    simp
  · rw [if_neg hid, if_neg hid, if_neg hid, add_zero]

theorem standing_of_ceilingUsage (hsettled : db.Settled) (hsound : db.toLedger.Sound) {clientID termID : String} {term : FleetTerm}
    {own : FleetBudget} {used reserved : Int} (hclient : (db.clients.get? clientID).isSome)
    (hterm : db.terms.get? termID = some term) (hown : db.budgets.get? termID = some own)
    (h : db.toLedger.ceilingUsage own clientID termID = .ok (used, reserved)) :
    db.standing clientID term termID ≤ used + reserved ∧
      (db.Exclusive clientID termID → db.standing clientID term termID = used + reserved) := by
  obtain ⟨-, own', hown', hused⟩ := hsettled.own termID term hterm
  rw [hown] at hown'
  cases hown'
  have hissued := total_termGrants (hsettled.link_of_client hclient termID) FleetGrant.issuedBytes
  have hconsumed := total_termGrants (hsettled.link_of_client hclient termID) FleetGrant.consumedBytes
  cases hu : own.unlimited with
  | false =>
    simp only [Ledger.ceilingUsage, hu, Bool.not_false, if_true, pure_eq_ok, Prod.mk.injEq] at h
    have hreserved := (hsound.budget termID own hown hu).2.2.2
    have hsplit := drawn_consumed_add_outstanding hsound hown hu
    have hle := drawn_termGrants_le db.toLedger clientID termID termID (f := FleetGrant.issuedBytes)
      fun id g hg => (hsettled.counted id g hg).2
    unfold standing Ledger.issuedTo
    refine ⟨by omega, fun hex => ?_⟩
    have heq := hex.drawn_eq FleetGrant.issuedBytes
    omega
  | true =>
    simp only [Ledger.ceilingUsage, hu, Bool.not_true, Bool.false_eq_true, if_false, unit_bind_eq_ok, pure_eq_ok, Prod.mk.injEq] at h
    have hle := drawn_termGrants_le db.toLedger clientID termID termID (f := FleetGrant.consumedBytes)
      fun id g hg => (hsettled.counted id g hg).1
    unfold standing Ledger.issuedTo
    refine ⟨by omega, fun hex => ?_⟩
    have heq := hex.drawn_eq FleetGrant.consumedBytes
    omega

theorem creditScope_eq_ok {request : ClientCreditRequest} {placement : FleetPlacement} {term : FleetTerm}
    (h : db.creditScope request = .ok (placement, term)) :
    db.placements.get? request.placementID = some placement ∧ (db.clients.get? placement.clientID).isSome ∧
      db.terms.get? request.termID = some term := by
  simp only [creditScope, bind_eq_ok, found_eq_ok, pure_eq_ok, Prod.mk.injEq] at h
  obtain ⟨placement, hplacement, -, -, -, -, client, hclient, -, -, -, -, -, -, found, hterm, term, rfl, rfl, rfl⟩ := h
  simp only [lockClient, bind_eq_ok, found_eq_ok, pure_eq_ok] at hclient
  obtain ⟨client, hclient, -, -, rfl⟩ := hclient
  simp only [managedAuthority, hclient, bind_eq_ok, found_eq_ok, pure_eq_ok, Option.filter_eq_some_iff, Option.some.injEq] at hterm
  obtain ⟨term, ⟨hterm, -⟩, -, -, rfl⟩ := hterm
  exact ⟨hplacement, by rw [hclient]; rfl, hterm⟩

structure Affords (db : Fleet) (request : ClientCreditRequest) (clientID : String) (term : FleetTerm) (n : Int) : Prop where
  requested : n ≤ request.bytes
  own : ∀ b, db.budgets.get? request.termID = some b → b.unlimited = false → b.usedBytes + b.reservedBytes + n ≤ b.limitBytes
  parents : ∀ id ∈ request.parentBudgetIDs, ∀ b, db.budgets.get? id = some b →
    b.usedBytes + b.reservedBytes + n ≤ (request.parentLimitBytes.get? id).getD 0
  ceiling : db.standing clientID term request.termID + n ≤ request.authorityCeiling

theorem reserve_cases {request : ReserveRequest} {placementID : String} {now : Int} {result : String × FleetGrant}
    (hdb : db.Settled) (h : db.reserve digests request placementID now = .ok (result, db')) :
    (∃ op, db.operations.get? request.operationID = some op ∧ OperationResult.decodeGrant op.result = some result ∧
      db'.toLedger = db.toLedger) ∨
    (result.1 = request.grantID ∧
      Ledger.Reserves db.toLedger { request with budgetIDs := sortIDs request.budgetIDs } result.2 db'.toLedger) := by
  rcases reserve_eq_ok h with ⟨row, hrow, hstored, rfl⟩ | ⟨ledger, operations, -, -, hreserve, hid, rfl⟩
  · exact .inl ⟨row, hrow, hstored, rfl⟩
  · exact .inr ⟨hid, Ledger.reserves_of_reserve (fun g b u hu => (hdb.refers g b u hu).1) hreserve⟩

theorem fits_moved {request : ClientCreditRequest} {ownID : String} {budgets : Table String FleetBudget}
    (hnd : (ownID :: sortIDs request.parentBudgetIDs).Nodup)
    (hmove : db.budgets.updateEach .scope (fun id b => b.moveLimit ((request.parentLimitBytes.get? id).getD 0))
      (sortIDs request.parentBudgetIDs) = .ok budgets) (n : Int) :
    (∀ id ∈ ownID :: sortIDs request.parentBudgetIDs, ∀ b, budgets.get? id = some b → b.unlimited = false →
      b.usedBytes + b.reservedBytes + n ≤ b.limitBytes) ↔
    (∀ b, db.budgets.get? ownID = some b → b.unlimited = false → b.usedBytes + b.reservedBytes + n ≤ b.limitBytes) ∧
      ∀ id ∈ request.parentBudgetIDs, ∀ b, db.budgets.get? id = some b →
        b.usedBytes + b.reservedBytes + n ≤ (request.parentLimitBytes.get? id).getD 0 := by
  obtain ⟨hown, hnd⟩ := nodup_cons.mp hnd
  have hmoved : ∀ id ∈ request.parentBudgetIDs, ∃ b, db.budgets.get? id = some b ∧ b.unlimited = false ∧
      budgets.get? id = some { b with limitBytes := (request.parentLimitBytes.get? id).getD 0 } := by
    intro id hid
    obtain ⟨b, b', hb, hlimit, hb'⟩ := get?_updateEach_of_mem hnd hmove (mem_sortIDs.mpr hid)
    simp only [FleetBudget.moveLimit, unit_bind_eq_ok, refuse_eq_ok, pure_eq_ok, not_or] at hlimit
    obtain ⟨⟨hu, -⟩, rfl⟩ := hlimit
    exact ⟨b, hb, by simpa using hu, hb'⟩
  have hkept : budgets.get? ownID = db.budgets.get? ownID := get?_updateEach_of_notMem hmove hown
  rw [forall_mem_cons, hkept]
  refine and_congr_right fun _ => ⟨fun h id hid b hb => ?_, fun h id hid b' hb' hu => ?_⟩
  · obtain ⟨b₀, hb₀, hu, hb'⟩ := hmoved id hid
    rw [hb] at hb₀
    cases hb₀
    exact h id (mem_sortIDs.mpr hid) _ hb' hu
  · obtain ⟨b, hb, -, hmoved⟩ := hmoved id (mem_sortIDs.mp hid)
    rw [hb'] at hmoved
    cases hmoved
    exact h id (mem_sortIDs.mp hid) b hb

theorem Settled.ceiling (hsettled : db.Settled) (hsound : db.toLedger.Sound) {request : ClientCreditRequest} {ids : CreditIDs}
    {now : Int} {result : String × FleetGrant} (hceiling : 0 < request.authorityCeiling)
    (hfresh : db.operations.get? request.operationID = none)
    (h : db.reserveClientCredit digests request ids now = .ok (result, db')) :
    ∃ placement term, db.placements.get? request.placementID = some placement ∧ db.terms.get? request.termID = some term ∧
      db'.standing placement.clientID term request.termID ≤ request.authorityCeiling ∧
      (request.allowPartial = true → db.operations.get? ids.ledgerOperation = none →
        db.Exclusive placement.clientID request.termID →
        IsGreatest {n | db.Affords request placement.clientID term n}
          (result.2.issuedBytes - (db.grants.get? result.1).elim 0 FleetGrant.issuedBytes)) := by
  obtain ⟨placement, term, budgets, amount, moved, db'', _, _, hscope, hnd, hmove, hmoved, hamount, hreserve, hdb'⟩ :=
    ((reserveClientCredit_eq_ok h).resolve_left fun hreplay => hreplay.1 hfresh).2
  have hledger : db'.toLedger = db''.toLedger := by rw [hdb']
  obtain ⟨hplacement, hclient, hterm⟩ := creditScope_eq_ok hscope
  obtain ⟨hid, -⟩ := hsettled.own _ term hterm
  have hparents := (nodup_cons.mp hnd).2
  have hset : moved.Settled := by
    rw [hmoved]
    exact (hsettled.moveLimits hparents hmove).of_operations _
  have hsnd : moved.toLedger.Sound := by
    rw [hmoved]
    exact hsound.moveLimits hparents hmove
  have hgrants : moved.grants = db.grants := by rw [hmoved]
  have hsame : moved.standing placement.clientID term request.termID = db.standing placement.clientID term request.termID := by
    rw [hmoved]
    rfl
  obtain ⟨own, used, reserved, hown, husage, hpos, hroom, hgreatest⟩ := Ledger.creditAmount_eq_ok hamount hceiling
  obtain ⟨hcovered, hexact⟩ := standing_of_ceilingUsage hset hsnd
    (show (moved.clients.get? placement.clientID).isSome by rw [hmoved]; exact hclient)
    (by rw [hmoved]; exact hterm) (by rw [← hid]; exact hown) husage
  replace hroom : used + reserved + amount ≤ request.authorityCeiling := hroom
  replace hcovered : moved.standing placement.clientID term request.termID ≤ used + reserved := hcovered
  have hstanding : db'.standing placement.clientID term request.termID =
      term.openingUploaded + term.openingDownloaded + db''.toLedger.issuedTo placement.clientID request.termID := by
    rw [standing, hledger]
  refine ⟨placement, term, hplacement, hterm, ?_⟩
  rcases reserve_cases hset hreserve with ⟨op, hop, hstored, hkept⟩ | ⟨hgrant, hr⟩
  · -- the reservation inside was made before: nothing is issued
    refine ⟨?_, fun _ hunclaimed => ?_⟩
    · rw [hstanding, hkept]
      rw [standing] at hcovered
      omega
    · rw [hmoved] at hop
      change (db.operations.put _ _).get? ids.ledgerOperation = some op at hop
      rw [get?_put] at hop
      split at hop
      · cases hop
        cases hstored
      · rw [hunclaimed] at hop
        cases hop
  · have hadds : result.2.issuedBytes = (moved.grants.get? result.1).elim 0 FleetGrant.issuedBytes + amount := by
      rw [hgrant]
      exact hr.issued
    have hgranted : result.2.issuedBytes - (moved.grants.get? result.1).elim 0 FleetGrant.issuedBytes = amount := by omega
    have hissue : db''.toLedger.issuedTo placement.clientID request.termID =
        moved.toLedger.issuedTo placement.clientID request.termID + amount := by
      rw [← hgranted, hgrant]
      exact Ledger.issuedTo_put hr.grants hr.owner hr.keptOwner
    rw [hgrants] at hgranted
    refine ⟨?_, fun hpart _ hexclusive => ?_⟩
    · rw [hstanding, hissue]
      rw [standing] at hcovered
      omega
    · have hexact : db.standing placement.clientID term request.termID = used + reserved := by
        rw [← hsame]
        refine hexact ?_
        rw [hmoved]
        exact hexclusive
      have hset : {n | db.Affords request placement.clientID term n} = {n | (n ≤ request.bytes ∧
          ∀ id ∈ term.budgetID :: sortIDs request.parentBudgetIDs, ∀ b, moved.budgets.get? id = some b → b.unlimited = false →
            b.usedBytes + b.reservedBytes + n ≤ b.limitBytes) ∧ used + reserved + n ≤ request.authorityCeiling} := by
        ext n
        have hbudgets : moved.budgets = budgets := by rw [hmoved]
        rw [Set.mem_ofPred_eq, Set.mem_ofPred_eq, hbudgets, fits_moved hnd hmove, hid, ← hexact]
        constructor
        · rintro ⟨hn, hown, hparents, hc⟩
          exact ⟨⟨hn, hown, hparents⟩, hc⟩
        · rintro ⟨⟨hn, hown, hparents⟩, hc⟩
          exact ⟨hn, hown, hparents, hc⟩
      rw [hset, hgranted]
      exact hgreatest hpart

end Fleet

theorem LedgerOp.settled_step (digests : Digests) (db : Fleet) (op : LedgerOp) (hdb : db.Settled) :
    (op.step digests db).Settled := by
  unfold LedgerOp.step
  split
  · next db' h =>
    cases op with
    | reserve request placementID now =>
      obtain ⟨result, h⟩ := map_snd_eq_ok h
      exact hdb.reserve h
    | reserveClientCredit request ids now =>
      obtain ⟨result, h⟩ := map_snd_eq_ok h
      exact hdb.reserveClientCredit h
    | transition request termID now =>
      obtain ⟨result, h⟩ := map_snd_eq_ok h
      exact hdb.transition h
    | ingest peer p b now =>
      obtain ⟨receipt, h⟩ := map_snd_eq_ok h
      exact hdb.ingest h
  · exact hdb

/-- A credit request with a ceiling that is not a replay leaves its client's term with no more than the ceiling. While
only the term's grants draw on its budget, a partial request is granted the largest amount that it affords. -/
theorem ceiling_bounds_credit (digests : Digests) {db : Fleet} (hopening : db.toLedger.Opening) (hunissued : db.Unissued)
    (ops : List LedgerOp) {request : ClientCreditRequest} {ids : CreditIDs} {time : Int} {result : String × FleetGrant} {next : Fleet}
    (hceiling : 0 < request.authorityCeiling)
    (hfresh : (Run.after (LedgerOp.step digests) db ops).operations.get? request.operationID = none)
    (hrun : (Run.after (LedgerOp.step digests) db ops).reserveClientCredit digests request ids time = .ok (result, next)) :
    let now := Run.after (LedgerOp.step digests) db ops
    ∃ placement term, now.placements.get? request.placementID = some placement ∧ now.terms.get? request.termID = some term ∧
      next.standing placement.clientID term request.termID ≤ request.authorityCeiling ∧
      (request.allowPartial = true → now.operations.get? ids.ledgerOperation = none →
        now.Exclusive placement.clientID request.termID →
        IsGreatest {n | now.Affords request placement.clientID term n}
          (result.2.issuedBytes - (now.grants.get? result.1).elim 0 FleetGrant.issuedBytes)) := by
  have hsound := Run.inv_after (I := fun db : Fleet => db.toLedger.Sound) (LedgerOp.sound_step digests) hopening.sound ops
  have hsettled := Run.inv_after (I := Fleet.Settled) (LedgerOp.settled_step digests) hunissued.settled ops
  exact hsettled.ceiling hsound hceiling hfresh hrun

theorem eq_ok_of_toOption {ε α : Type} {x : Except ε α} {a : α} (h : x.toOption = some a) : x = .ok a := by
  cases x with
  | error e => cases h
  | ok b =>
    cases h
    rfl

namespace Sample

theorem opening_placed : placed.toLedger.Opening :=
  ⟨fun _ _ hb => (nomatch hb), fun _ => rfl, fun _ => rfl, fun _ => rfl⟩

def opened : LedgerOp := .transition activation term 5

def capped (operationID : String) (ceiling : Int) : ClientCreditRequest := credit operationID placement term [] 70 ceiling

def ids (operationID : String) : CreditIDs := ⟨grant, operationID⟩

def stranger : LedgerOp := .reserve ⟨grant, grant, node, node, "edge", node, node, [term], 30, false⟩ "" 6

end Sample

/-- A request for 70 bytes under a ceiling of 60: the term stands for no more than that. -/
theorem ceiling_bounds_credit_capped :
    let now := Run.after (LedgerOp.step Sample.digests) Sample.placed [Sample.opened]
    ∃ result next, now.reserveClientCredit Sample.digests (Sample.capped Sample.other 60) (Sample.ids Sample.placement) 6 =
      .ok (result, next) ∧ ∃ placement term, now.placements.get? Sample.placement = some placement ∧
        now.terms.get? Sample.term = some term ∧ next.standing placement.clientID term Sample.term ≤ 60 := by
  intro now
  have hok : now.operations.get? Sample.other = none ∧
      (now.reserveClientCredit Sample.digests (Sample.capped Sample.other 60) (Sample.ids Sample.placement) 6).isOk = true := by
    decide +kernel
  cases hrun : now.reserveClientCredit Sample.digests (Sample.capped Sample.other 60) (Sample.ids Sample.placement) 6 with
  | error e =>
    rw [hrun] at hok
    cases hok.2
  | ok answer =>
    obtain ⟨placement, term, hplacement, hterm, hle, -⟩ := ceiling_bounds_credit Sample.digests Sample.opening_placed
      Sample.unissued_placed [Sample.opened] (show 0 < (Sample.capped Sample.other 60).authorityCeiling by decide) hok.1 hrun
    exact ⟨answer.1, answer.2, rfl, placement, term, hplacement, hterm, hle⟩

/-- A request under a ceiling of 40 that comes again, after one under a ceiling of 60, succeeds while the term stands for
60.  And where a stranger drew 30 bytes from the term's budget, a request under a ceiling of 60 gets 30 bytes although it
affords 60. -/
theorem ceiling_with_replay_and_stranger :
    (let now := Run.after (LedgerOp.step Sample.digests) Sample.placed [Sample.opened,
      .reserveClientCredit (Sample.capped Sample.other 40) (Sample.ids Sample.placement) 6,
      .reserveClientCredit (Sample.capped Sample.client 60) (Sample.ids Sample.term) 7]
    ∃ result next t, now.reserveClientCredit Sample.digests (Sample.capped Sample.other 40) (Sample.ids Sample.placement) 8 =
      .ok (result, next) ∧ next.terms.get? Sample.term = some t ∧ next.standing Sample.client t Sample.term = 60) ∧
    (let now := Run.after (LedgerOp.step Sample.digests) Sample.placed [Sample.opened, Sample.stranger]
    ∃ result next t, now.reserveClientCredit Sample.digests (Sample.capped Sample.other 60) ⟨Sample.placement, Sample.placement⟩ 7 =
      .ok (result, next) ∧ now.terms.get? Sample.term = some t ∧ now.grants.get? result.1 = none ∧ result.2.issuedBytes = 30 ∧
      now.Affords (Sample.capped Sample.other 60) Sample.client t 60) := by
  constructor
  · intro now
    have hstands : (now.reserveClientCredit Sample.digests (Sample.capped Sample.other 40) (Sample.ids Sample.placement) 8).toOption.bind
        (fun a => (a.2.terms.get? Sample.term).map fun t => a.2.standing Sample.client t Sample.term) = some 60 := by decide +kernel
    obtain ⟨a, hrun, hstands⟩ := Option.bind_eq_some_iff.mp hstands
    obtain ⟨t, ht, hstands⟩ := Option.map_eq_some_iff.mp hstands
    exact ⟨a.1, a.2, t, eq_ok_of_toOption hrun, ht, hstands⟩
  · intro now
    have hnow : now.grants.get? Sample.placement = none ∧ now.budgets.get? Sample.term = some ⟨100, false, 0, 30⟩ ∧
        ((now.terms.get? Sample.term).map fun t => now.standing Sample.client t Sample.term) = some 0 ∧
        ((now.reserveClientCredit Sample.digests (Sample.capped Sample.other 60) ⟨Sample.placement, Sample.placement⟩ 7).toOption.map
          fun a => (a.1.1, a.1.2.issuedBytes)) = some (Sample.placement, 30) := by decide +kernel
    obtain ⟨hgrant, hbudget, hstands, hissued⟩ := hnow
    obtain ⟨a, hrun, ha⟩ := Option.map_eq_some_iff.mp hissued
    obtain ⟨t, ht, hstands⟩ := Option.map_eq_some_iff.mp hstands
    obtain ⟨hid, hissued⟩ := Prod.mk.inj ha
    refine ⟨a.1, a.2, t, eq_ok_of_toOption hrun, ht, by rw [hid]; exact hgrant, hissued, ⟨by decide, fun b hb _ => ?_, ?_, ?_⟩⟩
    · obtain rfl : (⟨100, false, 0, 30⟩ : FleetBudget) = b := Option.some.inj (hbudget.symm.trans hb)
      decide
    · exact fun _ h => nomatch h
    · show now.standing Sample.client t Sample.term + 60 ≤ 60
      rw [hstands]
      decide

end Pui
