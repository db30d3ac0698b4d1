import Pui.Rates

/-!
# Rate shares

A share is what one grant may use of its client's rate budget.
-/

namespace Pui

open Guard Table List

def RateRequest.valid (request : RateRequest) : Bool :=
  validID request.operationID && validID request.grantID && validID request.budgetID && validID request.nodeID &&
    validID request.installationID && runtimeName request.runtimeID && request.desired.validate.isOk

def Fleet.sharesOf (db : Fleet) (budgetID : String) : List (String × FleetRateShare) :=
  ((db.rateShares.keep fun _ share => share.budgetID = budgetID).entries.map fun e => (e.1, e.2)).mergeSort
    fun a b => decide (a.1 ≤ b.1)

def RateRequest.collect (request : RateRequest) : List (String × FleetRateShare) →
    Except FleetError (Option FleetRateShare × Rates × List Rates)
  | [] => .ok (none, Rates.zero, [])
  | (id, share) :: rest => do
    let outstanding ← decodeRates share.outstanding
    if id = request.grantID then do
      refuse (share.nodeID ≠ request.nodeID ∨ share.installationID ≠ request.installationID ∨
        share.runtimeID ≠ request.runtimeID) .scope
      let (_, _, others) ← request.collect rest
      return (some share, outstanding, others)
    else do
      let (mine, previous, others) ← request.collect rest
      return (mine, previous, outstanding :: others)

def Fleet.requireActiveTerm (db : Fleet) (grant : FleetGrant) (term : Option FleetTerm) (now : Int) : Except FleetError Unit :=
  match term with
  | none => .ok ()
  | some term => do
    refuse (term.expiresUnixMilli ≠ 0 ∧ term.expiresUnixMilli ≤ now) .scope
    let _ ← db.managedAuthority grant.clientID grant.termID true

def Fleet.storeShare (db : Fleet) (request : RateRequest) (share : FleetRateShare) : Except FleetError Fleet := do
  let owner := (db.rateShares.get? request.grantID).getD share
  refuse (owner.budgetID ≠ request.budgetID) .scope
  return { db with rateShares := db.rateShares.put request.grantID { owner with
    revision := share.revision, desired := share.desired, outstanding := share.outstanding } }

def OperationResult.decodeShare : OperationResult → Option (String × FleetRateShare)
  | .share id row => some (id, row)
  | _ => none

def RateRequest.share (request : RateRequest) (mine : Option FleetRateShare) : FleetRateShare :=
  mine.getD ⟨request.budgetID, request.nodeID, request.installationID, request.runtimeID, 0, 0, Rates.zero, Rates.zero⟩

def Fleet.requestRateShare (digests : Digests) (request : RateRequest) (now : Int) (db : Fleet) :
    Except FleetError ((String × FleetRateShare) × Fleet) := do
  refuse (!request.valid) .invalid
  db.lockAuthority
  db.operation request.operationID (digests.rateShare request) (fun s => .share s.1 s.2) OperationResult.decodeShare fun db => do
    db.lockNode request.nodeID request.installationID
    let grant ← found (db.grants.get? request.grantID) .notFound
    let term ← db.managedAuthority grant.clientID grant.termID false
    let budget ← found (db.rateBudgets.get? request.budgetID) .notFound
    refuse (grant.nodeID ≠ request.nodeID ∨ grant.installationID ≠ request.installationID ∨
      grant.runtimeID ≠ request.runtimeID ∨ grant.clientID ≠ budget.clientID) .scope
    let (mine, previous, others) ← request.collect (db.sharesOf request.budgetID)
    let outstanding := previous.envelope request.desired
    refuse (grant.termID ≠ budget.termID ∧ outstanding ≠ previous) .scope
    db.requireActiveTerm grant (if outstanding ≠ previous then term else none) now
    let bound ← decodeRates budget.desired
    refuse (outstanding ≠ previous ∧ (!fitsRates bound.upload (others.map Rates.upload ++ [outstanding.upload]) ∨
      !fitsRates bound.download (others.map Rates.download ++ [outstanding.download]))) .budget
    refuse ((request.share mine).revision = maxInt64) .revision
    let share := { request.share mine with
      revision := (request.share mine).revision + 1, desired := request.desired, outstanding := outstanding }
    let db ← db.storeShare request share
    return ((request.grantID, share), db)

def Fleet.confirmRateShare (p : Principal) (grantID : String) (revision : Nat) (applied : Rates) (db : Fleet) :
    Except FleetError Fleet := do
  refuse (!validID grantID ∨ revision = 0 ∨ revision > maxInt64 ∨ applied.validate ≠ .ok ()) .invalid
  db.lockAuthority
  db.lockNode p.nodeID p.installationID
  let share ← found (db.rateShares.get? grantID) .notFound
  refuse (share.nodeID ≠ p.nodeID ∨ share.installationID ≠ p.installationID) .scope
  let _ ← found (db.rateBudgets.get? share.budgetID) .notFound
  let desired ← decodeRates share.desired
  refuse (share.revision ≠ revision ∨ desired ≠ applied) .revision
  return { db with rateShares := db.rateShares.put grantID { share with appliedRevision := revision, outstanding := applied } }

def Fleet.zeroStopRateShare (grantID : String) (grant : FleetGrant) (expected : FleetRateShare) (db : Fleet) :
    Except FleetError (FleetRateShare × Fleet) := do
  let client ← found (db.clients.get? grant.clientID) .notFound
  refuse (!client.owned) .stopComposition
  let _ ← found ((db.rateBudgets.get? expected.budgetID).filter (·.clientID = grant.clientID)) .notFound
  let share ← found (db.rateShares.get? grantID) .notFound
  refuse (share ≠ expected ∨ share.revision = maxInt64) .revision
  let _ ← decodeRates share.outstanding
  let share := { share with revision := share.revision + 1, desired := Rates.zero }
  return (share, { db with rateShares := db.rateShares.put grantID share })

variable {db db' : Fleet} {id : String} {share : FleetRateShare} {request : RateRequest} {mine : Option FleetRateShare}
  {shares : Table String FleetRateShare} {P : String → FleetRateShare → Prop}

theorem Fleet.mem_sharesOf {budgetID : String} :
    (id, share) ∈ db.sharesOf budgetID ↔ db.rateShares.get? id = some share ∧ share.budgetID = budgetID := by
  unfold Fleet.sharesOf
  rw [mem_mergeSort, mem_map]
  constructor
  · intro ⟨e, he, heq⟩
    obtain ⟨rfl, rfl⟩ := Prod.mk.injEq .. ▸ heq
    have hget := mem_entries.mp he
    rw [get?_keep, Option.filter_eq_some_iff] at hget
    exact ⟨hget.1, of_decide_eq_true hget.2⟩
  · intro ⟨hget, hb⟩
    refine ⟨⟨id, share⟩, mem_entries.mpr ?_, rfl⟩
    rw [get?_keep, Option.filter_eq_some_iff]
    exact ⟨hget, decide_eq_true hb⟩

theorem Fleet.nodup_sharesOf (db : Fleet) (budgetID : String) : ((db.sharesOf budgetID).map Prod.fst).Nodup := by
  unfold Fleet.sharesOf
  refine (((mergeSort_perm _ _).map Prod.fst).nodup_iff).mpr ?_
  rw [map_map]
  exact (db.rateShares.keep fun _ share => share.budgetID = budgetID).nodupKeys

theorem Fleet.perm_sharesOf_put (h : db'.rateShares = db.rateShares.put id share) :
    (db'.sharesOf share.budgetID).Perm ((id, share) :: (db.sharesOf share.budgetID).filter fun e => e.1 ≠ id) := by
  unfold Fleet.sharesOf
  rw [h]
  refine (mergeSort_perm _ _).trans (List.Perm.trans ?_ (((mergeSort_perm _ _).filter _).symm.cons _))
  have hput := ((perm_entries_put db.rateShares id share).filter fun e => decide (e.2.budgetID = share.budgetID)).map
    fun e => (e.1, e.2)
  refine hput.trans (List.Perm.of_eq ?_)
  rw [filter_cons, if_pos (decide_eq_true rfl), map_cons, filter_map, filter_comm]
  rfl

theorem Fleet.find?_sharesOf (db : Fleet) (budgetID id : String) :
    ((db.sharesOf budgetID).find? fun e => e.1 = id).map Prod.snd =
      (db.rateShares.get? id).filter fun share => share.budgetID = budgetID := by
  cases hfind : (db.sharesOf budgetID).find? fun e => e.1 = id with
  | none =>
    rw [List.find?_eq_none] at hfind
    refine (Option.filter_eq_none_iff.mpr fun share hshare hb => ?_).symm
    exact hfind (id, share) (Fleet.mem_sharesOf.mpr ⟨hshare, of_decide_eq_true hb⟩) (decide_eq_true rfl)
  | some e =>
    have hid : e.1 = id := by simpa using List.find?_some hfind
    obtain ⟨hget, hb⟩ := Fleet.mem_sharesOf.mp (mem_of_find?_eq_some hfind)
    rw [hid] at hget
    rw [hget, Option.filter_some, if_pos (decide_eq_true hb)]
    rfl

theorem Fleet.storeShare_eq_ok
    (hmine : mine = (db.rateShares.get? request.grantID).filter fun share => share.budgetID = request.budgetID) (hshare : ∃ rev desired out, share = { request.share mine with
      revision := rev, desired := desired, outstanding := out }) (h : db.storeShare request share = .ok db') :
    mine = db.rateShares.get? request.grantID ∧ (∀ s, mine = some s → s.budgetID = request.budgetID) ∧
      db' = { db with rateShares := db.rateShares.put request.grantID share } := by
  obtain ⟨rev, desired, out, rfl⟩ := hshare
  simp only [Fleet.storeShare, unit_bind_eq_ok, refuse_eq_ok, pure_eq_ok, not_not] at h
  obtain ⟨hb, rfl⟩ := h
  cases hget : db.rateShares.get? request.grantID with
  | none =>
    rw [hget] at hmine
    subst hmine
    exact ⟨rfl, by simp, rfl⟩
  | some o =>
    rw [hget, Option.getD_some] at hb
    rw [hget, Option.filter_some, if_pos (decide_eq_true hb)] at hmine
    subst hmine
    refine ⟨rfl, fun s hs => ?_, rfl⟩
    cases hs
    exact hb

theorem RateRequest.collect_eq_ok {shares : List (String × FleetRateShare)} {previous : Rates} {others : List Rates}
    (h : request.collect shares = .ok (mine, previous, others)) :
    mine = (shares.find? fun e => e.1 = request.grantID).map Prod.snd ∧
      previous = mine.elim Rates.zero FleetRateShare.outstanding ∧
      others = (shares.filter fun e => e.1 ≠ request.grantID).map (·.2.outstanding) ∧
      (∀ e ∈ shares, e.2.outstanding.validate = .ok ()) ∧
      ∀ share, mine = some share → share.nodeID = request.nodeID ∧ share.installationID = request.installationID ∧
        share.runtimeID = request.runtimeID := by
  induction shares generalizing mine previous others with
  | nil =>
    cases h
    exact ⟨rfl, rfl, rfl, by simp, by simp⟩
  | cons e shares ih =>
    obtain ⟨id, share⟩ := e
    simp only [RateRequest.collect, bind_eq_ok, decodeRates_eq_ok] at h
    obtain ⟨out, ⟨hvalid, rfl⟩, h⟩ := h
    split at h
    · next hid =>
      simp only [bind_eq_ok, refuse_eq_ok, pure_eq_ok, Prod.mk.injEq, not_or, not_not] at h
      obtain ⟨-, hscope, ⟨mine', previous', others'⟩, hrest, rfl, rfl, rfl⟩ := h
      obtain ⟨-, -, hothers, hall, -⟩ := ih hrest
      refine ⟨by simp [hid], rfl, by simp [hid, hothers], forall_mem_cons.mpr ⟨hvalid, hall⟩, fun s hs => ?_⟩
      cases hs
      exact hscope
    · next hid =>
      simp only [bind_eq_ok, pure_eq_ok, Prod.mk.injEq] at h
      obtain ⟨⟨mine', previous', others'⟩, hrest, rfl, rfl, rfl⟩ := h
      obtain ⟨hmine, hprevious, hothers, hall, hscope⟩ := ih hrest
      exact ⟨by simp [hid, hmine], hprevious, by simp [hid, hothers], forall_mem_cons.mpr ⟨hvalid, hall⟩, hscope⟩

theorem RateRequest.validate_of_valid (h : ¬(!request.valid) = true) :
    request.desired.validate = .ok () := by
  simp only [Bool.not_eq_true, Bool.not_eq_false', RateRequest.valid, Bool.and_eq_true] at h
  exact isOk_eq_true.mp h.2

def outstandingOf (mine : Option FleetRateShare) : Rates := mine.elim Rates.zero FleetRateShare.outstanding

def RateRequest.next (request : RateRequest) (mine : Option FleetRateShare) : FleetRateShare :=
  { request.share mine with
    revision := (request.share mine).revision + 1
    desired := request.desired
    outstanding := (outstandingOf mine).envelope request.desired }

theorem RateRequest.budgetID_next (request : RateRequest)
    (h : ∀ share, mine = some share → share.budgetID = request.budgetID) : (request.next mine).budgetID = request.budgetID := by
  cases mine with
  | none => rfl
  | some share => exact h share rfl

structure RateRequest.Granted (request : RateRequest) (db : Fleet) (g : FleetGrant) (pool : FleetRateBudget) : Prop where
  grant : db.grants.get? request.grantID = some g
  node : g.nodeID = request.nodeID
  runtime : g.runtimeID = request.runtimeID
  budget : db.rateBudgets.get? request.budgetID = some pool
  client : g.clientID = pool.clientID
  bound : pool.desired.validate = .ok ()
  desired : request.desired.validate = .ok ()
  previous : (outstandingOf (db.rateShares.get? request.grantID)).validate = .ok ()
  revision : (request.share (db.rateShares.get? request.grantID)).revision ≠ maxInt64
  mine : ∀ share, db.rateShares.get? request.grantID = some share →
    share.budgetID = request.budgetID ∧ share.nodeID = request.nodeID ∧ share.runtimeID = request.runtimeID
  room : (request.next (db.rateShares.get? request.grantID)).outstanding ≠ outstandingOf (db.rateShares.get? request.grantID) →
    let others := ((db.sharesOf request.budgetID).filter fun e => e.1 ≠ request.grantID).map (·.2.outstanding)
    let outstanding := (request.next (db.rateShares.get? request.grantID)).outstanding
    g.termID = pool.termID ∧
      fitsRates pool.desired.upload (others.map Rates.upload ++ [outstanding.upload]) = true ∧
      fitsRates pool.desired.download (others.map Rates.download ++ [outstanding.download]) = true

theorem Fleet.requestRateShare_eq_ok {digests : Digests} {now : Int}
    {result : String × FleetRateShare} (h : db.requestRateShare digests request now = .ok (result, db')) :
    db' = db ∨ ∃ ops grant budget, request.Granted db grant budget ∧ db' = { db with
      operations := ops
      rateShares := db.rateShares.put request.grantID (request.next (db.rateShares.get? request.grantID)) } := by
  simp only [Fleet.requestRateShare, unit_bind_eq_ok, refuse_eq_ok] at h
  obtain ⟨hvalid, -, h⟩ := h
  rcases Fleet.operation_eq_ok h with ⟨-, -, -, -, rfl⟩ | ⟨-, mid, hbody, rfl⟩
  · exact .inl rfl
  · right
    simp only [bind_eq_ok, refuse_eq_ok, found_eq_ok, pure_eq_ok, Prod.mk.injEq, decodeRates_eq_ok, not_or, not_not,
      not_and, Bool.not_eq_true, Bool.not_eq_false'] at hbody
    obtain ⟨-, -, grant, hgrant, term, -, budget, hbudget, -, ⟨hnode, hinst, hruntime, hclient⟩, ⟨mine, previous, others⟩,
      hcollect, -, hterm, -, -, bound, ⟨hbound, rfl⟩, -, hfits, -, hrev, mid', hstore, -, rfl⟩ := hbody
    obtain ⟨hmine, rfl, rfl, hall, hscope⟩ := RateRequest.collect_eq_ok hcollect
    obtain ⟨hmine, hbudgetID, rfl⟩ := Fleet.storeShare_eq_ok (hmine.trans (Fleet.find?_sharesOf _ _ _)) ⟨_, _, _, rfl⟩ hstore
    have hget : mine = db.rateShares.get? request.grantID := hmine
    subst hget
    refine ⟨_, grant, budget, ?_, rfl⟩
    refine ⟨hgrant, hnode, hruntime, hbudget, hclient, hbound, RateRequest.validate_of_valid hvalid, ?_, hrev, fun share hs =>
      ⟨hbudgetID share hs, (hscope share hs).1, (hscope share hs).2.2⟩, fun hne => ⟨?_, hfits hne⟩⟩
    · cases hm : db.rateShares.get? request.grantID with
      | none => exact Rates.validate_zero
      | some share => exact hall (_, share) (Fleet.mem_sharesOf.mpr ⟨hm, hbudgetID share hm⟩)
    · exact not_not.mp fun hn => hne (hterm hn)

def FleetRateShare.confirmed (share : FleetRateShare) : FleetRateShare :=
  { share with appliedRevision := share.revision, outstanding := share.desired }

/-- The change to `shares` confirms shares for which `P` holds. -/
def Fleet.Confirms (db : Fleet) (shares : Table String FleetRateShare) (P : String → FleetRateShare → Prop) : Prop :=
  ∀ id, shares.get? id = db.rateShares.get? id ∨
    ∃ share, db.rateShares.get? id = some share ∧ P id share ∧ shares.get? id = some share.confirmed

theorem Fleet.Confirms.refl (db : Fleet) (P : String → FleetRateShare → Prop) : db.Confirms db.rateShares P :=
  fun _ => .inl rfl

theorem Fleet.Confirms.put (h : db.Confirms shares P) (hget : db.rateShares.get? id = some share)
    (hP : P id share) : db.Confirms (shares.put id share.confirmed) P := by
  intro id'
  rw [get?_put]
  split
  · next heq =>
    subst heq
    exact .inr ⟨share, hget, hP, rfl⟩
  · exact h id'

theorem Fleet.Confirms.confirmed_eq (h : db.Confirms shares P) {now : FleetRateShare} (hget : db.rateShares.get? id = some share)
    (hnow : shares.get? id = some now) : now.confirmed = share.confirmed := by
  rcases h id with hs | ⟨share', hget', -, hs⟩
  · rw [hnow, hget] at hs
    cases hs
    rfl
  · rw [hget] at hget'
    cases hget'
    rw [hnow] at hs
    cases hs
    rfl

theorem Fleet.Confirms.mono {Q : String → FleetRateShare → Prop}
    (h : db.Confirms shares P) (hPQ : ∀ id share, P id share → Q id share) : db.Confirms shares Q :=
  fun id => (h id).imp_right fun ⟨share, hget, hP, hs⟩ => ⟨share, hget, hPQ id share hP, hs⟩

theorem Fleet.confirmRateShare_eq_ok {p : Principal} {grantID : String} {revision : Nat} {applied : Rates}
    (h : db.confirmRateShare p grantID revision applied = .ok db') :
    ∃ shares, db' = { db with rateShares := shares } ∧ db.Confirms shares fun id share =>
      id = grantID ∧ share.nodeID = p.nodeID ∧ share.revision = revision ∧ share.desired = applied := by
  simp only [Fleet.confirmRateShare, bind_eq_ok, refuse_eq_ok, found_eq_ok, pure_eq_ok, decodeRates_eq_ok, not_or, not_not] at h
  obtain ⟨-, -, -, -, -, -, share, hshare, -, ⟨hnode, -⟩, -, -, desired, ⟨-, rfl⟩, -, ⟨hrev, rfl⟩, rfl⟩ := h
  have hput := (Fleet.Confirms.refl db fun id s => id = grantID ∧ s.nodeID = p.nodeID ∧ s.revision = revision ∧
    s.desired = share.desired).put hshare ⟨rfl, hnode, hrev, rfl⟩
  rw [FleetRateShare.confirmed, hrev] at hput
  rw [hrev]
  exact ⟨_, rfl, hput⟩

theorem Fleet.zeroStopRateShare_eq_ok {grantID : String} {grant : FleetGrant} {expected : FleetRateShare}
    (h : db.zeroStopRateShare grantID grant expected = .ok (share, db')) :
    db.rateShares.get? grantID = some expected ∧ expected.revision ≠ maxInt64 ∧
      share = { expected with revision := expected.revision + 1, desired := Rates.zero } ∧
      db' = { db with rateShares := db.rateShares.put grantID share } := by
  simp only [Fleet.zeroStopRateShare, bind_eq_ok, refuse_eq_ok, found_eq_ok, pure_eq_ok, decodeRates_eq_ok, not_or, not_not,
    Prod.mk.injEq] at h
  obtain ⟨-, -, -, -, -, -, row, hrow, -, ⟨rfl, hrev⟩, -, -, rfl, rfl⟩ := h
  exact ⟨hrow, hrev, rfl, rfl⟩

end Pui
