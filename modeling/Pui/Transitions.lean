import Pui.Lifecycle
import Pui.Rates

/-!
# What a call of the term lifecycle does

A call of the lifecycle repeats an earlier answer, or it changes the client and its terms in one of four ways
(`TermChange`) and opens at most one budget (`Fleet.Opens`).
-/

namespace Pui

open Guard Table Option

/-- What no call changes of a term: its client, its budget and the usage that it took over. -/
def FleetTerm.scope (t : FleetTerm) : String × String × Int × Int :=
  (t.clientID, t.budgetID, t.openingUploaded, t.openingDownloaded)

/-- What a call does to the row of a client and to the rows of its terms. -/
inductive TermChange (clientID : String) (client : FleetClient) (terms : Table String FleetTerm) :
    FleetClient → Table String FleetTerm → Prop where
  | activate (termID : String) (term : FleetTerm) (hcurrent : client.currentTermID = none)
    (hpending : client.pendingTermID = none) (hnew : terms.get? termID = none) (hclient : term.clientID = clientID)
    (hstate : term.state = .active)
    (hgeneration : ∀ id t, terms.get? id = some t → t.clientID = clientID → t.generation < term.generation) :
    TermChange clientID client terms { client with currentTermID := some termID, revision := client.revision + 1 }
      (terms.put termID term)
  | open (currentID termID : String) (previous term : FleetTerm) (hcurrent : client.currentTermID = some currentID)
    (hpending : client.pendingTermID = none) (hprevious : terms.get? currentID = some previous)
    (hpreviousClient : previous.clientID = clientID) (hpreviousState : previous.state = .active)
    (hnew : terms.get? termID = none) (hclient : term.clientID = clientID) (hstate : term.state = .pending)
    (hpredecessor : term.predecessorID = some currentID)
    (hgeneration : ∀ id t, terms.get? id = some t → t.clientID = clientID → t.generation < term.generation) :
    TermChange clientID client terms { client with pendingTermID := some termID, revision := client.revision + 1 }
      ((terms.put currentID { previous with state := .draining }).put termID term)
  | complete (currentID pendingID : String) (previous term term' : FleetTerm)
    (hcurrent : client.currentTermID = some currentID) (hpending : client.pendingTermID = some pendingID)
    (hprevious : terms.get? currentID = some previous) (hpreviousClient : previous.clientID = clientID)
    (hpreviousState : previous.state = .draining) (hterm : terms.get? pendingID = some term)
    (hclient : term.clientID = clientID) (hstate : term.state = .pending)
    (hclient' : term'.clientID = clientID) (hstate' : term'.state = .active) (hgeneration : term'.generation = term.generation) :
    TermChange clientID client terms
      { client with currentTermID := some pendingID, pendingTermID := none, revision := client.revision + 1 }
      ((terms.put pendingID term').put currentID { previous with state := .closed })
  | cancel (currentID pendingID : String) (previous term : FleetTerm)
    (hcurrent : client.currentTermID = some currentID) (hpending : client.pendingTermID = some pendingID)
    (hprevious : terms.get? currentID = some previous) (hpreviousClient : previous.clientID = clientID)
    (hpreviousState : previous.state = .draining) (hterm : terms.get? pendingID = some term)
    (hclient : term.clientID = clientID) (hstate : term.state = .pending) :
    TermChange clientID client terms { client with pendingTermID := none, revision := client.revision + 1 }
      ((terms.put pendingID { term with state := .closed }).put currentID { previous with state := .active })

namespace Fleet

variable {digests : Digests} {db db' : Fleet} {clientID termID operationID : String} {digest : Digest} {term t' : FleetTerm}
  {terms : Table String FleetTerm} {result : TransitionResult} {now : Int}

/-- The rate pool of the client goes to the term, and nothing else changes. -/
structure TakesPool (db db' : Fleet) (clientID termID : String) : Prop where
  frame : ∃ budgets, db' = { db with rateBudgets := budgets }
  pool : ∃ budget, budget.clientID = clientID ∧ budget.termID = termID ∧
    ∀ k, db'.rateBudgets.get? k = if k = clientID then some budget else db.rateBudgets.get? k

theorem activateRatePool_eq_ok (h : db.activateRatePool clientID termID term = .ok db') : db.TakesPool db' clientID termID := by
  simp only [activateRatePool, setRateBudget, bind_eq_ok, refuse_eq_ok, found_eq_ok, pure_eq_ok, not_not] at h
  obtain ⟨-, -, rates, -, -, -, -, -, -, -, current, -, -, hclient, -, -, -, -, rfl⟩ := h
  refine ⟨⟨_, rfl⟩, ⟨current.clientID, termID, (db.rateBudgets.get? clientID).elim 0 (·.revision) + 1, rates⟩, hclient, rfl, fun k => ?_⟩
  rw [get?_put]
  split
  · rfl
  · next hk =>
    split
    · rfl
    · rw [get?_put_of_ne hk]

/-- No grant of the term has a rate left. -/
def Stopped (db : Fleet) (clientID termID : String) : Prop :=
  ∀ id g, db.grants.get? id = some g → g.clientID = clientID → g.termID = termID →
    ∃ share, db.rateShares.get? id = some share ∧ share.outstanding = Rates.zero

/-- The pool stays with the current term, or goes to a new one after every grant of the old one was stopped. -/
def PoolChange (clientID : String) (client client' : FleetClient) (db db' : Fleet) : Prop :=
  (client'.currentTermID = client.currentTermID ∧ db'.rateBudgets = db.rateBudgets) ∨
    ∃ termID budget, client'.currentTermID = some termID ∧ budget.clientID = clientID ∧ budget.termID = termID ∧
      (∀ k, db'.rateBudgets.get? k = if k = clientID then some budget else db.rateBudgets.get? k) ∧
      ∀ currentID, client.currentTermID = some currentID → db.Stopped clientID currentID

/-- The same clients, and the same terms but for their state. -/
structure SameTerms (db db' : Fleet) : Prop where
  terms : ∀ id, (db'.terms.get? id).map FleetTerm.scope = (db.terms.get? id).map FleetTerm.scope
  clients : ∀ id, (db'.clients.get? id).isSome = (db.clients.get? id).isSome

theorem SameTerms.refl (db : Fleet) : db.SameTerms db := ⟨fun _ => rfl, fun _ => rfl⟩

theorem SameTerms.row (h : db.SameTerms db') {id : String} (ht : db'.terms.get? id = some t') :
    ∃ t, db.terms.get? id = some t ∧ t.scope = t'.scope := by
  have hid := h.terms id
  rw [ht, Option.map_some] at hid
  exact Option.map_eq_some_iff.mp hid.symm

theorem SameTerms.symm (h : db.SameTerms db') : db'.SameTerms db :=
  ⟨fun id => (h.terms id).symm, fun id => (h.clients id).symm⟩

structure Untouched (db db' : Fleet) : Prop extends SameTerms db db' where
  ledger : db'.toLedger = db.toLedger
  cursors : db'.cursors = db.cursors
  usages : db'.termUsages = db.termUsages
  days : db'.termUsageDays = db.termUsageDays

/-- A term was opened, with a budget of its own and a row for its usage. -/
structure Opens (db : Fleet) (clientID termID : String) (spec : TermSpec) (db' : Fleet) : Prop where
  free : db.terms.get? termID = none ∧ db.budgets.get? termID = none
  opening : spec.openingUploaded + spec.openingDownloaded = spec.openingUsedBytes
  used : 0 ≤ spec.openingUsedBytes
  fits : spec.unlimited = false → spec.openingUsedBytes ≤ spec.quotaBytes
  ledger : db'.toLedger = { db.toLedger with
    budgets := db.budgets.put termID ⟨spec.quotaBytes, spec.unlimited, spec.openingUsedBytes, 0⟩ }
  terms : ∀ id, (db'.terms.get? id).map FleetTerm.scope = if id = termID then
    some (clientID, termID, spec.openingUploaded, spec.openingDownloaded) else (db.terms.get? id).map FleetTerm.scope
  clients : ∀ id, (db'.clients.get? id).isSome = (db.clients.get? id).isSome
  cursors : db'.cursors = db.cursors
  usages : db'.termUsages = db.termUsages.put termID ⟨0, 0, 0, 0⟩
  days : db'.termUsageDays = db.termUsageDays

/-- A call that ran: `opened` is the term that it opened. -/
structure Ran (operationID clientID : String) (digest : Digest) (opened : Option (String × TermSpec)) (db db' : Fleet)
    (result : TransitionResult) : Prop where
  free : db.operations.get? operationID = none
  stored : db'.operations = db.operations.put operationID ⟨digest, .transition result⟩
  fence : db'.fence = db.fence
  shares : db'.rateShares = db.rateShares
  change : ∃ client client', db.clients.get? clientID = some client ∧ db'.clients = db.clients.put clientID client' ∧
    TermChange clientID client db.terms client' db'.terms ∧ PoolChange clientID client client' db db'
  fresh : result.replayed = false
  effect : opened.elim (db.Untouched db') fun o => db.Opens clientID o.1 o.2 db'

theorem Ran.grants {opened : Option (String × TermSpec)} (h : Ran operationID clientID digest opened db db' result) :
    db'.grants = db.grants := by
  cases opened with
  | none => rw [h.effect.ledger]
  | some o => rw [h.effect.ledger]

/-- A call that repeats the answer of an earlier one. -/
def Replays (operationID : String) (digest : Digest) (db db' : Fleet) (result : TransitionResult) : Prop :=
  ∃ op stored, db.operations.get? operationID = some op ∧ op.digest = digest ∧ op.result = .transition stored ∧
    result = { stored with replayed := true } ∧ db' = db

theorem lifecycleOperation_eq_ok {apply : Fleet → Except FleetError (TransitionResult × Fleet)}
    (h : db.lifecycleOperation operationID digest apply = .ok (result, db')) :
    db.Replays operationID digest db' result ∨
    (db.operations.get? operationID = none ∧
      ∃ mid, apply { db with operations := db.operations.put operationID ⟨digest, .empty⟩ } = .ok (result, mid) ∧
        db' = { mid with operations := mid.operations.put operationID ⟨digest, .transition result⟩ }) := by
  simp only [lifecycleOperation, unit_bind_eq_ok] at h
  obtain ⟨-, -, h⟩ := h
  rcases operation_eq_ok h with ⟨op, hop, hdigest, hdecode, rfl⟩ | ⟨hfree, hrun⟩
  · left
    cases hresult : op.result with
    | transition stored =>
      rw [hresult] at hdecode
      cases hdecode
      exact ⟨op, stored, hop, hdigest, hresult, rfl, rfl⟩
    | _ =>
      rw [hresult] at hdecode
      cases hdecode
  · exact .inr ⟨hfree, hrun⟩

theorem generation_le_last {id : String} {t : FleetTerm} (h : db.terms.get? id = some t)
    (hclient : t.clientID = clientID) : t.generation ≤ db.lastGeneration clientID := by
  have hmem : ⟨id, t⟩ ∈ (db.terms.keep fun _ t => t.clientID = clientID).entries := by
    rw [mem_entries, get?_keep, filter_eq_some_iff]
    exact ⟨h, decide_eq_true hclient⟩
  have hle : ∀ (l : List Int) (n : Int), n ∈ l → n ≤ l.foldr max 0 := by
    intro l n hn
    induction l with
    | nil => cases hn
    | cons m l ih =>
      rcases List.mem_cons.mp hn with rfl | hn
      · exact le_max_left _ _
      · exact (ih hn).trans (le_max_right _ _)
  exact hle _ _ (List.mem_map_of_mem (f := fun e : (_ : String) × FleetTerm => e.2.generation) hmem)

theorem pendingTerms_eq_ok {pendingTermID currentID : String} {revision generation : Nat}
    {client : FleetClient} {previous : FleetTerm}
    (h : db.pendingTerms clientID pendingTermID revision generation = .ok (client, term, currentID, previous)) :
    db.clients.get? clientID = some client ∧ client.currentTermID = some currentID ∧ client.pendingTermID = some pendingTermID ∧
      (db.terms.get? currentID = some previous ∧ previous.clientID = clientID ∧ previous.state = .draining) ∧
      db.terms.get? pendingTermID = some term ∧ term.clientID = clientID ∧ term.state = .pending := by
  simp only [pendingTerms, lockClient, bind_eq_ok, refuse_eq_ok, found_eq_ok, pure_eq_ok, Prod.mk.injEq, not_or,
    not_not, filter_eq_some_iff, decide_eq_true_eq] at h
  obtain ⟨_, ⟨_, hclient, -, -, rfl⟩, -, ⟨-, -, -, hpending, -⟩, _, hcurrent, _, ⟨hterm, htermClient⟩, _,
    ⟨hprevious, hpreviousClient⟩, -, ⟨hstate, hpreviousState, -⟩, rfl, rfl, rfl, rfl⟩ := h
  exact ⟨hclient, hcurrent, hpending, ⟨hprevious, hpreviousClient, hpreviousState⟩, hterm, htermClient, hstate⟩

theorem startTerm_eq_ok (h : startTerm now term = .ok t') :
    t'.scope = term.scope ∧ t'.generation = term.generation ∧ t'.state = term.state := by
  simp only [startTerm, bind_eq_ok, refuse_eq_ok, pure_eq_ok] at h
  obtain ⟨-, -, -, -, rfl⟩ := h
  exact ⟨rfl, rfl, rfl⟩

theorem requireStoppedGrants_eq_ok (h : db.requireStoppedGrants clientID termID = .ok ()) : db.Stopped clientID termID := by
  simp only [requireStoppedGrants, unit_bind_eq_ok] at h
  obtain ⟨-, h⟩ := h
  intro id g hg hclient hterm
  have hkept : (db.grants.keep fun _ g => g.clientID = clientID && g.termID = termID).get? id = some g := by
    rw [get?_keep, filter_eq_some_iff]
    exact ⟨hg, by simp [hclient, hterm]⟩
  have hmem : id ∈ (db.grants.keep fun _ g => g.clientID = clientID && g.termID = termID).keys :=
    AList.mem_keys.mp (AList.lookup_isSome.mp (isSome_iff_exists.mpr ⟨g, hkept⟩))
  have hcheck := forM_eq_ok.mp h id hmem
  simp only [bind_eq_ok, found_eq_ok, refuse_eq_ok, decodeRates_eq_ok, not_not] at hcheck
  obtain ⟨share, hshare, stop, -, -, -, outstanding, ⟨-, rfl⟩, hzero⟩ := hcheck
  exact ⟨share, hshare, hzero⟩

theorem openTerm_eq_ok {request : TransitionRequest} {client client' : FleetClient}
    (h : db.openTerm request termID now client term = .ok (t', client', db'))
    (hstate : term.state = .active) :
    t'.scope = term.scope ∧ t'.generation = term.generation ∧
      (client.currentTermID = none ∧ t'.state = .active ∧ client' = { client with currentTermID := some termID } ∧ db' = db ∨
        ∃ currentID previous, client.currentTermID = some currentID ∧ db.terms.get? currentID = some previous ∧
          previous.clientID = request.clientID ∧ previous.state = .active ∧ t'.state = .pending ∧
          t'.predecessorID = some currentID ∧ client' = { client with pendingTermID := some termID } ∧
          db' = { db with terms := db.terms.put currentID { previous with state := .draining } }) := by
  unfold openTerm at h
  split at h
  · simp only [bind_eq_ok, refuse_eq_ok, pure_eq_ok, Prod.mk.injEq] at h
    obtain ⟨-, hnone, t, hstart, rfl, rfl, rfl⟩ := h
    obtain ⟨hscope, hgeneration, hsame⟩ := startTerm_eq_ok hstart
    refine ⟨hscope, hgeneration, .inl ⟨?_, hsame.trans hstate, rfl, rfl⟩⟩
    simpa using hnone
  · simp only [bind_eq_ok, refuse_eq_ok, found_eq_ok, pure_eq_ok, Prod.mk.injEq, not_or, not_not, filter_eq_some_iff,
      decide_eq_true_eq] at h
    obtain ⟨currentID, hcurrent, previous, ⟨hprevious, hclient⟩, -, ⟨hpreviousState, -⟩, rfl, rfl, rfl⟩ := h
    exact ⟨rfl, rfl, .inr ⟨currentID, previous, hcurrent, hprevious, hclient, hpreviousState, rfl, rfl, rfl, rfl⟩⟩

theorem createTerm_eq_ok {spec : TermSpec} (h : db.createTerm termID term spec = .ok db') (hid : term.budgetID = termID) :
    db.budgets.get? termID = none ∧ db.terms.get? termID = none ∧ db' = { db with
      budgets := db.budgets.put termID ⟨spec.quotaBytes, spec.unlimited, spec.openingUsedBytes, 0⟩
      terms := db.terms.put termID term
      termUsages := db.termUsages.put termID ⟨0, 0, 0, 0⟩ } := by
  simp only [createTerm, hid, bind_eq_ok, create_eq_ok, pure_eq_ok] at h
  obtain ⟨budgets, ⟨hbudget, rfl⟩, -, -, terms, ⟨hterm, rfl⟩, usages, ⟨-, rfl⟩, rfl⟩ := h
  exact ⟨hbudget, hterm, rfl⟩

theorem isSome_put_of_some {α : Type} {t : Table String α} {k : String} {r : α} (h : t.get? k = some r) (r' : α) (id : String) :
    ((t.put k r').get? id).isSome = (t.get? id).isSome := by
  rw [get?_put]
  split
  · next hid =>
    subst hid
    rw [h]
    rfl
  · rfl

theorem map_scope_put {k : String} {t : FleetTerm} (h : terms.get? k = some t)
    (hscope : t'.scope = t.scope) (id : String) :
    ((terms.put k t').get? id).map FleetTerm.scope = (terms.get? id).map FleetTerm.scope := by
  rw [get?_put]
  split
  · next hid =>
    subst hid
    rw [h, Option.map_some, Option.map_some, hscope]
  · rfl

theorem map_scope_put_new {k : String} {scope : String × String × Int × Int} (hscope : term.scope = scope) (id : String) :
    ((terms.put k term).get? id).map FleetTerm.scope = if id = k then some scope else (terms.get? id).map FleetTerm.scope := by
  rw [get?_put]
  split
  · rw [map_some, hscope]
  · rfl

theorem map_scope_put_put {pendingID currentID : String} {term term' previous previous' : FleetTerm}
    (hterm : terms.get? pendingID = some term) (hprevious : terms.get? currentID = some previous) (hstate : previous.state ≠ term.state)
    (hscope : term'.scope = term.scope) (hscope' : previous'.scope = previous.scope) (id : String) :
    (((terms.put pendingID term').put currentID previous').get? id).map FleetTerm.scope =
      (terms.get? id).map FleetTerm.scope := by
  have hkept : (terms.put pendingID term').get? currentID = some previous := by
    rw [get?_put_of_ne, hprevious]
    rintro rfl
    cases hterm.symm.trans hprevious
    exact hstate rfl
  exact (map_scope_put hkept hscope' id).trans (map_scope_put hterm hscope id)

theorem opening_of_valid {request : TransitionRequest} (h : request.valid = true) :
    request.spec.openingUploaded + request.spec.openingDownloaded = request.spec.openingUsedBytes ∧
      0 ≤ request.spec.openingUsedBytes ∧
      (request.spec.unlimited = false → request.spec.openingUsedBytes ≤ request.spec.quotaBytes) := by
  simp only [TransitionRequest.valid, validTermSpec, Bool.and_eq_true, decide_eq_true_eq] at h
  obtain ⟨-, ⟨⟨⟨⟨⟨⟨⟨⟨-, hsum⟩, -⟩, hused⟩, hlimit⟩, -⟩, -⟩, -⟩, -⟩, -⟩ := h
  exact ⟨hsum, hused, fun hu => by simpa [hu] using hlimit⟩

theorem transition_eq_ok {request : TransitionRequest} (h : db.transition digests request termID now = .ok (result, db')) :
    db.Replays request.operationID (digests.transition request) db' result ∨
      Ran request.operationID request.clientID (digests.transition request) (some (termID, request.spec)) db db' result := by
  simp only [transition, unit_bind_eq_ok, refuse_eq_ok] at h
  obtain ⟨hvalid, h⟩ := h
  refine (lifecycleOperation_eq_ok h).imp id ?_
  rintro ⟨hfree, mid, hbody, rfl⟩
  obtain ⟨hopening, hused, hfits⟩ := opening_of_valid (by simpa using hvalid)
  simp only [lockClient, bind_eq_ok, refuse_eq_ok, found_eq_ok, pure_eq_ok, Prod.mk.injEq] at hbody
  obtain ⟨_, ⟨client, hclient, -, -, rfl⟩, -, -, -, hpending, -, -, -, -, ⟨term, client', opened⟩, hopen, created, hcreate,
    final, hpool, rfl, rfl⟩ := hbody
  obtain ⟨hscope, hgeneration, hcases⟩ := openTerm_eq_ok hopen rfl
  have hclientID : term.clientID = request.clientID := congrArg Prod.fst hscope
  obtain ⟨hbudget, hnew, rfl⟩ := createTerm_eq_ok hcreate (congrArg (·.2.1) hscope)
  have hpending : client.pendingTermID = none := by simpa using hpending
  have hlast : ∀ id t, db.terms.get? id = some t → t.clientID = request.clientID → t.generation < term.generation := by
    intro id t ht hc
    rw [hgeneration]
    exact Int.lt_add_one_of_le (generation_le_last ht hc)
  rcases hcases with ⟨hcurrent, hstate, rfl, rfl⟩ | ⟨currentID, previous, hcurrent, hprevious, hpreviousClient, hpreviousState,
    hstate, hpredecessor, rfl, rfl⟩
  · rw [openRatePool, if_pos hstate] at hpool
    obtain ⟨⟨rates, rfl⟩, budget, hbudgetClient, hbudgetTerm, hbudgets⟩ := activateRatePool_eq_ok hpool
    refine ⟨hfree, put_put _ _ _ _, rfl, rfl, ⟨client, _, hclient, rfl, .activate termID term hcurrent hpending hnew hclientID
      hstate hlast, .inr ⟨termID, budget, rfl, hbudgetClient, hbudgetTerm, hbudgets, fun currentID hcur => ?_⟩⟩, rfl,
      ⟨⟨hnew, hbudget⟩, hopening, hused, hfits, rfl, fun id => ?_, isSome_put_of_some hclient _, rfl, rfl, rfl⟩⟩
    · rw [hcurrent] at hcur
      cases hcur
    · exact map_scope_put_new hscope id
  · rw [openRatePool, if_neg (by rw [hstate]; simp)] at hpool
    cases hpool
    rw [get?_put] at hnew
    split at hnew
    · cases hnew
    · refine ⟨hfree, put_put _ _ _ _, rfl, rfl, ⟨client, _, hclient, rfl, .open currentID termID previous term hcurrent hpending
        hprevious hpreviousClient hpreviousState hnew hclientID hstate hpredecessor hlast, .inl ⟨rfl, rfl⟩⟩, rfl,
        ⟨⟨hnew, hbudget⟩, hopening, hused, hfits, rfl, fun id => ?_, isSome_put_of_some hclient _, rfl, rfl, rfl⟩⟩
      have hkept := map_scope_put hprevious (show { previous with state := .draining }.scope = previous.scope from rfl)
      rw [← hkept]
      exact map_scope_put_new hscope id

theorem completeTransition_eq_ok {request : CompleteTransitionRequest}
    (h : db.completeTransition digests request now = .ok (result, db')) :
    db.Replays request.operationID (digests.complete request) db' result ∨
      Ran request.operationID request.clientID (digests.complete request) none db db' result := by
  simp only [completeTransition, unit_bind_eq_ok] at h
  refine (lifecycleOperation_eq_ok h.2).imp id ?_
  rintro ⟨hfree, mid, hbody, rfl⟩
  simp only [bind_eq_ok, pure_eq_ok, Prod.mk.injEq] at hbody
  obtain ⟨⟨client, term, currentID, previous⟩, hterms, -, -, -, -, ⟨⟩, hstopped, started, hstart, final, hpool, rfl, rfl⟩ := hbody
  obtain ⟨hclient, hcurrent, hpending, ⟨hprevious, hpreviousClient, hpreviousState⟩, hterm, htermClient, hstate⟩ :=
    pendingTerms_eq_ok hterms
  obtain ⟨hscope, hgeneration, -⟩ := startTerm_eq_ok hstart
  obtain ⟨⟨rates, rfl⟩, budget, hbudgetClient, hbudgetTerm, hbudgets⟩ := activateRatePool_eq_ok hpool
  refine ⟨hfree, put_put _ _ _ _, rfl, rfl, ⟨client, _, hclient, rfl, .complete currentID request.pendingTermID previous term _
    hcurrent hpending hprevious hpreviousClient hpreviousState hterm htermClient hstate
    ((congrArg Prod.fst hscope).trans htermClient) rfl hgeneration,
    .inr ⟨request.pendingTermID, budget, rfl, hbudgetClient, hbudgetTerm, hbudgets, fun id hid => ?_⟩⟩, rfl,
    ⟨⟨?_, isSome_put_of_some hclient _⟩, rfl, rfl, rfl, rfl⟩⟩
  · cases hcurrent.symm.trans hid
    exact requireStoppedGrants_eq_ok hstopped
  · exact map_scope_put_put hterm hprevious (by rw [hpreviousState, hstate]; simp) (by exact hscope) rfl

theorem cancelTransition_eq_ok {request : CancelTransitionRequest}
    (h : db.cancelTransition digests request = .ok (result, db')) :
    db.Replays request.operationID (digests.cancel request) db' result ∨
      Ran request.operationID request.clientID (digests.cancel request) none db db' result := by
  simp only [cancelTransition, unit_bind_eq_ok] at h
  refine (lifecycleOperation_eq_ok h.2).imp id ?_
  rintro ⟨hfree, mid, hbody, rfl⟩
  simp only [bind_eq_ok, pure_eq_ok, Prod.mk.injEq] at hbody
  obtain ⟨⟨client, term, currentID, previous⟩, hterms, rfl, rfl⟩ := hbody
  obtain ⟨hclient, hcurrent, hpending, ⟨hprevious, hpreviousClient, hpreviousState⟩, hterm, htermClient, hstate⟩ :=
    pendingTerms_eq_ok hterms
  refine ⟨hfree, put_put _ _ _ _, rfl, rfl, ⟨client, _, hclient, rfl, .cancel currentID request.pendingTermID previous term hcurrent
    hpending hprevious hpreviousClient hpreviousState hterm htermClient hstate, .inl ⟨rfl, rfl⟩⟩, rfl,
    ⟨⟨?_, isSome_put_of_some hclient _⟩, rfl, rfl, rfl, rfl⟩⟩
  exact map_scope_put_put hterm hprevious (by rw [hpreviousState, hstate]; simp) rfl rfl

end Fleet

end Pui
