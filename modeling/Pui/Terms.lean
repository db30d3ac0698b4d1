import Pui.Conservation

/-!
# Runs of the term lifecycle

The operations on the terms of a client, in any order and with any outcome.
-/

namespace Pui

open Guard Table Option

inductive TermOp where
  | transition (request : TransitionRequest) (termID : FreshID) (now : Int)
  | complete (request : CompleteTransitionRequest) (now : Int)
  | cancel (request : CancelTransitionRequest)

namespace TermOp

def run (digests : Digests) (db : Fleet) : TermOp → Except FleetError (TransitionResult × Fleet)
  | .transition request termID now => db.transition digests request termID.1 now
  | .complete request now => db.completeTransition digests request now
  | .cancel request => db.cancelTransition digests request

def step (digests : Digests) (db : Fleet) (op : TermOp) : Fleet :=
  match op.run digests db with
  | .ok (_, db') => db'
  | .error _ => db

def operationID : TermOp → String
  | .transition request _ _ => request.operationID
  | .complete request _ => request.operationID
  | .cancel request => request.operationID

def clientID : TermOp → String
  | .transition request _ _ => request.clientID
  | .complete request _ => request.clientID
  | .cancel request => request.clientID

def digest (digests : Digests) : TermOp → Digest
  | .transition request _ _ => digests.transition request
  | .complete request _ => digests.complete request
  | .cancel request => digests.cancel request

def valid : TermOp → Bool
  | .transition request _ _ => request.valid
  | .complete request _ => request.valid
  | .cancel request => request.valid

def SameRequest : TermOp → TermOp → Prop
  | .transition request _ _, .transition request' _ _ => request = request'
  | .complete request _, .complete request' _ => request = request'
  | .cancel request, .cancel request' => request = request'
  | _, _ => False

/-- The term that the call opens. -/
def opens : TermOp → Option (String × TermSpec)
  | .transition request termID _ => some (termID.1, request.spec)
  | _ => none

end TermOp

def Fleet.afterTerms (digests : Digests) (db : Fleet) (ops : List TermOp) : Fleet := Run.after (fun db op => op.step digests db) db ops

variable {db db' : Fleet} {clientID termID : String} {term : FleetTerm} {result stored : TransitionResult} {op : TermOp}

abbrev TermOp.Ran (digests : Digests) (op : TermOp) (db db' : Fleet) (result : TransitionResult) : Prop :=
  Fleet.Ran op.operationID op.clientID (op.digest digests) op.opens db db' result

theorem TermOp.run_eq_ok {digests : Digests} (h : op.run digests db = .ok (result, db')) :
    db.Replays op.operationID (op.digest digests) db' result ∨ op.Ran digests db db' result := by
  cases op with
  | transition request termID now => exact Fleet.transition_eq_ok h
  | complete request now => exact Fleet.completeTransition_eq_ok h
  | cancel request => exact Fleet.cancelTransition_eq_ok h

/-- The state that a client's row gives to the client's term `id`. -/
def FleetClient.stateOf (client : FleetClient) (id : String) : TermState :=
  if client.currentTermID = some id then
    if client.pendingTermID = none then .active else .draining
  else if client.pendingTermID = some id then .pending else .closed

/-- The row of a client and the rows of its terms agree. -/
structure TermsOK (clientID : String) (client : FleetClient) (terms : Table String FleetTerm) : Prop where
  state : ∀ id t, terms.get? id = some t → t.clientID = clientID → t.state = client.stateOf id
  current : ∀ id, client.currentTermID = some id → ∃ t, terms.get? id = some t ∧ t.clientID = clientID
  pending : ∀ id, client.pendingTermID = some id → client.currentTermID ≠ none ∧ client.currentTermID ≠ some id ∧
    ∃ p, terms.get? id = some p ∧ p.clientID = clientID ∧ p.predecessorID = client.currentTermID
  generations : ∀ id t id' t', terms.get? id = some t → terms.get? id' = some t' → t.clientID = clientID →
    t'.clientID = clientID → t.generation = t'.generation → id = id'

section Change

variable {clientID : String} {client client' : FleetClient} {terms terms' : Table String FleetTerm}

theorem TermsOK.of_rows (h : TermsOK clientID client terms)
    (hrows : ∀ id t, t.clientID = clientID → (terms'.get? id = some t ↔ terms.get? id = some t)) :
    TermsOK clientID client terms' where
  state id t ht hc := h.state id t ((hrows id t hc).mp ht) hc
  current id hid := by
    obtain ⟨t, ht, hc⟩ := h.current id hid
    exact ⟨t, (hrows id t hc).mpr ht, hc⟩
  pending id hid := by
    obtain ⟨hsome, hne, p, hp, hc, hpredecessor⟩ := h.pending id hid
    exact ⟨hsome, hne, p, (hrows id p hc).mpr hp, hc, hpredecessor⟩
  generations id t id' t' ht ht' hc hc' :=
    h.generations id t id' t' ((hrows id t hc).mp ht) ((hrows id' t' hc').mp ht') hc hc'

theorem TermsOK.closed_of_ne (h : TermsOK clientID client terms) {id : String} {t : FleetTerm}
    (ht : terms.get? id = some t) (hc : t.clientID = clientID) (hcurrent : client.currentTermID ≠ some id)
    (hpending : client.pendingTermID ≠ some id) : t.state = .closed := by
  rw [h.state id t ht hc, FleetClient.stateOf, if_neg hcurrent, if_neg hpending]

theorem TermsOK.state_current (h : TermsOK clientID client terms) {id : String} (hid : client.currentTermID = some id) :
    ∃ t, terms.get? id = some t ∧ t.clientID = clientID ∧
      t.state = if client.pendingTermID = none then .active else .draining := by
  obtain ⟨t, ht, hc⟩ := h.current id hid
  refine ⟨t, ht, hc, ?_⟩
  rw [h.state id t ht hc, FleetClient.stateOf, if_pos hid]

/-- A term that is active or drains is the current one. -/
theorem TermsOK.current_of_live (h : TermsOK clientID client terms) {id : String} {t : FleetTerm}
    (ht : terms.get? id = some t) (hc : t.clientID = clientID) (hs : t.state = .active ∨ t.state = .draining) :
    client.currentTermID = some id := by
  rw [h.state id t ht hc, FleetClient.stateOf] at hs
  split at hs
  · next hcurrent => exact hcurrent
  · split at hs <;> simp at hs

/-- A pending term is set exactly while the current one drains. -/
theorem TermsOK.pending_iff_draining (h : TermsOK clientID client terms) : client.pendingTermID ≠ none ↔
    ∃ currentID t, client.currentTermID = some currentID ∧ terms.get? currentID = some t ∧ t.clientID = clientID ∧
      t.state = .draining := by
  constructor
  · intro hpending
    obtain ⟨pendingID, hpendingID⟩ := Option.ne_none_iff_exists'.mp hpending
    obtain ⟨currentID, hcurrent⟩ := Option.ne_none_iff_exists'.mp (h.pending pendingID hpendingID).1
    obtain ⟨t, ht, hc, hs⟩ := h.state_current hcurrent
    exact ⟨currentID, t, hcurrent, ht, hc, hs.trans (if_neg hpending)⟩
  · rintro ⟨currentID, t, hcurrent, ht, hc, hs⟩ hnone
    rw [h.state currentID t ht hc, FleetClient.stateOf, if_pos hcurrent, if_pos hnone] at hs
    cases hs

/-- The pending term is in state pending and follows the current one. -/
theorem TermsOK.state_pending (h : TermsOK clientID client terms) {id : String} (hid : client.pendingTermID = some id) :
    ∃ p, terms.get? id = some p ∧ p.clientID = clientID ∧ p.state = .pending ∧
      p.predecessorID = client.currentTermID := by
  obtain ⟨-, hne, p, hp, hc, hpredecessor⟩ := h.pending id hid
  refine ⟨p, hp, hc, ?_, hpredecessor⟩
  rw [h.state id p hp hc, FleetClient.stateOf, if_neg hne, if_pos hid]

/-- Two rows are written, the second one over the first. -/
private theorem get?_put_put {k k' id : String} {row row' t : FleetTerm} (h : ((terms.put k row).put k' row').get? id = some t) :
    id = k' ∧ t = row' ∨ id ≠ k' ∧ (id = k ∧ t = row ∨ id ≠ k ∧ terms.get? id = some t) :=
  (get?_put_eq_some.mp h).imp (fun hk => hk) (And.imp_right get?_put_eq_some.mp)

/-- After a change every term of the client is in the state that the new row gives it. -/
private theorem TermChange.state (hchange : TermChange clientID client terms client' terms')
    (h : TermsOK clientID client terms) {id : String} {t : FleetTerm} (ht : terms'.get? id = some t)
    (hc : t.clientID = clientID) : t.state = client'.stateOf id := by
  cases hchange with
  | activate termID term hcurrent hpending hnew hclient hstate =>
    rw [get?_put] at ht
    split at ht
    · next hid =>
      cases ht
      simp [FleetClient.stateOf, hid, hpending, hstate]
    · next hid => simp [FleetClient.stateOf, h.state id t ht hc, hcurrent, hpending, Ne.symm hid]
  | «open» currentID termID previous term hcurrent hpending hprevious hpreviousClient hpreviousState hnew hclient hstate =>
    have hne : currentID ≠ termID := by
      rintro rfl
      rw [hnew] at hprevious
      cases hprevious
    obtain ⟨rfl, rfl⟩ | ⟨hid, ⟨rfl, rfl⟩ | ⟨hid', ht⟩⟩ := get?_put_put ht
    · simp [FleetClient.stateOf, hcurrent, hne, hstate]
    · simp [FleetClient.stateOf, hcurrent]
    · simp [FleetClient.stateOf, h.state id t ht hc, hcurrent, hpending, Ne.symm hid, Ne.symm hid']
  | complete currentID pendingID previous term term' hcurrent hpending hprevious hpreviousClient hpreviousState hterm hclient
      hstate hclient' hstate' =>
    obtain ⟨rfl, rfl⟩ | ⟨hid, ⟨rfl, rfl⟩ | ⟨hid', ht⟩⟩ := get?_put_put ht
    · have hne := (h.pending _ hpending).2.1
      simp [FleetClient.stateOf, Ne.symm (hcurrent ▸ hne)]
    · simp [FleetClient.stateOf, hstate']
    · simp [FleetClient.stateOf, h.state id t ht hc, hcurrent, hpending, Ne.symm hid, Ne.symm hid']
  | cancel currentID pendingID previous term hcurrent hpending =>
    obtain ⟨rfl, rfl⟩ | ⟨hid, ⟨rfl, rfl⟩ | ⟨hid', ht⟩⟩ := get?_put_put ht
    · simp [FleetClient.stateOf, hcurrent]
    · simp [FleetClient.stateOf, hcurrent, Ne.symm hid]
    · simp [FleetClient.stateOf, h.state id t ht hc, hcurrent, hpending, Ne.symm hid, Ne.symm hid']

/-- After a change the current term of the client is one of its terms. -/
private theorem TermChange.current (hchange : TermChange clientID client terms client' terms') {id : String}
    (hid : client'.currentTermID = some id) : ∃ t, terms'.get? id = some t ∧ t.clientID = clientID := by
  cases hchange with
  | activate termID term hcurrent hpending hnew hclient =>
    cases hid
    exact ⟨term, get?_put_self _ _ _, hclient⟩
  | «open» currentID termID previous term hcurrent hpending hprevious hpreviousClient hpreviousState hnew =>
    cases hcurrent.symm.trans hid
    refine ⟨{ previous with state := .draining }, ?_, hpreviousClient⟩
    rw [get?_put_of_ne, get?_put_self]
    rintro rfl
    rw [hnew] at hprevious
    cases hprevious
  | complete currentID pendingID previous term term' hcurrent hpending hprevious hpreviousClient hpreviousState hterm hclient
      hstate hclient' =>
    cases hid
    refine ⟨term', ?_, hclient'⟩
    rw [get?_put_of_ne, get?_put_self]
    rintro rfl
    cases hterm.symm.trans hprevious
    rw [hstate] at hpreviousState
    cases hpreviousState
  | cancel currentID pendingID previous term hcurrent hpending hprevious hpreviousClient =>
    cases hcurrent.symm.trans hid
    exact ⟨_, get?_put_self _ _ _, hpreviousClient⟩

/-- After a change a pending term of the client is another one than the current and follows it. -/
private theorem TermChange.pending (hchange : TermChange clientID client terms client' terms') {id : String}
    (hid : client'.pendingTermID = some id) : client'.currentTermID ≠ none ∧ client'.currentTermID ≠ some id ∧
      ∃ p, terms'.get? id = some p ∧ p.clientID = clientID ∧ p.predecessorID = client'.currentTermID := by
  cases hchange with
  | activate termID term hcurrent hpending => cases hpending.symm.trans hid
  | «open» currentID termID previous term hcurrent hpending hprevious hpreviousClient hpreviousState hnew hclient hstate
      hpredecessor =>
    cases hid
    refine ⟨by simp [hcurrent], fun hcur => ?_, term, get?_put_self _ _ _, hclient, hpredecessor.trans hcurrent.symm⟩
    cases hcurrent.symm.trans hcur
    rw [hnew] at hprevious
    cases hprevious
  | complete => cases hid
  | cancel => cases hid

/-- A change gives a new term a generation past those of the client's other terms and keeps the generations there are. -/
private theorem TermChange.generation (hchange : TermChange clientID client terms client' terms') : ∃ new,
    ∀ id t, terms'.get? id = some t → t.clientID = clientID →
      (∃ t₀, terms.get? id = some t₀ ∧ t₀.clientID = clientID ∧ t₀.generation = t.generation) ∨
      id = new ∧ ∀ id₀ t₀, terms.get? id₀ = some t₀ → t₀.clientID = clientID → t₀.generation < t.generation := by
  cases hchange with
  | activate termID term hcurrent hpending hnew hclient hstate hgeneration =>
    refine ⟨termID, fun id t ht hc => ?_⟩
    rw [get?_put] at ht
    split at ht
    · next hid =>
      cases ht
      exact .inr ⟨hid, hgeneration⟩
    · exact .inl ⟨t, ht, hc, rfl⟩
  | «open» currentID termID previous term hcurrent hpending hprevious hpreviousClient hpreviousState hnew hclient hstate
      hpredecessor hgeneration =>
    refine ⟨termID, fun id t ht hc => ?_⟩
    obtain ⟨rfl, rfl⟩ | ⟨-, ⟨rfl, rfl⟩ | ⟨-, ht⟩⟩ := get?_put_put ht
    · exact .inr ⟨rfl, hgeneration⟩
    · exact .inl ⟨previous, hprevious, hpreviousClient, rfl⟩
    · exact .inl ⟨t, ht, hc, rfl⟩
  | complete currentID pendingID previous term term' hcurrent hpending hprevious hpreviousClient hpreviousState hterm hclient
      hstate hclient' hstate' hgeneration =>
    refine ⟨currentID, fun id t ht hc => .inl ?_⟩
    obtain ⟨rfl, rfl⟩ | ⟨-, ⟨rfl, rfl⟩ | ⟨-, ht⟩⟩ := get?_put_put ht
    · exact ⟨previous, hprevious, hpreviousClient, rfl⟩
    · exact ⟨term, hterm, hclient, hgeneration.symm⟩
    · exact ⟨t, ht, hc, rfl⟩
  | cancel currentID pendingID previous term hcurrent hpending hprevious hpreviousClient hpreviousState hterm hclient =>
    refine ⟨currentID, fun id t ht hc => .inl ?_⟩
    obtain ⟨rfl, rfl⟩ | ⟨-, ⟨rfl, rfl⟩ | ⟨-, ht⟩⟩ := get?_put_put ht
    · exact ⟨previous, hprevious, hpreviousClient, rfl⟩
    · exact ⟨term, hterm, hclient, rfl⟩
    · exact ⟨t, ht, hc, rfl⟩

/-- A change of a client keeps its terms in order. -/
theorem TermChange.termsOK (hchange : TermChange clientID client terms client' terms')
    (h : TermsOK clientID client terms) : TermsOK clientID client' terms' where
  state _ _ ht hc := hchange.state h ht hc
  current _ hid := hchange.current hid
  pending _ hid := hchange.pending hid
  generations id t id' t' ht ht' hc hc' heq := by
    obtain ⟨new, hrows⟩ := hchange.generation
    rcases hrows id t ht hc with ⟨t₀, ht₀, hc₀, hg₀⟩ | ⟨rfl, hlarge⟩
    · rcases hrows id' t' ht' hc' with ⟨t₁, ht₁, hc₁, hg₁⟩ | ⟨rfl, hlarge⟩
      · exact h.generations id t₀ id' t₁ ht₀ ht₁ hc₀ hc₁ (by omega)
      · have := hlarge id t₀ ht₀ hc₀
        omega
    · rcases hrows id' t' ht' hc' with ⟨t₁, ht₁, hc₁, hg₁⟩ | ⟨rfl, -⟩
      · have := hlarge id' t₁ ht₁ hc₁
        omega
      · rfl

theorem TermChange.rows (h : TermChange clientID client terms client' terms') {other : String} (hne : other ≠ clientID)
    (id : String) (t : FleetTerm) (hc : t.clientID = other) : terms'.get? id = some t ↔ terms.get? id = some t := by
  -- A row that is written belongs to the client, before and after.
  have hput : ∀ (rows : Table String FleetTerm) (k : String) (row : FleetTerm), row.clientID = clientID →
      (∀ old, rows.get? k = some old → old.clientID = clientID) →
      ((rows.put k row).get? id = some t ↔ rows.get? id = some t) := by
    intro rows k row hrow hold
    rw [get?_put]
    split
    · next hid =>
      constructor
      · rintro ⟨⟩
        exact absurd (hc.symm.trans hrow) hne
      · intro hget
        exact absurd (hc.symm.trans (hold t (hid ▸ hget))) hne
    · rfl
  have hput₂ : ∀ (k k' : String) (row row' old old' : FleetTerm), row.clientID = clientID → row'.clientID = clientID →
      (terms.get? k = none ∨ terms.get? k = some old ∧ old.clientID = clientID) → terms.get? k' = some old' →
      old'.clientID = clientID → (((terms.put k row).put k' row').get? id = some t ↔ terms.get? id = some t) := by
    intro k k' row row' old old' hrow hrow' hk hk' hold'
    refine (hput _ _ _ hrow' fun r hr => ?_).trans (hput _ _ _ hrow fun r hr => ?_)
    · rw [get?_put] at hr
      split at hr
      · cases hr
        exact hrow
      · cases hk'.symm.trans hr
        exact hold'
    · rcases hk with hk | ⟨hk, hc⟩
      · rw [hk] at hr
        cases hr
      · cases hk.symm.trans hr
        exact hc
  cases h with
  | activate termID term hcurrent hpending hnew hclient =>
    exact hput _ _ _ hclient fun old hold => by rw [hnew] at hold; cases hold
  | «open» currentID termID previous term hcurrent hpending hprevious hpreviousClient hpreviousState hnew hclient =>
    have hne : termID ≠ currentID := by
      rintro rfl
      rw [hnew] at hprevious
      cases hprevious
    refine (hput _ _ _ hclient fun old hold => ?_).trans (hput _ _ _ ?_ fun old hold => ?_)
    · rw [get?_put_of_ne hne, hnew] at hold
      cases hold
    · exact hpreviousClient
    · cases hprevious.symm.trans hold
      exact hpreviousClient
  | complete currentID pendingID previous term term' hcurrent hpending hprevious hpreviousClient hpreviousState hterm hclient
      hstate hclient' =>
    exact hput₂ _ _ _ _ term previous hclient' hpreviousClient (.inr ⟨hterm, hclient⟩) hprevious hpreviousClient
  | cancel currentID pendingID previous term hcurrent hpending hprevious hpreviousClient hpreviousState hterm hclient =>
    exact hput₂ _ _ _ _ term previous hclient hpreviousClient (.inr ⟨hterm, hclient⟩) hprevious hpreviousClient

theorem TermChange.revision_lt (h : TermChange clientID client terms client' terms') : client.revision < client'.revision := by
  cases h <;> exact Int.lt_succ _

end Change

variable {digests : Digests} {db db' : Fleet}

def Fleet.Ordered (db : Fleet) (clientID : String) : Prop :=
  ∀ client, db.clients.get? clientID = some client → TermsOK clientID client db.terms

theorem TermOp.Ran.ordered (h : op.Ran digests db db' result)
    (hdb : db.Ordered clientID) : db'.Ordered clientID := by
  obtain ⟨client, client', hclient, hclients, hchange, -⟩ := h.change
  intro c hc
  rw [hclients, get?_put] at hc
  split at hc
  · next heq =>
    cases hc
    subst heq
    exact hchange.termsOK (hdb client hclient)
  · next hne => exact (hdb c hc).of_rows (hchange.rows hne)

theorem TermOp.ordered_step (digests : Digests) (db : Fleet) (op : TermOp) (hdb : db.Ordered clientID) :
    (op.step digests db).Ordered clientID := by
  unfold TermOp.step
  split
  · next result db' hrun =>
    rcases TermOp.run_eq_ok hrun with ⟨-, -, -, -, -, -, rfl⟩ | hran
    · exact hdb
    · exact hran.ordered hdb
  · exact hdb

structure Fleet.Remembers (db db' : Fleet) : Prop where
  rows : ∀ id row, db.operations.get? id = some row → db'.operations.get? id = some row
  fence : db'.fence = db.fence

theorem TermOp.remembers_step (digests : Digests) (db : Fleet) (op : TermOp) : db.Remembers (op.step digests db) := by
  unfold TermOp.step
  split
  · next result db' hrun =>
    rcases TermOp.run_eq_ok hrun with ⟨-, -, -, -, -, -, rfl⟩ | hran
    · exact ⟨fun _ _ h => h, rfl⟩
    · refine ⟨fun id row hrow => ?_, hran.fence⟩
      rw [hran.stored, get?_put_of_ne, hrow]
      rintro rfl
      rw [hran.free] at hrow
      cases hrow
  · exact ⟨fun _ _ h => h, rfl⟩

theorem TermOp.remembers_after (digests : Digests) (db : Fleet) (ops : List TermOp) :
    db.Remembers (db.afterTerms digests ops) := by
  refine Run.rel_after (I := fun _ => True) (R := Fleet.Remembers) (fun _ => ⟨fun _ _ h => h, rfl⟩) ?_ (fun _ _ _ => trivial)
    (fun db op _ => op.remembers_step digests db) trivial ops
  intro s t u hst htu
  exact ⟨fun id row hrow => htu.rows id row (hst.rows id row hrow), htu.fence.trans hst.fence⟩

theorem TermOp.stored_of_run (h : op.run digests db = .ok (result, db')) :
    op.valid = true ∧ validID op.operationID = true ∧ db'.lockAuthority = .ok () ∧
      ∃ stored, db'.operations.get? op.operationID = some ⟨op.digest digests, .transition stored⟩ ∧
        { stored with replayed := true } = { result with replayed := true } := by
  have hchecks : op.valid = true ∧ validID op.operationID = true ∧ db.lockAuthority = .ok () := by
    cases op with
    | transition | complete | cancel =>
      simp only [TermOp.run, Fleet.transition, Fleet.completeTransition, Fleet.cancelTransition, Fleet.lifecycleOperation,
        unit_bind_eq_ok, refuse_eq_ok, Bool.not_eq_true, Bool.not_eq_false'] at h
      exact ⟨h.1, h.2.1, h.2.2.1⟩
  refine ⟨hchecks.1, hchecks.2.1, ?_⟩
  rcases TermOp.run_eq_ok h with ⟨row, stored, hrow, hdigest, hresult, rfl, rfl⟩ | hran
  · refine ⟨hchecks.2.2, stored, ?_, rfl⟩
    rw [hrow, ← hdigest, ← hresult]
  · refine ⟨?_, result, ?_, rfl⟩
    · unfold Fleet.lockAuthority
      rw [hran.fence]
      exact hchecks.2.2
    · rw [hran.stored, get?_put_self]

theorem Fleet.lifecycleOperation_of_stored {operationID : String} {digest : Digest}
    (apply : Fleet → Except FleetError (TransitionResult × Fleet)) (hid : validID operationID = true)
    (hlock : db.lockAuthority = .ok ()) (hrow : db.operations.get? operationID = some ⟨digest, .transition stored⟩) :
    db.lifecycleOperation operationID digest apply = .ok ({ stored with replayed := true }, db) := by
  refine unit_bind_eq_ok.mpr ⟨refuse_eq_ok.mpr (by simp [hid]), unit_bind_eq_ok.mpr ⟨hlock, ?_⟩⟩
  rw [Fleet.operation, hrow]
  exact unit_bind_eq_ok.mpr ⟨refuse_eq_ok.mpr (by simp), bind_eq_ok.mpr ⟨_, rfl, rfl⟩⟩

theorem TermOp.run_of_stored (hvalid : op.valid = true)
    (hid : validID op.operationID = true) (hlock : db.lockAuthority = .ok ())
    (hrow : db.operations.get? op.operationID = some ⟨op.digest digests, .transition stored⟩) :
    op.run digests db = .ok ({ stored with replayed := true }, db) := by
  cases op with
  | transition | complete | cancel =>
    simp only [TermOp.valid] at hvalid
    refine unit_bind_eq_ok.mpr ⟨refuse_eq_ok.mpr (by simp [hvalid]), ?_⟩
    exact Fleet.lifecycleOperation_of_stored _ hid hlock hrow

theorem TermOp.SameRequest.eq {op' : TermOp} (h : op.SameRequest op') (digests : Digests) :
    op'.valid = op.valid ∧ op'.operationID = op.operationID ∧ op'.digest digests = op.digest digests := by
  cases op <;> cases op' <;> simp only [TermOp.SameRequest] at h <;> subst h <;> exact ⟨rfl, rfl, rfl⟩

structure Fleet.Unstarted (db : Fleet) (clientID : String) : Prop where
  terms : ∀ id t, db.terms.get? id = some t → t.clientID ≠ clientID
  client : ∀ client, db.clients.get? clientID = some client → client.currentTermID = none ∧ client.pendingTermID = none

theorem Fleet.Unstarted.ordered (h : db.Unstarted clientID) : db.Ordered clientID := by
  intro client hclient
  obtain ⟨hcurrent, hpending⟩ := h.client client hclient
  refine ⟨fun id t ht hc => absurd hc (h.terms id t ht), fun id hid => ?_, fun id hid => ?_,
    fun id t id' t' ht _ hc => absurd hc (h.terms id t ht)⟩
  · cases hcurrent.symm.trans hid
  · cases hpending.symm.trans hid

/-- In every run of the lifecycle from a client without terms, with replays and failures: only the client's current
term is active or drains; a pending term is set exactly while the current one drains, and it is pending and follows the
current one; all other terms are closed; no two terms have one generation; and a call that was answered before changes
nothing. -/
theorem terms_after (digests : Digests) {clientID : String} {db : Fleet} (hdb : db.Unstarted clientID)
    (ops : List TermOp) :
    let now := db.afterTerms digests ops
    (∀ client, now.clients.get? clientID = some client →
      (∀ id t, now.terms.get? id = some t → t.clientID = clientID → t.state = .active ∨ t.state = .draining →
        client.currentTermID = some id) ∧
      (client.pendingTermID ≠ none ↔ ∃ currentID t, client.currentTermID = some currentID ∧
        now.terms.get? currentID = some t ∧ t.clientID = clientID ∧ t.state = .draining) ∧
      (∀ pendingID, client.pendingTermID = some pendingID → ∃ p, now.terms.get? pendingID = some p ∧
        p.clientID = clientID ∧ p.state = .pending ∧ p.predecessorID = client.currentTermID) ∧
      (∀ id t, now.terms.get? id = some t → t.clientID = clientID → client.currentTermID ≠ some id →
        client.pendingTermID ≠ some id → t.state = .closed) ∧
      ∀ id t id' t', now.terms.get? id = some t → now.terms.get? id' = some t' → t.clientID = clientID →
        t'.clientID = clientID → t.generation = t'.generation → id = id') ∧
    ∀ (op : TermOp) (result : TransitionResult) (next : Fleet), op.run digests now = .ok (result, next) →
      (result.replayed = true → next = now) ∧
      (result.replayed = false → ∃ client client', now.clients.get? op.clientID = some client ∧
        next.clients.get? op.clientID = some client' ∧ client.revision < client'.revision) ∧
      ∀ (later : List TermOp) (again : TermOp), op.SameRequest again →
        again.run digests (next.afterTerms digests later) =
          .ok ({ result with replayed := true }, next.afterTerms digests later) := by
  intro now
  have hordered : now.Ordered clientID :=
    Run.inv_after (I := fun db : Fleet => db.Ordered clientID) (fun db op => op.ordered_step digests db) hdb.ordered ops
  refine ⟨fun client hclient => ?_,
    fun op result next hrun => ⟨fun hreplayed => ?_, fun hfresh => ?_, fun later again hsame => ?_⟩⟩
  · have hok := hordered client hclient
    exact ⟨fun _ _ => hok.current_of_live, hok.pending_iff_draining, fun _ => hok.state_pending,
      fun _ _ ht hc => hok.closed_of_ne ht hc, hok.generations⟩
  · rcases TermOp.run_eq_ok hrun with ⟨-, -, -, -, -, -, rfl⟩ | hran
    · rfl
    · rw [hran.fresh] at hreplayed
      cases hreplayed
  · rcases TermOp.run_eq_ok hrun with ⟨row, stored, -, -, -, rfl, -⟩ | hran
    · cases hfresh
    · obtain ⟨client, client', hclient, hclients, hchange, -⟩ := hran.change
      exact ⟨client, client', hclient, by rw [hclients, get?_put_self], hchange.revision_lt⟩
  · obtain ⟨hvalid, hid, hlock, stored, hrow, heq⟩ := TermOp.stored_of_run hrun
    obtain ⟨hvalid', hid', hdigest'⟩ := hsame.eq digests
    have hkept := TermOp.remembers_after digests next later
    rw [← heq]
    refine TermOp.run_of_stored (hvalid'.trans hvalid) (hid' ▸ hid) ?_ ?_
    · unfold Fleet.lockAuthority
      rw [hkept.fence]
      exact hlock
    · rw [hid', hdigest']
      exact hkept.rows _ _ hrow

namespace Sample

def bound : Fleet where
  fence := some ⟨false⟩
  clients := (∅ : Table String FleetClient).put client ⟨some 1, 1, 1, none, none, true⟩

def activation : TransitionRequest :=
  ⟨node, client, 1, 1, "", List.replicate 32 0, .activation, ⟨100, false, 0, 0, 0, 0, 0, Rates.zero⟩⟩

theorem unstarted_bound : bound.Unstarted client := by
  refine ⟨fun id t ht => (nomatch ht), fun c hc => ?_⟩
  rw [bound, get?_put, if_pos rfl] at hc
  cases hc
  exact ⟨rfl, rfl⟩

end Sample

/-- A bound client whose first term is activated; the same call again gets the same answer and changes nothing. -/
theorem terms_after_activation :
    Sample.bound.Unstarted Sample.client ∧ ∃ result next,
      (TermOp.transition Sample.activation ⟨Sample.grant, by decide⟩ 5).run Sample.digests Sample.bound = .ok (result, next) ∧
      (TermOp.transition Sample.activation ⟨Sample.node, by decide⟩ 6).run Sample.digests next =
        .ok ({ result with replayed := true }, next) := by
  refine ⟨Sample.unstarted_bound, ?_⟩
  have hok : ((TermOp.transition Sample.activation ⟨Sample.grant, by decide⟩ 5).run Sample.digests Sample.bound).isOk = true := by
    decide +kernel
  cases hrun : (TermOp.transition Sample.activation ⟨Sample.grant, by decide⟩ 5).run Sample.digests Sample.bound with
  | error e =>
    rw [hrun] at hok
    cases hok
  | ok answer =>
    refine ⟨answer.1, answer.2, rfl, ?_⟩
    exact ((terms_after Sample.digests Sample.unstarted_bound []).2 _ answer.1 answer.2 hrun).2.2 []
      (.transition Sample.activation ⟨Sample.node, by decide⟩ 6) rfl

end Pui
