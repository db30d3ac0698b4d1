import Pui.Terms

/-!
# The budgets of terms

Every term has a budget of its own, opened with the usage that the term takes over.
-/

namespace Pui

open Guard Table

namespace Fleet

variable {t' : FleetTerm} {clientID termID placementID : String} {g : FleetGrant} {budgets : Table String FleetBudget}
  {request : TransitionRequest} {now : Int} {ledger : Ledger} {result : TransitionResult} {terms : Table String FleetTerm}

/-- The budget of every term has used what the term's grants and its opening account for. -/
structure Settled (db : Fleet) : Prop where
  refers : ∀ g b u, db.links.get? (g, b) = some u →
    (∃ grant, db.grants.get? g = some grant) ∧ ∃ budget, db.budgets.get? b = some budget
  counted : ∀ id g, db.grants.get? id = some g → 0 ≤ g.consumedBytes ∧ 0 ≤ g.issuedBytes
  own : ∀ id t, db.terms.get? id = some t → t.budgetID = id ∧ ∃ b, db.budgets.get? id = some b ∧
    b.usedBytes = t.openingUploaded + t.openingDownloaded + drawn FleetGrant.consumedBytes db.grants db.links id
  linked : ∀ id g, db.grants.get? id = some g → (db.clients.get? g.clientID).isSome →
    ∃ t u, db.terms.get? g.termID = some t ∧ t.clientID = g.clientID ∧ db.links.get? (id, g.termID) = some u

structure Unissued (db : Fleet) : Prop where
  terms : ∀ id, db.terms.get? id = none
  grants : ∀ id, db.grants.get? id = none
  links : ∀ k, db.links.get? k = none

theorem Unissued.settled {db : Fleet} (h : db.Unissued) : db.Settled where
  refers g b u hu := by simp [h.links (g, b)] at hu
  counted id g hg := by simp [h.grants id] at hg
  own id t ht := by simp [h.terms id] at ht
  linked id g hg := by simp [h.grants id] at hg

variable {digests : Digests} {db db' : Fleet}

theorem Settled.of_ledger (h : db.Settled) (hsame : db.SameTerms db') (hl : db'.toLedger = db.toLedger) : db'.Settled where
  refers := by rw [hl]; exact h.refers
  counted := by rw [hl]; exact h.counted
  own id t' ht' := by
    obtain ⟨t, ht, hscope⟩ := hsame.row ht'
    simp only [FleetTerm.scope, Prod.mk.injEq] at hscope
    obtain ⟨-, hbudget, hup, hdown⟩ := hscope
    rw [hl, ← hbudget, ← hup, ← hdown]
    exact h.own id t ht
  linked id g hg hclient := by
    rw [hl] at hg ⊢
    rw [hsame.clients] at hclient
    obtain ⟨t, u, ht, hc, hlink⟩ := h.linked id g hg hclient
    obtain ⟨t', ht', hscope⟩ := hsame.symm.row ht
    simp only [FleetTerm.scope, Prod.mk.injEq] at hscope
    exact ⟨t', u, ht', hscope.1.trans hc, hlink⟩

theorem get?_termGrants {l : Ledger} {id : String} :
    (l.termGrants clientID termID).get? id = some g ↔
      l.grants.get? id = some g ∧ g.clientID = clientID ∧ g.termID = termID := by
  rw [Ledger.termGrants, get?_keep, Option.filter_eq_some_iff, Bool.and_eq_true, decide_eq_true_eq, decide_eq_true_eq]

theorem total_termGrants {l : Ledger}
    (h : ∀ id g, l.grants.get? id = some g → g.clientID = clientID → g.termID = termID → ∃ u, l.links.get? (id, termID) = some u)
    (f : FleetGrant → Int) :
    ((l.termGrants clientID termID).total fun _ g => f g) = drawn f (l.termGrants clientID termID) l.links termID := by
  refine total_eq_of_embed (e := fun id => (id, termID)) (fun a b h => (Prod.mk.inj h).1) _ _ (fun id g hg => ?_)
    (fun k u hu hout => ?_)
  · obtain ⟨hgrant, hclient, hterm⟩ := get?_termGrants.mp hg
    obtain ⟨u, hlink⟩ := h id g hgrant hclient hterm
    exact ⟨u, hlink, by rw [if_pos rfl, hg, Option.elim_some]⟩
  · by_cases hk : k.2 = termID
    · rw [if_pos hk]
      cases hg : (l.termGrants clientID termID).get? k.1 with
      | none => rfl
      | some g => exact absurd (by rw [← hk]) (hout k.1 g hg)
    · exact if_neg hk

theorem Settled.link_of_client (h : db.Settled) (hclient : (db.clients.get? clientID).isSome) (termID : String)
    (id : String) (g : FleetGrant) (hg : db.grants.get? id = some g) (hc : g.clientID = clientID) (ht : g.termID = termID) :
    ∃ u, db.links.get? (id, termID) = some u := by
  subst hc ht
  obtain ⟨t, u, -, -, hlink⟩ := h.linked id g hg hclient
  exact ⟨u, hlink⟩

theorem drawn_termGrants_le (l : Ledger) (clientID termID budgetID : String) {f : FleetGrant → Int}
    (hf : ∀ id g, l.grants.get? id = some g → 0 ≤ f g) :
    drawn f (l.termGrants clientID termID) l.links budgetID ≤ drawn f l.grants l.links budgetID := by
  refine total_le_total fun k u hu => ?_
  split
  · cases hg : (l.termGrants clientID termID).get? k.1 with
    | some g => rw [(get?_termGrants.mp hg).1]
    | none =>
      cases hgrant : l.grants.get? k.1 with
      | none => exact le_rfl
      | some g => exact hf _ g hgrant
  · exact le_rfl

def Exclusive (db : Fleet) (clientID termID : String) : Prop :=
  ∀ id g u, db.links.get? (id, termID) = some u → db.grants.get? id = some g → g.clientID = clientID ∧ g.termID = termID

theorem Exclusive.drawn_eq (h : db.Exclusive clientID termID) (f : FleetGrant → Int) :
    drawn f (db.toLedger.termGrants clientID termID) db.links termID = drawn f db.grants db.links termID := by
  refine total_congr fun k u hu => ?_
  by_cases hk : k.2 = termID
  · rw [if_pos hk, if_pos hk]
    cases hgrant : db.grants.get? k.1 with
    | some g =>
      have hlink : db.links.get? (k.1, termID) = some u := by rw [← hk]; exact hu
      rw [get?_termGrants.mpr ⟨hgrant, h k.1 g u hlink hgrant⟩]
    | none =>
      cases hg : (db.toLedger.termGrants clientID termID).get? k.1 with
      | none => rfl
      | some g =>
        rw [(get?_termGrants.mp hg).1] at hgrant
        cases hgrant
  · rw [if_neg hk, if_neg hk]

theorem used_of_updateEach {f : String → FleetBudget → Except FleetError FleetBudget} {ids : List String}
    {budgets' : Table String FleetBudget} (hnd : ids.Nodup) (h : budgets.updateEach .scope f ids = .ok budgets')
    (hf : ∀ id b b', f id b = .ok b' → b'.usedBytes = b.usedBytes) {id : String} {b : FleetBudget}
    (hb : budgets.get? id = some b) : ∃ b', budgets'.get? id = some b' ∧ b'.usedBytes = b.usedBytes := by
  obtain ⟨b', hb', ⟨-, hfb⟩ | ⟨-, rfl⟩⟩ := after_updateEach hnd h hb
  · exact ⟨b', hb', hf id b b' hfb⟩
  · exact ⟨b', hb', rfl⟩

theorem Settled.moveLimits {limits : Table String Int} {ids : List String} (h : db.Settled)
    (hnd : ids.Nodup)
    (hmove : db.budgets.updateEach .scope (fun id b => b.moveLimit ((limits.get? id).getD 0)) ids = .ok budgets) :
    ({ db with budgets := budgets } : Fleet).Settled := by
  have hused : ∀ id b, db.budgets.get? id = some b → ∃ b', budgets.get? id = some b' ∧ b'.usedBytes = b.usedBytes := by
    intro id b hb
    refine used_of_updateEach hnd hmove (fun id b b' hb' => ?_) hb
    simp only [FleetBudget.moveLimit, unit_bind_eq_ok, refuse_eq_ok, pure_eq_ok] at hb'
    obtain ⟨-, rfl⟩ := hb'
    rfl
  refine { h with refers := fun g b u hu => ?_, own := fun id t ht => ?_ }
  · obtain ⟨hgrant, budget, hbudget⟩ := h.refers g b u hu
    obtain ⟨budget', hbudget', -⟩ := hused b budget hbudget
    exact ⟨hgrant, budget', hbudget'⟩
  · obtain ⟨hid, b, hb, hsum⟩ := h.own id t ht
    obtain ⟨b', hb', heq⟩ := hused id b hb
    exact ⟨hid, b', hb', heq.trans hsum⟩

theorem guardManagedReservation_eq_ok {request : ReserveRequest}
    (h : db.guardManagedReservation request placementID now = .ok ()) (hclient : (db.clients.get? request.clientID).isSome) :
    ∃ t, db.terms.get? request.termID = some t ∧ t.clientID = request.clientID ∧ t.budgetID ∈ request.budgetIDs := by
  obtain ⟨client, hclient⟩ := Option.isSome_iff_exists.mp hclient
  simp only [guardManagedReservation, managedAuthority, hclient, bind_eq_ok, found_eq_ok, pure_eq_ok, Option.filter_eq_some_iff,
    decide_eq_true_eq] at h
  obtain ⟨_, ⟨t, ⟨ht, hc⟩, -, -, rfl⟩, h⟩ := h
  simp only [unit_bind_eq_ok, refuse_eq_ok, not_or, not_not] at h
  exact ⟨t, ht, hc, h.1.1⟩

theorem Settled.reserveLedger {request : ReserveRequest}
    (h : db.Settled) (hbytes : 0 ≤ request.bytes) (hguard : db.guardManagedReservation request placementID now = .ok ())
    (hreserve : db.toLedger.reserve request placementID = .ok (g, ledger)) :
    ({ db with toLedger := ledger } : Fleet).Settled := by
  have hr := Ledger.reserves_of_reserve (fun g b u hu => (h.refers g b u hu).1) hreserve
  have hused : ∀ id b, db.budgets.get? id = some b → ∃ b', ledger.budgets.get? id = some b' ∧ b'.usedBytes = b.usedBytes := by
    intro id b hb
    refine used_of_updateEach hr.nodup hr.budgets (fun id b b' hb' => ?_) hb
    rcases Ledger.reserve_budget_eq_ok hb' with ⟨-, rfl⟩ | ⟨-, -, -, rfl⟩
    · rfl
    · rfl
  have hgrants : ∀ id g', ledger.grants.get? id = some g' → id = request.grantID ∧ g' = g ∨
      id ≠ request.grantID ∧ db.grants.get? id = some g' := by
    rw [hr.grants]
    exact fun _ _ => get?_put_eq_some.mp
  refine ⟨fun gid b u hu => ?_, fun id g' hg' => ?_, fun id t ht => ?_, fun id g' hg' hclient => ?_⟩
  · have hgrant : ∀ id g', db.grants.get? id = some g' → ∃ g'', ledger.grants.get? id = some g'' := by
      intro id g' hg'
      rw [hr.grants, get?_put]
      split
      · exact ⟨g, rfl⟩
      · exact ⟨g', hg'⟩
    rcases hr.link gid b u hu with ⟨rfl, hmem⟩ | hlink
    · obtain ⟨-, budget', -, -, hb'⟩ := get?_updateEach_of_mem hr.nodup hr.budgets hmem
      exact ⟨⟨g, by rw [hr.grants]; exact get?_put_self _ _ _⟩, budget', hb'⟩
    · obtain ⟨⟨grant, hg⟩, budget, hb⟩ := h.refers gid b u hlink
      obtain ⟨budget', hb', -⟩ := hused b budget hb
      exact ⟨hgrant gid grant hg, budget', hb'⟩
  · rcases hgrants id g' hg' with ⟨rfl, rfl⟩ | ⟨-, hg⟩
    · rw [hr.consumed, hr.issued]
      cases hold : db.grants.get? request.grantID with
      | none => exact ⟨le_rfl, by simpa using hbytes⟩
      | some old =>
        obtain ⟨hc, hi⟩ := h.counted _ old hold
        exact ⟨hc, by simp only [Option.elim_some]; omega⟩
    · exact h.counted id g' hg
  · obtain ⟨hid, b, hb, hsum⟩ := h.own id t ht
    obtain ⟨b', hb', heq⟩ := hused id b hb
    refine ⟨hid, b', hb', ?_⟩
    rw [heq, hsum, hr.drawn, hr.consumed]
    simp
  · rcases hgrants id g' hg' with ⟨rfl, rfl⟩ | ⟨-, hg⟩
    · rw [hr.owner.1] at hclient
      obtain ⟨t, ht, hc, hmem⟩ := guardManagedReservation_eq_ok hguard hclient
      rw [(h.own _ t ht).1] at hmem
      obtain ⟨u, hu⟩ := hr.linked _ hmem
      rw [hr.owner.1, hr.owner.2]
      exact ⟨t, u, ht, hc, hu⟩
    · obtain ⟨t, u, ht, hc, hlink⟩ := h.linked id g' hg hclient
      exact ⟨t, u, ht, hc, hr.keptLink _ u hlink⟩

theorem Settled.of_operations (h : db.Settled) (operations : Table String FleetOperation) :
    ({ db with operations := operations } : Fleet).Settled := { h with }

theorem Settled.reserve {request : ReserveRequest} {result : String × FleetGrant}
    (h : db.Settled) (hrun : db.reserve digests request placementID now = .ok (result, db')) : db'.Settled := by
  rcases reserve_eq_ok hrun with ⟨-, -, -, rfl⟩ | ⟨ledger, operations, hbytes, hguard, hreserve, -, rfl⟩
  · exact h
  · exact (h.reserveLedger hbytes hguard hreserve).of_operations _

theorem Settled.reserveClientCredit {request : ClientCreditRequest} {ids : CreditIDs}
    {result : String × FleetGrant} (h : db.Settled)
    (hrun : db.reserveClientCredit digests request ids now = .ok (result, db')) : db'.Settled := by
  rcases reserveClientCredit_eq_ok hrun with
    ⟨-, rfl⟩ | ⟨-, _, term, budgets, _, _, db'', _, _, -, hnd, hmove, rfl, -, hreserve, rfl⟩
  · exact h
  · have hmoved := h.moveLimits (List.nodup_cons.mp hnd).2 hmove
    have hreserved : db''.Settled := by
      refine Settled.reserve ?_ hreserve
      exact { hmoved with }
    exact { hreserved with }

theorem Settled.charge {c : UsageCheckpoint} {delta : Int} (h : db.Settled)
    (hc : Ledger.Charges c db.toLedger g delta ledger) : ({ db with toLedger := ledger } : Fleet).Settled := by
  have hnd := db.links.nodup_seconds c.grantID
  have hnonneg := hc.delta_nonneg
  have hgrant : ∀ id g', ledger.grants.get? id = some g' → id = c.grantID ∧ g' = { g with consumedBytes := g.consumedBytes + delta } ∨
      id ≠ c.grantID ∧ db.grants.get? id = some g' := by
    rw [hc.grants]
    exact fun _ _ => get?_put_eq_some.mp
  refine ⟨fun gid b u hu => ?_, fun id g' hg' => ?_, fun id t ht => ?_, fun id g' hg' hclient => ?_⟩
  · rw [hc.links] at hu
    obtain ⟨⟨grant, hg⟩, budget, hb⟩ := h.refers gid b u hu
    obtain ⟨budget', hb', -⟩ := after_updateEach hnd hc.budgets hb
    refine ⟨?_, budget', hb'⟩
    rw [hc.grants, get?_put]
    split
    · exact ⟨_, rfl⟩
    · exact ⟨grant, hg⟩
  · rcases hgrant id g' hg' with ⟨rfl, rfl⟩ | ⟨-, hg⟩
    · obtain ⟨hconsumed, hissued⟩ := h.counted _ g hc.grant
      exact ⟨by show 0 ≤ g.consumedBytes + delta; omega, hissued⟩
    · exact h.counted id g' hg
  · obtain ⟨hid, b, hb, hsum⟩ := h.own id t ht
    have hdrawn : drawn FleetGrant.consumedBytes ledger.grants ledger.links id =
        drawn FleetGrant.consumedBytes db.grants db.links id + (db.links.get? (c.grantID, id)).elim 0 fun _ => delta := by
      rw [hc.grants, hc.links, Ledger.drawn_put, hc.grant]
      simp
    obtain ⟨b', hb', ⟨hmem, hf⟩ | ⟨hmem, rfl⟩⟩ := after_updateEach hnd hc.budgets hb
    · obtain ⟨-, -, rfl, -⟩ := Ledger.charge_budget_eq_ok hf
      obtain ⟨u, hu⟩ := mem_seconds.mp hmem
      refine ⟨hid, _, hb', ?_⟩
      rw [hdrawn, hu, Option.elim_some]
      show b.usedBytes + delta = _
      omega
    · have hnone : db.links.get? (c.grantID, id) = none := by
        by_contra hne
        exact hmem (mem_seconds.mpr (Option.ne_none_iff_exists'.mp hne))
      refine ⟨hid, _, hb', ?_⟩
      rw [hdrawn, hnone, Option.elim_none, add_zero]
      exact hsum
  · have hold : ∃ g₀, db.grants.get? id = some g₀ ∧ g'.clientID = g₀.clientID ∧ g'.termID = g₀.termID := by
      rcases hgrant id g' hg' with ⟨rfl, rfl⟩ | ⟨-, hg⟩
      · exact ⟨g, hc.grant, rfl, rfl⟩
      · exact ⟨g', hg, rfl, rfl⟩
    obtain ⟨g₀, hg₀, hclient₀, hterm₀⟩ := hold
    rw [hclient₀] at hclient
    rw [hclient₀, hterm₀, hc.links]
    exact h.linked id g₀ hg₀ hclient

theorem Settled.chargeAll {cs : List UsageCheckpoint} {deltas deltas' : TermDeltas} (h : db.Settled)
    (hrun : Ledger.chargeAll cs db.toLedger deltas = .ok (ledger, deltas')) : ({ db with toLedger := ledger } : Fleet).Settled := by
  induction cs generalizing db deltas with
  | nil =>
    cases hrun
    exact h
  | cons c cs ih =>
    simp only [Ledger.chargeAll, bind_eq_ok] at hrun
    obtain ⟨⟨mid, d⟩, hc, hrun⟩ := hrun
    obtain ⟨g, delta, hcharge, -⟩ := Ledger.charges_of_charge hc
    have hmid : ({ db with toLedger := mid } : Fleet).Settled := h.charge hcharge
    have hrest := ih hmid hrun
    exact hrest

theorem Settled.ingest {peer : Peer} {p : Principal} {b : UsageBatch} {receipt : UsageReceipt} (h : db.Settled)
    (hrun : db.ingest digests peer p b now = .ok (receipt, db')) : db'.Settled := by
  rcases (ingest_eq_ok hrun).2.2 with ⟨-, -, rfl⟩ | ⟨-, -, -, ledger, deltas, _, _, _, hcharge, -, rfl⟩
  · exact { h with }
  · have hcharged := h.chargeAll hcharge
    exact { hcharged with }

theorem Settled.opens {spec : TermSpec} (h : db.Settled) (hopens : db.Opens clientID termID spec db') :
    db'.Settled := by
  obtain ⟨⟨hfree, hbudget⟩, hopening, -, -, hledger, hterms, hclients, -, -, -⟩ := hopens
  have hgrants : db'.grants = db.grants := by rw [hledger]
  have hlinks : db'.links = db.links := by rw [hledger]
  have hbudgets : db'.budgets = db.budgets.put termID ⟨spec.quotaBytes, spec.unlimited, spec.openingUsedBytes, 0⟩ := by
    rw [hledger]
  have hterm : ∀ id t', db'.terms.get? id = some t' → id ≠ termID → ∃ t, db.terms.get? id = some t ∧ t.scope = t'.scope := by
    intro id t' ht' hne
    have hid := hterms id
    rw [ht', if_neg hne, Option.map_some] at hid
    exact Option.map_eq_some_iff.mp hid.symm
  refine ⟨fun g b u hu => ?_, by rw [hgrants]; exact h.counted, fun id t' ht' => ?_, fun id g hg hclient => ?_⟩
  · rw [hlinks] at hu
    obtain ⟨hgrant, budget, hb⟩ := h.refers g b u hu
    rw [hgrants, hbudgets, get?_put]
    split
    · exact ⟨hgrant, _, rfl⟩
    · exact ⟨hgrant, budget, hb⟩
  · rw [hgrants, hlinks, hbudgets]
    by_cases hid : id = termID
    · subst hid
      have hscope := hterms id
      rw [ht', if_pos rfl, Option.map_some, Option.some.injEq] at hscope
      simp only [FleetTerm.scope, Prod.mk.injEq] at hscope
      obtain ⟨-, hown, hup, hdown⟩ := hscope
      have hdrawn : drawn FleetGrant.consumedBytes db.grants db.links id = 0 := total_eq_zero fun k u hk => by
        by_cases hkid : k.2 = id
        · obtain ⟨-, budget, hb⟩ := h.refers k.1 k.2 u hk
          rw [hkid, hbudget] at hb
          cases hb
        · simp [hkid]
      refine ⟨hown, _, get?_put_self _ _ _, ?_⟩
      rw [hdrawn, hup, hdown, add_zero]
      exact hopening.symm
    · obtain ⟨t, ht, hscope⟩ := hterm id t' ht' hid
      simp only [FleetTerm.scope, Prod.mk.injEq] at hscope
      obtain ⟨-, hown, hup, hdown⟩ := hscope
      rw [get?_put_of_ne hid, ← hown, ← hup, ← hdown]
      exact h.own id t ht
  · rw [hgrants] at hg
    rw [hclients] at hclient
    obtain ⟨t, u, ht, hc, hlink⟩ := h.linked id g hg hclient
    have hne : g.termID ≠ termID := by
      rintro he
      rw [he, hfree] at ht
      cases ht
    have hid := hterms g.termID
    rw [if_neg hne, ht, Option.map_some] at hid
    obtain ⟨t', ht', hscope⟩ := Option.map_eq_some_iff.mp hid
    simp only [FleetTerm.scope, Prod.mk.injEq] at hscope
    exact ⟨t', u, ht', hscope.1.trans hc, by rw [hlinks]; exact hlink⟩

theorem Settled.transition (h : db.Settled)
    (hrun : db.transition digests request termID now = .ok (result, db')) : db'.Settled := by
  rcases transition_eq_ok hrun with ⟨-, -, -, -, -, -, rfl⟩ | hran
  · exact h
  · exact h.opens hran.effect

end Fleet

namespace Sample

def other : String := "44444444-4444-4444-4444-444444444444"

def term : String := "55555555-5555-5555-5555-555555555555"

def placement : String := "66666666-6666-6666-6666-666666666666"

def placed : Fleet where
  fence := some ⟨false⟩
  nodes := (∅ : Table String FleetNode).put node { installationID := node, enabled := true }
  nodeJournals := (∅ : Table String FleetNodeJournal).put node ⟨node, some node, false⟩
  runtimeJournals := (∅ : Table (String × String) FleetRuntimeJournal).put (node, "edge")
    { installationID := node, coreID := "edge", stateJournalID := node, creditJournalID := node }
  clients := ((∅ : Table String FleetClient).put client ⟨some 1, 1, 1, none, none, true⟩).put other ⟨some 2, 1, 1, none, none, true⟩
  placements := ((∅ : Table String FleetPlacement).put placement
    ⟨client, node, node, "edge", "edge", 1, true, 1, List.replicate 32 0, List.replicate 32 0, none, none⟩).put other
    ⟨other, node, node, "edge", "edge", 1, true, 1, List.replicate 32 0, List.replicate 32 0, none, none⟩
  placementInbounds := ((∅ : Table (String × String) (Option Int)).put (placement, "") (some 1)).put (other, "") (some 1)

def credit (operationID placementID termID : String) (parents : List String) (bytes ceiling : Int) : ClientCreditRequest :=
  ⟨operationID, placementID, 1, 2, 1, termID, List.replicate 32 0, parents,
    parents.foldl (fun limits id => limits.put id 100) ∅, bytes, ceiling, true⟩

theorem unissued_placed : placed.Unissued := ⟨fun _ => rfl, fun _ => rfl, fun _ => rfl⟩

end Sample

end Pui
