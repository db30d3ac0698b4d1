import Pui.AuthorityReport

/-!
# The report protocol

One runtime of a node, the control plane, and a network that may lose, duplicate, delay and reorder reports and
receipts.
-/

namespace Pui

open Guard Table Latest List

theorem AuthorityReport.withAgent_sequence (r : AuthorityReport) (journalID : String) :
    (r.withAgent journalID).sequence = r.sequence := rfl

variable {out : Option AuthorityReport} {captured : List AuthorityReport}

namespace AuthorityStore

variable {size : AuthorityReport → Nat} {s s' : AuthorityStore}

theorem decodeAuthority_eq_ok {pending : Option AuthorityReport} (h : decodeAuthority size pending = .ok out) :
    out = pending := by
  unfold decodeAuthority at h
  cases pending with
  | none =>
    cases h
    rfl
  | some r =>
    simp only [bind_eq_ok, pure_eq_ok] at h
    obtain ⟨-, -, rfl⟩ := h
    rfl

theorem capture_eq_ok {journal : RuntimeJournalIdentity} {page : Page} {ready : Bool} {now : Int} (h : s.capture size journal page ready now = .ok (out, s')) :
    (∃ r, s.pending = some r ∧ s' = s) ∨ s.pending = none ∧ (s' = { s with cursor := page.next } ∨
      ∃ r, r.sequence = s.sequence + 1 ∧ r.nodeID = s.nodeID ∧ r.runtimeID = journal.runtimeID ∧
        (r.grants.map GrantAuthority.grantID).Nodup ∧
        s' = { s with cursor := page.next, sequence := s.sequence + 1, pending := some r }) := by
  simp only [capture, bind_eq_ok] at h
  obtain ⟨-, -, -, -, pending, hpending, h⟩ := h
  rw [decodeAuthority_eq_ok hpending] at h
  cases hp : s.pending with
  | some r =>
    rw [hp] at h
    cases h
    exact .inl ⟨r, rfl, rfl⟩
  | none =>
    rw [hp] at h
    refine .inr ⟨rfl, ?_⟩
    simp only at h
    split at h
    · cases h
      exact .inl rfl
    · simp only [bind_eq_ok, pure_eq_ok, Prod.mk.injEq] at h
      obtain ⟨-, -, _, hvalid, -, -, -, rfl⟩ := h
      simp only [AuthorityReport.validate, unit_bind_eq_ok, refuse_eq_ok, not_or, not_not] at hvalid
      exact .inr ⟨_, rfl, rfl, rfl, hvalid.2.2, rfl⟩

theorem acknowledge_eq_ok {receipt : AuthorityReceipt} (h : s.acknowledge size receipt = .ok s') :
    receipt.sequence ≤ s.acked ∧ s' = s ∨ s.acked < receipt.sequence ∧ ∃ r, s.pending = some r ∧
      r.sequence = receipt.sequence ∧ s' = { s with
        seen := r.grants.foldl (fun seen g => seen.put g.grantID g) s.seen
        acked := receipt.sequence, reportedAt := r.observedUnixMilli, ready := r.runtimeReady, pending := none } := by
  simp only [acknowledge, bind_eq_ok] at h
  obtain ⟨-, -, -, -, h⟩ := h
  split at h
  · next hle =>
    cases h
    exact .inl ⟨hle, rfl⟩
  · next hgt =>
    simp only [bind_eq_ok, found_eq_ok, refuse_eq_ok, pure_eq_ok, not_or, not_not] at h
    obtain ⟨_, hpending, r, rfl, -, ⟨hseq, -, -⟩, rfl⟩ := h
    exact .inr ⟨not_le.mp hgt, r, (decodeAuthority_eq_ok hpending).symm, hseq, rfl⟩

end AuthorityStore

namespace ReportMaster

variable {m m' : ReportMaster} {hash : AuthorityReport → Digest} {size : AuthorityReport → Nat} {peer : Peer} {p : Principal}
  {r : AuthorityReport} {now : Int}

theorem ingestBound_cases {journal : FleetRuntimeJournal} {out : Ingested}
    (h : m.ingestBound hash p r journal now = .ok out) :
    (out = .stored m ∧ (r.sequence : Int) = (m.last p.nodeID r.runtimeID).sequence ∧
      (m.last p.nodeID r.runtimeID).digest = hash r) ∨
    (∃ rate, out = .witness rate ∧ (r.sequence : Int) ≠ (m.last p.nodeID r.runtimeID).sequence) ∨
    (out = .stored (m.store hash p r journal now) ∧ (r.sequence : Int) = (m.last p.nodeID r.runtimeID).sequence + 1) := by
  unfold ingestBound at h
  split at h
  · next hseq =>
    simp only [bind_eq_ok, refuse_eq_ok, pure_eq_ok, not_not] at h
    obtain ⟨-, hdigest, rfl⟩ := h
    exact .inl ⟨rfl, hseq, hdigest⟩
  · next hne =>
    simp only [bind_eq_ok] at h
    obtain ⟨node, -, -, -, checked, -, h⟩ := h
    split at h
    · cases h
      exact .inr (.inl ⟨_, rfl, hne⟩)
    · simp only [bind_eq_ok, refuse_eq_ok, pure_eq_ok, not_not] at h
      obtain ⟨-, hseq, rfl⟩ := h
      exact .inr (.inr ⟨rfl, hseq⟩)

theorem ingestTx_cases {out : Ingested} (h : m.ingestTx hash peer p r now = .ok out) :
    (∃ fleet, out = .held { m with fleet := fleet }) ∨ ∃ journal, m.ingestBound hash p r journal now = .ok out := by
  simp only [ingestTx, bind_eq_ok] at h
  obtain ⟨-, -, -, -, h⟩ := h
  split at h
  · cases h
    exact .inl ⟨_, rfl⟩
  · cases h
  · simp only [bind_eq_ok] at h
    obtain ⟨journal, -, h⟩ := h
    split at h
    · cases h
      exact .inl ⟨_, rfl⟩
    · exact .inr ⟨journal, h⟩

theorem holdAuthorityRollback_cases (m : ReportMaster) (peer : Peer) (p : Principal) (r : AuthorityReport) (rate : Bool) :
    ∃ fleet, (m.holdAuthorityRollback peer p r rate).2 = { m with fleet := fleet } := by
  unfold holdAuthorityRollback
  cases h : m.rollbackTx peer p r rate with
  | error e => exact ⟨m.fleet, rfl⟩
  | ok out =>
    simp only [rollbackTx, bind_eq_ok] at h
    obtain ⟨-, -, -, -, -, -, -, -, journal, -, -, -, node, -, -, -, checked, -, h⟩ := h
    split at h
    · cases h
      exact ⟨_, rfl⟩
    · cases h
      exact ⟨m.fleet, rfl⟩

theorem raises_rateAhead {P : FleetError → Prop} (hscope : P .scope) (db : Fleet) (runtimeID : String) (grant : FleetGrant)
    (o : GrantAuthority) : Raises P (db.rateAhead p runtimeID grant o) := by
  unfold Fleet.rateAhead
  split
  · exact raises_ok _
  · exact (raises_found hscope).bind fun _ _ => (raises_refuse fun _ => hscope).bind fun _ _ => raises_pure _

/-- A sequence error is about a number that is neither the last one nor the next, and a conflict about another text. -/
def Disputes (m : ReportMaster) (hash : AuthorityReport → Digest) (nodeID : String) (r : AuthorityReport) (e : FleetError) : Prop :=
  (e = .sequence → (r.sequence : Int) ≠ (m.last nodeID r.runtimeID).sequence ∧
    (r.sequence : Int) ≠ (m.last nodeID r.runtimeID).sequence + 1) ∧
  (e = .conflict → (r.sequence : Int) = (m.last nodeID r.runtimeID).sequence → (m.last nodeID r.runtimeID).digest ≠ hash r)

theorem raises_ingestTx (m : ReportMaster) (hash : AuthorityReport → Digest) (peer : Peer) (p : Principal)
    (r : AuthorityReport) (now : Int) : Raises (m.Disputes hash p.nodeID r) (m.ingestTx hash peer p r now) := by
  unfold Disputes
  refine Raises.bind ((raises_found (by simp)).bind fun _ _ => raises_refuse (by simp)) fun _ _ =>
    (raises_lockAuthenticatedNode (by simp) (by simp) (by simp) _ _ _).bind fun _ _ => ?_
  have hjournal : Raises (fun e => e ≠ FleetError.sequence ∧ e ≠ FleetError.conflict)
      (m.fleet.requireNodeJournal p.nodeID p.installationID r.agentStateJournalID) :=
    (raises_found (by simp)).bind fun _ _ => (raises_refuse (by simp)).bind fun _ _ => raises_refuse (by simp)
  split
  · exact raises_pure _
  · next e _ he =>
    obtain ⟨hseq, hconflict⟩ := hjournal e he
    exact raises_error ⟨fun h => absurd h hseq, fun h => absurd h hconflict⟩
  · refine (raises_found (by simp)).bind fun journal _ => ?_
    split
    · exact raises_pure _
    · unfold ingestBound
      split
      · exact (raises_refuse fun hne => ⟨by simp, fun _ _ => hne⟩).bind fun _ _ => raises_pure _
      · next hne =>
        refine (raises_found (by simp)).bind fun _ _ => (raises_refuse (by simp)).bind fun _ _ =>
          (raises_mapM (fun o => ?_) _).bind fun _ _ => ?_
        · exact (raises_found (by simp)).bind fun _ _ => (raises_refuse (by simp)).bind fun _ _ =>
            (raises_rateAhead (by simp) _ _ _ _).bind fun _ _ =>
            (raises_refuse fun _ => ⟨by simp, fun _ heq => absurd heq hne⟩).bind fun _ _ =>
            (raises_refuse (by simp)).bind fun _ _ => raises_pure _
        · split
          · exact raises_pure _
          · exact (raises_refuse fun hseq => ⟨fun _ => ⟨hne, hseq⟩, by simp⟩).bind fun _ _ => raises_pure _

theorem holdAuthorityRollback_ne_sequence (m : ReportMaster) (peer : Peer) (p : Principal) (r : AuthorityReport) (rate : Bool) :
    (m.holdAuthorityRollback peer p r rate).1 ≠ .sequence := by
  have hraises : Raises (fun e => e ≠ FleetError.sequence) (m.rollbackTx peer p r rate) := by
    refine (raises_refuse (by simp)).bind fun _ _ =>
      Raises.bind ((raises_found (by simp)).bind fun _ _ => raises_refuse (by simp)) fun _ _ =>
      (raises_lockAuthenticatedNode (by simp) (by simp) (by simp) _ _ _).bind fun _ _ => Raises.bind
      ((raises_found (by simp)).bind fun _ _ => (raises_refuse (by simp)).bind fun _ _ => raises_refuse (by simp)) fun _ _ =>
      (raises_found (by simp)).bind fun _ _ => (raises_refuse (by simp)).bind fun _ _ => (raises_found (by simp)).bind fun _ _ =>
      (raises_refuse (by simp)).bind fun _ _ => (raises_mapM (fun o => ?_) _).bind fun _ _ => ?_
    · exact (raises_found (by simp)).bind fun _ _ => (raises_refuse (by simp)).bind fun _ _ =>
        (raises_rateAhead (by simp) _ _ _ _).bind fun _ _ => (raises_refuse (by simp)).bind fun _ _ =>
        (raises_refuse (by simp)).bind fun _ _ => raises_pure _
    · split
      · exact raises_pure _
      · exact raises_pure _
  unfold holdAuthorityRollback
  cases h : m.rollbackTx peer p r rate with
  | error e => exact hraises e h
  | ok out =>
    obtain ⟨closed, m'⟩ := out
    cases closed <;> simp

/-- A report is refused, which changes the fleet at most, or was accepted before, or is stored. -/
theorem ingestAuthority_cases (m : ReportMaster) (hash : AuthorityReport → Digest) (size : AuthorityReport → Nat) (peer : Peer)
    (p : Principal) (r : AuthorityReport) (now : Int) :
    (∃ e fleet, m.ingestAuthority hash size peer p r now = (.error e, { m with fleet := fleet }) ∧ m.Disputes hash r.nodeID r e) ∨
    p.nodeID = r.nodeID ∧
      ((m.ingestAuthority hash size peer p r now = (.ok r.receipt, m) ∧
        (r.sequence : Int) = (m.last p.nodeID r.runtimeID).sequence) ∨
      ∃ journal, m.ingestAuthority hash size peer p r now = (.ok r.receipt, m.store hash p r journal now) ∧
        (r.sequence : Int) = (m.last p.nodeID r.runtimeID).sequence + 1) := by
  unfold ingestAuthority
  split
  · exact .inl ⟨_, m.fleet, rfl, by simp [Disputes]⟩
  · split
    · exact .inl ⟨_, m.fleet, rfl, by simp [Disputes]⟩
    · next hscope =>
      have hnode : p.nodeID = r.nodeID := by
        simp only [Principal.require, Bool.not_eq_true', Bool.not_eq_false, Bool.and_eq_true, decide_eq_true_eq] at hscope
        exact hscope.1
      split
      · exact .inl ⟨_, m.fleet, rfl, by simp [Disputes]⟩
      · cases htx : m.ingestTx hash peer p r now with
        | error e => exact .inl ⟨e, m.fleet, rfl, hnode ▸ raises_ingestTx m hash peer p r now e htx⟩
        | ok out =>
          rcases ingestTx_cases htx with ⟨fleet, rfl⟩ | ⟨journal, hbound⟩
          · exact .inl ⟨_, fleet, rfl, by simp [Disputes]⟩
          · rcases ingestBound_cases hbound with ⟨rfl, hseq, -⟩ | ⟨rate, rfl, hne⟩ | ⟨rfl, hseq⟩
            · exact .inr ⟨hnode, .inl ⟨rfl, hseq⟩⟩
            · -- a report with the number of the last one is never checked for being ahead
              obtain ⟨fleet, hfleet⟩ := holdAuthorityRollback_cases m peer p r rate
              exact .inl ⟨_, fleet, by rw [← hfleet],
                fun he => absurd he (holdAuthorityRollback_ne_sequence m peer p r rate), fun _ heq => absurd (hnode ▸ heq) hne⟩
            · exact .inr ⟨hnode, .inr ⟨journal, rfl, hseq⟩⟩

theorem last_store (m : ReportMaster) (hash : AuthorityReport → Digest) (p : Principal) (r : AuthorityReport)
    (journal : FleetRuntimeJournal) (now : Int) :
    (m.store hash p r journal now).last p.nodeID r.runtimeID = ⟨r.sequence, hash r, r.observedUnixMilli⟩ := by
  rw [last, store, get?_put_self, Option.getD_some]

end ReportMaster

structure FleetGrantAuthority.Shows (w : FleetGrantAuthority) (o : GrantAuthority) : Prop where
  policyRevision : w.policyRevision = o.policyRevision
  authorityRevision : w.authorityRevision = o.authorityRevision
  creditCeiling : w.creditCeiling = o.creditCeiling
  quotaUnlimited : w.quotaUnlimited = o.quotaUnlimited
  reservedHighWater : w.reservedHighWater = o.reservedHighWater
  burnedHighWater : w.burnedHighWater = o.burnedHighWater
  admissionHighWater : o.admissionKnown → w.admissionHighWater = o.admissionHighWater
  admissionKnown : w.admissionKnown = o.admissionKnown
  spendableBytes : w.spendableBytes = o.spendableBytes
  spendableKnown : w.spendableKnown = o.spendableKnown
  authorizationActive : w.authorizationActive = o.authorizationActive

theorem GrantAuthority.shows_stored (o : GrantAuthority) (old : FleetGrantAuthority) (nodeID runtimeID : String)
    (sequence : Nat) (now : Int) : (o.stored old nodeID runtimeID sequence now).Shows o :=
  ⟨rfl, rfl, rfl, rfl, rfl, rfl, fun h => if_pos h, rfl, rfl, rfl, rfl⟩

structure ReportLink where
  hash : AuthorityReport → Digest
  size : AuthorityReport → Nat
  journal : RuntimeJournalIdentity
  agent : String

/-- The runtime, the control plane, and what was ever put on the network. -/
structure ReportSystem where
  node : AuthorityStore
  master : ReportMaster
  reports : List AuthorityReport := []
  receipts : List AuthorityReceipt := []
  captured : List AuthorityReport := []
  accepted : List Nat := []

namespace ReportSystem

inductive Action where
  /-- The runtime is asked for its report. -/
  | capture (page : Page) (ready : Bool) (now : Int)
  /-- The agent forwards the report that waits for its receipt. -/
  | send
  /-- A report from the network reaches the control plane, over any connection. -/
  | deliver (i : Nat) (peer : Peer) (p : Principal) (now : Int)
  /-- A receipt from the network reaches the runtime. -/
  | acknowledge (i : Nat)
  /-- The control plane runs another transaction, which may be a report of another runtime. -/
  | control (master : ReportMaster)
  /-- The node crashes and starts again. -/
  | crash

variable (L : ReportLink)

def last (s : ReportSystem) : ReportCursor := s.master.last s.node.nodeID L.journal.runtimeID

/-- Other transactions leave alone what the reports of this runtime wrote. -/
def Spares (s : ReportSystem) (master : ReportMaster) : Prop :=
  master.last s.node.nodeID L.journal.runtimeID = s.last L ∧
    ∀ r ∈ s.captured, ∀ g ∈ r.grants, master.observed.get? g.grantID = s.master.observed.get? g.grantID

instance (s : ReportSystem) (master : ReportMaster) : Decidable (s.Spares L master) := by
  unfold Spares
  infer_instance

def step (s : ReportSystem) : Action → ReportSystem
  | .capture page ready now =>
    match s.node.capture L.size L.journal page ready now with
    | .error _ => s
    | .ok (_, node) =>
      let new := if node.sequence = s.node.sequence then [] else node.pending.toList
      { s with node := node, captured := s.captured ++ new }
  | .send =>
    match s.node.pending with
    | none => s
    | some r => { s with reports := s.reports ++ [r.withAgent L.agent] }
  | .deliver i peer p now =>
    match s.reports[i]? with
    | none => s
    | some r =>
      match s.master.ingestAuthority L.hash L.size peer p r now with
      | (.error _, master) => { s with master := master }
      | (.ok receipt, master) =>
        let new := if master.last s.node.nodeID L.journal.runtimeID = s.last L then [] else [r.sequence]
        { s with master := master, receipts := s.receipts ++ [receipt], accepted := s.accepted ++ new }
  | .acknowledge i =>
    match s.receipts[i]? with
    | none => s
    | some receipt =>
      match s.node.acknowledge L.size receipt with
      | .error _ => s
      | .ok node => { s with node := node }
  | .control master => if s.Spares L master then { s with master := master } else s
  | .crash => s

def start (nodeID installationID journalID : String) (runtimeJournals : Table String String) (fleet : Fleet) : ReportSystem where
  node := { nodeID := nodeID, installationID := installationID, journalID := journalID, runtimeJournals := runtimeJournals }
  master := ⟨fleet, ∅, ∅⟩

def readings (captured : List AuthorityReport) : Nat → String → Option GrantAuthority
  | 0, _ => none
  | n + 1, id => captured[n]?.bind fun r => r.entry id

structure Agrees (s : ReportSystem) (k : Nat) : Prop where
  numbered : ∀ i r, s.captured[i]? = some r → r.sequence = i + 1
  captured : ∀ r ∈ s.captured, r.nodeID = s.node.nodeID ∧ r.runtimeID = L.journal.runtimeID ∧
    (r.grants.map GrantAuthority.grantID).Nodup
  length : s.captured.length = s.node.sequence
  pending : s.node.pending = s.captured[s.node.acked]?
  next : s.node.sequence ≤ s.node.acked + 1
  acked : s.node.acked ≤ k
  upto : k ≤ s.node.sequence
  sent : ∀ r ∈ s.reports, ∃ c ∈ s.captured, r = c.withAgent L.agent
  last : (s.last L).sequence = k
  digest : ∀ c ∈ s.captured, c.sequence = k → (s.last L).digest = L.hash (c.withAgent L.agent)
  receipts : ∀ a ∈ s.receipts, a.sequence ≤ k
  accepted : s.accepted = List.range' 1 k
  seen : ∀ id, s.node.seen.get? id = latest (readings s.captured) id s.node.acked
  observed : ∀ id o, latest (readings s.captured) id k = some o →
    ∃ w, s.master.observed.get? id = some w ∧ w.Shows o

variable {L} {s : ReportSystem} {k : Nat}

theorem agrees_start (nodeID installationID journalID : String) (runtimeJournals : Table String String) (fleet : Fleet) :
    Agrees L (start nodeID installationID journalID runtimeJournals fleet) 0 where
  numbered := by simp [start]
  captured := by simp [start]
  length := rfl
  pending := rfl
  next := Nat.zero_le _
  acked := le_rfl
  upto := le_rfl
  sent := by simp [start]
  last := rfl
  digest := by simp [start]
  receipts := by simp [start]
  accepted := rfl
  seen _ := rfl
  observed id o h := nomatch h

theorem latest_append {n : Nat} (hn : n ≤ captured.length) (new : List AuthorityReport)
    (id : String) : latest (readings (captured ++ new)) id n = latest (readings captured) id n := by
  refine latest_congr fun t ht => ?_
  cases t with
  | zero => rfl
  | succ t => rw [readings, readings, List.getElem?_append_left (by omega)]

theorem Agrees.capture (h : Agrees L s k) {page : Page} {ready : Bool} {now : Int} :
    Agrees L (s.step L (.capture page ready now)) k := by
  simp only [step]
  split
  · exact h
  · next node hcapture =>
    rcases AuthorityStore.capture_eq_ok hcapture with ⟨r, -, rfl⟩ | ⟨hnone, rfl | ⟨r, hseq, hnode, hruntime, hnodup, rfl⟩⟩
    · rw [if_pos rfl, append_nil]
      exact h
    · rw [if_pos rfl, append_nil]
      exact { h with }
    · -- nothing waits, so every captured report is acknowledged
      have hacked : s.captured.length ≤ s.node.acked := by
        have := h.pending
        rw [hnone] at this
        exact List.getElem?_eq_none_iff.mp this.symm
      have hlen := h.length
      have hle := h.acked
      have hk := h.upto
      rw [if_neg (Nat.succ_ne_self _)]
      exact {
        h with
        numbered := by
          intro i r' hi
          rcases Nat.lt_or_ge i s.captured.length with hlt | hge
          · rw [List.getElem?_append_left hlt] at hi
            exact h.numbered i r' hi
          · rw [List.getElem?_append_right hge, Option.toList_some] at hi
            have hi0 : i - s.captured.length = 0 := by
              have := (List.getElem?_eq_some_iff.mp hi).1
              simpa using this
            rw [hi0] at hi
            cases hi
            omega
        captured := by
          intro r' hr'
          rcases mem_append.mp hr' with hr' | hr'
          · exact h.captured r' hr'
          · rw [Option.toList_some, mem_singleton] at hr'
            subst hr'
            exact ⟨hnode, hruntime, hnodup⟩
        length := by
          rw [length_append, hlen]
          rfl
        pending := by
          show some r = (s.captured ++ [r])[s.node.acked]?
          rw [show s.node.acked = s.captured.length by omega, List.getElem?_concat_length]
        next := by
          show s.node.sequence + 1 ≤ s.node.acked + 1
          omega
        upto := by
          show k ≤ s.node.sequence + 1
          omega
        sent := fun r' hr' => by
          obtain ⟨c, hc, heq⟩ := h.sent r' hr'
          exact ⟨c, mem_append_left _ hc, heq⟩
        digest := by
          intro c hc hck
          rcases mem_append.mp hc with hc | hc
          · exact h.digest c hc hck
          · rw [Option.toList_some, mem_singleton] at hc
            subst hc
            omega
        seen := fun id => (h.seen id).trans (latest_append (by omega) _ id).symm
        observed := fun id o ho => by
          rw [latest_append (by omega)] at ho
          exact h.observed id o ho }

theorem Agrees.send (h : Agrees L s k) : Agrees L (s.step L .send) k := by
  simp only [step]
  split
  · exact h
  · next r hr =>
    rw [h.pending] at hr
    exact { h with
      sent := fun r' hr' => by
        rcases mem_append.mp hr' with hr' | hr'
        · exact h.sent r' hr'
        · rw [mem_singleton] at hr'
          exact ⟨r, mem_of_getElem? hr, hr'⟩ }

theorem Agrees.store (h : Agrees L s k) {c : AuthorityReport} (hc : c ∈ s.captured) (hseq : c.sequence = k + 1) {p : Principal}
    (hp : p.nodeID = c.nodeID) (journal : FleetRuntimeJournal) (now : Int) :
    Agrees L { s with
      master := s.master.store L.hash p (c.withAgent L.agent) journal now
      receipts := s.receipts ++ [(c.withAgent L.agent).receipt]
      accepted := s.accepted ++ [c.sequence] } (k + 1) := by
  obtain ⟨hnode, hruntime, hnodup⟩ := h.captured c hc
  have hlast : (s.master.store L.hash p (c.withAgent L.agent) journal now).last s.node.nodeID L.journal.runtimeID =
      ⟨c.sequence, L.hash (c.withAgent L.agent), c.observedUnixMilli⟩ := by
    rw [← hnode, ← hruntime, ← hp]
    exact ReportMaster.last_store _ _ _ _ _ _
  obtain ⟨i, hi⟩ := mem_iff_getElem?.mp hc
  have hik : i = k := by
    have := h.numbered i c hi
    omega
  subst hik
  have hlt : i < s.captured.length := (List.getElem?_eq_some_iff.mp hi).1
  have hlen := h.length
  exact {
    h with
    acked := Nat.le_succ_of_le h.acked
    upto := by
      show i + 1 ≤ s.node.sequence
      omega
    last := by
      rw [ReportSystem.last, hlast, hseq]
    digest := by
      intro c' hc' hk
      obtain ⟨j, hj⟩ := mem_iff_getElem?.mp hc'
      have hji : j = i := by
        have := h.numbered j c' hj
        omega
      rw [hji, hi] at hj
      cases hj
      rw [ReportSystem.last, hlast]
    receipts := by
      intro a ha
      rcases mem_append.mp ha with ha | ha
      · exact Nat.le_succ_of_le (h.receipts a ha)
      · rw [mem_singleton.mp ha]
        exact hseq.le
    accepted := by
      rw [range'_concat, ← h.accepted, hseq]
      simp [Nat.add_comm]
    observed := by
      intro id o ho
      rw [latest, readings, hi, Option.bind_some] at ho
      have hget := get?_foldl_put_of_nodup (fun g : GrantAuthority => g.grantID)
        (fun g => g.stored (s.master.previous g.grantID) p.nodeID c.runtimeID c.sequence now) hnodup s.master.observed id
      cases hentry : c.entry id with
      | some g =>
        rw [show c.grants.find? (fun g => g.grantID = id) = some g from hentry] at hget
        rw [hentry, Option.some_or] at ho
        cases ho
        exact ⟨_, hget, o.shows_stored _ _ _ _ _⟩
      | none =>
        rw [show c.grants.find? (fun g => g.grantID = id) = none from hentry] at hget
        rw [hentry, Option.none_or] at ho
        obtain ⟨w, hw, hshows⟩ := h.observed id o ho
        exact ⟨w, hget.trans hw, hshows⟩ }

theorem Agrees.deliver (h : Agrees L s k) {i : Nat} {peer : Peer} {p : Principal} {now : Int} :
    ∃ k', Agrees L (s.step L (.deliver i peer p now)) k' := by
  simp only [step]
  split
  · exact ⟨k, h⟩
  · next r hr =>
    obtain ⟨c, hc, rfl⟩ := h.sent r (mem_of_getElem? hr)
    obtain ⟨hnode, hruntime, -⟩ := h.captured c hc
    have hlast : s.master.last (c.withAgent L.agent).nodeID (c.withAgent L.agent).runtimeID = s.last L := by
      rw [ReportSystem.last, ← hnode, ← hruntime]
      rfl
    rcases s.master.ingestAuthority_cases L.hash L.size peer p (c.withAgent L.agent) now with
      ⟨e, fleet, heq, -⟩ | ⟨hp, ⟨heq, hseq⟩ | ⟨journal, heq, hseq⟩⟩
    · rw [heq]
      exact ⟨k, { h with }⟩
    · rw [heq]
      rw [hp, hlast, h.last] at hseq
      refine ⟨k, ?_⟩
      have hsame : s.master.last s.node.nodeID L.journal.runtimeID = s.last L := rfl
      dsimp only
      rw [if_pos hsame, append_nil]
      exact { h with
        receipts := fun a ha => by
          rcases mem_append.mp ha with ha | ha
          · exact h.receipts a ha
          · rw [mem_singleton.mp ha]
            exact (Int.ofNat_inj.mp hseq).le }
    · rw [heq]
      rw [hp, hlast, h.last] at hseq
      have hseq : c.sequence = k + 1 := Int.ofNat_inj.mp hseq
      refine ⟨k + 1, ?_⟩
      have hstore := h.store hc hseq hp journal now
      have hne : (s.master.store L.hash p (c.withAgent L.agent) journal now).last s.node.nodeID L.journal.runtimeID ≠
          s.last L := by
        intro he
        have h1 := hstore.last
        have h2 := h.last
        rw [ReportSystem.last, he, h2] at h1
        omega
      dsimp only
      rw [if_neg hne]
      exact hstore

theorem Agrees.acknowledge (h : Agrees L s k) {i : Nat} : Agrees L (s.step L (.acknowledge i)) k := by
  simp only [step]
  split
  · exact h
  · next receipt hreceipt =>
    split
    · exact h
    · next node hack =>
      rcases AuthorityStore.acknowledge_eq_ok hack with ⟨-, rfl⟩ | ⟨-, r, hr, hseq, rfl⟩
      · exact h
      · have hk := h.receipts receipt (mem_of_getElem? hreceipt)
        rw [h.pending] at hr
        have hnum := h.numbered _ r hr
        have hlen := h.length
        have hnext := h.next
        have hacked : receipt.sequence = s.node.acked + 1 := by omega
        have hnodup := (h.captured r (mem_of_getElem? hr)).2.2
        exact {
          h with
          pending := by
            show none = s.captured[receipt.sequence]?
            rw [List.getElem?_eq_none (by omega)]
          next := by
            show s.node.sequence ≤ receipt.sequence + 1
            omega
          acked := hk
          seen := fun id => by
            show get? (r.grants.foldl (fun seen g => seen.put g.grantID g) s.node.seen) id =
              latest (readings s.captured) id receipt.sequence
            rw [get?_foldl_put_of_nodup (fun g : GrantAuthority => g.grantID) (fun g => g) hnodup, hacked, latest, readings, hr,
              Option.bind_some, Option.map_id', h.seen id]
            rfl }

theorem readings_eq_some {n : Nat} {id : String} {o : GrantAuthority}
    (h : readings captured n id = some o) : ∃ r ∈ captured, o ∈ r.grants ∧ o.grantID = id := by
  cases n with
  | zero => cases h
  | succ n =>
    rw [readings] at h
    obtain ⟨r, hr, ho⟩ := Option.bind_eq_some_iff.mp h
    exact ⟨r, mem_of_getElem? hr, mem_of_find?_eq_some ho, by simpa using List.find?_some ho⟩

theorem Agrees.control (h : Agrees L s k) {master : ReportMaster} : Agrees L (s.step L (.control master)) k := by
  simp only [step]
  split
  · next hspares =>
    obtain ⟨hlast, hobserved⟩ := hspares
    have hlast : ReportSystem.last L { s with master := master } = s.last L := hlast
    exact { h with
      last := hlast ▸ h.last
      digest := hlast ▸ h.digest
      observed := fun id o ho => by
        obtain ⟨n, -, -, hn⟩ := exists_of_latest ho
        obtain ⟨r, hr, hmem, hid⟩ := readings_eq_some hn
        obtain ⟨w, hw, hshows⟩ := h.observed id o ho
        exact ⟨w, (hid ▸ hobserved r hr o hmem).trans hw, hshows⟩ }
  · exact h

theorem Agrees.step (h : Agrees L s k) (a : Action) : ∃ k', Agrees L (s.step L a) k' := by
  cases a with
  | capture page ready now => exact ⟨k, h.capture⟩
  | send => exact ⟨k, h.send⟩
  | deliver i peer p now => exact h.deliver
  | acknowledge i => exact ⟨k, h.acknowledge⟩
  | control master => exact ⟨k, h.control⟩
  | crash => exact ⟨k, h⟩

theorem agrees_after (nodeID installationID journalID : String) (runtimeJournals : Table String String) (fleet : Fleet)
    (acts : List Action) :
    ∃ k, Agrees L (Run.after (step L) (start nodeID installationID journalID runtimeJournals fleet) acts) k :=
  Run.inv_after (I := fun s => ∃ k, Agrees L s k) (fun _ a ⟨_, h⟩ => h.step a) ⟨0, agrees_start _ _ _ _ _⟩ acts

def Extends (s t : ReportSystem) : Prop := s.captured <+: t.captured ∧ s.node.acked ≤ t.node.acked

theorem extends_step (s : ReportSystem) (a : Action) : s.Extends (s.step L a) := by
  have hrefl : s.Extends s := ⟨prefix_rfl, le_rfl⟩
  cases a with
  | capture page ready now =>
    simp only [step]
    split
    · exact hrefl
    · next node hcapture =>
      refine ⟨prefix_append _ _, ?_⟩
      rcases AuthorityStore.capture_eq_ok hcapture with ⟨r, -, rfl⟩ | ⟨-, rfl | ⟨r, -, -, -, -, rfl⟩⟩
      · exact le_rfl
      · exact le_rfl
      · exact le_rfl
  | send =>
    simp only [step]
    split
    · exact hrefl
    · exact hrefl
  | deliver i peer p now =>
    simp only [step]
    split
    · exact hrefl
    · split
      · exact hrefl
      · exact hrefl
  | acknowledge i =>
    simp only [step]
    split
    · exact hrefl
    · split
      · exact hrefl
      · next node hack =>
        refine ⟨prefix_rfl, ?_⟩
        rcases AuthorityStore.acknowledge_eq_ok hack with ⟨-, rfl⟩ | ⟨hlt, r, -, -, rfl⟩
        · exact le_rfl
        · exact hlt.le
  | control master =>
    simp only [step]
    split
    · exact hrefl
    · exact hrefl
  | crash => exact hrefl

theorem extends_after (s : ReportSystem) (acts : List Action) : s.Extends (Run.after (step L) s acts) :=
  Run.rel_after (I := fun _ => True) (R := Extends) (fun _ => ⟨prefix_rfl, le_rfl⟩)
    (fun _ _ _ h h' => ⟨h.1.trans h'.1, h.2.trans h'.2⟩) (fun _ _ h => h) (fun s a _ => extends_step s a) trivial acts

theorem Agrees.waits {t : ReportSystem} {k' : Nat} (h : Agrees L s k) (ht : Agrees L t k') (hext : s.Extends t)
    {r : AuthorityReport} (hr : s.node.pending = some r) : t.node.pending = some r ∨ r.sequence ≤ t.node.acked := by
  rw [h.pending] at hr
  have hnum := h.numbered _ r hr
  obtain ⟨hcaptured, hacked⟩ := hext
  rcases Nat.eq_or_lt_of_le hacked with heq | hlt
  · left
    rw [ht.pending, ← heq]
    obtain ⟨new, hnew⟩ := hcaptured
    rw [← hnew, List.getElem?_append_left (List.getElem?_eq_some_iff.mp hr).1]
    exact hr
  · right
    omega

def Answers (L : ReportLink) (s : ReportSystem) : Prop :=
  ∀ r ∈ s.reports, ∀ (peer : Peer) (p : Principal) (now : Int),
    ((s.last L).sequence ≤ r.sequence →
      (s.master.ingestAuthority L.hash L.size peer p r now).1 ≠ .error .sequence ∧
      ((s.last L).sequence = r.sequence → (s.master.ingestAuthority L.hash L.size peer p r now).1 ≠ .error .conflict)) ∧
    (r.sequence < (s.last L).sequence →
      ∃ e fleet, s.master.ingestAuthority L.hash L.size peer p r now = (.error e, { s.master with fleet := fleet }))

theorem Agrees.answers (h : Agrees L s k) : Answers L s := by
  intro r hr peer p now
  obtain ⟨c, hc, rfl⟩ := h.sent r hr
  obtain ⟨hnode, hruntime, -⟩ := h.captured c hc
  have hlast : s.master.last (c.withAgent L.agent).nodeID (c.withAgent L.agent).runtimeID = s.last L := by
    rw [ReportSystem.last, ← hnode, ← hruntime]
    rfl
  -- what is captured is at most one report ahead of what was accepted
  have hle : c.sequence ≤ k + 1 := by
    obtain ⟨i, hi⟩ := mem_iff_getElem?.mp hc
    have hlt := (List.getElem?_eq_some_iff.mp hi).1
    have hnum := h.numbered i c hi
    have hlen := h.length
    have hnext := h.next
    have hacked := h.acked
    omega
  rcases s.master.ingestAuthority_cases L.hash L.size peer p (c.withAgent L.agent) now with
    ⟨e, fleet, heq, hdispute⟩ | ⟨hp, ⟨heq, hseq⟩ | ⟨journal, heq, hseq⟩⟩
  · rw [ReportMaster.Disputes, hlast] at hdispute
    rw [h.last, AuthorityReport.withAgent_sequence] at hdispute ⊢
    refine ⟨fun hk => ⟨fun he => ?_, fun hk' he => ?_⟩, fun _ => ⟨e, fleet, heq⟩⟩ <;> rw [heq] at he
    · have hne := hdispute.1 (Except.error.inj he)
      omega
    · exact hdispute.2 (Except.error.inj he) hk'.symm (h.digest c hc (by omega))
  all_goals
    rw [hp, hlast, h.last, AuthorityReport.withAgent_sequence] at hseq
    rw [h.last, AuthorityReport.withAgent_sequence, heq]
    exact ⟨fun _ => ⟨by simp, by simp⟩, fun hk => by omega⟩

/-- The control plane has stored what the node saw acknowledged. -/
def Stored (L : ReportLink) (s : ReportSystem) : Prop :=
  ∀ id o, s.node.seen.get? id = some o → ∃ w, s.master.observed.get? id = some w ∧
    (w.Shows o ∨ ∃ r o', s.node.pending = some r ∧ (s.last L).sequence = r.sequence ∧ r.entry id = some o' ∧ w.Shows o')

theorem Agrees.stored (h : Agrees L s k) : Stored L s := by
  intro id o ho
  rw [h.seen id] at ho
  have hnext := h.next
  have hupto := h.upto
  rcases Nat.eq_or_lt_of_le h.acked with heq | hlt
  · rw [heq] at ho
    obtain ⟨w, hw, hshows⟩ := h.observed id o ho
    exact ⟨w, hw, .inl hshows⟩
  · -- the report that waits is accepted already
    obtain rfl : k = s.node.acked + 1 := by omega
    have hlen := h.length
    obtain ⟨r, hr⟩ : ∃ r, s.captured[s.node.acked]? = some r := ⟨_, List.getElem?_eq_getElem (by omega)⟩
    have hobserved := h.observed id
    rw [latest, readings, hr, Option.bind_some] at hobserved
    cases hentry : r.entry id with
    | none =>
      rw [hentry, Option.none_or] at hobserved
      obtain ⟨w, hw, hshows⟩ := hobserved o ho
      exact ⟨w, hw, .inl hshows⟩
    | some o' =>
      rw [hentry, Option.some_or] at hobserved
      obtain ⟨w, hw, hshows⟩ := hobserved o' rfl
      refine ⟨w, hw, .inr ⟨r, o', h.pending.trans hr, ?_, hentry, hshows⟩⟩
      rw [h.last, h.numbered _ r hr]

/-- Whatever is lost, repeated or delayed: the captured reports are numbered without a gap, one waits unchanged until
it is acknowledged, the control plane accepts every number once and in order and never refuses the report that waits,
and what was acknowledged is stored. -/
theorem reports_agree (L : ReportLink) (nodeID installationID journalID : String) (runtimeJournals : Table String String)
    (fleet : Fleet) (acts later : List Action) :
    let s := Run.after (step L) (start nodeID installationID journalID runtimeJournals fleet) acts
    let t := Run.after (step L) s later
    (∀ i r, s.captured[i]? = some r → r.sequence = i + 1) ∧
    (∀ r, s.node.pending = some r → t.node.pending = some r ∨ r.sequence ≤ t.node.acked) ∧
    (∀ r ∈ s.reports, ∃ c ∈ s.captured, r = c.withAgent L.agent) ∧
    (∃ k : Nat, (s.last L).sequence = k ∧ s.accepted = List.range' 1 k) ∧
    Answers L s ∧ (∀ r, s.node.pending = some r → (s.last L).sequence ≤ r.sequence) ∧
    Stored L s := by
  intro s t
  obtain ⟨k, h⟩ : ∃ k, Agrees L s k := agrees_after nodeID installationID journalID runtimeJournals fleet acts
  obtain ⟨k', ht⟩ : ∃ k', Agrees L t k' :=
    Run.inv_after (I := fun s => ∃ k, Agrees L s k) (fun _ a ⟨_, h⟩ => h.step a) ⟨k, h⟩ later
  refine ⟨h.numbered, fun r hr => h.waits ht (extends_after s later) hr, h.sent, ⟨k, h.last, h.accepted⟩, h.answers, ?_,
    h.stored⟩
  intro r hr
  have hr : s.captured[s.node.acked]? = some r := h.pending.symm.trans hr
  have hnum := h.numbered _ r hr
  have hnext := h.next
  have hupto := h.upto
  have hlast := h.last
  omega

namespace Sample

def node : String := "11111111-1111-4111-8111-111111111111"

def stateJournal : String := "33333333-1111-4111-8111-333333333333"

def creditJournal : String := "44444444-1111-4111-8111-444444444444"

def grant : String := "66666666-1111-4111-8111-666666666666"

def link : ReportLink := ⟨fun _ => [], fun _ => 1, ⟨"edge", "edge", stateJournal, creditJournal⟩, node⟩

def fleet : Fleet where
  grants := (∅ : Table String FleetGrant).put grant ⟨none, node, node, "edge", grant, grant, true, 0, 0, 1⟩
  nodes := (∅ : Table String FleetNode).put node { installationID := node, enabled := true, sentRevision := 1 }
  nodeJournals := (∅ : Table String FleetNodeJournal).put node ⟨node, some node, false⟩
  runtimeJournals := (∅ : Table (String × String) FleetRuntimeJournal).put (node, "edge")
    { installationID := node, coreID := "edge", stateJournalID := stateJournal, creditJournalID := creditJournal }

def opening : ReportSystem := start node node stateJournal ((∅ : Table String String).put "edge" creditJournal) fleet

def principal : Principal := ⟨"", node, node, ""⟩

def peer : Peer := ⟨none, fun _ => none⟩

def observation (known : Bool) : GrantAuthority where
  grantID := grant
  clientID := grant
  termID := grant
  policyRevision := 1
  authorityRevision := 0
  creditCeiling := 0
  quotaUnlimited := true
  reservedHighWater := 1
  burnedHighWater := if known then 0 else 1
  admissionHighWater := if known then 1 else 0
  admissionKnown := known
  spendableBytes := 0
  spendableKnown := false
  authorizationActive := true

def round (n : Nat) (grants : List GrantAuthority) : List Action :=
  [.capture ⟨grants, ""⟩ true (10000 * n), .send, .deliver (n - 1) peer principal n, .acknowledge (n - 1)]

def rounds : ReportSystem :=
  Run.after (step link) opening (round 1 [observation true] ++ round 2 [observation false] ++ round 3 [])

def again (s : ReportSystem) (i : Nat) : Option (Except FleetError AuthorityReceipt) :=
  s.reports[i]?.map fun r => (s.master.ingestAuthority link.hash link.size peer principal r 4).1

end Sample

/-- A report that was delayed until the next one was accepted is out of sequence.  What was admitted is stored from the
first report when the second one does not know it, where the node has seen zero. -/
theorem delayed_report_is_out_of_sequence :
    Sample.again Sample.rounds 1 = some (.error .sequence) ∧
    Sample.rounds.node.pending = none ∧ Sample.rounds.node.acked = 3 ∧
    (Sample.rounds.node.seen.get? Sample.grant).map (·.admissionHighWater) = some 0 ∧
    (Sample.rounds.master.observed.get? Sample.grant).map (·.admissionHighWater) = some 1 := by
  decide +kernel

end ReportSystem

end Pui
