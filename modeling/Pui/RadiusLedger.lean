import Mathlib.Data.List.Dedup
import Mathlib.Data.List.Sort
import Pui.Run
import Pui.Table

/-!
# The RADIUS ledger

Access servers report a session by records that carry its totals so far.
-/

namespace Pui

open Table List Option

namespace Radius

inductive Status where
  | start
  | interim
  | stop
  deriving DecidableEq

structure Peer where
  source : Option String
  framedIP : Option String
  deriving DecidableEq

structure Event where
  status : Status
  sessionID : String
  username : String
  peer : Peer
  inBytes : Int
  outBytes : Int
  deriving DecidableEq

structure Session where
  username : String
  peer : Peer
  inBytes : Int
  outBytes : Int
  lastSeen : Option Int
  lastRecord : Int
  started : Int
  deriving DecidableEq

structure TrafficDelta where
  email : String
  tag : String
  up : Int
  down : Int
  deriving DecidableEq

structure Ledger where
  sessions : Table String Session
  pending : Table String TrafficDelta
  tag : String
  stale : Int

def newLedger (tag : String) (stale : Int) : Ledger := ⟨∅, ∅, tag, stale⟩

def moved (total before : Int) : Int := if total - before < 0 then total else total - before

def Peer.seen (p q : Peer) : Peer := ⟨q.source.or p.source, q.framedIP.or p.framedIP⟩

/-- A session's growth is added to what its user has pending. The source adds in `int64`; the totals of the model are
integers, so they stand for totals below 2 ^ 63. -/
def Ledger.accrue (l : Ledger) (now : Int) (ev : Event) (cur : Session) : Ledger :=
  let dIn := moved ev.inBytes cur.inBytes
  let dOut := moved ev.outBytes cur.outBytes
  let cur' := { cur with
    peer := cur.peer.seen ev.peer
    inBytes := ev.inBytes
    outBytes := ev.outBytes
    lastRecord := now
    lastSeen := if 0 < dIn ∨ 0 < dOut ∨ cur.lastSeen = none then some now else cur.lastSeen }
  let agg := (l.pending.get? ev.username).getD ⟨ev.username, l.tag, 0, 0⟩
  { l with
    sessions := if ev.status = .stop then (l.sessions.put ev.sessionID cur').drop ev.sessionID else l.sessions.put ev.sessionID cur'
    pending := if 0 < dIn ∨ 0 < dOut then l.pending.put ev.username { agg with up := agg.up + dIn, down := agg.down + dOut }
      else l.pending }

def Ledger.apply (l : Ledger) (now : Int) (ev : Event) : Ledger :=
  if ev.sessionID = "" then l
  else match l.sessions.get? ev.sessionID with
    | some cur => l.accrue now (if ev.username = "" then { ev with username := cur.username } else ev) cur
    | none =>
      if ev.username = "" then l
      else if ev.status = .start then l.accrue now ev ⟨ev.username, ev.peer, 0, 0, none, now, now⟩
      else
        let cur : Session := ⟨ev.username, ev.peer, ev.inBytes, ev.outBytes, some now, now, now⟩
        { l with
          sessions := if ev.status = .stop then (l.sessions.put ev.sessionID cur).drop ev.sessionID else l.sessions.put ev.sessionID cur }

def Ledger.drain (l : Ledger) : List TrafficDelta × Ledger :=
  ((l.pending.entries.insertionSort fun a b => a.1 ≤ b.1).map fun e => e.2, { l with pending := ∅ })

structure Listed where
  email : String
  source : Option String
  lastSeenUnixMilli : Option Int
  startedUnixMilli : Int
  addresses : List String
  deriving DecidableEq

def Session.listed (cur : Session) : Listed :=
  ⟨cur.username, cur.peer.source, cur.lastSeen.map (· / 1000000), cur.started / 1000000, cur.peer.framedIP.toList⟩

def Ledger.list (l : Ledger) (now : Int) : List Listed × Ledger :=
  let kept := l.sessions.keep fun _ cur => ¬ (0 < l.stale ∧ now - cur.lastRecord > l.stale)
  ((kept.entries.insertionSort fun a b => a.1 ≤ b.1).map fun e => e.2.listed, { l with sessions := kept })

inductive Call where
  | apply (now : Int) (ev : Event)
  | drain
  | sessions (now : Int)

structure Books where
  ledger : Ledger
  drained : List TrafficDelta

def Books.step (s : Books) : Call → Books
  | .apply now ev => { s with ledger := s.ledger.apply now ev }
  | .drain => ⟨s.ledger.drain.2, s.drained ++ s.ledger.drain.1⟩
  | .sessions now => { s with ledger := (s.ledger.list now).2 }

def Books.new (tag : String) (stale : Int) : Books := ⟨newLedger tag stale, []⟩

inductive Direction where
  | up
  | down
  deriving DecidableEq

def Event.total (ev : Event) : Direction → Int
  | .up => ev.inBytes
  | .down => ev.outBytes

def Session.total (cur : Session) : Direction → Int
  | .up => cur.inBytes
  | .down => cur.outBytes

def TrafficDelta.amount (delta : TrafficDelta) : Direction → Int
  | .up => delta.up
  | .down => delta.down

def Ledger.amount (l : Ledger) (user : String) (d : Direction) : Int := (l.pending.get? user).elim 0 (·.amount d)

def Books.billed (s : Books) (user : String) (d : Direction) : Int :=
  ((s.drained.filter fun delta => delta.email = user).map (·.amount d)).sum + s.ledger.amount user d

def Ledger.cursor (l : Ledger) (id : String) (d : Direction) : Option Int := (l.sessions.get? id).map (·.total d)

def charge (cursor : Option Int) (ev : Event) (d : Direction) : Int :=
  match cursor with
  | some before => moved (ev.total d) before
  | none => if ev.username ≠ "" ∧ ev.status = .start then moved (ev.total d) 0 else 0

def nextCursor (cursor : Option Int) (ev : Event) (d : Direction) : Option Int :=
  if cursor = none ∧ ev.username = "" ∨ ev.status = .stop then none else some (ev.total d)

theorem moved_nonneg {total : Int} (h : 0 ≤ total) (before : Int) : 0 ≤ moved total before := by
  unfold moved
  split <;> omega

section Accrue

variable (l : Ledger) (now : Int) (ev : Event) (cur : Session)

theorem cursor_accrue (d : Direction) :
    (l.accrue now ev cur).cursor ev.sessionID d = if ev.status = .stop then none else some (ev.total d) := by
  unfold Ledger.cursor Ledger.accrue
  by_cases hstop : ev.status = .stop
  · simp [hstop, get?_drop]
  · cases d <;> simp [hstop, Session.total, Event.total]

theorem get?_accrue_of_ne {id : String} (hne : id ≠ ev.sessionID) :
    (l.accrue now ev cur).sessions.get? id = l.sessions.get? id := by
  unfold Ledger.accrue
  by_cases hstop : ev.status = .stop <;> simp [hstop, get?_drop, hne]

theorem amount_accrue (hin : 0 ≤ ev.inBytes) (hout : 0 ≤ ev.outBytes) (user : String) (d : Direction) :
    (l.accrue now ev cur).amount user d = l.amount user d + if ev.username = user then moved (ev.total d) (cur.total d) else 0 := by
  have hdIn := moved_nonneg hin cur.inBytes
  have hdOut := moved_nonneg hout cur.outBytes
  unfold Ledger.amount Ledger.accrue
  by_cases hmoved : 0 < moved ev.inBytes cur.inBytes ∨ 0 < moved ev.outBytes cur.outBytes
  · simp only [hmoved, if_true, get?_put]
    by_cases huser : user = ev.username
    · subst huser
      cases l.pending.get? ev.username <;> cases d <;> simp [TrafficDelta.amount, Event.total, Session.total]
    · simp [huser, Ne.symm huser]
  · have hzero : moved (ev.total d) (cur.total d) = 0 := by
      cases d <;> simp only [Event.total, Session.total] <;> omega
    simp [hmoved, hzero]

end Accrue

section Apply

variable (l : Ledger) (now : Int) (ev : Event)

theorem apply_of_blank (h : ev.sessionID = "") : l.apply now ev = l := if_pos h

theorem get?_apply_of_ne {id : String} (hne : id ≠ ev.sessionID) : (l.apply now ev).sessions.get? id = l.sessions.get? id := by
  unfold Ledger.apply
  split
  · rfl
  · split
    · split
      · exact get?_accrue_of_ne l now _ _ hne
      · exact get?_accrue_of_ne l now _ _ hne
    · split
      · rfl
      · split
        · exact get?_accrue_of_ne l now _ _ hne
        · by_cases hstop : ev.status = .stop <;> simp [hstop, get?_drop, hne]

theorem cursor_apply_of_ne {id : String} (hne : id ≠ ev.sessionID) (d : Direction) : (l.apply now ev).cursor id d = l.cursor id d := by
  unfold Ledger.cursor
  rw [get?_apply_of_ne l now ev hne]

theorem cursor_apply (hid : ev.sessionID ≠ "") (d : Direction) :
    (l.apply now ev).cursor ev.sessionID d = nextCursor (l.cursor ev.sessionID d) ev d := by
  have hcursor : l.cursor ev.sessionID d = (l.sessions.get? ev.sessionID).map (·.total d) := rfl
  rw [nextCursor, hcursor]
  unfold Ledger.apply
  rw [if_neg hid]
  cases hget : l.sessions.get? ev.sessionID with
  | some cur =>
    simp only [map_some, reduceCtorEq, false_and, false_or]
    by_cases hblank : ev.username = ""
    · rw [if_pos hblank]
      exact cursor_accrue l now { ev with username := cur.username } cur d
    · rw [if_neg hblank]
      exact cursor_accrue l now ev cur d
  | none =>
    simp only [map_none, true_and]
    by_cases hblank : ev.username = ""
    · rw [if_pos hblank, if_pos (.inl hblank), hcursor, hget, map_none]
    · simp only [hblank, if_false, false_or]
      by_cases hstart : ev.status = .start
      · rw [if_pos hstart]
        exact cursor_accrue l now ev _ d
      · rw [if_neg hstart]
        by_cases hstop : ev.status = .stop
        · simp [hstop, Ledger.cursor, get?_drop]
        · cases d <;> simp [hstop, Ledger.cursor, Session.total, Event.total]

def Ledger.billedTo (l : Ledger) (ev : Event) : String :=
  if ev.username = "" then ((l.sessions.get? ev.sessionID).map Session.username).getD "" else ev.username

theorem amount_apply (hid : ev.sessionID ≠ "") (hin : 0 ≤ ev.inBytes) (hout : 0 ≤ ev.outBytes) (user : String) (d : Direction) :
    (l.apply now ev).amount user d =
      l.amount user d + if l.billedTo ev = user then charge (l.cursor ev.sessionID d) ev d else 0 := by
  have hcursor : l.cursor ev.sessionID d = (l.sessions.get? ev.sessionID).map (·.total d) := rfl
  rw [hcursor]
  unfold Ledger.apply Ledger.billedTo
  rw [if_neg hid]
  cases hget : l.sessions.get? ev.sessionID with
  | some cur =>
    by_cases hblank : ev.username = ""
    · simp only [hblank, if_true]
      exact amount_accrue l now { ev with username := cur.username } cur hin hout user d
    · simp only [hblank, if_false]
      exact amount_accrue l now ev cur hin hout user d
  | none =>
    by_cases hblank : ev.username = ""
    · simp [hblank, charge]
    · simp only [hblank, if_false]
      by_cases hstart : ev.status = .start
      · rw [if_pos hstart, amount_accrue l now ev _ hin hout user d]
        cases d <;> simp [charge, hblank, hstart, Session.total]
      · simp [hstart, charge, Ledger.amount]

end Apply

theorem cursor_list (l : Ledger) (now : Int) (id : String) (d : Direction) :
    (l.list now).2.cursor id d = l.cursor id d ∨ 0 < l.stale ∧ (l.list now).2.cursor id d = none := by
  unfold Ledger.cursor Ledger.list
  rw [get?_keep]
  cases l.sessions.get? id with
  | none => exact .inl rfl
  | some cur =>
    by_cases hkeep : 0 < l.stale ∧ now - cur.lastRecord > l.stale
    · exact .inr ⟨hkeep.1, by simp [Option.filter, hkeep]⟩
    · exact .inl (by simp only [Option.filter, hkeep, not_false_eq_true, decide_true, if_true])

theorem stale_apply (l : Ledger) (now : Int) (ev : Event) : (l.apply now ev).stale = l.stale := by
  unfold Ledger.apply
  split
  · rfl
  · split
    · rfl
    · split
      · rfl
      · split <;> rfl

def Ledger.Named (l : Ledger) : Prop := ∀ user delta, l.pending.get? user = some delta → delta.email = user

theorem named_accrue {l : Ledger} (h : l.Named) (now : Int) (ev : Event) (cur : Session) : (l.accrue now ev cur).Named := by
  intro user delta hget
  unfold Ledger.accrue at hget
  simp only at hget
  split at hget
  · rw [get?_put] at hget
    split at hget
    · rename_i huser
      rw [← Option.some.inj hget, huser]
      cases hold : l.pending.get? ev.username with
      | none => rfl
      | some agg => exact h ev.username agg hold
    · exact h user delta hget
  · exact h user delta hget

theorem named_apply {l : Ledger} (h : l.Named) (now : Int) (ev : Event) : (l.apply now ev).Named := by
  unfold Ledger.apply
  split
  · exact h
  · split
    · exact named_accrue h now _ _
    · split
      · exact h
      · split
        · exact named_accrue h now _ _
        · exact h

theorem sum_drain {l : Ledger} (h : l.Named) (user : String) (d : Direction) :
    ((l.drain.1.filter fun delta => delta.email = user).map (·.amount d)).sum = l.amount user d := by
  have hsum : ((l.drain.1.filter fun delta => delta.email = user).map (·.amount d)).sum =
      l.pending.total fun k delta => if k = user then delta.amount d else 0 := by
    have hperm := List.perm_insertionSort (fun a b : Sigma fun _ : String => TrafficDelta => a.1 ≤ b.1) l.pending.entries
    calc ((l.drain.1.filter fun delta => delta.email = user).map (·.amount d)).sum
        = (((l.pending.entries.map fun e => e.2).filter fun delta => delta.email = user).map (·.amount d)).sum :=
          (((hperm.map _).filter _).map _).sum_eq
      _ = (l.pending.keep fun _ delta => delta.email = user).total fun _ delta => delta.amount d := by
          rw [List.filter_map, List.map_map]
          rfl
      _ = l.pending.total fun k delta => if k = user then delta.amount d else 0 := by
          rw [total_keep]
          refine total_congr fun k delta hget => ?_
          simp only [decide_eq_true_eq, h k delta hget]
  rw [hsum, total_eq_add_drop _ user, total_eq_zero]
  · unfold Ledger.amount
    cases l.pending.get? user <;> simp
  · intro k delta hget
    rw [get?_drop] at hget
    split at hget
    · cases hget
    · rename_i hne
      exact if_neg hne

def finalTotal (d : Direction) : Event → List Event → Int
  | r, [] => r.total d
  | r, r' :: rest => if r.status = .stop then r.total d else finalTotal d r' rest

def baseline (d : Direction) (r : Event) : Int := if r.status = .start then 0 else r.total d

def due (d : Direction) (stream : List Event) : Int :=
  match stream.dropWhile fun r => r.username = "" with
  | [] => 0
  | r :: rest => finalTotal d r rest - baseline d r

def owed (d : Direction) : Option Int → List Event → Int
  | none, stream => due d stream
  | some _, [] => 0
  | some before, r :: rest => finalTotal d r rest - before

structure InOrder (stream : List Event) : Prop where
  nonneg : ∀ r ∈ stream, 0 ≤ r.inBytes ∧ 0 ≤ r.outBytes
  sorted : stream.Pairwise fun r r' => r.inBytes ≤ r'.inBytes ∧ r.outBytes ≤ r'.outBytes ∧ (r.status = .stop → r'.status = .stop)

section Stream

variable {d : Direction} {r : Event} {rest : List Event}

theorem InOrder.tail (h : InOrder (r :: rest)) : InOrder rest :=
  ⟨fun r' hr' => h.nonneg r' (mem_cons_of_mem r hr'), h.sorted.of_cons⟩

theorem InOrder.total_nonneg {stream : List Event} (h : InOrder stream) (d : Direction) : ∀ r ∈ stream, 0 ≤ r.total d := by
  intro r hr
  cases d
  · exact (h.nonneg r hr).1
  · exact (h.nonneg r hr).2

theorem InOrder.total_le (h : InOrder (r :: rest)) (d : Direction) : ∀ r' ∈ rest, r.total d ≤ r'.total d := by
  intro r' hr'
  have hrel := (pairwise_cons.mp h.sorted).1 r' hr'
  cases d
  · exact hrel.1
  · exact hrel.2.1

theorem InOrder.stops (h : InOrder (r :: rest)) (hstop : r.status = .stop) : ∀ r' ∈ rest, r'.status = .stop :=
  fun r' hr' => ((pairwise_cons.mp h.sorted).1 r' hr').2.2 hstop

theorem finalTotal_of_stop (hstop : r.status = .stop) : finalTotal d r rest = r.total d := by
  cases rest with
  | nil => rfl
  | cons r' rest => exact if_pos hstop

theorem due_of_stops {stream : List Event} (h : ∀ r ∈ stream, r.status = .stop) : due d stream = 0 := by
  unfold due
  cases hrest : stream.dropWhile fun r => r.username = "" with
  | nil => rfl
  | cons r rest =>
    have hstop : r.status = .stop := h r ((dropWhile_suffix _).subset (hrest ▸ mem_cons_self))
    have hbase : baseline d r = r.total d := if_neg (by rw [hstop]; decide)
    show finalTotal d r rest - baseline d r = 0
    rw [finalTotal_of_stop hstop, hbase]
    exact Int.sub_self _

theorem due_cons_of_blank (hblank : r.username = "") : due d (r :: rest) = due d rest := by
  unfold due
  rw [dropWhile_cons, if_pos (decide_eq_true hblank)]

theorem due_cons_of_named (hnamed : r.username ≠ "") : due d (r :: rest) = finalTotal d r rest - baseline d r := by
  unfold due
  rw [dropWhile_cons, if_neg (by simpa using hnamed)]

theorem owed_open (h : InOrder (r :: rest)) (before : Int) :
    r.total d - before + owed d (if r.status = .stop then none else some (r.total d)) rest = finalTotal d r rest - before := by
  by_cases hstop : r.status = .stop
  · rw [if_pos hstop, owed, due_of_stops (h.stops hstop), finalTotal_of_stop hstop]
    exact Int.add_zero _
  · rw [if_neg hstop]
    cases rest with
    | nil => exact Int.add_zero _
    | cons r' rest =>
      rw [owed, finalTotal, if_neg hstop]
      omega

theorem owed_record {cursor : Option Int} (h : InOrder (r :: rest)) (hcursor : ∀ before, cursor = some before → before ≤ r.total d) :
    charge cursor r d + owed d (nextCursor cursor r d) rest = owed d cursor (r :: rest) := by
  have hnonneg := h.total_nonneg d r mem_cons_self
  cases cursor with
  | some before =>
    have hmoved : charge (some before) r d = r.total d - before := if_neg (by have := hcursor before rfl; omega)
    have hnext : nextCursor (some before) r d = if r.status = .stop then none else some (r.total d) := by simp [nextCursor]
    rw [hmoved, hnext, owed_open h]
    rfl
  | none =>
    by_cases hblank : r.username = ""
    · simp [charge, nextCursor, hblank, owed, due_cons_of_blank hblank]
    · have hnext : nextCursor none r d = if r.status = .stop then none else some (r.total d) := by simp [nextCursor, hblank]
      have hdue : owed d none (r :: rest) = finalTotal d r rest - baseline d r := due_cons_of_named hblank
      rw [hnext, hdue]
      by_cases hstart : r.status = .start
      · have hmoved : charge none r d = r.total d - 0 := (if_pos ⟨hblank, hstart⟩).trans (if_neg (by omega))
        rw [hmoved, owed_open h, baseline, if_pos hstart]
      · have hmoved : charge none r d = r.total d - r.total d := (if_neg fun hand => hstart hand.2).trans (Int.sub_self _).symm
        rw [hmoved, owed_open h, baseline, if_neg hstart]

theorem due_le_owed {stream : List Event} (h : InOrder stream) (hstart : ∀ r ∈ stream, r.status = .start → r.total d = 0) {before : Int}
    (hbefore : ∀ r ∈ stream, before ≤ r.total d) : due d stream ≤ owed d (some before) stream := by
  induction stream with
  | nil => exact le_rfl
  | cons r rest ih =>
    have hr := hbefore r mem_cons_self
    show due d (r :: rest) ≤ finalTotal d r rest - before
    by_cases hblank : r.username = ""
    · rw [due_cons_of_blank hblank]
      by_cases hstop : r.status = .stop
      · rw [due_of_stops (h.stops hstop), finalTotal_of_stop hstop]
        omega
      · have ih := ih h.tail (fun r' hr' => hstart r' (mem_cons_of_mem r hr')) fun r' hr' => hbefore r' (mem_cons_of_mem r hr')
        cases rest with
        | nil =>
          show (0 : Int) ≤ r.total d - before
          omega
        | cons r' rest =>
          rw [finalTotal, if_neg hstop]
          exact ih
    · rw [due_cons_of_named hblank, baseline]
      split
      · have := hstart r mem_cons_self ‹_›
        omega
      · omega

end Stream

def Call.event? : Call → Option Event
  | .apply _ ev => some ev
  | .drain | .sessions _ => none

def stream (id : String) (calls : List Call) : List Event := (calls.filterMap Call.event?).filter fun ev => ev.sessionID = id

def sessionIDs (calls : List Call) : List String :=
  (((calls.filterMap Call.event?).map Event.sessionID).filter fun id => id ≠ "").dedup

def Books.charged (id : String) (d : Direction) (s : Books) (c : Call) : Int :=
  match c.event? with
  | some ev => if ev.sessionID = id then charge (s.ledger.cursor id d) ev d else 0
  | none => 0

theorem stream_cons_of_event {c : Call} {ev : Event} (hc : c.event? = some ev) (id : String) (calls : List Call) :
    stream id (c :: calls) = if ev.sessionID = id then ev :: stream id calls else stream id calls := by
  unfold stream
  rw [filterMap_cons, hc]
  simp only [filter_cons, decide_eq_true_eq]

theorem stream_cons_of_none {c : Call} (hc : c.event? = none) (id : String) (calls : List Call) :
    stream id (c :: calls) = stream id calls := by
  unfold stream
  rw [filterMap_cons, hc]

theorem stale_step (s : Books) (c : Call) : (s.step c).ledger.stale = s.ledger.stale := by
  cases c with
  | apply now ev => exact stale_apply s.ledger now ev
  | drain | sessions => rfl

theorem cursor_step (s : Books) {c : Call} {id : String} (hc : ∀ ev, c.event? = some ev → ev.sessionID ≠ id) (d : Direction) :
    (s.step c).ledger.cursor id d = s.ledger.cursor id d ∨ 0 < s.ledger.stale ∧ (s.step c).ledger.cursor id d = none := by
  cases c with
  | apply now ev => exact .inl (cursor_apply_of_ne s.ledger now ev (Ne.symm (hc ev rfl)) d)
  | drain => exact .inl rfl
  | sessions now => exact cursor_list s.ledger now id d

def Books.Below (s : Books) (id : String) (d : Direction) (records : List Event) : Prop :=
  ∀ before, s.ledger.cursor id d = some before → ∀ r ∈ records, before ≤ r.total d

theorem total_charged {id : String} (hid : id ≠ "") {d : Direction} {calls : List Call} (h : InOrder (stream id calls)) {s : Books}
    (hbelow : s.Below id d (stream id calls)) :
    (s.ledger.stale ≤ 0 → Run.total Books.step (Books.charged id d) s calls = owed d (s.ledger.cursor id d) (stream id calls)) ∧
      ((∀ r ∈ stream id calls, r.status = .start → r.total d = 0) →
        Run.total Books.step (Books.charged id d) s calls ≤ owed d (s.ledger.cursor id d) (stream id calls)) := by
  induction calls generalizing s with
  | nil =>
    have hnil : owed d (s.ledger.cursor id d) (stream id []) = 0 := by cases s.ledger.cursor id d <;> rfl
    rw [hnil]
    exact ⟨fun _ => rfl, fun _ => le_rfl⟩
  | cons c calls ih =>
    rw [Run.total]
    by_cases hc : ∃ ev, c.event? = some ev ∧ ev.sessionID = id
    · -- a record of the session
      obtain ⟨ev, hev, rfl⟩ := hc
      have hstream : stream ev.sessionID (c :: calls) = ev :: stream ev.sessionID calls := by
        rw [stream_cons_of_event hev, if_pos rfl]
      rw [hstream] at h hbelow ⊢
      have hcharged : s.charged ev.sessionID d c = charge (s.ledger.cursor ev.sessionID d) ev d := by
        rw [Books.charged, hev]
        exact if_pos rfl
      have hnext : (s.step c).ledger.cursor ev.sessionID d = nextCursor (s.ledger.cursor ev.sessionID d) ev d := by
        cases c with
        | apply now ev' =>
          obtain rfl := Option.some.inj hev
          exact cursor_apply s.ledger now ev' hid d
        | drain | sessions => cases hev
      have hbelow' : (s.step c).Below ev.sessionID d (stream ev.sessionID calls) := by
        intro before hbefore r hr
        rw [hnext, nextCursor] at hbefore
        split at hbefore
        · cases hbefore
        · exact Option.some.inj hbefore ▸ h.total_le d r hr
      have hrecord := owed_record h fun before hbefore => hbelow before hbefore ev mem_cons_self
      obtain ⟨hexact, hle⟩ := ih h.tail hbelow'
      rw [hcharged, ← hrecord, ← hnext]
      constructor
      · intro hstale
        rw [hexact (by rwa [stale_step])]
      · intro hstart
        have hrest := hle fun r hr => hstart r (mem_cons_of_mem ev hr)
        omega
    · -- any other call
      have hother : ∀ ev, c.event? = some ev → ev.sessionID ≠ id := fun ev hev heq => hc ⟨ev, hev, heq⟩
      have hstream : stream id (c :: calls) = stream id calls := by
        cases hev : c.event? with
        | none => exact stream_cons_of_none hev id calls
        | some ev => rw [stream_cons_of_event hev, if_neg (hother ev hev)]
      have hcharged : s.charged id d c = 0 := by
        rw [Books.charged]
        cases hev : c.event? with
        | none => rfl
        | some ev => exact if_neg (hother ev hev)
      rw [hstream] at h hbelow ⊢
      rw [hcharged, Int.zero_add]
      rcases cursor_step s hother d with hsame | ⟨hstale, hdropped⟩
      · obtain ⟨hexact, hle⟩ := ih h (s := s.step c) (by rwa [Books.Below, hsame])
        rw [hsame] at hexact hle
        exact ⟨fun hstale => hexact (by rwa [stale_step]), hle⟩
      · obtain ⟨-, hle⟩ := ih h (s := s.step c) (by rw [Books.Below, hdropped]; exact fun _ hnone => (by cases hnone))
        rw [hdropped] at hle
        refine ⟨fun hzero => absurd hstale (not_lt.mpr hzero), fun hstart => (hle hstart).trans ?_⟩
        cases hcursor : s.ledger.cursor id d with
        | none => exact le_rfl
        | some before => exact due_le_owed h hstart (hbelow before hcursor)

def Call.Fits (owner : String → String) (c : Call) : Prop :=
  ∀ ev, c.event? = some ev → ev.sessionID ≠ "" →
    0 ≤ ev.inBytes ∧ 0 ≤ ev.outBytes ∧ (ev.username = "" ∨ ev.username = owner ev.sessionID)

/-- The open sessions are their owners', and what waits stands under its user. -/
structure Books.Kept (s : Books) (owner : String → String) : Prop where
  named : s.ledger.Named
  owned : ∀ id cur, s.ledger.sessions.get? id = some cur → cur.username = owner id

theorem username_accrue {l : Ledger} {now : Int} {ev : Event} {cur cur' : Session}
    (h : (l.accrue now ev cur).sessions.get? ev.sessionID = some cur') : cur'.username = cur.username := by
  unfold Ledger.accrue at h
  simp only at h
  split at h
  · simp [get?_drop] at h
  · rw [get?_put_self] at h
    rw [← Option.some.inj h]

theorem Books.Kept.apply {owner : String → String} {l : Ledger} {drained : List TrafficDelta} (h : Books.Kept ⟨l, drained⟩ owner) (now : Int)
    {ev : Event} (hname : ev.sessionID ≠ "" → ev.username = "" ∨ ev.username = owner ev.sessionID) :
    Books.Kept ⟨l.apply now ev, drained⟩ owner := by
  refine ⟨named_apply h.named now ev, fun id cur hget => ?_⟩
  by_cases hid : id = ev.sessionID
  · subst hid
    unfold Ledger.apply at hget
    split at hget
    · exact h.owned _ cur hget
    · rename_i hid
      split at hget
      · rename_i old hold
        have hkept : cur.username = old.username := by
          split at hget
          · exact @username_accrue l now { ev with username := old.username } old cur hget
          · exact username_accrue hget
        exact hkept.trans (h.owned _ old hold)
      · split at hget
        · exact h.owned _ cur hget
        · rename_i hblank
          have howner := (hname hid).resolve_left hblank
          split at hget
          · exact (username_accrue hget).trans howner
          · simp only at hget
            split at hget
            · simp [get?_drop] at hget
            · rw [get?_put_self] at hget
              rw [← Option.some.inj hget]
              exact howner
  · refine h.owned id cur ?_
    rw [← hget]
    exact (get?_apply_of_ne l now ev hid).symm

theorem Books.Kept.step {owner : String → String} {s : Books} (h : s.Kept owner) {c : Call} (hc : c.Fits owner) : (s.step c).Kept owner := by
  cases c with
  | apply now ev => exact Books.Kept.apply h now fun hid => (hc ev rfl hid).2.2
  | drain => exact ⟨fun _ _ hget => by simp [Books.step, Ledger.drain] at hget, h.owned⟩
  | sessions now =>
    refine ⟨h.named, fun id cur hget => h.owned id cur ?_⟩
    change (s.ledger.sessions.keep _).get? id = some cur at hget
    rw [get?_keep, filter_eq_some_iff] at hget
    exact hget.1

theorem Books.Kept.billedTo {owner : String → String} {s : Books} (h : s.Kept owner) {ev : Event}
    (hname : ev.username = "" ∨ ev.username = owner ev.sessionID) (d : Direction) :
    s.ledger.billedTo ev = owner ev.sessionID ∨ charge (s.ledger.cursor ev.sessionID d) ev d = 0 := by
  unfold Ledger.billedTo
  by_cases hblank : ev.username = ""
  · cases hget : s.ledger.sessions.get? ev.sessionID with
    | none => exact .inr (by simp [Ledger.cursor, hget, charge, hblank])
    | some cur =>
      rw [if_pos hblank]
      exact .inl (h.owned _ cur hget)
  · rw [if_neg hblank]
    exact .inl (hname.resolve_left hblank)

theorem sum_indicator {l : List String} (hl : l.Nodup) (k : String) (m : Int) :
    (l.map fun i => if k = i then m else 0).sum = if k ∈ l then m else 0 := by
  induction l with
  | nil => rfl
  | cons i l ih =>
    rw [nodup_cons] at hl
    rw [map_cons, sum_cons, ih hl.2]
    by_cases hk : k = i
    · subst hk
      simp [hl.1]
    · simp [hk]

section Shares

variable {owner : String → String} {ids : List String} (hids : ids.Nodup) (hblank : "" ∉ ids)

include hids hblank

theorem billed_step {s : Books} (h : s.Kept owner) {c : Call} (hc : c.Fits owner)
    (hmem : ∀ ev, c.event? = some ev → ev.sessionID ≠ "" → ev.sessionID ∈ ids) (user : String) (d : Direction) :
    (s.step c).billed user d = s.billed user d + ((ids.filter fun id => owner id = user).map fun id => s.charged id d c).sum := by
  cases c with
  | drain =>
    have hzero : ((ids.filter fun id => owner id = user).map fun id => s.charged id d .drain).sum = 0 :=
      sum_eq_zero (by simp [Books.charged, Call.event?])
    rw [hzero, Int.add_zero]
    show ((s.drained ++ s.ledger.drain.1).filter _ |>.map _).sum + Ledger.amount s.ledger.drain.2 user d = _
    rw [filter_append, map_append, sum_append, sum_drain h.named]
    exact Int.add_zero _
  | sessions now =>
    have hzero : ((ids.filter fun id => owner id = user).map fun id => s.charged id d (.sessions now)).sum = 0 :=
      sum_eq_zero (by simp [Books.charged, Call.event?])
    rw [hzero, Int.add_zero]
    rfl
  | apply now ev =>
    have hsum : ((ids.filter fun id => owner id = user).map fun id => s.charged id d (.apply now ev)).sum =
        if ev.sessionID ∈ ids.filter (fun id => owner id = user) then charge (s.ledger.cursor ev.sessionID d) ev d else 0 := by
      rw [← sum_indicator (hids.filter _)]
      refine congrArg List.sum (map_congr_left fun id _ => ?_)
      show (if ev.sessionID = id then _ else 0) = _
      by_cases hid : ev.sessionID = id
      · rw [if_pos hid, if_pos hid, hid]
      · rw [if_neg hid, if_neg hid]
    rw [hsum]
    by_cases hid : ev.sessionID = ""
    · have hnot : ev.sessionID ∉ ids.filter (fun id => owner id = user) := fun hmem => hblank (hid ▸ (mem_filter.mp hmem).1)
      rw [if_neg hnot, Int.add_zero]
      show Books.billed ⟨s.ledger.apply now ev, s.drained⟩ user d = _
      rw [apply_of_blank _ _ _ hid]
    · obtain ⟨hin, hout, hname⟩ := hc ev rfl hid
      have hfilter : ev.sessionID ∈ ids.filter (fun id => owner id = user) ↔ owner ev.sessionID = user := by
        simp [mem_filter, hmem ev rfl hid]
      have hbilled : (if s.ledger.billedTo ev = user then charge (s.ledger.cursor ev.sessionID d) ev d else 0) =
          if ev.sessionID ∈ ids.filter (fun id => owner id = user) then charge (s.ledger.cursor ev.sessionID d) ev d else 0 := by
        simp only [hfilter]
        rcases h.billedTo hname d with hto | hzero
        · rw [hto]
        · rw [hzero, ite_self, ite_self]
      rw [← hbilled]
      show _ + Ledger.amount (s.ledger.apply now ev) user d = _
      rw [amount_apply s.ledger now ev hid hin hout, ← Int.add_assoc]
      rfl

end Shares

theorem mem_stream {id : String} {calls : List Call} {ev : Event} :
    ev ∈ stream id calls ↔ (∃ c ∈ calls, c.event? = some ev) ∧ ev.sessionID = id := by
  simp [stream, mem_filter, mem_filterMap]

theorem mem_sessionIDs {calls : List Call} {id : String} :
    id ∈ sessionIDs calls ↔ (∃ c ∈ calls, ∃ ev, c.event? = some ev ∧ ev.sessionID = id) ∧ id ≠ "" := by
  simp only [sessionIDs, List.mem_dedup, List.mem_filter, List.mem_map, List.mem_filterMap, decide_eq_true_eq]
  constructor
  · rintro ⟨⟨ev, ⟨c, hc, hev⟩, hid⟩, hne⟩
    exact ⟨⟨c, hc, ev, hev, hid⟩, hne⟩
  · rintro ⟨⟨c, hc, ev, hev, hid⟩, hne⟩
    exact ⟨⟨ev, ⟨c, hc, hev⟩, hid⟩, hne⟩

theorem cursor_after_stop {id : String} (hid : id ≠ "") {pre : List Call} (h : InOrder (stream id pre)) {stop : Event}
    (hmem : stop ∈ stream id pre) (hstop : stop.status = .stop) (s : Books) (d : Direction) :
    (Run.after Books.step s pre).ledger.cursor id d = none := by
  obtain ⟨⟨c, hc, hev⟩, hsession⟩ := mem_stream.mp hmem
  obtain ⟨first, rest, rfl⟩ := append_of_mem hc
  subst hsession
  have hrest : ∀ r ∈ stream stop.sessionID rest, r.status = .stop := by
    have hsplit : stream stop.sessionID (first ++ c :: rest) = stream stop.sessionID first ++ stop :: stream stop.sessionID rest := by
      have hcons := stream_cons_of_event hev stop.sessionID rest
      rw [if_pos rfl] at hcons
      rw [← hcons]
      simp [stream, filterMap_append]
    rw [hsplit] at h
    exact InOrder.stops ⟨fun r hr => h.nonneg r (mem_append_right _ hr), (pairwise_append.mp h.sorted).2.1⟩ hstop
  rw [Run.after_append, Run.after_cons]
  refine Run.inv_after_of_mem (I := fun s : Books => s.ledger.cursor stop.sessionID d = none) (fun t b hb ht => ?_) ?_
  · cases b with
    | apply now ev =>
      by_cases hsame : ev.sessionID = stop.sessionID
      · have hstops := hrest ev (mem_stream.mpr ⟨⟨_, hb, rfl⟩, hsame⟩)
        have hnext := cursor_apply t.ledger now ev (hsame ▸ hid) d
        rw [nextCursor, if_pos (.inr hstops), hsame] at hnext
        exact hnext
      · exact (cursor_apply_of_ne t.ledger now ev (Ne.symm hsame) d).trans ht
    | drain => exact ht
    | sessions now => exact (cursor_list t.ledger now _ d).elim (fun hsame => hsame.trans ht) And.right
  · cases c with
    | apply now ev =>
      obtain rfl := Option.some.inj hev
      have hnext := cursor_apply (Run.after Books.step s first).ledger now ev hid d
      rw [nextCursor, if_pos (.inr hstop)] at hnext
      exact hnext
    | drain | sessions => cases hev

/-- The bytes of a user over every run are those of its sessions.  They are billed exactly if no session is dropped, and never more
than once if a Start has no bytes yet; a Stop of a session that a Stop has closed bills nothing. -/
theorem ledger_conserves (tag : String) (stale : Int) (calls : List Call) (owner : String → String)
    (horder : ∀ id, id ≠ "" → InOrder (stream id calls))
    (howner : ∀ id, id ≠ "" → ∀ ev ∈ stream id calls, ev.username = "" ∨ ev.username = owner id) (user : String) (d : Direction) :
    (stale = 0 → (Run.after Books.step (Books.new tag stale) calls).billed user d =
        (((sessionIDs calls).filter fun id => owner id = user).map fun id => due d (stream id calls)).sum) ∧
      ((∀ id, id ≠ "" → ∀ ev ∈ stream id calls, ev.status = .start → ev.inBytes = 0 ∧ ev.outBytes = 0) →
        (Run.after Books.step (Books.new tag stale) calls).billed user d ≤
          (((sessionIDs calls).filter fun id => owner id = user).map fun id => due d (stream id calls)).sum) ∧
      ∀ pre now ev post, calls = pre ++ .apply now ev :: post → ev.status = .stop →
        (∃ stop ∈ stream ev.sessionID pre, stop.status = .stop) →
        (Run.after Books.step (Books.new tag stale) (pre ++ [.apply now ev])).billed user d =
          (Run.after Books.step (Books.new tag stale) pre).billed user d := by
  have hfits : ∀ c ∈ calls, c.Fits owner := by
    intro c hc ev hev hid
    have hmem := mem_stream.mpr ⟨⟨c, hc, hev⟩, rfl⟩
    have hnonneg := (horder ev.sessionID hid).nonneg ev hmem
    exact ⟨hnonneg.1, hnonneg.2, howner ev.sessionID hid ev hmem⟩
  have hkept : (Books.new tag stale).Kept owner := ⟨fun _ _ hget => (nomatch hget), fun _ _ hget => (nomatch hget)⟩
  have hblank : "" ∉ sessionIDs calls := fun hmem => (mem_sessionIDs.mp hmem).2 rfl
  have hids : (sessionIDs calls).Nodup := nodup_dedup _
  have hcovers : ∀ c ∈ calls, ∀ ev, c.event? = some ev → ev.sessionID ≠ "" → ev.sessionID ∈ sessionIDs calls :=
    fun c hc ev hev hid => mem_sessionIDs.mpr ⟨⟨c, hc, ev, hev, rfl⟩, hid⟩
  -- the bill of the user is the total of the bills of its sessions
  have hbilled : (Run.after Books.step (Books.new tag stale) calls).billed user d =
      (((sessionIDs calls).filter fun id => owner id = user).map fun id =>
        Run.total Books.step (Books.charged id d) (Books.new tag stale) calls).sum := by
    have hadd := Run.add_total_along (I := fun s : Books => s.Kept owner)
      (C := fun _ c => c.Fits owner ∧ ∀ ev, c.event? = some ev → ev.sessionID ≠ "" → ev.sessionID ∈ sessionIDs calls)
      (g := fun s : Books => s.billed user d) (fun s c hc hs => hs.step hc.1) (fun s c hc hs => billed_step hids hblank hs hc.1 hc.2 user d) hkept
      (Run.along_of_forall_mem (fun c hc _ => ⟨hfits c hc, hcovers c hc⟩) _)
    rw [Run.total_sum] at hadd
    rw [hadd]
    exact Int.zero_add _
  have hsession : ∀ id ∈ (sessionIDs calls).filter (fun id => owner id = user), _ := fun id hid =>
    total_charged (mem_sessionIDs.mp (mem_filter.mp hid).1).2 (d := d)
      (horder id (mem_sessionIDs.mp (mem_filter.mp hid).1).2) (s := Books.new tag stale) (fun _ hnone => nomatch hnone)
  rw [hbilled]
  refine ⟨fun hstale => congrArg List.sum (map_congr_left fun id hid => (hsession id hid).1 hstale.le), fun hstart => ?_, ?_⟩
  · refine sum_le_sum fun id hid => (hsession id hid).2 fun ev hev hstatus => ?_
    cases d
    · exact (hstart id (mem_sessionIDs.mp (mem_filter.mp hid).1).2 ev hev hstatus).1
    · exact (hstart id (mem_sessionIDs.mp (mem_filter.mp hid).1).2 ev hev hstatus).2
  · rintro pre now ev post rfl hstop ⟨stop, hmem, hclosed⟩
    rw [Run.after_concat]
    by_cases hid : ev.sessionID = ""
    · show Books.billed ⟨Ledger.apply _ now ev, _⟩ user d = _
      rw [apply_of_blank _ _ _ hid]
    · have horder' : InOrder (stream ev.sessionID pre) := by
        have hall := horder ev.sessionID hid
        have happend : stream ev.sessionID (pre ++ .apply now ev :: post) = stream ev.sessionID pre ++ stream ev.sessionID (.apply now ev :: post) := by
          simp [stream, filterMap_append]
        rw [happend] at hall
        exact ⟨fun r hr => hall.nonneg r (mem_append_left _ hr), (pairwise_append.mp hall.sorted).1⟩
      have hcursor := cursor_after_stop hid horder' hmem hclosed (Books.new tag stale) d
      obtain ⟨hin, hout, -⟩ := hfits (.apply now ev) (mem_append_right _ mem_cons_self) ev rfl hid
      show _ + Ledger.amount (Ledger.apply _ now ev) user d = _
      rw [amount_apply _ now ev hid hin hout, hcursor]
      have hzero : charge none ev d = 0 := if_neg fun hand => by rw [hstop] at hand; cases hand.2
      rw [hzero, ite_self, Int.add_zero]
      rfl

namespace Sample

def record (status : Status) (username : String) (inBytes : Int) : Event := ⟨status, "s1", username, ⟨none, none⟩, inBytes, 0⟩

def calls : List Call :=
  [.apply 1 (record .start "ann" 0), .apply 2 (record .interim "ann" 10), .drain, .sessions 3, .apply 4 (record .interim "" 15),
    .apply 5 (record .stop "ann" 20), .apply 6 (record .stop "ann" 20)]

theorem stream_of_ne {id : String} (h : id ≠ "s1") : stream id calls = [] :=
  filter_eq_nil_iff.mpr fun ev hev => by
    have hsession : ∀ ev ∈ calls.filterMap Call.event?, ev.sessionID = "s1" := by decide
    rw [decide_eq_true_eq, hsession ev hev]
    exact Ne.symm h

theorem inOrder (id : String) : InOrder (stream id calls) := by
  by_cases h : id = "s1"
  · subst h
    exact ⟨by decide, by decide⟩
  · rw [stream_of_ne h]
    exact ⟨forall_mem_nil _, .nil⟩

theorem named (id : String) : ∀ ev ∈ stream id calls, ev.username = "" ∨ ev.username = "ann" := by
  by_cases h : id = "s1"
  · subst h
    decide
  · rw [stream_of_ne h]
    exact forall_mem_nil _

end Sample

theorem ledger_conserves_one :
    (Run.after Books.step (Books.new "radius" 0) Sample.calls).billed "ann" .up = 20 ∧
      (((sessionIDs Sample.calls).filter fun _ => "ann" = "ann").map fun id => due .up (stream id Sample.calls)).sum = 20 ∧
      (Run.after Books.step (Books.new "radius" 0) Sample.calls).billed "ann" .up =
        (((sessionIDs Sample.calls).filter fun _ => "ann" = "ann").map fun id => due .up (stream id Sample.calls)).sum :=
  ⟨by decide +kernel, by decide +kernel,
    (ledger_conserves "radius" 0 Sample.calls (fun _ => "ann") (fun id _ => Sample.inOrder id) (fun id _ => Sample.named id) "ann" .up).1 rfl⟩

/-- A Start with bytes that is delivered twice, with the session dropped in between, is billed twice. -/
theorem repeated_start_billed_twice :
    let calls : List Call := [.apply 0 (Sample.record .start "ann" 5), .sessions 100, .apply 101 (Sample.record .start "ann" 5)]
    (Run.after Books.step (Books.new "radius" 10) calls).billed "ann" .up = 10 ∧ due .up (stream "s1" calls) = 5 := by
  decide +kernel

end Radius

end Pui
