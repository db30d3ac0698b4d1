import Mathlib.Data.List.Infix
import Mathlib.Data.List.TakeWhile
import Mathlib.Tactic.Common
import Pui.Backing
import Pui.Run

/-!
# Metered streams

A connection of a client is wrapped so that every byte passes through the client's account.
-/

namespace Pui

open Guard Crash Crash.Prog List Option

namespace Account

variable {dir : Direction} {requested : Int} {upTo : Bool} {turn : Turn} {reserved : Except NodeError Unit} {o : Option Nat}

def admitted (a : Account) : Direction → Nat
  | .upload => a.uploaded
  | .download => a.downloaded

/-- A turn of `take`, by what the reservation answers. -/
def takeTurn (a : Account) (dir : Direction) (requested : Int) (upTo : Bool) (turn : Turn) (reserved : Except NodeError Unit) :
    Except NodeError (Option Nat × Account) := do
  match ← a.turn dir requested upTo turn with
  | none => return (none, a)
  | some n => do
    reserved
    return (some n, a.consume dir n)

/-- Bytes of one direction. -/
def bytes (dir : Direction) (n : Nat) (d : Direction) : Nat := if d = dir then n else 0

theorem admitted_consume (a : Account) (dir d : Direction) (n : Nat) : (a.consume dir n).admitted d = a.admitted d + bytes dir n d := by
  cases dir <;> cases d <;> rfl

theorem takeTurn_eq_ok {a a' : Account} (h : a.takeTurn dir requested upTo turn reserved = .ok (o, a')) :
    o = none ∧ a' = a ∨ ∃ n, o = some n ∧ n ≤ requested.toNat ∧ a' = a.consume dir n := by
  simp only [takeTurn, bind_eq_ok] at h
  obtain ⟨o', ho, h⟩ := h
  cases o' with
  | none =>
    simp only [pure_eq_ok, Prod.mk.injEq] at h
    exact .inl ⟨h.1.symm, h.2.symm⟩
  | some n =>
    simp only [unit_bind_eq_ok, pure_eq_ok, Prod.mk.injEq] at h
    exact .inr ⟨n, h.2.1.symm, turn_eq_ok ho ▸ Int.toNat_le_toNat (takeSize_le ..), h.2.2.symm⟩

theorem admitted_le_consume (a : Account) (dir : Direction) (n : Nat) (d : Direction) : a.admitted d ≤ (a.consume dir n).admitted d := by
  rw [admitted_consume]
  exact Nat.le_add_right _ _

theorem admitted_le_of_takeTurn {a a' : Account} (h : a.takeTurn dir requested upTo turn reserved = .ok (o, a'))
    (d : Direction) : a.admitted d ≤ a'.admitted d := by
  rcases takeTurn_eq_ok h with ⟨-, rfl⟩ | ⟨n, -, -, rfl⟩
  · exact le_rfl
  · exact admitted_le_consume a dir n d

end Account

structure Meter where
  account : Account
  measured : Direction → Nat
  within : ∀ d, measured d ≤ account.admitted d

namespace Meter

def record (m : Meter) (dir : Direction) (n : Int) : Meter where
  account := m.account
  measured d := if d = dir ∧ 0 < n then m.measured d + min n.toNat (m.account.admitted d - m.measured d) else m.measured d
  within d := by
    have := m.within d
    split <;> omega

def withAccount (m : Meter) (a : Account) (h : ∀ d, m.account.admitted d ≤ a.admitted d) : Meter :=
  ⟨a, m.measured, fun d => (m.within d).trans (h d)⟩

def consume (m : Meter) (dir : Direction) (n : Nat) : Meter :=
  m.withAccount (m.account.consume dir n) (m.account.admitted_le_consume dir n)

theorem measured_record {m : Meter} {d : Direction} {n : Nat} (hroom : m.measured d + Account.bytes dir n d ≤ m.account.admitted d) :
    (m.record dir n).measured d = m.measured d + Account.bytes dir n d := by
  unfold Account.bytes at hroom ⊢
  by_cases hd : d = dir
  · rw [if_pos hd] at hroom ⊢
    simp only [record, hd, true_and]
    rw [hd] at hroom
    split <;> omega
  · simp [record, hd]

def takeTurn (m : Meter) (dir : Direction) (requested : Int) (upTo : Bool) (turn : Turn) (reserved : Except NodeError Unit) :
    Except NodeError (Option Nat × Meter) :=
  match h : m.account.takeTurn dir requested upTo turn reserved with
  | .error e => .error e
  | .ok (o, a) => .ok (o, m.withAccount a (Account.admitted_le_of_takeTurn h))

theorem takeTurn_eq_ok {m m' : Meter} (h : m.takeTurn dir requested upTo turn reserved = .ok (o, m')) :
    o = none ∧ m' = m ∨ ∃ n, o = some n ∧ n ≤ requested.toNat ∧ m' = m.consume dir n := by
  unfold takeTurn at h
  split at h
  · cases h
  · next a hturn =>
    simp only [Except.ok.injEq, Prod.mk.injEq] at h
    obtain ⟨rfl, rfl⟩ := h
    rcases Account.takeTurn_eq_ok hturn with ⟨ho, rfl⟩ | ⟨n, ho, hn, rfl⟩
    · exact .inl ⟨ho, rfl⟩
    · exact .inr ⟨n, ho, hn, rfl⟩

end Meter

inductive AccountUse where
  | take (dir : Direction) (requested : Int) (upTo : Bool) (turn : Turn) (reserved : Except NodeError Unit)
  | record (dir : Direction) (n : Int)
  | apply (p : Policy)
  | quarantine

def Meter.use (m : Meter) : AccountUse → Meter
  | .take dir requested upTo turn reserved =>
    match m.takeTurn dir requested upTo turn reserved with
    | .ok (_, m') => m'
    | .error _ => m
  | .record dir n => m.record dir n
  | .apply p =>
    if (p.validate >>= fun _ => checkApply m.account.policy p).isOk then m.withAccount (m.account.install p) fun d => by cases d <;> exact le_rfl
    else m
  | .quarantine => m.withAccount m.account.quarantine fun d => by cases d <;> exact le_rfl

inductive StreamError where
  | account (e : NodeError)
  | underlying (text : String)
  | shortWrite
  deriving DecidableEq

inductive Reading where
  | idle
  | fetching (room : Nat)
  | taking (chunk : List UInt8)
  | admitted (chunk : List UInt8) (allowed : Nat)
  | recorded (piece : List UInt8)
  deriving DecidableEq

/-- The reading half of a connection, with what was fetched and what was returned. -/
structure Reader where
  phase : Reading := .idle
  pending : List UInt8 := []
  readErr : Option String := none
  fetched : List UInt8 := []
  log : List (List UInt8 × Option StreamError) := []

namespace Reader

def answer (r : Reader) (bytes : List UInt8) (err : Option StreamError) : Reader :=
  { r with phase := .idle, log := r.log ++ [(bytes, err)] }

def read (r : Reader) (size : Nat) : Reader :=
  if size = 0 then { r with log := r.log ++ [([], none)] }
  else match r.phase with
    | .idle =>
      if r.pending ≠ [] then { r with phase := .taking (r.pending.take size), pending := r.pending.drop size }
      else if r.readErr.isSome then r.answer [] (r.readErr.map .underlying)
      else { r with phase := .fetching size }
    | _ => r

def fetch (r : Reader) (bytes : List UInt8) (err : Option String) : Reader :=
  match r.phase with
  | .fetching room =>
    if bytes.length ≤ room then
      let r := { r with readErr := err, fetched := r.fetched ++ bytes }
      if bytes = [] then r.answer [] (err.map .underlying) else { r with phase := .taking bytes }
    else r
  | _ => r

def held (r : Reader) : List UInt8 :=
  match r.phase with
  | .idle | .fetching _ => []
  | .taking chunk | .admitted chunk _ => chunk
  | .recorded piece => piece

def returned (r : Reader) : List UInt8 := r.log.flatMap (·.1)

def untilError (r : Reader) : List UInt8 := (r.log.takeWhile (·.2.isNone)).flatMap (·.1)

end Reader

structure WriteCall where
  data : List UInt8
  handed : Nat
  total : Nat
  deriving DecidableEq

def WriteCall.accepted (c : WriteCall) : List UInt8 := c.data.take c.total

inductive Writing where
  | idle
  | taking (call : WriteCall)
  | admitted (call : WriteCall) (allowed : Nat)
  | wrote (call : WriteCall) (allowed n : Nat) (err : Option String)
  deriving DecidableEq

structure StreamWriter where
  direction : Direction
  phase : Writing := .idle
  received : List UInt8 := []
  log : List (WriteCall × Option StreamError) := []

namespace StreamWriter

def answer (w : StreamWriter) (call : WriteCall) (err : Option StreamError) : StreamWriter :=
  { w with phase := .idle, log := w.log ++ [(call, err)] }

def loop (w : StreamWriter) (call : WriteCall) : StreamWriter :=
  if call.data.drop call.total = [] then w.answer call none else { w with phase := .taking call }

def write (w : StreamWriter) (data : List UInt8) : StreamWriter :=
  match w.phase with
  | .idle => w.loop ⟨data, 0, 0⟩
  | _ => w

def push (w : StreamWriter) (n : Nat) (err : Option String) : StreamWriter :=
  match w.phase with
  | .admitted call allowed =>
    if n ≤ allowed then
      { w with
        phase := .wrote { call with handed := call.total + allowed } allowed n err
        received := w.received ++ (call.data.drop call.total).take n }
    else w
  | _ => w

def proceed (w : StreamWriter) (call : WriteCall) (allowed n : Nat) (err : Option String) : StreamWriter :=
  let call := { call with total := call.total + n }
  if err.isSome then w.answer call (err.map .underlying)
  else if n ≠ allowed then w.answer call (some .shortWrite)
  else w.loop call

end StreamWriter

structure Streams where
  meter : Meter
  granted : Direction → Nat := fun _ => 0
  reader : Reader := {}
  writer : StreamWriter

inductive StreamAction where
  | read (size : Nat)
  | fetch (bytes : List UInt8) (err : Option String)
  | admitRead (turn : Turn) (reserved : Except NodeError Unit)
  | recordRead
  | returnRead
  | write (data : List UInt8)
  | admitWrite (turn : Turn) (reserved : Except NodeError Unit)
  | push (n : Nat) (err : Option String)
  | recordWrite
  | use (u : AccountUse)

def StreamAction.Alone : StreamAction → Prop
  | .use (.record _ _) => False
  | _ => True

namespace Streams

def enterTurn (s : Streams) (dir : Direction) (turned : Except NodeError (Option Nat × Meter)) (refused : NodeError → Streams → Streams)
    (admitted : Nat → Streams → Streams) : Streams :=
  match turned with
  | .error e => refused e s
  | .ok (none, m) => { s with meter := m }
  | .ok (some n, m) => admitted n { s with meter := m, granted := fun d => if d = dir then s.granted d + n else s.granted d }

def step (s : Streams) : StreamAction → Streams
  | .read size => { s with reader := s.reader.read size }
  | .fetch bytes err => { s with reader := s.reader.fetch bytes err }
  | .admitRead turn reserved =>
    match s.reader.phase with
    | .taking chunk =>
      s.enterTurn .upload (s.meter.takeTurn .upload chunk.length true turn reserved)
        (fun e s => { s with reader := s.reader.answer [] (some (.account e)) })
        fun allowed s => { s with reader := { s.reader with phase := .admitted chunk allowed } }
    | _ => s
  | .recordRead =>
    match s.reader.phase with
    | .admitted chunk allowed => { s with
        meter := s.meter.record .upload allowed
        reader := { s.reader with phase := .recorded (chunk.take allowed), pending := chunk.drop allowed ++ s.reader.pending } }
    | _ => s
  | .returnRead =>
    match s.reader.phase with
    | .recorded piece => { s with reader := s.reader.answer piece none }
    | _ => s
  | .write data => { s with writer := s.writer.write data }
  | .admitWrite turn reserved =>
    match s.writer.phase with
    | .taking call =>
      s.enterTurn s.writer.direction (s.meter.takeTurn s.writer.direction (call.data.drop call.total).length true turn reserved)
        (fun e s => { s with writer := s.writer.answer call (some (.account e)) })
        fun allowed s => { s with writer := { s.writer with phase := .admitted call allowed } }
    | _ => s
  | .push n err => { s with writer := s.writer.push n err }
  | .recordWrite =>
    match s.writer.phase with
    | .wrote call allowed n err => { s with
        meter := s.meter.record s.writer.direction n
        writer := s.writer.proceed call allowed n err }
    | _ => s
  | .use u => { s with meter := s.meter.use u }

def delivered (s : Streams) (d : Direction) : Nat :=
  (if d = .upload then s.reader.returned.length else 0) + (if d = s.writer.direction then s.writer.received.length else 0)

end Streams

namespace Reader

variable {r r' : Reader} {bytes : List UInt8} {err : Option StreamError}

theorem untilError_of_clean (h : ∀ x ∈ r.log, x.2 = none) : r.untilError = r.returned := by
  have hall : r.log.takeWhile (·.2.isNone) = r.log := by
    rw [takeWhile_eq_self_iff]
    intro x hx
    rw [h x hx]
    rfl
  rw [untilError, hall, returned]

theorem untilError_append (hlog : r'.log = r.log ++ [(bytes, err)]) :
    r'.untilError = r.untilError ∨ (err = none ∧ (∀ x ∈ r.log, x.2 = none) ∧ r'.untilError = r.returned ++ bytes) := by
  by_cases hclean : ∀ x ∈ r.log, x.2 = none
  · cases err with
    | none =>
      refine .inr ⟨rfl, hclean, ?_⟩
      rw [untilError_of_clean, returned, returned, hlog, flatMap_append, flatMap_singleton]
      intro x hx
      rw [hlog, mem_append, mem_singleton] at hx
      rcases hx with hx | rfl
      · exact hclean x hx
      · rfl
    | some e =>
      refine .inl ?_
      rw [untilError, hlog, takeWhile_append_of_pos]
      · rw [untilError_of_clean hclean]
        simp [returned]
      · intro x hx
        rw [hclean x hx]
        rfl
  · refine .inl ?_
    push Not at hclean
    obtain ⟨x, hx, hne⟩ := hclean
    have hshort : (r.log.takeWhile (·.2.isNone)).length ≠ r.log.length := by
      intro heq
      have hself := ( takeWhile_prefix (·.2.isNone) (l := r.log)).eq_of_length heq
      have := (takeWhile_eq_self_iff.mp hself) x hx
      exact hne (isNone_iff_eq_none.mp this)
    rw [untilError, hlog, takeWhile_append, if_neg hshort, untilError]

def Counts (pending : List UInt8) : Reading → Prop
  | .fetching _ => pending = []
  | .admitted chunk allowed => allowed ≤ chunk.length
  | _ => True

/-- Every fetched byte was returned, is held by a call or is pending. -/
structure Intact (r : Reader) : Prop where
  counts : Counts r.pending r.phase
  whole : (∀ x ∈ r.log, x.2 = none) → r.returned ++ (r.held ++ r.pending) = r.fetched
  front : r.untilError <+: r.fetched

theorem Intact.moved (h : r.Intact) (hlog : r'.log = r.log) (hcounts : Counts r'.pending r'.phase)
    (hwhole : ∃ bytes, r'.fetched = r.fetched ++ bytes ∧ r'.held ++ r'.pending = r.held ++ r.pending ++ bytes) : r'.Intact := by
  obtain ⟨bytes, hfetched, hheld⟩ := hwhole
  refine ⟨hcounts, fun hclean => ?_, ?_⟩
  · rw [hlog] at hclean
    rw [returned, hlog, hheld, hfetched, ← h.whole hclean, returned, append_assoc, append_assoc, append_assoc]
  · rw [untilError, hlog, hfetched]
    exact h.front.trans (prefix_append _ _)

theorem Intact.answered (h : r.Intact) (hlog : r'.log = r.log ++ [(bytes, err)])
    (hcounts : Counts r'.pending r'.phase) (hfetched : r.fetched <+: r'.fetched)
    (hwhole : err = none → (∀ x ∈ r.log, x.2 = none) → r.returned ++ bytes ++ (r'.held ++ r'.pending) = r'.fetched) : r'.Intact := by
  refine ⟨hcounts, fun hclean => ?_, ?_⟩
  · have hboth : (∀ x ∈ r.log, x.2 = none) ∧ err = none := by
      constructor
      · exact fun x hx => hclean x (by rw [hlog]; exact mem_append_left _ hx)
      · exact hclean (bytes, err) (by rw [hlog]; exact mem_append_right _ (mem_singleton_self _))
    rw [← hwhole hboth.2 hboth.1, returned, returned, hlog, flatMap_append, flatMap_singleton]
  · rcases untilError_append hlog with hsame | ⟨hok, hclean, hmore⟩
    · rw [hsame]
      exact h.front.trans hfetched
    · rw [hmore, ← hwhole hok hclean]
      exact prefix_append _ _

theorem Intact.read (h : r.Intact) (size : Nat) : (r.read size).Intact := by
  unfold Reader.read
  split
  · refine h.answered rfl h.counts prefix_rfl fun _ hclean => ?_
    rw [append_nil]
    exact h.whole hclean
  · split
    · next hphase =>
      split
      · refine h.moved rfl trivial ⟨[], (append_nil _).symm, ?_⟩
        simp [held, hphase]
      · next hpending =>
        have hpending : r.pending = [] := not_not.mp hpending
        split
        · next herr =>
          refine h.answered rfl trivial prefix_rfl fun hnone _ => ?_
          rw [map_eq_none_iff.mp hnone] at herr
          exact absurd herr (by decide)
        · refine h.moved rfl hpending ⟨[], (append_nil _).symm, ?_⟩
          simp [held, hphase]
    · exact h

theorem Intact.fetch (h : r.Intact) (bytes : List UInt8) (err : Option String) : (r.fetch bytes err).Intact := by
  unfold Reader.fetch
  split
  · next room hphase =>
    have hpending : r.pending = [] := by simpa [Counts, hphase] using h.counts
    have hheld : r.held = [] := by simp [held, hphase]
    split
    · split
      · next hbytes =>
        subst hbytes
        refine h.answered rfl trivial (prefix_append _ _) fun _ hclean => ?_
        have hwhole := h.whole hclean
        rw [hheld] at hwhole
        simpa [answer, held] using hwhole
      · refine h.moved rfl trivial ⟨bytes, rfl, ?_⟩
        simp [held, hphase, hpending]
    · exact h
  · exact h

theorem Intact.refused (h : r.Intact) (e : StreamError) : (r.answer [] (some e)).Intact :=
  h.answered rfl trivial prefix_rfl fun hnone => nomatch hnone

end Reader

namespace StreamWriter

variable {w : StreamWriter} {call : WriteCall} {err : Option StreamError}

def current (w : StreamWriter) : List UInt8 :=
  match w.phase with
  | .idle => []
  | .taking call | .admitted call _ => call.accepted
  | .wrote call _ n _ => call.data.take (call.total + n)

def accepted (w : StreamWriter) : List UInt8 := w.log.flatMap (·.1.accepted) ++ w.current

end StreamWriter

def WriteCall.Ended (c : WriteCall) (err : Option StreamError) : Prop :=
  c.total ≤ c.handed ∧ c.handed ≤ c.data.length ∧ (err = none → c.total = c.data.length) ∧
    ∀ e, err = some (.account e) → c.total = c.handed

namespace StreamWriter

variable {w : StreamWriter} {call : WriteCall} {err : Option StreamError}

def Counts : Writing → Prop
  | .idle => True
  | .taking c => c.handed = c.total ∧ c.total ≤ c.data.length
  | .admitted c allowed => c.handed = c.total ∧ c.total + allowed ≤ c.data.length
  | .wrote c allowed n _ => n ≤ allowed ∧ c.handed = c.total + allowed ∧ c.handed ≤ c.data.length

structure Exact (w : StreamWriter) : Prop where
  received : w.received = w.accepted
  ended : ∀ x ∈ w.log, x.1.Ended x.2
  counts : Counts w.phase

theorem exact_answer (hended : ∀ x ∈ w.log, x.1.Ended x.2) (hcall : call.Ended err)
    (hreceived : w.received = w.log.flatMap (·.1.accepted) ++ call.accepted) : (w.answer call err).Exact := by
  refine ⟨?_, ?_, trivial⟩
  · simp [answer, accepted, current, hreceived]
  · intro x hx
    rw [answer, mem_append, mem_singleton] at hx
    rcases hx with hx | rfl
    · exact hended x hx
    · exact hcall

theorem exact_loop (hended : ∀ x ∈ w.log, x.1.Ended x.2) (hhanded : call.handed = call.total)
    (htotal : call.total ≤ call.data.length)
    (hreceived : w.received = w.log.flatMap (·.1.accepted) ++ call.accepted) : (w.loop call).Exact := by
  unfold loop
  split
  · next hrest =>
    have hall : call.data.length ≤ call.total := drop_eq_nil_iff.mp hrest
    refine exact_answer hended ⟨hhanded.ge, hhanded ▸ htotal, fun _ => ?_, fun e he => nomatch he⟩ hreceived
    omega
  · exact ⟨hreceived, hended, hhanded, htotal⟩

theorem Exact.write (h : w.Exact) (data : List UInt8) : (w.write data).Exact := by
  unfold StreamWriter.write
  split
  · next hphase =>
    refine exact_loop h.ended rfl (Nat.zero_le _) ?_
    rw [h.received, accepted, current, hphase]
    rfl
  · exact h

theorem Exact.push (h : w.Exact) (n : Nat) (err : Option String) : (w.push n err).Exact := by
  unfold StreamWriter.push
  split
  · next call allowed hphase =>
    split
    · next hn =>
      have hcounts := h.counts
      rw [hphase] at hcounts
      obtain ⟨hhanded, hroom⟩ := hcounts
      refine ⟨?_, h.ended, hn, rfl, hroom⟩
      have hreceived := h.received
      simp only [accepted, current, hphase, WriteCall.accepted] at hreceived ⊢
      rw [hreceived, append_assoc, take_add]
    · exact h
  · exact h

theorem Exact.proceed (h : w.Exact) {allowed n : Nat} {err : Option String} (hphase : w.phase = .wrote call allowed n err) :
    (w.proceed call allowed n err).Exact := by
  have hcounts := h.counts
  rw [hphase] at hcounts
  obtain ⟨hn, hhanded, hroom⟩ := hcounts
  have hreceived : w.received = w.log.flatMap (·.1.accepted) ++ call.data.take (call.total + n) := by
    rw [h.received, accepted, current, hphase]
  unfold StreamWriter.proceed
  split
  · next herr =>
    refine exact_answer h.ended ⟨?_, hroom, ?_, ?_⟩ hreceived
    · dsimp only
      omega
    · intro hnone
      rw [map_eq_none_iff.mp hnone] at herr
      exact absurd herr (by decide)
    · intro e he
      obtain ⟨_, -, hne⟩ := map_eq_some_iff.mp he
      cases hne
  · split
    · refine exact_answer h.ended ⟨?_, hroom, by rintro ⟨⟩, by rintro _ ⟨⟩⟩ hreceived
      dsimp only
      omega
    · next heq =>
      refine exact_loop h.ended ?_ ?_ hreceived
      · dsimp only
        omega
      · dsimp only
        omega

end StreamWriter

namespace Reader

variable {r : Reader}

/-- The bytes that were admitted and are not recorded. -/
def allowed (r : Reader) : Nat :=
  match r.phase with
  | .admitted _ allowed => allowed
  | _ => 0

/-- The bytes that were recorded and are not returned. -/
def unreturned (r : Reader) : Nat :=
  match r.phase with
  | .recorded piece => piece.length
  | _ => 0

def recorded (r : Reader) : Nat := r.returned.length + r.unreturned

def level (r : Reader) : Nat × Nat := (r.recorded, r.allowed)

theorem returned_answer (bytes : List UInt8) (err : Option StreamError) : (r.answer bytes err).returned = r.returned ++ bytes := by
  rw [returned, answer, flatMap_append, flatMap_singleton, returned]

theorem level_answer (bytes : List UInt8) (err : Option StreamError) (h : r.allowed = 0 ∧ r.unreturned = bytes.length) :
    (r.answer bytes err).level = r.level := by
  rw [level, level, recorded, recorded, returned_answer, length_append, h.1, h.2]
  rfl

theorem level_read (size : Nat) : (r.read size).level = r.level := by
  unfold read
  split
  · have hreturned : ({ r with log := r.log ++ [([], none)] } : Reader).returned = r.returned := by
      rw [returned, flatMap_append, flatMap_singleton, append_nil, returned]
    rw [level, level, recorded, recorded, hreturned]
    rfl
  · split
    · next hphase =>
      have hzero : r.allowed = 0 ∧ r.unreturned = 0 := by simp [allowed, unreturned, hphase]
      split
      · rw [level, level, recorded, recorded, hzero.1, hzero.2]
        rfl
      · split
        · exact level_answer [] _ hzero
        · rw [level, level, recorded, recorded, hzero.1, hzero.2]
          rfl
    · rfl

theorem level_fetch (bytes : List UInt8) (err : Option String) : (r.fetch bytes err).level = r.level := by
  unfold fetch
  split
  · next room hphase =>
    have hzero : r.allowed = 0 ∧ r.unreturned = 0 := by simp [allowed, unreturned, hphase]
    split
    · split
      · exact level_answer [] _ hzero
      · rw [level, level, recorded, recorded, hzero.1, hzero.2]
        rfl
    · rfl
  · rfl

end Reader

namespace StreamWriter

variable {w : StreamWriter} {call : WriteCall}

/-- The bytes that were admitted and are not recorded. -/
def allowed (w : StreamWriter) : Nat :=
  match w.phase with
  | .admitted _ allowed | .wrote _ allowed _ _ => allowed
  | _ => 0

/-- The bytes that were passed on and are not recorded. -/
def unrecorded (w : StreamWriter) : Nat :=
  match w.phase with
  | .wrote _ _ n _ => n
  | _ => 0

def recorded (w : StreamWriter) : Nat := w.received.length - w.unrecorded

def level (w : StreamWriter) : Direction × Nat × Nat := (w.direction, w.recorded, w.allowed)

theorem Exact.unrecorded_le (h : w.Exact) : w.unrecorded ≤ w.allowed ∧ w.unrecorded ≤ w.received.length := by
  have hcounts := h.counts
  rw [h.received, accepted, current, allowed, unrecorded]
  cases hphase : w.phase with
  | wrote call allowed n err =>
    rw [hphase] at hcounts
    obtain ⟨hn, hhanded, hroom⟩ := hcounts
    refine ⟨hn, ?_⟩
    rw [length_append, length_take]
    dsimp only
    omega
  | idle | taking | admitted => exact ⟨Nat.zero_le _, Nat.zero_le _⟩

theorem level_answer (err : Option StreamError) : (w.answer call err).level = (w.direction, w.received.length, 0) := rfl

theorem level_loop : (w.loop call).level = (w.direction, w.received.length, 0) := by
  unfold loop
  split
  · exact level_answer none
  · rfl

theorem level_proceed (allowed n : Nat) (err : Option String) :
    (w.proceed call allowed n err).level = (w.direction, w.received.length, 0) := by
  unfold proceed
  split
  · exact level_answer _
  · split
    · exact level_answer _
    · exact level_loop

theorem level_write (data : List UInt8) : (w.write data).level = w.level := by
  unfold write
  split
  · next hphase =>
    rw [level_loop]
    simp [level, recorded, unrecorded, allowed, hphase]
  · rfl

theorem level_push (h : w.Exact) (n : Nat) (err : Option String) : (w.push n err).level = w.level := by
  unfold push
  split
  · next call allowed hphase =>
    split
    · next hn =>
      have hcounts := h.counts
      rw [hphase] at hcounts
      have hlength : ((call.data.drop call.total).take n).length = n := by
        rw [length_take, length_drop]
        have := hcounts.2
        omega
      simp [level, recorded, unrecorded, StreamWriter.allowed, hphase, hlength]
    · rfl
  · rfl

end StreamWriter

namespace Streams

open Account (bytes)

variable {start : Meter} {s s' : Streams}

def per (s : Streams) (d : Direction) (reading writing : Nat) : Nat :=
  (if d = .upload then reading else 0) + (if d = s.writer.direction then writing else 0)

theorem per_mono {d : Direction} {x x' y y' : Nat} (hx : x ≤ x') (hy : y ≤ y') : s.per d x y ≤ s.per d x' y' := by
  simp only [per]
  split <;> split <;> omega

theorem per_add (d : Direction) (x x' y y' : Nat) : s.per d (x + x') (y + y') = s.per d x y + s.per d x' y' := by
  simp only [per]
  split <;> split <;> omega

theorem per_reading (d : Direction) (n : Nat) : s.per d n 0 = bytes .upload n d := by
  simp [per, bytes]

theorem per_writing (d : Direction) (n : Nat) : s.per d 0 n = bytes s.writer.direction n d := by
  simp [per, bytes]

def allowed (s : Streams) (d : Direction) : Nat := s.per d s.reader.allowed s.writer.allowed

def recorded (s : Streams) (d : Direction) : Nat := s.per d s.reader.recorded s.writer.recorded

/-- Every byte that was recorded or may be was admitted before. -/
structure Granted (start : Meter) (s : Streams) : Prop where
  covered : ∀ d, s.recorded d + s.allowed d ≤ s.granted d
  counted : ∀ d, start.account.admitted d + s.granted d ≤ s.meter.account.admitted d

/-- The measured usage is what was recorded, and there is room for what may be. -/
structure Billed (start : Meter) (s : Streams) : Prop where
  room : ∀ d, s.meter.measured d + s.allowed d ≤ s.meter.account.admitted d
  exact : ∀ d, s.meter.measured d = start.measured d + s.recorded d

/-- What a step does to the bytes of the calls: nothing, admit some of them, or record some of those that were admitted. -/
inductive Moves (alone : Prop) (s s' : Streams) : Prop where
  | idle (hadmitted : ∀ d, s.meter.account.admitted d ≤ s'.meter.account.admitted d)
      (hmeasured : alone → s'.meter.measured = s.meter.measured) (hgranted : s'.granted = s.granted)
      (hallowed : s'.allowed = s.allowed) (hrecorded : s'.recorded = s.recorded)
  | grant (dir : Direction) (n : Nat) (hmeter : s'.meter = s.meter.consume dir n)
      (hgranted : ∀ d, s'.granted d = s.granted d + bytes dir n d) (hallowed : ∀ d, s'.allowed d = s.allowed d + bytes dir n d)
      (hrecorded : s'.recorded = s.recorded)
  | record (dir : Direction) (n : Nat) (hmeter : s'.meter = s.meter.record dir n) (hgranted : s'.granted = s.granted)
      (hallowed : ∀ d, s'.allowed d + bytes dir n d ≤ s.allowed d)
      (hrecorded : ∀ d, s'.recorded d = s.recorded d + bytes dir n d)

theorem Granted.moves {alone : Prop} (h : Granted start s) (hm : Moves alone s s') : Granted start s' := by
  cases hm with
  | idle hadmitted _ hgranted hallowed hrecorded =>
    refine ⟨fun d => ?_, fun d => ?_⟩
    · rw [hgranted, hallowed, hrecorded]
      exact h.covered d
    · rw [hgranted]
      exact (h.counted d).trans (hadmitted d)
  | grant dir n hmeter hgranted hallowed hrecorded =>
    refine ⟨fun d => ?_, fun d => ?_⟩
    · have := h.covered d
      rw [hgranted, hallowed, hrecorded]
      omega
    · have := h.counted d
      rw [hgranted, hmeter, Meter.consume, Meter.withAccount, Account.admitted_consume]
      omega
  | record dir n hmeter hgranted hallowed hrecorded =>
    refine ⟨fun d => ?_, fun d => ?_⟩
    · have := h.covered d
      have := hallowed d
      rw [hgranted, hrecorded]
      omega
    · rw [hgranted, hmeter]
      exact h.counted d

theorem Billed.moves {alone : Prop} (h : Billed start s) (hm : Moves alone s s') (ha : alone) : Billed start s' := by
  cases hm with
  | idle hadmitted hmeasured _ hallowed hrecorded =>
    refine ⟨fun d => ?_, fun d => ?_⟩
    · rw [hmeasured ha, hallowed]
      exact (h.room d).trans (hadmitted d)
    · rw [hmeasured ha, hrecorded]
      exact h.exact d
  | grant dir n hmeter _ hallowed hrecorded =>
    refine ⟨fun d => ?_, fun d => ?_⟩
    · have := h.room d
      rw [hallowed, hmeter, Meter.consume, Meter.withAccount, Account.admitted_consume]
      dsimp only
      omega
    · rw [hrecorded, hmeter]
      exact h.exact d
  | record dir n hmeter _ hallowed hrecorded =>
    have hroom : ∀ d, s.meter.measured d + bytes dir n d ≤ s.meter.account.admitted d := by
      intro d
      have := h.room d
      have := hallowed d
      omega
    refine ⟨fun d => ?_, fun d => ?_⟩
    · have := h.room d
      have := hallowed d
      rw [hmeter, Meter.measured_record (hroom d)]
      change s.meter.measured d + bytes dir n d + s'.allowed d ≤ s.meter.account.admitted d
      omega
    · rw [hmeter, Meter.measured_record (hroom d), h.exact, hrecorded, Nat.add_assoc]

def Orderly (s : Streams) : Prop := s.reader.Intact ∧ s.writer.Exact

def grant (s : Streams) (dir : Direction) (n : Nat) : Streams :=
  { s with meter := s.meter.consume dir n, granted := fun d => if d = dir then s.granted d + n else s.granted d }

theorem admit_cases (s : Streams) (dir : Direction) (len : Nat) (turn : Turn) (reserved : Except NodeError Unit)
    (refused : NodeError → Streams → Streams) (admitted : Nat → Streams → Streams) :
    let s' := s.enterTurn dir (s.meter.takeTurn dir len true turn reserved) refused admitted
    s' = s ∨ (∃ e, s' = refused e s) ∨ ∃ n ≤ len, s' = admitted n (s.grant dir n) := by
  cases hturn : s.meter.takeTurn dir len true turn reserved with
  | error e => exact .inr (.inl ⟨e, rfl⟩)
  | ok p =>
    obtain ⟨o, m⟩ := p
    rcases Meter.takeTurn_eq_ok hturn with ⟨rfl, rfl⟩ | ⟨n, rfl, hn, rfl⟩
    · exact .inl rfl
    · exact .inr (.inr ⟨n, hn, rfl⟩)

theorem orderly_step (h : s.Orderly) (a : StreamAction) : (s.step a).Orderly := by
  obtain ⟨hr, hw⟩ := h
  cases a with
  | read size => exact ⟨hr.read size, hw⟩
  | fetch bytes err => exact ⟨hr.fetch bytes err, hw⟩
  | admitRead turn reserved =>
    simp only [step]
    split
    · next chunk hphase =>
      rcases admit_cases s .upload chunk.length turn reserved _ _ with hsame | ⟨e, hfail⟩ | ⟨n, hn, hgrant⟩
      · rw [hsame]
        exact ⟨hr, hw⟩
      · rw [hfail]
        exact ⟨hr.refused _, hw⟩
      · rw [hgrant]
        refine ⟨hr.moved rfl hn ⟨[], (append_nil _).symm, ?_⟩, hw⟩
        simp [grant, Reader.held, hphase]
    · exact ⟨hr, hw⟩
  | recordRead =>
    simp only [step]
    split
    · next chunk allowed hphase =>
      refine ⟨hr.moved rfl trivial ⟨[], (append_nil _).symm, ?_⟩, hw⟩
      simp [Reader.held, hphase, ← append_assoc]
    · exact ⟨hr, hw⟩
  | returnRead =>
    simp only [step]
    split
    · next piece hphase =>
      refine ⟨hr.answered rfl trivial prefix_rfl fun _ hclean => ?_, hw⟩
      have hwhole := hr.whole hclean
      simpa [Reader.held, Reader.answer, hphase] using hwhole
    · exact ⟨hr, hw⟩
  | write data => exact ⟨hr, hw.write data⟩
  | admitWrite turn reserved =>
    simp only [step]
    split
    · next call hphase =>
      have hcounts := hw.counts
      rw [hphase] at hcounts
      obtain ⟨hhanded, htotal⟩ := hcounts
      have hreceived : s.writer.received = s.writer.log.flatMap (·.1.accepted) ++ call.accepted := by
        rw [hw.received, StreamWriter.accepted, StreamWriter.current, hphase]
      rcases admit_cases s s.writer.direction (call.data.drop call.total).length turn reserved _ _ with
        hsame | ⟨e, hfail⟩ | ⟨n, hn, hgrant⟩
      · rw [hsame]
        exact ⟨hr, hw⟩
      · rw [hfail]
        refine ⟨hr, StreamWriter.exact_answer hw.ended ⟨hhanded.ge, hhanded ▸ htotal, ?_, ?_⟩ hreceived⟩
        · exact fun hnone => nomatch hnone
        · exact fun _ _ => hhanded.symm
      · rw [hgrant]
        refine ⟨hr, hreceived, hw.ended, hhanded, ?_⟩
        rw [length_drop] at hn
        omega
    · exact ⟨hr, hw⟩
  | push n err => exact ⟨hr, hw.push n err⟩
  | recordWrite =>
    simp only [step]
    split
    · next hphase => exact ⟨hr, hw.proceed hphase⟩
    · exact ⟨hr, hw⟩
  | use u => exact ⟨hr, hw⟩

theorem admitted_use (m : Meter) (u : AccountUse) (d : Direction) : m.account.admitted d ≤ (m.use u).account.admitted d := by
  cases u with
  | take dir requested upTo turn reserved =>
    simp only [Meter.use]
    split
    · next hturn =>
      rcases Meter.takeTurn_eq_ok hturn with ⟨-, rfl⟩ | ⟨n, -, -, rfl⟩
      · exact le_rfl
      · exact m.account.admitted_le_consume dir n d
    · exact le_rfl
  | record dir n => exact le_rfl
  | apply p =>
    simp only [Meter.use]
    split
    · cases d <;> exact le_rfl
    · exact le_rfl
  | quarantine => cases d <;> exact le_rfl

theorem measured_use {m : Meter} {u : AccountUse} (h : StreamAction.Alone (.use u)) : (m.use u).measured = m.measured := by
  cases u with
  | take dir requested upTo turn reserved =>
    simp only [Meter.use]
    split
    · next hturn =>
      rcases Meter.takeTurn_eq_ok hturn with ⟨-, rfl⟩ | ⟨n, -, -, rfl⟩
      · rfl
      · rfl
    · rfl
  | record dir n => exact h.elim
  | apply p =>
    simp only [Meter.use]
    split <;> rfl
  | quarantine => rfl

theorem Moves.of_levels {alone : Prop} (hmeter : s'.meter = s.meter) (hgranted : s'.granted = s.granted)
    (hreader : s'.reader.level = s.reader.level) (hwriter : s'.writer.level = s.writer.level) : Moves alone s s' := by
  simp only [Reader.level, StreamWriter.level, Prod.mk.injEq] at hreader hwriter
  refine .idle (fun _ => hmeter ▸ le_rfl) (fun _ => hmeter ▸ rfl) hgranted (funext fun d => ?_) (funext fun d => ?_)
  · simp only [allowed, per, hreader, hwriter]
  · simp only [recorded, per, hreader, hwriter]

theorem granted_grant (dir : Direction) (n : Nat) (d : Direction) : (s.grant dir n).granted d = s.granted d + bytes dir n d := by
  unfold grant bytes
  dsimp only
  split <;> rfl

theorem moves_admitRead (turn : Turn) (reserved : Except NodeError Unit) {alone : Prop} : Moves alone s (s.step (.admitRead turn reserved)) := by
  simp only [step]
  split
  · next chunk hphase =>
    have hzero : s.reader.allowed = 0 ∧ s.reader.unreturned = 0 := by simp [Reader.allowed, Reader.unreturned, hphase]
    rcases admit_cases s .upload chunk.length turn reserved _ _ with hsame | ⟨e, hfail⟩ | ⟨n, hn, hgrant⟩
    · rw [hsame]
      exact .of_levels rfl rfl rfl rfl
    · rw [hfail]
      exact .of_levels rfl rfl (Reader.level_answer [] _ hzero) rfl
    · rw [hgrant]
      refine .grant .upload n rfl (granted_grant .upload n) (fun d => ?_) (funext fun d => ?_)
      · change s.per d n s.writer.allowed = s.per d s.reader.allowed s.writer.allowed + bytes .upload n d
        rw [hzero.1, ← per_reading, ← per_add, Nat.zero_add, Nat.add_zero]
      · simp only [recorded, Reader.recorded, hzero.2]
        rfl
  · exact .of_levels rfl rfl rfl rfl

theorem moves_admitWrite (turn : Turn) (reserved : Except NodeError Unit) {alone : Prop} : Moves alone s (s.step (.admitWrite turn reserved)) := by
  simp only [step]
  split
  · next call hphase =>
    have hzero : s.writer.allowed = 0 ∧ s.writer.unrecorded = 0 := by simp [StreamWriter.allowed, StreamWriter.unrecorded, hphase]
    rcases admit_cases s s.writer.direction (call.data.drop call.total).length turn reserved _ _ with
      hsame | ⟨e, hfail⟩ | ⟨n, hn, hgrant⟩
    · rw [hsame]
      exact .of_levels rfl rfl rfl rfl
    · rw [hfail]
      refine .of_levels rfl rfl rfl ((StreamWriter.level_answer _).trans ?_)
      rw [StreamWriter.level, StreamWriter.recorded, hzero.1, hzero.2]
      rfl
    · rw [hgrant]
      refine .grant s.writer.direction n rfl (granted_grant _ n) (fun d => ?_) (funext fun d => ?_)
      · change s.per d s.reader.allowed n = s.per d s.reader.allowed s.writer.allowed + bytes s.writer.direction n d
        rw [hzero.1, ← per_writing, ← per_add, Nat.zero_add, Nat.add_zero]
      · simp only [recorded, StreamWriter.recorded, hzero.2]
        rfl
  · exact .of_levels rfl rfl rfl rfl

theorem moves_recordRead (ho : s.Orderly) {alone : Prop} : Moves alone s (s.step .recordRead) := by
  simp only [step]
  split
  · next chunk allowed hphase =>
    have hcounts := ho.1.counts
    rw [hphase] at hcounts
    have hlevel : s.reader.level = (s.reader.returned.length, allowed) := by
      simp [Reader.level, Reader.recorded, Reader.unreturned, Reader.allowed, hphase]
    simp only [Reader.level, Prod.mk.injEq] at hlevel
    refine .record .upload allowed rfl rfl (fun d => Nat.le_of_eq ?_) fun d => ?_
    · rw [Streams.allowed, Streams.allowed, hlevel.2, ← per_reading, ← per_add, Nat.add_zero]
      exact congrArg (s.per d · s.writer.allowed) (Nat.zero_add allowed)
    · change s.per d (s.reader.returned.length + (chunk.take allowed).length) s.writer.recorded = s.recorded d + _
      rw [length_take_of_le hcounts, recorded, hlevel.1, ← per_reading, ← per_add, Nat.add_zero]
  · exact .of_levels rfl rfl rfl rfl

theorem moves_recordWrite (ho : s.Orderly) {alone : Prop} : Moves alone s (s.step .recordWrite) := by
  simp only [step]
  split
  · next call allowed n err hphase =>
    have hle := ho.2.unrecorded_le
    have hn : s.writer.unrecorded = n := by rw [StreamWriter.unrecorded, hphase]
    rw [hn] at hle
    have hlevel : (s.writer.proceed call allowed n err).level = _ := StreamWriter.level_proceed allowed n err
    simp only [StreamWriter.level, Prod.mk.injEq] at hlevel
    obtain ⟨hdirection, hrecorded, hallowed⟩ := hlevel
    refine .record s.writer.direction n rfl rfl (fun d => ?_) fun d => ?_
    · rw [← per_writing, Streams.allowed, per, hallowed, hdirection]
      change s.per d s.reader.allowed 0 + s.per d 0 n ≤ s.allowed d
      rw [← per_add]
      exact per_mono le_rfl (by omega)
    · rw [← per_writing, recorded, per, hrecorded, hdirection]
      change s.per d s.reader.recorded s.writer.received.length = s.recorded d + s.per d 0 n
      rw [recorded, ← per_add, StreamWriter.recorded, hn, Nat.sub_add_cancel hle.2, Nat.add_zero]
  · exact .of_levels rfl rfl rfl rfl

theorem moves_step (ho : s.Orderly) (a : StreamAction) : Moves a.Alone s (s.step a) := by
  cases a with
  | read size => exact .of_levels rfl rfl (Reader.level_read size) rfl
  | fetch bytes err => exact .of_levels rfl rfl (Reader.level_fetch bytes err) rfl
  | admitRead turn reserved => exact moves_admitRead turn reserved
  | recordRead => exact moves_recordRead ho
  | returnRead =>
    simp only [step]
    split
    · next piece hphase =>
      refine .of_levels rfl rfl (Reader.level_answer piece none ?_) rfl
      simp [Reader.allowed, Reader.unreturned, hphase]
    · exact .of_levels rfl rfl rfl rfl
  | write data => exact .of_levels rfl rfl rfl (StreamWriter.level_write data)
  | admitWrite turn reserved => exact moves_admitWrite turn reserved
  | push n err => exact .of_levels rfl rfl rfl (StreamWriter.level_push ho.2 n err)
  | recordWrite => exact moves_recordWrite ho
  | use u => exact .idle (admitted_use s.meter u) measured_use rfl rfl rfl

def opened (m : Meter) (dir : Direction) : Streams where
  meter := m
  writer := { direction := dir }

def AtRest (s : Streams) : Prop := s.reader.unreturned = 0 ∧ s.writer.unrecorded = 0

theorem orderly_opened (m : Meter) (dir : Direction) : (opened m dir).Orderly := by
  refine ⟨⟨trivial, fun _ => rfl, prefix_rfl⟩, rfl, ?_, trivial⟩
  exact fun x hx => nomatch hx

theorem levels_opened (m : Meter) (dir d : Direction) : (opened m dir).recorded d = 0 ∧ (opened m dir).allowed d = 0 := by
  have hzero : (opened m dir).per d 0 0 = 0 := by simp only [per, ite_self]
  exact ⟨hzero, hzero⟩

theorem granted_opened (m : Meter) (dir : Direction) : Granted m (opened m dir) := by
  refine ⟨fun d => ?_, fun _ => le_rfl⟩
  rw [(levels_opened m dir d).1, (levels_opened m dir d).2]
  exact Nat.zero_le _

theorem billed_opened (m : Meter) (dir : Direction) : Billed m (opened m dir) := by
  refine ⟨fun d => ?_, fun d => ?_⟩
  · rw [(levels_opened m dir d).2]
    exact m.within d
  · rw [(levels_opened m dir d).1]
    rfl

/-- In every interleaving, the read calls return a prefix of what was fetched, up to the first error; the write calls
pass on exactly the bytes that they count; nothing is delivered that was not admitted before; and the measured usage
is what was delivered. -/
theorem delivers_admitted_bytes (m : Meter) (dir : Direction) (as : List StreamAction) :
    let s := Run.after step (opened m dir) as
    s.reader.untilError <+: s.reader.fetched ∧
      (s.writer.received = s.writer.accepted ∧ ∀ x ∈ s.writer.log, x.1.Ended x.2) ∧
      (∀ d, s.delivered d ≤ s.granted d ∧ m.account.admitted d + s.granted d ≤ s.meter.account.admitted d) ∧
      (∀ d, s.meter.measured d ≤ s.meter.account.admitted d) ∧
      ((∀ a ∈ as, a.Alone) → s.AtRest → ∀ d, s.meter.measured d = m.measured d + s.delivered d) := by
  intro s
  obtain ⟨horder, hgranted⟩ : s.Orderly ∧ Granted m s := Run.inv_after (I := fun s => s.Orderly ∧ Granted m s)
    (fun _ a h => ⟨orderly_step h.1 a, h.2.moves (moves_step h.1 a)⟩) ⟨orderly_opened m dir, granted_opened m dir⟩ as
  refine ⟨horder.1.front, ⟨horder.2.received, horder.2.ended⟩, fun d => ⟨?_, hgranted.counted d⟩, s.meter.within, ?_⟩
  · have hle := horder.2.unrecorded_le
    refine le_trans ?_ (hgranted.covered d)
    rw [recorded, allowed, ← per_add, Reader.recorded, StreamWriter.recorded]
    exact per_mono (by omega) (by omega)
  · intro halone hrest d
    have hbilled : s.Orderly ∧ Billed m s := Run.inv_after_of_mem (I := fun s => s.Orderly ∧ Billed m s)
      (fun t a ha ht => ⟨orderly_step ht.1 a, ht.2.moves (moves_step ht.1 a) (halone a ha)⟩) ⟨orderly_opened m dir, billed_opened m dir⟩
    rw [hbilled.2.exact d, recorded, Reader.recorded, StreamWriter.recorded, hrest.1, hrest.2]
    rfl

private def fiveBytes : Meter where
  account := ⟨false, ⟨"term", 1, 1, true, 0, false, 5, 1, ⟨.unlimited, 0, 0⟩, ⟨.unlimited, 0, 0⟩⟩, 0, 0, 0, none, none⟩
  measured _ := 0
  within _ := Nat.zero_le _

private def inTime : Turn := ⟨false, some 0, some 0, some 0, true⟩

-- Of eight fetched bytes five are admitted; the other three wait and are lost to the error of the second call.
example :
    let s := Run.after step (opened fiveBytes .download)
      [.read 8, .fetch [1, 2, 3, 4, 5, 6, 7, 8] none, .admitRead inTime (.ok ()), .recordRead, .returnRead,
        .read 8, .admitRead inTime (.ok ())]
    s.reader.untilError = [1, 2, 3, 4, 5] ∧ s.meter.measured .upload = 5 ∧
      s.reader.log = [([1, 2, 3, 4, 5], none), ([], some (.account .quota))] := by
  decide +kernel

end Streams

end Pui
