import Mathlib.Logic.Function.Basic
import Pui.CounterReadings
import Pui.Run

/-!
# What a counter bills

A source counts the bytes of its keys from its last restart on, and names each of its incarnations by a token.
-/

namespace Pui

open Table List Option Bool

/-- A source, the counter that reads it, and what both counted. -/
structure BilledSource where
  token : String
  count : String → Nat
  counter : Counter := {}
  accrued : String → Nat := fun _ => 0
  billed : String → Int := fun _ => 0
  missed : String → Nat := fun _ => 0

inductive SourceEvent where
  | accrue (key : String) (bytes : Nat)
  | restart (token : String)
  | read (tells : Bool) (keys : List String)

namespace BilledSource

def epoch (tells : Bool) (b : BilledSource) : String := if tells then b.token else ""

def readings (keys : List String) (b : BilledSource) : Table String Int := keys.foldl (fun t key => t.put key (b.count key)) ∅

def step (b : BilledSource) : SourceEvent → BilledSource
  | .accrue key bytes => { b with
      count := Function.update b.count key (b.count key + bytes)
      accrued := if b.counter.primed then Function.update b.accrued key (b.accrued key + bytes) else b.accrued }
  | .restart token => { b with token := token, count := fun _ => 0 }
  | .read tells keys =>
    let (deltas, counter) := b.counter.observe (b.epoch tells) (b.readings keys)
    { b with
      counter := counter
      billed := fun key => b.billed key + (deltas.get? key).getD 0
      missed := fun key => if keys = [] then b.missed key else if key ∈ keys then 0 else b.missed key + 1 }

def Told (b : BilledSource) : Prop := b.counter.epoch = "" ∨ b.token = "" ∨ b.counter.epoch = b.token

instance (b : BilledSource) : Decidable b.Told := inferInstanceAs (Decidable (_ ∨ _))

def Reported (key : String) (b : BilledSource) (e : SourceEvent) : Prop := (b.step e).missed key < 10

instance (key : String) (b : BilledSource) (e : SourceEvent) : Decidable (b.Reported key e) := inferInstanceAs (Decidable (_ < _))

def Attributable (key : String) (b : BilledSource) : SourceEvent → Prop
  | .read tells keys => (b.counter.primed = false → key ∈ keys ∨ b.count key = 0) ∧ (tells = false → key ∈ keys → b.Told)
  | _ => True

instance (key : String) (b : BilledSource) : (e : SourceEvent) → Decidable (b.Attributable key e)
  | .accrue _ _ => inferInstanceAs (Decidable True)
  | .restart _ => inferInstanceAs (Decidable True)
  | .read _ _ => inferInstanceAs (Decidable (_ ∧ _))

theorem get?_readings (keys : List String) (b : BilledSource) (k : String) :
    (b.readings keys).get? k = if k ∈ keys then some (b.count k : Int) else none := by
  have hfold : ∀ t : Table String Int, (keys.foldl (fun t key => t.put key (b.count key : Int)) t).get? k =
      if k ∈ keys then some (b.count k : Int) else t.get? k := by
    induction keys with
    | nil => exact fun t => by simp
    | cons key keys ih =>
      intro t
      rw [foldl_cons, ih]
      by_cases hk : k = key
      · subst hk
        simp
      · simp [hk]
  exact (hfold ∅).trans (by simp)

theorem readings_eq_nil {keys : List String} {b : BilledSource} : (b.readings keys).entries = [] ↔ keys = [] := by
  rw [Counter.entries_eq_nil_iff, eq_nil_iff_forall_not_mem]
  simp [get?_readings]

theorem enter_frame (epoch : String) (c : Counter) : (c.enter epoch).primed = c.primed ∧
    (c.enter epoch).last = (if c.restarted epoch then ∅ else c.last) ∧
    (c.enter epoch).absent = (if c.restarted epoch then ∅ else c.absent) := by
  unfold Counter.enter
  split <;> split <;> exact ⟨rfl, rfl, rfl⟩

variable {b : BilledSource} {k : String} {tells : Bool} {keys : List String}

theorem counter_read : (b.step (.read tells keys)).counter = (b.counter.observe (b.epoch tells) (b.readings keys)).2 := rfl

theorem billed_read : (b.step (.read tells keys)).billed k =
    b.billed k + ((b.counter.observe (b.epoch tells) (b.readings keys)).1.get? k).getD 0 := rfl

theorem missed_read : (b.step (.read tells keys)).missed k =
    if keys = [] then b.missed k else if k ∈ keys then 0 else b.missed k + 1 := rfl

theorem Told.not_restarted (h : b.Told) (tells : Bool) : b.counter.restarted (b.epoch tells) = false := by
  unfold Counter.restarted epoch
  rcases h with h | h | h
  · simp [h]
  · simp [h]
  · rw [h]
    cases tells <;> simp

theorem told_read (h : tells = false → b.Told) : (b.step (.read tells keys)).Told := by
  have hepoch : (b.step (.read tells keys)).counter.epoch = if b.epoch tells ≠ "" then b.epoch tells else b.counter.epoch :=
    (Counter.observed _ _ _).epoch.trans (Counter.enter_epoch _ _)
  show (b.step (.read tells keys)).counter.epoch = "" ∨ b.token = "" ∨ (b.step (.read tells keys)).counter.epoch = b.token
  rw [hepoch]
  cases tells with
  | false => simpa [epoch, Told] using h rfl
  | true =>
    by_cases htoken : b.token = ""
    · exact .inr (.inl htoken)
    · simp [epoch, htoken]

/-- The count of a key, or a part of it, is not billed yet. -/
def Owed (k : String) (b : BilledSource) : Prop :=
  b.billed k + b.count k ≤ b.accrued k ∨
    ∃ base, b.counter.last.get? k = some base ∧ base ≤ b.count k ∧ b.billed k + (b.count k - base) ≤ b.accrued k ∧ b.Told

structure Covers (k : String) (b : BilledSource) : Prop where
  fresh : b.counter.primed = false → b.counter.epoch = "" ∧ b.counter.last.get? k = none ∧ b.counter.absent.get? k = none ∧
    b.billed k = 0 ∧ b.accrued k = 0
  absent : (b.counter.absent.get? k).getD 0 ≤ b.missed k
  last : ∀ v, b.counter.last.get? k = some v → 0 ≤ v
  owed : b.counter.primed = true → b.Owed k

theorem Covers.billed_le (h : b.Covers k) : b.billed k ≤ b.accrued k := by
  cases hprimed : b.counter.primed with
  | false =>
    obtain ⟨-, -, -, hbilled, haccrued⟩ := h.fresh hprimed
    omega
  | true =>
    rcases h.owed hprimed with hall | ⟨base, -, hbase, hpart, -⟩
    · omega
    · omega

theorem Covers.accrue (h : b.Covers k) (key : String) (bytes : Nat) : (b.step (.accrue key bytes)).Covers k := by
  refine ⟨fun hprimed => ?_, h.absent, h.last, fun hprimed => ?_⟩
  · replace hprimed : b.counter.primed = false := hprimed
    have haccrued : (b.step (.accrue key bytes)).accrued = b.accrued := by simp [step, hprimed]
    rw [haccrued]
    exact h.fresh hprimed
  · replace hprimed : b.counter.primed = true := hprimed
    have haccrued : (b.step (.accrue key bytes)).accrued k = b.accrued k + if k = key then bytes else 0 := by
      simp only [step, hprimed, if_true, Function.update_apply]
      split
      · next hk => rw [hk]
      · rfl
    have hcount : (b.step (.accrue key bytes)).count k = b.count k + if k = key then bytes else 0 := by
      simp only [step, Function.update_apply]
      split
      · next hk => rw [hk]
      · rfl
    unfold Owed
    rw [haccrued, hcount]
    refine (h.owed hprimed).imp (fun hall => ?_) (fun ⟨base, hlast, hbase, hpart, htold⟩ => ⟨base, hlast, ?_, ?_, htold⟩)
    · show b.billed k + _ ≤ _
      omega
    · omega
    · show b.billed k + _ ≤ _
      omega

theorem Covers.restart (h : b.Covers k) (token : String) : (b.step (.restart token)).Covers k := by
  refine ⟨h.fresh, h.absent, h.last, fun _ => .inl ?_⟩
  show b.billed k + ((0 : Nat) : Int) ≤ b.accrued k
  have hle := h.billed_le
  omega

theorem last_read_of_mem (hlisted : k ∈ keys) : (b.step (.read tells keys)).counter.last.get? k = some (b.count k : Int) := by
  have hget : (b.readings keys).get? k = some (b.count k : Int) := by rw [get?_readings, if_pos hlisted]
  rw [counter_read, (Counter.observed _ _ _).last, if_neg (by simp [Counter.gone, hget]), Counter.seen, hget]
  simp [Option.filter]

theorem last_read_of_not_mem (tells : Bool) (hlisted : k ∉ keys) :
    (b.step (.read tells keys)).counter.last.get? k = none ∨
      (b.step (.read tells keys)).counter.last.get? k = b.counter.last.get? k := by
  have hget : (b.readings keys).get? k = none := by rw [get?_readings, if_neg hlisted]
  obtain ⟨-, hbase, -⟩ := enter_frame (b.epoch tells) b.counter
  rw [counter_read, (Counter.observed _ _ _).last, Counter.seen, hget, hbase]
  split
  · exact .inl rfl
  · split
    · exact .inl rfl
    · exact .inr rfl

theorem absent_read (h : (b.counter.absent.get? k).getD 0 ≤ b.missed k)
    (hfresh : b.counter.primed = false → b.counter.absent.get? k = none) :
    ((b.step (.read tells keys)).counter.absent.get? k).getD 0 ≤ (b.step (.read tells keys)).missed k := by
  obtain ⟨hprimed, -, hentered⟩ := enter_frame (b.epoch tells) b.counter
  have hbefore : (((b.counter.enter (b.epoch tells)).absent.get? k).getD 0 : Int) ≤ b.missed k := by
    rw [hentered]
    split
    · exact Int.natCast_nonneg _
    · exact h
  rw [counter_read, (Counter.observed _ _ _).absent, missed_read]
  split
  · next hseen =>
    have hkeys : keys ≠ [] := fun h => hseen.2.1 (readings_eq_nil.mpr h)
    rw [if_neg hkeys, Counter.missing, get?_readings]
    by_cases hlisted : k ∈ keys
    · simp [hlisted]
    · simp only [hlisted, if_false, Option.isSome_none, Bool.false_or]
      split
      · exact Int.natCast_nonneg _
      · simp only [getD_some]
        omega
  · next hunseen =>
    split
    · exact hbefore
    · next hkeys =>
      split
      · next hlisted =>
        -- a key that is listed is seen, so this is the first reading
        have hnot : b.counter.primed = false := by
          by_contra hyes
          rw [not_eq_false] at hyes
          refine hunseen ⟨hprimed.trans hyes, by rwa [Ne, readings_eq_nil], ?_⟩
          rw [Counter.seen, get?_readings, if_pos hlisted]
          simp [Option.filter]
        rw [hentered]
        split
        · exact le_rfl
        · rw [hfresh hnot]
          exact le_rfl
      · omega

theorem nonneg_last_read (h : ∀ v, b.counter.last.get? k = some v → 0 ≤ v) :
    ∀ v, (b.step (.read tells keys)).counter.last.get? k = some v → 0 ≤ v := by
  intro v hv
  by_cases hlisted : k ∈ keys
  · rw [last_read_of_mem hlisted, Option.some.injEq] at hv
    omega
  · rcases last_read_of_not_mem tells hlisted with hnone | hsame
    · rw [hnone] at hv
      cases hv
    · exact h v (hsame ▸ hv)

theorem Covers.owed_prime (h : b.Covers k) (hprimed : b.counter.primed = false) (hlisted : k ∈ keys ∨ b.count k = 0) :
    (b.step (.read tells keys)).Owed k := by
  obtain ⟨hepoch, -, -, hbilled, haccrued⟩ := h.fresh hprimed
  have hnone : ((b.counter.observe (b.epoch tells) (b.readings keys)).1).get? k = none := by
    rw [(Counter.observed _ _ _).deltas, (enter_frame _ _).1, hprimed, if_neg Bool.false_ne_true]
  unfold Owed
  rw [billed_read, hnone, hbilled]
  rcases hlisted with hlisted | hzero
  · refine .inr ⟨b.count k, last_read_of_mem hlisted, le_rfl, ?_, told_read fun _ => .inl hepoch⟩
    show 0 + 0 + ((b.count k : Nat) - (b.count k : Int)) ≤ b.accrued k
    omega
  · refine .inl ?_
    show 0 + 0 + ((b.count k : Nat) : Int) ≤ b.accrued k
    omega

theorem billed_read_of_mem (hprimed : b.counter.primed = true) (hlisted : k ∈ keys) :
    (b.step (.read tells keys)).billed k =
      b.billed k + max 0 (b.count k - Counter.baseline (b.counter.enter (b.epoch tells)).last k (b.count k)) := by
  have hget : (b.readings keys).get? k = some (b.count k : Int) := by rw [get?_readings, if_pos hlisted]
  rw [billed_read, (Counter.observed _ _ _).deltas, (enter_frame _ _).1, hprimed, if_pos rfl, Counter.growth, hget]
  by_cases hgrown : Counter.baseline (b.counter.enter (b.epoch tells)).last k (b.count k) < b.count k
  · simp only [Option.filter, Int.natCast_nonneg, decide_true, Int.sub_pos, hgrown, Bool.and_self, if_true, Option.map_some,
      Option.getD_some]
    omega
  · simp only [Option.filter, Int.natCast_nonneg, decide_true, Int.sub_pos, hgrown, decide_false, Bool.and_false,
      Bool.false_eq_true, if_false, Option.map_none, Option.getD_none]
    omega

theorem billed_read_of_not_mem (hlisted : k ∉ keys) : (b.step (.read tells keys)).billed k = b.billed k := by
  have hget : (b.readings keys).get? k = none := by rw [get?_readings, if_neg hlisted]
  rw [billed_read, (Counter.observed _ _ _).deltas, Counter.growth, hget]
  split <;> exact Int.add_zero _

theorem Covers.owed_listed (h : b.Covers k) (hprimed : b.counter.primed = true) (hlisted : k ∈ keys)
    (htold : tells = false → b.Told) : (b.step (.read tells keys)).Owed k := by
  obtain ⟨-, hentered, -⟩ := enter_frame (b.epoch tells) b.counter
  refine .inr ⟨b.count k, last_read_of_mem hlisted, le_rfl, ?_, told_read htold⟩
  rw [billed_read_of_mem hprimed hlisted, hentered]
  show b.billed k + _ + ((b.count k : Nat) - (b.count k : Int)) ≤ b.accrued k
  rcases h.owed hprimed with hall | ⟨base, hlast, hbase, hpart, hsame⟩
  · -- whatever the reading is compared with, it bills at most the whole count
    have hnonneg : 0 ≤ Counter.baseline (if b.counter.restarted (b.epoch tells) then ∅ else b.counter.last) k (b.count k) := by
      unfold Counter.baseline
      split
      · next old hold =>
        split
        · exact le_rfl
        · refine h.last old ?_
          split at hold
          · cases hold
          · exact hold
      · exact le_rfl
    omega
  · have hcompared : Counter.baseline (if b.counter.restarted (b.epoch tells) then ∅ else b.counter.last) k (b.count k) = base := by
      rw [hsame.not_restarted, if_neg Bool.false_ne_true, Counter.baseline, hlast]
      exact if_neg (by omega)
    rw [hcompared]
    omega

theorem Covers.owed_missing (h : b.Covers k) (hprimed : b.counter.primed = true) (hlisted : k ∉ keys)
    (hreported : b.Reported k (.read tells keys)) : (b.step (.read tells keys)).Owed k := by
  unfold Owed
  rw [billed_read_of_not_mem hlisted]
  refine (h.owed hprimed).imp id fun ⟨base, hlast, hbase, hpart, htold⟩ => ⟨base, ?_, hbase, hpart, told_read fun _ => htold⟩
  have hget : (b.readings keys).get? k = none := by rw [get?_readings, if_neg hlisted]
  obtain ⟨-, hentered, hmissing⟩ := enter_frame (b.epoch tells) b.counter
  rw [htold.not_restarted, if_neg Bool.false_ne_true] at hentered hmissing
  rw [counter_read, (Counter.observed _ _ _).last, Counter.seen, hget, hentered, hmissing, if_neg]
  · exact hlast
  · rintro ⟨-, hkeys, hgone⟩
    rw [Ne, readings_eq_nil] at hkeys
    rw [Reported, missed_read, if_neg hkeys, if_neg hlisted] at hreported
    have habsent := h.absent
    simp only [Counter.gone, hget, Option.isNone_none, Bool.true_and, decide_eq_true_eq] at hgone
    unfold baselineGrace at hgone
    omega

theorem Covers.read (h : b.Covers k) (hreported : b.Reported k (.read tells keys))
    (hattributable : b.Attributable k (.read tells keys)) : (b.step (.read tells keys)).Covers k := by
  refine ⟨fun hnot => ?_, absent_read h.absent fun hf => (h.fresh hf).2.2.1, nonneg_last_read h.last, fun _ => ?_⟩
  · rw [counter_read, (Counter.observed _ _ _).primed] at hnot
    cases hnot
  · cases hprimed : b.counter.primed with
    | false => exact h.owed_prime hprimed (hattributable.1 hprimed)
    | true =>
      by_cases hlisted : k ∈ keys
      · exact h.owed_listed hprimed hlisted fun htells => hattributable.2 htells hlisted
      · exact h.owed_missing hprimed hlisted hreported

theorem Covers.step (h : b.Covers k) {e : SourceEvent} (hreported : b.Reported k e) (hattributable : b.Attributable k e) :
    (b.step e).Covers k := by
  cases e with
  | accrue key bytes => exact h.accrue key bytes
  | restart token => exact h.restart token
  | read tells keys => exact h.read hreported hattributable

theorem covers_start (token : String) (count : String → Nat) (k : String) : Covers k { token := token, count := count } :=
  ⟨fun _ => ⟨rfl, rfl, rfl, rfl, rfl⟩, le_rfl, fun _ hv => (nomatch hv), fun hprimed => (nomatch hprimed)⟩

/-- No byte of a key is billed twice, in every run where each reading reports the key often enough and the counter can tell
which of its bytes are new: what is billed for the key is at most what it moved since the first reading. -/
theorem billed_at_most_accrued (token : String) (count : String → Nat) (k : String) (events : List SourceEvent)
    (h : Run.Along step (fun b e => b.Reported k e ∧ b.Attributable k e) { token := token, count := count } events) :
    (Run.after step { token := token, count := count } events).billed k ≤
      (Run.after step { token := token, count := count } events).accrued k :=
  (Run.inv_after_along (I := Covers k) (fun _ _ hstep hb => hb.step hstep.1 hstep.2) (covers_start token count k) h).billed_le

namespace Sample

def source : BilledSource := { token := "a", count := fun _ => 100 }

def told : List SourceEvent :=
  [.read true ["k"], .accrue "k" 5, .read false ["k"], .read true ["other"], .restart "b", .accrue "k" 30, .read true ["k"],
    .accrue "k" 10, .read false ["k"]]

def tokenLate : List SourceEvent :=
  [.read true ["k"], .restart "b", .accrue "k" 30, .read false ["k"], .accrue "k" 10, .read true ["k"]]

def keyLate : List SourceEvent := [.read true ["other"], .read true ["k", "other"]]

end Sample

theorem billed_at_most_accrued_told :
    Run.Along step (fun b e => b.Reported "k" e ∧ b.Attributable "k" e) Sample.source Sample.told ∧
      (Run.after step Sample.source Sample.told).billed "k" ≤ (Run.after step Sample.source Sample.told).accrued "k" ∧
      (Run.after step Sample.source Sample.told).billed "k" = 45 := by
  have h : Run.Along step (fun b e => b.Reported "k" e ∧ b.Attributable "k" e) Sample.source Sample.told := by
    decide +kernel
  exact ⟨h, billed_at_most_accrued "a" (fun _ => 100) "k" Sample.told h, by decide +kernel⟩

theorem missed_step_le (k : String) (b : BilledSource) (e : SourceEvent) : (b.step e).missed k ≤ b.missed k + 1 := by
  cases e with
  | accrue key bytes => exact Nat.le_succ _
  | restart token => exact Nat.le_succ _
  | read tells keys =>
    rw [missed_read]
    split
    · exact Nat.le_succ _
    · split
      · exact Nat.zero_le _
      · exact le_rfl

theorem reported_of_length (k : String) {events : List SourceEvent} (h : b.missed k + events.length < 10) :
    Run.Along step (fun b e => b.Reported k e) b events := by
  induction events generalizing b with
  | nil => trivial
  | cons e events ih =>
    have hle := missed_step_le k b e
    rw [length_cons] at h
    exact ⟨show (b.step e).missed k < 10 by omega, ih (by omega)⟩

/-- Bytes are billed twice when the first reading after a restart leaves the token out and a later one tells it; and bytes
from before the first reading are billed when that reading leaves the key out. -/
theorem billed_beyond_accrued :
    ((∀ k, Run.Along step (fun b e => b.Reported k e) Sample.source Sample.tokenLate) ∧
      (Run.after step Sample.source Sample.tokenLate).accrued "k" = 40 ∧
      (Run.after step Sample.source Sample.tokenLate).billed "k" = 70) ∧
    (∀ k, Run.Along step (fun b e => b.Reported k e) Sample.source Sample.keyLate) ∧
      (Run.after step Sample.source Sample.keyLate).accrued "k" = 0 ∧
      (Run.after step Sample.source Sample.keyLate).billed "k" = 100 := by
  refine ⟨⟨fun k => reported_of_length k ?_, ?_, ?_⟩, fun k => reported_of_length k ?_, ?_, ?_⟩
  · show 0 + 6 < 10
    decide
  · decide +kernel
  · decide +kernel
  · show 0 + 2 < 10
    decide
  · decide +kernel
  · decide +kernel

end BilledSource

end Pui
