import Pui.Limits
import Pui.Table

/-!
# Counters

What is billed is how much the reading of a subject grew.
-/

namespace Pui

open Guard Table

def baselineGrace : Int := 10

structure Counter where
  epoch : String := ""
  primed : Bool := false
  last : Table String Int := ∅
  absent : Table String Int := ∅

namespace Counter

def baseline (last : Table String Int) (key : String) (value : Int) : Int :=
  match last.get? key with
  | some old => if value < old then 0 else old
  | none => 0

def reading (primed : Bool) (acc : Table String Int × Table String Int) (key : String) (value : Int) :
    Table String Int × Table String Int :=
  let (last, deltas) := acc
  if value < 0 then (last, deltas)
  else
    let grown := value - baseline last key value
    (last.put key value, if primed ∧ 0 < grown then deltas.put key grown else deltas)

def expireKey (readings : Table String Int) (c : Counter) (key : String) : Counter :=
  if (readings.get? key).isSome then { c with absent := c.absent.drop key }
  else
    let missing := (c.absent.get? key).getD 0 + 1
    if missing ≥ baselineGrace then { c with last := c.last.drop key, absent := c.absent.drop key }
    else { c with absent := c.absent.put key missing }

def expire (readings : Table String Int) (c : Counter) : Counter :=
  if readings.entries = [] then c else c.last.keys.foldl (expireKey readings) c

def restarted (epoch : String) (c : Counter) : Bool := c.primed && epoch != "" && c.epoch != "" && epoch != c.epoch

def enter (epoch : String) (c : Counter) : Counter :=
  let c := if c.restarted epoch then { c with last := ∅, absent := ∅ } else c
  if epoch ≠ "" then { c with epoch := epoch } else c

def observe (epoch : String) (readings : Table String Int) (c : Counter) : Table String Int × Counter :=
  let c := c.enter epoch
  let (last, deltas) := readings.entries.foldl (fun acc e => reading c.primed acc e.1 e.2) (c.last, ∅)
  if !c.primed then (∅, { c with last := last, primed := true })
  else (deltas, expire readings { c with last := last })

def fromCheckpoint (c : Counter) : Except NodeError Counter := do
  refuse (c.epoch.utf8ByteSize > 1024 ∨ (!c.primed ∧ (c.last.entries ≠ [] ∨ c.absent.entries ≠ []))) .counterCheckpoint
  refuse (c.last.entries.any fun e => e.1 = "" || e.1.utf8ByteSize > 1024 || e.2 < 0) .counterCheckpoint
  refuse (c.absent.entries.any fun e => (c.last.get? e.1).isNone || e.2 < 1 || e.2 ≥ baselineGrace) .counterCheckpoint
  return c

structure Valid (c : Counter) : Prop where
  epoch : c.epoch.utf8ByteSize ≤ 1024
  primed : c.primed = false → c.last.entries = [] ∧ c.absent.entries = []
  last : ∀ k v, c.last.get? k = some v → k ≠ "" ∧ k.utf8ByteSize ≤ 1024 ∧ 0 ≤ v
  absent : ∀ k m, c.absent.get? k = some m → (c.last.get? k).isSome ∧ 1 ≤ m ∧ m < baselineGrace

theorem any_entries_eq_false {t : Table String Int} {p : String → Int → Bool} :
    ¬(t.entries.any fun e => p e.1 e.2) = true ↔ ∀ k v, t.get? k = some v → p k v = false := by
  rw [Bool.not_eq_true, List.any_eq_false]
  constructor
  · intro h k v hv
    exact Bool.eq_false_iff.mpr (h ⟨k, v⟩ (mem_entries.mpr hv))
  · rintro h ⟨k, v⟩ he
    exact Bool.eq_false_iff.mp (h k v (mem_entries.mp he))

theorem fromCheckpoint_eq_ok {c d : Counter} : c.fromCheckpoint = .ok d ↔ c.Valid ∧ c = d := by
  unfold fromCheckpoint
  rw [unit_bind_eq_ok, unit_bind_eq_ok, unit_bind_eq_ok, refuse_eq_ok, refuse_eq_ok, refuse_eq_ok, pure_eq_ok,
    any_entries_eq_false (p := fun k v => k = "" || k.utf8ByteSize > 1024 || v < 0),
    any_entries_eq_false (p := fun k v => (c.last.get? k).isNone || v < 1 || v ≥ baselineGrace)]
  simp only [not_or, not_and, not_not, Bool.not_eq_eq_eq_not, Bool.not_true, Bool.or_eq_false_iff,
    decide_eq_false_iff_not, ne_eq, not_lt, not_le, Option.isNone_eq_false_iff, ge_iff_le, gt_iff_lt]
  constructor
  · rintro ⟨⟨hepoch, hprimed⟩, hlast, habsent, rfl⟩
    exact ⟨⟨hepoch, hprimed, fun k v hv => ⟨(hlast k v hv).1.1, (hlast k v hv).1.2, (hlast k v hv).2⟩,
      fun k m hm => ⟨(habsent k m hm).1.1, (habsent k m hm).1.2, (habsent k m hm).2⟩⟩, rfl⟩
  · rintro ⟨⟨hepoch, hprimed, hlast, habsent⟩, rfl⟩
    exact ⟨⟨hepoch, hprimed⟩, fun k v hv => ⟨⟨(hlast k v hv).1, (hlast k v hv).2.1⟩, (hlast k v hv).2.2⟩,
      fun k m hm => ⟨⟨(habsent k m hm).1, (habsent k m hm).2.1⟩, (habsent k m hm).2.2⟩, rfl⟩

end Counter

end Pui
