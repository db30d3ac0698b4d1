import Mathlib.Algebra.Order.Group.Int
import Mathlib.Data.Int.ConditionallyCompleteOrder
import Mathlib.Data.Nat.Find
import Mathlib.Logic.Function.Iterate
import Mathlib.Order.Monotone.Basic
import Mathlib.Tactic.Linarith

/-!
# Calendars of twelve months

Dates of a calendar given by the lengths of its months, their order, the next day, and the numbers of Gregorian days.
-/

namespace Calendar

structure Date where
  year : Int
  month : Int
  day : Int
deriving DecidableEq

namespace Date

def Before (a b : Date) : Prop :=
  a.year < b.year ∨ a.year = b.year ∧ (a.month < b.month ∨ a.month = b.month ∧ a.day < b.day)

theorem Before.trans {a b c : Date} (hab : a.Before b) (hbc : b.Before c) : a.Before c := by
  unfold Before at *
  omega

theorem Before.irrefl (a : Date) : ¬ a.Before a := by
  unfold Before
  omega

theorem before_or_eq_or_before (a b : Date) : a.Before b ∨ a = b ∨ b.Before a := by
  obtain ⟨y, m, d⟩ := a
  obtain ⟨y', m', d'⟩ := b
  simp only [Before, mk.injEq]
  omega

def nextMonth (j : Date) : Date :=
  if j.month < 12 then ⟨j.year, j.month + 1, 1⟩ else ⟨j.year + 1, 1, 1⟩

section
variable (len : Int → Int → Int)

/-- The date exists in a calendar whose months have `len year month` days. -/
structure Fits (j : Date) : Prop where
  month : 1 ≤ j.month ∧ j.month ≤ 12
  day : 1 ≤ j.day ∧ j.day ≤ len j.year j.month

def next (j : Date) : Date :=
  if j.day < len j.year j.month then { j with day := j.day + 1 } else j.nextMonth

end

variable {len : Int → Int → Int} {j : Date}

theorem Fits.nextMonth (hlen : ∀ y m, 1 ≤ len y m) (h : j.Fits len) : j.nextMonth.Fits len := by
  have hm := h.month
  unfold Date.nextMonth
  split
  · exact ⟨⟨by dsimp only; omega, by dsimp only; omega⟩, le_rfl, hlen ..⟩
  · exact ⟨⟨le_rfl, by dsimp only; omega⟩, le_rfl, hlen ..⟩

theorem nextMonth_spec (h : j.Fits len) : j.nextMonth.day = 1 ∧ j.year ≤ j.nextMonth.year ∧
    j.nextMonth.year * 12 + j.nextMonth.month = j.year * 12 + j.month + 1 := by
  have hm := h.month
  unfold Date.nextMonth
  split <;> (dsimp only; omega)

theorem Fits.next (hlen : ∀ y m, 1 ≤ len y m) (h : j.Fits len) : (j.next len).Fits len := by
  have hd := h.day
  unfold Date.next
  split
  · exact ⟨h.month, by dsimp only; omega⟩
  · exact h.nextMonth hlen

theorem before_next (j : Date) : j.Before (j.next len) := by
  unfold next nextMonth Before
  split
  · dsimp only
    omega
  · split
    · dsimp only
      omega
    · dsimp only
      omega

theorem next_iterate_day (n : Nat) (h : j.day + n ≤ len j.year j.month) :
    (next len)^[n] j = { j with day := j.day + n } := by
  induction n with
  | zero => simp
  | succ n ih =>
    rw [Function.iterate_succ_apply', ih (by omega), next, if_pos (by dsimp only; omega)]
    simp only [mk.injEq, true_and]
    omega

theorem next_iterate_nextMonth (n : Nat) (h : j.day + n = len j.year j.month + 1) (hn : 1 ≤ n) :
    (next len)^[n] j = j.nextMonth := by
  obtain ⟨n, rfl⟩ := Nat.exists_eq_add_of_le' hn
  rw [Function.iterate_succ_apply', next_iterate_day n (by omega), next,
    if_neg (by dsimp only; omega)]
  rfl

end Date

def leap (y : Int) : Bool := y % 4 = 0 && (y % 100 ≠ 0 || y % 400 = 0)

def monthDays (y m : Int) : Int :=
  if m = 2 then if leap y then 29 else 28
  else if m = 4 ∨ m = 6 ∨ m = 9 ∨ m = 11 then 30 else 31

def monthLength (k : Nat) : Int := monthDays (1970 + k / 12) (k % 12 + 1)

/-- The number of the first day of month `k`, counted from 1970-01-01. -/
def firstDay : Nat → Int
  | 0 => 0
  | k + 1 => firstDay k + monthLength k

/-- The month, counted from January 1970, in which day `n` lies. -/
def monthOf (n : Int) : Nat := Nat.findGreatest (fun k => firstDay k ≤ n) n.toNat

def civil (n : Int) : Date := ⟨1970 + monthOf n / 12, monthOf n % 12 + 1, n - firstDay (monthOf n) + 1⟩

/-- The number of a date; months past December run on into the next year. -/
def dayNumber (d : Date) : Int := firstDay ((d.year - 1970) * 12 + (d.month - 1)).toNat + (d.day - 1)

theorem one_le_monthDays (y m : Int) : 1 ≤ monthDays y m := by
  unfold monthDays
  split_ifs <;> decide

theorem firstDay_strictMono : StrictMono firstDay :=
  strictMono_nat_of_lt_succ fun k => by
    have hlen : 1 ≤ monthLength k := one_le_monthDays ..
    rw [firstDay]
    omega

theorem le_firstDay (k : Nat) : (k : Int) ≤ firstDay k := by
  induction k with
  | zero => exact le_rfl
  | succ k ih =>
    have hlt := firstDay_strictMono k.lt_add_one
    push_cast
    omega

theorem firstDay_monthOf_le {n : Int} (hn : 0 ≤ n) : firstDay (monthOf n) ≤ n :=
  Nat.findGreatest_spec (P := fun k => firstDay k ≤ n) (Nat.zero_le _) hn

theorem lt_firstDay_monthOf {n : Int} (hn : 0 ≤ n) : n < firstDay (monthOf n + 1) := by
  by_contra hle
  have hbound := le_firstDay (monthOf n + 1)
  have hmore : monthOf n + 1 ≤ monthOf n :=
    Nat.le_findGreatest (P := fun k => firstDay k ≤ n) (by omega) (by omega)
  omega

theorem monthOf_eq {n : Int} {k : Nat} (hlow : firstDay k ≤ n) (hhigh : n < firstDay (k + 1)) :
    monthOf n = k := by
  have hn : 0 ≤ n := by
    have := le_firstDay k
    omega
  have h1 := firstDay_strictMono.lt_iff_lt.mp ((firstDay_monthOf_le hn).trans_lt hhigh)
  have h2 := firstDay_strictMono.lt_iff_lt.mp (hlow.trans_lt (lt_firstDay_monthOf hn))
  omega

theorem dayNumber_month (k : Nat) (j d : Int) :
    dayNumber ⟨1970 + k / 12, k % 12 + 1 + j, d⟩ = firstDay (k + j).toNat + (d - 1) := by
  unfold dayNumber
  dsimp only
  congr 3
  omega

end Calendar
