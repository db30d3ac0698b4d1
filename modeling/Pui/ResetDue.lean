import Mathlib.Order.Bounds.Basic
import Mathlib.Tactic.Linarith
import Pui.Calendar
import Pui.Limits

/-!
# The next due instant of a reset schedule

`nextFleetResetDue` of `internal/web/service/fleet_reset_schedule.go`, over UTC instants in milliseconds.
-/

namespace Pui.Reset

open Calendar

inductive Cycle where
  | none
  | hourly
  | daily
  | weekly
  | monthly
  | other (text : String)
deriving DecidableEq

inductive ResetError where
  | schedule
deriving DecidableEq

def validFleetResetCycle : Cycle → Bool
  | .other _ => false
  | _ => true

/-- A UTC time: the day from 1970-01-01 and the milliseconds of that day. -/
structure Time where
  day : Int
  clock : Int
deriving DecidableEq

namespace Time

def ofUnixMilli (ms : Int) : Time := ⟨ms / 86400000, ms % 86400000⟩

/-- The milliseconds since 1970, in 64 bits. -/
def unixMilli (t : Time) : Int := (t.day * 86400000 + t.clock + 2 ^ 63) % 2 ^ 64 - 2 ^ 63

def date (y m d clock : Int) : Time := ⟨dayNumber ⟨y, m, d⟩, clock⟩

def addDate (t : Time) (months days : Int) : Time :=
  let c := civil t.day
  date c.year (c.month + months) (c.day + days) t.clock

end Time

/-- The months are tried in order, the day clamped to the last one of the month. -/
def nextMonthly (start : Time) (anchor after : Int) : Nat → Int → Except ResetError Int
  | 0, _ => throw .schedule
  | tries + 1, months =>
    let s := civil start.day
    let first := Time.date s.year (s.month + months) 1 start.clock
    let last := (civil (first.addDate 1 (-1)).day).day
    let next := (first.addDate 0 (min s.day last - 1)).unixMilli
    if next > after ∧ next > anchor then pure next else nextMonthly start anchor after tries (months + 1)

def Cycle.step : Cycle → Int
  | .daily => 3600000 * 24
  | .weekly => 3600000 * (7 * 24)
  | _ => 3600000

def nextFleetResetDue (cycle : Cycle) (anchor after : Int) : Except ResetError Int :=
  if !validFleetResetCycle cycle ∨ anchor < 0 ∨ after < 0 then throw .schedule
  else if cycle = .none ∨ anchor = 0 then pure 0
  else if cycle = .monthly then
    let start := Time.ofUnixMilli anchor
    let s := civil start.day
    let c := civil (Time.ofUnixMilli (max anchor after)).day
    nextMonthly start anchor after 2 (max 1 ((c.year - s.year) * 12 + (c.month - s.month)))
  else
    let periods := max 0 ((after - anchor).tdiv cycle.step) + 1
    if periods > (maxInt64 - anchor).tdiv cycle.step then throw .schedule else pure (anchor + periods * cycle.step)

/-- The anchor's day and time of day in the `k`-th month after the anchor's. -/
def monthlyInstant (anchor : Int) (k : Nat) : Int :=
  let n := anchor / 86400000
  (firstDay (monthOf n + k) + (min (n - firstDay (monthOf n) + 1) (monthLength (monthOf n + k)) - 1)) * 86400000 +
    anchor % 86400000

/-- The milliseconds of an hour, a day and a week. -/
def period : Cycle → Int
  | .daily => 86400000
  | .weekly => 604800000
  | _ => 3600000

/-- The `k`-th instant of a schedule. -/
def instant (cycle : Cycle) (anchor : Int) (k : Nat) : Int :=
  if cycle = .monthly then monthlyInstant anchor k else anchor + k * period cycle

/-- The instants of a schedule that are later than both its anchor and `after`. -/
def upcoming (cycle : Cycle) (anchor after : Int) : Set Int :=
  {g | anchor < g ∧ after < g ∧ ∃ k, 1 ≤ k ∧ g = instant cycle anchor k}

theorem step_eq_period (cycle : Cycle) : cycle.step = period cycle := by
  cases cycle <;> rfl

theorem period_pos (cycle : Cycle) : 0 < period cycle := by
  cases cycle <;> simp [period]

theorem monthlyInstant_bounds {anchor : Int} (ha : 0 < anchor) (k : Nat) :
    firstDay (monthOf (anchor / 86400000) + k) * 86400000 ≤ monthlyInstant anchor k ∧
      monthlyInstant anchor k < firstDay (monthOf (anchor / 86400000) + k + 1) * 86400000 := by
  have hlow := firstDay_monthOf_le (n := anchor / 86400000) (by omega)
  have hlen : 1 ≤ monthLength (monthOf (anchor / 86400000) + k) := one_le_monthDays ..
  have hsucc : firstDay (monthOf (anchor / 86400000) + k + 1) =
    firstDay (monthOf (anchor / 86400000) + k) + monthLength (monthOf (anchor / 86400000) + k) := rfl
  unfold monthlyInstant
  dsimp only
  omega

theorem monthlyInstant_zero {anchor : Int} (ha : 0 < anchor) : monthlyInstant anchor 0 = anchor := by
  have hhigh := lt_firstDay_monthOf (n := anchor / 86400000) (by omega)
  rw [firstDay] at hhigh
  unfold monthlyInstant
  dsimp only [Nat.add_zero]
  omega

theorem instant_zero {anchor : Int} (ha : 0 < anchor) (cycle : Cycle) : instant cycle anchor 0 = anchor := by
  unfold instant
  split
  · exact monthlyInstant_zero ha
  · simp

theorem instant_strictMono {anchor : Int} (ha : 0 < anchor) (cycle : Cycle) :
    StrictMono (instant cycle anchor) := by
  refine strictMono_nat_of_lt_succ fun k => ?_
  unfold instant
  split
  · have hk := (monthlyInstant_bounds ha k).2
    have hk1 := (monthlyInstant_bounds ha (k + 1)).1
    exact hk.trans_le hk1
  · have hstep := period_pos cycle
    push_cast
    linarith

theorem addDate_firstDay {k K : Nat} {j : Int} (h : (k : Int) + j = K) (d clock : Int) :
    Time.addDate ⟨firstDay k, clock⟩ j d = ⟨firstDay K + d, clock⟩ := by
  have hmonth : monthOf (firstDay k) = k := monthOf_eq le_rfl (firstDay_strictMono k.lt_add_one)
  unfold Time.addDate Time.date civil
  dsimp only
  rw [hmonth, dayNumber_month, h, Int.toNat_natCast]
  congr 1
  omega

/-- The last day of a month is the one before the first of the next. -/
theorem civil_lastDay (k : Nat) : (civil (firstDay (k + 1) + -1)).day = monthLength k := by
  have hsucc : firstDay (k + 1) = firstDay k + monthLength k := rfl
  have hlen : 1 ≤ monthLength k := one_le_monthDays ..
  have hmonth : monthOf (firstDay (k + 1) + -1) = k := monthOf_eq (by omega) (by omega)
  unfold civil
  dsimp only
  rw [hmonth]
  omega

theorem unixMilli_eq {t : Time} (hlow : 0 ≤ t.day * 86400000 + t.clock)
    (hhigh : t.day * 86400000 + t.clock ≤ maxInt64) : t.unixMilli = t.day * 86400000 + t.clock := by
  have hmax : ((maxInt64 : Nat) : Int) = 2 ^ 63 - 1 := rfl
  unfold Time.unixMilli
  omega

theorem nextMonthly_turn (start : Time) (anchor after : Int) (tries k : Nat) :
    nextMonthly start anchor after (tries + 1) k =
      let next := Time.unixMilli ⟨firstDay (monthOf start.day + k) +
        (min (civil start.day).day (monthLength (monthOf start.day + k)) - 1), start.clock⟩
      if next > after ∧ next > anchor then pure next else nextMonthly start anchor after tries (k + 1) := by
  have hdate : Time.date (civil start.day).year ((civil start.day).month + k) 1 start.clock
      = ⟨firstDay (monthOf start.day + k), start.clock⟩ := by
    unfold Time.date civil
    rw [dayNumber_month, ← Nat.cast_add, Int.toNat_natCast, sub_self, add_zero]
  rw [nextMonthly]
  rw [hdate, addDate_firstDay (Nat.cast_succ _).symm, civil_lastDay, addDate_firstDay (add_zero _)]

/-- One turn of the monthly loop looks at one instant of the schedule. -/
theorem nextMonthly_succ {anchor after : Int} {k : Nat} (ha : 0 < anchor)
    (hk : monthlyInstant anchor k ≤ maxInt64) (tries : Nat) :
    nextMonthly (.ofUnixMilli anchor) anchor after (tries + 1) k =
      if monthlyInstant anchor k > after ∧ monthlyInstant anchor k > anchor then pure (monthlyInstant anchor k)
      else nextMonthly (.ofUnixMilli anchor) anchor after tries (k + 1) := by
  have hlow := (monthlyInstant_bounds ha k).1
  have hfirst := le_firstDay (monthOf (anchor / 86400000) + k)
  have hunix : Time.unixMilli ⟨firstDay (monthOf (anchor / 86400000) + k) +
      (min (civil (anchor / 86400000)).day (monthLength (monthOf (anchor / 86400000) + k)) - 1),
      anchor % 86400000⟩ = monthlyInstant anchor k := by
    unfold monthlyInstant civil at *
    rw [unixMilli_eq (by dsimp only at *; omega) hk]
  rw [nextMonthly_turn]
  exact hunix ▸ rfl

/-- One of the two months that the loop tries holds the first instant to come. -/
theorem nextFleetResetDue_monthly {anchor after : Int} (ha : 0 < anchor) (hafter : 0 ≤ after)
    {K : Nat} (hK : 1 ≤ K) (hnew : anchor < monthlyInstant anchor K ∧ after < monthlyInstant anchor K)
    (hmax : monthlyInstant anchor K ≤ maxInt64) :
    ∃ k, 1 ≤ k ∧ nextFleetResetDue .monthly anchor after = .ok (monthlyInstant anchor k) ∧
      anchor < monthlyInstant anchor k ∧ after < monthlyInstant anchor k ∧
      ∀ i, 1 ≤ i → i < k → monthlyInstant anchor i ≤ max anchor after := by
  have hmono : StrictMono (monthlyInstant anchor) := instant_strictMono ha .monthly
  have hstart := firstDay_monthOf_le (n := anchor / 86400000) (by omega)
  have hcursor := firstDay_monthOf_le (n := max anchor after / 86400000) (by omega)
  have hcursor' := lt_firstDay_monthOf (n := max anchor after / 86400000) (by omega)
  have hle : monthOf (anchor / 86400000) ≤ monthOf (max anchor after / 86400000) := by
    have hlt := hstart.trans_lt ((show anchor / 86400000 ≤ max anchor after / 86400000 by omega).trans_lt hcursor')
    have := firstDay_strictMono.lt_iff_lt.mp hlt
    omega
  obtain ⟨gap, hgap⟩ := Nat.exists_eq_add_of_le hle
  have hpassed : ∀ i, i < gap → monthlyInstant anchor i ≤ max anchor after := by
    intro i hi
    have hbefore := (monthlyInstant_bounds ha i).2
    have := firstDay_strictMono.monotone (show monthOf (anchor / 86400000) + i + 1 ≤ monthOf (max anchor after / 86400000) by omega)
    omega
  have hcoming : ∀ i, gap < i → max anchor after < monthlyInstant anchor i := by
    intro i hi
    have hafter := (monthlyInstant_bounds ha i).1
    have := firstDay_strictMono.monotone (show monthOf (max anchor after / 86400000) + 1 ≤ monthOf (anchor / 86400000) + i by omega)
    omega
  have hbound : ∀ k, (∀ i, 1 ≤ i → i < k → monthlyInstant anchor i ≤ max anchor after) →
      monthlyInstant anchor k ≤ maxInt64 := by
    intro k hold
    have hkK : k ≤ K := by
      by_contra hlt
      have := hold K hK (by omega)
      omega
    exact (hmono.monotone hkK).trans hmax
  have hrun : nextFleetResetDue .monthly anchor after =
      nextMonthly (.ofUnixMilli anchor) anchor after 2 ((max 1 gap : Nat) : Int) := by
    unfold nextFleetResetDue
    rw [if_neg (by simp [validFleetResetCycle]; omega), if_neg (by simp; omega), if_pos rfl]
    dsimp only [Time.ofUnixMilli, civil]
    congr 1
    omega
  have hold : ∀ i, 1 ≤ i → i < max 1 gap → monthlyInstant anchor i ≤ max anchor after :=
    fun i h1 hi => hpassed i (by omega)
  rw [hrun, nextMonthly_succ ha (hbound _ hold)]
  split
  · next hnow => exact ⟨max 1 gap, by omega, rfl, hnow.2, hnow.1, hold⟩
  · next hnow =>
    have hold' : ∀ i, 1 ≤ i → i < max 1 gap + 1 → monthlyInstant anchor i ≤ max anchor after := by
      intro i h1 hi
      rcases Nat.lt_succ_iff_lt_or_eq.mp hi with hlt | rfl
      · exact hold i h1 hlt
      · omega
    have hnext := hcoming (max 1 gap + 1) (by omega)
    refine ⟨max 1 gap + 1, by omega, ?_, by omega, by omega, hold'⟩
    rw [← Nat.cast_succ, nextMonthly_succ ha (hbound _ hold'), if_pos (by omega)]
    rfl

theorem nextFleetResetDue_periodic {cycle : Cycle} {anchor after : Int} (hvalid : validFleetResetCycle cycle)
    (hnone : cycle ≠ .none) (hmonthly : cycle ≠ .monthly) (ha : 0 < anchor) (hafter : 0 ≤ after) {K : Nat}
    (hK : 1 ≤ K) (hnew : after < anchor + K * period cycle) (hmax : anchor + K * period cycle ≤ maxInt64) :
    ∃ k : Nat, 1 ≤ k ∧ nextFleetResetDue cycle anchor after = .ok (anchor + k * period cycle) ∧
      after < anchor + k * period cycle ∧
      ∀ i : Nat, 1 ≤ i → i < k → anchor + i * period cycle ≤ max anchor after := by
  have hstep := period_pos cycle
  obtain ⟨q, hq⟩ : ∃ q : Nat, (q : Int) = max 0 ((after - anchor).tdiv (period cycle)) :=
    ⟨_, Int.toNat_of_nonneg (le_max_left ..)⟩
  -- `q` whole periods lie between the anchor and `after`
  have hq' : (q : Int) * period cycle ≤ max 0 (after - anchor) ∧ after - anchor < (q + 1) * period cycle := by
    rcases lt_or_ge after anchor with hlt | hge
    · have hneg : 0 ≤ (anchor - after).tdiv (period cycle) := Int.tdiv_nonneg (by omega) hstep.le
      rw [← neg_sub, Int.neg_tdiv] at hq
      obtain rfl : q = 0 := by omega
      refine ⟨by simp, ?_⟩
      push_cast
      linarith
    · rw [Int.tdiv_eq_ediv_of_nonneg (by omega), max_eq_right (Int.ediv_nonneg (by omega) hstep.le)] at hq
      rw [hq]
      exact ⟨(Int.ediv_mul_le _ hstep.ne').trans (le_max_right ..), Int.lt_ediv_add_one_mul_self _ hstep⟩
  have hold : ∀ i : Nat, 1 ≤ i → i < q + 1 → anchor + i * period cycle ≤ max anchor after := by
    intro i _ hi
    have hiq : (i : Int) * period cycle ≤ q * period cycle :=
      mul_le_mul_of_nonneg_right (by omega) hstep.le
    omega
  have hfits : ((q : Int) + 1) ≤ (maxInt64 - anchor).tdiv (period cycle) := by
    have hqK : (q : Int) < K := by
      by_contra hle
      have hKq : (K : Int) * period cycle ≤ q * period cycle := mul_le_mul_of_nonneg_right (by omega) hstep.le
      have hpos : 0 < (K : Int) * period cycle := mul_pos (by omega) hstep
      omega
    have hroom : ((q : Int) + 1) * period cycle ≤ maxInt64 - anchor := by
      have := mul_le_mul_of_nonneg_right (show (q : Int) + 1 ≤ K by omega) hstep.le
      omega
    have hnonneg : (0 : Int) ≤ maxInt64 - anchor := le_trans (mul_nonneg (by omega) hstep.le) hroom
    rw [Int.tdiv_eq_ediv_of_nonneg hnonneg]
    exact Int.le_ediv_of_mul_le hstep hroom
  refine ⟨q + 1, by omega, ?_, ?_, hold⟩
  · unfold nextFleetResetDue
    rw [if_neg (by simp [hvalid]; omega), if_neg (by simp [hnone]; omega), if_neg hmonthly, step_eq_period]
    rw [← hq, if_neg (by omega)]
    push_cast
    rfl
  · push_cast
    linarith

/-- The next due instant is the least one of the schedule after both the anchor and `after`, when one of them fits an
`int64` at all. -/
theorem next_due_is_least (cycle : Cycle) (anchor : Int) (hvalid : validFleetResetCycle cycle)
    (hnone : cycle ≠ .none) (ha : 0 < anchor) :
    instant cycle anchor 0 = anchor ∧ StrictMono (instant cycle anchor) ∧
    (∀ after, 0 ≤ after → (∃ g ∈ upcoming cycle anchor after, g ≤ maxInt64) →
      ∃ due, nextFleetResetDue cycle anchor after = .ok due ∧ IsLeast (upcoming cycle anchor after) due) ∧
    ∀ n, instant cycle anchor (n + 1) ≤ maxInt64 →
      nextFleetResetDue cycle anchor (instant cycle anchor n) = .ok (instant cycle anchor (n + 1)) := by
  have hzero := instant_zero ha cycle
  have hmono := instant_strictMono ha cycle
  have hdue : ∀ after, 0 ≤ after → (∃ g ∈ upcoming cycle anchor after, g ≤ maxInt64) →
      ∃ k, 1 ≤ k ∧ nextFleetResetDue cycle anchor after = .ok (instant cycle anchor k) ∧
        anchor < instant cycle anchor k ∧ after < instant cycle anchor k ∧
        ∀ i, 1 ≤ i → i < k → instant cycle anchor i ≤ max anchor after := by
    rintro after hafter ⟨_, ⟨hga, hgafter, K, hK, rfl⟩, hmax⟩
    unfold instant at *
    by_cases hmonthly : cycle = .monthly
    · subst hmonthly
      exact nextFleetResetDue_monthly ha hafter hK ⟨hga, hgafter⟩ hmax
    · rw [if_neg hmonthly] at hgafter hmax
      obtain ⟨k, hk, hnext, hlt, hold⟩ :=
        nextFleetResetDue_periodic hvalid hnone hmonthly ha hafter hK hgafter hmax
      have hpos : 0 < (k : Int) * period cycle := mul_pos (by omega) (period_pos cycle)
      simp only [if_neg hmonthly]
      exact ⟨k, hk, hnext, by omega, hlt, hold⟩
  refine ⟨hzero, hmono, ?_, ?_⟩
  · intro after hafter hroom
    obtain ⟨k, hk, hnext, hlt, hlt', hold⟩ := hdue after hafter hroom
    refine ⟨_, hnext, ⟨hlt, hlt', k, hk, rfl⟩, ?_⟩
    rintro _ ⟨hga, hgafter, i, hi, rfl⟩
    by_contra hless
    have := hold i hi (hmono.lt_iff_lt.mp (not_le.mp hless))
    omega
  · intro n hmax
    have hn := hmono.monotone (Nat.zero_le n)
    have hn1 := hmono (Nat.lt_add_one n)
    rw [hzero] at hn
    obtain ⟨k, hk, hnext, hlt, hlt', hold⟩ := hdue (instant cycle anchor n) (by omega)
      ⟨_, ⟨by omega, hn1, n + 1, by omega, rfl⟩, hmax⟩
    have hnk := hmono.lt_iff_lt.mp hlt'
    have hkn : k ≤ n + 1 := by
      by_contra hgt
      have := hold (n + 1) (by omega) (by omega)
      omega
    obtain rfl : k = n + 1 := by omega
    exact hnext

/-- From 1970-01-31 the resets are due on 1970-02-28 and 1970-03-31. -/
theorem next_due_is_least_short_month :
    nextFleetResetDue .monthly 2592000000 2592000000 = .ok 5011200000 ∧
      nextFleetResetDue .monthly 2592000000 5011200000 = .ok 7689600000 := by
  have h0 : instant .monthly 2592000000 0 = 2592000000 := by decide +kernel
  have h1 : instant .monthly 2592000000 1 = 5011200000 := by decide +kernel
  have h2 : instant .monthly 2592000000 2 = 7689600000 := by decide +kernel
  have hrun := (next_due_is_least .monthly 2592000000 rfl (by decide) (by decide)).2.2.2
  have hfirst := hrun 0 (by decide +kernel)
  have hsecond := hrun 1 (by decide +kernel)
  rw [h0, h1] at hfirst
  rw [h1, h2] at hsecond
  exact ⟨hfirst, hsecond⟩

end Pui.Reset
