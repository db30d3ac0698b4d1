import Mathlib.Tactic.IntervalCases
import Pui.Calendar

/-!
# The Jalali dates of expiry labels

`gregorianToJalali` of `internal/sub/remark_vars.go`: a closed day number, then a walk over the Jalali months.
-/

namespace Pui.Jalali

open Calendar

def isJalaliLeap (y : Int) : Bool := [1, 5, 9, 13, 17, 22, 26, 30].contains (y.tmod 33)

def jalaliMonthDays (y m : Int) : Int :=
  if m ≤ 6 then 31 else if m ≤ 11 then 30 else if isJalaliLeap y then 30 else 29

theorem one_le_jalaliMonthDays (y m : Int) : 1 ≤ jalaliMonthDays y m := by
  unfold jalaliMonthDays
  split_ifs <;> decide

/-- The loop that goes forward month by month; `none` is a loop that has not ended. -/
def walkForward : Nat → Int → Date → Option Date
  | 0, days, j => if 0 < days then none else some j
  | fuel + 1, days, j =>
    if 0 < days then
      let remaining := jalaliMonthDays j.year j.month - j.day + 1
      if days < remaining then some { j with day := j.day + days }
      else
        walkForward fuel (days - remaining)
          (if 12 < j.month + 1 then ⟨j.year + 1, 1, 1⟩ else ⟨j.year, j.month + 1, 1⟩)
    else some j

def prevMonth (j : Date) : Date :=
  if j.month - 1 < 1 then ⟨j.year - 1, 12, j.day⟩ else ⟨j.year, j.month - 1, j.day⟩

def walkBackward : Nat → Date → Option Date
  | 0, j => if j.day < 1 then none else some j
  | fuel + 1, j =>
    if j.day < 1 then
      let p := prevMonth j
      walkBackward fuel ⟨p.year, p.month, p.day + jalaliMonthDays p.year p.month⟩
    else some j

/-- The Julian day number of a Gregorian date. -/
def jdn (gy gm gd : Int) : Int :=
  let a := (14 - gm).tdiv 12
  let y := gy + 4800 - a
  let m := gm + 12 * a - 3
  gd + (153 * m + 2).tdiv 5 + 365 * y + y.tdiv 4 - y.tdiv 100 + y.tdiv 400 - 32045

def reference : Date := ⟨1402, 10, 11⟩

/-- The walk over so many days. Each loop runs at most once a day. -/
def walk (days : Int) : Option Date :=
  if 0 < days then walkForward days.toNat days reference
  else if days < 0 then walkBackward days.natAbs { reference with day := reference.day + days }
  else some reference

def gregorianToJalali (gy gm gd : Int) : Option Date := walk (jdn gy gm gd - 2460311)

theorem walkForward_eq {fuel n : Nat} {j : Date} (hj : j.Fits jalaliMonthDays) (hn : n ≤ fuel) :
    walkForward fuel n j = some ((Date.next jalaliMonthDays)^[n] j) := by
  induction fuel generalizing n j with
  | zero =>
    obtain rfl : n = 0 := by omega
    rfl
  | succ fuel ih =>
    have hd := hj.day
    unfold walkForward
    split
    · dsimp only
      split
      · rw [Date.next_iterate_day n (by omega)]
      · -- the rest of this month, then the walk from the first of the next
        obtain ⟨r, hr⟩ : ∃ r : Nat, (r : Int) = jalaliMonthDays j.year j.month - j.day + 1 :=
          ⟨_, Int.toNat_of_nonneg (by omega)⟩
        obtain ⟨k, rfl⟩ : ∃ k, n = k + r := ⟨n - r, by omega⟩
        have hmonth : (if 12 < j.month + 1 then (⟨j.year + 1, 1, 1⟩ : Date) else ⟨j.year, j.month + 1, 1⟩)
            = j.nextMonth := by
          unfold Date.nextMonth
          split_ifs <;> first | rfl | omega
        have hrest : ((k + r : Nat) : Int) - (jalaliMonthDays j.year j.month - j.day + 1) = k := by omega
        rw [hmonth, hrest, ih (hj.nextMonth one_le_jalaliMonthDays) (by omega), Function.iterate_add_apply,
          Date.next_iterate_nextMonth r (by omega) (by omega)]
    · obtain rfl : n = 0 := by omega
      rfl

theorem walkBackward_of_pos {fuel : Nat} {j : Date} (h : 1 ≤ j.day) : walkBackward fuel j = some j := by
  cases fuel <;> exact if_neg (by omega)

theorem prevMonth_spec {j : Date} (hm : 1 ≤ j.month ∧ j.month ≤ 12) : ∃ y m, (1 ≤ m ∧ m ≤ 12) ∧
    (∀ d, prevMonth ⟨j.year, j.month, d⟩ = ⟨y, m, d⟩) ∧ ∀ d, (⟨y, m, d⟩ : Date).nextMonth = ⟨j.year, j.month, 1⟩ := by
  by_cases hjan : j.month - 1 < 1
  · refine ⟨j.year - 1, 12, by decide, fun d => if_pos hjan, fun d => ?_⟩
    have hmonth : j.month = 1 := by omega
    rw [Date.nextMonth, if_neg (by dsimp only; omega), sub_add_cancel, hmonth]
  · refine ⟨j.year, j.month - 1, by omega, fun d => if_neg hjan, fun d => ?_⟩
    rw [Date.nextMonth, if_pos (by dsimp only; omega), sub_add_cancel]

theorem walkBackward_succ {fuel fuel' : Nat} {j : Date} (hm : 1 ≤ j.month ∧ j.month ≤ 12)
    (hd : j.day < jalaliMonthDays j.year j.month) (hfuel : 1 - j.day ≤ fuel) (hfuel' : - j.day ≤ fuel') :
    ∃ r, walkBackward fuel j = some r ∧ r.Fits jalaliMonthDays ∧
      walkBackward fuel' ⟨j.year, j.month, j.day + 1⟩ = some (r.next jalaliMonthDays) := by
  induction fuel generalizing j fuel' with
  | zero =>
    refine ⟨j, walkBackward_of_pos (by omega), ⟨hm, by omega, hd.le⟩, ?_⟩
    rw [walkBackward_of_pos (by dsimp only; omega), Date.next, if_pos hd]
  | succ fuel ih =>
    by_cases hpos : 1 ≤ j.day
    · refine ⟨j, walkBackward_of_pos hpos, ⟨hm, hpos, hd.le⟩, ?_⟩
      rw [walkBackward_of_pos (by dsimp only; omega), Date.next, if_pos hd]
    · obtain ⟨y, m, hm', hprev, hnext⟩ := prevMonth_spec hm
      have hlen := one_le_jalaliMonthDays y m
      rw [walkBackward, if_pos (by omega), hprev j.day]
      by_cases hzero : j.day = 0
      · -- the last day of the month before is followed by the first of this one
        refine ⟨_, walkBackward_of_pos (by dsimp only; omega), ⟨hm', by dsimp only; omega⟩, ?_⟩
        rw [walkBackward_of_pos (by dsimp only; omega), Date.next, if_neg (by dsimp only; omega), hnext, hzero]
        rfl
      · obtain ⟨fuel', rfl⟩ : ∃ k, fuel' = k + 1 := ⟨fuel' - 1, by omega⟩
        rw [walkBackward, if_pos (by dsimp only; omega), hprev]
        dsimp only
        rw [add_right_comm]
        exact ih hm' (by dsimp only; omega) (by dsimp only; omega) (by dsimp only; omega)

theorem reference_fits : reference.Fits jalaliMonthDays := ⟨by decide, by decide⟩

theorem walk_succ (n : Int) :
    ∃ j, walk n = some j ∧ j.Fits jalaliMonthDays ∧ walk (n + 1) = some (j.next jalaliMonthDays) := by
  have hforward : ∀ k : Nat, walk k = some ((Date.next jalaliMonthDays)^[k] reference) := by
    intro k
    unfold walk
    split_ifs with hpos hneg
    · exact walkForward_eq reference_fits le_rfl
    · omega
    · obtain rfl : k = 0 := by omega
      rfl
  rcases lt_or_ge n 0 with hneg | hpos
  · have hn : walk n = walkBackward n.natAbs ⟨1402, 10, 11 + n⟩ := by
      rw [walk, if_neg (by omega), if_pos hneg]
      rfl
    have hn1 : walk (n + 1) = walkBackward (n + 1).natAbs ⟨1402, 10, 11 + n + 1⟩ := by
      unfold walk
      split_ifs
      · omega
      · rw [add_assoc]
        rfl
      · obtain rfl : n = -1 := by omega
        rfl
    rw [hn, hn1]
    exact walkBackward_succ (j := ⟨1402, 10, 11 + n⟩) (by simp) (by simp [jalaliMonthDays]; omega)
      (by dsimp only; omega) (by dsimp only; omega)
  · lift n to Nat using hpos
    refine ⟨_, hforward n, Function.Iterate.rec _ reference_fits (fun _ h => h.next one_le_jalaliMonthDays) n, ?_⟩
    rw [← Nat.cast_succ, hforward, Function.iterate_succ_apply']

theorem before_of_walk {a b : Int} {j j' : Date} (hab : a < b) (ha : walk a = some j) (hb : walk b = some j') :
    j.Before j' := by
  induction b, hab using Int.leInduction generalizing j' with
  | base =>
    obtain ⟨_, h, -, hnext⟩ := walk_succ a
    cases ha.symm.trans h
    cases hb.symm.trans hnext
    exact Date.before_next _
  | succ b _ ih =>
    obtain ⟨i, h, -, hnext⟩ := walk_succ b
    cases hb.symm.trans hnext
    exact (ih h).trans (Date.before_next _)

theorem jdn_eq {g : Date} (hg : g.Fits monthDays) (hy : 1970 ≤ g.year) :
    jdn g.year g.month g.day = g.day +
      (if g.month ≤ 2 then (153 * (g.month + 9) + 2) / 5 + 365 * (g.year + 4799) + (g.year + 4799) / 4
        - (g.year + 4799) / 100 + (g.year + 4799) / 400
      else (153 * (g.month - 3) + 2) / 5 + 365 * (g.year + 4800) + (g.year + 4800) / 4
        - (g.year + 4800) / 100 + (g.year + 4800) / 400) - 32045 := by
  have hm := hg.month
  have ha : (14 - g.month).tdiv 12 = if g.month ≤ 2 then 1 else 0 := by
    rw [Int.tdiv_eq_ediv_of_nonneg (by omega)]
    split <;> omega
  unfold jdn
  dsimp only
  rw [ha]
  split
  · rw [Int.tdiv_eq_ediv_of_nonneg (by omega), Int.tdiv_eq_ediv_of_nonneg (by omega),
      Int.tdiv_eq_ediv_of_nonneg (by omega), Int.tdiv_eq_ediv_of_nonneg (by omega)]
    omega
  · rw [Int.tdiv_eq_ediv_of_nonneg (by omega), Int.tdiv_eq_ediv_of_nonneg (by omega),
      Int.tdiv_eq_ediv_of_nonneg (by omega), Int.tdiv_eq_ediv_of_nonneg (by omega)]
    omega

/-- The leap days that the formula counts before March of year `y`. -/
theorem leap_days (y : Int) : (y + 4800) / 4 - (y + 4800) / 100 + (y + 4800) / 400
    = (y + 4799) / 4 - (y + 4799) / 100 + (y + 4799) / 400 + if leap y then 1 else 0 := by
  have h4 : (y + 4800) / 4 = (y + 4799) / 4 + if y % 4 = 0 then 1 else 0 := by
    split <;> omega
  have h100 : (y + 4800) / 100 = (y + 4799) / 100 + if y % 100 = 0 then 1 else 0 := by
    split <;> omega
  have h400 : (y + 4800) / 400 = (y + 4799) / 400 + if y % 400 = 0 then 1 else 0 := by
    split <;> omega
  have hleap : leap y = true ↔ y % 4 = 0 ∧ (y % 100 ≠ 0 ∨ y % 400 = 0) := by simp [leap]
  rw [h4, h100, h400]
  simp only [hleap]
  split_ifs <;> omega

theorem jdn_nextMonth {g : Date} (hg : g.Fits monthDays) (hy : 1970 ≤ g.year) :
    jdn g.nextMonth.year g.nextMonth.month g.nextMonth.day
      = jdn g.year g.month g.day + (monthDays g.year g.month - g.day + 1) := by
  have hspec := Date.nextMonth_spec hg
  rw [jdn_eq (hg.nextMonth one_le_monthDays) (by omega), jdn_eq hg hy]
  obtain ⟨y, m, d⟩ := g
  have hm : 1 ≤ m ∧ m ≤ 12 := hg.month
  obtain ⟨hm1, hm12⟩ := hm
  have hleap := leap_days y
  simp only [Date.nextMonth, monthDays]
  -- only the step from February crosses a year of the formula
  cases hl : leap y <;> rw [hl] at hleap <;> interval_cases m <;> simp at hleap ⊢ <;> omega

theorem jdn_add (gy gm gd n : Int) : jdn gy gm (gd + n) = jdn gy gm gd + n := by
  unfold jdn
  dsimp only
  omega

theorem jdn_next {g : Date} (hg : g.Fits monthDays) (hy : 1970 ≤ g.year) :
    jdn (g.next monthDays).year (g.next monthDays).month (g.next monthDays).day
      = jdn g.year g.month g.day + 1 := by
  have hd := hg.day
  unfold Date.next
  split
  · exact jdn_add ..
  · rw [jdn_nextMonth hg hy]
    omega

theorem jdn_first_le {g g' : Date} (n : Nat) (hg : g.Fits monthDays) (hy : 1970 ≤ g.year)
    (hg' : g'.Fits monthDays) (hday : g.day = 1)
    (hn : g'.year * 12 + g'.month = g.year * 12 + g.month + n) :
    jdn g.year g.month g.day ≤ jdn g'.year g'.month g'.day := by
  have hd := hg.day
  have hm := hg.month
  have hm' := hg'.month
  induction n generalizing g with
  | zero =>
    obtain ⟨hyear, hmonth⟩ : g'.year = g.year ∧ g'.month = g.month := by omega
    have hadd := jdn_add g.year g.month g.day (g'.day - g.day)
    rw [add_sub_cancel] at hadd
    have hd' := hg'.day
    rw [hyear, hmonth]
    omega
  | succ n ih =>
    obtain ⟨hfirst, hlater, hmonths⟩ := Date.nextMonth_spec hg
    have hnext := hg.nextMonth one_le_monthDays
    have hle := ih hnext (by omega) hfirst (by omega) hnext.day hnext.month
    have hjdn := jdn_nextMonth hg hy
    omega

theorem jdn_lt {g g' : Date} (hg : g.Fits monthDays) (hy : 1970 ≤ g.year) (hg' : g'.Fits monthDays)
    (h : g.Before g') : jdn g.year g.month g.day < jdn g'.year g'.month g'.day := by
  have hd := hg.day
  have hm := hg.month
  have hm' := hg'.month
  unfold Date.Before at h
  by_cases hsame : g'.year = g.year ∧ g'.month = g.month
  · have hadd := jdn_add g.year g.month g.day (g'.day - g.day)
    rw [add_sub_cancel] at hadd
    rw [hsame.1, hsame.2]
    omega
  · obtain ⟨hfirst, hlater, hmonths⟩ := Date.nextMonth_spec hg
    obtain ⟨n, hn⟩ : ∃ n : Nat, (n : Int) = g'.year * 12 + g'.month - (g.year * 12 + g.month + 1) :=
      ⟨_, Int.toNat_of_nonneg (by omega)⟩
    have hle := jdn_first_le n (hg.nextMonth one_le_monthDays) (by omega) hg' hfirst (by omega)
    have hjdn := jdn_nextMonth hg hy
    omega

/-- The conversion goes through the calendar day by day. -/
theorem jalali_follows_gregorian {g : Date} (hg : g.Fits monthDays) (hy : 1970 ≤ g.year) :
    ∃ j, gregorianToJalali g.year g.month g.day = some j ∧ j.Fits jalaliMonthDays ∧
      gregorianToJalali (g.next monthDays).year (g.next monthDays).month (g.next monthDays).day
        = some (j.next jalaliMonthDays) ∧
      ∀ g' : Date, g'.Fits monthDays → 1970 ≤ g'.year →
        ∃ j', gregorianToJalali g'.year g'.month g'.day = some j' ∧
          (g.Before g' ↔ j.Before j') ∧ (g = g' ↔ j = j') := by
  obtain ⟨j, hj, hfits, hnext⟩ := walk_succ (jdn g.year g.month g.day - 2460311)
  refine ⟨j, hj, hfits, ?_, ?_⟩
  · rw [gregorianToJalali, jdn_next hg hy, ← hnext]
    congr 1
    omega
  · intro g' hg' hy'
    obtain ⟨j', hj', -⟩ := walk_succ (jdn g'.year g'.month g'.day - 2460311)
    refine ⟨j', hj', ?_⟩
    rcases g.before_or_eq_or_before g' with hlt | rfl | hgt
    · have hbefore := before_of_walk (sub_lt_sub_right (jdn_lt hg hy hg' hlt) _) hj hj'
      exact ⟨iff_of_true hlt hbefore, iff_of_false (fun h => Date.Before.irrefl _ (h ▸ hlt))
        (fun h => Date.Before.irrefl _ (h ▸ hbefore))⟩
    · cases hj.symm.trans hj'
      exact ⟨iff_of_false (Date.Before.irrefl _) (Date.Before.irrefl _), iff_of_true rfl rfl⟩
    · have hbefore := before_of_walk (sub_lt_sub_right (jdn_lt hg' hy' hg hgt) _) hj' hj
      exact ⟨iff_of_false (fun h => Date.Before.irrefl _ (h.trans hgt))
          (fun h => Date.Before.irrefl _ (h.trans hbefore)),
        iff_of_false (fun h => Date.Before.irrefl _ (h ▸ hgt)) (fun h => Date.Before.irrefl _ (h ▸ hbefore))⟩

/-- 2024-03-19, the last day of 1402. -/
theorem jalali_follows_gregorian_nowruz : gregorianToJalali 2024 3 19 = some ⟨1402, 12, 29⟩ ∧
    gregorianToJalali 2024 3 20 = some ⟨1403, 1, 1⟩ := by
  obtain ⟨j, hj, -, hnext, -⟩ :=
    jalali_follows_gregorian (g := ⟨2024, 3, 19⟩) ⟨by decide, by decide⟩ (by decide)
  have hlast : gregorianToJalali 2024 3 19 = some ⟨1402, 12, 29⟩ := by decide +kernel
  obtain rfl := Option.some.inj (hj.symm.trans hlast)
  exact ⟨hlast, hnext⟩

end Pui.Jalali
