import Mathlib.Data.List.Basic
import Mathlib.Data.Int.Order.Basic

/-!
# Rate ladders

A plan is a ladder of rates: a tier binds once the usage reaches its threshold, and the highest threshold reached
decides, the last tier of those that share it.
-/

namespace Pui

open List

namespace Policy

variable {usedBytes : Int}

/-- One rung: the bytes from which it binds, and the rates in bits a second. -/
structure Tier where
  fromBytes : Int
  upBps : Int
  downBps : Int
  deriving DecidableEq

structure Plan where
  tiers : List Tier
  deriving DecidableEq

structure Limits where
  upBps : Int
  downBps : Int
  deriving DecidableEq

def Tier.pick (usedBytes : Int) : Option Tier → Tier → Option Tier
  | none, tier => if tier.fromBytes > usedBytes then none else some tier
  | some best, tier =>
    if tier.fromBytes > usedBytes then some best
    -- of two tiers with one threshold the later one wins
    else if tier.fromBytes ≥ best.fromBytes then some tier else some best

def Plan.best (p : Plan) (usedBytes : Int) : Option Tier := p.tiers.foldl (Tier.pick usedBytes) none

def evaluate (p : Plan) (usedBytes : Int) : Limits :=
  match p.best usedBytes with
  | none => ⟨0, 0⟩
  | some best => ⟨best.upBps, best.downBps⟩

def capRate (rate : Int) : Int := if rate = 0 then 8 * 1024 * 1024 else min rate (8 * 1024 * 1024)

def depletionLadder (p : Plan) (quota : Int) : Plan :=
  if quota ≤ 0 then p
  else
    let limits := evaluate p quota
    ⟨p.tiers.filter (fun tier => tier.fromBytes < quota) ++ [⟨quota, capRate limits.upBps, capRate limits.downBps⟩]⟩

theorem Tier.pick_of_lt {tier : Tier} (h : usedBytes < tier.fromBytes) (best : Option Tier) :
    tier.pick usedBytes best = best := by
  cases best <;> exact if_pos h

theorem Tier.pick_cases (usedBytes : Int) (best : Option Tier) (tier : Tier) :
    Tier.pick usedBytes best tier = best ∨ Tier.pick usedBytes best tier = some tier := by
  by_cases hused : usedBytes < tier.fromBytes
  · exact .inl (Tier.pick_of_lt hused best)
  · cases best with
    | none => exact .inr (if_neg hused)
    | some best =>
      rw [Tier.pick, if_neg hused]
      exact (ite_eq_or_eq _ _ _).symm

theorem mem_of_foldl_pick {tiers : List Tier} {best : Option Tier} {tier : Tier}
    (h : tiers.foldl (Tier.pick usedBytes) best = some tier) : best = some tier ∨ tier ∈ tiers := by
  induction tiers generalizing best with
  | nil => exact .inl h
  | cons t tiers ih =>
    rcases ih h with hbest | hmem
    · rcases Tier.pick_cases usedBytes best t with hpick | hpick
      · exact .inl (hpick ▸ hbest)
      · rw [hpick] at hbest
        exact .inr (Option.some.inj hbest ▸ mem_cons_self)
    · exact .inr (mem_cons_of_mem t hmem)

theorem Plan.mem_of_best {p : Plan} {tier : Tier} (h : p.best usedBytes = some tier) : tier ∈ p.tiers :=
  (mem_of_foldl_pick h).resolve_left nofun

theorem foldl_pick_filter {quota : Int} (h : usedBytes < quota) (tiers : List Tier) (best : Option Tier) :
    (tiers.filter fun tier => tier.fromBytes < quota).foldl (Tier.pick usedBytes) best = tiers.foldl (Tier.pick usedBytes) best := by
  rw [foldl_filter]
  congr 1
  funext best tier
  split
  · rfl
  · rename_i hquota
    have hlt : usedBytes < tier.fromBytes := lt_of_lt_of_le h (not_lt.mp fun hlt => hquota (decide_eq_true hlt))
    exact (Tier.pick_of_lt hlt best).symm

section

variable {p : Plan} {quota usedBytes : Int}

theorem best_depletionLadder_of_lt (hquota : 0 < quota) (h : usedBytes < quota) :
    (depletionLadder p quota).best usedBytes = p.best usedBytes := by
  unfold depletionLadder Plan.best
  rw [if_neg hquota.not_ge, foldl_append, foldl_pick_filter h]
  exact Tier.pick_of_lt h _

theorem best_depletionLadder_of_le (hquota : 0 < quota) (h : quota ≤ usedBytes) :
    (depletionLadder p quota).best usedBytes =
      some ⟨quota, capRate (evaluate p quota).upBps, capRate (evaluate p quota).downBps⟩ := by
  unfold depletionLadder Plan.best
  rw [if_neg hquota.not_ge, foldl_append]
  cases hbest : (p.tiers.filter fun tier => tier.fromBytes < quota).foldl (Tier.pick usedBytes) none with
  | none => exact if_neg (not_lt.mpr h)
  | some best =>
    have hmem : best ∈ p.tiers.filter fun tier => tier.fromBytes < quota := (mem_of_foldl_pick hbest).resolve_left nofun
    have hbelow : best.fromBytes < quota := of_decide_eq_true (mem_filter.mp hmem).2
    exact (if_neg (not_lt.mpr h)).trans (if_pos (Int.le_of_lt hbelow))

end

def Plan.NonNeg (p : Plan) : Prop := ∀ tier ∈ p.tiers, 0 ≤ tier.fromBytes ∧ 0 ≤ tier.upBps ∧ 0 ≤ tier.downBps

instance (p : Plan) : Decidable p.NonNeg := inferInstanceAs (Decidable (∀ tier ∈ p.tiers, _))

theorem Plan.NonNeg.evaluate {p : Plan} (hp : p.NonNeg) (usedBytes : Int) :
    0 ≤ (Policy.evaluate p usedBytes).upBps ∧ 0 ≤ (Policy.evaluate p usedBytes).downBps := by
  unfold Policy.evaluate
  cases hbest : p.best usedBytes with
  | none => exact ⟨le_rfl, le_rfl⟩
  | some best => exact (hp best (Plan.mem_of_best hbest)).2

def Throttles (rate limit : Int) : Prop := 0 < rate ∧ rate ≤ 8 * 1024 * 1024 ∧ (limit ≠ 0 → rate ≤ limit)

instance (rate limit : Int) : Decidable (Throttles rate limit) := inferInstanceAs (Decidable (_ ∧ _ ∧ _))

theorem throttles_capRate {rate : Int} (h : 0 ≤ rate) : Throttles (capRate rate) rate := by
  unfold Throttles capRate
  split
  · rename_i hzero
    exact ⟨by decide, le_rfl, fun hne => absurd hzero hne⟩
  · rename_i hne
    exact ⟨by omega, min_le_right _ _, fun _ => min_le_left _ _⟩

/-- The depletion ladder changes speeds at and above the quota only: below it the plan decides, and from it on one fixed pair of
rates that throttles both directions. -/
theorem evaluate_depletionLadder (p : Plan) (hp : p.NonNeg) {quota : Int} (hquota : 0 < quota) :
    (∀ usedBytes < quota, evaluate (depletionLadder p quota) usedBytes = evaluate p usedBytes) ∧
      ∃ limits, (∀ usedBytes ≥ quota, evaluate (depletionLadder p quota) usedBytes = limits) ∧
        Throttles limits.upBps (evaluate p quota).upBps ∧ Throttles limits.downBps (evaluate p quota).downBps := by
  refine ⟨fun usedBytes h => ?_, ⟨capRate (evaluate p quota).upBps, capRate (evaluate p quota).downBps⟩, fun usedBytes h => ?_, ?_, ?_⟩
  · unfold evaluate
    rw [best_depletionLadder_of_lt hquota h]
  · rw [evaluate, best_depletionLadder_of_le hquota h]
  · exact throttles_capRate (hp.evaluate quota).1
  · exact throttles_capRate (hp.evaluate quota).2

/-- Two tiers out of order, a quota between them, and an unlimited rate at the quota. -/
theorem evaluate_depletionLadder_unsorted :
    let p : Plan := ⟨[⟨900, 5, 5⟩, ⟨100, 0, 64⟩, ⟨0, 1000, 1000⟩]⟩
    p.NonNeg ∧ (0 : Int) < 500 ∧ (∀ usedBytes < 500, evaluate (depletionLadder p 500) usedBytes = evaluate p usedBytes) ∧
      ∃ limits, (∀ usedBytes ≥ 500, evaluate (depletionLadder p 500) usedBytes = limits) ∧
        Throttles limits.upBps (evaluate p 500).upBps ∧ Throttles limits.downBps (evaluate p 500).downBps :=
  ⟨by decide, by decide, evaluate_depletionLadder _ (by decide) (by decide)⟩

example : evaluate (depletionLadder ⟨[⟨900, 5, 5⟩, ⟨100, 0, 64⟩, ⟨0, 1000, 1000⟩]⟩ 500) 700 = ⟨8388608, 64⟩ := by decide

end Policy

end Pui
