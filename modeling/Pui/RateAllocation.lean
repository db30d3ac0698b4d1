import Mathlib.Algebra.Group.Prod
import Mathlib.Algebra.Order.BigOperators.Group.List
import Mathlib.Algebra.Order.Monoid.Prod
import Pui.Rates

/-!
# Allocating shared rates

A budget of rates is shared out among participants.
-/

namespace Pui

open Guard List

structure RateParticipant where
  id : String
  outstanding : Rates
  eligible : Bool
  frozen : Bool
  minimumBurst : Int
  deriving DecidableEq

structure RateAllocation where
  id : String
  target : Rates
  next : Rates
  deriving DecidableEq

structure RateCapacityError where
  direction : Direction
  availableBits : Nat
  availableBurst : Int
  participants : Nat
  requiredBurst : Nat
  deriving DecidableEq

def Direction.code : Direction → Nat
  | .upload => 0
  | .download => 1

def RateCapacityError.error (e : RateCapacityError) : String :=
  "shared bandwidth cannot admit " ++ toString e.participants ++ " participants in direction " ++ toString e.direction.code ++
    " within " ++ toString e.availableBits ++ " bits/second and " ++ toString e.availableBurst ++ " burst bytes (minimum burst " ++
    toString e.requiredBurst ++ ")"

def Rates.rate (r : Rates) : Direction → Rate
  | .upload => r.upload
  | .download => r.download

structure RateTotals where
  bits : Nat
  high : Nat
  burst : Nat
  unlimited : Int
  deriving DecidableEq

namespace RateTotals

def zero : RateTotals := ⟨0, 0, 0, 0⟩

def add (s : RateTotals) (value : Rate) : RateTotals :=
  match value.mode with
  | .unlimited => { s with unlimited := s.unlimited + 1 }
  | .limited => { s with
      bits := uint64 (s.bits + value.bitsPerSecond)
      high := uint64 (s.high + (s.bits + value.bitsPerSecond) / 2 ^ 64)
      burst := uint64 (s.burst + uint64 value.burstBytes) }
  | _ => s

def remove (s : RateTotals) (value : Rate) : RateTotals :=
  match value.mode with
  | .unlimited => { s with unlimited := s.unlimited - 1 }
  | .limited => { s with
      bits := uint64 (s.bits - value.bitsPerSecond)
      high := uint64 (s.high - if s.bits < value.bitsPerSecond then 1 else 0)
      burst := uint64 (s.burst - uint64 value.burstBytes) }
  | _ => s

def fits (s : RateTotals) (bound : Rate) : Bool :=
  bound.mode = .unlimited || (s.unlimited = 0 && s.high = 0 && s.bits ≤ bound.bitsPerSecond && s.burst ≤ uint64 bound.burstBytes)

end RateTotals

def lowerRate (a b : Rate) : Rate :=
  if a.mode = .blocked ∨ b.mode = .blocked then Rate.zero
  else if a.mode = .unlimited then b
  else if b.mode = .unlimited then a
  else ⟨.limited, min a.bitsPerSecond b.bitsPerSecond, min a.burstBytes b.burstBytes⟩

abbrev RateSlot := RateParticipant × Rate

def RateParticipant.sharing (p : RateParticipant) : Bool := p.eligible && !p.frozen

/-- The frozen keep their rates, the sharing get their parts, and the others are blocked. -/
def assignRates (share : Nat → RateParticipant → Rate → Rate) : Nat → List RateSlot → List Rate
  | _, [] => []
  | rank, (p, current) :: slots =>
    if p.frozen then current :: assignRates share rank slots
    else if p.eligible then share rank p current :: assignRates share (rank + 1) slots
    else Rate.zero :: assignRates share rank slots

def frozenRates (bound : Rate) : List RateSlot → Nat → Nat → Bool → Nat × Nat × Bool
  | [], bits, burst, insufficient => (bits, burst, insufficient)
  | (p, current) :: slots, bits, burst, insufficient =>
    if p.frozen ∧ bound.mode ≠ .unlimited ∧ current.mode ≠ .blocked then
      if current.mode = .unlimited ∨ current.bitsPerSecond > bits ∨ uint64 current.burstBytes > burst then
        frozenRates bound slots bits burst true
      else frozenRates bound slots (bits - current.bitsPerSecond) (burst - uint64 current.burstBytes) insufficient
    else frozenRates bound slots bits burst insufficient

def retainFeasibleRates (bound : Rate) (slots : List RateSlot) : List Rate :=
  if fitsRates bound (slots.map Prod.snd) then assignRates (fun _ _ current => current) 0 slots
  else assignRates (fun _ _ _ => Rate.zero) 0 slots

def evenPart (amount count rank : Nat) : Nat := amount / count + if rank < amount % count then 1 else 0

def minimumBurst (slots : List RateSlot) : Nat :=
  ((slots.filter fun e => e.1.sharing).map fun e => uint64 e.1.minimumBurst).sum

def fairRateTargets (bound : Rate) (slots : List RateSlot) : List Rate :=
  let (bits, burst, insufficient) := frozenRates bound slots bound.bitsPerSecond (uint64 bound.burstBytes) (bound.mode = .blocked)
  let count := slots.countP fun e => e.1.sharing
  if count = 0 ∨ insufficient then assignRates (fun _ _ _ => Rate.zero) 0 slots
  else if bound.mode = .unlimited then assignRates (fun _ _ _ => ⟨.unlimited, 0, 0⟩) 0 slots
  else if bits < count then retainFeasibleRates bound slots
  else if minimumBurst slots > burst then retainFeasibleRates bound slots
  else
    let extra := burst - minimumBurst slots
    assignRates (fun rank p _ => ⟨.limited, evenPart bits count rank, uint64 p.minimumBurst + evenPart extra count rank⟩) 0 slots

def nextRate (bound : Rate) (total : RateTotals) (slot : RateSlot) (target : Rate) : Rate :=
  if slot.1.frozen then slot.2
  else if ((total.remove slot.2).add (envelope slot.2 target)).fits bound then target
  else lowerRate slot.2 target

def allocateLoop (bound : Rate) : RateTotals → List (RateSlot × Rate) → List Rate
  | _, [] => []
  | total, (slot, target) :: rest =>
    let next := nextRate bound total slot target
    next :: allocateLoop bound ((total.remove slot.2).add (envelope slot.2 next)) rest

def rateSlots (participants : List RateParticipant) (direction : Direction) : List RateSlot :=
  participants.map fun p => (p, p.outstanding.rate direction)

def allocateDirection (bound : Rate) (participants : List RateParticipant) (direction : Direction) : List (Rate × Rate) :=
  let slots := rateSlots participants direction
  let target := fairRateTargets bound slots
  let total := (slots.map Prod.snd).foldl RateTotals.add .zero
  target.zip (allocateLoop bound total (slots.zip target))

def rateCapacity (bound : Rate) (participants : List RateParticipant) (direction : Direction) : List RateCapacityError :=
  let count := participants.countP RateParticipant.sharing
  let minimum := minimumBurst (rateSlots participants direction)
  if bound.mode = .limited ∧ (count > bound.bitsPerSecond ∨ minimum > uint64 bound.burstBytes) then
    [⟨direction, bound.bitsPerSecond, bound.burstBytes, count, minimum⟩]
  else []

def RateParticipant.valid (p : RateParticipant) : Bool :=
  validID p.id && p.outstanding.validate = .ok () && 1 ≤ p.minimumBurst && p.minimumBurst ≤ 2 ^ 20

def sortParticipants (participants : List RateParticipant) : List RateParticipant :=
  participants.mergeSort fun a b => decide (a.id ≤ b.id)

def allocateSharedRates (budget : Rates) (participants : List RateParticipant) :
    Except FleetError (List RateAllocation × List RateCapacityError) := do
  refuse (budget.validate ≠ .ok () ∨ participants.length > 32768) .invalid
  let participants := sortParticipants participants
  refuse ((∃ p ∈ participants, !p.valid) ∨ ¬(participants.map RateParticipant.id).Nodup) .invalid
  let upload := allocateDirection budget.upload participants .upload
  let download := allocateDirection budget.download participants .download
  return (List.zipWith (fun p r => ⟨p.id, ⟨r.1.1, r.2.1⟩, ⟨r.1.2, r.2.2⟩⟩) participants (upload.zip download),
    rateCapacity budget.upload participants .upload ++ rateCapacity budget.download participants .download)

def Rate.weight (r : Rate) : Nat × Nat × Nat :=
  match r.mode with
  | .unlimited => (1, 0, 0)
  | .limited => (0, r.bitsPerSecond, uint64 r.burstBytes)
  | _ => 0

def weights (rates : List Rate) : Nat × Nat × Nat := (rates.map Rate.weight).sum

@[simp] theorem weights_cons (r : Rate) (rates : List Rate) : weights (r :: rates) = r.weight + weights rates := rfl

def Within (bound : Rate) (w : Nat × Nat × Nat) : Prop :=
  bound.mode = .unlimited ∨ (w.1 = 0 ∧ w.2.1 ≤ bound.bitsPerSecond ∧ w.2.2 ≤ uint64 bound.burstBytes)

variable {bound : Rate} {w w' : Nat × Nat × Nat} {rates : List Rate} {entries : List (RateSlot × Rate)} {slots : List RateSlot}
  {participants : List RateParticipant} {allocations : List RateAllocation}

theorem Within.mono (h : Within bound w) (hle : w' ≤ w) : Within bound w' := by
  obtain ⟨h1, h2, h3⟩ : w'.1 ≤ w.1 ∧ w'.2.1 ≤ w.2.1 ∧ w'.2.2 ≤ w.2.2 := ⟨hle.1, hle.2.1, hle.2.2⟩
  refine h.imp id fun ⟨hu, hbits, hburst⟩ => ⟨by omega, by omega, by omega⟩

theorem Rate.cases_of_validate {r : Rate} (h : r.validate = .ok ()) :
    r = Rate.zero ∨ r = ⟨.unlimited, 0, 0⟩ ∨
      ∃ bits burst, r = ⟨.limited, bits, burst⟩ ∧ 0 < bits ∧ bits ≤ 2 ^ 53 ∧ 1 ≤ burst ∧ burst ≤ 2 ^ 20 := by
  obtain ⟨mode, bits, burst⟩ := r
  rcases Rate.validate_eq_ok.mp h with ⟨hmode | hmode, hbits, hburst⟩ | ⟨hmode, hrest⟩
  · simp only at hmode hbits hburst
    subst hmode hbits hburst
    exact .inl rfl
  · simp only at hmode hbits hburst
    subst hmode hbits hburst
    exact .inr (.inl rfl)
  · simp only at hmode
    subst hmode
    exact .inr (.inr ⟨bits, burst, rfl, hrest⟩)

theorem Rate.weight_le_of_validate {r : Rate} (h : r.validate = .ok ()) : r.weight.2.1 ≤ 2 ^ 53 ∧ r.weight.2.2 ≤ 2 ^ 20 := by
  rcases Rate.cases_of_validate h with rfl | rfl | ⟨bits, burst, rfl, -, hbits, hb, hburst⟩
  · exact ⟨Nat.zero_le _, Nat.zero_le _⟩
  · exact ⟨Nat.zero_le _, Nat.zero_le _⟩
  · refine ⟨hbits, ?_⟩
    show uint64 burst ≤ 2 ^ 20
    rw [uint64_of_nonneg (by omega) (by unfold maxInt64; omega)]
    omega

theorem fitsRates_iff_within (hbound : bound.validate = .ok ())
    (hrates : ∀ r ∈ rates, r.validate = .ok ()) : fitsRates bound rates = true ↔ Within bound (weights rates) := by
  have hsums : (weights rates).2.1 = (rates.map Rate.bits).sum ∧ (weights rates).2.2 = (rates.map Rate.burst).sum := by
    induction rates with
    | nil => exact ⟨rfl, rfl⟩
    | cons r rates ih =>
      obtain ⟨hr, hrates⟩ := forall_mem_cons.mp hrates
      have hweight : r.weight.2.1 = r.bits ∧ r.weight.2.2 = r.burst := by
        rcases Rate.cases_of_validate hr with rfl | rfl | ⟨bits, burst, rfl, -⟩ <;> exact ⟨rfl, rfl⟩
      simp only [weights_cons, Prod.snd_add, Prod.fst_add, map_cons, sum_cons, ih hrates, hweight, and_self]
  have hmodes : (weights rates).1 = 0 ↔ ∀ r ∈ rates, r.mode ≠ .unlimited := by
    clear hbound hsums
    induction rates with
    | nil => simp [weights]
    | cons r rates ih =>
      obtain ⟨hr, hrates⟩ := forall_mem_cons.mp hrates
      have hweight : r.weight.1 = 0 ↔ r.mode ≠ .unlimited := by
        rcases Rate.cases_of_validate hr with rfl | rfl | ⟨bits, burst, rfl, -⟩ <;> simp [Rate.weight, Rate.zero]
      simp only [weights_cons, Prod.fst_add, Nat.add_eq_zero_iff, hweight, ih hrates, forall_mem_cons]
  rw [fitsRates_iff hbound]
  unfold Within
  rw [hsums.1, hsums.2, hmodes]
  refine or_congr_right ⟨fun h => ⟨fun r hr => ?_, h.bits, h.burst⟩, fun h => ⟨fun r hr => ?_, h.2.1, h.2.2⟩⟩
  · rcases h.mode r hr with hb | ⟨hu, -⟩
    · rw [hb]
      simp
    · exact hu
  · rcases Rate.cases_of_validate (hrates r hr) with rfl | rfl | ⟨bits, burst, rfl, hpos, -⟩
    · exact .inl rfl
    · exact absurd rfl (h.1 _ hr)
    · -- a limited rate has bits, so the bound is not blocked
      refine .inr ⟨by simp, fun hblocked => ?_⟩
      have hzero : bound.bitsPerSecond = 0 := by
        rcases Rate.cases_of_validate hbound with rfl | rfl | ⟨_, _, rfl, -⟩
        · rfl
        · rfl
        · cases hblocked
      have hle := single_le_sum (fun _ _ => Nat.zero_le _) _ (mem_map_of_mem (f := Rate.bits) hr)
      have hb : Rate.bits ⟨.limited, bits, burst⟩ = bits := rfl
      omega

structure RateTotals.Holds (s : RateTotals) (w : Nat × Nat × Nat) : Prop where
  unlimited : s.unlimited = w.1
  bits : 2 ^ 64 * s.high + s.bits = w.2.1
  low : s.bits < 2 ^ 64
  burst : s.burst = w.2.2

def Small (w : Nat × Nat × Nat) : Prop := w.2.1 ≤ 2 ^ 68 ∧ w.2.2 ≤ 2 ^ 35

namespace RateTotals

variable {s : RateTotals} {w : Nat × Nat × Nat} {r : Rate}

theorem holds_zero : zero.Holds 0 := ⟨rfl, rfl, by decide, rfl⟩

theorem Holds.add (h : s.Holds w) (hr : r.validate = .ok ()) (hsmall : Small (w + r.weight)) : (s.add r).Holds (w + r.weight) := by
  obtain ⟨hu, hbits, hlow, hburst⟩ := h
  obtain ⟨hsb, hsw⟩ := hsmall
  rcases Rate.cases_of_validate hr with rfl | rfl | ⟨bits, burst, rfl, -⟩
  · exact ⟨hu, hbits, hlow, hburst⟩
  · refine ⟨?_, hbits, hlow, hburst⟩
    show s.unlimited + 1 = ((w.1 + 1 : Nat) : Int)
    omega
  · replace hsb : w.2.1 + bits ≤ 2 ^ 68 := hsb
    replace hsw : w.2.2 + uint64 burst ≤ 2 ^ 35 := hsw
    refine ⟨hu, ?_, ?_, ?_⟩
    · show 2 ^ 64 * uint64 (s.high + (s.bits + bits) / 2 ^ 64) + uint64 (s.bits + bits) = w.2.1 + bits
      unfold uint64
      omega
    · show uint64 (s.bits + bits) < 2 ^ 64
      unfold uint64
      omega
    · show uint64 (s.burst + uint64 burst) = w.2.2 + uint64 burst
      rw [uint64_of_nonneg (by omega) (by unfold maxInt64; omega)]
      omega

theorem Holds.remove (h : s.Holds (w + r.weight)) (hr : r.validate = .ok ()) (hsmall : Small (w + r.weight)) :
    (s.remove r).Holds w := by
  obtain ⟨hu, hbits, hlow, hburst⟩ := h
  obtain ⟨hsb, hsw⟩ := hsmall
  rcases Rate.cases_of_validate hr with rfl | rfl | ⟨bits, burst, rfl, hpos, hmax, -⟩
  · exact ⟨hu, hbits, hlow, hburst⟩
  · refine ⟨?_, hbits, hlow, hburst⟩
    change s.unlimited = ((w.1 + 1 : Nat) : Int) at hu
    show s.unlimited - 1 = w.1
    omega
  · replace hbits : 2 ^ 64 * s.high + s.bits = w.2.1 + bits := hbits
    replace hburst : s.burst = w.2.2 + uint64 burst := hburst
    replace hsb : w.2.1 + bits ≤ 2 ^ 68 := hsb
    replace hsw : w.2.2 + uint64 burst ≤ 2 ^ 35 := hsw
    refine ⟨hu, ?_, ?_, ?_⟩
    · show 2 ^ 64 * uint64 (s.high - if s.bits < bits then 1 else 0) + uint64 (s.bits - bits) = w.2.1
      unfold uint64
      split <;> omega
    · show uint64 (s.bits - bits) < 2 ^ 64
      unfold uint64
      omega
    · show uint64 (s.burst - uint64 burst) = w.2.2
      rw [uint64_of_nonneg (by omega) (by unfold maxInt64; omega)]
      omega

theorem Holds.fits_iff (h : s.Holds w) (hbound : bound.validate = .ok ()) : s.fits bound = true ↔ Within bound w := by
  obtain ⟨hu, hbits, hlow, hburst⟩ := h
  have hmax : bound.bitsPerSecond < 2 ^ 64 := by
    rcases Rate.cases_of_validate hbound with rfl | rfl | ⟨_, _, rfl, -, hmax, -⟩
    · decide
    · decide
    · simp only
      omega
  unfold fits Within
  simp only [Bool.or_eq_true, Bool.and_eq_true, decide_eq_true_eq]
  refine or_congr_right ⟨fun h => ?_, fun h => ?_⟩
  · omega
  · omega

end RateTotals

section Lower

variable {a b : Rate} (ha : a.validate = .ok ()) (hb : b.validate = .ok ())

include ha

theorem envelope_self : envelope a a = a := by
  rcases Rate.cases_of_validate ha with rfl | rfl | ⟨bits, burst, rfl, -⟩
  · rfl
  · rfl
  · simp [envelope]

theorem lowerRate_self : lowerRate a a = a := by
  rcases Rate.cases_of_validate ha with rfl | rfl | ⟨bits, burst, rfl, -⟩
  · rfl
  · rfl
  · simp [lowerRate]

include hb

theorem envelope_lowerRate : envelope a (lowerRate a b) = a := by
  rcases Rate.cases_of_validate ha with rfl | rfl | ⟨bits, burst, rfl, -⟩ <;>
    rcases Rate.cases_of_validate hb with rfl | rfl | ⟨bits', burst', rfl, -⟩ <;> simp [envelope, lowerRate, Rate.zero]

theorem lowerRate_le_left : lowerRate a b ≤ a := by
  rw [Rate.le_iff]
  rcases Rate.cases_of_validate ha with rfl | rfl | ⟨bits, burst, rfl, -⟩ <;>
    rcases Rate.cases_of_validate hb with rfl | rfl | ⟨bits', burst', rfl, -⟩ <;> simp [lowerRate, Rate.zero]

theorem lowerRate_le_right : lowerRate a b ≤ b := by
  rw [Rate.le_iff]
  rcases Rate.cases_of_validate ha with rfl | rfl | ⟨bits, burst, rfl, -⟩ <;>
    rcases Rate.cases_of_validate hb with rfl | rfl | ⟨bits', burst', rfl, -⟩ <;> simp [lowerRate, Rate.zero]

theorem validate_lowerRate : (lowerRate a b).validate = .ok () := by
  rcases Rate.cases_of_validate ha with rfl | rfl | ⟨bits, burst, rfl, hpos, hmax, hbpos, hbmax⟩ <;>
    rcases Rate.cases_of_validate hb with rfl | rfl | ⟨bits', burst', rfl, hpos', hmax', hbpos', hbmax'⟩
  case inr.inr.inr.inr =>
    refine Rate.validate_eq_ok.mpr (.inr ⟨rfl, ?_, ?_, ?_, ?_⟩)
    · exact lt_min hpos hpos'
    · exact (min_le_left _ _).trans hmax
    · exact le_min hbpos hbpos'
    · exact (min_le_left _ _).trans hbmax
  all_goals first | exact ha | exact hb

end Lower

def SumAtMost (w w' : Nat × Nat × Nat) : Prop := 0 < w'.1 ∨ w ≤ w'

theorem SumAtMost.add {v v' : Nat × Nat × Nat} (h : SumAtMost v v') (h' : SumAtMost w w') : SumAtMost (v + w) (v' + w') := by
  rcases h with h | h
  · exact .inl (Nat.add_pos_left h _)
  · rcases h' with h' | h'
    · exact .inl (Nat.add_pos_right _ h')
    · exact .inr (add_le_add h h')

theorem SumAtMost.within (h : SumAtMost w w') (hw : Within bound w') : Within bound w := by
  rcases h with h | h
  · exact hw.imp id fun hw => absurd hw.1 (by omega)
  · exact hw.mono h

theorem Rate.sumAtMost {r s : Rate} (hr : r.validate = .ok ()) (hs : s.validate = .ok ()) (h : r ≤ s) :
    SumAtMost r.weight s.weight := by
  rcases Rate.cases_of_validate hs with rfl | rfl | ⟨bits, burst, rfl, hs⟩
  · refine .inr ?_
    rcases Rate.cases_of_validate hr with rfl | rfl | ⟨bits', burst', rfl, -⟩
    · exact le_rfl
    · simp [Rate.le_iff, Rate.zero] at h
    · simp [Rate.le_iff, Rate.zero] at h
  · exact .inl Nat.one_pos
  · refine .inr ?_
    rcases Rate.cases_of_validate hr with rfl | rfl | ⟨bits', burst', rfl, hr⟩
    · exact ⟨Nat.zero_le _, Nat.zero_le _, Nat.zero_le _⟩
    · simp [Rate.le_iff] at h
    · simp only [Rate.le_iff, reduceCtorEq, Rate.mk.injEq, true_and, false_or] at h
      refine ⟨le_rfl, show bits' ≤ bits by omega, ?_⟩
      show uint64 burst' ≤ uint64 burst
      rw [uint64_of_nonneg (by omega) (by unfold maxInt64; omega), uint64_of_nonneg (by omega) (by unfold maxInt64; omega)]
      omega

theorem sumAtMost_weights {rs ss : List Rate} (hr : ∀ r ∈ rs, r.validate = .ok ()) (hs : ∀ s ∈ ss, s.validate = .ok ())
    (h : List.Forall₂ (· ≤ ·) rs ss) : SumAtMost (weights rs) (weights ss) := by
  induction h with
  | nil => exact .inr le_rfl
  | cons hle _ ih =>
    obtain ⟨hr, hrs⟩ := forall_mem_cons.mp hr
    obtain ⟨hs, hss⟩ := forall_mem_cons.mp hs
    rw [weights_cons, weights_cons]
    exact (Rate.sumAtMost hr hs hle).add (ih hrs hss)

theorem weights_le (h : ∀ r ∈ rates, r.validate = .ok ()) :
    (weights rates).2.1 ≤ rates.length * 2 ^ 53 ∧ (weights rates).2.2 ≤ rates.length * 2 ^ 20 := by
  induction rates with
  | nil => exact ⟨le_rfl, le_rfl⟩
  | cons r rates ih =>
    obtain ⟨hr, hrates⟩ := forall_mem_cons.mp h
    obtain ⟨hbits, hburst⟩ := Rate.weight_le_of_validate hr
    obtain ⟨ihbits, ihburst⟩ := ih hrates
    rw [weights_cons, length_cons]
    refine ⟨?_, ?_⟩
    · show r.weight.2.1 + (weights rates).2.1 ≤ _
      omega
    · show r.weight.2.2 + (weights rates).2.2 ≤ _
      omega

def Room (done : Nat × Nat × Nat) (n : Nat) : Prop := done.2.1 + n * 2 ^ 53 ≤ 2 ^ 68 ∧ done.2.2 + n * 2 ^ 20 ≤ 2 ^ 35

def currents (entries : List (RateSlot × Rate)) : List Rate := entries.map fun e => e.1.2

def ValidEntries (entries : List (RateSlot × Rate)) : Prop := ∀ e ∈ entries, e.1.2.validate = .ok () ∧ e.2.validate = .ok ()

theorem ValidEntries.currents (h : ValidEntries entries) :
    ∀ r ∈ Pui.currents entries, r.validate = .ok () := by
  intro r hr
  obtain ⟨e, he, rfl⟩ := mem_map.mp hr
  exact (h e he).1

section Step

variable {bound : Rate} {total : RateTotals} {slot : RateSlot} {target : Rate} {rest : List (RateSlot × Rate)}
  {done : Nat × Nat × Nat} (hvalid : ValidEntries ((slot, target) :: rest)) (hroom : Room done (rest.length + 1))
  (htotal : total.Holds (done + weights (currents ((slot, target) :: rest))))

include hvalid hroom htotal

theorem holds_exchange {r : Rate} (hr : r.validate = .ok ()) :
    ((total.remove slot.2).add r).Holds (done + r.weight + weights (currents rest)) := by
  obtain ⟨hentry, hrest⟩ := forall_mem_cons.mp hvalid
  have hsum := weights_le (ValidEntries.currents hrest)
  have hlength : (currents rest).length = rest.length := length_map _
  rw [hlength] at hsum
  have hsmall : ∀ r : Rate, r.validate = .ok () → Small (done + weights (currents rest) + r.weight) := by
    intro r hr
    obtain ⟨hbits, hburst⟩ := Rate.weight_le_of_validate hr
    obtain ⟨hroomBits, hroomBurst⟩ := hroom
    refine ⟨?_, ?_⟩
    · show done.2.1 + (weights (currents rest)).2.1 + r.weight.2.1 ≤ 2 ^ 68
      omega
    · show done.2.2 + (weights (currents rest)).2.2 + r.weight.2.2 ≤ 2 ^ 35
      omega
  have hswap : done + weights (currents ((slot, target) :: rest)) = done + weights (currents rest) + slot.2.weight := by
    show done + (slot.2.weight + weights (currents rest)) = _
    rw [add_comm slot.2.weight, add_assoc]
  rw [hswap] at htotal
  have hheld := (htotal.remove hentry.1 (hsmall _ hentry.1)).add hr (hsmall r hr)
  rw [add_right_comm]
  exact hheld

theorem nextRate_cases (hbound : bound.validate = .ok ()) :
    (slot.1.frozen = false ∧ nextRate bound total slot target = target ∧
      Within bound (done + (envelope slot.2 target).weight + weights (currents rest))) ∨
    (envelope slot.2 (nextRate bound total slot target) = slot.2 ∧ nextRate bound total slot target ≤ slot.2 ∧
      nextRate bound total slot target = if slot.1.frozen then slot.2 else lowerRate slot.2 target) := by
  obtain ⟨hcurrent, htarget⟩ := hvalid _ mem_cons_self
  have hheld := holds_exchange hvalid hroom htotal (validate_envelope hcurrent htarget)
  unfold nextRate
  cases hfrozen : slot.1.frozen with
  | true =>
    rw [if_pos rfl]
    exact .inr ⟨envelope_self hcurrent, le_rfl, rfl⟩
  | false =>
    rw [if_neg Bool.false_ne_true]
    split
    · next hfits => exact .inl ⟨rfl, rfl, (hheld.fits_iff hbound).mp hfits⟩
    · exact .inr ⟨envelope_lowerRate hcurrent htarget, lowerRate_le_left hcurrent htarget, rfl⟩

theorem validate_nextRate (hbound : bound.validate = .ok ()) : (nextRate bound total slot target).validate = .ok () := by
  obtain ⟨hcurrent, htarget⟩ := hvalid _ mem_cons_self
  rcases nextRate_cases hvalid hroom htotal hbound with ⟨-, heq, -⟩ | ⟨-, -, heq⟩
  · rw [heq]
    exact htarget
  · rw [heq]
    split
    · exact hcurrent
    · exact validate_lowerRate hcurrent htarget

theorem holds_next (hbound : bound.validate = .ok ()) :
    ((total.remove slot.2).add (envelope slot.2 (nextRate bound total slot target))).Holds
      (done + (envelope slot.2 (nextRate bound total slot target)).weight + weights (currents rest)) ∧
    Room (done + (envelope slot.2 (nextRate bound total slot target)).weight) rest.length := by
  have hnext := validate_nextRate hvalid hroom htotal hbound
  have henv : (envelope slot.2 (nextRate bound total slot target)).validate = .ok () :=
    validate_envelope (hvalid _ mem_cons_self).1 hnext
  refine ⟨holds_exchange hvalid hroom htotal henv, ?_⟩
  obtain ⟨hbits, hburst⟩ := Rate.weight_le_of_validate henv
  obtain ⟨hroomBits, hroomBurst⟩ := hroom
  refine ⟨?_, ?_⟩
  · show done.2.1 + (envelope slot.2 _).weight.2.1 + rest.length * 2 ^ 53 ≤ 2 ^ 68
    omega
  · show done.2.2 + (envelope slot.2 _).weight.2.2 + rest.length * 2 ^ 20 ≤ 2 ^ 35
    omega

end Step

theorem length_allocateLoop (bound : Rate) (total : RateTotals) (entries : List (RateSlot × Rate)) :
    (allocateLoop bound total entries).length = entries.length := by
  induction entries generalizing total with
  | nil => rfl
  | cons e entries ih => exact congrArg (· + 1) (ih _)

def envelopes (rates nexts : List Rate) : List Rate := List.zipWith envelope rates nexts

theorem allocateLoop_spec (hbound : bound.validate = .ok ()) {total : RateTotals}
    {done : Nat × Nat × Nat} (hvalid : ValidEntries entries) (hroom : Room done entries.length)
    (htotal : total.Holds (done + weights (currents entries))) :
    (∀ r ∈ allocateLoop bound total entries, r.validate = .ok ()) ∧
    (Within bound (done + weights (envelopes (currents entries) (allocateLoop bound total entries))) ∨
      (weights (envelopes (currents entries) (allocateLoop bound total entries)) = weights (currents entries) ∧
        List.Forall₂ (fun n r => n ≤ r) (allocateLoop bound total entries) (currents entries))) := by
  induction entries generalizing total done with
  | nil => exact ⟨fun r hr => (nomatch hr), .inr ⟨rfl, .nil⟩⟩
  | cons e rest ih =>
    obtain ⟨slot, target⟩ := e
    have hrest : ValidEntries rest := (forall_mem_cons.mp hvalid).2
    obtain ⟨hheld, hroom'⟩ := holds_next hvalid hroom htotal hbound
    obtain ⟨hnexts, hcases⟩ := ih hrest hroom' hheld
    refine ⟨forall_mem_cons.mpr ⟨validate_nextRate hvalid hroom htotal hbound, hnexts⟩, ?_⟩
    have hsum : ∀ rates : List Rate, done + weights (envelope slot.2 (nextRate bound total slot target) :: rates) =
        done + (envelope slot.2 (nextRate bound total slot target)).weight + weights rates := by
      intro rates
      rw [weights_cons, add_assoc]
    rcases hcases with hwithin | ⟨heq, hle⟩
    · refine .inl ?_
      rw [← hsum] at hwithin
      exact hwithin
    · rcases nextRate_cases hvalid hroom htotal hbound with ⟨-, hnext, hwithin⟩ | ⟨henv, hnext, -⟩
      · refine .inl ?_
        rw [← hnext, ← heq, ← hsum] at hwithin
        exact hwithin
      · refine .inr ⟨?_, .cons hnext hle⟩
        show (envelope slot.2 (nextRate bound total slot target)).weight + weights (envelopes (currents rest) _) =
          slot.2.weight + weights (currents rest)
        rw [henv, ← heq]
        rw [henv]

theorem length_assignRates (share : Nat → RateParticipant → Rate → Rate) (rank : Nat) (slots : List RateSlot) :
    (assignRates share rank slots).length = slots.length := by
  induction slots generalizing rank with
  | nil => rfl
  | cons e slots ih =>
    unfold assignRates
    split
    · exact congrArg (· + 1) (ih _)
    · split
      · exact congrArg (· + 1) (ih _)
      · exact congrArg (· + 1) (ih _)

theorem forall_assignRates {share : Nat → RateParticipant → Rate → Rate} {P : Rate → Prop} (hzero : P Rate.zero) (hcurrent : ∀ e ∈ slots, P e.2)
    (hshare : ∀ e ∈ slots, e.1.sharing = true → ∀ rank, P (share rank e.1 e.2)) (rank : Nat) :
    ∀ r ∈ assignRates share rank slots, P r := by
  induction slots generalizing rank with
  | nil => exact fun r hr => nomatch hr
  | cons e slots ih =>
    obtain ⟨hcur, hcurs⟩ := forall_mem_cons.mp hcurrent
    obtain ⟨hsh, hshs⟩ := forall_mem_cons.mp hshare
    unfold assignRates
    split
    · exact forall_mem_cons.mpr ⟨hcur, ih hcurs hshs _⟩
    · next hfrozen =>
      split
      · next heligible =>
        exact forall_mem_cons.mpr ⟨hsh (by simp [RateParticipant.sharing, hfrozen, heligible]) rank, ih hcurs hshs _⟩
      · exact forall_mem_cons.mpr ⟨hzero, ih hcurs hshs _⟩

theorem frozenRates_le (bound : Rate) (slots : List RateSlot) (bits burst : Nat) (insufficient : Bool) :
    (frozenRates bound slots bits burst insufficient).1 ≤ bits ∧ (frozenRates bound slots bits burst insufficient).2.1 ≤ burst := by
  induction slots generalizing bits burst insufficient with
  | nil => exact ⟨le_rfl, le_rfl⟩
  | cons e slots ih =>
    obtain ⟨p, current⟩ := e
    unfold frozenRates
    split
    · split
      · exact ih _ _ _
      · obtain ⟨hbits, hburst⟩ := ih (bits - current.bitsPerSecond) (burst - uint64 current.burstBytes) insufficient
        exact ⟨hbits.trans (Nat.sub_le _ _), hburst.trans (Nat.sub_le _ _)⟩
    · exact ih _ _ _

theorem evenPart_le (amount count rank : Nat) (hcount : 0 < count) : evenPart amount count rank ≤ amount := by
  have hdiv := Nat.div_add_mod amount count
  have hmul : amount / count ≤ count * (amount / count) := Nat.le_mul_of_pos_left _ hcount
  unfold evenPart
  split <;> omega

theorem minimumBurst_le {e : RateSlot} (he : e ∈ slots) (hsharing : e.1.sharing = true) :
    uint64 e.1.minimumBurst ≤ minimumBurst slots :=
  single_le_sum (fun _ _ => Nat.zero_le _) _
    (mem_map_of_mem (f := fun e : RateSlot => uint64 e.1.minimumBurst) (mem_filter.mpr ⟨he, hsharing⟩))

theorem length_fairRateTargets (bound : Rate) (slots : List RateSlot) : (fairRateTargets bound slots).length = slots.length := by
  simp only [fairRateTargets, retainFeasibleRates]
  repeat' split
  all_goals exact length_assignRates _ _ _

def ValidSlots (slots : List RateSlot) : Prop :=
  ∀ e ∈ slots, e.2.validate = .ok () ∧ 1 ≤ e.1.minimumBurst ∧ e.1.minimumBurst ≤ 2 ^ 20

theorem validate_fairRateTargets (hbound : bound.validate = .ok ()) (hslots : ValidSlots slots) :
    ∀ r ∈ fairRateTargets bound slots, r.validate = .ok () := by
  have hcurrent : ∀ e ∈ slots, e.2.validate = .ok () := fun e he => (hslots e he).1
  have hzero : Rate.zero.validate = .ok () := by decide
  obtain ⟨hbits, hburst⟩ := frozenRates_le bound slots bound.bitsPerSecond (uint64 bound.burstBytes) (bound.mode = .blocked)
  simp only [fairRateTargets, retainFeasibleRates]
  generalize frozenRates bound slots bound.bitsPerSecond (uint64 bound.burstBytes) (bound.mode = .blocked) = left at hbits hburst ⊢
  obtain ⟨bits, burst, insufficient⟩ := left
  simp only at hbits hburst ⊢
  split
  · exact forall_assignRates hzero hcurrent (fun _ _ _ _ => hzero) 0
  · next hsome =>
    split
    · exact forall_assignRates hzero hcurrent (fun _ _ _ _ => by decide) 0
    · next hlimited =>
      have hkeep : ∀ r ∈ (if fitsRates bound (slots.map Prod.snd) = true then assignRates (fun _ _ current => current) 0 slots
          else assignRates (fun _ _ _ => Rate.zero) 0 slots), r.validate = .ok () := by
        split
        · exact forall_assignRates hzero hcurrent (fun e he _ _ => hcurrent e he) 0
        · exact forall_assignRates hzero hcurrent (fun _ _ _ _ => hzero) 0
      split
      · exact hkeep
      · next hbitsEnough =>
        split
        · exact hkeep
        · next hburstEnough =>
          refine forall_assignRates hzero hcurrent (fun e he hsharing rank => ?_) 0
          have hcount : 0 < slots.countP fun e => e.1.sharing := by
            rw [not_or] at hsome
            omega
          have hpositive : 0 < bits / slots.countP fun e => e.1.sharing := Nat.div_pos (by omega) hcount
          have hpart := evenPart_le bits _ rank hcount
          have hextra := evenPart_le (burst - minimumBurst slots) _ rank hcount
          have hminimum := minimumBurst_le he hsharing
          obtain ⟨-, hlow, hhigh⟩ := hslots e he
          have hone : uint64 e.1.minimumBurst = e.1.minimumBurst.toNat := uint64_of_nonneg (by omega) (by unfold maxInt64; omega)
          have hmax := Rate.weight_le_of_validate hbound
          rcases Rate.cases_of_validate hbound with rfl | rfl | ⟨_, _, rfl, -⟩
          · have : Rate.zero.bitsPerSecond = 0 := rfl
            omega
          · exact absurd rfl hlimited
          · refine Rate.validate_eq_ok.mpr (.inr ⟨rfl, ?_, hpart.trans (hbits.trans hmax.1), ?_, ?_⟩)
            · exact Nat.lt_of_lt_of_le hpositive (Nat.le_add_right _ _)
            · simp only
              omega
            · replace hmax := hmax.2
              simp only [Rate.weight] at hmax hburst ⊢
              omega

theorem holds_foldl (hrates : ∀ r ∈ rates, r.validate = .ok ()) {s : RateTotals}
    (h : s.Holds w) (hroom : Room w rates.length) : (rates.foldl RateTotals.add s).Holds (w + weights rates) := by
  induction rates generalizing s w with
  | nil => exact h
  | cons r rates ih =>
    obtain ⟨hr, hrates⟩ := forall_mem_cons.mp hrates
    obtain ⟨hbits, hburst⟩ := Rate.weight_le_of_validate hr
    rw [Room, length_cons] at hroom
    have hadd : (s.add r).Holds (w + r.weight) := by
      refine h.add hr ⟨?_, ?_⟩
      · show w.2.1 + r.weight.2.1 ≤ 2 ^ 68
        omega
      · show w.2.2 + r.weight.2.2 ≤ 2 ^ 35
        omega
    rw [foldl_cons, weights_cons, ← add_assoc]
    refine ih hrates hadd ⟨?_, ?_⟩
    · show w.2.1 + r.weight.2.1 + rates.length * 2 ^ 53 ≤ 2 ^ 68
      omega
    · show w.2.2 + r.weight.2.2 + rates.length * 2 ^ 20 ≤ 2 ^ 35
      omega

theorem currents_zip {targets : List Rate} (h : targets.length = slots.length) :
    currents (slots.zip targets) = slots.map Prod.snd := by
  have hfirst : (slots.zip targets).map Prod.fst = slots := map_fst_zip (by omega)
  rw [← hfirst, map_map, hfirst]
  rfl

theorem allocation_starts (hbound : bound.validate = .ok ()) (hslots : ValidSlots slots)
    (hcount : slots.length ≤ 32768) :
    ValidEntries (slots.zip (fairRateTargets bound slots)) ∧ Room 0 (slots.zip (fairRateTargets bound slots)).length ∧
      ((slots.map Prod.snd).foldl RateTotals.add .zero).Holds
        (0 + weights (currents (slots.zip (fairRateTargets bound slots)))) := by
  have hlength := length_fairRateTargets bound slots
  have hrates : ∀ r ∈ slots.map Prod.snd, r.validate = .ok () := by
    intro r hr
    obtain ⟨e, he, rfl⟩ := mem_map.mp hr
    exact (hslots e he).1
  refine ⟨fun e he => ?_, ⟨?_, ?_⟩, ?_⟩
  · obtain ⟨hslot, htarget⟩ := of_mem_zip he
    exact ⟨(hslots _ hslot).1, validate_fairRateTargets hbound hslots _ htarget⟩
  · rw [length_zip, hlength, Nat.min_self]
    show 0 + slots.length * 2 ^ 53 ≤ 2 ^ 68
    omega
  · rw [length_zip, hlength, Nat.min_self]
    show 0 + slots.length * 2 ^ 20 ≤ 2 ^ 35
    omega
  · rw [currents_zip hlength]
    refine holds_foldl hrates RateTotals.holds_zero ⟨?_, ?_⟩
    · rw [length_map]
      show 0 + slots.length * 2 ^ 53 ≤ 2 ^ 68
      omega
    · rw [length_map]
      show 0 + slots.length * 2 ^ 20 ≤ 2 ^ 35
      omega

def directionNexts (bound : Rate) (slots : List RateSlot) : List Rate :=
  allocateLoop bound ((slots.map Prod.snd).foldl RateTotals.add .zero) (slots.zip (fairRateTargets bound slots))

theorem length_directionNexts (bound : Rate) (slots : List RateSlot) : (directionNexts bound slots).length = slots.length := by
  rw [directionNexts, length_allocateLoop, length_zip, length_fairRateTargets, Nat.min_self]

theorem directionNexts_spec (hbound : bound.validate = .ok ()) (hslots : ValidSlots slots)
    (hcount : slots.length ≤ 32768) :
    (∀ r ∈ directionNexts bound slots, r.validate = .ok ()) ∧
    (Within bound (weights (envelopes (slots.map Prod.snd) (directionNexts bound slots))) ∨
      (weights (envelopes (slots.map Prod.snd) (directionNexts bound slots)) = weights (slots.map Prod.snd) ∧
        List.Forall₂ (fun n r => n ≤ r) (directionNexts bound slots) (slots.map Prod.snd))) := by
  obtain ⟨hvalid, hroom, htotal⟩ := allocation_starts hbound hslots hcount
  have hspec := allocateLoop_spec hbound hvalid hroom htotal
  rw [currents_zip (length_fairRateTargets bound slots), zero_add] at hspec
  exact hspec

theorem map_zipWith_left {α β γ δ : Type} {f : α → β → γ} {g : γ → δ} {g' : α → δ} (h : ∀ a b, g (f a b) = g' a) {as : List α}
    {bs : List β} (hlength : as.length = bs.length) : (List.zipWith f as bs).map g = as.map g' :=
  ext_getElem (by simp [hlength]) fun _ _ _ => by simp [h]

theorem map_zipWith_right {α β γ δ : Type} {f : α → β → γ} {g : γ → δ} {g' : β → δ} (h : ∀ a b, g (f a b) = g' b) {as : List α}
    {bs : List β} (hlength : as.length = bs.length) : (List.zipWith f as bs).map g = bs.map g' :=
  ext_getElem (by simp [hlength]) fun _ _ _ => by simp [h]

theorem mem_sortParticipants {p : RateParticipant} :
    p ∈ sortParticipants participants ↔ p ∈ participants := mem_mergeSort

theorem length_sortParticipants (participants : List RateParticipant) :
    (sortParticipants participants).length = participants.length := length_mergeSort _

structure Allocated (budget : Rates) (participants : List RateParticipant) (allocations : List RateAllocation) : Prop where
  bound : ∀ d, (budget.rate d).validate = .ok ()
  count : participants.length ≤ 32768
  nodup : (participants.map RateParticipant.id).Nodup
  slots : ∀ d, ValidSlots (rateSlots (sortParticipants participants) d)
  ids : allocations.map RateAllocation.id = (sortParticipants participants).map RateParticipant.id
  targets : ∀ d, (allocations.map fun a => a.target.rate d) = fairRateTargets (budget.rate d) (rateSlots (sortParticipants participants) d)
  nexts : ∀ d, (allocations.map fun a => a.next.rate d) = directionNexts (budget.rate d) (rateSlots (sortParticipants participants) d)

theorem directions_zip {α β γ δ : Type} {as : List α} {bs : List β} {cs : List γ} {ds : List δ} (hb : as.length = bs.length)
    (hc : as.length = cs.length) (hd : as.length = ds.length) :
    ((as.zip bs).zip (cs.zip ds)).map (fun r => r.1.1) = as ∧ ((as.zip bs).zip (cs.zip ds)).map (fun r => r.1.2) = bs ∧
      ((as.zip bs).zip (cs.zip ds)).map (fun r => r.2.1) = cs ∧ ((as.zip bs).zip (cs.zip ds)).map (fun r => r.2.2) = ds := by
  refine ⟨?_, ?_, ?_, ?_⟩
  all_goals exact ext_getElem (by simp [← hb, ← hc, ← hd]) fun _ _ _ => by simp

theorem allocated_of_ok {budget : Rates}
    {constraints : List RateCapacityError} (h : allocateSharedRates budget participants = .ok (allocations, constraints)) :
    Allocated budget participants allocations := by
  simp only [allocateSharedRates, unit_bind_eq_ok, refuse_eq_ok, pure_eq_ok, Prod.mk.injEq, not_or, not_not, not_exists, not_and,
    not_lt] at h
  obtain ⟨⟨hbudget, hcount⟩, ⟨hvalid, hnodup⟩, rfl, -⟩ := h
  have hlength : ∀ d bound, (fairRateTargets bound (rateSlots (sortParticipants participants) d)).length =
        (sortParticipants participants).length ∧
      (directionNexts bound (rateSlots (sortParticipants participants) d)).length = (sortParticipants participants).length := by
    intro d bound
    rw [length_fairRateTargets, length_directionNexts, rateSlots, length_map]
    exact ⟨rfl, rfl⟩
  obtain ⟨hup, hupNext⟩ := hlength .upload budget.upload
  obtain ⟨hdown, hdownNext⟩ := hlength .download budget.download
  obtain ⟨hzip1, hzip2, hzip3, hzip4⟩ := directions_zip (hup.trans hupNext.symm) (hup.trans hdown.symm) (hup.trans hdownNext.symm)
  have hall : (sortParticipants participants).length = ((allocateDirection budget.upload (sortParticipants participants) .upload).zip
      (allocateDirection budget.download (sortParticipants participants) .download)).length := by
    have h1 : (allocateDirection budget.upload (sortParticipants participants) .upload).length =
        (sortParticipants participants).length := by
      show ((fairRateTargets _ _).zip (directionNexts _ _)).length = _
      rw [length_zip, hup, hupNext, Nat.min_self]
    have h2 : (allocateDirection budget.download (sortParticipants participants) .download).length =
        (sortParticipants participants).length := by
      show ((fairRateTargets _ _).zip (directionNexts _ _)).length = _
      rw [length_zip, hdown, hdownNext, Nat.min_self]
    rw [length_zip, h1, h2, Nat.min_self]
  rw [Rates.validate_eq_ok] at hbudget
  refine ⟨fun d => ?_, hcount, ?_, fun d e he => ?_, ?_, fun d => ?_, fun d => ?_⟩
  · cases d with
    | upload => exact hbudget.1
    | download => exact hbudget.2
  · exact ((mergeSort_perm participants _).map _).nodup_iff.mp hnodup
  · obtain ⟨p, hp, rfl⟩ := mem_map.mp he
    have hok := hvalid p hp
    simp only [Bool.not_eq_true, Bool.not_eq_false', RateParticipant.valid, Bool.and_eq_true, decide_eq_true_eq,
      Rates.validate_eq_ok] at hok
    obtain ⟨⟨⟨-, hup, hdown⟩, hlow⟩, hhigh⟩ := hok
    cases d with
    | upload => exact ⟨hup, hlow, hhigh⟩
    | download => exact ⟨hdown, hlow, hhigh⟩
  · exact map_zipWith_left (by intros; rfl) hall
  · cases d with
    | upload => exact (map_zipWith_right (by intros; rfl) hall).trans hzip1
    | download => exact (map_zipWith_right (by intros; rfl) hall).trans hzip3
  · cases d with
    | upload => exact (map_zipWith_right (by intros; rfl) hall).trans hzip2
    | download => exact (map_zipWith_right (by intros; rfl) hall).trans hzip4

theorem allocateSharedRates_of_valid {budget : Rates} (hbudget : budget.validate = .ok ())
    (hcount : participants.length ≤ 32768) (hvalid : ∀ p ∈ participants, p.valid = true)
    (hnodup : (participants.map RateParticipant.id).Nodup) : ∃ r, allocateSharedRates budget participants = .ok r := by
  refine ⟨_, unit_bind_eq_ok.mpr ⟨refuse_eq_ok.mpr ?_, unit_bind_eq_ok.mpr ⟨refuse_eq_ok.mpr ?_, rfl⟩⟩⟩
  · simp [hbudget, hcount]
  · rintro (⟨p, hp, hbad⟩ | hdup)
    · rw [hvalid p (mem_sortParticipants.mp hp)] at hbad
      cases hbad
    · exact hdup (((mergeSort_perm participants _).map _).nodup_iff.mpr hnodup)

def ratesInForce (d : Direction) (switched : RateParticipant → Bool) (participants : List RateParticipant)
    (allocations : List RateAllocation) : List Rate :=
  List.zipWith (fun p a => if switched p then a.next.rate d else p.outstanding.rate d) participants allocations

theorem ratesInForce_le {d : Direction} (switched : RateParticipant → Bool) (hp : ∀ p ∈ participants, (p.outstanding.rate d).validate = .ok ())
    (ha : ∀ a ∈ allocations, (a.next.rate d).validate = .ok ()) :
    (∀ r ∈ ratesInForce d switched participants allocations, r.validate = .ok ()) ∧
    (∀ r ∈ envelopes (participants.map fun p => p.outstanding.rate d) (allocations.map fun a => a.next.rate d), r.validate = .ok ()) ∧
    List.Forall₂ (· ≤ ·) (ratesInForce d switched participants allocations)
      (envelopes (participants.map fun p => p.outstanding.rate d) (allocations.map fun a => a.next.rate d)) := by
  induction participants generalizing allocations with
  | nil => exact ⟨fun r hr => (nomatch hr), fun r hr => (nomatch hr), .nil⟩
  | cons p participants ih =>
    cases allocations with
    | nil => exact ⟨fun r hr => (nomatch hr), fun r hr => (nomatch hr), .nil⟩
    | cons a allocations =>
      obtain ⟨hp, hps⟩ := forall_mem_cons.mp hp
      obtain ⟨ha, has⟩ := forall_mem_cons.mp ha
      obtain ⟨hforce, henv, hle⟩ := ih hps has
      refine ⟨forall_mem_cons.mpr ⟨?_, hforce⟩, forall_mem_cons.mpr ⟨validate_envelope hp ha, henv⟩, .cons ?_ hle⟩
      · dsimp only
        split
        · exact ha
        · exact hp
      · dsimp only
        split
        · exact le_envelope_right hp ha
        · exact le_envelope_left hp ha

/-- An allocation never hands out capacity that is outstanding elsewhere: in each direction, what the participants
hold and what they get next fit the bound together, or add up to what was outstanding with nobody getting more than it
holds. -/
theorem allocation_spares_outstanding (budget : Rates) (participants : List RateParticipant) :
    (budget.validate = .ok () → participants.length ≤ 32768 → (∀ p ∈ participants, p.valid = true) →
      (participants.map RateParticipant.id).Nodup → ∃ r, allocateSharedRates budget participants = .ok r) ∧
    ∀ allocations constraints, allocateSharedRates budget participants = .ok (allocations, constraints) →
      let sorted := sortParticipants participants
      allocations.map RateAllocation.id = sorted.map RateParticipant.id ∧ ∀ d : Direction,
        let outstanding := sorted.map fun p => p.outstanding.rate d
        let next := allocations.map fun a => a.next.rate d
        (fitsRates (budget.rate d) (List.zipWith envelope outstanding next) = true ∨
          (weights (List.zipWith envelope outstanding next) = weights outstanding ∧ List.Forall₂ (· ≤ ·) next outstanding)) ∧
        ∀ switched : RateParticipant → Bool,
          fitsRates (budget.rate d) (ratesInForce d switched sorted allocations) = true ∨
            SumAtMost (weights (ratesInForce d switched sorted allocations)) (weights outstanding) := by
  refine ⟨allocateSharedRates_of_valid, fun allocations constraints h => ?_⟩
  obtain ⟨hbound, hcount, -, hslots, hids, -, hnexts⟩ := allocated_of_ok h
  refine ⟨hids, fun d => ?_⟩
  intro outstanding next
  have hout : (rateSlots (sortParticipants participants) d).map Prod.snd = outstanding := by
    rw [rateSlots, map_map]
    rfl
  have hcount' : (rateSlots (sortParticipants participants) d).length ≤ 32768 := by
    rw [rateSlots, length_map, length_sortParticipants]
    exact hcount
  obtain ⟨hvalid, hcases⟩ := directionNexts_spec (hbound d) (hslots d) hcount'
  rw [hout, ← hnexts d] at hcases
  rw [← hnexts d] at hvalid
  have hp : ∀ p ∈ sortParticipants participants, (p.outstanding.rate d).validate = .ok () :=
    fun p hp => (hslots d _ (mem_map_of_mem hp)).1
  have ha : ∀ a ∈ allocations, (a.next.rate d).validate = .ok () := fun a ha => hvalid _ (mem_map_of_mem ha)
  have henv := (ratesInForce_le (d := d) (fun _ => true) hp ha).2.1
  refine ⟨?_, fun switched => ?_⟩
  · exact hcases.imp (fitsRates_iff_within (hbound d) henv).mpr id
  · obtain ⟨hforce, -, hle⟩ := ratesInForce_le switched hp ha
    have hsum := sumAtMost_weights hforce henv hle
    rcases hcases with hwithin | ⟨heq, -⟩
    · exact .inl ((fitsRates_iff_within (hbound d) hforce).mpr (hsum.within hwithin))
    · rw [heq] at hsum
      exact .inr hsum

end Pui
