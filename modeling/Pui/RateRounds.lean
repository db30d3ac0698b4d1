import Mathlib.Logic.Function.Iterate
import Pui.RateAllocation

/-!
# Rounds of allocation

Once the participants of a budget hold the rates that one allocation gave them, the next allocation has the same
targets and reaches them.
-/

namespace Pui

open Guard List

def SameFrozen (slots slots' : List RateSlot) : Prop :=
  List.Forall₂ (fun e e' => e'.1 = e.1 ∧ (e.1.frozen = true → e'.2 = e.2)) slots slots'

variable {bound : Rate} {slots slots' : List RateSlot} {share : Nat → RateParticipant → Rate → Rate} {rates targets : List Rate}
  {allocations : List RateAllocation} {budget : Rates} {constraints : List RateCapacityError}

theorem SameFrozen.frozenRates (h : SameFrozen slots slots') (bits burst : Nat)
    (insufficient : Bool) : Pui.frozenRates bound slots' bits burst insufficient = Pui.frozenRates bound slots bits burst insufficient := by
  induction h generalizing bits burst insufficient with
  | nil => rfl
  | @cons e e' _ _ hhead _ ih =>
    obtain ⟨p, r⟩ := e
    obtain ⟨p', r'⟩ := e'
    obtain ⟨hp, hr⟩ := hhead
    simp only at hp hr
    subst hp
    unfold Pui.frozenRates
    by_cases hfrozen : p'.frozen = true
    · obtain rfl := hr hfrozen
      simp only [ih]
    · simp only [hfrozen, Bool.false_eq_true, false_and, if_false, ih]

theorem SameFrozen.participants (h : SameFrozen slots slots') :
    slots'.map Prod.fst = slots.map Prod.fst := by
  induction h with
  | nil => rfl
  | cons hhead _ ih => rw [map_cons, map_cons, hhead.1, ih]

theorem SameFrozen.countP (h : SameFrozen slots slots') :
    (slots'.countP fun e => e.1.sharing) = slots.countP fun e => e.1.sharing := by
  have hmap := congrArg (List.countP RateParticipant.sharing) h.participants
  rwa [countP_map, countP_map] at hmap

theorem SameFrozen.minimumBurst (h : SameFrozen slots slots') :
    Pui.minimumBurst slots' = Pui.minimumBurst slots := by
  have hmap := congrArg (fun ps : List RateParticipant => ((ps.filter RateParticipant.sharing).map fun p => uint64 p.minimumBurst).sum)
    h.participants
  simp only [filter_map, map_map] at hmap
  exact hmap

theorem SameFrozen.assignRates (h : SameFrozen slots slots')
    (share : Nat → RateParticipant → Rate) (rank : Nat) :
    Pui.assignRates (fun rank p _ => share rank p) rank slots' = Pui.assignRates (fun rank p _ => share rank p) rank slots := by
  induction h generalizing rank with
  | nil => rfl
  | @cons e e' _ _ hhead _ ih =>
    obtain ⟨p, r⟩ := e
    obtain ⟨p', r'⟩ := e'
    obtain ⟨hp, hr⟩ := hhead
    simp only at hp hr
    subst hp
    unfold Pui.assignRates
    by_cases hfrozen : p'.frozen = true
    · obtain rfl := hr hfrozen
      simp only [ih]
    · simp only [hfrozen, Bool.false_eq_true, if_false, ih]

def AssignedTo (share : Nat → RateParticipant → Rate → Rate) (e : RateSlot) (r : Rate) : Prop :=
  (e.1.frozen = true → r = e.2) ∧ (e.1.frozen = false → e.1.eligible = false → r = Rate.zero) ∧
    (e.1.sharing = true → ∃ rank, r = share rank e.1 e.2)

theorem assignRates_forall₂ (share : Nat → RateParticipant → Rate → Rate) (rank : Nat) (slots : List RateSlot) :
    List.Forall₂ (AssignedTo share) slots (assignRates share rank slots) := by
  induction slots generalizing rank with
  | nil => exact .nil
  | cons e slots ih =>
    unfold assignRates
    split
    · next hfrozen =>
      refine .cons ⟨fun _ => rfl, ?_, ?_⟩ (ih rank)
      · simp [hfrozen]
      · simp [RateParticipant.sharing, hfrozen]
    · next hfrozen =>
      split
      · next heligible =>
        refine .cons ⟨fun h => absurd h hfrozen, ?_, fun _ => ⟨rank, rfl⟩⟩ (ih _)
        simp [heligible]
      · next heligible =>
        refine .cons ⟨fun h => absurd h hfrozen, fun _ _ => rfl, ?_⟩ (ih _)
        simp [RateParticipant.sharing, heligible]

theorem AssignedTo.cases {e : RateSlot} {r : Rate} (h : AssignedTo share e r) :
    r = e.2 ∨ r = Rate.zero ∨ ∃ rank, r = share rank e.1 e.2 := by
  obtain ⟨hfrozen, hout, hsharing⟩ := h
  cases hf : e.1.frozen with
  | true => exact .inl (hfrozen hf)
  | false =>
    cases he : e.1.eligible with
    | false => exact .inr (.inl (hout hf he))
    | true => exact .inr (.inr (hsharing (by simp [RateParticipant.sharing, hf, he])))

def withRates (slots : List RateSlot) (rates : List Rate) : List RateSlot := List.zipWith (fun e r => (e.1, r)) slots rates

theorem forall₂_withRates {R : RateSlot → Rate → Prop} {S : RateSlot → RateSlot → Prop} (h : ∀ e r, R e r → S e (e.1, r)) (hr : List.Forall₂ R slots rates) : List.Forall₂ S slots (withRates slots rates) := by
  induction hr with
  | nil => exact .nil
  | cons hhead _ ih => exact .cons (h _ _ hhead) ih

theorem map_snd_withRates (h : rates.length = slots.length) :
    (withRates slots rates).map Prod.snd = rates := by
  rw [withRates, map_zipWith_right (by intros; rfl) h.symm, map_id']

theorem length_withRates (h : rates.length = slots.length) :
    (withRates slots rates).length = slots.length := by
  rw [withRates, length_zipWith, h, Nat.min_self]

theorem allocateLoop_frozen (bound : Rate) (total : RateTotals)
    (h : targets.length = slots.length) :
    List.Forall₂ (fun e n => e.1.frozen = true → n = e.2) slots (allocateLoop bound total (slots.zip targets)) := by
  induction slots generalizing total targets with
  | nil => exact .nil
  | cons e slots ih =>
    cases targets with
    | nil => cases h
    | cons t targets =>
      refine .cons (fun hfrozen => ?_) (ih _ (by simpa using h))
      rw [nextRate, if_pos hfrozen]

theorem allocateLoop_reached (total : RateTotals)
    (hcurrent : ∀ e ∈ slots, e.2.validate = .ok ())
    (h : List.Forall₂ (fun e t => (e.1.frozen = true → t = e.2) ∧ (bound.mode = .unlimited ∨ t = Rate.zero ∨ t = e.2)) slots targets) :
    allocateLoop bound total (slots.zip targets) = targets := by
  induction h generalizing total with
  | nil => rfl
  | @cons e t slots targets hhead _ ih =>
    obtain ⟨hcur, hcurs⟩ := forall_mem_cons.mp hcurrent
    obtain ⟨hfrozen, hcases⟩ := hhead
    have hnext : nextRate bound total e t = t := by
      unfold nextRate
      split
      · next hf => exact (hfrozen hf).symm
      · split
        · rfl
        · next hfits =>
          rcases hcases with hunlimited | rfl | rfl
          · simp [RateTotals.fits, hunlimited] at hfits
          · simp [lowerRate, Rate.zero]
          · exact lowerRate_self hcur
    show nextRate bound total e t :: allocateLoop bound _ (slots.zip targets) = t :: targets
    rw [hnext, ih _ hcurs]

theorem envelope_of_le {a b : Rate} (ha : a.validate = .ok ()) (hb : b.validate = .ok ()) (h : a ≤ b) : envelope a b = b := by
  rw [Rate.le_iff] at h
  rcases Rate.cases_of_validate ha with rfl | rfl | ⟨bits, burst, rfl, -⟩ <;>
    rcases Rate.cases_of_validate hb with rfl | rfl | ⟨bits', burst', rfl, -⟩ <;> simp [envelope, Rate.zero] at h ⊢
  omega

theorem allocateLoop_admits (hbound : bound.validate = .ok ()) {total : RateTotals} {done : Nat × Nat × Nat} (hvalid : ValidEntries (slots.zip targets)) (hroom : Room done slots.length)
    (htotal : total.Holds (done + weights (slots.map Prod.snd)))
    (h : List.Forall₂ (fun e t => (e.1.frozen = true → t = e.2) ∧ e.2 ≤ t) slots targets)
    (hfits : Within bound (done + weights targets)) : allocateLoop bound total (slots.zip targets) = targets := by
  induction h generalizing total done with
  | nil => rfl
  | @cons e t slots targets hhead htail ih =>
    replace hvalid : ValidEntries ((e, t) :: slots.zip targets) := hvalid
    obtain ⟨hcur, htarget⟩ : e.2.validate = .ok () ∧ t.validate = .ok () := hvalid (e, t) mem_cons_self
    have hentries : ValidEntries (slots.zip targets) := (forall_mem_cons.mp hvalid).2
    obtain ⟨hfrozen, hle⟩ := hhead
    have henv : envelope e.2 t = t := envelope_of_le hcur htarget hle
    have hlength : targets.length = slots.length := htail.length_eq.symm
    have hcurrents := currents_zip hlength
    have hroom' : Room done ((slots.zip targets).length + 1) := by
      rw [length_zip, hlength, Nat.min_self]
      exact hroom
    have htotal' : total.Holds (done + weights (currents ((e, t) :: slots.zip targets))) := by
      show total.Holds (done + weights (e.2 :: currents (slots.zip targets)))
      rw [hcurrents]
      exact htotal
    have hheld : ((total.remove e.2).add (envelope e.2 t)).Holds (done + t.weight + weights (slots.map Prod.snd)) := by
      have hexchange := holds_exchange hvalid hroom' htotal' (validate_envelope hcur htarget)
      rw [hcurrents] at hexchange
      nth_rewrite 2 [henv] at hexchange
      exact hexchange
    have hbelow : SumAtMost (weights (slots.map Prod.snd)) (weights targets) := by
      refine sumAtMost_weights (fun r hr => ?_) (fun r hr => ?_) ?_
      · rw [← hcurrents] at hr
        exact hentries.currents r hr
      · obtain ⟨x, hx, rfl⟩ := mem_map.mp ((map_snd_zip hlength.le).symm ▸ hr)
        exact (hentries x hx).2
      · rw [List.forall₂_map_left_iff]
        exact htail.imp fun _ _ h => h.2
    rw [weights_cons, ← add_assoc] at hfits
    have hadmits : ((total.remove e.2).add (envelope e.2 t)).fits bound = true := by
      refine (hheld.fits_iff hbound).mpr (SumAtMost.within ?_ hfits)
      exact SumAtMost.add (.inr le_rfl) hbelow
    have hnext : nextRate bound total e t = t := by
      unfold nextRate
      rw [if_pos hadmits]
      split
      · next hf => exact (hfrozen hf).symm
      · rfl
    show nextRate bound total e t :: allocateLoop bound ((total.remove e.2).add (envelope e.2 (nextRate bound total e t)))
      (slots.zip targets) = t :: targets
    rw [hnext]
    refine congrArg _ (ih hentries ?_ hheld hfits)
    obtain ⟨hbits, hburst⟩ := Rate.weight_le_of_validate htarget
    rw [Room, length_cons] at hroom
    refine ⟨?_, ?_⟩
    · show done.2.1 + t.weight.2.1 + slots.length * 2 ^ 53 ≤ 2 ^ 68
      omega
    · show done.2.2 + t.weight.2.2 + slots.length * 2 ^ 20 ≤ 2 ^ 35
      omega

def frozenWeights (slots : List RateSlot) : Nat × Nat × Nat := weights ((slots.filter fun e => e.1.frozen).map Prod.snd)

theorem frozenWeights_cons (e : RateSlot) (slots : List RateSlot) :
    frozenWeights (e :: slots) = (if e.1.frozen then e.2.weight else 0) + frozenWeights slots := by
  unfold frozenWeights
  cases hfrozen : e.1.frozen with
  | true => rw [filter_cons_of_pos (p := fun e : RateSlot => e.1.frozen) hfrozen, map_cons, weights_cons, if_pos rfl]
  | false => rw [filter_cons_of_neg (by simp [hfrozen]), if_neg Bool.false_ne_true, zero_add]

theorem frozenRates_spec (hbound : bound.mode ≠ .unlimited)
    (hcurrent : ∀ e ∈ slots, e.2.validate = .ok ()) {bits burst bits' burst' : Nat} {insufficient : Bool}
    (h : frozenRates bound slots bits burst insufficient = (bits', burst', false)) :
    insufficient = false ∧ (frozenWeights slots).1 = 0 ∧ bits' + (frozenWeights slots).2.1 = bits ∧
      burst' + (frozenWeights slots).2.2 = burst := by
  induction slots generalizing bits burst insufficient with
  | nil =>
    simp only [frozenRates, Prod.mk.injEq] at h
    obtain ⟨rfl, rfl, rfl⟩ := h
    exact ⟨rfl, rfl, rfl, rfl⟩
  | cons e slots ih =>
    obtain ⟨p, current⟩ := e
    obtain ⟨hcur, hcurs⟩ := forall_mem_cons.mp hcurrent
    replace hcur : current.validate = .ok () := hcur
    rw [frozenWeights_cons]
    unfold frozenRates at h
    split at h
    · next htaken =>
      split at h
      · exact absurd (ih hcurs h).1 (by simp)
      · next hroom =>
        obtain ⟨hok, hunl, hbits, hburst⟩ := ih hcurs h
        simp only [not_or, not_lt] at hroom
        have hweight : current.weight = (0, current.bitsPerSecond, uint64 current.burstBytes) := by
          rcases Rate.cases_of_validate hcur with hz | hz | ⟨_, _, hz, -⟩
          · exact absurd (by rw [hz]; rfl) htaken.2.2
          · exact absurd (by rw [hz]) hroom.1
          · rw [hz]
            rfl
        rw [if_pos htaken.1, hweight]
        refine ⟨hok, ?_, ?_, ?_⟩
        · show 0 + (frozenWeights slots).1 = 0
          omega
        · show bits' + (current.bitsPerSecond + (frozenWeights slots).2.1) = bits
          omega
        · show burst' + (uint64 current.burstBytes + (frozenWeights slots).2.2) = burst
          omega
    · next hkept =>
      have hzero : (if p.frozen then current.weight else 0) = 0 := by
        split
        · next hfrozen =>
          have hblocked : current.mode = .blocked := by
            by_contra hne
            exact hkept ⟨hfrozen, hbound, hne⟩
          rcases Rate.cases_of_validate hcur with hz | hz | ⟨_, _, hz, -⟩
          · rw [hz]
            rfl
          · rw [hz] at hblocked
            cases hblocked
          · rw [hz] at hblocked
            cases hblocked
        · rfl
      rw [hzero, zero_add]
      exact ih hcurs h

def evenParts (amount count : Nat) : Nat → Nat → Nat
  | _, 0 => 0
  | rank, n + 1 => evenPart amount count rank + evenParts amount count (rank + 1) n

theorem evenParts_eq (amount count rank n : Nat) :
    evenParts amount count rank n + min rank (amount % count) = n * (amount / count) + min (rank + n) (amount % count) := by
  induction n generalizing rank with
  | zero => simp [evenParts]
  | succ n ih =>
    have hrest := ih (rank + 1)
    rw [evenParts, evenPart, Nat.succ_mul]
    split <;> omega

theorem evenParts_all (amount : Nat) {count : Nat} (hcount : 0 < count) : evenParts amount count 0 count = amount := by
  have heq := evenParts_eq amount count 0 count
  have hdiv := Nat.div_add_mod amount count
  have hmod := Nat.mod_lt amount hcount
  rw [Nat.zero_min, Nat.zero_add, Nat.add_zero, Nat.min_eq_right hmod.le] at heq
  omega

theorem uint64_natCast_le (n : Nat) : uint64 n ≤ n := by
  unfold uint64
  omega

theorem minimumBurst_cons (e : RateSlot) (slots : List RateSlot) :
    minimumBurst (e :: slots) = (if e.1.sharing then uint64 e.1.minimumBurst else 0) + minimumBurst slots := by
  unfold minimumBurst
  cases hsharing : e.1.sharing with
  | true => rw [filter_cons_of_pos (p := fun e : RateSlot => e.1.sharing) hsharing, map_cons, sum_cons, if_pos rfl]
  | false => rw [filter_cons_of_neg (by simp [hsharing]), if_neg Bool.false_ne_true, Nat.zero_add]

theorem weights_fairShares (slots : List RateSlot) (bits extra count rank : Nat) :
    let targets := assignRates (fun rank p _ =>
      ⟨.limited, evenPart bits count rank, uint64 p.minimumBurst + evenPart extra count rank⟩) rank slots
    let sharing := slots.countP fun e => e.1.sharing
    (weights targets).1 = (frozenWeights slots).1 ∧
      (weights targets).2.1 = (frozenWeights slots).2.1 + evenParts bits count rank sharing ∧
      (weights targets).2.2 ≤ (frozenWeights slots).2.2 + minimumBurst slots + evenParts extra count rank sharing := by
  induction slots generalizing rank with
  | nil => exact ⟨rfl, rfl, Nat.zero_le _⟩
  | cons e slots ih =>
    obtain ⟨p, current⟩ := e
    simp only [frozenWeights_cons, minimumBurst_cons, countP_cons]
    unfold assignRates
    by_cases hfrozen : p.frozen = true
    · obtain ⟨hunl, hbits, hburst⟩ := ih rank
      have hnot : p.sharing = false := by simp [RateParticipant.sharing, hfrozen]
      simp only [hfrozen, hnot, if_true, Bool.false_eq_true, if_false, weights_cons, Prod.fst_add, Prod.snd_add, Nat.add_zero]
      refine ⟨?_, ?_, ?_⟩ <;> omega
    · by_cases heligible : p.eligible = true
      · obtain ⟨hunl, hbits, hburst⟩ := ih (rank + 1)
        have hsharing : p.sharing = true := by simp [RateParticipant.sharing, hfrozen, heligible]
        have hle := uint64_natCast_le (uint64 p.minimumBurst + evenPart extra count rank)
        simp only [hfrozen, heligible, hsharing, if_true, Bool.false_eq_true, if_false, weights_cons, Prod.fst_add, Prod.snd_add,
          evenParts, Rate.weight, Prod.fst_zero, Prod.snd_zero, Nat.cast_add] at hle ⊢
        refine ⟨?_, ?_, ?_⟩ <;> omega
      · obtain ⟨hunl, hbits, hburst⟩ := ih rank
        have hnot : p.sharing = false := by simp [RateParticipant.sharing, heligible]
        have hzero : Rate.zero.weight = 0 := rfl
        simp only [hfrozen, heligible, hnot, Bool.false_eq_true, if_false, weights_cons, Prod.fst_add, Prod.snd_add, hzero,
          Prod.fst_zero, Prod.snd_zero, Nat.add_zero, Nat.zero_add]
        exact ⟨hunl, hbits, hburst⟩

theorem weights_blocked (slots : List RateSlot) (rank : Nat) :
    weights (assignRates (fun _ _ _ => Rate.zero) rank slots) = frozenWeights slots := by
  induction slots generalizing rank with
  | nil => rfl
  | cons e slots ih =>
    have hzero : Rate.zero.weight = 0 := rfl
    rw [frozenWeights_cons]
    unfold assignRates
    split
    · rw [weights_cons, ih]
    · split
      · rw [weights_cons, ih, hzero]
      · rw [weights_cons, ih, hzero]

theorem within_fairShares (hbound : bound.mode ≠ .unlimited)
    (hcurrent : ∀ e ∈ slots, e.2.validate = .ok ()) {bits burst : Nat}
    (hleft : frozenRates bound slots bound.bitsPerSecond (uint64 bound.burstBytes) (bound.mode = .blocked) = (bits, burst, false))
    (hcount : 0 < slots.countP fun e => e.1.sharing) (hburst : minimumBurst slots ≤ burst) :
    Within bound (weights (assignRates (fun rank p _ =>
      ⟨.limited, evenPart bits (slots.countP fun e => e.1.sharing) rank,
        uint64 p.minimumBurst + evenPart (burst - minimumBurst slots) (slots.countP fun e => e.1.sharing) rank⟩) 0 slots)) := by
  obtain ⟨-, hunl, hbitsLeft, hburstLeft⟩ := frozenRates_spec hbound hcurrent hleft
  obtain ⟨h1, h2, h3⟩ := weights_fairShares slots bits (burst - minimumBurst slots) (slots.countP fun e => e.1.sharing) 0
  rw [evenParts_all _ hcount] at h2 h3
  refine .inr ⟨?_, ?_, ?_⟩ <;> omega

theorem directionNexts_of_assigned (hcurrent : ∀ e ∈ slots, e.2.validate = .ok ()) (hshare : ∀ rank p r, bound.mode = .unlimited ∨ share rank p r = Rate.zero ∨ share rank p r = r)
    (htargets : fairRateTargets bound slots = assignRates share 0 slots) :
    directionNexts bound slots = fairRateTargets bound slots := by
  refine allocateLoop_reached _ hcurrent ?_
  rw [htargets]
  refine (assignRates_forall₂ share 0 slots).imp fun e t ht => ⟨ht.1, ?_⟩
  rcases ht.cases with h | h | ⟨rank, rfl⟩
  · exact .inr (.inr h)
  · exact .inr (.inl h)
  · exact hshare rank _ _

theorem assignRates_kept (share : Nat → RateParticipant → Rate → Rate) (rank rank' : Nat) (slots : List RateSlot) :
    assignRates (fun _ _ current => current) rank' (withRates slots (assignRates share rank slots)) = assignRates share rank slots := by
  induction slots generalizing rank rank' with
  | nil => rfl
  | cons e slots ih =>
    obtain ⟨p, current⟩ := e
    rw [assignRates]
    split
    · next hfrozen =>
      show assignRates _ rank' ((p, current) :: withRates slots (assignRates share rank slots)) = _
      rw [assignRates, if_pos hfrozen, ih]
    · next hfrozen =>
      split
      · next heligible =>
        show assignRates _ rank' ((p, share rank p current) :: withRates slots (assignRates share (rank + 1) slots)) = _
        rw [assignRates, if_neg hfrozen, if_pos heligible, ih]
      · next heligible =>
        show assignRates _ rank' ((p, Rate.zero) :: withRates slots (assignRates share rank slots)) = _
        rw [assignRates, if_neg hfrozen, if_neg heligible, ih]

theorem retainFeasibleRates_retained (hbound : bound.validate = .ok ()) (hlimited : bound.mode ≠ .unlimited) (hcurrent : ∀ e ∈ slots, e.2.validate = .ok ()) {bits burst : Nat}
    (hleft : frozenRates bound slots bound.bitsPerSecond (uint64 bound.burstBytes) (bound.mode = .blocked) = (bits, burst, false)) :
    retainFeasibleRates bound (withRates slots (retainFeasibleRates bound slots)) = retainFeasibleRates bound slots := by
  have hzero : Rate.zero.validate = .ok () := by decide
  have hrates : ∀ r ∈ slots.map Prod.snd, r.validate = .ok () := by
    intro r hr
    obtain ⟨e, he, rfl⟩ := mem_map.mp hr
    exact hcurrent e he
  obtain ⟨share, hretain, hvalid, hfits⟩ : ∃ share, retainFeasibleRates bound slots = assignRates share 0 slots ∧
      (∀ r ∈ assignRates share 0 slots, r.validate = .ok ()) ∧ Within bound (weights (assignRates share 0 slots)) := by
    unfold retainFeasibleRates
    split
    · next hfits =>
      have hkept : ∀ r ∈ assignRates (fun _ _ current => current) 0 slots, r.validate = .ok () :=
        forall_assignRates hzero hcurrent (fun e he _ _ => hcurrent e he) 0
      refine ⟨fun _ _ current => current, rfl, hkept, ?_⟩
      have hbelow : SumAtMost (weights (assignRates (fun _ _ current => current) 0 slots)) (weights (slots.map Prod.snd)) := by
        refine sumAtMost_weights hkept hrates ?_
        rw [List.forall₂_map_right_iff]
        refine (assignRates_forall₂ _ 0 slots).flip.imp fun r e hr => ?_
        have hassigned : AssignedTo (fun _ _ current => current) e r := hr
        rcases hassigned.cases with rfl | rfl | ⟨-, rfl⟩
        · exact le_rfl
        · exact Rate.zero_le _
        · exact le_rfl
      exact hbelow.within ((fitsRates_iff_within hbound hrates).mp hfits)
    · refine ⟨fun _ _ _ => Rate.zero, rfl, forall_assignRates hzero hcurrent (fun _ _ _ _ => hzero) 0, ?_⟩
      obtain ⟨-, hunl, hbitsLeft, hburstLeft⟩ := frozenRates_spec hlimited hcurrent hleft
      rw [weights_blocked]
      refine .inr ⟨?_, ?_, ?_⟩ <;> omega
  have hlength : (assignRates share 0 slots).length = slots.length := length_assignRates share 0 slots
  have hfits' : fitsRates bound ((withRates slots (assignRates share 0 slots)).map Prod.snd) = true := by
    rw [map_snd_withRates hlength]
    exact (fitsRates_iff_within hbound hvalid).mpr hfits
  rw [hretain]
  nth_rewrite 1 [retainFeasibleRates]
  rw [if_pos hfits', assignRates_kept]

theorem allocateLoop_le (total : RateTotals)
    (hvalid : ValidEntries (slots.zip targets)) (h : List.Forall₂ (fun e t => e.1.frozen = true → t = e.2) slots targets) :
    List.Forall₂ (· ≤ ·) (allocateLoop bound total (slots.zip targets)) targets := by
  induction h generalizing total with
  | nil => exact .nil
  | @cons e t slots targets hhead _ ih =>
    replace hvalid : ValidEntries ((e, t) :: slots.zip targets) := hvalid
    obtain ⟨⟨hcur, htarget⟩, hentries⟩ := forall_mem_cons.mp hvalid
    refine .cons ?_ (ih _ hentries)
    unfold nextRate
    split
    · next hfrozen => exact (hhead hfrozen).ge
    · split
      · exact le_rfl
      · exact lowerRate_le_right hcur htarget

theorem withRates_below {nexts : List Rate}
    (hnexts : List.Forall₂ (fun e n => e.1.frozen = true → n = e.2) slots nexts)
    (htargets : List.Forall₂ (fun e t => e.1.frozen = true → t = e.2) slots targets) (hle : List.Forall₂ (· ≤ ·) nexts targets) :
    List.Forall₂ (fun e t => (e.1.frozen = true → t = e.2) ∧ e.2 ≤ t) (withRates slots nexts) targets := by
  induction hnexts generalizing targets with
  | nil =>
    cases hle
    exact .nil
  | cons hnext _ ih =>
    cases hle with
    | cons hhead hle =>
      cases htargets with
      | cons htarget htargets => exact .cons ⟨fun hf => (htarget hf).trans (hnext hf).symm, hhead⟩ (ih htargets hle)

theorem frozen_fairRateTargets (bound : Rate) (slots : List RateSlot) :
    List.Forall₂ (fun e t => e.1.frozen = true → t = e.2) slots (fairRateTargets bound slots) := by
  have hassign : ∀ share, List.Forall₂ (fun (e : RateSlot) t => e.1.frozen = true → t = e.2) slots (assignRates share 0 slots) :=
    fun share => (assignRates_forall₂ share 0 slots).imp fun _ _ h => h.1
  unfold fairRateTargets retainFeasibleRates
  dsimp only
  split_ifs <;> exact hassign _

theorem validSlots_withRates (hslots : ValidSlots slots)
    (hrates : ∀ r ∈ rates, r.validate = .ok ()) : ValidSlots (withRates slots rates) := by
  intro e he
  obtain ⟨i, hi, rfl⟩ := mem_iff_getElem.mp he
  simp only [withRates, length_zipWith, Nat.lt_min] at hi
  simp only [withRates, getElem_zipWith]
  exact ⟨hrates _ (getElem_mem hi.2), (hslots _ (getElem_mem hi.1)).2⟩

theorem directionNexts_of_targets (hslots : ValidSlots slots)
    (h : fairRateTargets bound slots = slots.map Prod.snd) : directionNexts bound slots = slots.map Prod.snd := by
  rw [← h]
  refine allocateLoop_reached _ (fun e he => (hslots e he).1) ?_
  rw [h, List.forall₂_map_right_iff, List.forall₂_same]
  exact fun e _ => ⟨fun _ => rfl, .inr (.inr rfl)⟩

theorem second_round (hbound : bound.validate = .ok ()) (hslots : ValidSlots slots)
    (hcount : slots.length ≤ 32768) :
    fairRateTargets bound (withRates slots (directionNexts bound slots)) = fairRateTargets bound slots ∧
      directionNexts bound (withRates slots (directionNexts bound slots)) = fairRateTargets bound slots := by
  have hcurrent : ∀ e ∈ slots, e.2.validate = .ok () := fun e he => (hslots e he).1
  have hlength := length_directionNexts bound slots
  have hfrozen := allocateLoop_frozen bound ((slots.map Prod.snd).foldl RateTotals.add .zero) (length_fairRateTargets bound slots)
  have hsame : SameFrozen slots (withRates slots (directionNexts bound slots)) :=
    forall₂_withRates (fun _ _ h => ⟨rfl, h⟩) hfrozen
  have hvalid : ValidSlots (withRates slots (directionNexts bound slots)) :=
    validSlots_withRates hslots (directionNexts_spec hbound hslots hcount).1
  -- where the first round reaches its targets, it is enough that they stay
  have hstays : directionNexts bound slots = fairRateTargets bound slots →
      fairRateTargets bound (withRates slots (directionNexts bound slots)) = fairRateTargets bound slots →
      fairRateTargets bound (withRates slots (directionNexts bound slots)) = fairRateTargets bound slots ∧
        directionNexts bound (withRates slots (directionNexts bound slots)) = fairRateTargets bound slots := by
    intro hreached htargets
    refine ⟨htargets, ?_⟩
    rw [directionNexts_of_targets hvalid, map_snd_withRates hlength, hreached]
    rw [htargets, map_snd_withRates hlength, hreached]
  rcases hleft : frozenRates bound slots bound.bitsPerSecond (uint64 bound.burstBytes) (bound.mode = .blocked) with ⟨bits, burst, insufficient⟩
  have hfirst := fairRateTargets.eq_1 bound slots
  have hsecond := fairRateTargets.eq_1 bound (withRates slots (directionNexts bound slots))
  rw [hsame.frozenRates, hsame.countP, hsame.minimumBurst] at hsecond
  simp only [hleft] at hfirst hsecond
  by_cases hnone : (slots.countP fun e => e.1.sharing) = 0 ∨ insufficient = true
  · rw [if_pos hnone] at hfirst hsecond
    refine hstays (directionNexts_of_assigned hcurrent (fun _ _ _ => .inr (.inl rfl)) hfirst) ?_
    rw [hsecond, hfirst, hsame.assignRates]
  rw [if_neg hnone] at hfirst hsecond
  by_cases hunlimited : bound.mode = .unlimited
  · rw [if_pos hunlimited] at hfirst hsecond
    refine hstays (directionNexts_of_assigned hcurrent (fun _ _ _ => .inl hunlimited) hfirst) ?_
    rw [hsecond, hfirst, hsame.assignRates]
  rw [if_neg hunlimited] at hfirst hsecond
  simp only [not_or, Bool.not_eq_true] at hnone
  obtain ⟨hsome, rfl⟩ := hnone
  by_cases hroom : bits < (slots.countP fun e => e.1.sharing) ∨ minimumBurst slots > burst
  · -- the budget is not shared out: the rates that are retained are reached, and retained again
    have hretain : fairRateTargets bound slots = retainFeasibleRates bound slots := by
      rw [hfirst]
      rcases hroom with h | h
      · rw [if_pos h]
      · rw [if_pos h, ite_self]
    have hretain' : fairRateTargets bound (withRates slots (directionNexts bound slots)) =
        retainFeasibleRates bound (withRates slots (directionNexts bound slots)) := by
      rw [hsecond]
      rcases hroom with h | h
      · rw [if_pos h]
      · rw [if_pos h, ite_self]
    have hreached : directionNexts bound slots = fairRateTargets bound slots := by
      by_cases hfits : fitsRates bound (slots.map Prod.snd) = true
      · refine directionNexts_of_assigned hcurrent (fun _ _ _ => .inr (.inr rfl)) (hretain.trans ?_)
        rw [retainFeasibleRates, if_pos hfits]
      · refine directionNexts_of_assigned hcurrent (fun _ _ _ => .inr (.inl rfl)) (hretain.trans ?_)
        rw [retainFeasibleRates, if_neg hfits]
    refine hstays hreached ?_
    rw [hretain', hreached, hretain, retainFeasibleRates_retained hbound hunlimited hcurrent hleft]
  · -- the fair shares fit the bound next to the frozen rates, so every increase is admitted
    rw [not_or, not_lt, not_lt] at hroom
    rw [if_neg (by omega), if_neg (by omega)] at hfirst hsecond
    have htargets : fairRateTargets bound (withRates slots (directionNexts bound slots)) = fairRateTargets bound slots := by
      rw [hsecond, hfirst, hsame.assignRates]
    refine ⟨htargets, ?_⟩
    have hwithin : Within bound (weights (fairRateTargets bound slots)) := by
      rw [hfirst]
      exact within_fairShares hunlimited hcurrent hleft (Nat.pos_of_ne_zero hsome) hroom.2
    have hbelow := withRates_below hfrozen (frozen_fairRateTargets bound slots)
      (allocateLoop_le _ (allocation_starts hbound hslots hcount).1 (frozen_fairRateTargets bound slots))
    obtain ⟨hentries, hcapacity, htotal⟩ := allocation_starts hbound hvalid (by rw [length_withRates hlength]; exact hcount)
    rw [currents_zip (length_fairRateTargets bound _)] at htotal
    rw [length_zip, length_fairRateTargets, Nat.min_self] at hcapacity
    rw [htargets] at hentries
    rw [directionNexts, htargets]
    refine allocateLoop_admits hbound hentries hcapacity htotal hbelow ?_
    rw [zero_add]
    exact hwithin

def bareSlot (e : RateSlot) : RateSlot := ({ e.1 with outstanding := Rates.zero }, e.2)

theorem frozenRates_bare (bound : Rate) (slots : List RateSlot) (bits burst : Nat) (insufficient : Bool) :
    frozenRates bound (slots.map bareSlot) bits burst insufficient = frozenRates bound slots bits burst insufficient := by
  induction slots generalizing bits burst insufficient with
  | nil => rfl
  | cons e slots ih =>
    rw [map_cons, bareSlot, frozenRates, frozenRates]
    simp only [ih]

theorem assignRates_bare
    (hshare : ∀ rank p r, share rank { p with outstanding := Rates.zero } r = share rank p r) (rank : Nat) (slots : List RateSlot) :
    assignRates share rank (slots.map bareSlot) = assignRates share rank slots := by
  induction slots generalizing rank with
  | nil => rfl
  | cons e slots ih =>
    rw [map_cons, bareSlot, assignRates, assignRates]
    simp only [ih, hshare]

theorem map_snd_bare (slots : List RateSlot) : (slots.map bareSlot).map Prod.snd = slots.map Prod.snd := map_map

theorem fairRateTargets_bare (bound : Rate) (slots : List RateSlot) :
    fairRateTargets bound (slots.map bareSlot) = fairRateTargets bound slots := by
  have hcount : ((slots.map bareSlot).countP fun e => e.1.sharing) = slots.countP fun e => e.1.sharing := countP_map
  have hburst : minimumBurst (slots.map bareSlot) = minimumBurst slots := by
    unfold minimumBurst
    rw [filter_map, map_map]
    rfl
  have hretain : retainFeasibleRates bound (slots.map bareSlot) = retainFeasibleRates bound slots := by
    unfold retainFeasibleRates
    rw [map_snd_bare, assignRates_bare (by intros; rfl), assignRates_bare (by intros; rfl)]
  unfold fairRateTargets
  rw [frozenRates_bare, hcount, hburst, hretain, assignRates_bare (by intros; rfl), assignRates_bare (by intros; rfl)]
  simp only [assignRates_bare, implies_true]

theorem allocateLoop_bare (bound : Rate) (total : RateTotals) (slots : List RateSlot) (targets : List Rate) :
    allocateLoop bound total ((slots.map bareSlot).zip targets) = allocateLoop bound total (slots.zip targets) := by
  induction slots generalizing total targets with
  | nil => rfl
  | cons e slots ih =>
    cases targets with
    | nil => rfl
    | cons t targets => exact congrArg (nextRate bound total e t :: ·) (ih _ targets)

theorem directionNexts_bare (bound : Rate) (slots : List RateSlot) :
    directionNexts bound (slots.map bareSlot) = directionNexts bound slots := by
  unfold directionNexts
  rw [fairRateTargets_bare, map_snd_bare, allocateLoop_bare]

def RateParticipant.holding (allocations : List RateAllocation) (p : RateParticipant) : RateParticipant :=
  match allocations.find? fun a => a.id = p.id with
  | some a => { p with outstanding := a.next }
  | none => p

def withNext (participants : List RateParticipant) (allocations : List RateAllocation) : List RateParticipant :=
  participants.map (RateParticipant.holding allocations)

@[simp] theorem holding_id (allocations : List RateAllocation) (p : RateParticipant) : (p.holding allocations).id = p.id := by
  unfold RateParticipant.holding
  split <;> rfl

theorem sortParticipants_withNext (participants : List RateParticipant) (allocations : List RateAllocation) :
    sortParticipants (withNext participants allocations) = (sortParticipants participants).map (RateParticipant.holding allocations) := by
  refine (map_mergeSort fun p _ q _ => ?_).symm
  rw [holding_id, holding_id]

theorem map_holding {participants : List RateParticipant}
    (hids : allocations.map RateAllocation.id = participants.map RateParticipant.id) (hnodup : (participants.map RateParticipant.id).Nodup) :
    participants.map (RateParticipant.holding allocations) =
      List.zipWith (fun p a => { p with outstanding := a.next }) participants allocations := by
  induction participants generalizing allocations with
  | nil => rfl
  | cons p participants ih =>
    cases allocations with
    | nil => cases hids
    | cons a allocations =>
      obtain ⟨hid, hids⟩ : a.id = p.id ∧ allocations.map RateAllocation.id = participants.map RateParticipant.id := by simpa using hids
      rw [map_cons, nodup_cons] at hnodup
      have hhead : p.holding (a :: allocations) = { p with outstanding := a.next } := by
        rw [RateParticipant.holding, List.find?_cons_of_pos (by simpa using hid)]
      have htail : participants.map (RateParticipant.holding (a :: allocations)) = participants.map (RateParticipant.holding allocations) := by
        refine map_congr_left fun q hq => ?_
        have hne : a.id ≠ q.id := by
          rw [hid]
          exact fun h => hnodup.1 (h ▸ mem_map_of_mem hq)
        rw [RateParticipant.holding, List.find?_cons_of_neg (by simpa using hne)]
        rfl
      rw [map_cons, hhead, htail, ih hids hnodup.2]
      rfl

theorem rateSlots_holding (participants : List RateParticipant) (allocations : List RateAllocation) (d : Direction) :
    (rateSlots (List.zipWith (fun p a => { p with outstanding := a.next }) participants allocations) d).map bareSlot =
      (withRates (rateSlots participants d) (allocations.map fun a => a.next.rate d)).map bareSlot := by
  unfold rateSlots withRates
  rw [zipWith_map, map_zipWith, map_zipWith, map_zipWith]
  rfl

theorem allocations_ext {as bs : List RateAllocation} (hid : as.map RateAllocation.id = bs.map RateAllocation.id)
    (htarget : ∀ d, (as.map fun a => a.target.rate d) = bs.map fun a => a.target.rate d)
    (hnext : ∀ d, (as.map fun a => a.next.rate d) = bs.map fun a => a.next.rate d) : as = bs := by
  induction as generalizing bs with
  | nil =>
    cases bs with
    | nil => rfl
    | cons b bs => cases hid
  | cons a as ih =>
    cases bs with
    | nil => cases hid
    | cons b bs =>
      simp only [map_cons, List.cons.injEq] at hid htarget hnext
      have hhead : a = b := by
        obtain ⟨_, ⟨_, _⟩, ⟨_, _⟩⟩ := b
        obtain rfl := hid.1
        obtain rfl := (htarget .upload).1
        obtain rfl := (htarget .download).1
        obtain rfl := (hnext .upload).1
        obtain rfl := (hnext .download).1
        rfl
      rw [hhead, ih hid.2 (fun d => (htarget d).2) fun d => (hnext d).2]

def settledAllocations (allocations : List RateAllocation) : List RateAllocation := allocations.map fun a => { a with next := a.target }

theorem valid_holding (hnext : ∀ a ∈ allocations, a.next.validate = .ok ()) {p : RateParticipant}
    (hp : p.valid = true) : (p.holding allocations).valid = true := by
  unfold RateParticipant.holding
  split
  · next a hfound =>
    simp only [RateParticipant.valid, Bool.and_eq_true, decide_eq_true_eq] at hp ⊢
    exact ⟨⟨⟨hp.1.1.1, hnext a (mem_of_find?_eq_some hfound)⟩, hp.1.2⟩, hp.2⟩
  · exact hp

theorem valid_of_allocated {participants : List RateParticipant} {r : List RateAllocation × List RateCapacityError}
    (h : allocateSharedRates budget participants = .ok r) :
    budget.validate = .ok () ∧ ∀ p ∈ participants, p.valid = true := by
  simp only [allocateSharedRates, unit_bind_eq_ok, refuse_eq_ok, not_or, not_not, not_exists, not_and] at h
  obtain ⟨⟨hbudget, -⟩, ⟨hvalid, -⟩, -⟩ := h
  exact ⟨hbudget, fun p hp => by simpa using hvalid p (mem_sortParticipants.mpr hp)⟩

theorem map_id_withNext (participants : List RateParticipant) (allocations : List RateAllocation) :
    (withNext participants allocations).map RateParticipant.id = participants.map RateParticipant.id := by
  rw [withNext, map_map]
  exact map_congr_left fun p _ => holding_id allocations p

theorem allocate_withNext {participants : List RateParticipant} (h : allocateSharedRates budget participants = .ok (allocations, constraints)) :
    ∃ constraints', allocateSharedRates budget (withNext participants allocations) =
      .ok (settledAllocations allocations, constraints') := by
  obtain ⟨hbound, hcount, hnodup, hslots, hids, htargets, hnexts⟩ := allocated_of_ok h
  have hlength : ∀ d, (rateSlots (sortParticipants participants) d).length ≤ 32768 := by
    intro d
    rw [rateSlots, length_map, length_sortParticipants]
    exact hcount
  have hnodup' : ((sortParticipants participants).map RateParticipant.id).Nodup :=
    ((mergeSort_perm participants _).map _).nodup_iff.mpr hnodup
  have hsorted : sortParticipants (withNext participants allocations) =
      List.zipWith (fun p a => { p with outstanding := a.next }) (sortParticipants participants) allocations := by
    rw [sortParticipants_withNext, map_holding hids hnodup']
  have hround : ∀ d, fairRateTargets (budget.rate d) (rateSlots (sortParticipants (withNext participants allocations)) d) =
        fairRateTargets (budget.rate d) (rateSlots (sortParticipants participants) d) ∧
      directionNexts (budget.rate d) (rateSlots (sortParticipants (withNext participants allocations)) d) =
        fairRateTargets (budget.rate d) (rateSlots (sortParticipants participants) d) := by
    intro d
    have hsecond := second_round (hbound d) (hslots d) (hlength d)
    rw [← fairRateTargets_bare, ← directionNexts_bare, hsorted, rateSlots_holding, hnexts d, fairRateTargets_bare, directionNexts_bare]
    exact hsecond
  have hnext : ∀ a ∈ allocations, a.next.validate = .ok () := by
    intro a ha
    have hrate : ∀ d, (a.next.rate d).validate = .ok () := by
      intro d
      refine (directionNexts_spec (hbound d) (hslots d) (hlength d)).1 _ ?_
      rw [← hnexts d]
      exact mem_map_of_mem ha
    exact Rates.validate_eq_ok.mpr ⟨hrate .upload, hrate .download⟩
  obtain ⟨hbudget, hvalid⟩ := valid_of_allocated h
  have hagain : ∃ r, allocateSharedRates budget (withNext participants allocations) = .ok r := by
    refine allocateSharedRates_of_valid hbudget ?_ (fun p hp => ?_) ?_
    · rw [withNext, length_map]
      exact hcount
    · obtain ⟨q, hq, rfl⟩ := mem_map.mp hp
      exact valid_holding hnext (hvalid q hq)
    · rw [map_id_withNext]
      exact hnodup
  obtain ⟨⟨second, constraints'⟩, hok⟩ := hagain
  obtain ⟨-, -, -, -, hids', htargets', hnexts'⟩ := allocated_of_ok hok
  refine ⟨constraints', hok.trans ?_⟩
  have hsettled : second = settledAllocations allocations := by
    refine allocations_ext ?_ (fun d => ?_) (fun d => ?_)
    · have hkept : (settledAllocations allocations).map RateAllocation.id = allocations.map RateAllocation.id := map_map
      rw [hids', sortParticipants_withNext, hkept, hids]
      exact map_id_withNext (sortParticipants participants) allocations
    · rw [htargets', (hround d).1, ← htargets, settledAllocations, map_map]
      rfl
    · rw [hnexts', (hround d).2, ← htargets, settledAllocations, map_map]
      rfl
  rw [hsettled]

theorem settledAllocations_settled (allocations : List RateAllocation) :
    settledAllocations (settledAllocations allocations) = settledAllocations allocations := map_map

theorem withNext_withNext (participants : List RateParticipant) (allocations : List RateAllocation) :
    withNext (withNext participants allocations) allocations = withNext participants allocations := by
  unfold withNext
  rw [map_map]
  refine map_congr_left fun p _ => ?_
  rw [Function.comp_apply, RateParticipant.holding, holding_id, RateParticipant.holding]
  split <;> rfl

def rateRound (budget : Rates) (participants : List RateParticipant) : List RateParticipant :=
  match allocateSharedRates budget participants with
  | .ok (allocations, _) => withNext participants allocations
  | .error _ => participants

theorem rateRound_of_ok {participants : List RateParticipant} (h : allocateSharedRates budget participants = .ok (allocations, constraints)) :
    rateRound budget participants = withNext participants allocations := by
  rw [rateRound, h]

end Pui
