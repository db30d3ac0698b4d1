import Mathlib.Algebra.Order.BigOperators.Group.List
import Pui.Requests

/-!
# Shared rates

The rates that the nodes of a client may use at once are shares of one budget.
-/

namespace Pui

open Guard Table List

def Rate.AtMost (r s : Rate) : Prop :=
  s.mode = .unlimited ∨ r.mode = .blocked ∨ r = s ∨
    (r.mode = .limited ∧ s.mode = .limited ∧ r.bitsPerSecond ≤ s.bitsPerSecond ∧ r.burstBytes ≤ s.burstBytes)

instance (r s : Rate) : Decidable (r.AtMost s) :=
  inferInstanceAs (Decidable (s.mode = .unlimited ∨ r.mode = .blocked ∨ r = s ∨
    (r.mode = .limited ∧ s.mode = .limited ∧ r.bitsPerSecond ≤ s.bitsPerSecond ∧ r.burstBytes ≤ s.burstBytes)))

instance : Preorder Rate where
  le := Rate.AtMost
  le_refl r := .inr (.inr (.inl rfl))
  le_trans r s t hrs hst := by
    unfold Rate.AtMost at hrs hst ⊢
    rcases hrs with hs | hr | rfl | ⟨hr, hs, hbits, hburst⟩
    · rcases hst with ht | hs' | rfl | ⟨hs', -⟩
      · exact .inl ht
      · rw [hs] at hs'; cases hs'
      · exact .inl hs
      · rw [hs] at hs'; cases hs'
    · exact .inr (.inl hr)
    · exact hst
    · rcases hst with ht | hs' | rfl | ⟨-, ht, hbits', hburst'⟩
      · exact .inl ht
      · rw [hs] at hs'; cases hs'
      · exact .inr (.inr (.inr ⟨hr, hs, hbits, hburst⟩))
      · exact .inr (.inr (.inr ⟨hr, ht, hbits.trans hbits', hburst.trans hburst'⟩))

instance (r s : Rate) : Decidable (r ≤ s) := inferInstanceAs (Decidable (r.AtMost s))

theorem Rate.le_iff {r s : Rate} : r ≤ s ↔ s.mode = .unlimited ∨ r.mode = .blocked ∨ r = s ∨
    (r.mode = .limited ∧ s.mode = .limited ∧ r.bitsPerSecond ≤ s.bitsPerSecond ∧ r.burstBytes ≤ s.burstBytes) := Iff.rfl

theorem Rate.zero_le (r : Rate) : Rate.zero ≤ r := Rate.le_iff.mpr (.inr (.inl rfl))

instance : Preorder Rates where
  le r s := r.upload ≤ s.upload ∧ r.download ≤ s.download
  le_refl r := ⟨le_rfl, le_rfl⟩
  le_trans _ _ _ h h' := ⟨h.1.trans h'.1, h.2.trans h'.2⟩

instance (r s : Rates) : Decidable (r ≤ s) := inferInstanceAs (Decidable (r.upload ≤ s.upload ∧ r.download ≤ s.download))

theorem Rates.zero_le (r : Rates) : Rates.zero ≤ r := ⟨Rate.zero_le _, Rate.zero_le _⟩

theorem Rate.validate_eq_ok {r : Rate} : r.validate = .ok () ↔
    ((r.mode = .blocked ∨ r.mode = .unlimited) ∧ r.bitsPerSecond = 0 ∧ r.burstBytes = 0) ∨
      (r.mode = .limited ∧ 0 < r.bitsPerSecond ∧ r.bitsPerSecond ≤ 2 ^ 53 ∧ 1 ≤ r.burstBytes ∧ r.burstBytes ≤ 2 ^ 20) := by
  obtain ⟨mode, bits, burst⟩ := r
  cases mode <;> simp [Rate.validate]

theorem Rates.validate_eq_ok {r : Rates} : r.validate = .ok () ↔ r.upload.validate = .ok () ∧ r.download.validate = .ok () := by
  rw [Rates.validate, Policy.validate_eq_ok]
  simp

theorem decodeRates_eq_ok {r s : Rates} : decodeRates r = .ok s ↔ r.validate = .ok () ∧ s = r := by
  unfold decodeRates
  split
  · next h => simp [h]
  · next h => simp [h, eq_comm]

theorem Rates.validate_zero : Rates.zero.validate = .ok () := by decide

def envelope (a b : Rate) : Rate :=
  if a.mode = .unlimited ∨ b.mode = .unlimited then ⟨.unlimited, 0, 0⟩
  else if a.mode = .blocked then b
  else if b.mode = .blocked then a
  else ⟨.limited, max a.bitsPerSecond b.bitsPerSecond, max a.burstBytes b.burstBytes⟩

section Envelope

variable {a b : Rate} (ha : a.validate = .ok ()) (hb : b.validate = .ok ())

include ha hb

theorem validate_envelope : (envelope a b).validate = .ok () := by
  rw [Rate.validate_eq_ok] at ha hb
  unfold envelope
  split
  · decide
  · split
    · exact Rate.validate_eq_ok.mpr hb
    · split
      · exact Rate.validate_eq_ok.mpr ha
      · rw [Rate.validate_eq_ok]
        refine .inr ⟨rfl, ?_⟩
        have hla : ¬((a.mode = .blocked ∨ a.mode = .unlimited) ∧ a.bitsPerSecond = 0 ∧ a.burstBytes = 0) := by tauto
        have hlb : ¬((b.mode = .blocked ∨ b.mode = .unlimited) ∧ b.bitsPerSecond = 0 ∧ b.burstBytes = 0) := by tauto
        have ha := ha.resolve_left hla
        have hb := hb.resolve_left hlb
        dsimp only
        omega

theorem le_envelope_left : a ≤ envelope a b := by
  rw [Rate.validate_eq_ok] at ha hb
  rw [Rate.le_iff]
  unfold envelope
  split
  · exact .inl rfl
  · split
    · next hblocked => exact .inr (.inl hblocked)
    · split
      · exact .inr (.inr (.inl rfl))
      · refine .inr (.inr (.inr ⟨by tauto, rfl, le_max_left _ _, le_max_left _ _⟩))

theorem le_envelope_right : b ≤ envelope a b := by
  rw [Rate.validate_eq_ok] at ha hb
  rw [Rate.le_iff]
  unfold envelope
  split
  · exact .inl rfl
  · split
    · exact .inr (.inr (.inl rfl))
    · split
      · next hblocked => exact .inr (.inl hblocked)
      · refine .inr (.inr (.inr ⟨by tauto, rfl, le_max_right _ _, le_max_right _ _⟩))

end Envelope

def Rates.envelope (a b : Rates) : Rates := ⟨Pui.envelope a.upload b.upload, Pui.envelope a.download b.download⟩

section

variable {a b : Rates} (ha : a.validate = .ok ()) (hb : b.validate = .ok ())

include ha hb

theorem Rates.validate_envelope : (a.envelope b).validate = .ok () := by
  rw [Rates.validate_eq_ok] at ha hb ⊢
  exact ⟨Pui.validate_envelope ha.1 hb.1, Pui.validate_envelope ha.2 hb.2⟩

theorem Rates.le_envelope_left : a ≤ a.envelope b := by
  rw [Rates.validate_eq_ok] at ha hb
  exact ⟨Pui.le_envelope_left ha.1 hb.1, Pui.le_envelope_left ha.2 hb.2⟩

theorem Rates.le_envelope_right : b ≤ a.envelope b := by
  rw [Rates.validate_eq_ok] at ha hb
  exact ⟨Pui.le_envelope_right ha.1 hb.1, Pui.le_envelope_right ha.2 hb.2⟩

end

def uint64 (n : Int) : Nat := (n % 2 ^ 64).toNat

def fitsLoop (bound : Rate) : List Rate → Nat → Nat → Bool
  | [], bits, burst => bits ≤ bound.bitsPerSecond && burst ≤ uint64 bound.burstBytes
  | v :: vs, bits, burst =>
    if v.mode = .blocked then fitsLoop bound vs bits burst
    else if v.mode = .unlimited ∨ bound.mode = .blocked ∨ v.bitsPerSecond > maxUint64 - bits ∨
        uint64 v.burstBytes > maxUint64 - burst then false
    else fitsLoop bound vs (bits + v.bitsPerSecond) (burst + uint64 v.burstBytes)

def fitsRates (bound : Rate) (values : List Rate) : Bool :=
  if bound.mode = .unlimited then true else fitsLoop bound values 0 0

/-- What a rate takes of a pool's bits; a blocked rate takes nothing. -/
def Rate.bits (r : Rate) : Nat := if r.mode = .blocked then 0 else r.bitsPerSecond

/-- What a rate takes of a pool's burst. -/
def Rate.burst (r : Rate) : Nat := if r.mode = .blocked then 0 else uint64 r.burstBytes

structure Fits (bound : Rate) (vs : List Rate) : Prop where
  mode : ∀ v ∈ vs, v.mode = .blocked ∨ (v.mode ≠ .unlimited ∧ bound.mode ≠ .blocked)
  bits : (vs.map Rate.bits).sum ≤ bound.bitsPerSecond
  burst : (vs.map Rate.burst).sum ≤ uint64 bound.burstBytes

theorem uint64_le (n : Int) : uint64 n ≤ maxUint64 := by
  unfold uint64 maxUint64
  omega

theorem uint64_of_nonneg {n : Int} (h0 : 0 ≤ n) (h : n ≤ maxInt64) : uint64 n = n.toNat := by
  unfold uint64
  unfold maxInt64 at h
  omega

variable {bound : Rate} {vs : List Rate}

theorem fitsLoop_iff (hbound : bound.bitsPerSecond ≤ maxUint64) (vs : List Rate) {bits burst : Nat}
    (hbits : bits ≤ maxUint64) (hburst : burst ≤ maxUint64) :
    fitsLoop bound vs bits burst = true ↔
      (∀ v ∈ vs, v.mode = .blocked ∨ (v.mode ≠ .unlimited ∧ bound.mode ≠ .blocked)) ∧
        bits + (vs.map Rate.bits).sum ≤ bound.bitsPerSecond ∧ burst + (vs.map Rate.burst).sum ≤ uint64 bound.burstBytes := by
  induction vs generalizing bits burst with
  | nil => simp [fitsLoop]
  | cons v vs ih =>
    have hub := uint64_le bound.burstBytes
    simp only [fitsLoop, forall_mem_cons, map_cons, sum_cons, Rate.bits, Rate.burst]
    by_cases hv : v.mode = .blocked
    · simp only [hv, if_true, ih hbits hburst, true_or, true_and, Nat.zero_add]
    · simp only [hv, if_false, false_or]
      split
      · next hbad =>
        simp only [Bool.false_eq_true, false_iff]
        intro ⟨⟨⟨hu, hblocked⟩, _⟩, hsum, hsum'⟩
        rcases hbad with h | h | h | h
        · exact hu h
        · exact hblocked h
        · omega
        · omega
      · next hgood =>
        simp only [not_or, not_lt] at hgood
        obtain ⟨hu, hblocked, h1, h2⟩ := hgood
        rw [ih (by omega) (by omega)]
        simp only [hu, hblocked, not_false_eq_true, true_and, Nat.add_assoc, ne_eq]

theorem bitsPerSecond_le_of_validate {r : Rate} (h : r.validate = .ok ()) : r.bitsPerSecond ≤ maxUint64 := by
  unfold maxUint64
  rcases Rate.validate_eq_ok.mp h with ⟨-, hb, -⟩ | ⟨-, -, hb, -⟩ <;> omega

theorem fitsRates_iff (hbound : bound.validate = .ok ()) (vs : List Rate) :
    fitsRates bound vs = true ↔ bound.mode = .unlimited ∨ Fits bound vs := by
  unfold fitsRates
  split
  · next h => simp [h]
  · next h =>
    rw [fitsLoop_iff (bitsPerSecond_le_of_validate hbound) vs (Nat.zero_le _) (Nat.zero_le _), Nat.zero_add, Nat.zero_add]
    constructor
    · intro ⟨hm, hb, hu⟩
      exact .inr ⟨hm, hb, hu⟩
    · intro hf
      have hf := hf.resolve_left h
      exact ⟨hf.mode, hf.bits, hf.burst⟩

theorem fitsRates_nil (hbound : bound.validate = .ok ()) : fitsRates bound [] = true :=
  (fitsRates_iff hbound []).mpr (.inr ⟨by simp, by simp, by simp⟩)

theorem fitsRates_zero_cons (hbound : bound.validate = .ok ())
    (h : fitsRates bound vs = true) : fitsRates bound (Rate.zero :: vs) = true := by
  rw [fitsRates_iff hbound] at h ⊢
  refine h.imp id fun hf => ⟨forall_mem_cons.mpr ⟨.inl rfl, hf.mode⟩, ?_, ?_⟩
  · simpa [Rate.bits, Rate.zero] using hf.bits
  · simpa [Rate.burst, Rate.zero] using hf.burst

theorem fitsRates_subperm (hbound : bound.validate = .ok ()) {ws : List Rate} (h : vs.Subperm ws)
    (hfits : fitsRates bound ws = true) : fitsRates bound vs = true := by
  rw [fitsRates_iff hbound] at hfits ⊢
  obtain ⟨us, hp, hs⟩ := h
  refine hfits.imp id fun hf => ⟨fun v hv => hf.mode v (hs.subset (hp.mem_iff.mpr hv)), ?_, ?_⟩
  · rw [← (hp.map Rate.bits).sum_eq]
    exact ((hs.map Rate.bits).sum_le_sum fun _ _ => Nat.zero_le _).trans hf.bits
  · rw [← (hp.map Rate.burst).sum_eq]
    exact ((hs.map Rate.burst).sum_le_sum fun _ _ => Nat.zero_le _).trans hf.burst

theorem Rate.summand_le {r s : Rate} (hr : r.validate = .ok ()) (hs : s.validate = .ok ()) (h : r ≤ s)
    (hu : s.mode ≠ .unlimited) : r.bits ≤ s.bits ∧ r.burst ≤ s.burst := by
  unfold Rate.bits Rate.burst
  rcases Rate.le_iff.mp h with h | h | rfl | ⟨hrl, hsl, hbits, hburst⟩
  · exact absurd h hu
  · simp [h]
  · exact ⟨le_rfl, le_rfl⟩
  · rw [Rate.validate_eq_ok] at hr hs
    simp only [hrl, hsl, reduceCtorEq, false_or, false_and, true_and] at hr hs ⊢
    rw [if_neg not_false, if_neg not_false, if_neg not_false, if_neg not_false, uint64_of_nonneg (by omega) (by unfold maxInt64; omega),
      uint64_of_nonneg (by omega) (by unfold maxInt64; omega)]
    omega

theorem fitsRates_le (hbound : bound.validate = .ok ()) {ι : Type} {l : List ι} {f g : ι → Rate}
    (hf : ∀ i ∈ l, (f i).validate = .ok ()) (hg : ∀ i ∈ l, (g i).validate = .ok ()) (hle : ∀ i ∈ l, f i ≤ g i)
    (h : fitsRates bound (l.map g) = true) : fitsRates bound (l.map f) = true := by
  rw [fitsRates_iff hbound] at h ⊢
  refine h.imp id fun hfit => ?_
  have hu : ∀ i ∈ l, (g i).mode ≠ .unlimited := by
    intro i hi
    rcases hfit.mode _ (mem_map_of_mem hi) with hb | ⟨hu, -⟩
    · rw [hb]; simp
    · exact hu
  refine ⟨fun v hv => ?_, ?_, ?_⟩
  · obtain ⟨i, hi, rfl⟩ := mem_map.mp hv
    rcases hfit.mode _ (mem_map_of_mem hi) with hb | ⟨-, hbound⟩
    · rcases Rate.le_iff.mp (hle i hi) with h' | h' | h' | ⟨-, h', -⟩
      · exact absurd h' (hu i hi)
      · exact .inl h'
      · exact .inl (h' ▸ hb)
      · rw [hb] at h'; cases h'
    · rcases Rate.le_iff.mp (hle i hi) with h' | h' | h' | ⟨h', -⟩
      · exact absurd h' (hu i hi)
      · exact .inl h'
      · exact .inr ⟨h' ▸ hu i hi, hbound⟩
      · exact .inr ⟨by rw [h']; simp, hbound⟩
  · refine le_trans ?_ hfit.bits
    rw [map_map, map_map]
    exact sum_le_sum fun i hi => (Rate.summand_le (hf i hi) (hg i hi) (hle i hi) (hu i hi)).1
  · refine le_trans ?_ hfit.burst
    rw [map_map, map_map]
    exact sum_le_sum fun i hi => (Rate.summand_le (hf i hi) (hg i hi) (hle i hi) (hu i hi)).2

theorem fitsRates_bound {a b : Rate} (ha : a.validate = .ok ()) (hb : b.validate = .ok ()) (hab : a ≤ b)
    (h : fitsRates a vs = true) : fitsRates b vs = true := by
  by_cases hbu : b.mode = .unlimited
  · unfold fitsRates
    rw [if_pos hbu]
  rw [fitsRates_iff ha] at h
  rw [fitsRates_iff hb]
  rcases Rate.le_iff.mp hab with h' | h' | rfl | ⟨hal, hbl, hbits, hburst⟩
  · exact absurd h' hbu
  · -- below a blocked bound everything is blocked
    have hfit := h.resolve_left (by rw [h']; simp)
    have hblocked : ∀ v ∈ vs, v.mode = .blocked := fun v hv => (hfit.mode v hv).resolve_right fun hn => hn.2 h'
    refine .inr ⟨fun v hv => .inl (hblocked v hv), ?_, ?_⟩
    · rw [sum_eq_zero fun n hn => ?_]
      · exact Nat.zero_le _
      · obtain ⟨v, hv, rfl⟩ := mem_map.mp hn
        rw [Rate.bits, if_pos (hblocked v hv)]
    · rw [sum_eq_zero fun n hn => ?_]
      · exact Nat.zero_le _
      · obtain ⟨v, hv, rfl⟩ := mem_map.mp hn
        rw [Rate.burst, if_pos (hblocked v hv)]
  · exact h
  · have hfit := h.resolve_left (by rw [hal]; simp)
    have hburst' : uint64 a.burstBytes ≤ uint64 b.burstBytes := by
      rw [Rate.validate_eq_ok] at ha hb
      simp only [hal, hbl, reduceCtorEq, false_or, false_and, true_and] at ha hb
      rw [uint64_of_nonneg (by omega) (by unfold maxInt64; omega), uint64_of_nonneg (by omega) (by unfold maxInt64; omega)]
      omega
    refine .inr ⟨fun v hv => (hfit.mode v hv).imp id fun hv => ⟨hv.1, by rw [hbl]; simp⟩, hfit.bits.trans hbits,
      hfit.burst.trans hburst'⟩

end Pui
