import Pui.CounterReadings
import Pui.WireGuardHost

/-!
# What an observation of a device attributes

The counters of a device's peers are read all at once, and what each grew by goes to the client that owns the key.
-/

namespace Pui

open Table Crash Crash.Prog List Option

namespace WireGuard

variable {p : KernelPeer} {peers : List KernelPeer}

theorem Key.ext_text {k k' : Key} (h : k.text = k'.text) : k = k' := by
  cases k
  cases k'
  simpa using h

theorem cutKey_subject (key : Key) (up : Bool) : cutKey (subject key up) = key := by
  have hsuffix : ∀ up : Bool, ((if up then upKey else downKey).toList.takeWhile fun c => decide (c ≠ keySep)) = [] := by decide
  refine Key.ext_text ?_
  have hkey : (subject key up).toList.takeWhile (fun c => decide (c ≠ keySep)) = key.text.toList := by
    rw [subject, String.toList_append, takeWhile_append_of_pos, hsuffix, append_nil]
    intro c hc
    rw [decide_eq_true_eq]
    rintro rfl
    exact key.plain hc
  unfold cutKey
  dsimp only
  rw [hkey, String.ofList_toList]

theorem subject_inj {k k' : Key} {up up' : Bool} (h : subject k up = subject k' up') : k = k' ∧ up = up' := by
  have hkey : k = k' := by
    have hcut := congrArg cutKey h
    rwa [cutKey_subject, cutKey_subject] at hcut
  subst hkey
  refine ⟨rfl, ?_⟩
  unfold subject at h
  have hsuffix : (if up then upKey else downKey).toList = (if up' then upKey else downKey).toList := by
    have hlist := congrArg String.toList h
    rw [String.toList_append, String.toList_append] at hlist
    exact append_cancel_left hlist
  cases up <;> cases up' <;> first | rfl | exact absurd hsuffix (by decide)

def KernelPeer.count (p : KernelPeer) (up : Bool) : Nat := if up then p.receiveBytes else p.transmitBytes

def readPeer (t : Table String Int) (p : KernelPeer) : Table String Int :=
  (t.put (subject p.publicKey true) (p.receiveBytes : Int)).put (subject p.publicKey false) (p.transmitBytes : Int)

theorem get?_readPeer_of_ne {key : Key} (hne : key ≠ p.publicKey) (t : Table String Int) (up : Bool) :
    (readPeer t p).get? (subject key up) = t.get? (subject key up) := by
  have hsubject : ∀ up', subject key up ≠ subject p.publicKey up' := fun up' heq => hne (subject_inj heq).1
  rw [readPeer, get?_put_of_ne (hsubject false), get?_put_of_ne (hsubject true)]

theorem get?_readPeer_self (p : KernelPeer) (t : Table String Int) (up : Bool) :
    (readPeer t p).get? (subject p.publicKey up) = some (p.count up : Int) := by
  cases up with
  | false => exact get?_put_self ..
  | true =>
    have hne : subject p.publicKey true ≠ subject p.publicKey false := fun heq => Bool.noConfusion (subject_inj heq).2
    rw [readPeer, get?_put_of_ne hne]
    exact get?_put_self ..

theorem get?_foldl_readPeer_of_not_mem {key : Key} (hkey : key ∉ peers.map KernelPeer.publicKey)
    (t : Table String Int) (up : Bool) : (peers.foldl readPeer t).get? (subject key up) = t.get? (subject key up) := by
  induction peers generalizing t with
  | nil => rfl
  | cons p peers ih =>
    rw [map_cons, mem_cons, not_or] at hkey
    rw [foldl_cons, ih hkey.2, get?_readPeer_of_ne hkey.1]

theorem get?_readings_of_mem (hnodup : (peers.map KernelPeer.publicKey).Nodup) (hp : p ∈ peers)
    (t : Table String Int) (up : Bool) : (peers.foldl readPeer t).get? (subject p.publicKey up) = some (p.count up : Int) := by
  induction peers generalizing t with
  | nil => cases hp
  | cons q peers ih =>
    rw [map_cons, nodup_cons] at hnodup
    rw [foldl_cons]
    rcases mem_cons.mp hp with rfl | hp
    · rw [get?_foldl_readPeer_of_not_mem hnodup.1, get?_readPeer_self]
    · exact ih hnodup.2 hp _

theorem readings_nonneg {t : Table String Int} (ht : ∀ k v, t.get? k = some v → 0 ≤ v) (k : String) (v : Int)
    (h : (peers.foldl readPeer t).get? k = some v) : 0 ≤ v := by
  induction peers generalizing t with
  | nil => exact ht k v h
  | cons p peers ih =>
    exact ih (forall_put (Int.natCast_nonneg _) (forall_put (Int.natCast_nonneg _) ht)) h

theorem total_readings (hnodup : (peers.map KernelPeer.publicKey).Nodup) (f : String → Int → Int)
    {t : Table String Int} (ht : ∀ p ∈ peers, ∀ up, t.get? (subject p.publicKey up) = none) :
    (peers.foldl readPeer t).total f =
      t.total f + (peers.map fun p => f (subject p.publicKey true) (p.count true) + f (subject p.publicKey false) (p.count false)).sum := by
  induction peers generalizing t with
  | nil => simp
  | cons p peers ih =>
    rw [map_cons, nodup_cons] at hnodup
    have hother : ∀ q ∈ peers, ∀ up, (readPeer t p).get? (subject q.publicKey up) = none := by
      intro q hq up
      have hne : q.publicKey ≠ p.publicKey := fun heq => hnodup.1 (heq ▸ mem_map_of_mem hq)
      rw [get?_readPeer_of_ne hne]
      exact ht q (mem_cons_of_mem p hq) up
    have hself : (readPeer t p).total f =
        t.total f + (f (subject p.publicKey true) (p.count true) + f (subject p.publicKey false) (p.count false)) := by
      have hne : subject p.publicKey false ≠ subject p.publicKey true := fun heq => Bool.noConfusion (subject_inj heq).2
      have hfree := ht p mem_cons_self
      rw [readPeer, total_put_of_none (by rw [get?_put_of_ne hne, hfree]), total_put_of_none (hfree true), add_assoc]
      rfl
    rw [foldl_cons, ih hnodup.2 hother, hself, map_cons, sum_cons, add_assoc]

def banked (pending : Table String Traffic) (email : String) : Int := ((pending.get? email).map Traffic.bytes).getD 0

theorem banked_attributeOne (rec : Managed) (into : Table String Traffic) (e : Sigma fun _ : String => Int) (email : String) :
    banked (rec.attributeOne into e) email = banked into email + if rec.byKey.get? (cutKey e.1) = some email then e.2 else 0 := by
  unfold Managed.attributeOne
  cases howner : rec.byKey.get? (cutKey e.1) with
  | none => simp
  | some owner =>
    dsimp only
    by_cases heq : email = owner
    · subst heq
      have hput : ∀ acc : Traffic, banked (into.put email acc) email = acc.bytes := by
        intro acc
        rw [banked, get?_put_self]
        rfl
      rw [hput, if_pos rfl, banked]
      cases into.get? email with
      | none =>
        split <;> simp [Traffic.bytes]
      | some acc =>
        split <;> simp only [map_some, getD_some, Traffic.bytes] <;> omega
    · have hne : ¬some owner = some email := fun h => heq (Option.some.inj h).symm
      rw [if_neg hne, add_zero, banked, get?_put_of_ne heq]
      rfl

theorem banked_attributeDeltas (rec : Managed) (deltas : Table String Int) (into : Table String Traffic) (email : String) :
    banked (rec.attributeDeltas deltas into) email =
      banked into email + deltas.total fun k d => if rec.byKey.get? (cutKey k) = some email then d else 0 := by
  unfold Managed.attributeDeltas total
  generalize deltas.entries = entries
  induction entries generalizing into with
  | nil => simp
  | cons e entries ih => rw [foldl_cons, ih, banked_attributeOne, map_cons, sum_cons, add_assoc]

def Named (pending : Table String Traffic) : Prop := ∀ email t, pending.get? email = some t → t.email = email

theorem Named.attributeDeltas {rec : Managed} {deltas : Table String Int} {into : Table String Traffic} (h : Named into) :
    Named (rec.attributeDeltas deltas into) := by
  unfold Managed.attributeDeltas
  generalize deltas.entries = entries
  induction entries generalizing into with
  | nil => exact h
  | cons e entries ih =>
    refine ih ?_
    unfold Managed.attributeOne
    split
    · exact h
    · next owner _ =>
      have hname : ((into.get? owner).getD ⟨rec.tag, owner, 0, 0⟩).email = owner := by
        cases hget : into.get? owner with
        | none => rfl
        | some acc => exact h owner acc hget
      refine forall_put ?_ h
      split <;> exact hname

def charge (c : Counter) (epoch key : String) (value : Int) : Int := if c.primed then value - Counter.baseline (c.enter epoch).last key value else 0

def Nonneg (c : Counter) : Prop := ∀ k v, c.last.get? k = some v → 0 ≤ v

section

variable {c : Counter} {epoch key : String}

theorem Nonneg.enter (h : Nonneg c) (epoch : String) : Nonneg (c.enter epoch) := by
  have hlast : (c.enter epoch).last = ∅ ∨ (c.enter epoch).last = c.last := by
    unfold Counter.enter
    dsimp only
    split <;> split
    · exact .inl rfl
    · exact .inr rfl
    · exact .inl rfl
    · exact .inr rfl
  intro k v hv
  rcases hlast with heq | heq
  · rw [heq] at hv
    simp at hv
  · rw [heq] at hv
    exact h k v hv

theorem baseline_nonneg {last : Table String Int} (h : ∀ k v, last.get? k = some v → 0 ≤ v) (key : String) (value : Int) :
    0 ≤ Counter.baseline last key value := by
  unfold Counter.baseline
  split
  · next old hold =>
    split
    · exact le_rfl
    · exact h key old hold
  · exact le_rfl

theorem baseline_le (last : Table String Int) {value : Int} (h : 0 ≤ value) (key : String) : Counter.baseline last key value ≤ value := by
  unfold Counter.baseline
  split
  · split
    · exact h
    · next hge => exact not_lt.mp hge
  · exact h

theorem charge_nonneg {value : Int} (h : 0 ≤ value) : 0 ≤ charge c epoch key value := by
  unfold charge
  split
  · have := baseline_le (c.enter epoch).last h key
    omega
  · exact le_rfl

theorem charge_zero (h : Nonneg c) : charge c epoch key 0 = 0 := by
  refine le_antisymm ?_ (charge_nonneg le_rfl)
  unfold charge
  split
  · have := baseline_nonneg (h.enter epoch) key 0
    omega
  · exact le_rfl

theorem charge_add_le (h : Nonneg c) {value : Int} (more : Nat) : charge c epoch key (value + more) ≤ charge c epoch key value + if c.primed then (more : Int) else 0 := by
  unfold charge
  split
  · have hmono : Counter.baseline (c.enter epoch).last key value ≤ Counter.baseline (c.enter epoch).last key (value + more) := by
      unfold Counter.baseline
      cases hget : (c.enter epoch).last.get? key with
      | none => exact le_rfl
      | some old =>
        have := h.enter epoch key old hget
        dsimp only
        split <;> split <;> omega
    omega
  · exact le_rfl

theorem Nonneg.forget (h : Nonneg c) (key : String) : Nonneg (c.forget key) := forall_drop h key

theorem Nonneg.observe (h : Nonneg c) {readings : Table String Int} (epoch : String) (hread : ∀ k v, readings.get? k = some v → 0 ≤ v) :
    Nonneg (c.observe epoch readings).2 := by
  intro k v hv
  rw [(Counter.observed epoch readings c).last] at hv
  split at hv
  · cases hv
  · unfold Counter.seen at hv
    rcases or_eq_some_iff.mp hv with hnew | ⟨-, hold⟩
    · exact hread k v (filter_eq_some_iff.mp hnew).1
    · exact h.enter epoch k v hold

end

def epochOf (link : Link) (generation : Nat) : String := (deviceReadings link generation).2

def peerCharge (rec : Managed) (link : Link) (p : KernelPeer) : Int :=
  charge rec.counter (epochOf link rec.generation) (subject p.publicKey true) (p.count true) +
    charge rec.counter (epochOf link rec.generation) (subject p.publicKey false) (p.count false)

theorem peerCharge_nonneg (rec : Managed) (link : Link) (p : KernelPeer) : 0 ≤ peerCharge rec link p :=
  add_nonneg (charge_nonneg (Int.natCast_nonneg _)) (charge_nonneg (Int.natCast_nonneg _))

theorem primed_enter (epoch : String) (c : Counter) : (c.enter epoch).primed = c.primed := by
  unfold Counter.enter
  dsimp only
  split <;> split <;> rfl

theorem banked_observe {link : Link} (hnodup : (link.peers.map KernelPeer.publicKey).Nodup) (rec : Managed) (email : String) :
    banked (rec.observe link).pending email = banked rec.pending email +
      (link.peers.map fun p => if rec.byKey.get? p.publicKey = some email then peerCharge rec link p else 0).sum := by
  have hobserve : (rec.observe link).pending =
      rec.attributeDeltas (rec.counter.observe (epochOf link rec.generation) (link.peers.foldl readPeer ∅)).1 rec.pending := rfl
  rw [hobserve, banked_attributeDeltas]
  congr 1
  set epoch := epochOf link rec.generation
  set readings := link.peers.foldl readPeer ∅
  set last := (rec.counter.enter epoch).last
  have hdeltas := (Counter.observed epoch readings rec.counter).deltas
  rw [primed_enter] at hdeltas
  cases hprimed : rec.counter.primed with
  | false =>
    -- the first observation takes the readings over
    have hnone : ∀ k, (rec.counter.observe epoch readings).1.get? k = none := fun k => by rw [hdeltas, hprimed]; rfl
    rw [total_eq_zero fun k d hd => by rw [hnone] at hd; cases hd]
    symm
    refine sum_eq_zero fun x hx => ?_
    obtain ⟨p, -, rfl⟩ := mem_map.mp hx
    simp [peerCharge, charge, hprimed]
  | true =>
    have hgrowth : ∀ k, (rec.counter.observe epoch readings).1.get? k =
        ((readings.keep fun k v => 0 ≤ v && 0 < v - Counter.baseline last k v).mapRows fun k v => v - Counter.baseline last k v).get? k := by
      intro k
      rw [hdeltas, hprimed, get?_mapRows, get?_keep]
      rfl
    have hempty : ∀ f : String → Int → Int, (∅ : Table String Int).total f = 0 := fun _ => rfl
    rw [total_eq_of_get?_eq hgrowth, total_mapRows, total_keep, total_readings hnodup _ fun p _ up => by simp, hempty, zero_add]
    congr 1
    refine map_congr_left fun p _ => ?_
    -- a reading that did not grow has no charge
    have hone : ∀ up, (if (0 ≤ (p.count up : Int) && 0 < (p.count up : Int) - Counter.baseline last (subject p.publicKey up) (p.count up)) = true
        then (if rec.byKey.get? (cutKey (subject p.publicKey up)) = some email then
          (p.count up : Int) - Counter.baseline last (subject p.publicKey up) (p.count up) else 0) else 0) =
        if rec.byKey.get? p.publicKey = some email then charge rec.counter epoch (subject p.publicKey up) (p.count up) else 0 := by
      intro up
      have hle := baseline_le last (Int.natCast_nonneg (p.count up)) (subject p.publicKey up)
      rw [cutKey_subject, charge, hprimed]
      simp only [if_true, Bool.and_eq_true, decide_eq_true_eq]
      split
      · rfl
      · next hgrown =>
        have hzero : (p.count up : Int) - Counter.baseline last (subject p.publicKey up) (p.count up) = 0 := by omega
        rw [hzero]
        simp
    rw [hone true, hone false]
    unfold peerCharge
    split
    · rfl
    · exact add_zero 0

theorem peerCharge_observe {link : Link} (hnodup : (link.peers.map KernelPeer.publicKey).Nodup) (rec : Managed)
    (hp : p ∈ link.peers) : peerCharge (rec.observe link) link p = 0 := by
  have hone : ∀ up, charge (rec.observe link).counter (epochOf link (rec.observe link).generation) (subject p.publicKey up) (p.count up) = 0 := by
    intro up
    have hread : (link.peers.foldl readPeer ∅).get? (subject p.publicKey up) = some (p.count up : Int) := get?_readings_of_mem hnodup hp _ up
    have hcounter : (rec.observe link).counter = (rec.counter.observe (epochOf link rec.generation) (link.peers.foldl readPeer ∅)).2 := rfl
    have hgeneration : (rec.observe link).generation = rec.generation := rfl
    rw [hcounter, hgeneration]
    have hlast : (rec.counter.observe (epochOf link rec.generation) (link.peers.foldl readPeer ∅)).2.last.get? (subject p.publicKey up) =
        some (p.count up : Int) := Counter.last_observe rec.counter hread (Int.natCast_nonneg _)
    rw [← (Counter.same_enter_observe _ _ rec.counter).last] at hlast
    unfold charge
    split
    · simp [Counter.baseline, hlast]
    · rfl
  unfold peerCharge
  rw [hone true, hone false, add_zero]

end WireGuard

end Pui
