import Pui.CounterReadings
import Pui.CounterStoreRuns

/-!
# Durable counters count once

A process observes a source through a counter in memory and commits every observation to the node's store before it
trusts it.
-/

namespace Pui

open Guard Table List

theorem Counter.same_eq_true {a b : Counter} : a.same b = true ↔ a.Same b := by
  have hperm : ∀ {t u : Table String Int}, t.entries.Perm u.entries ↔ ∀ k, t.get? k = u.get? k := by
    intro t u
    refine ⟨fun h k => Option.ext fun v => ?_, perm_of_get?_eq⟩
    rw [← mem_entries, ← mem_entries, h.mem_iff]
  simp only [Counter.same, Bool.and_eq_true, decide_eq_true_eq, hperm]
  exact ⟨fun h => ⟨h.1.1.1, h.1.1.2, h.1.2, h.2⟩, fun h => ⟨⟨⟨h.epoch, h.primed⟩, h.last⟩, h.absent⟩⟩

theorem jsonObject_le {t u : Table String Int}
    (h : ∀ k v, t.get? k = some v → ∃ v', u.get? k = some v' ∧ jsonNumber v ≤ jsonNumber v') : jsonObject t ≤ jsonObject u := by
  have htotal : ∀ f : String → Int → Nat, (∀ k v v', t.get? k = some v → u.get? k = some v' → f k v ≤ f k v') →
      t.total f ≤ u.total f := by
    intro f hf
    refine le_trans ?_ (total_get?_le t u f)
    refine sum_le_sum fun e he => ?_
    have hget := mem_entries.mp he
    obtain ⟨v', hv', -⟩ := h e.1 e.2 hget
    dsimp only
    rw [hv']
    exact hf e.1 e.2 v' hget hv'
  have hlen : t.entries.length ≤ u.entries.length := by
    have hones := htotal (fun _ _ => 1) fun _ _ _ _ _ => le_rfl
    simpa [total] using hones
  have hsum := htotal (fun k v => jsonText k + 1 + jsonNumber v) fun k v v' hv hv' => by
    obtain ⟨w, hw, hle⟩ := h k v hv
    rw [hv'] at hw
    cases hw
    omega
  unfold jsonObject
  simp only [total] at hsum
  omega

theorem jsonObject_congr {t u : Table String Int} (h : ∀ k, t.get? k = u.get? k) : jsonObject t = jsonObject u :=
  le_antisymm (jsonObject_le fun k v hv => ⟨v, (h k).symm.trans hv, le_rfl⟩)
    (jsonObject_le fun k v hv => ⟨v, (h k).trans hv, le_rfl⟩)

theorem Counter.Same.jsonSize {a b : Counter} (h : a.Same b) : a.jsonSize = b.jsonSize := by
  unfold Counter.jsonSize
  rw [h.epoch, h.primed, jsonObject_congr h.last, jsonObject_congr h.absent]

theorem Counter.Same.valid {a b : Counter} (h : a.Same b) (hb : b.Valid) : a.Valid where
  epoch := h.epoch ▸ hb.epoch
  primed := fun hp => by
    obtain ⟨hlast, habsent⟩ := hb.primed (h.primed ▸ hp)
    rw [entries_eq_nil_iff] at hlast habsent ⊢
    rw [entries_eq_nil_iff]
    exact ⟨fun k => (h.last k).trans (hlast k), fun k => (h.absent k).trans (habsent k)⟩
  last := fun k v hv => hb.last k v ((h.last k).symm.trans hv)
  absent := fun k m hm => by
    rw [h.last k]
    exact hb.absent k m ((h.absent k).symm.trans hm)

theorem jsonNumber_of_digit {n : Int} (h0 : 1 ≤ n) (h : n < baselineGrace) : jsonNumber n = 1 := by
  have hdigit : ∀ m < 10, (Nat.toDigits 10 m).length = 1 := by decide
  have hlt : n.natAbs < 10 := by
    simp only [baselineGrace] at h
    omega
  unfold jsonNumber
  rw [if_neg (by omega), hdigit _ hlt]

variable {epoch : String} {r d deltas : Table String Int} {sha256 : Multiset UsageCheckpoint → Digest} {digest : Digest}
  {observed : Int} {cps : List UsageCheckpoint} {op : CounterStore.UsageOp}

theorem Counter.jsonSize_observe_again {r' : Table String Int} {c : Counter} (h : c.Valid)
    (h' : (c.observe epoch r).2.Valid) (hr : ∀ k, r'.get? k = r.get? k) :
    ((c.observe epoch r).2.observe epoch r').2.jsonSize ≤ (c.observe epoch r).2.jsonSize := by
  obtain ⟨-, hvalid, hepoch, hlast, habsent⟩ := observe_again h h' hr
  have hl : jsonObject ((c.observe epoch r).2.observe epoch r').2.last ≤ jsonObject (c.observe epoch r).2.last :=
    jsonObject_le fun k v hv => ⟨v, hlast k v hv, le_rfl⟩
  have ha : jsonObject ((c.observe epoch r).2.observe epoch r').2.absent ≤ jsonObject (c.observe epoch r).2.absent := by
    refine jsonObject_le fun k m hm => ?_
    obtain ⟨m', hm'⟩ := Option.isSome_iff_exists.mp (habsent k m hm)
    have hnew := hvalid.absent k m hm
    have hold := h'.absent k m' hm'
    exact ⟨m', hm', by rw [jsonNumber_of_digit hnew.2.1 hnew.2.2, jsonNumber_of_digit hold.2.1 hold.2.2]⟩
  unfold Counter.jsonSize
  rw [hepoch, (observed epoch r c).primed, (observed epoch r' (c.observe epoch r).2).primed]
  omega

structure Subject where
  identity : UsageCheckpoint
  upload : String
  download : String

structure Source where
  name : String
  subjects : List Subject
  distinct : (subjects.map fun m => m.identity.meter).Nodup

def Subject.bill (observed : Int) (deltas : Table String Int) (m : Subject) : Option MeterDelta :=
  let uploaded := (deltas.get? m.upload).getD 0
  let downloaded := (deltas.get? m.download).getD 0
  if uploaded ≠ 0 ∨ downloaded ≠ 0 then
    some ⟨{ m.identity with observedUnixMilli := observed }, uploaded.toNat, downloaded.toNat⟩
  else none

def Source.bill (source : Source) (observed : Int) (deltas : Table String Int) : List MeterDelta :=
  source.subjects.filterMap (Subject.bill observed deltas)

def Counter.observeDurably {α : Type} (epoch : String) (readings : Table String Int)
    (commit : Counter → Counter → Table String Int → Except NodeError α) (c : Counter) :
    Except NodeError (α × Table String Int × Counter) := do
  let next ← c.fromCheckpoint
  let (deltas, next) := next.observe epoch readings
  let stored ← commit c next deltas
  return (stored, deltas, next)

inductive CommitFate where
  | fails
  | stores
  | loses
  deriving DecidableEq

/-- The store, the counter in memory, and the readings that were committed. -/
structure Metering where
  store : CounterStore
  counter : Counter := {}
  committed : List (String × Table String Int) := []

inductive MeterAct where
  | observe (epoch : String) (readings : Table String Int) (observed : Int) (fate : CommitFate)
  | reload
  | other (op : CounterStore.UsageOp)

theorem Source.bill_congr {d' : Table String Int} (source : Source) (h : ∀ k, d.get? k = d'.get? k) (observed : Int) :
    source.bill observed d = source.bill observed d' := by
  unfold Source.bill Subject.bill
  simp only [h]

theorem Source.bill_eq_nil (source : Source) (h : ∀ k, d.get? k = none) (observed : Int) :
    source.bill observed d = [] := by
  simp [Source.bill, Subject.bill, h]

theorem Source.bill_at (source : Source) (d : Table String Int) (observed observed' : Int) :
    source.bill observed' d =
      (source.bill observed d).map fun m => { m with identity := { m.identity with observedUnixMilli := observed' } } := by
  unfold Source.bill
  rw [map_filterMap]
  congr 1
  funext m
  unfold Subject.bill
  dsimp only
  split
  · rfl
  · rfl

theorem Source.find?_bill (source : Source) (observed : Int) (d : Table String Int) {m : Subject}
    (hm : m ∈ source.subjects) :
    ((source.bill observed d).find? fun x => x.identity.meter = m.identity.meter) = m.bill observed d := by
  have hmeter : ∀ {m : Subject} {x : MeterDelta}, m.bill observed d = some x → x.identity.meter = m.identity.meter := by
    intro m x hx
    unfold Subject.bill at hx
    dsimp only at hx
    split at hx
    · cases hx
      rfl
    · cases hx
  obtain ⟨name, subjects, hnd⟩ := source
  unfold Source.bill
  induction subjects with
  | nil => cases hm
  | cons m' subjects ih =>
    obtain ⟨hnew, hnd⟩ := nodup_cons.mp hnd
    rw [filterMap_cons]
    rcases mem_cons.mp hm with rfl | hm
    · cases hb : m.bill observed d with
      | some x => simp [hmeter hb]
      | none =>
        rw [List.find?_eq_none]
        intro x hx he
        obtain ⟨m', hm', hx⟩ := mem_filterMap.mp hx
        exact hnew (mem_map.mpr ⟨m', hm', (hmeter hx).symm.trans (of_decide_eq_true he)⟩)
    · have hne : m'.identity.meter ≠ m.identity.meter := fun he => hnew (mem_map.mpr ⟨m, hm, he.symm⟩)
      cases hb : m'.bill observed d with
      | some x =>
        rw [List.find?_cons_of_neg (by simpa [hmeter hb] using hne)]
        exact ih hnd hm
      | none => exact ih hnd hm

theorem Counter.pos_of_observe {c : Counter} {k : String} {readings : Table String Int} {v : Int}
    (h : (c.observe epoch readings).1.get? k = some v) : 0 < v := by
  rw [(observed epoch readings c).deltas] at h
  split at h
  · obtain ⟨w, hw, rfl⟩ := Option.map_eq_some_iff.mp h
    obtain ⟨-, hpos⟩ := Option.filter_eq_some_iff.mp hw
    simp only [Bool.and_eq_true, decide_eq_true_eq] at hpos
    exact hpos.2
  · cases h

theorem Counter.observe_nonneg (c : Counter) (epoch k : String) (readings : Table String Int) :
    0 ≤ ((c.observe epoch readings).1.get? k).getD 0 := by
  cases h : (c.observe epoch readings).1.get? k with
  | none => exact le_rfl
  | some v => exact (pos_of_observe h).le

theorem deltaDigest_eq_ok {deltas : List MeterDelta} :
    deltaDigest sha256 deltas = .ok digest ↔ (∀ d ∈ deltas, d.identity.meterKey = .ok d.identity.meter ∧
        d.identity.uploaded = 0 ∧ d.identity.downloaded = 0) ∧
      ((deltas.map MeterDelta.digested).map UsageCheckpoint.meter).Nodup ∧
      (⟨"", "", 0, deltas.map MeterDelta.digested⟩ : UsageBatch).size ≤ maxDeploymentBytes ∧
      sha256 (deltas.map MeterDelta.digested) = digest := by
  have hcheck : ∀ d : MeterDelta, d.check = .ok () ↔ d.identity.meterKey = .ok d.identity.meter ∧
      d.identity.uploaded = 0 ∧ d.identity.downloaded = 0 := by
    intro d
    simp only [MeterDelta.check, bind_eq_ok, refuse_eq_ok, not_or, not_not]
    constructor
    · rintro ⟨k, hk, hzero⟩
      rw [← UsageStore.meterKey_eq_ok hk]
      exact ⟨hk, hzero⟩
    · rintro ⟨hk, hzero⟩
      exact ⟨_, hk, hzero⟩
  unfold deltaDigest
  rw [unit_bind_eq_ok, forM_eq_ok]
  simp only [hcheck, unit_bind_eq_ok, refuse_eq_ok, pure_eq_ok, not_not, Nat.not_lt, gt_iff_lt]

theorem Source.deltaDigest_bill {source : Source}
    {observed' : Int} (h : deltaDigest sha256 (source.bill observed d) = .ok digest)
    (hpos : 0 < observed') (hmax : observed' ≤ maxInt64) : deltaDigest sha256 (source.bill observed' d) = .ok digest := by
  rw [source.bill_at d observed observed']
  obtain ⟨hkeys, hnd, hsize, hdigest⟩ := deltaDigest_eq_ok.mp h
  have hsame : (((source.bill observed d).map fun m => ({ m with
      identity := { m.identity with observedUnixMilli := observed' } } : MeterDelta)).map MeterDelta.digested) =
      (source.bill observed d).map MeterDelta.digested := by
    rw [map_map]
    rfl
  rw [deltaDigest_eq_ok, hsame]
  refine ⟨fun m' hm' => ?_, hnd, hsize, hdigest⟩
  obtain ⟨m, hm, rfl⟩ := mem_map.mp hm'
  obtain ⟨hkey, hup, hdown⟩ := hkeys m hm
  refine ⟨CounterStore.meterKey_of_fits hkey rfl hpos ⟨?_, ?_, hmax⟩, hup, hdown⟩
  · rw [hup]
    exact Nat.zero_le _
  · rw [hdown]
    exact Nat.zero_le _

namespace Metering

section

variable (sha256 : Multiset UsageCheckpoint → Digest) (source : Source)

def current (σ : Metering) : Counter := (σ.store.counters.get? source.name).getD {}

def attempt (epoch : String) (readings : Table String Int) (observed : Int) (σ : Metering) :
    Except NodeError (CounterStore × Table String Int × Counter) :=
  σ.counter.observeDurably epoch readings fun before after deltas =>
    σ.store.commitCounterUsage sha256 source.name before after (source.bill observed deltas)

def step (σ : Metering) : MeterAct → Metering
  | .observe epoch readings observed fate =>
    match σ.attempt sha256 source epoch readings observed with
    | .error _ => σ
    | .ok (store, _, next) =>
      -- a repeated commit stores nothing
      let committed := if (σ.current source).same next then σ.committed else σ.committed ++ [(epoch, readings)]
      match fate with
      | .fails => σ
      | .stores => ⟨store, next, committed⟩
      | .loses => ⟨store, σ.counter, committed⟩
  | .reload =>
    match σ.store.loadCounter source.name with
    | .ok c => { σ with counter := c }
    | .error _ => σ
  | .other op => { σ with store := op.step sha256 σ.store }

def after (σ : Metering) (acts : List MeterAct) : Metering := Run.after (step sha256 source) σ acts

end

def ideal (readings : List (String × Table String Int)) : Counter × (String → Int) :=
  readings.foldl (fun (c, total) (epoch, r) =>
    ((c.observe epoch r).2, fun k => total k + ((c.observe epoch r).1.get? k).getD 0)) ({}, fun _ => 0)

theorem ideal_concat (rs : List (String × Table String Int)) (epoch : String) (r : Table String Int) :
    ideal (rs ++ [(epoch, r)]) = (((ideal rs).1.observe epoch r).2,
      fun k => (ideal rs).2 k + (((ideal rs).1.observe epoch r).1.get? k).getD 0) := by
  unfold ideal
  rw [foldl_append]
  rfl

variable {sha256 : Multiset UsageCheckpoint → Digest} {source : Source} {σ : Metering}

def Counts (σ : Metering) (m : Subject) : Prop :=
  ((CounterStore.standing σ.store.usage m.identity.meter).1 : Int) = (ideal σ.committed).2 m.upload ∧
    ((CounterStore.standing σ.store.usage m.identity.meter).2 : Int) = (ideal σ.committed).2 m.download

/-- The counter in memory is the stored one, or the one before the last commit. -/
inductive Follows (sha256 : Multiset UsageCheckpoint → Digest) (source : Source) (σ : Metering) : Prop where
  | current (h : σ.counter.Same (σ.current source))
  | behind (rs : List (String × Table String Int)) (epoch : String) (r : Table String Int) (observed : Int) (digest : Digest)
    (hlast : σ.committed = rs ++ [(epoch, r)]) (h : σ.counter.Same (ideal rs).1)
    (hsize : σ.counter.jsonSize ≤ maxDeploymentBytes)
    (hbill : (source.bill observed (σ.counter.observe epoch r).1).length ≤ 131072)
    (hdigest : deltaDigest sha256 (source.bill observed (σ.counter.observe epoch r).1) = .ok digest)
    (hstored : σ.store.digests.get? source.name = some digest)

structure Inv (sha256 : Multiset UsageCheckpoint → Digest) (source : Source) (σ : Metering) : Prop where
  spooled : ∃ history, σ.store.usage.Spooled history
  valid : ∀ name c, σ.store.counters.get? name = some c → c.Valid ∧ c.jsonSize ≤ maxDeploymentBytes
  stored : (ideal σ.committed).1.Same (σ.current source)
  prior : ∀ rs r, σ.committed = rs ++ [r] → (ideal rs).1.Valid
  named : σ.committed ≠ [] → validCounterSource source.name = true
  counts : ∀ m ∈ source.subjects, Counts σ m
  follows : Follows sha256 source σ

theorem valid_new : ({} : Counter).Valid :=
  ⟨by decide, fun _ => ⟨rfl, rfl⟩, fun k v hv => by simp at hv, fun k m hm => by simp at hm⟩

theorem Inv.current (h : Inv sha256 source σ) :
    (σ.current source).Valid ∧ (σ.current source).jsonSize ≤ maxDeploymentBytes := by
  unfold Metering.current
  cases hget : σ.store.counters.get? source.name with
  | none => exact ⟨valid_new, by decide +kernel⟩
  | some c => exact h.valid _ c hget

theorem attempt_eq_ok {store : CounterStore} {next : Counter}
    (h : σ.attempt sha256 source epoch r observed = .ok (store, deltas, next)) :
    σ.counter.Valid ∧ deltas = (σ.counter.observe epoch r).1 ∧ next = (σ.counter.observe epoch r).2 ∧
      σ.store.commitCounterUsage sha256 source.name σ.counter next (source.bill observed deltas) = .ok store := by
  simp only [attempt, Counter.observeDurably, bind_eq_ok, Counter.fromCheckpoint_eq_ok, pure_eq_ok, Prod.mk.injEq] at h
  obtain ⟨_, ⟨hvalid, rfl⟩, store', hstore, rfl, rfl, rfl⟩ := h
  exact ⟨hvalid, rfl, rfl, hstore⟩

theorem standing_bill {s usage : UsageStore} {c : Counter}
    (hdigest : deltaDigest sha256 (source.bill observed (c.observe epoch r).1) = .ok digest)
    (hcps : (source.bill observed (c.observe epoch r).1).mapM (CounterStore.cumulative s) = .ok cps)
    (husage : CounterStore.appendSlices cps s = .ok usage) {m : Subject} (hm : m ∈ source.subjects) :
    ((CounterStore.standing usage m.identity.meter).1 : Int) =
        (CounterStore.standing s m.identity.meter).1 + ((c.observe epoch r).1.get? m.upload).getD 0 ∧
      ((CounterStore.standing usage m.identity.meter).2 : Int) =
        (CounterStore.standing s m.identity.meter).2 + ((c.observe epoch r).1.get? m.download).getD 0 := by
  have hnd : (cps.map UsageCheckpoint.meter).Nodup := by
    have hmap : cps.map UsageCheckpoint.meter = (source.bill observed (c.observe epoch r).1).map fun d => d.identity.meter :=
      CounterStore.meters_cumulative hcps
    rw [hmap]
    exact CounterStore.nodup_of_deltaDigest hdigest
  have hup := c.observe_nonneg epoch m.upload r
  have hdown := c.observe_nonneg epoch m.download r
  rw [CounterStore.standing_appendSlices hnd hcps husage, source.find?_bill observed _ hm]
  unfold Subject.bill
  by_cases hzero : ((c.observe epoch r).1.get? m.upload).getD 0 ≠ 0 ∨ ((c.observe epoch r).1.get? m.download).getD 0 ≠ 0
  · rw [if_pos hzero]
    dsimp only
    omega
  · rw [if_neg hzero]
    dsimp only
    omega

theorem Inv.commit (h : Inv sha256 source σ) {usage : UsageStore} {counter : Counter}
    (hspooled : ∃ history, usage.Spooled history) (hname : validCounterSource source.name = true)
    (hbefore : σ.counter.Same (σ.current source))
    (hnext : (σ.counter.observe epoch r).2.Valid ∧ (σ.counter.observe epoch r).2.jsonSize ≤ maxDeploymentBytes)
    (hdigest : deltaDigest sha256 (source.bill observed (σ.counter.observe epoch r).1) = .ok digest)
    (hcps : (source.bill observed (σ.counter.observe epoch r).1).mapM (CounterStore.cumulative σ.store.usage) = .ok cps)
    (husage : CounterStore.appendSlices cps σ.store.usage = .ok usage)
    (hfollows : Follows sha256 source ⟨⟨usage, σ.store.counters.put source.name (σ.counter.observe epoch r).2,
      σ.store.digests.put source.name digest⟩, counter, σ.committed ++ [(epoch, r)]⟩) :
    Inv sha256 source ⟨⟨usage, σ.store.counters.put source.name (σ.counter.observe epoch r).2,
      σ.store.digests.put source.name digest⟩, counter, σ.committed ++ [(epoch, r)]⟩ := by
  obtain ⟨hsame, hdeltas⟩ := (h.stored.trans hbefore.symm).observe (fun _ => rfl) epoch
  refine ⟨hspooled, fun name c hc => ?_, ?_, fun rs r' hrs => ?_, fun _ => hname, fun m hm => ?_, hfollows⟩
  · rw [get?_put] at hc
    split at hc
    · cases hc
      exact hnext
    · exact h.valid name c hc
  · rw [ideal_concat]
    unfold Metering.current
    rw [get?_put_self]
    exact hsame
  · obtain ⟨hrs, -⟩ := append_inj' hrs rfl
    rw [← hrs]
    exact h.stored.valid h.current.1
  · obtain ⟨hup, hdown⟩ := standing_bill hdigest hcps husage hm
    obtain ⟨hup', hdown'⟩ := h.counts m hm
    unfold Counts
    rw [ideal_concat]
    dsimp only
    rw [hup, hdown, hup', hdown', hdeltas, hdeltas]
    exact ⟨rfl, rfl⟩

theorem fits_of_deltaDigest {deltas : List MeterDelta} (h : deltaDigest sha256 deltas = .ok digest)
    (hobserved : ∀ d ∈ deltas, d.identity.observedUnixMilli ≤ maxInt64) : ∀ d ∈ deltas, d.identity.Fits := by
  intro d hd
  obtain ⟨-, hup, hdown⟩ := (deltaDigest_eq_ok.mp h).1 d hd
  refine ⟨?_, ?_, hobserved d hd⟩
  · rw [hup]
    exact Nat.zero_le _
  · rw [hdown]
    exact Nat.zero_le _

theorem observed_of_bill {d : MeterDelta} (h : d ∈ source.bill observed deltas) :
    d.identity.observedUnixMilli = observed := by
  obtain ⟨m, -, hd⟩ := mem_filterMap.mp h
  unfold Subject.bill at hd
  dsimp only at hd
  split at hd
  · cases hd
    rfl
  · cases hd

theorem Inv.observe (h : Inv sha256 source σ)
    (hobserved : observed ≤ maxInt64) (fate : CommitFate) : Inv sha256 source (σ.step sha256 source (.observe epoch r observed fate)) := by
  simp only [step]
  cases hattempt : σ.attempt sha256 source epoch r observed with
  | error e => exact h
  | ok result =>
    obtain ⟨store, deltas, next⟩ := result
    obtain ⟨hvalid, rfl, rfl, hcommit⟩ := attempt_eq_ok hattempt
    obtain ⟨hname, hlen, hbefore, hnext, hsize, digest, hdigest, hstored⟩ := CounterStore.commitCounterUsage_eq_ok hcommit
    dsimp only
    rcases hstored with ⟨hsame, rfl⟩ | ⟨hnew, hsame, cps, usage, hcps, husage, rfl⟩
    · -- the commit was made before
      rw [if_pos (show (σ.current source).same (σ.counter.observe epoch r).2 = true from hsame)]
      cases fate with
      | fails => exact h
      | loses => exact h
      | stores => exact { h with follows := .current (Counter.same_eq_true.mp hsame).symm }
    · rw [if_neg (show ¬(σ.current source).same (σ.counter.observe epoch r).2 = true from Bool.eq_false_iff.mp hnew)]
      have hcurrent : σ.counter.Same (σ.current source) := (Counter.same_eq_true.mp hsame).symm
      have hspooled : ∃ history, usage.Spooled history := by
        obtain ⟨history, hs⟩ := h.spooled
        have hfits := fits_of_deltaDigest hdigest fun d hd => (observed_of_bill hd).le.trans hobserved
        rcases CounterStore.commitCounterUsage_outcome sha256 source.name σ.counter (σ.counter.observe epoch r).2 hs hfits with
          ⟨s', history', hok, hs'⟩ | herr | ⟨e, -, herr⟩ | ⟨-, herr⟩
        · rw [hcommit] at hok
          cases hok
          exact ⟨history', hs'⟩
        · rw [hcommit] at herr
          cases herr
        · rw [hcommit] at herr
          cases herr
        · rw [hcommit] at herr
          cases herr
      cases fate with
      | fails => exact h
      | stores =>
        refine h.commit hspooled hname hcurrent ⟨hnext, hsize⟩ hdigest hcps husage (.current ?_)
        unfold Metering.current
        rw [get?_put_self]
        exact Counter.Same.refl _
      | loses =>
        exact h.commit hspooled hname hcurrent ⟨hnext, hsize⟩ hdigest hcps husage
          (.behind σ.committed epoch r observed digest rfl (hcurrent.trans h.stored.symm) hbefore hlen hdigest (get?_put_self _ _ _))

theorem Inv.reload (h : Inv sha256 source σ) : Inv sha256 source (σ.step sha256 source .reload) := by
  simp only [step]
  cases hload : σ.store.loadCounter source.name with
  | error e => exact h
  | ok c =>
    obtain ⟨-, hload⟩ := unit_bind_eq_ok.mp hload
    obtain ⟨-, rfl⟩ := Counter.fromCheckpoint_eq_ok.mp hload
    exact { h with follows := .current (Counter.Same.refl _) }

def Apart (source : Source) : CounterStore.UsageOp → Prop
  | .append checkpoints => ∀ c ∈ checkpoints, ∀ m ∈ source.subjects, c.meter ≠ m.identity.meter
  | .commit name _ _ deltas => name ≠ source.name ∧ ∀ d ∈ deltas, ∀ m ∈ source.subjects, d.identity.meter ≠ m.identity.meter
  | .pending _ => True
  | .acknowledge _ => True

theorem apart_frame {s s' : CounterStore} (hapart : Apart source op) (h : op.run sha256 s = .ok s') :
    s'.counters.get? source.name = s.counters.get? source.name ∧ s'.digests.get? source.name = s.digests.get? source.name ∧
      (∀ m ∈ source.subjects,
        CounterStore.standing s'.usage m.identity.meter = CounterStore.standing s.usage m.identity.meter) ∧
      ∀ name c, s'.counters.get? name = some c → s.counters.get? name = some c ∨ c.Valid ∧ c.jsonSize ≤ maxDeploymentBytes := by
  cases op with
  | append cs =>
    simp only [CounterStore.UsageOp.run, bind_eq_ok, pure_eq_ok] at h
    obtain ⟨usage, husage, rfl⟩ := h
    refine ⟨rfl, rfl, fun m hm => ?_, fun _ _ => Or.inl⟩
    have hnone : (cs.find? fun c => c.meter = m.identity.meter) = none :=
      List.find?_eq_none.mpr fun c hc he => hapart c hc m hm (of_decide_eq_true he)
    unfold CounterStore.standing
    rw [CounterStore.meters_appendUsage husage, hnone, Option.none_or]
  | commit name previous checkpoint deltas =>
    obtain ⟨-, -, -, hvalid, hsize, digest, hdigest, hstored⟩ := CounterStore.commitCounterUsage_eq_ok h
    rcases hstored with ⟨-, rfl⟩ | ⟨-, -, cps, usage, hcps, husage, rfl⟩
    · exact ⟨rfl, rfl, fun _ _ => rfl, fun _ _ => Or.inl⟩
    · refine ⟨get?_put_of_ne hapart.1.symm _ _, get?_put_of_ne hapart.1.symm _ _, fun m hm => ?_, fun name' c hc => ?_⟩
      · have hnd : (cps.map UsageCheckpoint.meter).Nodup := by
          rw [CounterStore.meters_cumulative hcps]
          exact CounterStore.nodup_of_deltaDigest hdigest
        have hnone : (deltas.find? fun d => d.identity.meter = m.identity.meter) = none :=
          List.find?_eq_none.mpr fun d hd he => hapart.2 d hd m hm (of_decide_eq_true he)
        rw [CounterStore.standing_appendSlices hnd hcps husage, hnone]
      · rw [get?_put] at hc
        split at hc
        · cases hc
          exact Or.inr ⟨hvalid, hsize⟩
        · exact Or.inl hc
  | pending limit =>
    simp only [CounterStore.UsageOp.run, bind_eq_ok, pure_eq_ok] at h
    obtain ⟨⟨bs, usage⟩, husage, rfl⟩ := h
    have hmeters : usage.meters = s.usage.meters := by
      simp only [UsageStore.pendingUsage, bind_eq_ok] at husage
      obtain ⟨-, -, batches, -, husage⟩ := husage
      split at husage
      · cases husage
        rfl
      · cases husage
        rfl
    refine ⟨rfl, rfl, fun m _ => ?_, fun _ _ => Or.inl⟩
    simp only [CounterStore.standing, hmeters]
  | acknowledge receipt =>
    simp only [CounterStore.UsageOp.run, bind_eq_ok, pure_eq_ok] at h
    obtain ⟨usage, husage, rfl⟩ := h
    have hmeters : usage.meters = s.usage.meters := by
      simp only [UsageStore.acknowledge, unit_bind_eq_ok, pure_eq_ok] at husage
      obtain ⟨-, -, -, -, rfl⟩ := husage
      rfl
    refine ⟨rfl, rfl, fun m _ => ?_, fun _ _ => Or.inl⟩
    simp only [CounterStore.standing, hmeters]

theorem Inv.other (h : Inv sha256 source σ) (hfits : op.Fits) (hapart : Apart source op) :
    Inv sha256 source (σ.step sha256 source (.other op)) := by
  have hspooled := CounterStore.spooled_step sha256 hfits h.spooled
  simp only [step]
  unfold CounterStore.UsageOp.step at hspooled ⊢
  cases hrun : op.run sha256 σ.store with
  | error e => exact h
  | ok s' =>
    rw [hrun] at hspooled
    obtain ⟨hcounters, hdigests, hstanding, hvalid⟩ := apart_frame hapart hrun
    have hcurrent : Metering.current source { σ with store := s' } = σ.current source := by
      unfold Metering.current
      rw [hcounters]
    refine ⟨hspooled, fun name c hc => (hvalid name c hc).elim (h.valid name c) id, ?_, h.prior, h.named, fun m hm => ?_, ?_⟩
    · rw [hcurrent]
      exact h.stored
    · unfold Counts
      rw [hstanding m hm]
      exact h.counts m hm
    · cases h.follows with
      | current hsame => exact .current (by rw [hcurrent]; exact hsame)
      | behind rs epoch r observed digest hlast hsame hsize hbill hdigest hstored =>
        exact .behind rs epoch r observed digest hlast hsame hsize hbill hdigest (hdigests.trans hstored)

theorem attempt_of_commit {store : CounterStore}
    (hvalid : σ.counter.Valid)
    (hcommit : σ.store.commitCounterUsage sha256 source.name σ.counter (σ.counter.observe epoch r).2
      (source.bill observed (σ.counter.observe epoch r).1) = .ok store) :
    σ.attempt sha256 source epoch r observed = .ok (store, (σ.counter.observe epoch r).1, (σ.counter.observe epoch r).2) :=
  bind_eq_ok.mpr ⟨_, Counter.fromCheckpoint_eq_ok.mpr ⟨hvalid, rfl⟩, bind_eq_ok.mpr ⟨store, hcommit, rfl⟩⟩

theorem Inv.again (h : Inv sha256 source σ) {rs : List (String × Table String Int)} {r' : Table String Int} (hlast : σ.committed = rs ++ [(epoch, r)]) (hr : ∀ k, r'.get? k = r.get? k) (hpos : 0 < observed)
    (hmax : observed ≤ maxInt64) : ∃ store deltas next,
      σ.attempt sha256 source epoch r' observed = .ok (store, deltas, next) ∧ store.usage = σ.store.usage := by
  have hname := h.named (by simp [hlast])
  have hideal : (ideal σ.committed).1 = ((ideal rs).1.observe epoch r).2 := by rw [hlast, ideal_concat]
  have hprior := h.prior rs _ hlast
  have hstored := h.stored
  rw [hideal] at hstored
  obtain ⟨hvalid, hsize⟩ := h.current
  have hlastvalid : ((ideal rs).1.observe epoch r).2.Valid := hstored.valid hvalid
  cases h.follows with
  | current hsame =>
    -- the counter has these readings: they grow nothing
    obtain ⟨hnone, hnext, -⟩ := Counter.observe_again hprior hlastvalid hr
    have hshort := Counter.jsonSize_observe_again hprior hlastvalid hr
    obtain ⟨hagain, hdeltas⟩ := (hsame.trans hstored.symm).observe (fun k : String => (rfl : r'.get? k = r'.get? k)) epoch
    have hbill : source.bill observed (σ.counter.observe epoch r').1 = [] :=
      source.bill_eq_nil (fun k => (hdeltas k).trans (hnone k)) observed
    have hcounter : σ.counter.Valid := hsame.valid hvalid
    obtain ⟨store, hcommit, husage⟩ := CounterStore.commitCounterUsage_empty sha256 (s := σ.store) hname hcounter
      (hsame.jsonSize.le.trans hsize) (hagain.valid hnext)
      (by rw [hagain.jsonSize]; exact hshort.trans (hstored.jsonSize.le.trans hsize)) (Counter.same_eq_true.mpr hsame.symm)
    rw [← hbill] at hcommit
    exact ⟨store, _, _, attempt_of_commit hcounter hcommit, husage⟩
  | behind rs' epoch' r₀ observed' digest hlast' hsame hcsize hlen hdigest hdigests =>
    obtain ⟨rfl, hone⟩ := append_inj' (hlast.symm.trans hlast') rfl
    obtain ⟨rfl, rfl⟩ : epoch = epoch' ∧ r = r₀ := by simpa using hone
    -- the store has the checkpoint that the counter arrives at
    obtain ⟨hagain, -⟩ := hsame.observe hr epoch
    have hbill : source.bill observed (σ.counter.observe epoch r').1 = source.bill observed (σ.counter.observe epoch r).1 :=
      source.bill_congr ((Counter.Same.refl σ.counter).observe hr epoch).2 observed
    have hcounter : σ.counter.Valid := hsame.valid hprior
    have hnext := hagain.trans hstored
    have hlen' : (source.bill observed (σ.counter.observe epoch r').1).length ≤ 131072 := by
      rw [hbill, source.bill_at _ observed' observed, length_map]
      exact hlen
    have hdigest' : deltaDigest sha256 (source.bill observed (σ.counter.observe epoch r').1) = .ok digest := by
      rw [hbill]
      exact Source.deltaDigest_bill hdigest hpos hmax
    have hcommit := CounterStore.commitCounterUsage_repeated (s := σ.store) hname hlen' hcounter hcsize (hnext.valid hvalid)
      (by rw [hnext.jsonSize]; exact hsize) hdigest' (Counter.same_eq_true.mpr hnext.symm) (Or.inr hdigests)
    exact ⟨σ.store, _, _, attempt_of_commit hcounter hcommit, rfl⟩

def Allowed (source : Source) : MeterAct → Prop
  | .observe _ _ observed _ => observed ≤ maxInt64
  | .reload => True
  | .other op => op.Fits ∧ Apart source op

theorem Inv.step (h : Inv sha256 source σ) {act : MeterAct} (hact : Allowed source act) :
    Inv sha256 source (σ.step sha256 source act) := by
  cases act with
  | observe epoch r observed fate => exact h.observe hact fate
  | reload => exact h.reload
  | other op => exact h.other hact.1 hact.2

theorem inv_of_open {nodeID installationID : String} {s : CounterStore}
    (h : CounterStore.openStore nodeID installationID = .ok s) : Inv sha256 source { store := s } := by
  have hspooled := CounterStore.spooled_of_open h
  simp only [CounterStore.openStore, bind_eq_ok, pure_eq_ok] at h
  obtain ⟨-, -, rfl⟩ := h
  refine ⟨⟨_, hspooled⟩, fun name c hc => ?_, Counter.Same.refl _, fun rs r hrs => ?_, fun hne => absurd rfl hne,
    fun m _ => ⟨rfl, rfl⟩, .current (Counter.Same.refl _)⟩
  · simp at hc
  · simp at hrs

end Metering

theorem UsageStore.Spooled.last_queued {s : UsageStore} {history : Nat → List UsageCheckpoint} (hs : s.Spooled history)
    {n : Nat} {b : UsageBatch} {c : UsageCheckpoint} (hb : s.queue.get? n = some b) (hc : c ∈ b.checkpoints)
    (hlast : ∀ t b', n < t → s.queue.get? t = some b' → c.meter ∉ b'.checkpoints.map UsageCheckpoint.meter) :
    CounterStore.standing s c.meter = c.reading := by
  have hreading := hs.reading_of_queued hb hc
  have hrange : s.durableUsage < n ∧ n ≤ s.sequence := by
    by_contra hout
    rw [hs.queue, if_neg hout] at hb
    cases hb
  have hsilent : Latest.Silent (readings history) c.meter n := by
    intro t ht
    by_cases hseq : t ≤ s.sequence
    · have hqueued := hs.queue t
      rw [if_pos ⟨hrange.1.trans ht, hseq⟩] at hqueued
      have habsent := hlast t _ ht hqueued
      rw [readings, Option.map_eq_none_iff, List.find?_eq_none]
      exact fun d hd he => habsent (mem_map.mpr ⟨d, hd, of_decide_eq_true he⟩)
    · simp [readings, hs.beyond t (Nat.lt_of_not_le hseq)]
  have hmeters := hs.meters c.meter
  rw [Latest.latest_of_silent hsilent hrange.2] at hmeters
  obtain ⟨n, rfl⟩ := Nat.exists_eq_add_of_lt hrange.1
  rw [Latest.latest, hreading, Option.some_or] at hmeters
  rw [CounterStore.standing, hmeters, Option.getD_some]

namespace Metering

/-- In every run the meters stand where the counter of a process that never fails has them; the last committed
readings can be observed again at any time, for nothing; and what is stored can be loaded. Names and epochs are valid
UTF-8, as a text that is not comes back changed from the JSON of the store. -/
theorem counted_once {sha256 : Multiset UsageCheckpoint → Digest} {source : Source} {nodeID installationID : String}
    {s : CounterStore} (hopen : CounterStore.openStore nodeID installationID = .ok s)
    (hname : validCounterSource source.name = true) {acts : List MeterAct} (hacts : ∀ act ∈ acts, Allowed source act) :
    let σ := after sha256 source { store := s } acts
    (∀ m ∈ source.subjects, Counts σ m ∧
      ∀ n b, σ.store.usage.queue.get? n = some b → ∀ c ∈ b.checkpoints, c.meter = m.identity.meter →
        (∀ t b', n < t → σ.store.usage.queue.get? t = some b' → c.meter ∉ b'.checkpoints.map UsageCheckpoint.meter) →
        (c.uploaded : Int) = (ideal σ.committed).2 m.upload ∧ (c.downloaded : Int) = (ideal σ.committed).2 m.download) ∧
    (∀ rs epoch r, σ.committed = rs ++ [(epoch, r)] → ∀ (r' : Table String Int) (observed : Int), (∀ k, r'.get? k = r.get? k) →
      0 < observed → observed ≤ maxInt64 → ∃ store deltas next,
        σ.attempt sha256 source epoch r' observed = .ok (store, deltas, next) ∧ store.usage = σ.store.usage) ∧
    (∀ name c, σ.store.counters.get? name = some c → c.fromCheckpoint = .ok c) ∧
    (∃ c, σ.store.loadCounter source.name = .ok c) ∧
    ∀ (c : Counter) (epoch : String) (r : Table String Int), c.fromCheckpoint = .ok c → epoch.utf8ByteSize ≤ 1024 →
      (∀ k v, r.get? k = some v → k ≠ "" ∧ k.utf8ByteSize ≤ 1024) →
      (c.observe epoch r).2.fromCheckpoint = .ok (c.observe epoch r).2 := by
  intro σ
  have h : Inv sha256 source σ :=
    Run.inv_after_of_mem (I := Inv sha256 source) (fun _ act hact hσ => hσ.step (hacts act hact)) (inv_of_open hopen)
  obtain ⟨history, hs⟩ := h.spooled
  refine ⟨fun m hm => ⟨h.counts m hm, fun n b hb c hc hmeter hlast => ?_⟩,
    fun rs epoch r hrs r' observed hr hpos hmax => h.again hrs hr hpos hmax,
    fun name c hc => Counter.fromCheckpoint_eq_ok.mpr ⟨(h.valid name c hc).1, rfl⟩,
    ⟨σ.current source, unit_bind_eq_ok.mpr ⟨refuse_eq_ok.mpr (by simp [hname]),
      Counter.fromCheckpoint_eq_ok.mpr ⟨h.current.1, rfl⟩⟩⟩,
    fun c epoch r hc hepoch hkeys => Counter.fromCheckpoint_eq_ok.mpr ⟨?_, rfl⟩⟩
  · obtain ⟨hup, hdown⟩ := h.counts m hm
    rw [← hmeter, hs.last_queued hb hc hlast] at hup hdown
    exact ⟨hup, hdown⟩
  · exact (Counter.fromCheckpoint_eq_ok.mp hc).1.observe hepoch fun k v hv _ => hkeys k v hv

namespace Sample

def source : Source where
  name := "edge"
  subjects := [⟨CounterStore.Sample.checkpoint 0, "upload", "download"⟩]
  distinct := by decide

def reading (upload download : Int) : Table String Int := ((∅ : Table String Int).put "upload" upload).put "download" download

def acts : List MeterAct :=
  [.observe "boot" (reading 10 20) 1 .stores, .observe "boot" (reading 15 20) 2 .loses, .observe "boot" (reading 15 20) 3 .stores,
    .reload, .observe "boot" (reading 15 20) 4 .stores, .observe "again" (reading 2 3) 5 .stores]

end Sample

theorem counted_once_lost : (∀ act ∈ Sample.acts, Allowed Sample.source act) ∧
    CounterStore.standing (after (fun _ => []) Sample.source { store := CounterStore.Sample.store } Sample.acts).store.usage
      (CounterStore.Sample.checkpoint 0).meter = (7, 3) ∧
    ∀ m ∈ Sample.source.subjects, Counts (after (fun _ => []) Sample.source { store := CounterStore.Sample.store } Sample.acts) m := by
  have hopen : CounterStore.openStore CounterStore.Sample.node CounterStore.Sample.node = .ok CounterStore.Sample.store :=
    unit_bind_eq_ok.mpr ⟨refuse_eq_ok.mpr (by decide +kernel), rfl⟩
  have hacts : ∀ act ∈ Sample.acts, Allowed Sample.source act := by
    simp [Sample.acts, Allowed, maxInt64]
  exact ⟨hacts, by decide +kernel, fun m hm => ((counted_once hopen (by decide +kernel) hacts).1 m hm).1⟩

end Metering

end Pui
