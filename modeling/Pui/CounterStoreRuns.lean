import Mathlib.Algebra.Group.Action.Defs
import Pui.SpoolBytes

/-!
# The usage queue over every run of its transactions

Each transaction of the store keeps the queue's bookkeeping.
-/

namespace Pui

open Guard Table Latest List

variable {cs cps : List UsageCheckpoint} {meters : Table MeterKey UsageCheckpoint} {c : UsageCheckpoint} {s : CounterStore}
  {css : List (List UsageCheckpoint)} {history : Nat → List UsageCheckpoint} {sha256 : Multiset UsageCheckpoint → Digest}
  {source : String} {previous : Counter} {deltas : List MeterDelta} {digest : Digest} {s' : UsageStore}

namespace UsageStore

variable {s s' : UsageStore} {history : Nat → List UsageCheckpoint}

def checkAppend (checkpoints : List UsageCheckpoint) (s : UsageStore) : Except NodeError (Table MeterKey UsageCheckpoint) := do
  refuse (checkpoints = [] ∨ checkpoints.length > 4096 ∨
    (⟨s.nodeID, s.installationID, 0, checkpoints⟩ : UsageBatch).size > maxBatchBytes - 16) .usage
  readMeters checkpoints [] s.meters

theorem appendUsage_of_check (h : s.checkAppend cs = .ok meters) : s.appendUsage cs = queueUsage { s with meters := meters } cs := by
  obtain ⟨hc, hread⟩ := unit_bind_eq_ok.mp h
  rw [UsageStore.appendUsage, hc, ok_bind, hread, ok_bind]

theorem appendUsage_of_refused {e : NodeError} (h : s.checkAppend cs = .error e) :
    s.appendUsage cs = .error e := by
  unfold checkAppend at h
  unfold UsageStore.appendUsage
  by_cases hc : cs = [] ∨ cs.length > 4096 ∨
      (⟨s.nodeID, s.installationID, 0, cs⟩ : UsageBatch).size > maxBatchBytes - 16
  · rw [refuse_of hc, error_bind] at h ⊢
    cases h
    rfl
  · rw [refuse_of_not hc, ok_bind] at h ⊢
    rw [h, error_bind]

theorem valid_of_readMeters {seen : List MeterKey} {meters' : Table MeterKey UsageCheckpoint}
    (h : readMeters cs seen meters = .ok meters') : ∀ c ∈ cs, c.meterKey = .ok c.meter := by
  induction cs generalizing seen meters with
  | nil => simp
  | cons c cs ih =>
    simp only [readMeters, bind_eq_ok] at h
    obtain ⟨k, hk, -, -, -, -, h⟩ := h
    refine forall_mem_cons.mpr ⟨?_, ih h⟩
    rw [hk, meterKey_eq_ok hk]

theorem exists_readMeters (seen : List MeterKey) (meters : Table MeterKey UsageCheckpoint)
    (hvalid : ∀ c ∈ cs, c.meterKey = .ok c.meter) (hnd : (cs.map UsageCheckpoint.meter).Nodup)
    (hseen : ∀ c ∈ cs, c.meter ∉ seen)
    (hle : ∀ c ∈ cs, ∀ old, meters.get? c.meter = some old → old.uploaded ≤ c.uploaded ∧ old.downloaded ≤ c.downloaded) :
    ∃ meters', readMeters cs seen meters = .ok meters' := by
  induction cs generalizing seen meters with
  | nil => exact ⟨meters, rfl⟩
  | cons c cs ih =>
    obtain ⟨hvc, hvalid⟩ := forall_mem_cons.mp hvalid
    obtain ⟨hsc, hseen⟩ := forall_mem_cons.mp hseen
    obtain ⟨hlc, hle⟩ := forall_mem_cons.mp hle
    obtain ⟨hnew, hnd⟩ := nodup_cons.mp hnd
    have hne : ∀ d ∈ cs, d.meter ≠ c.meter := fun d hd he => hnew (he ▸ mem_map_of_mem hd)
    obtain ⟨meters', hrec⟩ := ih (c.meter :: seen) (meters.put c.meter c) hvalid hnd
      (fun d hd hm => (mem_cons.mp hm).elim (hne d hd) (hseen d hd))
      (fun d hd old ho => hle d hd old (by rwa [get?_put_of_ne (hne d hd)] at ho))
    refine ⟨meters', bind_eq_ok.mpr ⟨_, hvc, unit_bind_eq_ok.mpr ⟨refuse_eq_ok.mpr hsc,
      unit_bind_eq_ok.mpr ⟨refuse_eq_ok.mpr ?_, hrec⟩⟩⟩⟩
    cases hold : meters.get? c.meter with
    | none => simp
    | some old =>
      obtain ⟨hup, hdown⟩ := hlc old hold
      simp only [Option.any_some, Bool.or_eq_true, decide_eq_true_eq, not_or]
      omega

theorem Spooled.appendUsage (hs : Spooled s history) (hfits : ∀ c ∈ cs, c.Fits) :
    (∃ s' history' meters, s.appendUsage cs = .ok s' ∧ Spooled s' history' ∧ s'.sequence ≤ s.sequence + cs.length ∧
        s.checkAppend cs = .ok meters ∧ s'.meters = meters) ∨
      s.appendUsage cs = .error .spoolFull ∨
      (∃ e, s.checkAppend cs = .error e ∧ s.appendUsage cs = .error e) ∨
      maxUint64 < s.sequence + cs.length ∧ s.appendUsage cs = .error .usage := by
  cases hcheck : s.checkAppend cs with
  | error e => exact Or.inr (Or.inr (Or.inl ⟨e, rfl, appendUsage_of_refused hcheck⟩))
  | ok meters =>
    have hread := (unit_bind_eq_ok.mp hcheck).2
    obtain ⟨hnd, -, hle, hget⟩ := readMeters_eq_ok hread
    have hrun := appendUsage_of_check hcheck
    rcases hs.queueUsage meters (valid_of_readMeters hread) hfits hnd (hs.above hle) with
      ⟨s', hok, hz, hbytes, hseq⟩ | hfull | hmax
    · rw [← hrun] at hok
      obtain ⟨history', hkept, -⟩ := hs.toKept.appendUsage hok
      have hmeters : s'.meters = meters := by
        rw [hrun] at hok
        simp only [UsageStore.queueUsage, bind_eq_ok, pure_eq_ok] at hok
        obtain ⟨w, -, -, -, -, -, -, -, -, -, rfl⟩ := hok
        rfl
      refine Or.inl ⟨s', history', meters, hok, ⟨hkept, hz, hbytes, fun k c hc => ?_⟩, hseq, rfl, hmeters⟩
      rw [hmeters, hget] at hc
      cases hfind : cs.find? fun c => c.meter = k with
      | none =>
        rw [hfind, Option.none_or] at hc
        exact hs.fits k c hc
      | some d =>
        rw [hfind, Option.some_or] at hc
        cases hc
        exact hfits c (mem_of_find?_eq_some hfind)
    · exact Or.inr (Or.inl (hrun.trans hfull))
    · exact Or.inr (Or.inr (Or.inr ⟨hmax.1, hrun.trans hmax.2⟩))

theorem Kept.exists_readQueue (hs : Kept s history) {ns : List Nat} (hns : ∀ n ∈ ns, s.durableUsage < n ∧ n ≤ s.sequence) :
    ∃ bs, s.readQueue ns = .ok bs := by
  induction ns with
  | nil => exact ⟨[], rfl⟩
  | cons n ns ih =>
    obtain ⟨hn, hns⟩ := forall_mem_cons.mp hns
    obtain ⟨bs, hbs⟩ := ih hns
    have hget := hs.queue n
    rw [if_pos hn] at hget
    exact ⟨s.batchAt history n :: bs, bind_eq_ok.mpr ⟨_, found_eq_ok.mpr hget,
      unit_bind_eq_ok.mpr ⟨refuse_eq_ok.mpr (by simp [batchAt]), bind_eq_ok.mpr ⟨bs, hbs, rfl⟩⟩⟩⟩

theorem Spooled.pendingUsage {limit : Nat} (hs : Spooled s history) (hlimit : ¬(limit < 1 ∨ limit > 128)) :
    ∃ bs s', s.pendingUsage limit = .ok (bs, s') ∧ Spooled s' history := by
  have hrange : ∀ n ∈ s.numbers.take limit, s.durableUsage < n ∧ n ≤ s.sequence := by
    intro n hn
    have hmem := mem_of_mem_take hn
    rw [hs.numbers, mem_range'_1] at hmem
    omega
  obtain ⟨bs, hbs⟩ := hs.toKept.exists_readQueue hrange
  have hrun : s.pendingUsage limit = .ok (bs.getLast?.elim ([], s) fun last =>
      (bs, { s with exposedUsage := max s.exposedUsage last.sequence })) := by
    rw [UsageStore.pendingUsage, refuse_of_not hlimit, ok_bind, hbs, ok_bind]
    cases bs.getLast? with
    | none => rfl
    | some last => rfl
  refine ⟨_, _, hrun, ?_⟩
  obtain ⟨hkept, hexposed, -⟩ := hs.toKept.pendingUsage hrun
  cases hlast : bs.getLast? with
  | none => exact hs
  | some last =>
    rw [hlast] at hkept hexposed
    refine ⟨hkept, ?_, hs.bytes, hs.fits⟩
    exact { hs.sized with indexed := fun k n hk hn => hs.sized.indexed k n hk (Nat.lt_of_le_of_lt hexposed hn) }

theorem Spooled.acknowledge {r : UsageReceipt} (hs : Spooled s history) (haccounted : ¬r.accountedSequence > r.durableSequence)
    (hsequence : ¬r.durableSequence > s.sequence) (hexposed : ¬r.durableSequence > s.exposedUsage) :
    ∃ s', s.acknowledge r = .ok s' ∧ Spooled s' history := by
  have htotal := total_keep_add s.queue (fun n _ => n ≤ max r.durableSequence s.durableUsage) fun _ b => b.size
  have hle : ¬((s.queue.keep fun n _ => n ≤ max r.durableSequence s.durableUsage).total fun _ b => b.size) > s.spooledBytes := by
    rw [hs.bytes, ← htotal]
    omega
  have hrun : s.acknowledge r = .ok { s with
      queue := s.queue.keep fun n _ => !(n ≤ max r.durableSequence s.durableUsage)
      spooledBytes := s.spooledBytes - (s.queue.keep fun n _ => n ≤ max r.durableSequence s.durableUsage).total fun _ b => b.size
      durableUsage := max r.durableSequence s.durableUsage
      accountedUsage := max r.accountedSequence s.accountedUsage } := by
    unfold UsageStore.acknowledge
    rw [refuse_of_not haccounted, ok_bind, refuse_of_not hsequence, ok_bind, refuse_of_not hexposed, ok_bind]
    dsimp only
    rw [refuse_of_not hle, ok_bind]
    rfl
  refine ⟨_, hrun, (hs.toKept.acknowledge hrun).1, ?_, ?_, hs.fits⟩
  · have hdurable : max r.durableSequence s.durableUsage ≤ s.exposedUsage := max_le (Nat.le_of_not_lt hexposed) hs.durable
    have hview : ∀ n, s.view ⟨∅, s.index, s.sequence⟩ n = s.queue.get? n := fun n => by simp [view]
    refine ⟨hs.sized.nodeID, hs.sized.installationID, hs.sized.last, fun n e he => ?_, fun n e he => ?_, fun n b hb => ?_,
      fun k n hk hn => ?_⟩
    · simp at he
    · simp at he
    · simp only [view, get?_empty, Option.map_none, Option.none_or, get?_keep, Option.filter_eq_some_iff] at hb
      exact hs.sized.sound n b ((hview n).trans hb.1)
    · obtain ⟨b, hb, hmem⟩ := hs.sized.indexed k n hk hn
      refine ⟨b, ?_, hmem⟩
      have hkept : ¬n ≤ max r.durableSequence s.durableUsage := Nat.not_le.mpr (Nat.lt_of_le_of_lt hdurable hn)
      simp only [view, get?_empty, Option.map_none, Option.none_or, get?_keep, Option.filter_eq_some_iff]
      exact ⟨(hview n).symm.trans hb, by simpa using hkept⟩
  · rw [hs.bytes, ← htotal]
    exact Nat.add_sub_cancel_left _ _

end UsageStore

namespace CounterStore

theorem flatten_slices {n : Nat} (hn : 0 < n) (cs : List UsageCheckpoint) : (slices n cs).flatten = cs := by
  have htake : ∀ m, ((List.range m).map fun i => (cs.drop (n * i)).take n).flatten = cs.take (n * m) := by
    intro m
    induction m with
    | zero => simp
    | succ m ih => rw [range_succ, map_append, flatten_append, ih, Nat.mul_succ, take_add]; simp
  rw [slices, htake, take_of_length_le]
  have hdiv := Nat.div_add_mod (cs.length + (n - 1)) n
  have hmod := Nat.mod_lt (cs.length + (n - 1)) hn
  omega

theorem slices_bounds {n : Nat} {slice : List UsageCheckpoint} (h : slice ∈ slices n cs) :
    slice ≠ [] ∧ slice.length ≤ n := by
  obtain ⟨i, hi, rfl⟩ := mem_map.mp h
  have hi' := mem_range.mp hi
  have hn : 0 < n := by
    by_contra h0
    obtain rfl : n = 0 := by omega
    simp at hi'
  have hlt : n * i < cs.length := by
    have hmul : (i + 1) * n ≤ cs.length + (n - 1) := (Nat.le_div_iff_mul_le hn).mp hi'
    rw [Nat.add_mul, Nat.mul_comm i n] at hmul
    omega
  refine ⟨?_, length_take_le _ _⟩
  rw [← length_pos_iff, length_take, length_drop]
  omega

theorem meterKey_of_fits {d : UsageCheckpoint} (h : d.meterKey = .ok d.meter) (hmeter : c.meter = d.meter)
    (hpos : 0 < c.observedUnixMilli) (hfits : c.Fits) : c.meterKey = .ok c.meter := by
  have hbound := (meter_size_bounds h).2
  obtain ⟨hg, hc, ht, hi, hm, hlen, -, -⟩ := meterKey_ok_iff.mp h
  have hsize := UsageCheckpoint.size_le hfits hpos
  rw [hmeter] at hsize
  simp only [UsageCheckpoint.meter, MeterKey.mk.injEq] at hmeter
  obtain ⟨hg', hc', ht', hm', hi'⟩ := hmeter
  rw [meterKey_ok_iff, hg', hc', ht', hm', hi']
  exact ⟨hg, hc, ht, hi, hm, hlen, hpos, by omega⟩

theorem checkAppend_slice {s : UsageStore} {w : UsageEdits} (hz : s.Sized w) (hne : cs ≠ [])
    (hlen : cs.length ≤ 1024) (hvalid : ∀ c ∈ cs, c.meterKey = .ok c.meter) (hfits : ∀ c ∈ cs, c.Fits)
    (hnd : (cs.map UsageCheckpoint.meter).Nodup)
    (hle : ∀ c ∈ cs, ∀ old, s.meters.get? c.meter = some old → old.uploaded ≤ c.uploaded ∧ old.downloaded ≤ c.downloaded) :
    ∃ meters, s.checkAppend cs = .ok meters := by
  have hsum : (cs.map checkpointSize).sum ≤ 318 * cs.length := by
    have hcard := sum_le_card_nsmul (cs.map checkpointSize) 318 ?_
    · rw [length_map, smul_eq_mul] at hcard
      omega
    · intro n hn
      obtain ⟨c, hc, rfl⟩ := mem_map.mp hn
      have hsize := checkpointSize_le (hvalid c hc) (hfits c hc)
      have hbound := (meter_size_bounds (hvalid c hc)).2
      omega
  have hsize : UsageBatch.size ⟨s.nodeID, s.installationID, 0, cs⟩ ≤ 76 + 318 * cs.length := by
    rw [UsageBatch.size_eq, UsageBatch.head, sizeString_of_validID hz.nodeID, sizeString_of_validID hz.installationID]
    simp only [sizeUint64, if_true]
    omega
  obtain ⟨meters, hread⟩ := UsageStore.exists_readMeters [] s.meters hvalid hnd (by simp) hle
  refine ⟨meters, unit_bind_eq_ok.mpr ⟨refuse_eq_ok.mpr ?_, hread⟩⟩
  simp only [maxBatchBytes]
  rintro (h | h | h)
  · exact hne h
  · omega
  · omega

theorem appendAll {s : UsageStore}
    (hs : s.Spooled history) (hslice : ∀ cs ∈ css, cs ≠ [] ∧ cs.length ≤ 1024)
    (hvalid : ∀ c ∈ css.flatten, c.meterKey = .ok c.meter) (hfits : ∀ c ∈ css.flatten, c.Fits)
    (hnd : (css.flatten.map UsageCheckpoint.meter).Nodup)
    (hle : ∀ c ∈ css.flatten, ∀ old, s.meters.get? c.meter = some old →
      old.uploaded ≤ c.uploaded ∧ old.downloaded ≤ c.downloaded) :
    (∃ s' history', css.foldlM (fun s cs => s.appendUsage cs) s = .ok s' ∧ s'.Spooled history') ∨
      css.foldlM (fun s cs => s.appendUsage cs) s = .error .spoolFull ∨
      maxUint64 < s.sequence + css.flatten.length ∧ css.foldlM (fun s cs => s.appendUsage cs) s = .error .usage := by
  induction css generalizing s history with
  | nil => exact Or.inl ⟨s, history, rfl, hs⟩
  | cons cs css ih =>
    rw [flatten_cons] at hvalid hfits hnd hle
    rw [map_append] at hnd
    obtain ⟨hndc, hndr, hdisjoint⟩ := nodup_append.mp hnd
    rw [forall_mem_append] at hvalid hfits hle
    obtain ⟨⟨hne, hlen⟩, hslice⟩ := forall_mem_cons.mp hslice
    obtain ⟨meters, hcheck⟩ := checkAppend_slice hs.sized hne hlen hvalid.1 hfits.1 hndc hle.1
    rw [foldlM_cons, flatten_cons, length_append]
    rcases hs.appendUsage hfits.1 with ⟨s', history', meters', hok, hs', hseq, hcheck', hmeters⟩ | hfull | ⟨e, herr, -⟩ | ⟨hmax, herr⟩
    · -- the other slices hold other meters
      have hother : ∀ c ∈ css.flatten, s'.meters.get? c.meter = s.meters.get? c.meter := by
        intro c hc
        have hread := (unit_bind_eq_ok.mp hcheck').2
        have hnone : (cs.find? fun d => d.meter = c.meter) = none := by
          rw [List.find?_eq_none]
          intro d hd he
          exact hdisjoint _ (mem_map_of_mem hd) _ (mem_map_of_mem hc) (of_decide_eq_true he)
        rw [hmeters, (UsageStore.readMeters_eq_ok hread).2.2.2, hnone, Option.none_or]
      rw [hok, ok_bind]
      rcases ih hs' hslice hvalid.2 hfits.2 hndr (fun c hc old ho => hle.2 c hc old (hother c hc ▸ ho)) with hok | hfull | hmax
      · exact Or.inl hok
      · exact Or.inr (Or.inl hfull)
      · exact Or.inr (Or.inr ⟨by omega, hmax.2⟩)
    · rw [hfull, error_bind]
      exact Or.inr (Or.inl rfl)
    · rw [hcheck] at herr
      cases herr
    · rw [herr, error_bind]
      exact Or.inr (Or.inr ⟨by omega, rfl⟩)

def standing (s : UsageStore) (k : MeterKey) : Nat × Nat := ((s.meters.get? k).map UsageCheckpoint.reading).getD (0, 0)

theorem cumulative_eq_ok {s : UsageStore} {d : MeterDelta} (h : cumulative s d = .ok c) :
    d.identity.meterKey = .ok d.identity.meter ∧
      c = { d.identity with
        uploaded := (standing s d.identity.meter).1 + d.uploaded, downloaded := (standing s d.identity.meter).2 + d.downloaded } ∧
      d.uploaded ≤ maxUint64 - (standing s d.identity.meter).1 ∧ d.downloaded ≤ maxUint64 - (standing s d.identity.meter).2 := by
  simp only [cumulative, bind_eq_ok, refuse_eq_ok, pure_eq_ok, not_or, not_not, gt_iff_lt, not_lt] at h
  obtain ⟨k, hk, -, ⟨hup, hdown⟩, h⟩ := h
  obtain rfl := UsageStore.meterKey_eq_ok hk
  unfold standing
  cases hget : s.meters.get? d.identity.meter with
  | none =>
    rw [hget] at h
    obtain ⟨-, ⟨hu, hd⟩, rfl⟩ := h
    rw [hup] at hu
    rw [hdown] at hd
    exact ⟨hk, by simp [hup, hdown], hu, hd⟩
  | some old =>
    rw [hget] at h
    obtain ⟨-, ⟨hu, hd⟩, rfl⟩ := h
    exact ⟨hk, rfl, hu, hd⟩

theorem prepareCommit_eq_some {checkpoint : Counter}
    (h : prepareCommit sha256 source previous checkpoint deltas s = .ok (some (cps, digest))) :
    deltaDigest sha256 deltas = .ok digest ∧ (((s.counters.get? source).getD {}).same checkpoint = false ∧
      ((s.counters.get? source).getD {}).same previous = true) ∧ deltas.mapM (cumulative s.usage) = .ok cps := by
  simp only [prepareCommit, bind_eq_ok, Counter.encodeCheckpoint_eq_ok] at h
  obtain ⟨-, -, _, ⟨-, -, rfl⟩, _, ⟨-, -, rfl⟩, digest', hdigest, h⟩ := h
  split at h
  · obtain ⟨-, h⟩ := unit_bind_eq_ok.mp h
    cases pure_eq_ok.mp h
  · next hnew =>
    simp only [bind_eq_ok, refuse_eq_ok, pure_eq_ok, Option.some.injEq, Prod.mk.injEq] at h
    obtain ⟨-, hsame, cps', hcps, rfl, rfl⟩ := h
    exact ⟨hdigest, ⟨Bool.eq_false_iff.mpr hnew, by simpa using hsame⟩, hcps⟩

theorem commitCounterUsage_eq_ok {checkpoint : Counter} {s' : CounterStore}
    (h : commitCounterUsage sha256 source previous checkpoint deltas s = .ok s') :
    validCounterSource source = true ∧ deltas.length ≤ 131072 ∧ previous.jsonSize ≤ maxDeploymentBytes ∧ checkpoint.Valid ∧
      checkpoint.jsonSize ≤ maxDeploymentBytes ∧ ∃ digest, deltaDigest sha256 deltas = .ok digest ∧
        (((s.counters.get? source).getD {}).same checkpoint = true ∧ s' = s ∨
          ((s.counters.get? source).getD {}).same checkpoint = false ∧
          ((s.counters.get? source).getD {}).same previous = true ∧
          ∃ cps usage, deltas.mapM (cumulative s.usage) = .ok cps ∧ appendSlices cps s.usage = .ok usage ∧
            s' = ⟨usage, s.counters.put source checkpoint, s.digests.put source digest⟩) := by
  obtain ⟨outcome, hprepare, h⟩ := bind_eq_ok.mp h
  have hchecks := hprepare
  simp only [prepareCommit, bind_eq_ok, Counter.encodeCheckpoint_eq_ok, refuse_eq_ok, not_or, Nat.not_lt, gt_iff_lt,
    Bool.not_eq_eq_eq_not, Bool.not_true, Bool.not_eq_false] at hchecks
  obtain ⟨-, ⟨hsource, hlen⟩, _, ⟨-, hprevious, rfl⟩, _, ⟨hvalid, hsize, rfl⟩, digest, hdigest, hrest⟩ := hchecks
  refine ⟨hsource, hlen, hprevious, hvalid, hsize, digest, hdigest, ?_⟩
  cases outcome with
  | none =>
    left
    by_cases hsame : ((s.counters.get? source).getD {}).same checkpoint = true
    · exact ⟨hsame, (pure_eq_ok.mp h).symm⟩
    · rw [if_neg hsame] at hrest
      obtain ⟨-, hrest⟩ := unit_bind_eq_ok.mp hrest
      obtain ⟨_, -, hrest⟩ := bind_eq_ok.mp hrest
      cases pure_eq_ok.mp hrest
  | some outcome =>
    obtain ⟨cps, digest'⟩ := outcome
    obtain ⟨hdigest', hsame, hcps⟩ := prepareCommit_eq_some hprepare
    rw [hdigest] at hdigest'
    cases hdigest'
    obtain ⟨usage, husage, h⟩ := bind_eq_ok.mp h
    exact Or.inr ⟨hsame.1, hsame.2, cps, usage, hcps, husage, (pure_eq_ok.mp h).symm⟩

theorem commitCounterUsage_repeated {checkpoint : Counter}
    (hsource : validCounterSource source = true) (hlen : deltas.length ≤ 131072) (hprevious : previous.Valid)
    (hpsize : previous.jsonSize ≤ maxDeploymentBytes) (hvalid : checkpoint.Valid)
    (hsize : checkpoint.jsonSize ≤ maxDeploymentBytes) (hdigest : deltaDigest sha256 deltas = .ok digest)
    (hsame : ((s.counters.get? source).getD {}).same checkpoint = true)
    (hstored : deltas = [] ∨ s.digests.get? source = some digest) :
    commitCounterUsage sha256 source previous checkpoint deltas s = .ok s := by
  have hprepare : prepareCommit sha256 source previous checkpoint deltas s = .ok none := by
    refine unit_bind_eq_ok.mpr ⟨refuse_eq_ok.mpr (by simp [hsource, hlen]), ?_⟩
    refine bind_eq_ok.mpr ⟨previous, Counter.encodeCheckpoint_eq_ok.mpr ⟨hprevious, hpsize, rfl⟩, ?_⟩
    refine bind_eq_ok.mpr ⟨checkpoint, Counter.encodeCheckpoint_eq_ok.mpr ⟨hvalid, hsize, rfl⟩, ?_⟩
    refine bind_eq_ok.mpr ⟨digest, hdigest, ?_⟩
    rw [if_pos hsame]
    refine unit_bind_eq_ok.mpr ⟨refuse_eq_ok.mpr ?_, rfl⟩
    rintro ⟨hne, hother⟩
    exact hstored.elim hne hother
  rw [commitCounterUsage, hprepare]
  rfl

theorem commitCounterUsage_empty (sha256 : Multiset UsageCheckpoint → Digest)
    {checkpoint : Counter} (hsource : validCounterSource source = true)
    (hprevious : previous.Valid) (hpsize : previous.jsonSize ≤ maxDeploymentBytes) (hvalid : checkpoint.Valid)
    (hsize : checkpoint.jsonSize ≤ maxDeploymentBytes) (hsame : ((s.counters.get? source).getD {}).same previous = true) :
    ∃ s', commitCounterUsage sha256 source previous checkpoint [] s = .ok s' ∧ s'.usage = s.usage := by
  have hdigest : deltaDigest sha256 [] = .ok (sha256 0) := rfl
  by_cases hstored : ((s.counters.get? source).getD {}).same checkpoint = true
  · exact ⟨s, commitCounterUsage_repeated hsource (Nat.zero_le _) hprevious hpsize hvalid hsize hdigest hstored (Or.inl rfl), rfl⟩
  · have hprepare : prepareCommit sha256 source previous checkpoint [] s = .ok (some ([], sha256 0)) := by
      refine unit_bind_eq_ok.mpr ⟨refuse_eq_ok.mpr (by simp [hsource]), ?_⟩
      refine bind_eq_ok.mpr ⟨previous, Counter.encodeCheckpoint_eq_ok.mpr ⟨hprevious, hpsize, rfl⟩, ?_⟩
      refine bind_eq_ok.mpr ⟨checkpoint, Counter.encodeCheckpoint_eq_ok.mpr ⟨hvalid, hsize, rfl⟩, ?_⟩
      refine bind_eq_ok.mpr ⟨sha256 0, hdigest, ?_⟩
      rw [if_neg hstored]
      exact unit_bind_eq_ok.mpr ⟨refuse_eq_ok.mpr (by simp [hsame]), rfl⟩
    refine ⟨⟨s.usage, s.counters.put source checkpoint, s.digests.put source (sha256 0)⟩, ?_, rfl⟩
    rw [commitCounterUsage, hprepare]
    rfl

theorem nodup_of_deltaDigest (h : deltaDigest sha256 deltas = .ok digest) : (deltas.map fun d => d.identity.meter).Nodup := by
  simp only [deltaDigest, bind_eq_ok, refuse_eq_ok, not_not] at h
  obtain ⟨-, -, -, hnd, -⟩ := h
  rw [map_map] at hnd
  exact hnd

theorem meters_cumulative {s : UsageStore}
    (h : deltas.mapM (cumulative s) = .ok cps) : cps.map UsageCheckpoint.meter = deltas.map fun d => d.identity.meter := by
  induction deltas generalizing cps with
  | nil =>
    cases h
    rfl
  | cons d deltas ih =>
    obtain ⟨c, cps', hc, hcps, rfl⟩ := mapM_cons_eq_ok.mp h
    rw [map_cons, map_cons, ih hcps, (cumulative_eq_ok hc).2.1]
    rfl

theorem cumulative_checkpoints {s : UsageStore} (hmeters : ∀ k c, s.meters.get? k = some c → c.Fits) (hfits : ∀ d ∈ deltas, d.identity.Fits)
    (h : deltas.mapM (cumulative s) = .ok cps) :
    (∀ c ∈ cps, c.Fits) ∧ (∀ c ∈ cps, c.meterKey = .ok c.meter) ∧
      ∀ c ∈ cps, ∀ old, s.meters.get? c.meter = some old → old.uploaded ≤ c.uploaded ∧ old.downloaded ≤ c.downloaded := by
  induction deltas generalizing cps with
  | nil =>
    cases h
    simp
  | cons d deltas ih =>
    obtain ⟨c, cps', hc, hcps, rfl⟩ := mapM_cons_eq_ok.mp h
    obtain ⟨hfd, hfits⟩ := forall_mem_cons.mp hfits
    obtain ⟨hall, hkeys, hle⟩ := ih hfits hcps
    obtain ⟨hkey, rfl, hup, hdown⟩ := cumulative_eq_ok hc
    have hstand : (standing s d.identity.meter).1 ≤ maxUint64 ∧ (standing s d.identity.meter).2 ≤ maxUint64 := by
      unfold standing
      cases hget : s.meters.get? d.identity.meter with
      | none => simp
      | some old => exact ⟨(hmeters _ _ hget).uploaded, (hmeters _ _ hget).downloaded⟩
    have hnew : UsageCheckpoint.Fits { d.identity with
        uploaded := (standing s d.identity.meter).1 + d.uploaded
        downloaded := (standing s d.identity.meter).2 + d.downloaded } := by
      refine ⟨?_, ?_, hfd.observed⟩
      · show _ + _ ≤ _
        omega
      · show _ + _ ≤ _
        omega
    simp only [forall_mem_cons]
    have hpos := (meterKey_ok_iff.mp hkey).2.2.2.2.2.2.1
    refine ⟨⟨hnew, hall⟩, ⟨meterKey_of_fits hkey rfl hpos hnew, hkeys⟩, fun old hold => ?_, hle⟩
    have hold' : s.meters.get? d.identity.meter = some old := hold
    unfold standing
    rw [hold']
    exact ⟨Nat.le_add_right _ _, Nat.le_add_right _ _⟩

theorem meters_appendUsage {s : UsageStore} (h : s.appendUsage cs = .ok s') (k : MeterKey) :
    s'.meters.get? k = (cs.find? fun c => c.meter = k).or (s.meters.get? k) := by
  simp only [UsageStore.appendUsage, UsageStore.queueUsage, bind_eq_ok, pure_eq_ok] at h
  obtain ⟨-, -, meters, hmeters, w, -, -, -, -, -, -, -, -, -, rfl⟩ := h
  exact (UsageStore.readMeters_eq_ok hmeters).2.2.2 k

theorem meters_appendAll {s : UsageStore}
    (hnd : (css.flatten.map UsageCheckpoint.meter).Nodup)
    (h : css.foldlM (fun s cs => s.appendUsage cs) s = .ok s') (k : MeterKey) :
    s'.meters.get? k = (css.flatten.find? fun c => c.meter = k).or (s.meters.get? k) := by
  induction css generalizing s with
  | nil =>
    cases h
    rfl
  | cons cs css ih =>
    rw [foldlM_cons, bind_eq_ok] at h
    obtain ⟨u, hu, h⟩ := h
    rw [flatten_cons, map_append] at hnd
    obtain ⟨-, hndr, hdisjoint⟩ := nodup_append.mp hnd
    rw [ih hndr h, meters_appendUsage hu, flatten_cons, List.find?_append]
    cases hfind : cs.find? fun c => c.meter = k with
    | none => rw [Option.none_or, Option.none_or]
    | some c =>
      have hnone : (css.flatten.find? fun c => c.meter = k) = none := by
        rw [List.find?_eq_none]
        intro d hd he
        have hc : c.meter = k := by simpa using List.find?_some hfind
        exact hdisjoint _ (mem_map_of_mem (mem_of_find?_eq_some hfind)) _ (mem_map_of_mem hd)
          (hc.trans (of_decide_eq_true he).symm)
      rw [hnone, Option.none_or, Option.some_or, Option.some_or, Option.some_or]

theorem find?_cumulative {s : UsageStore}
    (h : deltas.mapM (cumulative s) = .ok cps) (k : MeterKey) :
    ((cps.find? fun c => c.meter = k).map UsageCheckpoint.reading) =
      (deltas.find? fun d => d.identity.meter = k).map fun d =>
        ((standing s k).1 + d.uploaded, (standing s k).2 + d.downloaded) := by
  induction deltas generalizing cps with
  | nil =>
    cases h
    rfl
  | cons d deltas ih =>
    obtain ⟨c, cps', hc, hcps, rfl⟩ := mapM_cons_eq_ok.mp h
    obtain ⟨-, hc, -, -⟩ := cumulative_eq_ok hc
    have hmeter : c.meter = d.identity.meter := by rw [hc]; rfl
    have hreading : c.reading =
        ((standing s d.identity.meter).1 + d.uploaded, (standing s d.identity.meter).2 + d.downloaded) := by rw [hc]; rfl
    by_cases hk : d.identity.meter = k
    · subst hk
      simp [hmeter, hreading]
    · simpa [hmeter, hk] using ih hcps

theorem standing_appendSlices {s : UsageStore}
    (hnd : (cps.map UsageCheckpoint.meter).Nodup) (hcps : deltas.mapM (cumulative s) = .ok cps)
    (h : appendSlices cps s = .ok s') (k : MeterKey) :
    standing s' k = match deltas.find? fun d => d.identity.meter = k with
      | some d => ((standing s k).1 + d.uploaded, (standing s k).2 + d.downloaded)
      | none => standing s k := by
  have hflat := flatten_slices (n := 1024) (by decide) cps
  have hget := meters_appendAll (hflat.symm ▸ hnd) h k
  have hfind := find?_cumulative hcps k
  have hs' : standing s' k = (((s'.meters.get? k).map UsageCheckpoint.reading).getD (0, 0)) := rfl
  rw [hs', hget, hflat, Option.map_or, hfind]
  cases deltas.find? fun d => d.identity.meter = k with
  | none => rfl
  | some d => rfl

theorem commitCounterUsage_outcome (sha256 : Multiset UsageCheckpoint → Digest) (source : String)
    (previous checkpoint : Counter)
    (hs : s.usage.Spooled history) (hfits : ∀ d ∈ deltas, d.identity.Fits) :
    (∃ s' history', commitCounterUsage sha256 source previous checkpoint deltas s = .ok s' ∧ s'.usage.Spooled history') ∨
      commitCounterUsage sha256 source previous checkpoint deltas s = .error .spoolFull ∨
      (∃ e, prepareCommit sha256 source previous checkpoint deltas s = .error e ∧
        commitCounterUsage sha256 source previous checkpoint deltas s = .error e) ∨
      maxUint64 < s.usage.sequence + deltas.length ∧
        commitCounterUsage sha256 source previous checkpoint deltas s = .error .usage := by
  unfold commitCounterUsage
  cases hprepare : prepareCommit sha256 source previous checkpoint deltas s with
  | error e => exact Or.inr (Or.inr (Or.inl ⟨e, rfl, rfl⟩))
  | ok outcome =>
    cases outcome with
    | none => exact Or.inl ⟨s, history, rfl, hs⟩
    | some outcome =>
      obtain ⟨cps, digest⟩ := outcome
      obtain ⟨hdigest, -, hcps⟩ := prepareCommit_eq_some hprepare
      obtain ⟨hcfits, hvalid, hle⟩ := cumulative_checkpoints hs.fits hfits hcps
      have hmap := meters_cumulative hcps
      have hflat := flatten_slices (n := 1024) (by decide) cps
      have hnd : (cps.map UsageCheckpoint.meter).Nodup := hmap ▸ nodup_of_deltaDigest hdigest
      have hlen : cps.length = deltas.length := by
        have hcount := congrArg List.length hmap
        simpa using hcount
      rw [← hflat] at hcfits hvalid hle hnd
      rw [ok_bind]
      show (∃ s' history', (appendSlices cps s.usage >>= _) = _ ∧ _) ∨ (appendSlices cps s.usage >>= _) = _ ∨
        (∃ e, _ ∧ (appendSlices cps s.usage >>= _) = _) ∨ _ ∧ (appendSlices cps s.usage >>= _) = _
      rcases appendAll hs (fun cs hcs => slices_bounds hcs) hvalid hcfits hnd hle with
        ⟨usage, history', hok, hs'⟩ | hfull | ⟨hmax, herr⟩
      · rw [show appendSlices cps s.usage = .ok usage from hok, ok_bind]
        exact Or.inl ⟨_, history', rfl, hs'⟩
      · rw [show appendSlices cps s.usage = .error .spoolFull from hfull, error_bind]
        exact Or.inr (Or.inl rfl)
      · rw [hflat, hlen] at hmax
        rw [show appendSlices cps s.usage = .error .usage from herr, error_bind]
        exact Or.inr (Or.inr (Or.inr ⟨hmax, rfl⟩))

namespace UsageOp

def check (sha256 : Multiset UsageCheckpoint → Digest) : UsageOp → CounterStore → Except NodeError Unit
  | append checkpoints, s => do
    let _ ← s.usage.checkAppend checkpoints
    return ()
  | commit source previous checkpoint deltas, s => do
    let _ ← prepareCommit sha256 source previous checkpoint deltas s
    return ()
  | pending limit, _ => refuse (limit < 1 ∨ limit > 128) .usage
  | acknowledge receipt, s => do
    refuse (receipt.accountedSequence > receipt.durableSequence) .usage
    refuse (receipt.durableSequence > s.usage.sequence) .usage
    refuse (receipt.durableSequence > s.usage.exposedUsage) .usage

def size : UsageOp → Nat
  | append checkpoints => checkpoints.length
  | commit _ _ _ deltas => deltas.length
  | pending _ => 0
  | acknowledge _ => 0

def Fits : UsageOp → Prop
  | append checkpoints => ∀ c ∈ checkpoints, c.Fits
  | commit _ _ _ deltas => ∀ d ∈ deltas, d.identity.Fits
  | pending _ => True
  | acknowledge _ => True

theorem outcome (sha256 : Multiset UsageCheckpoint → Digest)
    (hs : s.usage.Spooled history) (op : UsageOp) (hfits : op.Fits) :
    (∃ s' history', op.run sha256 s = .ok s' ∧ s'.usage.Spooled history') ∨
      ∃ e, op.run sha256 s = .error e ∧
        (e = .spoolFull ∨ op.check sha256 s = .error e ∨ maxUint64 < s.usage.sequence + op.size) := by
  cases op with
  | append cs =>
    simp only [run, check, size]
    rcases hs.appendUsage hfits with ⟨usage, history', -, hok, hs', -⟩ | hfull | ⟨e, hcheck, herr⟩ | ⟨hmax, herr⟩
    · exact Or.inl ⟨_, history', by rw [hok]; rfl, hs'⟩
    · exact Or.inr ⟨_, by rw [hfull]; rfl, Or.inl rfl⟩
    · exact Or.inr ⟨e, by rw [herr]; rfl, Or.inr (Or.inl (by rw [hcheck]; rfl))⟩
    · exact Or.inr ⟨_, by rw [herr]; rfl, Or.inr (Or.inr hmax)⟩
  | commit source previous checkpoint deltas =>
    simp only [run, check, size]
    rcases commitCounterUsage_outcome sha256 source previous checkpoint hs hfits with hok | hfull | ⟨e, hcheck, herr⟩ | ⟨hmax, herr⟩
    · exact Or.inl hok
    · exact Or.inr ⟨_, hfull, Or.inl rfl⟩
    · exact Or.inr ⟨e, herr, Or.inr (Or.inl (by rw [hcheck]; rfl))⟩
    · exact Or.inr ⟨_, herr, Or.inr (Or.inr hmax)⟩
  | pending limit =>
    simp only [run, check]
    by_cases hlimit : limit < 1 ∨ limit > 128
    · refine Or.inr ⟨.usage, ?_, Or.inr (Or.inl (refuse_of hlimit _))⟩
      rw [UsageStore.pendingUsage, refuse_of hlimit]
      rfl
    · obtain ⟨bs, usage, hok, hs'⟩ := hs.pendingUsage hlimit
      exact Or.inl ⟨_, history, by rw [hok]; rfl, hs'⟩
  | acknowledge r =>
    simp only [run, check]
    by_cases haccounted : r.accountedSequence > r.durableSequence
    · refine Or.inr ⟨.usage, ?_, Or.inr (Or.inl (by rw [refuse_of haccounted]; rfl))⟩
      rw [UsageStore.acknowledge, refuse_of haccounted]
      rfl
    by_cases hsequence : r.durableSequence > s.usage.sequence
    · refine Or.inr ⟨.usage, ?_, Or.inr (Or.inl (by rw [refuse_of_not haccounted, refuse_of hsequence]; rfl))⟩
      rw [UsageStore.acknowledge, refuse_of_not haccounted, refuse_of hsequence]
      rfl
    by_cases hexposed : r.durableSequence > s.usage.exposedUsage
    · refine Or.inr ⟨.usage, ?_, Or.inr (Or.inl ?_)⟩
      · rw [UsageStore.acknowledge, refuse_of_not haccounted, refuse_of_not hsequence, refuse_of hexposed]
        rfl
      · rw [refuse_of_not haccounted, refuse_of_not hsequence, refuse_of hexposed]
        rfl
    obtain ⟨usage, hok, hs'⟩ := hs.acknowledge haccounted hsequence hexposed
    exact Or.inl ⟨_, history, by rw [hok]; rfl, hs'⟩

end UsageOp

theorem spooled_of_open {nodeID installationID : String} (h : openStore nodeID installationID = .ok s) :
    s.usage.Spooled fun _ => [] := by
  simp only [openStore, bind_eq_ok, refuse_eq_ok, pure_eq_ok, not_or, Bool.not_eq_eq_eq_not, Bool.not_true, Bool.not_eq_false] at h
  obtain ⟨-, ⟨hnode, hinstallation⟩, rfl⟩ := h
  refine ⟨UsageStore.kept_new nodeID installationID,
    ⟨hnode, hinstallation, Nat.zero_le _, fun n e he => ?_, fun n e he => ?_, fun n b hb => ?_, fun k n hk => ?_⟩, rfl,
    fun k c hc => ?_⟩
  · simp at he
  · simp at he
  · simp [UsageStore.view] at hb
  · simp at hk
  · simp at hc

theorem spooled_step (sha256 : Multiset UsageCheckpoint → Digest) {op : UsageOp} (hfits : op.Fits)
    (hs : ∃ history, s.usage.Spooled history) : ∃ history, (op.step sha256 s).usage.Spooled history := by
  obtain ⟨history, hs⟩ := hs
  unfold UsageOp.step
  rcases UsageOp.outcome sha256 hs op hfits with ⟨s', history', hok, hs'⟩ | ⟨e, herr, -⟩
  · rw [hok]
    exact ⟨history', hs'⟩
  · rw [herr]
    exact ⟨history, hs⟩

theorem spooled_after (sha256 : Multiset UsageCheckpoint → Digest) {nodeID installationID : String}
    (h : openStore nodeID installationID = .ok s) {ops : List UsageOp} (hfits : ∀ op ∈ ops, op.Fits) :
    ∃ history, (after sha256 s ops).usage.Spooled history :=
  Run.inv_after_of_mem (I := fun s : CounterStore => ∃ history, s.usage.Spooled history) (fun _ op hop => spooled_step sha256 (hfits op hop))
    ⟨_, spooled_of_open h⟩

end CounterStore

structure UsageStore.Represented (s : UsageStore) : Prop where
  /-- the spool size is the sum of the encoded lengths -/
  bytes : s.spooledBytes = s.queue.total fun _ b => b.size
  /-- the queued numbers follow the acknowledged one without a gap -/
  numbers : ∀ n, (s.queue.get? n).isSome ↔ s.durableUsage < n ∧ n ≤ s.sequence
  /-- the index names a queued batch that has the meter -/
  indexed : ∀ k n, s.index.get? k = some n → s.exposedUsage < n →
    ∃ b, s.queue.get? n = some b ∧ ∃ c ∈ b.checkpoints, c.meter = k
  /-- a batch has a meter once -/
  once : ∀ n b, s.queue.get? n = some b → (b.checkpoints.map UsageCheckpoint.meter).Nodup
  /-- the readings of a meter do not fall along the queue -/
  rising : ∀ m n a b, m ≤ n → s.queue.get? m = some a → s.queue.get? n = some b →
    ∀ c ∈ a.checkpoints, ∀ d ∈ b.checkpoints, c.meter = d.meter → c.uploaded ≤ d.uploaded ∧ c.downloaded ≤ d.downloaded

namespace UsageStore

variable {s : UsageStore} {history : Nat → List UsageCheckpoint}

theorem find?_of_nodup (hnd : (cs.map UsageCheckpoint.meter).Nodup)
    (hc : c ∈ cs) : (cs.find? fun d => d.meter = c.meter) = some c := by
  cases hfind : cs.find? fun d => d.meter = c.meter with
  | none => simpa using List.find?_eq_none.mp hfind c hc
  | some d =>
    have hd : d.meter = c.meter := by simpa using List.find?_some hfind
    rw [inj_on_of_nodup_map hnd (mem_of_find?_eq_some hfind) hc hd]

theorem Spooled.reading_of_queued (hs : Spooled s history) {n : Nat} {b : UsageBatch}
    (hb : s.queue.get? n = some b) (hc : c ∈ b.checkpoints) : readings history n c.meter = some c.reading := by
  have hnd := (hs.sized.sound n b (by simpa [view] using hb)).nodup
  rw [hs.queue] at hb
  split at hb
  · cases hb
    exact congrArg (Option.map UsageCheckpoint.reading) (find?_of_nodup hnd hc)
  · cases hb

theorem Spooled.represented (hs : Spooled s history) : s.Represented := by
  have hview : ∀ n, s.view ⟨∅, s.index, s.sequence⟩ n = s.queue.get? n := fun n => by simp [view]
  have hnumbers : ∀ n, (s.queue.get? n).isSome ↔ s.durableUsage < n ∧ n ≤ s.sequence := by
    intro n
    rw [hs.queue]
    split
    · next hn => simp [hn]
    · next hn => simp [hn]
  have honce : ∀ n b, s.queue.get? n = some b → (b.checkpoints.map UsageCheckpoint.meter).Nodup :=
    fun n b hb => (hs.sized.sound n b ((hview n).trans hb)).nodup
  refine ⟨hs.bytes, hnumbers, fun k n hk hn => ?_, honce, fun m n a b hmn ha hb c hc d hd hcd => ?_⟩
  · obtain ⟨b, hb, hmem⟩ := hs.sized.indexed k n hk hn
    obtain ⟨c, hc, hck⟩ := mem_map.mp hmem
    exact ⟨b, (hview n).symm.trans hb, c, hc, hck⟩
  · have hrc := hs.reading_of_queued ha hc
    have hrd := hs.reading_of_queued hb hd
    rw [← hcd] at hrd
    have hpos : 0 < m := by
      have hin := (hnumbers m).mp (by rw [ha]; rfl)
      omega
    obtain ⟨m, rfl⟩ := Nat.exists_eq_add_of_le' hpos
    rcases Nat.eq_or_lt_of_le hmn with rfl | hlt
    · have he : c.reading = d.reading := Option.some.inj (hrc.symm.trans hrd)
      exact ⟨(congrArg Prod.fst he).le, (congrArg Prod.snd he).le⟩
    · obtain ⟨n, rfl⟩ := Nat.exists_eq_add_of_le' (Nat.lt_of_lt_of_le hpos hmn)
      have hlast : latest (readings history) c.meter (m + 1) = some c.reading := by rw [latest, hrc, Option.some_or]
      obtain ⟨r, hr, hle⟩ := latest_le hs.rising (show m + 1 ≤ n by omega) hlast
      have hle' := hle.trans (hs.rising c.meter n r d.reading hr hrd)
      exact ⟨hle'.1, hle'.2⟩

end UsageStore

/-- After every run of the store's transactions the queue's records are right, and whatever is asked next fails only
for a reason of the caller, for a full spool or for the end of the numbers; a full spool leaves the store as it is. -/
theorem CounterStore.represented_after {sha256 : Multiset UsageCheckpoint → Digest} {nodeID installationID : String}
    {s : CounterStore} (hopen : openStore nodeID installationID = .ok s) {ops : List UsageOp} (hops : ∀ op ∈ ops, op.Fits) :
    (after sha256 s ops).usage.Represented ∧
      ∀ op : UsageOp, op.Fits → ∀ e, op.run sha256 (after sha256 s ops) = .error e →
        (e = .spoolFull ∨ op.check sha256 (after sha256 s ops) = .error e ∨
          maxUint64 < (after sha256 s ops).usage.sequence + op.size) ∧
        (e = .spoolFull → op.step sha256 (after sha256 s ops) = after sha256 s ops) := by
  obtain ⟨history, hs⟩ := spooled_after sha256 hopen hops
  refine ⟨hs.represented, fun op hfits e herr => ⟨?_, fun _ => ?_⟩⟩
  · rcases op.outcome sha256 hs hfits with ⟨s', -, hok, -⟩ | ⟨e', herr', hwhy⟩
    · rw [hok] at herr
      cases herr
    · rw [herr] at herr'
      cases herr'
      exact hwhy
  · unfold UsageOp.step
    rw [herr]

namespace CounterStore.Sample

def node : String := "44444444-4444-4444-4444-444444444444"

def checkpoint (uploaded : Nat) : UsageCheckpoint := ⟨node, node, "edge", node, uploaded, 0, 1, node⟩

def store : CounterStore := ⟨{ nodeID := node, installationID := node }, ∅, ∅⟩

/-- A reading that grows stays in its batch until that is handed out. -/
def ops : List UsageOp :=
  [.append [checkpoint 3], .append [checkpoint 500], .pending 1, .append [checkpoint 700], .acknowledge ⟨1, 1⟩]

end CounterStore.Sample

theorem CounterStore.represented_after_acknowledgement :
    (∀ op ∈ Sample.ops, op.Fits) ∧ (after (fun _ => []) Sample.store Sample.ops).usage.queue.keys = [2] ∧
      (after (fun _ => []) Sample.store Sample.ops).usage.Represented := by
  have hopen : openStore Sample.node Sample.node = .ok Sample.store :=
    unit_bind_eq_ok.mpr ⟨refuse_eq_ok.mpr (by decide +kernel), rfl⟩
  have hc : ∀ n ≤ 700, (Sample.checkpoint n).Fits :=
    fun n hn => ⟨hn.trans (by decide), Nat.zero_le _, show (1 : Int) ≤ maxInt64 by decide⟩
  have hfits : ∀ op ∈ Sample.ops, op.Fits := by
    simp only [Sample.ops, forall_mem_cons, UsageOp.Fits, not_mem_nil, false_imp_iff, implies_true, and_true, true_and]
    exact ⟨hc 3 (by decide), hc 500 (by decide), hc 700 (by decide)⟩
  exact ⟨hfits, by decide +kernel, (represented_after hopen hfits).1⟩

end Pui
