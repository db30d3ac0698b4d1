import Pui.Spool

/-!
# What the usage queue keeps

The queue's history is the checkpoints of every batch that was ever numbered, in their present form.
-/

namespace Pui

open Guard Table Latest List Option

def readings (history : Nat → List UsageCheckpoint) (n : Nat) (k : MeterKey) : Option (Nat × Nat) :=
  ((history n).find? fun c => c.meter = k).map UsageCheckpoint.reading

namespace UsageStore

variable {c : UsageCheckpoint} {history : Nat → List UsageCheckpoint} {cs : List UsageCheckpoint}

def view (s : UsageStore) (w : UsageEdits) (n : Nat) : Option UsageBatch :=
  ((w.edits.get? n).map UsageEdit.batch).or (s.queue.get? n)

structure Spooling (s : UsageStore) (w : UsageEdits) (history : Nat → List UsageCheckpoint) : Prop where
  durable : s.durableUsage ≤ s.exposedUsage
  exposed : s.exposedUsage ≤ w.sequence
  batch : ∀ n, s.view w n =
    if s.durableUsage < n ∧ n ≤ w.sequence then some ⟨s.nodeID, s.installationID, n, history n⟩ else none
  beyond : ∀ n, w.sequence < n → history n = []
  rising : Rising (readings history)
  silent : ∀ k, Silent (readings history) k ((w.index.get? k).getD 0)

structure Queues (s : UsageStore) (c : UsageCheckpoint) (w w' : UsageEdits) (history history' : Nat → List UsageCheckpoint)
    (t : Nat) : Prop where
  fresh : s.exposedUsage < t
  bound : t ≤ w'.sequence
  frozen : ∀ n, n ≠ t → history' n = history n
  readings : readings history' = write (readings history) t c.meter c.reading
  silent : Silent (Pui.readings history) c.meter t
  sequence : w.sequence ≤ w'.sequence

theorem Queues.latest_of_ne {s : UsageStore} {w w' : UsageEdits}
    {history' : Nat → List UsageCheckpoint} {t : Nat} (hq : Queues s c w w' history history' t) {k : MeterKey}
    (hk : k ≠ c.meter) (n : Nat) : latest (Pui.readings history') k n = latest (Pui.readings history) k n := by
  rw [hq.readings]
  exact latest_write_of_ne hk _ n

theorem meterKey_eq_ok {k : MeterKey} (h : c.meterKey = .ok k) : k = c.meter := by
  simp only [UsageCheckpoint.meterKey, unit_bind_eq_ok, pure_eq_ok] at h
  exact h.2.symm

theorem find?_replaceCheckpoint {old : UsageCheckpoint} {cs' : List UsageCheckpoint}
    (h : replaceCheckpoint c cs = some (old, cs')) (k : MeterKey) :
    (cs'.find? fun d => d.meter = k) = if k = c.meter then some c else cs.find? fun d => d.meter = k := by
  induction cs generalizing cs' with
  | nil => cases h
  | cons d ds ih =>
    unfold replaceCheckpoint at h
    split at h
    · next hd =>
      cases h
      rw [List.find?_cons, List.find?_cons]
      by_cases hk : k = c.meter
      · simp [hk]
      · have hc : ¬c.meter = k := fun he => hk he.symm
        have hold : ¬old.meter = k := fun he => hk (he.symm.trans hd)
        simp [hk, hc, hold]
    · next hd =>
      obtain ⟨⟨old', ds'⟩, hrec, he⟩ := map_eq_some_iff.mp h
      cases he
      rw [List.find?_cons, List.find?_cons, ih hrec]
      by_cases hk : k = c.meter
      · subst hk
        simp [hd]
      · simp [hk]

theorem find?_append_checkpoint (h : (cs.find? fun d => d.meter = c.meter) = none) (k : MeterKey) :
    ((cs ++ [c]).find? fun d => d.meter = k) = if k = c.meter then some c else cs.find? fun d => d.meter = k := by
  rw [List.find?_append]
  by_cases hk : k = c.meter
  · subst hk
    simp [h]
  · have hc : ¬c.meter = k := fun he => hk he.symm
    simp [hk, hc]

theorem readings_update {t : Nat}
    (h : ∀ k, (cs.find? fun d => d.meter = k) = if k = c.meter then some c else (history t).find? fun d => d.meter = k) :
    readings (Function.update history t cs) = write (readings history) t c.meter c.reading := by
  funext n k
  unfold readings write
  by_cases hn : n = t
  · subst hn
    rw [Function.update_self, h]
    by_cases hk : k = c.meter
    · simp [hk]
    · simp [hk]
  · simp [hn]

section Step

variable {s : UsageStore} {w w' : UsageEdits} {history : Nat → List UsageCheckpoint}

theorem view_of_load {n : Nat} {edit : UsageEdit} (h : s.load w n = .ok edit) : s.view w n = some edit.batch := by
  unfold load at h
  unfold view
  split at h
  · next e he =>
    cases h
    simp [he]
  · next he =>
    simp only [bind_eq_ok, found_eq_ok, pure_eq_ok] at h
    obtain ⟨b, hb, -, -, -, -, rfl⟩ := h
    simp [he, hb]

theorem view_put (w : UsageEdits) (t n : Nat) (edit : UsageEdit) :
    s.view { w with edits := w.edits.put t edit } n = if n = t then some edit.batch else s.view w n := by
  unfold view
  by_cases hn : n = t
  · simp [hn]
  · simp [hn]

theorem Spooling.loaded {n : Nat} {edit : UsageEdit} (hs : Spooling s w history) (h : s.load w n = .ok edit) :
    Spooling s { w with edits := w.edits.put n edit } history := by
  refine { hs with batch := fun m => ?_ }
  rw [view_put]
  split
  · next hm =>
    rw [hm, ← view_of_load h]
    exact hs.batch n
  · exact hs.batch m

structure Tail (s : UsageStore) (w w' : UsageEdits) (history : Nat → List UsageCheckpoint) (tail : UsageEdit) : Prop where
  spooling : Spooling s { w' with edits := w'.edits.put tail.batch.sequence tail } history
  index : w'.index = w.index
  sequence : w.sequence ≤ w'.sequence
  last : tail.batch.sequence = w'.sequence
  fresh : s.exposedUsage < tail.batch.sequence
  batch : tail.batch = ⟨s.nodeID, s.installationID, tail.batch.sequence, history tail.batch.sequence⟩

theorem Spooling.newBatch {tail : UsageEdit} (hs : Spooling s w history) (h : s.newBatch w = .ok (tail, w')) :
    Tail s w w' history tail := by
  simp only [UsageStore.newBatch, bind_eq_ok, pure_eq_ok, Prod.mk.injEq] at h
  obtain ⟨-, -, rfl, rfl⟩ := h
  have hexposed := hs.exposed
  have hdurable := hs.durable
  have hempty := hs.beyond (w.sequence + 1) (Nat.lt_succ_self _)
  refine ⟨⟨hdurable, Nat.le_succ_of_le hexposed, fun n => ?_, fun n hn => hs.beyond n ?_, hs.rising, hs.silent⟩, rfl,
    Nat.le_succ _, rfl, Nat.lt_succ_of_le hexposed, by simp [hempty]⟩
  · rw [view_put]
    by_cases hn : n = w.sequence + 1
    · subst hn
      rw [if_pos rfl, if_pos ⟨by omega, le_rfl⟩, hempty]
    · have hview := hs.batch n
      have hsame : (s.durableUsage < n ∧ n ≤ w.sequence + 1) ↔ s.durableUsage < n ∧ n ≤ w.sequence := by omega
      rw [if_neg hn]
      simp only [hsame]
      exact hview
  · have hn' : w.sequence + 1 < n := hn
    omega

theorem Spooling.tailBatch {tail : UsageEdit} (hs : Spooling s w history)
    (h : s.tailBatch c w = .ok (tail, w')) : Tail s w w' history tail := by
  unfold UsageStore.tailBatch at h
  split at h
  · next hfresh =>
    obtain ⟨edit, hload, h⟩ := bind_eq_ok.mp h
    split at h
    · obtain ⟨hsp, hi, hsq, hl, hf, hb⟩ := (hs.loaded hload).newBatch h
      exact ⟨hsp, hi, hsq, hl, hf, hb⟩
    · simp only [pure_eq_ok, Prod.mk.injEq] at h
      obtain ⟨rfl, rfl⟩ := h
      have hview := view_of_load hload
      rw [hs.batch, if_pos ⟨Nat.lt_of_le_of_lt hs.durable hfresh, le_rfl⟩] at hview
      have hb := (Option.some.inj hview).symm
      have hn : edit.batch.sequence = w.sequence := by rw [hb]
      refine ⟨?_, rfl, le_rfl, hn, by rw [hn]; exact hfresh, by rw [hn]; exact hb⟩
      rw [hn]
      exact hs.loaded hload
  · exact hs.newBatch h

theorem Spooling.edited {t : Nat} {e : UsageEdit}
    (hs : Spooling s w history) (hfresh : s.exposedUsage < t) (hbound : t ≤ w.sequence)
    (he : e.batch = ⟨s.nodeID, s.installationID, t, cs⟩)
    (hfind : ∀ k, (cs.find? fun d => d.meter = k) = if k = c.meter then some c else (history t).find? fun d => d.meter = k)
    (hsilent : Silent (readings history) c.meter t)
    (habove : ∀ n r, latest (readings history) c.meter n = some r → r ≤ c.reading) :
    Spooling s { w with edits := w.edits.put t e, index := w.index.put c.meter t } (Function.update history t cs) := by
  have hwrite := readings_update hfind
  have hdurable := hs.durable
  refine ⟨hs.durable, hs.exposed, fun n => ?_, fun n hn => ?_, ?_, fun k => ?_⟩
  · have hput := view_put (s := s) w t n e
    refine Eq.trans hput ?_
    by_cases hn : n = t
    · subst hn
      rw [if_pos rfl, if_pos ⟨by omega, hbound⟩, Function.update_self, he]
    · rw [if_neg hn, Function.update_of_ne hn]
      exact hs.batch n
  · have hn' : w.sequence < n := hn
    have hne : n ≠ t := by omega
    rw [Function.update_of_ne hne]
    exact hs.beyond n hn'
  · rw [hwrite]
    exact rising_write hs.rising hsilent habove
  · rw [hwrite, get?_put]
    by_cases hk : k = c.meter
    · rw [if_pos hk, hk, getD_some]
      exact silent_write_self hsilent _
    · rw [if_neg hk]
      exact silent_write_of_ne hk _ (hs.silent k)

theorem Spooling.replaceUsage (hs : Spooling s w history)
    (habove : ∀ n r, latest (readings history) c.meter n = some r → r ≤ c.reading)
    (hfresh : s.exposedUsage < (w.index.get? c.meter).getD 0)
    (h : s.replaceUsage c ((w.index.get? c.meter).getD 0) w = .ok w') :
    ∃ history' t, Spooling s w' history' ∧ Queues s c w w' history history' t := by
  simp only [UsageStore.replaceUsage, bind_eq_ok, found_eq_ok, pure_eq_ok] at h
  obtain ⟨edit, hload, ⟨old, cs⟩, hreplace, -, -, rfl⟩ := h
  have hview := view_of_load hload
  rw [hs.batch] at hview
  split at hview
  · next hrange =>
    have hb := (Option.some.inj hview).symm
    rw [hb] at hreplace
    have hfind := find?_replaceCheckpoint hreplace
    have hnext := hs.edited (e := { edit with
        batch := { edit.batch with checkpoints := cs }, size := edit.size + checkpointSize c - checkpointSize old })
      hfresh hrange.2 (by simp [hb]) hfind (hs.silent c.meter) habove
    refine ⟨_, _, { hnext with silent := fun k => ?_, batch := hnext.batch }, hfresh, hrange.2,
      fun n hn => Function.update_of_ne hn _ _, readings_update hfind, hs.silent c.meter, le_rfl⟩
    -- the index already names this batch
    have hsil := hnext.silent k
    rw [get?_put] at hsil
    by_cases hk : k = c.meter
    · rw [if_pos hk, hk] at hsil
      rw [hk]
      exact hsil
    · rw [if_neg hk] at hsil
      exact hsil
  · cases hview

theorem Spooling.appendTail (hs : Spooling s w history)
    (habove : ∀ n r, latest (readings history) c.meter n = some r → r ≤ c.reading)
    (hold : (w.index.get? c.meter).getD 0 ≤ s.exposedUsage) (h : s.appendTail c w = .ok w') :
    ∃ history' t, Spooling s w' history' ∧ Queues s c w w' history history' t := by
  simp only [UsageStore.appendTail, bind_eq_ok, pure_eq_ok] at h
  obtain ⟨⟨tail, u⟩, htail, rfl⟩ := h
  obtain ⟨hsp, hindex, hseq, hlast, hfresh, hbatch⟩ := hs.tailBatch htail
  have hlt : (w.index.get? c.meter).getD 0 < tail.batch.sequence := Nat.lt_of_le_of_lt hold hfresh
  have hsil : Silent (readings history) c.meter tail.batch.sequence := (hs.silent c.meter).mono hlt.le
  have habsent : ((history tail.batch.sequence).find? fun d => d.meter = c.meter) = none := by
    have hnone := hs.silent c.meter _ hlt
    unfold readings at hnone
    exact map_eq_none_iff.mp hnone
  have hfind := find?_append_checkpoint habsent
  have hnext := hsp.edited (e := { tail with
      batch := { tail.batch with checkpoints := tail.batch.checkpoints ++ [c] }, size := tail.size + checkpointSize c })
    hfresh hlast.le (by rw [hbatch]) hfind hsil habove
  refine ⟨_, _, { hnext with batch := fun n => ?_ }, hfresh, hlast.le, fun n hn => Function.update_of_ne hn _ _,
    readings_update hfind, hsil, hseq⟩
  rw [← hnext.batch n]
  simp only [view, get?_put]
  split <;> rfl

theorem Spooling.queueCheckpoint (hs : Spooling s w history)
    (habove : ∀ n r, latest (readings history) c.meter n = some r → r ≤ c.reading) (h : s.queueCheckpoint c w = .ok w') :
    ∃ history' t, Spooling s w' history' ∧ Queues s c w w' history history' t := by
  unfold UsageStore.queueCheckpoint at h
  obtain ⟨k, hk, h⟩ := bind_eq_ok.mp h
  obtain rfl := meterKey_eq_ok hk
  split at h
  · next hfresh => exact hs.replaceUsage habove hfresh h
  · next hold => exact hs.appendTail habove (Nat.le_of_not_lt hold) h

theorem Spooling.silent_sequence (hs : Spooling s w history) (k : MeterKey) : Silent (readings history) k w.sequence := by
  intro n hn
  simp [readings, hs.beyond n hn]

theorem Spooling.queueCheckpoints (hs : Spooling s w history)
    (hnd : (cs.map UsageCheckpoint.meter).Nodup)
    (habove : ∀ c ∈ cs, ∀ n r, latest (readings history) c.meter n = some r → r ≤ c.reading)
    (h : s.queueCheckpoints cs w = .ok w') :
    ∃ history', Spooling s w' history' ∧ w.sequence ≤ w'.sequence ∧ (∀ n ≤ s.exposedUsage, history' n = history n) ∧
      ∀ k, latest (readings history') k w'.sequence =
        ((cs.find? fun c => c.meter = k).map UsageCheckpoint.reading).or (latest (readings history) k w.sequence) := by
  induction cs generalizing w history with
  | nil =>
    cases h
    exact ⟨history, hs, le_rfl, fun _ _ => rfl, fun _ => rfl⟩
  | cons c cs ih =>
    obtain ⟨u, hu, h⟩ := bind_eq_ok.mp h
    obtain ⟨hc, hnd⟩ := nodup_cons.mp hnd
    obtain ⟨mid, t, hmid, hq⟩ := hs.queueCheckpoint (habove c mem_cons_self) hu
    obtain ⟨history', hs', hseq, hfrozen, hlatest⟩ := ih hmid hnd
      (fun d hd n r hr => by
        have hne : d.meter ≠ c.meter := fun he => hc (he ▸ mem_map_of_mem hd)
        rw [hq.latest_of_ne hne] at hr
        exact habove d (mem_cons_of_mem _ hd) n r hr) h
    refine ⟨history', hs', hq.sequence.trans hseq, fun n hn => ?_, fun k => ?_⟩
    · have hfresh := hq.fresh
      rw [hfrozen n hn, hq.frozen n (by omega)]
    · rw [hlatest, List.find?_cons]
      by_cases hk : c.meter = k
      · subst hk
        have hnone : (cs.find? fun d => d.meter = c.meter) = none :=
          List.find?_eq_none.mpr fun d hd he => hc ((of_decide_eq_true he) ▸ mem_map_of_mem hd)
        have hfresh := hq.fresh
        rw [hnone, hq.readings, latest_write_self (by omega) hq.bound hq.silent]
        simp
      · rw [hq.latest_of_ne (fun he => hk he.symm), latest_of_silent (hs.silent_sequence k) hq.sequence]
        simp [hk]

end Step

structure Kept (s : UsageStore) (history : Nat → List UsageCheckpoint) : Prop extends
    Spooling s ⟨∅, s.index, s.sequence⟩ history where
  meters : ∀ k, (s.meters.get? k).map UsageCheckpoint.reading = latest (readings history) k s.sequence

variable {s s' : UsageStore} {history : Nat → List UsageCheckpoint}

def batchAt (s : UsageStore) (history : Nat → List UsageCheckpoint) (n : Nat) : UsageBatch :=
  ⟨s.nodeID, s.installationID, n, history n⟩

theorem Kept.queue (h : Kept s history) (n : Nat) :
    s.queue.get? n = if s.durableUsage < n ∧ n ≤ s.sequence then some (s.batchAt history n) else none := by
  have hb := h.batch n
  simpa [view, batchAt] using hb

theorem kept_new (nodeID installationID : String) :
    Kept { nodeID := nodeID, installationID := installationID } fun _ => [] := by
  refine ⟨⟨le_rfl, le_rfl, fun n => ?_, fun _ _ => rfl, fun _ _ _ _ _ h => (nomatch h), fun _ _ _ => rfl⟩, fun _ => rfl⟩
  rw [if_neg fun h => absurd (lt_of_lt_of_le h.1 h.2) (lt_irrefl 0)]
  rfl

theorem readMeters_eq_ok {seen : List MeterKey} {meters meters' : Table MeterKey UsageCheckpoint}
    (h : readMeters cs seen meters = .ok meters') :
    (cs.map UsageCheckpoint.meter).Nodup ∧ (∀ c ∈ cs, c.meter ∉ seen) ∧
      (∀ c ∈ cs, ∀ old, meters.get? c.meter = some old → old.reading ≤ c.reading) ∧
      ∀ k, meters'.get? k = (cs.find? fun c => c.meter = k).or (meters.get? k) := by
  induction cs generalizing seen meters with
  | nil =>
    cases h
    simp
  | cons c cs ih =>
    simp only [readMeters, bind_eq_ok, refuse_eq_ok] at h
    obtain ⟨k, hk, -, hseen, -, hold, h⟩ := h
    obtain rfl := meterKey_eq_ok hk
    obtain ⟨hnd, hfresh, hle, hget⟩ := ih h
    have hne : ∀ d ∈ cs, d.meter ≠ c.meter := fun d hd he => hfresh d hd (he ▸ mem_cons_self)
    refine ⟨?_, ?_, ?_, fun k => ?_⟩
    · rw [map_cons, nodup_cons]
      refine ⟨fun hm => ?_, hnd⟩
      obtain ⟨d, hd, he⟩ := mem_map.mp hm
      exact hne d hd he
    · rw [forall_mem_cons]
      exact ⟨hseen, fun d hd hm => hfresh d hd (mem_cons_of_mem _ hm)⟩
    · rw [forall_mem_cons]
      refine ⟨fun old ho => ?_, fun d hd old ho => hle d hd old ?_⟩
      · rw [ho] at hold
        simp only [any_some, Bool.or_eq_true, decide_eq_true_eq, not_or, Nat.not_lt] at hold
        exact ⟨hold.1, hold.2⟩
      · rw [get?_put_of_ne (hne d hd)]
        exact ho
    · rw [hget, List.find?_cons, get?_put]
      by_cases hkc : c.meter = k
      · subst hkc
        have hnone : (cs.find? fun d => d.meter = c.meter) = none :=
          List.find?_eq_none.mpr fun d hd he => hne d hd (of_decide_eq_true he)
        simp [hnone]
      · have hkc' : ¬k = c.meter := fun he => hkc he.symm
        simp [hkc, hkc']

theorem Kept.above (hs : Kept s history)
    (hle : ∀ c ∈ cs, ∀ old, s.meters.get? c.meter = some old → old.reading ≤ c.reading) :
    ∀ c ∈ cs, ∀ n r, latest (readings history) c.meter n = some r → r ≤ c.reading := by
  intro c hc n r hr
  -- the stored reading is the last one, so it is above the one up to `n`
  obtain ⟨r', hr', hrr'⟩ := latest_le hs.rising (Nat.le_max_left n s.sequence) hr
  rw [latest_of_silent (hs.silent_sequence c.meter) (Nat.le_max_right _ _), ← hs.meters] at hr'
  obtain ⟨old, hold, rfl⟩ := map_eq_some_iff.mp hr'
  exact hrr'.trans (hle c hc old hold)

theorem Kept.appendUsage (hs : Kept s history) (h : s.appendUsage cs = .ok s') :
    ∃ history', Kept s' history' ∧ (∀ n ≤ s.exposedUsage, history' n = history n) ∧ s.sequence ≤ s'.sequence ∧
      s'.nodeID = s.nodeID ∧ s'.installationID = s.installationID ∧ s'.exposedUsage = s.exposedUsage ∧
      s'.durableUsage = s.durableUsage := by
  simp only [UsageStore.appendUsage, queueUsage, bind_eq_ok, pure_eq_ok] at h
  obtain ⟨-, -, meters, hmeters, w, hw, -, -, -, -, -, -, -, -, rfl⟩ := h
  obtain ⟨hnd, -, hle, hget⟩ := readMeters_eq_ok hmeters
  have hstart : Spooling { s with meters := meters } ⟨∅, s.index, s.sequence⟩ history :=
    ⟨hs.durable, hs.exposed, hs.batch, hs.beyond, hs.rising, hs.silent⟩
  obtain ⟨history', hs', hseq, hfrozen, hlatest⟩ := hstart.queueCheckpoints hnd (hs.above hle) hw
  refine ⟨history', ⟨⟨hs'.durable, hs'.exposed, fun n => ?_, hs'.beyond, hs'.rising, hs'.silent⟩, fun k => ?_⟩,
    hfrozen, hseq, rfl, rfl, rfl, rfl⟩
  · rw [← hs'.batch n]
    simp [view, get?_overlay, get?_mapRows]
  · show (meters.get? k).map UsageCheckpoint.reading = latest (readings history') k w.sequence
    rw [hlatest, hget, ← hs.meters, map_or]

theorem Kept.numbers (hs : Kept s history) :
    s.numbers = List.range' (s.durableUsage + 1) (s.sequence - s.durableUsage) := by
  have hmem : ∀ n, n ∈ s.queue.keys ↔ n ∈ List.range' (s.durableUsage + 1) (s.sequence - s.durableUsage) := by
    intro n
    rw [← AList.mem_keys, ← AList.lookup_isSome, mem_range'_1]
    show (s.queue.get? n).isSome = true ↔ _
    have hexposed := hs.exposed
    have hdurable := hs.durable
    have hseq : s.durableUsage ≤ s.sequence := hdurable.trans hexposed
    rw [hs.queue]
    split
    · simp; omega
    · simp; omega
  have hperm : s.queue.keys.Perm (List.range' (s.durableUsage + 1) (s.sequence - s.durableUsage)) :=
    (perm_ext_iff_of_nodup s.queue.nodupKeys nodup_range').mpr hmem
  have hsorted : s.numbers.Pairwise (· ≤ ·) := by
    refine (pairwise_mergeSort (fun a b c hab hbc => ?_) (fun a b => ?_) s.queue.keys).imp of_decide_eq_true
    · exact decide_eq_true ((of_decide_eq_true hab).trans (of_decide_eq_true hbc))
    · simpa using le_total a b
  exact ((mergeSort_perm _ _).trans hperm).eq_of_pairwise (fun a b _ _ hab hba => le_antisymm hab hba) hsorted
    pairwise_le_range'

theorem Kept.readQueue {ns : List Nat} {bs : List UsageBatch} (hs : Kept s history) (h : s.readQueue ns = .ok bs) :
    bs = ns.map (s.batchAt history) := by
  induction ns generalizing bs with
  | nil =>
    cases h
    rfl
  | cons n ns ih =>
    simp only [UsageStore.readQueue, bind_eq_ok, found_eq_ok, pure_eq_ok] at h
    obtain ⟨b, hb, -, -, bs', hbs', rfl⟩ := h
    rw [hs.queue] at hb
    split at hb
    · cases hb
      rw [ih hbs', map_cons]
    · cases hb

theorem Kept.pendingUsage {limit : Nat} {bs : List UsageBatch} (hs : Kept s history)
    (h : s.pendingUsage limit = .ok (bs, s')) :
    Kept s' history ∧ s.exposedUsage ≤ s'.exposedUsage ∧ s'.durableUsage = s.durableUsage ∧ s'.sequence = s.sequence ∧
      s'.nodeID = s.nodeID ∧ s'.installationID = s.installationID ∧ s'.meters = s.meters ∧ s'.queue = s.queue ∧
      ∃ len, bs = (List.range' (s.durableUsage + 1) len).map (s.batchAt history) ∧ s.durableUsage + len ≤ s'.exposedUsage := by
  simp only [UsageStore.pendingUsage, bind_eq_ok] at h
  obtain ⟨-, -, batches, hread, h⟩ := h
  have hbs := hs.readQueue hread
  rw [hs.numbers, range'_eq_map_range, ← map_take, take_range, ← range'_eq_map_range] at hbs
  have hdurable := hs.durable
  have hexposed : s.exposedUsage ≤ s.sequence := hs.exposed
  cases hlast : batches.getLast? with
  | none =>
    rw [hlast] at h
    cases h
    exact ⟨hs, le_rfl, rfl, rfl, rfl, rfl, rfl, rfl, 0, rfl, by simpa using hdurable⟩
  | some last =>
    rw [hlast] at h
    cases h
    have hlen : last.sequence = s.durableUsage + min limit (s.sequence - s.durableUsage) ∧
        0 < min limit (s.sequence - s.durableUsage) := by
      generalize min limit (s.sequence - s.durableUsage) = len at hbs ⊢
      cases len with
      | zero => simp [hbs] at hlast
      | succ len =>
        rw [hbs, range'_concat] at hlast
        simp only [map_append, map_cons, map_nil, List.getLast?_append, List.getLast?_singleton,
          some_or, Option.some.injEq] at hlast
        rw [← hlast]
        exact ⟨by simp only [batchAt]; omega, Nat.succ_pos _⟩
    have hmin : min limit (s.sequence - s.durableUsage) ≤ s.sequence - s.durableUsage := Nat.min_le_right _ _
    refine ⟨⟨⟨?_, ?_, hs.batch, hs.beyond, hs.rising, hs.silent⟩, hs.meters⟩, Nat.le_max_left _ _, rfl, rfl, rfl, rfl,
      rfl, rfl, _, hbs, ?_⟩
    · exact hdurable.trans (Nat.le_max_left _ _)
    · refine max_le hexposed ?_
      show last.sequence ≤ s.sequence
      omega
    · show _ ≤ max s.exposedUsage last.sequence
      omega

theorem Kept.acknowledge {r : UsageReceipt} (hs : Kept s history) (h : s.acknowledge r = .ok s') :
    Kept s' history ∧ s'.exposedUsage = s.exposedUsage ∧ s'.durableUsage = max r.durableSequence s.durableUsage ∧
      s'.sequence = s.sequence ∧ s'.nodeID = s.nodeID ∧ s'.installationID = s.installationID ∧ s'.meters = s.meters := by
  simp only [UsageStore.acknowledge, unit_bind_eq_ok, refuse_eq_ok, pure_eq_ok, not_lt] at h
  obtain ⟨-, -, hexposed, -, rfl⟩ := h
  refine ⟨⟨⟨max_le hexposed hs.durable, hs.exposed, fun n => ?_, hs.beyond, hs.rising, hs.silent⟩, hs.meters⟩,
    rfl, rfl, rfl, rfl, rfl, rfl⟩
  simp only [view, get?_empty, map_none, none_or, get?_keep, hs.queue]
  by_cases hle : n ≤ max r.durableSequence s.durableUsage
  · rw [if_neg fun h : _ ∧ _ => absurd hle (Nat.not_le.mpr h.1)]
    split <;> simp [Option.filter, hle]
  · have hrange : (s.durableUsage < n ∧ n ≤ s.sequence) ↔
        max r.durableSequence s.durableUsage < n ∧ n ≤ s.sequence := by omega
    simp only [hrange]
    split <;> simp [Option.filter, hle, batchAt]

end UsageStore

end Pui
