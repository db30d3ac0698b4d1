import Mathlib.Algebra.Order.BigOperators.Group.List
import Pui.CounterStore
import Pui.SpoolRuns

/-!
# The bytes of the usage queue

The spool size is the sum of the batches' encoded lengths, the index names a queued batch that has the meter, and no
batch outgrows its bound.
-/

namespace Pui

open Guard Table List

variable {n : Nat} {c : UsageCheckpoint} {cs : List UsageCheckpoint} {b : UsageBatch} {tail : UsageEdit} {w : UsageEdits}

theorem sizeVarint_le {k : Nat} (h : n < 2 ^ (7 * (k + 1))) : sizeVarint n ≤ k + 1 := by
  unfold sizeVarint
  by_cases hn : n = 0
  · subst hn
    simp
  · have hlog : n.log2 < 7 * (k + 1) := (Nat.log2_lt hn).mpr h
    omega

theorem sizeUint64_le (h : n ≤ maxUint64) : sizeUint64 n ≤ 11 := by
  unfold sizeUint64
  have hv : sizeVarint n ≤ 9 + 1 := sizeVarint_le (lt_of_le_of_lt h (by decide))
  split
  · omega
  · omega

structure UsageCheckpoint.Fits (c : UsageCheckpoint) : Prop where
  uploaded : c.uploaded ≤ maxUint64
  downloaded : c.downloaded ≤ maxUint64
  observed : c.observedUnixMilli ≤ maxInt64

def MeterKey.size (k : MeterKey) : Nat :=
  sizeString k.clientID + sizeString k.termID + sizeString k.meterID + sizeString k.meterIncarnation +
    sizeString k.grantID

theorem UsageCheckpoint.size_eq (c : UsageCheckpoint) :
    c.size = c.meter.size + sizeUint64 c.uploaded + sizeUint64 c.downloaded + sizeInt64 c.observedUnixMilli := by
  simp only [UsageCheckpoint.size, UsageCheckpoint.meter, MeterKey.size]
  omega

theorem UsageCheckpoint.meter_size_le (c : UsageCheckpoint) : c.meter.size ≤ checkpointSize c := by
  have hsize := c.size_eq
  unfold checkpointSize sizeBytes
  omega

theorem meterKey_ok_iff : c.meterKey = .ok c.meter ↔
    validID c.grantID ∧ validID c.clientID ∧ validID c.termID ∧ validID c.meterIncarnation ∧ c.meterID ≠ "" ∧
      c.meterID.utf8ByteSize ≤ 128 ∧ 0 < c.observedUnixMilli ∧ c.size ≤ 4096 := by
  unfold UsageCheckpoint.meterKey
  rw [unit_bind_eq_ok, refuse_eq_ok, pure_eq_ok]
  simp only [not_or, not_le, not_lt, and_true, ne_eq, gt_iff_lt, Bool.not_eq_eq_eq_not, Bool.not_true, Bool.not_eq_false]

theorem sizeString_of_validID {id : String} (h : validID id = true) : sizeString id = 38 := by
  have hbytes := utf8ByteSize_of_validID h
  have hne : id ≠ "" := by
    rintro rfl
    exact absurd hbytes (by decide)
  rw [sizeString, if_neg hne, hbytes]
  decide

theorem meter_size_bounds (h : c.meterKey = .ok c.meter) :
    152 ≤ c.meter.size ∧ c.meter.size ≤ 283 := by
  obtain ⟨hg, hc, ht, hi, hm, hlen, -, -⟩ := meterKey_ok_iff.mp h
  have hname : sizeString c.meterID ≤ 131 := by
    have hv : sizeVarint c.meterID.utf8ByteSize ≤ 1 + 1 := sizeVarint_le (lt_of_le_of_lt hlen (by decide))
    unfold sizeString sizeBytes
    split
    · omega
    · omega
  simp only [MeterKey.size, UsageCheckpoint.meter, sizeString_of_validID hg, sizeString_of_validID hc,
    sizeString_of_validID ht, sizeString_of_validID hi]
  omega

theorem UsageCheckpoint.size_le (hfits : c.Fits) (hpos : 0 < c.observedUnixMilli) :
    c.size ≤ c.meter.size + 32 := by
  have hup := sizeUint64_le hfits.uploaded
  have hdown := sizeUint64_le hfits.downloaded
  have hseen : sizeInt64 c.observedUnixMilli ≤ 10 := by
    have hobs := hfits.observed
    have hbound : c.observedUnixMilli.toNat < 2 ^ (7 * (8 + 1)) := by
      simp only [maxInt64] at hobs
      omega
    have hv := sizeVarint_le hbound
    unfold sizeInt64 sizeUint64
    split
    · omega
    · split
      · omega
      · omega
  have heq := c.size_eq
  omega

theorem checkpointSize_le (h : c.meterKey = .ok c.meter) (hfits : c.Fits) :
    checkpointSize c ≤ c.meter.size + 35 := by
  obtain ⟨-, -, -, -, -, -, hpos, hsize⟩ := meterKey_ok_iff.mp h
  have hv : sizeVarint c.size ≤ 1 + 1 := sizeVarint_le (lt_of_le_of_lt hsize (by decide))
  have hle := UsageCheckpoint.size_le hfits hpos
  unfold checkpointSize sizeBytes
  omega

def UsageBatch.head (b : UsageBatch) : Nat := sizeString b.nodeID + sizeString b.installationID + sizeUint64 b.sequence

theorem UsageBatch.size_eq (b : UsageBatch) : b.size = b.head + (b.checkpoints.map checkpointSize).sum := rfl

structure UsageBatch.Sound (b : UsageBatch) : Prop where
  valid : ∀ c ∈ b.checkpoints, c.meterKey = .ok c.meter
  fits : ∀ c ∈ b.checkpoints, c.Fits
  nodup : (b.checkpoints.map UsageCheckpoint.meter).Nodup
  bound : b.size ≤ maxBatchBytes
  half : b.checkpoints.length ≤ 1 ∨ b.head + (b.checkpoints.map fun c => c.meter.size).sum ≤ maxBatchBytes / 2

theorem sum_meter_size_le (cs : List UsageCheckpoint) :
    (cs.map fun c => c.meter.size).sum ≤ (cs.map checkpointSize).sum :=
  sum_le_sum fun c _ => c.meter_size_le

theorem sum_checkpointSize_le (hvalid : ∀ c ∈ cs, c.meterKey = .ok c.meter)
    (hfits : ∀ c ∈ cs, c.Fits) :
    (cs.map checkpointSize).sum ≤ (cs.map fun c => c.meter.size).sum + 35 * cs.length ∧
      152 * cs.length ≤ (cs.map fun c => c.meter.size).sum := by
  induction cs with
  | nil => simp
  | cons c cs ih =>
    obtain ⟨hsum, hmany⟩ := ih (fun d hd => hvalid d (mem_cons_of_mem c hd)) fun d hd => hfits d (mem_cons_of_mem c hd)
    have hc := checkpointSize_le (hvalid c mem_cons_self) (hfits c mem_cons_self)
    have hm := (meter_size_bounds (hvalid c mem_cons_self)).1
    simp only [map_cons, sum_cons, length_cons]
    omega

theorem UsageBatch.size_le_of_half (hvalid : ∀ c ∈ b.checkpoints, c.meterKey = .ok c.meter)
    (hfits : ∀ c ∈ b.checkpoints, c.Fits)
    (hhalf : b.head + (b.checkpoints.map fun c => c.meter.size).sum ≤ maxBatchBytes / 2) : b.size ≤ maxBatchBytes := by
  obtain ⟨hsum, hmany⟩ := sum_checkpointSize_le hvalid hfits
  rw [b.size_eq]
  simp only [maxBatchBytes] at hhalf ⊢
  omega

structure UsageBatch.Named (b : UsageBatch) : Prop where
  nodeID : validID b.nodeID = true
  installationID : validID b.installationID = true
  sequence : b.sequence ≤ maxUint64

theorem UsageBatch.Named.head_le (h : b.Named) : b.head ≤ 87 := by
  have hseq := sizeUint64_le h.sequence
  rw [UsageBatch.head, sizeString_of_validID h.nodeID, sizeString_of_validID h.installationID]
  omega

theorem UsageBatch.Named.sound_singleton (h : b.Named)
    (hvalid : c.meterKey = .ok c.meter) (hfits : c.Fits) : UsageBatch.Sound { b with checkpoints := [c] } where
  valid := by simpa using hvalid
  fits := by simpa using hfits
  nodup := nodup_singleton _
  bound := by
    have hhead := h.head_le
    have hc := checkpointSize_le hvalid hfits
    have hm := (meter_size_bounds hvalid).2
    rw [UsageBatch.size_eq]
    simp only [UsageBatch.head, map_cons, map_nil, sum_cons, sum_nil, maxBatchBytes] at hhead ⊢
    omega
  half := Or.inl le_rfl

theorem UsageBatch.Sound.append (h : b.Sound) (hvalid : c.meterKey = .ok c.meter)
    (hfits : c.Fits) (hnew : c.meter ∉ b.checkpoints.map UsageCheckpoint.meter)
    (hroom : b.size + checkpointSize c ≤ maxBatchBytes / 2) :
    UsageBatch.Sound { b with checkpoints := b.checkpoints ++ [c] } := by
  have hsize : UsageBatch.size { b with checkpoints := b.checkpoints ++ [c] } = b.size + checkpointSize c := by
    rw [UsageBatch.size_eq, UsageBatch.size_eq, map_append, sum_append]
    simp [UsageBatch.head, Nat.add_assoc]
  have hall : ∀ {P : UsageCheckpoint → Prop}, (∀ d ∈ b.checkpoints, P d) → P c → ∀ d ∈ b.checkpoints ++ [c], P d := by
    intro P hb hc d hd
    rcases mem_append.mp hd with hd | hd
    · exact hb d hd
    · rw [mem_singleton.mp hd]
      exact hc
  refine ⟨hall h.valid hvalid, hall h.fits hfits, ?_, ?_, Or.inr ?_⟩
  · rw [map_append, nodup_append]
    refine ⟨h.nodup, nodup_singleton _, fun k hk k' hk' he => hnew ?_⟩
    rw [← mem_singleton.mp hk', ← he]
    exact hk
  · rw [hsize]
    exact hroom.trans (by decide)
  · rw [← hsize, UsageBatch.size_eq] at hroom
    exact le_trans (Nat.add_le_add_left (sum_meter_size_le _) _) hroom

theorem UsageBatch.Sound.replace {old : UsageCheckpoint} {ds es : List UsageCheckpoint} (h : b.Sound)
    (hnamed : b.Named) (hvalid : c.meterKey = .ok c.meter) (hfits : c.Fits) (hsplit : b.checkpoints = ds ++ old :: es)
    (hmeter : old.meter = c.meter) : UsageBatch.Sound { b with checkpoints := ds ++ c :: es } := by
  have hall : ∀ {P : UsageCheckpoint → Prop}, (∀ d ∈ b.checkpoints, P d) → P c → ∀ d ∈ ds ++ c :: es, P d := by
    intro P hb hc d hd
    rw [hsplit] at hb
    rcases mem_append.mp hd with hd | hd
    · exact hb d (mem_append_left _ hd)
    · rcases mem_cons.mp hd with rfl | hd
      · exact hc
      · exact hb d (mem_append_right _ (mem_cons_of_mem _ hd))
  have hmap : ∀ {α : Type} (f : UsageCheckpoint → α), f old = f c → (ds ++ c :: es).map f = b.checkpoints.map f := by
    intro α f hf
    simp [hsplit, hf]
  have hnames := hmap (fun d => d.meter.size) (by rw [hmeter])
  by_cases hone : b.checkpoints.length ≤ 1
  · -- the replaced checkpoint is the only one
    have hlen : ds.length + (es.length + 1) ≤ 1 := by simpa [hsplit] using hone
    obtain rfl : ds = [] := length_eq_zero_iff.mp (by omega)
    obtain rfl : es = [] := length_eq_zero_iff.mp (by omega)
    exact hnamed.sound_singleton hvalid hfits
  · have hhalf := h.half.resolve_left hone
    rw [← hnames] at hhalf
    refine ⟨hall h.valid hvalid, hall h.fits hfits, ?_, ?_, Or.inr hhalf⟩
    · rw [hmap UsageCheckpoint.meter hmeter]
      exact h.nodup
    · exact UsageBatch.size_le_of_half (hall h.valid hvalid) (hall h.fits hfits) hhalf

def UsageEdit.add (tail : UsageEdit) (c : UsageCheckpoint) : UsageEdit :=
  { tail with batch := { tail.batch with checkpoints := tail.batch.checkpoints ++ [c] }, size := tail.size + checkpointSize c }

theorem UsageEdit.size_add (h : tail.size = tail.batch.size) (c : UsageCheckpoint) :
    (tail.add c).size = (tail.add c).batch.size := by
  rw [UsageEdit.add, UsageBatch.size_eq, h, UsageBatch.size_eq]
  simp only [UsageBatch.head, map_append, sum_append, map_cons, map_nil, sum_cons, sum_nil]
  omega

def UsageEdits.add (w : UsageEdits) (tail : UsageEdit) (c : UsageCheckpoint) : UsageEdits :=
  { w with
    edits := w.edits.put tail.batch.sequence (tail.add c), index := w.index.put c.meter tail.batch.sequence }

theorem UsageEdits.index_add {k : MeterKey} {m : Nat}
    (h : (w.add tail c).index.get? k = some m) :
    w.index.get? k = some m ∨ m = tail.batch.sequence ∧ k ∈ (tail.add c).batch.checkpoints.map UsageCheckpoint.meter := by
  simp only [UsageEdits.add, get?_put] at h
  split at h
  · next hk =>
    cases h
    refine Or.inr ⟨rfl, ?_⟩
    simp [UsageEdit.add, hk]
  · exact Or.inl h

namespace UsageStore

theorem replaceCheckpoint_eq_some {old : UsageCheckpoint} {cs' : List UsageCheckpoint}
    (h : replaceCheckpoint c cs = some (old, cs')) :
    ∃ ds es, cs = ds ++ old :: es ∧ cs' = ds ++ c :: es ∧ old.meter = c.meter := by
  induction cs generalizing cs' with
  | nil => cases h
  | cons d cs ih =>
    unfold replaceCheckpoint at h
    split at h
    · next hd =>
      cases h
      exact ⟨[], cs, rfl, rfl, hd⟩
    · obtain ⟨⟨old', cs''⟩, hrec, he⟩ := Option.map_eq_some_iff.mp h
      cases he
      obtain ⟨ds, es, hcs, hcs', hmeter⟩ := ih hrec
      exact ⟨d :: ds, es, by rw [hcs]; rfl, by rw [hcs']; rfl, hmeter⟩

theorem exists_replaceCheckpoint (h : c.meter ∈ cs.map UsageCheckpoint.meter) : ∃ old cs', replaceCheckpoint c cs = some (old, cs') := by
  induction cs with
  | nil => cases h
  | cons d cs ih =>
    unfold replaceCheckpoint
    by_cases hd : d.meter = c.meter
    · rw [if_pos hd]
      exact ⟨_, _, rfl⟩
    · obtain ⟨old, cs', hrec⟩ := ih ((mem_cons.mp h).resolve_left fun he => hd he.symm)
      rw [if_neg hd, hrec]
      exact ⟨_, _, rfl⟩

theorem checkBatch_eq_ok (hvalid : ∀ c ∈ cs, c.meterKey = .ok c.meter)
    (hnodup : (cs.map UsageCheckpoint.meter).Nodup) : checkBatch cs = .ok () := by
  induction cs with
  | nil => rfl
  | cons c cs ih =>
    obtain ⟨hnew, hnodup⟩ := nodup_cons.mp hnodup
    have hfresh : ¬(cs.any fun d => d.meter = c.meter) = true := by
      simpa using hnew
    unfold checkBatch
    rw [hvalid c mem_cons_self]
    exact unit_bind_eq_ok.mpr ⟨refuse_eq_ok.mpr hfresh, ih (fun d hd => hvalid d (mem_cons_of_mem c hd)) hnodup⟩

/-- The sizes that a transaction keeps are right, and its index names batches that it sees. -/
structure Sized (s : UsageStore) (w : UsageEdits) : Prop where
  nodeID : validID s.nodeID = true
  installationID : validID s.installationID = true
  last : w.sequence ≤ maxUint64
  size : ∀ n e, w.edits.get? n = some e → e.size = e.batch.size
  previous : ∀ n e, w.edits.get? n = some e → e.previousBytes = (s.queue.get? n).elim 0 UsageBatch.size
  sound : ∀ n b, s.view w n = some b → b.Sound
  indexed : ∀ k n, w.index.get? k = some n → s.exposedUsage < n →
    ∃ b, s.view w n = some b ∧ k ∈ b.checkpoints.map UsageCheckpoint.meter

section Step

variable {s : UsageStore} {w w' : UsageEdits} {history : Nat → List UsageCheckpoint}

theorem Sized.named (hz : Sized s w) (hn : n ≤ maxUint64) (cs : List UsageCheckpoint) :
    UsageBatch.Named ⟨s.nodeID, s.installationID, n, cs⟩ :=
  ⟨hz.nodeID, hz.installationID, hn⟩

theorem Sized.put {e : UsageEdit} (hz : Sized s w) (hedits : w'.edits = w.edits.put n e)
    (hlast : w'.sequence ≤ maxUint64) (hsize : e.size = e.batch.size)
    (hprevious : e.previousBytes = (s.queue.get? n).elim 0 UsageBatch.size) (hsound : e.batch.Sound)
    (hkeep : ∀ b, s.view w n = some b →
      ∀ k ∈ b.checkpoints.map UsageCheckpoint.meter, k ∈ e.batch.checkpoints.map UsageCheckpoint.meter)
    (hindex : ∀ k m, w'.index.get? k = some m →
      w.index.get? k = some m ∨ m = n ∧ k ∈ e.batch.checkpoints.map UsageCheckpoint.meter) : Sized s w' := by
  have hview : ∀ m, s.view w' m = if m = n then some e.batch else s.view w m := by
    intro m
    have hput := view_put (s := s) w n m e
    simp only [view, hedits] at hput ⊢
    exact hput
  have hedit : ∀ {P : Nat → UsageEdit → Prop}, (∀ m f, w.edits.get? m = some f → P m f) → P n e →
      ∀ m f, w'.edits.get? m = some f → P m f := by
    intro P hw he m f hf
    rw [hedits, get?_put] at hf
    split at hf
    · next hm =>
      cases hf
      rw [hm]
      exact he
    · exact hw m f hf
  refine ⟨hz.nodeID, hz.installationID, hlast, hedit hz.size hsize, hedit hz.previous hprevious, fun m b hb => ?_,
    fun k m hk hm => ?_⟩
  · rw [hview] at hb
    split at hb
    · cases hb
      exact hsound
    · exact hz.sound m b hb
  · rw [hview]
    rcases hindex k m hk with hold | ⟨rfl, hmem⟩
    · obtain ⟨b, hb, hmem⟩ := hz.indexed k m hold hm
      by_cases hmn : m = n
      · subst hmn
        rw [if_pos rfl]
        exact ⟨e.batch, rfl, hkeep b hb k hmem⟩
      · rw [if_neg hmn]
        exact ⟨b, hb, hmem⟩
    · rw [if_pos rfl]
      exact ⟨e.batch, rfl, hmem⟩

theorem Sized.load (hs : Spooling s w history) (hz : Sized s w) (hn : s.durableUsage < n) (hseq : n ≤ w.sequence) :
    ∃ e, s.load w n = .ok e ∧ e.batch = s.batchAt history n ∧ e.size = e.batch.size ∧
      e.previousBytes = (s.queue.get? n).elim 0 UsageBatch.size := by
  have hview := hs.batch n
  rw [if_pos ⟨hn, hseq⟩] at hview
  unfold UsageStore.load
  cases he : w.edits.get? n with
  | some e =>
    have hbatch : e.batch = s.batchAt history n := by
      rw [view, he] at hview
      exact Option.some.inj hview
    exact ⟨e, rfl, hbatch, hz.size n e he, hz.previous n e he⟩
  | none =>
    have hsound := hz.sound n _ hview
    rw [view, he, Option.map_none, Option.none_or] at hview
    refine ⟨⟨s.batchAt history n, (s.batchAt history n).size, (s.batchAt history n).size⟩, ?_, rfl, rfl, ?_⟩
    · rw [hview]
      exact unit_bind_eq_ok.mpr ⟨refuse_eq_ok.mpr (by simp),
        unit_bind_eq_ok.mpr ⟨checkBatch_eq_ok hsound.valid hsound.nodup, rfl⟩⟩
    · rw [hview]
      rfl

theorem Sized.replaceUsage (hs : Spooling s w history) (hz : Sized s w)
    (hvalid : c.meterKey = .ok c.meter) (hfits : c.Fits) (hfresh : s.exposedUsage < (w.index.get? c.meter).getD 0) :
    ∃ w', s.replaceUsage c ((w.index.get? c.meter).getD 0) w = .ok w' ∧ Sized s w' ∧ w'.sequence = w.sequence := by
  cases hindex : w.index.get? c.meter with
  | none => simp [hindex] at hfresh
  | some n =>
    rw [hindex, Option.getD_some] at hfresh
    rw [Option.getD_some]
    -- the index names a batch that has the meter
    obtain ⟨b, hview, hmem⟩ := hz.indexed c.meter n hindex hfresh
    have hsound := hz.sound n b hview
    have hrange : s.durableUsage < n ∧ n ≤ w.sequence := by
      by_contra hout
      rw [hs.batch n, if_neg hout] at hview
      cases hview
    obtain ⟨e, hload, hbatch, hsize, hprevious⟩ := hz.load hs hrange.1 hrange.2
    obtain rfl : e.batch = b := Option.some.inj ((view_of_load hload).symm.trans hview)
    obtain ⟨old, cs, hreplace⟩ := exists_replaceCheckpoint hmem
    obtain ⟨ds, es, hsplit, rfl, hmeter⟩ := replaceCheckpoint_eq_some hreplace
    have hnamed : e.batch.Named := by
      rw [hbatch]
      exact hz.named (hrange.2.trans hz.last) _
    have hsound' := hsound.replace hnamed hvalid hfits hsplit hmeter
    have hsize' : e.size + checkpointSize c - checkpointSize old =
        UsageBatch.size { e.batch with checkpoints := ds ++ c :: es } := by
      rw [hsize, UsageBatch.size_eq, UsageBatch.size_eq, hsplit]
      simp only [UsageBatch.head, map_append, map_cons, sum_append, sum_cons]
      omega
    refine ⟨{ w with edits := w.edits.put n { e with
        batch := { e.batch with checkpoints := ds ++ c :: es }, size := e.size + checkpointSize c - checkpointSize old } },
      ?_, ?_, rfl⟩
    · refine bind_eq_ok.mpr ⟨e, hload, bind_eq_ok.mpr ⟨(old, ds ++ c :: es), found_eq_ok.mpr hreplace,
        unit_bind_eq_ok.mpr ⟨refuse_eq_ok.mpr ?_, rfl⟩⟩⟩
      rw [hsize']
      exact Nat.not_lt.mpr hsound'.bound
    · refine hz.put rfl hz.last hsize' hprevious hsound' (fun b' hb' k hk => ?_) fun k m hk => Or.inl hk
      rw [hview] at hb'
      cases hb'
      rw [hsplit] at hk
      simpa [hmeter] using hk

theorem Sized.addTail (hz : Sized s w) (hvalid : c.meterKey = .ok c.meter)
    (hfits : c.Fits) (hview : s.view w tail.batch.sequence = some tail.batch) (hsize : tail.size = tail.batch.size)
    (hprevious : tail.previousBytes = (s.queue.get? tail.batch.sequence).elim 0 UsageBatch.size)
    (hnew : c.meter ∉ tail.batch.checkpoints.map UsageCheckpoint.meter)
    (hroom : tail.size + checkpointSize c ≤ maxBatchBytes / 2) : Sized s (w.add tail c) := by
  rw [hsize] at hroom
  refine hz.put (e := tail.add c) rfl hz.last (UsageEdit.size_add hsize c) hprevious
    ((hz.sound _ _ hview).append hvalid hfits hnew hroom) (fun b hb k hk => ?_) fun k m hk => UsageEdits.index_add hk
  rw [hview] at hb
  cases hb
  simp only [UsageEdit.add, map_append]
  exact mem_append_left _ hk

theorem Sized.addNew (hs : Spooling s w history) (hz : Sized s w) (hvalid : c.meterKey = .ok c.meter)
    (hfits : c.Fits) (hmore : w.sequence ≠ maxUint64) :
    ∃ tail u, s.newBatch w = .ok (tail, u) ∧ Sized s (u.add tail c) ∧ u.sequence = w.sequence + 1 := by
  have hlast := hz.last
  have hnone : s.view w (w.sequence + 1) = none := by
    rw [hs.batch, if_neg (by omega)]
  have hqueue : s.queue.get? (w.sequence + 1) = none := (Option.or_eq_none_iff.mp hnone).2
  refine ⟨⟨⟨s.nodeID, s.installationID, w.sequence + 1, []⟩, UsageBatch.size ⟨s.nodeID, s.installationID, w.sequence + 1, []⟩, 0⟩,
    { w with sequence := w.sequence + 1 }, unit_bind_eq_ok.mpr ⟨refuse_eq_ok.mpr hmore, rfl⟩, ?_, rfl⟩
  refine hz.put (n := w.sequence + 1) rfl ?_ (UsageEdit.size_add rfl c) (by rw [hqueue]; rfl)
    ((hz.named (show w.sequence + 1 ≤ maxUint64 by omega) []).sound_singleton hvalid hfits) (fun b hb => ?_)
    fun k m hk => UsageEdits.index_add (w := { w with sequence := w.sequence + 1 }) hk
  · show w.sequence + 1 ≤ maxUint64
    omega
  · rw [hnone] at hb
    cases hb

theorem Sized.appendTail (hs : Spooling s w history) (hz : Sized s w)
    (hvalid : c.meterKey = .ok c.meter) (hfits : c.Fits) (hold : (w.index.get? c.meter).getD 0 ≤ s.exposedUsage) :
    (∃ w', s.appendTail c w = .ok w' ∧ Sized s w' ∧ w'.sequence ≤ w.sequence + 1) ∨
      w.sequence = maxUint64 ∧ s.appendTail c w = .error .usage := by
  have happend : ∀ tail u, s.tailBatch c w = .ok (tail, u) → s.appendTail c w = .ok (u.add tail c) := by
    intro tail u htail
    exact bind_eq_ok.mpr ⟨_, htail, rfl⟩
  have hrefused : s.tailBatch c w = .error .usage → s.appendTail c w = .error .usage := by
    intro htail
    rw [UsageStore.appendTail, htail]
    rfl
  have hnew : ∀ {u : UsageEdits}, Spooling s u history → Sized s u → u.sequence = w.sequence →
      s.tailBatch c w = s.newBatch u →
      (∃ w', s.appendTail c w = .ok w' ∧ Sized s w' ∧ w'.sequence ≤ w.sequence + 1) ∨
        w.sequence = maxUint64 ∧ s.appendTail c w = .error .usage := by
    intro u hsu hzu hseq htail
    by_cases hmore : u.sequence = maxUint64
    · refine Or.inr ⟨hseq ▸ hmore, hrefused ?_⟩
      rw [htail, UsageStore.newBatch, refuse, if_pos hmore]
      rfl
    · obtain ⟨tail, v, hv, hzv, hvseq⟩ := hzu.addNew hsu hvalid hfits hmore
      exact Or.inl ⟨_, happend _ _ (htail.trans hv), hzv, by rw [← hseq]; exact hvseq.le⟩
  by_cases hfresh : w.sequence > s.exposedUsage
  · obtain ⟨tail, hload, hbatch, hsize, hprevious⟩ := hz.load hs (Nat.lt_of_le_of_lt hs.durable hfresh) le_rfl
    have hnum : tail.batch.sequence = w.sequence := by rw [hbatch]; rfl
    have hview := view_of_load hload
    by_cases hfull : tail.batch.checkpoints.length ≥ 4096 ∨ tail.size + checkpointSize c > maxBatchBytes / 2
    · refine hnew (u := { w with edits := w.edits.put w.sequence tail }) (hs.loaded hload) ?_ rfl ?_
      · refine hz.put rfl hz.last hsize hprevious (hz.sound _ _ hview) (fun b hb k hk => ?_) fun k m hk => Or.inl hk
        rw [hview] at hb
        cases hb
        exact hk
      · rw [UsageStore.tailBatch, if_pos hfresh, hload]
        exact if_pos hfull
    · have habsent : c.meter ∉ tail.batch.checkpoints.map UsageCheckpoint.meter := by
        -- the index would name the batch
        intro hmem
        have hnone := hs.silent c.meter w.sequence (Nat.lt_of_le_of_lt hold hfresh)
        rw [readings, Option.map_eq_none_iff, List.find?_eq_none] at hnone
        rw [hbatch] at hmem
        obtain ⟨d, hd, he⟩ := mem_map.mp hmem
        exact hnone d hd (decide_eq_true he)
      obtain ⟨-, hroom⟩ := not_or.mp hfull
      refine Or.inl ⟨_, happend tail w ?_, hz.addTail hvalid hfits (by rw [hnum]; exact hview) hsize
        (by rw [hnum]; exact hprevious) habsent (Nat.le_of_not_lt hroom), Nat.le_succ _⟩
      rw [UsageStore.tailBatch, if_pos hfresh, hload]
      exact if_neg hfull
  · refine hnew hs hz rfl ?_
    rw [UsageStore.tailBatch, if_neg hfresh]

theorem Sized.queueCheckpoint (hs : Spooling s w history) (hz : Sized s w)
    (hvalid : c.meterKey = .ok c.meter) (hfits : c.Fits) :
    (∃ w', s.queueCheckpoint c w = .ok w' ∧ Sized s w' ∧ w'.sequence ≤ w.sequence + 1) ∨
      w.sequence = maxUint64 ∧ s.queueCheckpoint c w = .error .usage := by
  have hstep : s.queueCheckpoint c w = if (w.index.get? c.meter).getD 0 > s.exposedUsage then
      s.replaceUsage c ((w.index.get? c.meter).getD 0) w else s.appendTail c w := by
    rw [UsageStore.queueCheckpoint, hvalid]
    rfl
  rw [hstep]
  by_cases hfresh : (w.index.get? c.meter).getD 0 > s.exposedUsage
  · rw [if_pos hfresh]
    obtain ⟨w', hw, hz', hseq⟩ := hz.replaceUsage hs hvalid hfits hfresh
    exact Or.inl ⟨w', hw, hz', hseq.le.trans (Nat.le_succ _)⟩
  · rw [if_neg hfresh]
    exact hz.appendTail hs hvalid hfits (Nat.le_of_not_lt hfresh)

theorem Sized.queueCheckpoints (hs : Spooling s w history) (hz : Sized s w)
    (hvalid : ∀ c ∈ cs, c.meterKey = .ok c.meter) (hfits : ∀ c ∈ cs, c.Fits)
    (hnd : (cs.map UsageCheckpoint.meter).Nodup)
    (habove : ∀ c ∈ cs, ∀ n r, Latest.latest (readings history) c.meter n = some r → r ≤ c.reading) :
    (∃ w', s.queueCheckpoints cs w = .ok w' ∧ Sized s w' ∧ w'.sequence ≤ w.sequence + cs.length) ∨
      maxUint64 < w.sequence + cs.length ∧ s.queueCheckpoints cs w = .error .usage := by
  induction cs generalizing w history with
  | nil => exact Or.inl ⟨w, rfl, hz, le_rfl⟩
  | cons c cs ih =>
    obtain ⟨hvc, hvalid⟩ := forall_mem_cons.mp hvalid
    obtain ⟨hfc, hfits⟩ := forall_mem_cons.mp hfits
    obtain ⟨hac, habove⟩ := forall_mem_cons.mp habove
    obtain ⟨hnew, hnd⟩ := nodup_cons.mp hnd
    have hlast := hz.last
    rcases hz.queueCheckpoint hs hvc hfc with ⟨u, hu, hzu, hseq⟩ | ⟨hmax, herr⟩
    · obtain ⟨mid, t, hmid, hq⟩ := hs.queueCheckpoint hac hu
      have hrun : s.queueCheckpoints (c :: cs) w = s.queueCheckpoints cs u := by
        rw [UsageStore.queueCheckpoints, hu, ok_bind]
      have hrest : ∀ d ∈ cs, ∀ n r, Latest.latest (readings mid) d.meter n = some r → r ≤ d.reading := by
        intro d hd n r hr
        have hne : d.meter ≠ c.meter := fun he => hnew (he ▸ mem_map_of_mem hd)
        rw [hq.latest_of_ne hne] at hr
        exact habove d hd n r hr
      rw [hrun, length_cons]
      rcases ih hmid hzu hvalid hfits hnd hrest with ⟨w', hw, hz', hseq'⟩ | ⟨hmax, herr⟩
      · exact Or.inl ⟨w', hw, hz', by omega⟩
      · exact Or.inr ⟨by omega, herr⟩
    · refine Or.inr ⟨by rw [length_cons]; omega, ?_⟩
      rw [UsageStore.queueCheckpoints, herr, error_bind]

end Step

structure Spooled (s : UsageStore) (history : Nat → List UsageCheckpoint) : Prop extends Kept s history where
  sized : Sized s ⟨∅, s.index, s.sequence⟩
  bytes : s.spooledBytes = s.queue.total fun _ b => b.size
  fits : ∀ k c, s.meters.get? k = some c → c.Fits

variable {s s' : UsageStore} {history : Nat → List UsageCheckpoint}

theorem Sized.commit (hz : Sized s w) {queue : Table Nat UsageBatch} {meters : Table MeterKey UsageCheckpoint}
    {bytes : Nat} (hqueue : ∀ n, queue.get? n = s.view w n) :
    Sized { s with meters := meters, queue := queue, index := w.index, sequence := w.sequence, spooledBytes := bytes }
      ⟨∅, w.index, w.sequence⟩ := by
  have hview : ∀ n, view { s with
      meters := meters, queue := queue, index := w.index, sequence := w.sequence, spooledBytes := bytes }
      ⟨∅, w.index, w.sequence⟩ n = s.view w n := by
    intro n
    rw [← hqueue]
    simp [view]
  refine ⟨hz.nodeID, hz.installationID, hz.last, fun n e he => ?_, fun n e he => ?_, fun n b hb => ?_, fun k n hk hn => ?_⟩
  · simp at he
  · simp at he
  · exact hz.sound n b ((hview n).symm.trans hb)
  · obtain ⟨b, hb, hmem⟩ := hz.indexed k n hk hn
    exact ⟨b, (hview n).trans hb, hmem⟩

theorem Sized.total (hz : Sized s w) (hbytes : s.spooledBytes = s.queue.total fun _ b => b.size) :
    (w.edits.total fun _ e => e.previousBytes) ≤ s.spooledBytes ∧
      (s.queue.overlay (w.edits.mapRows fun _ e => e.batch)).total (fun _ b => b.size) =
        s.spooledBytes - (w.edits.total fun _ e => e.previousBytes) + w.edits.total fun _ e => e.batch.size := by
  have hprevious : (w.edits.total fun _ e => e.previousBytes) =
      w.edits.total fun n _ => (s.queue.get? n).elim 0 fun b => b.size :=
    total_congr fun n e he => hz.previous n e he
  have hle := total_get?_le w.edits s.queue fun _ b => b.size
  have hover := total_overlay s.queue (w.edits.mapRows fun _ e => e.batch) fun _ b => b.size
  rw [total_mapRows, total_mapRows] at hover
  rw [hprevious, hbytes]
  refine ⟨hle, ?_⟩
  omega

theorem sized_no_larger (hz : Sized s w) :
    ¬(w.edits.entries.any fun e => e.2.batch.size > maxBatchBytes) = true := by
  rw [any_eq_true]
  rintro ⟨⟨n, e⟩, he, hlarge⟩
  have hview : s.view w n = some e.batch := by
    simp [view, mem_entries.mp he]
  exact absurd (hz.sound n e.batch hview).bound (Nat.not_le.mpr (of_decide_eq_true hlarge))

theorem queueUsage_of_sized (hw : s.queueCheckpoints cs ⟨∅, s.index, s.sequence⟩ = .ok w) (hz : Sized s w)
    (hbytes : s.spooledBytes = s.queue.total fun _ b => b.size) :
    (∃ s', s.queueUsage cs = .ok s' ∧ Sized s' ⟨∅, s'.index, s'.sequence⟩ ∧
      (s'.spooledBytes = s'.queue.total fun _ b => b.size) ∧ s'.sequence = w.sequence) ∨
      s.queueUsage cs = .error .spoolFull := by
  obtain ⟨hle, htotal⟩ := hz.total hbytes
  unfold UsageStore.queueUsage
  rw [hw, ok_bind]
  by_cases hfull : s.spooledBytes > maxSpoolBytes
  · rw [refuse_of hfull]
    exact Or.inr rfl
  · rw [refuse_of_not hfull, ok_bind, refuse_of_not (sized_no_larger hz), ok_bind]
    dsimp only
    rw [refuse_of_not (Nat.not_lt.mpr hle), ok_bind]
    by_cases hadded : (w.edits.total fun _ e => e.batch.size) >
        maxSpoolBytes - (s.spooledBytes - w.edits.total fun _ e => e.previousBytes)
    · rw [refuse_of hadded]
      exact Or.inr rfl
    · rw [refuse_of_not hadded, ok_bind]
      refine Or.inl ⟨_, rfl, hz.commit fun n => ?_, htotal.symm, rfl⟩
      simp [view, get?_overlay, get?_mapRows]

theorem Spooled.queueUsage (hs : Spooled s history) (meters : Table MeterKey UsageCheckpoint)
    (hvalid : ∀ c ∈ cs, c.meterKey = .ok c.meter) (hfits : ∀ c ∈ cs, c.Fits) (hnd : (cs.map UsageCheckpoint.meter).Nodup)
    (habove : ∀ c ∈ cs, ∀ n r, Latest.latest (readings history) c.meter n = some r → r ≤ c.reading) :
    (∃ s', UsageStore.queueUsage { s with meters := meters } cs = .ok s' ∧ Sized s' ⟨∅, s'.index, s'.sequence⟩ ∧
        (s'.spooledBytes = s'.queue.total fun _ b => b.size) ∧ s'.sequence ≤ s.sequence + cs.length) ∨
      UsageStore.queueUsage { s with meters := meters } cs = .error .spoolFull ∨
      maxUint64 < s.sequence + cs.length ∧ UsageStore.queueUsage { s with meters := meters } cs = .error .usage := by
  have hstart : Spooling { s with meters := meters } ⟨∅, s.index, s.sequence⟩ history :=
    ⟨hs.durable, hs.exposed, hs.batch, hs.beyond, hs.rising, hs.silent⟩
  have hsized : Sized { s with meters := meters } ⟨∅, s.index, s.sequence⟩ :=
    hs.sized.commit (w := ⟨∅, s.index, s.sequence⟩) fun n => by simp [view]
  rcases hsized.queueCheckpoints hstart hvalid hfits hnd habove with ⟨w, hw, hz, hseq⟩ | ⟨hmax, herr⟩
  · rcases queueUsage_of_sized hw hz hs.bytes with ⟨s', hok, hz', hbytes, hlast⟩ | hfull
    · exact Or.inl ⟨s', hok, hz', hbytes, hlast.le.trans hseq⟩
    · exact Or.inr (Or.inl hfull)
  · refine Or.inr (Or.inr ⟨hmax, ?_⟩)
    rw [UsageStore.queueUsage, herr, error_bind]

end UsageStore

end Pui
