import Pui.Counter

/-!
# What an observation does

An observation, told subject by subject (`Observed`).
-/

namespace Pui

open Guard Table List

namespace Counter

variable {k epoch : String} {a b c : Counter} {readings : Table String Int}

structure Same (a b : Counter) : Prop where
  epoch : a.epoch = b.epoch
  primed : a.primed = b.primed
  last : ∀ k, a.last.get? k = b.last.get? k
  absent : ∀ k, a.absent.get? k = b.absent.get? k

/-- The last reading of a subject after the readings of an observation. -/
def seen (readings last : Table String Int) (k : String) : Option Int :=
  ((readings.get? k).filter fun v => 0 ≤ v).or (last.get? k)

def growth (readings last : Table String Int) (k : String) : Option Int :=
  ((readings.get? k).filter fun v => 0 ≤ v && 0 < v - baseline last k v).map fun v => v - baseline last k v

def gone (readings absent : Table String Int) (k : String) : Bool :=
  (readings.get? k).isNone && baselineGrace ≤ (absent.get? k).getD 0 + 1

def missing (readings absent : Table String Int) (k : String) : Option Int :=
  if (readings.get? k).isSome || gone readings absent k then none else some ((absent.get? k).getD 0 + 1)

theorem baseline_congr {last last' : Table String Int} (h : last.get? k = last'.get? k) (v : Int) :
    baseline last k v = baseline last' k v := by
  unfold baseline
  rw [h]

theorem get?_reading_of_ne (primed : Bool) (acc : Table String Int × Table String Int) {key : String} (hk : k ≠ key)
    (value : Int) : (reading primed acc key value).1.get? k = acc.1.get? k ∧
      (reading primed acc key value).2.get? k = acc.2.get? k := by
  unfold reading
  by_cases hneg : value < 0
  · simp [hneg]
  · by_cases hgrown : primed = true ∧ baseline acc.1 key value < value
    · simp [hneg, hgrown, hk]
    · simp [hneg, hgrown, hk]

theorem get?_readings (primed : Bool) {l : List (Sigma fun _ : String => Int)} (hl : l.NodupKeys)
    (acc : Table String Int × Table String Int) (k : String) :
    (l.foldl (fun acc e => reading primed acc e.1 e.2) acc).1.get? k =
        ((l.dlookup k).filter fun v => 0 ≤ v).or (acc.1.get? k) ∧
      (l.foldl (fun acc e => reading primed acc e.1 e.2) acc).2.get? k =
        (((l.dlookup k).filter fun v => primed && (0 ≤ v && 0 < v - baseline acc.1 k v)).map fun v => v - baseline acc.1 k v).or
          (acc.2.get? k) := by
  induction l generalizing acc with
  | nil => simp
  | cons e l ih =>
    obtain ⟨key, value⟩ := e
    obtain ⟨hnew, hl⟩ := nodupKeys_cons.mp hl
    obtain ⟨hlast, hdeltas⟩ := ih hl (reading primed acc key value)
    rw [foldl_cons, hlast, hdeltas]
    by_cases hk : k = key
    · subst hk
      -- the subject is not read again
      rw [dlookup_eq_none.mpr hnew, dlookup_cons_eq]
      unfold reading
      by_cases hneg : value < 0
      · have hneg' : ¬0 ≤ value := by omega
        simp [hneg, hneg', Option.filter]
      · have hpos : 0 ≤ value := by omega
        by_cases hgrown : baseline acc.1 k value < value
        · cases primed <;> simp [hneg, hpos, hgrown, Option.filter]
        · cases primed <;> simp [hneg, hpos, hgrown, Option.filter]
    · obtain ⟨hsame, hsame'⟩ := get?_reading_of_ne primed acc hk value
      rw [dlookup_cons_ne _ _ hk, hsame, hsame']
      simp only [baseline_congr hsame, and_self]

theorem get?_expireKeys (readings : Table String Int) (ks : List String) (hks : ks.Nodup) (c : Counter) (k : String) :
    (ks.foldl (expireKey readings) c).last.get? k =
        (if k ∈ ks ∧ gone readings c.absent k then none else c.last.get? k) ∧
      (ks.foldl (expireKey readings) c).absent.get? k =
        (if k ∈ ks then missing readings c.absent k else c.absent.get? k) := by
  induction ks generalizing c with
  | nil => simp
  | cons key ks ih =>
    obtain ⟨hnew, hks⟩ := nodup_cons.mp hks
    obtain ⟨hlast, habsent⟩ := ih hks (expireKey readings c key)
    rw [foldl_cons, hlast, habsent]
    by_cases hk : k = key
    · subst hk
      simp only [hnew, false_and, if_false, mem_cons, true_or, true_and, if_true]
      unfold expireKey missing gone
      cases hread : readings.get? k with
      | some v => simp [get?_drop]
      | none =>
        by_cases hgrace : (c.absent.get? k).getD 0 + 1 ≥ baselineGrace
        · have hgrace' : baselineGrace ≤ (c.absent.get? k).getD 0 + 1 := hgrace
          simp [hgrace', get?_drop]
        · have hgrace' : ¬baselineGrace ≤ (c.absent.get? k).getD 0 + 1 := hgrace
          simp [hgrace']
    · have hother : (expireKey readings c key).last.get? k = c.last.get? k ∧
          (expireKey readings c key).absent.get? k = c.absent.get? k := by
        unfold expireKey
        split
        · simp [get?_drop, hk]
        · dsimp only
          split
          · simp [get?_drop, hk]
          · simp [hk]
      have hmem : k ∈ key :: ks ↔ k ∈ ks := by simp [hk]
      have hgone : gone readings (expireKey readings c key).absent k = gone readings c.absent k := by
        unfold gone
        rw [hother.2]
      have hmissing : missing readings (expireKey readings c key).absent k = missing readings c.absent k := by
        simp only [missing, hgone, hother.2]
      simp only [hmem, hgone, hmissing, hother.1, hother.2, and_self]

theorem expireKeys_frame (readings : Table String Int) (ks : List String) (c : Counter) :
    (ks.foldl (expireKey readings) c).epoch = c.epoch ∧ (ks.foldl (expireKey readings) c).primed = c.primed := by
  induction ks generalizing c with
  | nil => exact ⟨rfl, rfl⟩
  | cons key ks ih =>
    have hstep : (expireKey readings c key).epoch = c.epoch ∧ (expireKey readings c key).primed = c.primed := by
      unfold expireKey
      split
      · exact ⟨rfl, rfl⟩
      · dsimp only
        split
        · exact ⟨rfl, rfl⟩
        · exact ⟨rfl, rfl⟩
    rw [foldl_cons, (ih _).1, (ih _).2]
    exact hstep

theorem get?_expire (readings : Table String Int) (c : Counter) (k : String) :
    (expire readings c).last.get? k =
        (if readings.entries ≠ [] ∧ gone readings c.absent k then none else c.last.get? k) ∧
      (expire readings c).absent.get? k =
        (if readings.entries ≠ [] ∧ (c.last.get? k).isSome then missing readings c.absent k else c.absent.get? k) := by
  unfold expire
  by_cases hempty : readings.entries = []
  · simp [hempty]
  · obtain ⟨hlast, habsent⟩ := get?_expireKeys readings c.last.keys c.last.nodupKeys c k
    rw [if_neg hempty]
    refine ⟨hlast.trans ?_, habsent.trans ?_⟩
    · cases hget : c.last.get? k with
      | none => simp
      | some v =>
        have hmem : k ∈ c.last.keys := mem_keys_iff.mpr (by rw [hget]; rfl)
        simp [hmem, hempty]
    · simp [hempty, ← mem_keys_iff]

theorem expire_frame (readings : Table String Int) (c : Counter) :
    (expire readings c).epoch = c.epoch ∧ (expire readings c).primed = c.primed := by
  unfold expire
  split
  · exact ⟨rfl, rfl⟩
  · exact expireKeys_frame readings _ c

structure Observed (epoch : String) (readings : Table String Int) (b : Counter) (deltas : Table String Int) (c : Counter) :
    Prop where
  epoch : c.epoch = b.epoch
  primed : c.primed = true
  deltas : ∀ k, deltas.get? k = if b.primed then growth readings b.last k else none
  last : ∀ k, c.last.get? k =
    if b.primed ∧ readings.entries ≠ [] ∧ gone readings b.absent k then none else seen readings b.last k
  absent : ∀ k, c.absent.get? k =
    if b.primed ∧ readings.entries ≠ [] ∧ (seen readings b.last k).isSome then missing readings b.absent k else b.absent.get? k

theorem observed (epoch : String) (readings : Table String Int) (c : Counter) :
    Observed epoch readings (c.enter epoch) (c.observe epoch readings).1 (c.observe epoch readings).2 := by
  have heq : c.observe epoch readings =
      let b := c.enter epoch
      let acc := readings.entries.foldl (fun acc e => reading b.primed acc e.1 e.2) (b.last, ∅)
      if !b.primed then (∅, { b with last := acc.1, primed := true }) else (acc.2, expire readings { b with last := acc.1 }) := rfl
  have hfold := fun k => get?_readings (c.enter epoch).primed readings.nodupKeys ((c.enter epoch).last, ∅) k
  rw [heq]
  dsimp only
  generalize c.enter epoch = b at hfold ⊢
  generalize (readings.entries.foldl (fun acc e => reading b.primed acc e.1 e.2) (b.last, ∅)) = acc at hfold ⊢
  have hlast : ∀ k, acc.1.get? k = seen readings b.last k := fun k => (hfold k).1
  by_cases hprimed : b.primed = true
  · have hdeltas : ∀ k, acc.2.get? k = growth readings b.last k := by
      intro k
      rw [(hfold k).2, hprimed]
      simp only [Bool.true_and, get?_empty, Option.or_none]
      rfl
    obtain ⟨hepoch, hprimed'⟩ := expire_frame readings { b with last := acc.1 }
    rw [if_neg (by simp [hprimed])]
    refine ⟨hepoch, hprimed'.trans hprimed, fun k => by simpa [hprimed] using hdeltas k, fun k => ?_, fun k => ?_⟩
    · refine ((get?_expire readings { b with last := acc.1 } k).1).trans ?_
      simp [hlast, hprimed]
    · refine ((get?_expire readings { b with last := acc.1 } k).2).trans ?_
      simp [hlast, hprimed]
  · rw [if_pos (by simp [hprimed])]
    exact ⟨rfl, rfl, fun k => by simp [hprimed], fun k => by simpa [hprimed] using hlast k, fun k => by simp [hprimed]⟩

theorem entries_eq_nil_iff {t : Table String Int} : t.entries = [] ↔ ∀ k, t.get? k = none := by
  constructor
  · intro h k
    rw [Option.eq_none_iff_forall_ne_some]
    intro v hv
    rw [← mem_entries, h] at hv
    cases hv
  · intro h
    rw [eq_nil_iff_forall_not_mem]
    rintro ⟨k, v⟩ he
    rw [mem_entries, h k] at he
    cases he

theorem Same.refl (c : Counter) : Same c c := ⟨rfl, rfl, fun _ => rfl, fun _ => rfl⟩

theorem Same.symm (h : Same a b) : Same b a :=
  ⟨h.epoch.symm, h.primed.symm, fun k => (h.last k).symm, fun k => (h.absent k).symm⟩

theorem Same.trans (h : Same a b) (h' : Same b c) : Same a c :=
  ⟨h.epoch.trans h'.epoch, h.primed.trans h'.primed, fun k => (h.last k).trans (h'.last k),
    fun k => (h.absent k).trans (h'.absent k)⟩

theorem Same.enter (h : Same a b) (epoch : String) : Same (a.enter epoch) (b.enter epoch) := by
  have hrestart : a.restarted epoch = b.restarted epoch := by
    unfold restarted
    rw [h.epoch, h.primed]
  have hstart : Same (if b.restarted epoch then { a with last := ∅, absent := ∅ } else a)
      (if b.restarted epoch then { b with last := ∅, absent := ∅ } else b) := by
    split
    · exact ⟨h.epoch, h.primed, fun _ => rfl, fun _ => rfl⟩
    · exact h
  unfold Counter.enter
  rw [hrestart]
  by_cases he : epoch ≠ ""
  · rw [if_pos he, if_pos he]
    exact ⟨rfl, hstart.primed, hstart.last, hstart.absent⟩
  · rw [if_neg he, if_neg he]
    exact hstart

theorem Same.observe {r r' : Table String Int} (h : Same a b) (hr : ∀ k, r.get? k = r'.get? k)
    (epoch : String) : Same (a.observe epoch r).2 (b.observe epoch r').2 ∧
      ∀ k, (a.observe epoch r).1.get? k = (b.observe epoch r').1.get? k := by
  obtain ⟨hepoch, hprimed, hlast, habsent⟩ := h.enter epoch
  have ha := observed epoch r a
  have hb := observed epoch r' b
  have hentries : (r.entries = []) = (r'.entries = []) := by
    rw [entries_eq_nil_iff, entries_eq_nil_iff]
    simp only [hr]
  have hseen : ∀ k, seen r (a.enter epoch).last k = seen r' (b.enter epoch).last k := by
    intro k
    rw [seen, seen, hr, hlast]
  have hgone : ∀ k, gone r (a.enter epoch).absent k = gone r' (b.enter epoch).absent k := by
    intro k
    rw [gone, gone, hr, habsent]
  have hmissing : ∀ k, missing r (a.enter epoch).absent k = missing r' (b.enter epoch).absent k := by
    intro k
    rw [missing, missing, hgone, hr, habsent]
  have hgrowth : ∀ k, growth r (a.enter epoch).last k = growth r' (b.enter epoch).last k := by
    intro k
    simp only [growth, hr, baseline_congr (hlast k)]
  refine ⟨⟨ha.epoch.trans (hepoch.trans hb.epoch.symm), ha.primed.trans hb.primed.symm, fun k => ?_, fun k => ?_⟩, fun k => ?_⟩
  · rw [ha.last, hb.last, hprimed, hseen, hgone]
    simp only [ne_eq, hentries]
  · rw [ha.absent, hb.absent, hprimed, hseen, hmissing, habsent]
    simp only [ne_eq, hentries]
  · rw [ha.deltas, hb.deltas, hprimed, hgrowth]

theorem Valid.enter (h : c.Valid) (he : epoch.utf8ByteSize ≤ 1024) : (c.enter epoch).Valid := by
  have hstart : Valid (if c.restarted epoch then { c with last := ∅, absent := ∅ } else c) := by
    split
    · exact ⟨h.epoch, fun _ => ⟨rfl, rfl⟩, fun k v hv => by simp at hv, fun k m hm => by simp at hm⟩
    · exact h
  unfold Counter.enter
  dsimp only
  split
  · exact ⟨he, hstart.primed, hstart.last, hstart.absent⟩
  · exact hstart

theorem Valid.observe (h : c.Valid)
    (he : epoch.utf8ByteSize ≤ 1024)
    (hkeys : ∀ k v, readings.get? k = some v → 0 ≤ v → k ≠ "" ∧ k.utf8ByteSize ≤ 1024) : (c.observe epoch readings).2.Valid := by
  have hb := h.enter he
  have ho := observed epoch readings c
  generalize c.enter epoch = b at hb ho
  generalize (c.observe epoch readings).2 = d at ho
  refine ⟨by rw [ho.epoch]; exact hb.epoch, fun hp => ?_, fun k v hv => ?_, fun k m hm => ?_⟩
  · rw [ho.primed] at hp
    cases hp
  · rw [ho.last] at hv
    split at hv
    · cases hv
    · rcases Option.or_eq_some_iff.mp hv with hv | ⟨-, hv⟩
      · obtain ⟨hread, hpos⟩ := Option.filter_eq_some_iff.mp hv
        have hpos' : 0 ≤ v := of_decide_eq_true hpos
        exact ⟨(hkeys k v hread hpos').1, (hkeys k v hread hpos').2, hpos'⟩
      · exact hb.last k v hv
  · have hlast := ho.last k
    rw [ho.absent] at hm
    split at hm
    · next hcount =>
      obtain ⟨hprimed, hne, hsome⟩ := hcount
      unfold missing at hm
      split at hm
      · cases hm
      · next hstays =>
        simp only [Bool.or_eq_true, not_or, Bool.not_eq_true] at hstays
        cases hm
        rw [hlast, if_neg (by simp [hstays.2])]
        have hless : (b.absent.get? k).getD 0 + 1 < baselineGrace := by
          have hgone := hstays.2
          simp only [gone, Bool.and_eq_false_iff, decide_eq_false_iff_not] at hgone
          rcases hgone with hgone | hgone
          · simp [Option.isNone_eq_false_iff, hstays.1] at hgone
          · omega
        have hmore : 1 ≤ (b.absent.get? k).getD 0 + 1 := by
          cases hget : b.absent.get? k with
          | none => simp
          | some m =>
            have hm1 := (hb.absent k m hget).2.1
            simp only [Option.getD_some]
            omega
        exact ⟨hsome, hmore, hless⟩
    · next hkept =>
      obtain ⟨hsome, hm1, hm2⟩ := hb.absent k m hm
      have hseen : (seen readings b.last k).isSome = true := by
        unfold seen
        rw [Option.isSome_or, hsome, Bool.or_true]
      have hprimed : b.primed = true := by
        by_contra hp
        rw [entries_eq_nil_iff.mp (hb.primed (by simpa using hp)).2] at hm
        cases hm
      have hempty : readings.entries = [] := by
        by_contra hne
        exact hkept ⟨hprimed, hne, hseen⟩
      rw [hlast, if_neg (by simp [hempty])]
      exact ⟨hseen, hm1, hm2⟩

theorem enter_epoch (epoch : String) (c : Counter) : (c.enter epoch).epoch = if epoch ≠ "" then epoch else c.epoch := by
  unfold Counter.enter
  dsimp only
  split
  · rfl
  · split
    · rfl
    · rfl

theorem same_enter_observe (epoch : String) (readings : Table String Int) (c : Counter) :
    Same ((c.observe epoch readings).2.enter epoch) (c.observe epoch readings).2 := by
  have hepoch : (c.observe epoch readings).2.epoch = if epoch ≠ "" then epoch else c.epoch :=
    (observed epoch readings c).epoch.trans (enter_epoch epoch c)
  generalize (c.observe epoch readings).2 = d at hepoch
  have hstays : ¬d.restarted epoch = true := by
    unfold restarted
    by_cases he : epoch = ""
    · simp [he]
    · rw [if_pos he] at hepoch
      simp [hepoch]
  unfold Counter.enter
  rw [if_neg hstays]
  split
  · next he =>
    rw [if_pos he] at hepoch
    exact ⟨hepoch.symm, rfl, fun _ => rfl, fun _ => rfl⟩
  · exact Same.refl d

theorem last_observe {v : Int} (c : Counter)
    (hread : readings.get? k = some v) (hpos : 0 ≤ v) : (c.observe epoch readings).2.last.get? k = some v := by
  rw [(observed epoch readings c).last, if_neg]
  · simp [seen, hread, hpos, Option.filter]
  · rintro ⟨-, -, hgone⟩
    simp [gone, hread] at hgone

theorem absent_observe (h : c.Valid)
    (hne : readings.entries ≠ []) (hread : readings.get? k = none)
    (hlast : ((c.observe epoch readings).2.last.get? k).isSome = true) :
    ((c.observe epoch readings).2.absent.get? k).isSome = true := by
  have ho := observed epoch readings c
  have hunprimed : (c.enter epoch).primed = false → (c.enter epoch).last.get? k = none := by
    intro hp
    have hold : ∀ d : Counter, (if epoch ≠ "" then { d with epoch := epoch } else d).primed = d.primed ∧
        (if epoch ≠ "" then { d with epoch := epoch } else d).last = d.last := by
      intro d
      split
      · exact ⟨rfl, rfl⟩
      · exact ⟨rfl, rfl⟩
    unfold Counter.enter at hp ⊢
    rw [(hold _).1] at hp
    rw [(hold _).2]
    split at hp
    · next hr =>
      rw [if_pos hr]
      rfl
    · next hr =>
      rw [if_neg hr]
      exact entries_eq_nil_iff.mp (h.primed hp).1 k
  generalize c.enter epoch = b at ho hunprimed
  generalize (c.observe epoch readings).2 = d at ho hlast ⊢
  rw [ho.last] at hlast
  have hseen : seen readings b.last k = b.last.get? k := by simp [seen, hread]
  cases hp : b.primed with
  | false =>
    rw [hseen, hunprimed hp] at hlast
    simp at hlast
  | true =>
    split at hlast
    · simp at hlast
    · next hstays =>
      have hgone : gone readings b.absent k = false := by
        by_contra hg
        exact hstays ⟨hp, hne, by simpa using hg⟩
      rw [ho.absent, if_pos ⟨hp, hne, hlast⟩]
      simp [missing, hread, hgone]

theorem observe_again {r r' : Table String Int} (h : c.Valid)
    (h' : (c.observe epoch r).2.Valid) (hr : ∀ k, r'.get? k = r.get? k) :
    (∀ k, ((c.observe epoch r).2.observe epoch r').1.get? k = none) ∧
      ((c.observe epoch r).2.observe epoch r').2.Valid ∧
      ((c.observe epoch r).2.observe epoch r').2.epoch = (c.observe epoch r).2.epoch ∧
      (∀ k v, ((c.observe epoch r).2.observe epoch r').2.last.get? k = some v → (c.observe epoch r).2.last.get? k = some v) ∧
      ∀ k m, ((c.observe epoch r).2.observe epoch r').2.absent.get? k = some m →
        ((c.observe epoch r).2.absent.get? k).isSome = true := by
  have hread : ∀ k v, r'.get? k = some v → 0 ≤ v → (c.observe epoch r).2.last.get? k = some v := by
    intro k v hv hpos
    exact last_observe c ((hr k).symm.trans hv) hpos
  have hmissed : ∀ k, r'.entries ≠ [] → r'.get? k = none → ((c.observe epoch r).2.last.get? k).isSome = true →
      ((c.observe epoch r).2.absent.get? k).isSome = true := by
    intro k hne hk hs
    refine absent_observe h (fun he => hne ?_) ((hr k).symm.trans hk) hs
    rw [entries_eq_nil_iff] at he ⊢
    exact fun k => (hr k).trans (he k)
  have hepoch : epoch.utf8ByteSize ≤ 1024 := by
    have hd : (c.observe epoch r).2.epoch = if epoch ≠ "" then epoch else c.epoch :=
      (observed epoch r c).epoch.trans (enter_epoch epoch c)
    by_cases he : epoch = ""
    · simp [he]
    · rw [if_pos he] at hd
      rw [← hd]
      exact h'.epoch
  have hsame := same_enter_observe epoch r c
  generalize (c.observe epoch r).2 = d at h' hread hmissed hsame
  have ho := observed epoch r' d
  generalize d.enter epoch = b at ho hsame
  refine ⟨fun k => ?_, h'.observe hepoch fun k v hv hpos => ?_, ho.epoch.trans hsame.epoch, fun k v hv => ?_, fun k m hm => ?_⟩
  · rw [ho.deltas]
    split
    · unfold growth
      cases hk : r'.get? k with
      | none => rfl
      | some v =>
        by_cases hpos : 0 ≤ v
        · have hbase : baseline b.last k v = v := by
            rw [baseline, hsame.last, hread k v hk hpos]
            simp
          simp [hbase, Option.filter]
        · simp [hpos, Option.filter]
    · rfl
  · have hlast := h'.last k v (hread k v hv hpos)
    exact ⟨hlast.1, hlast.2.1⟩
  · rw [ho.last] at hv
    split at hv
    · cases hv
    · rcases Option.or_eq_some_iff.mp hv with hv | ⟨-, hv⟩
      · obtain ⟨hk, hpos⟩ := Option.filter_eq_some_iff.mp hv
        exact hread k v hk (of_decide_eq_true hpos)
      · rw [← hsame.last]
        exact hv
  · rw [ho.absent] at hm
    split at hm
    · next hcount =>
      obtain ⟨-, hne, hsome⟩ := hcount
      cases hk : r'.get? k with
      | some v => simp [missing, hk] at hm
      | none =>
        refine hmissed k hne hk ?_
        rw [← hsame.last]
        simpa [seen, hk] using hsome
    · rw [← hsame.absent, hm]
      rfl

end Counter

end Pui
