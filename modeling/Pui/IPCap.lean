import Mathlib.Data.List.Sort
import Pui.Run
import Pui.Table

/-!
# Address caps

A client may be live from so many addresses at once.
-/

namespace Pui

open Table List

namespace Policy

variable {persisted persisted' observed observed' : List Observation} {ip source : String} {limit : Int} {held : List String}

structure Observation where
  ip : String
  lastSeenUnixMilli : Int
  firstSeenUnixMilli : Int
  deriving DecidableEq

/-- The addresses with slots, those beyond the cap, and those that are gone. -/
structure Verdict where
  keep : List Observation
  «over» : List Observation
  retain : List Observation
  deriving DecidableEq

def earliest (a b : Int) : Int := if a = 0 then b else if b = 0 then a else min a b

def Observation.sighted (o : Observation) : Option Observation → Observation
  | none => o
  | some prev => { prev with
      lastSeenUnixMilli := max prev.lastSeenUnixMilli o.lastSeenUnixMilli
      firstSeenUnixMilli := earliest prev.firstSeenUnixMilli o.firstSeenUnixMilli }

def Observation.Before (reading : Observation → Int) (a b : Observation) : Prop :=
  reading a < reading b ∨ reading a = reading b ∧ a.ip ≤ b.ip

instance (reading : Observation → Int) (a b : Observation) : Decidable (a.Before reading b) :=
  inferInstanceAs (Decidable (_ ∨ _ ∧ _))

def sortBy (reading : Observation → Int) (obs : List Observation) : List Observation :=
  obs.insertionSort (Observation.Before reading)

def sortByArrival (obs : List Observation) : List Observation := sortBy Observation.firstSeenUnixMilli obs

def sortOldestFirst (obs : List Observation) : List Observation := sortBy Observation.lastSeenUnixMilli obs

def byAddress (persisted observed : List Observation) (staleCutoff : Int) : Table String Observation :=
  observed.foldl (fun byIP o => byIP.put o.ip (o.sighted (byIP.get? o.ip)))
    (persisted.foldl (fun byIP o => if o.lastSeenUnixMilli < staleCutoff then byIP else byIP.put o.ip o) ∅)

def Observation.startedAt (o : Observation) (reading : Int) : Observation :=
  if o.firstSeenUnixMilli = 0 then { o with firstSeenUnixMilli := reading } else o

def liveRun (now : Int) (seenThisPass heldElsewhere : String → Bool) (ip : String) (o : Observation) : Option Observation :=
  if seenThisPass ip then some (o.startedAt now)
  else if heldElsewhere ip then some (o.startedAt o.lastSeenUnixMilli)
  else none

def endedRun (seenThisPass heldElsewhere : String → Bool) (ip : String) (o : Observation) : Option Observation :=
  if seenThisPass ip || heldElsewhere ip then none else some { o with firstSeenUnixMilli := 0 }

def seenIn (observed : List Observation) (ip : String) : Bool := observed.any fun o => o.ip = ip

def merge (persisted observed : List Observation) (now staleCutoff : Int) (heldElsewhere : String → Bool) :
    List Observation × List Observation :=
  let byIP := byAddress persisted observed staleCutoff
  let seenThisPass := seenIn observed
  (sortByArrival (byIP.entries.filterMap fun e => liveRun now seenThisPass heldElsewhere e.1 e.2),
    sortOldestFirst (byIP.entries.filterMap fun e => endedRun seenThisPass heldElsewhere e.1 e.2))

def overCap (live : List Observation) (limit : Int) : List Observation × List Observation :=
  if limit ≤ 0 ∨ live.length ≤ limit then (live, []) else (live.take limit.toNat, live.drop limit.toNat)

def decideCap (persisted observed : List Observation) (limit now staleCutoff : Int) (heldElsewhere : String → Bool) : Verdict :=
  let (live, retain) := merge persisted observed now staleCutoff heldElsewhere
  let (keep, rest) := overCap live limit
  ⟨keep, rest, retain⟩

def admitScan (source : String) (limit : Int) : List String → List String → Bool
  | [], distinct => distinct.length < limit
  | h :: held, distinct => if h = source then true else admitScan source limit held (distinct.insert h)

def admits (held : List String) (source : String) (limit : Int) : Bool :=
  if limit ≤ 0 then true else admitScan source limit held []

section Before

variable {reading : Observation → Int} {a b c : Observation}

theorem Observation.Before.trans (hab : a.Before reading b) (hbc : b.Before reading c) : a.Before reading c := by
  rcases hab with hab | ⟨hab, hip⟩
  · rcases hbc with hbc | ⟨hbc, -⟩
    · exact .inl (Int.lt_trans hab hbc)
    · exact .inl (hbc ▸ hab)
  · rcases hbc with hbc | ⟨hbc, hip'⟩
    · exact .inl (hab ▸ hbc)
    · exact .inr ⟨hab.trans hbc, String.le_trans hip hip'⟩

theorem Observation.before_total (reading : Observation → Int) (a b : Observation) :
    a.Before reading b ∨ b.Before reading a := by
  rcases Int.lt_trichotomy (reading a) (reading b) with h | h | h
  · exact .inl (.inl h)
  · rcases String.le_total a.ip b.ip with hip | hip
    · exact .inl (.inr ⟨h, hip⟩)
    · exact .inr (.inr ⟨h.symm, hip⟩)
  · exact .inr (.inl h)

theorem Observation.Before.ip_eq (hab : a.Before reading b) (hba : b.Before reading a) : a.ip = b.ip := by
  rcases hab with hab | ⟨heq, hip⟩
  · rcases hba with hba | ⟨hba, -⟩
    · exact absurd (Int.lt_trans hab hba) (Int.lt_irrefl _)
    · exact absurd (hba ▸ hab) (Int.lt_irrefl _)
  · rcases hba with hba | ⟨-, hip'⟩
    · exact absurd (heq ▸ hba) (Int.lt_irrefl _)
    · exact String.le_antisymm hip hip'

theorem Observation.Before.le (h : a.Before reading b) : reading a ≤ reading b := by
  rcases h with h | ⟨h, -⟩
  · exact Int.le_of_lt h
  · exact Int.le_of_eq h

end Before

section SortBy

variable {reading : Observation → Int} {l l' : List Observation}

theorem perm_sortBy (reading : Observation → Int) (l : List Observation) : (sortBy reading l).Perm l := perm_insertionSort _ l

theorem pairwise_sortBy (reading : Observation → Int) (l : List Observation) :
    (sortBy reading l).Pairwise (Observation.Before reading) :=
  have : Std.Total (Observation.Before reading) := ⟨Observation.before_total reading⟩
  have : IsTrans Observation (Observation.Before reading) := ⟨fun _ _ _ hab hbc => hab.trans hbc⟩
  pairwise_insertionSort _ l

theorem eq_of_pairwise_before (hnodup : (l.map Observation.ip).Nodup) (hl : l.Pairwise (Observation.Before reading))
    (hl' : l'.Pairwise (Observation.Before reading)) (hperm : l.Perm l') : l = l' := by
  refine List.Perm.eq_of_pairwise (fun a b ha hb hab hba => ?_) hl hl' hperm
  exact inj_on_of_nodup_map hnodup ha (hperm.mem_iff.mpr hb) (hab.ip_eq hba)

theorem sortBy_eq_of_perm (hnodup : (l.map Observation.ip).Nodup) (hperm : l.Perm l') : sortBy reading l = sortBy reading l' :=
  eq_of_pairwise_before (((perm_sortBy reading l).map _).nodup_iff.mpr hnodup) (pairwise_sortBy reading l) (pairwise_sortBy reading l')
    (((perm_sortBy reading l).trans hperm).trans (perm_sortBy reading l').symm)

end SortBy

def sight (known : Option Observation) (o : Observation) : Option Observation := some (o.sighted known)

def stored (persisted : List Observation) (staleCutoff : Int) (ip : String) : Option Observation :=
  (persisted.filter fun o => ¬ o.lastSeenUnixMilli < staleCutoff).find? fun o => o.ip = ip

section Stored

variable {persisted persisted' : List Observation} {staleCutoff : Int} {ip : String} {o : Observation}

theorem stored_eq_some_iff (hnodup : (persisted.map Observation.ip).Nodup) :
    stored persisted staleCutoff ip = some o ↔ o ∈ persisted ∧ staleCutoff ≤ o.lastSeenUnixMilli ∧ o.ip = ip := by
  unfold stored
  constructor
  · intro h
    have hmem := mem_filter.mp (mem_of_find?_eq_some h)
    exact ⟨hmem.1, Int.not_lt.mp (of_decide_eq_true hmem.2), by simpa using List.find?_some h⟩
  · rintro ⟨hmem, hfresh, rfl⟩
    have hmem' : o ∈ persisted.filter fun o => ¬ o.lastSeenUnixMilli < staleCutoff :=
      mem_filter.mpr ⟨hmem, decide_eq_true (Int.not_lt.mpr hfresh)⟩
    cases hfind : (persisted.filter fun o => ¬ o.lastSeenUnixMilli < staleCutoff).find? fun x => x.ip = o.ip with
    | none => exact absurd (decide_eq_true rfl) (List.find?_eq_none.mp hfind o hmem')
    | some x =>
      have hx : x ∈ persisted := (mem_filter.mp (mem_of_find?_eq_some hfind)).1
      rw [inj_on_of_nodup_map hnodup hx hmem (by simpa using List.find?_some hfind)]

theorem stored_congr (hnodup : (persisted.map Observation.ip).Nodup) (hperm : persisted.Perm persisted') :
    stored persisted staleCutoff ip = stored persisted' staleCutoff ip := by
  ext o
  rw [stored_eq_some_iff hnodup, stored_eq_some_iff ((hperm.map _).nodup_iff.mp hnodup), hperm.mem_iff]

end Stored

theorem get?_byAddress (hnodup : (persisted.map Observation.ip).Nodup) (observed : List Observation)
    (staleCutoff : Int) (ip : String) :
    (byAddress persisted observed staleCutoff).get? ip =
      Run.after sight (stored persisted staleCutoff ip) (observed.filter fun o => o.ip = ip) := by
  have hpersisted : (persisted.foldl (fun byIP o => if o.lastSeenUnixMilli < staleCutoff then byIP else byIP.put o.ip o)
      (∅ : Table String Observation)) = (persisted.filter fun o => ¬ o.lastSeenUnixMilli < staleCutoff).foldl
        (fun byIP o => byIP.put o.ip o) ∅ := by
    rw [foldl_filter]
    congr 1
    funext byIP o
    by_cases hstale : o.lastSeenUnixMilli < staleCutoff <;> simp [hstale]
  have hfresh : ((persisted.filter fun o => ¬ o.lastSeenUnixMilli < staleCutoff).map Observation.ip).Nodup :=
    hnodup.sublist (filter_sublist.map _)
  unfold byAddress
  rw [get?_foldl_alter Observation.ip Observation.sighted, hpersisted,
    get?_foldl_put_of_nodup Observation.ip (fun o => o) hfresh]
  rw [get?_empty, Option.or_none, Option.map_id']
  rfl

section Known

variable {persisted : List Observation} (hnodup : (persisted.map Observation.ip).Nodup) {observed : List Observation}
  {staleCutoff : Int} {ip : String} {o : Observation}

include hnodup

theorem known_inv {I : Observation → Prop} (hstored : ∀ r, stored persisted staleCutoff ip = some r → I r)
    (hfirst : ∀ o ∈ observed, o.ip = ip → stored persisted staleCutoff ip = none → I o)
    (hsighted : ∀ o ∈ observed, o.ip = ip → ∀ r, I r → I (o.sighted (some r)))
    (h : (byAddress persisted observed staleCutoff).get? ip = some o) : I o := by
  rw [get?_byAddress hnodup] at h
  -- until the first sighting what is known is what is stored
  have hstep : ∀ known, ∀ o ∈ observed.filter (fun o => o.ip = ip),
      ((known = none → stored persisted staleCutoff ip = none) ∧ ∀ r, known = some r → I r) →
      (sight known o = none → stored persisted staleCutoff ip = none) ∧ ∀ r, sight known o = some r → I r := by
    rintro known o ho ⟨hnone, hknown⟩
    have hmem := mem_filter.mp ho
    refine ⟨fun h => (Option.some_ne_none _ h).elim, ?_⟩
    rintro r ⟨rfl⟩
    cases known with
    | none => exact hfirst o hmem.1 (of_decide_eq_true hmem.2) (hnone rfl)
    | some known => exact hsighted o hmem.1 (of_decide_eq_true hmem.2) known (hknown known rfl)
  exact (Run.inv_after_of_mem hstep ⟨fun h => h, hstored⟩).2 o h

theorem ip_of_get?_byAddress (h : (byAddress persisted observed staleCutoff).get? ip = some o) : o.ip = ip :=
  known_inv hnodup (I := fun o => o.ip = ip) (fun _ hr => ((stored_eq_some_iff hnodup).mp hr).2.2) (fun _ _ hip _ => hip)
    (fun _ _ _ _ hr => hr) h

theorem isSome_get?_byAddress :
    ((byAddress persisted observed staleCutoff).get? ip).isSome ↔
      ip ∈ observed.map Observation.ip ∨ ∃ o ∈ persisted, staleCutoff ≤ o.lastSeenUnixMilli ∧ o.ip = ip := by
  rw [get?_byAddress hnodup]
  cases hseen : observed.filter fun o => o.ip = ip with
  | nil =>
    have hnot : ip ∉ observed.map Observation.ip := by
      rintro hmem
      obtain ⟨o, ho, hip⟩ := mem_map.mp hmem
      exact filter_eq_nil_iff.mp hseen o ho (decide_eq_true hip)
    rw [Run.after_nil, Option.isSome_iff_exists]
    simp only [stored_eq_some_iff hnodup, hnot, false_or]
  | cons o rest =>
    have hmem : o ∈ observed.filter fun o => o.ip = ip := hseen ▸ mem_cons_self
    have hip : ip ∈ observed.map Observation.ip :=
      mem_map.mpr ⟨o, (mem_filter.mp hmem).1, of_decide_eq_true (mem_filter.mp hmem).2⟩
    refine iff_of_true ?_ (.inl hip)
    rw [Run.after_cons]
    exact Run.inv_after (I := fun known : Option Observation => known.isSome) (fun _ _ _ => rfl) rfl rest

theorem get?_byAddress_of_not_seen (hseen : seenIn observed ip = false) :
    (byAddress persisted observed staleCutoff).get? ip = stored persisted staleCutoff ip := by
  have hnone : (observed.filter fun o => o.ip = ip) = [] := by
    rw [filter_eq_nil_iff]
    intro o ho hip
    exact Bool.false_ne_true (hseen.symm.trans (any_eq_true.mpr ⟨o, ho, hip⟩))
  rw [get?_byAddress hnodup, hnone, Run.after_nil]

end Known

theorem earliest_comm (a b : Int) : earliest a b = earliest b a := by
  unfold earliest
  grind

theorem earliest_assoc (a b c : Int) : earliest (earliest a b) c = earliest a (earliest b c) := by
  unfold earliest
  grind

theorem earliest_le {a b t : Int} (ha : a ≤ t) (hb : b ≤ t) : earliest a b ≤ t := by
  unfold earliest
  grind

theorem earliest_eq_left {a b : Int} (ha : a ≠ 0) (hb : b = 0 ∨ a ≤ b) : earliest a b = a := by
  unfold earliest
  grind

theorem earliest_between {a b t u : Int} (ha : a = 0 ∨ t < a ∧ a ≤ u) (hb : b = 0 ∨ t < b ∧ b ≤ u) :
    earliest a b = 0 ∨ t < earliest a b ∧ earliest a b ≤ u := by
  unfold earliest
  grind

theorem sighted_comm {o o' : Observation} (hip : o.ip = o'.ip) (r : Option Observation) :
    o'.sighted (some (o.sighted r)) = o.sighted (some (o'.sighted r)) := by
  cases r with
  | none => simp [Observation.sighted, hip, max_comm, earliest_comm]
  | some r =>
    simp only [Observation.sighted, Observation.mk.injEq, true_and]
    refine ⟨max_right_comm _ _ _, ?_⟩
    rw [earliest_assoc, earliest_comm o.firstSeenUnixMilli, ← earliest_assoc]

theorem get?_byAddress_congr {staleCutoff : Int}
    (hnodup : (persisted.map Observation.ip).Nodup) (hpersisted : persisted.Perm persisted') (hobserved : observed.Perm observed')
    (ip : String) :
    (byAddress persisted observed staleCutoff).get? ip = (byAddress persisted' observed' staleCutoff).get? ip := by
  rw [get?_byAddress hnodup, get?_byAddress ((hpersisted.map _).nodup_iff.mp hnodup), stored_congr hnodup hpersisted]
  refine (hobserved.filter _).foldl_eq' (fun o ho o' ho' r => ?_) _
  have hip := of_decide_eq_true (mem_filter.mp ho).2
  have hip' := of_decide_eq_true (mem_filter.mp ho').2
  exact congrArg some (sighted_comm (hip.trans hip'.symm) r)

theorem seenIn_iff : seenIn observed ip ↔ ip ∈ observed.map Observation.ip := by
  simp [seenIn]

theorem Observation.ip_startedAt (o : Observation) (reading : Int) : (o.startedAt reading).ip = o.ip := by
  unfold Observation.startedAt
  split <;> rfl

theorem Observation.firstSeen_startedAt (o : Observation) (reading : Int) :
    (o.startedAt reading).firstSeenUnixMilli = if o.firstSeenUnixMilli = 0 then reading else o.firstSeenUnixMilli := by
  unfold Observation.startedAt
  split <;> rfl

theorem liveRun_cases {now : Int} {seenThisPass heldElsewhere : String → Bool} {o r : Observation}
    (h : liveRun now seenThisPass heldElsewhere ip o = some r) :
    seenThisPass ip ∧ r = o.startedAt now ∨
      seenThisPass ip = false ∧ heldElsewhere ip ∧ r = o.startedAt o.lastSeenUnixMilli := by
  unfold liveRun at h
  cases hseen : seenThisPass ip with
  | true =>
    rw [hseen] at h
    exact .inl ⟨rfl, (Option.some.inj h).symm⟩
  | false =>
    rw [hseen] at h
    cases hheld : heldElsewhere ip with
    | true =>
      rw [hheld] at h
      exact .inr ⟨rfl, rfl, (Option.some.inj h).symm⟩
    | false =>
      rw [hheld] at h
      exact absurd h.symm (Option.some_ne_none r)

theorem run_cases (now : Int) (seenThisPass heldElsewhere : String → Bool) (ip : String) (o : Observation) :
    (∃ r, liveRun now seenThisPass heldElsewhere ip o = some r ∧ endedRun seenThisPass heldElsewhere ip o = none ∧ r.ip = o.ip) ∨
      ∃ r, liveRun now seenThisPass heldElsewhere ip o = none ∧ endedRun seenThisPass heldElsewhere ip o = some r ∧ r.ip = o.ip := by
  unfold liveRun endedRun
  cases hseen : seenThisPass ip with
  | true => exact .inl ⟨_, rfl, rfl, Observation.ip_startedAt o _⟩
  | false =>
    cases hheld : heldElsewhere ip with
    | true => exact .inl ⟨_, rfl, rfl, Observation.ip_startedAt o _⟩
    | false => exact .inr ⟨_, rfl, rfl, rfl⟩

theorem perm_ips_runs (now : Int) (seenThisPass heldElsewhere : String → Bool) {entries : List (Sigma fun _ : String => Observation)}
    (hip : ∀ e ∈ entries, e.2.ip = e.1) :
    ((entries.filterMap (fun e => liveRun now seenThisPass heldElsewhere e.1 e.2) ++
      entries.filterMap fun e => endedRun seenThisPass heldElsewhere e.1 e.2).map Observation.ip).Perm (entries.map Sigma.fst) := by
  induction entries with
  | nil => exact .nil
  | cons e entries ih =>
    have ih := ih fun e' he' => hip e' (mem_cons_of_mem e he')
    have hhead := hip e mem_cons_self
    rcases run_cases now seenThisPass heldElsewhere e.1 e.2 with ⟨r, hlive, hended, hr⟩ | ⟨r, hlive, hended, hr⟩
    · simp only [filterMap_cons, hlive, hended, cons_append, map_cons, hr, hhead]
      exact ih.cons e.1
    · simp only [filterMap_cons, hlive, hended]
      rw [map_cons, ← hhead, ← hr]
      exact (perm_middle.map Observation.ip).trans (ih.cons r.ip)

def Verdict.live (v : Verdict) : List Observation := v.keep ++ v.over

def Verdict.all (v : Verdict) : List Observation := v.live ++ v.retain

structure Verdict.Splits (v : Verdict) (persisted observed : List Observation) (staleCutoff : Int) : Prop where
  nodup : (v.all.map Observation.ip).Nodup
  mem : ∀ ip, ip ∈ v.all.map Observation.ip ↔
    ip ∈ observed.map Observation.ip ∨ ∃ o ∈ persisted, staleCutoff ≤ o.lastSeenUnixMilli ∧ o.ip = ip

structure Verdict.Ordered (v : Verdict) (limit : Int) : Prop where
  sorted : v.live.Pairwise (Observation.Before Observation.firstSeenUnixMilli)
  cap : 0 < limit → v.keep.length ≤ limit
  full : v.over ≠ [] → 0 < limit ∧ v.keep.length = limit

theorem overCap_append (live : List Observation) (limit : Int) : (overCap live limit).1 ++ (overCap live limit).2 = live := by
  unfold overCap
  split
  · exact append_nil live
  · exact take_append_drop _ live

theorem length_overCap {live : List Observation} (h : (overCap live limit).2 ≠ []) :
    0 < limit ∧ (overCap live limit).1.length = limit := by
  unfold overCap at h ⊢
  split at h
  · exact absurd rfl h
  · rename_i hlimit
    rw [if_neg hlimit, length_take]
    omega

theorem length_overCap_le (hlimit : 0 < limit) (live : List Observation) : (overCap live limit).1.length ≤ limit := by
  unfold overCap
  split
  · rename_i h
    exact h.resolve_left (not_le.mpr hlimit)
  · rw [length_take]
    omega

section Decide

variable {persisted observed : List Observation} {limit now staleCutoff : Int} {heldElsewhere : String → Bool} {r : Observation}

theorem live_decideCap : (decideCap persisted observed limit now staleCutoff heldElsewhere).live =
    (merge persisted observed now staleCutoff heldElsewhere).1 := overCap_append _ _

theorem all_decideCap : (decideCap persisted observed limit now staleCutoff heldElsewhere).all =
    (merge persisted observed now staleCutoff heldElsewhere).1 ++ (merge persisted observed now staleCutoff heldElsewhere).2 := by
  rw [Verdict.all, live_decideCap]
  rfl

theorem mem_live_decideCap (hnodup : (persisted.map Observation.ip).Nodup) :
    r ∈ (decideCap persisted observed limit now staleCutoff heldElsewhere).live ↔
      ∃ o, (byAddress persisted observed staleCutoff).get? r.ip = some o ∧
        liveRun now (seenIn observed) heldElsewhere r.ip o = some r := by
  rw [live_decideCap, merge, sortByArrival, (perm_sortBy _ _).mem_iff, mem_filterMap]
  constructor
  · rintro ⟨⟨ip, o⟩, he, hrun⟩
    have hget := mem_entries.mp he
    have hip : r.ip = ip := by
      rcases run_cases now (seenIn observed) heldElsewhere ip o with ⟨r', hlive, -, hr'⟩ | ⟨r', hlive, -⟩
      · rw [hrun] at hlive
        obtain rfl := Option.some.inj hlive
        exact hr'.trans (ip_of_get?_byAddress hnodup hget)
      · rw [hrun] at hlive
        exact absurd hlive (Option.some_ne_none r)
    subst hip
    exact ⟨o, hget, hrun⟩
  · rintro ⟨o, hget, hrun⟩
    exact ⟨⟨r.ip, o⟩, mem_entries.mpr hget, hrun⟩

theorem firstSeen_of_mem_retain (hr : r ∈ (decideCap persisted observed limit now staleCutoff heldElsewhere).retain) :
    r.firstSeenUnixMilli = 0 := by
  have hmem : r ∈ (merge persisted observed now staleCutoff heldElsewhere).2 := hr
  rw [merge, sortOldestFirst, (perm_sortBy _ _).mem_iff, mem_filterMap] at hmem
  obtain ⟨e, -, hrun⟩ := hmem
  unfold endedRun at hrun
  split at hrun
  · exact absurd hrun (Option.some_ne_none r).symm
  · rw [← Option.some.inj hrun]

theorem splits_decideCap (hnodup : (persisted.map Observation.ip).Nodup) (observed : List Observation) (limit now staleCutoff : Int)
    (heldElsewhere : String → Bool) :
    (decideCap persisted observed limit now staleCutoff heldElsewhere).Splits persisted observed staleCutoff := by
  have hperm : ((decideCap persisted observed limit now staleCutoff heldElsewhere).all.map Observation.ip).Perm
      (byAddress persisted observed staleCutoff).keys := by
    rw [all_decideCap]
    refine (((perm_sortBy _ _).append (perm_sortBy _ _)).map Observation.ip).trans ?_
    exact perm_ips_runs now _ _ fun e he => ip_of_get?_byAddress hnodup (mem_entries.mp he)
  refine ⟨hperm.nodup_iff.mpr (AList.keys_nodup _), fun ip => ?_⟩
  rw [hperm.mem_iff, mem_keys_iff, isSome_get?_byAddress hnodup]

theorem ordered_decideCap (persisted observed : List Observation) (limit now staleCutoff : Int) (heldElsewhere : String → Bool) :
    (decideCap persisted observed limit now staleCutoff heldElsewhere).Ordered limit := by
  refine ⟨?_, fun hlimit => length_overCap_le hlimit _, length_overCap⟩
  rw [live_decideCap]
  exact pairwise_sortBy _ _

theorem decideCap_congr (hnodup : (persisted.map Observation.ip).Nodup)
    (hpersisted : persisted.Perm persisted') (hobserved : observed.Perm observed') :
    decideCap persisted observed limit now staleCutoff heldElsewhere =
      decideCap persisted' observed' limit now staleCutoff heldElsewhere := by
  have hseen : seenIn observed = seenIn observed' := by
    funext ip
    exact Bool.eq_iff_iff.mpr (by rw [seenIn_iff, seenIn_iff, (hobserved.map _).mem_iff])
  have hentries : (byAddress persisted observed staleCutoff).entries.Perm (byAddress persisted' observed' staleCutoff).entries :=
    perm_of_get?_eq (get?_byAddress_congr hnodup hpersisted hobserved)
  have hip : ∀ e ∈ (byAddress persisted observed staleCutoff).entries, e.2.ip = e.1 :=
    fun e he => ip_of_get?_byAddress hnodup (mem_entries.mp he)
  have hips := perm_ips_runs now (seenIn observed) heldElsewhere hip
  have hruns := hips.nodup_iff.mpr (AList.keys_nodup (byAddress persisted observed staleCutoff))
  rw [map_append, nodup_append] at hruns
  have hmerge : merge persisted observed now staleCutoff heldElsewhere = merge persisted' observed' now staleCutoff heldElsewhere := by
    unfold merge
    rw [← hseen]
    exact Prod.ext (sortBy_eq_of_perm hruns.1 (hentries.filterMap _)) (sortBy_eq_of_perm hruns.2.1 (hentries.filterMap _))
  unfold decideCap
  rw [hmerge]

end Decide

structure Pass where
  observed : List Observation
  now : Int
  staleCutoff : Int
  heldElsewhere : String → Bool

structure Standing where
  verdict : Verdict
  time : Int

def Pass.over (p : Pass) (limit : Int) (persisted : List Observation) : Standing :=
  ⟨decideCap persisted p.observed limit p.now p.staleCutoff p.heldElsewhere, p.now⟩

def Standing.pass (limit : Int) (s : Standing) (p : Pass) : Standing := p.over limit s.verdict.all

structure Pass.Opens (p : Pass) (persisted : List Observation) : Prop where
  positive : 0 < p.now
  nodup : (persisted.map Observation.ip).Nodup
  past : ∀ r ∈ persisted, r.firstSeenUnixMilli ≤ p.now ∧ 0 < r.lastSeenUnixMilli ∧ r.lastSeenUnixMilli ≤ p.now
  present : ∀ o ∈ p.observed, o.firstSeenUnixMilli ≤ p.now

structure Standing.Fair (s : Standing) (p : Pass) : Prop where
  later : s.time < p.now
  fresh : ∀ r ∈ s.verdict.live, p.staleCutoff ≤ r.lastSeenUnixMilli
  present : ∀ o ∈ p.observed, o.firstSeenUnixMilli ≤ p.now
  unmoved : ∀ o ∈ p.observed, ∀ r ∈ s.verdict.live, r.ip = o.ip → o.firstSeenUnixMilli = 0 ∨ r.firstSeenUnixMilli ≤ o.firstSeenUnixMilli
  arrived : ∀ o ∈ p.observed, o.ip ∉ s.verdict.live.map Observation.ip → o.firstSeenUnixMilli = 0 ∨ s.time < o.firstSeenUnixMilli
  elsewhere : ∀ r ∈ s.verdict.retain, p.heldElsewhere r.ip → r.ip ∈ p.observed.map Observation.ip

structure Standing.Sound (s : Standing) (limit : Int) : Prop where
  ordered : s.verdict.Ordered limit
  nodup : (s.verdict.all.map Observation.ip).Nodup
  started : ∀ r ∈ s.verdict.live, r.firstSeenUnixMilli ≠ 0 ∧ r.firstSeenUnixMilli ≤ s.time
  ended : ∀ r ∈ s.verdict.retain, r.firstSeenUnixMilli = 0
  positive : 0 < s.time

theorem Pass.Opens.sound {p : Pass} (h : p.Opens persisted) (limit : Int) :
    (p.over limit persisted).Sound limit := by
  refine ⟨ordered_decideCap _ _ _ _ _ _, (splits_decideCap h.nodup _ _ _ _ _).nodup, fun r hr => ?_,
    fun r hr => firstSeen_of_mem_retain hr, h.positive⟩
  obtain ⟨o, hget, hrun⟩ := (mem_live_decideCap h.nodup).mp hr
  have hfirst : o.firstSeenUnixMilli ≤ p.now := by
    refine known_inv h.nodup (I := fun o => o.firstSeenUnixMilli ≤ p.now) (fun r hr => ?_) (fun o ho _ _ => h.present o ho)
      (fun o ho _ r hr => ?_) hget
    · exact (h.past r ((stored_eq_some_iff h.nodup).mp hr).1).1
    · exact earliest_le hr (h.present o ho)
  have hpositive := h.positive
  show r.firstSeenUnixMilli ≠ 0 ∧ r.firstSeenUnixMilli ≤ p.now
  rcases liveRun_cases hrun with ⟨-, hr⟩ | ⟨hseen, -, hr⟩
  · rw [hr, Observation.firstSeen_startedAt]
    split <;> omega
  · rw [get?_byAddress_of_not_seen h.nodup hseen] at hget
    have hpast := h.past o ((stored_eq_some_iff h.nodup).mp hget).1
    rw [hr, Observation.firstSeen_startedAt]
    split <;> omega

section Fair

variable {s : Standing} {p : Pass} {limit : Int} (hs : s.Sound limit) (hp : s.Fair p) {r r' : Observation}

include hs hp

theorem Standing.Fair.firstSeen_eq (hr : r ∈ s.verdict.live) (hr' : r' ∈ (s.pass limit p).verdict.live) (hip : r.ip = r'.ip) :
    r'.firstSeenUnixMilli = r.firstSeenUnixMilli := by
  obtain ⟨o, hget, hrun⟩ := (mem_live_decideCap hs.nodup).mp hr'
  have hstored : stored s.verdict.all p.staleCutoff r'.ip = some r :=
    (stored_eq_some_iff hs.nodup).mpr ⟨mem_append_left _ hr, hp.fresh r hr, hip⟩
  have hfirst : o.firstSeenUnixMilli = r.firstSeenUnixMilli := by
    refine known_inv hs.nodup (I := fun o => o.firstSeenUnixMilli = r.firstSeenUnixMilli) (fun x hx => ?_) (fun _ _ _ hnone => ?_)
      (fun x hx hxip y hy => ?_) hget
    · rw [Option.some.inj (hx.symm.trans hstored)]
    · exact absurd (hnone.symm.trans hstored) (Option.some_ne_none r).symm
    · exact (earliest_eq_left (hy ▸ (hs.started r hr).1) (hy ▸ hp.unmoved x hx r hr (hip.trans hxip.symm))).trans hy
  have hne := (hs.started r hr).1
  rcases liveRun_cases hrun with ⟨-, heq⟩ | ⟨-, -, heq⟩ <;>
    rw [heq, Observation.firstSeen_startedAt, if_neg (hfirst ▸ hne), hfirst]

theorem Standing.Fair.lt_firstSeen (hr' : r' ∈ (s.pass limit p).verdict.live) (hnot : r'.ip ∉ s.verdict.live.map Observation.ip) :
    s.time < r'.firstSeenUnixMilli ∧ r'.firstSeenUnixMilli ≤ p.now := by
  obtain ⟨o, hget, hrun⟩ := (mem_live_decideCap hs.nodup).mp hr'
  -- what is stored of such an address is history
  have hhistory : ∀ x, stored s.verdict.all p.staleCutoff r'.ip = some x → x ∈ s.verdict.retain ∧ x.ip = r'.ip := by
    intro x hx
    obtain ⟨hmem, -, hip⟩ := (stored_eq_some_iff hs.nodup).mp hx
    refine ⟨(mem_append.mp hmem).resolve_left fun hlive => hnot ?_, hip⟩
    exact mem_map.mpr ⟨x, hlive, hip⟩
  have hfirst : o.firstSeenUnixMilli = 0 ∨ s.time < o.firstSeenUnixMilli ∧ o.firstSeenUnixMilli ≤ p.now := by
    refine known_inv hs.nodup (I := fun o => o.firstSeenUnixMilli = 0 ∨ s.time < o.firstSeenUnixMilli ∧ o.firstSeenUnixMilli ≤ p.now)
      (fun x hx => .inl (hs.ended x (hhistory x hx).1)) (fun x hx hxip _ => ?_) (fun x hx hxip y hy => ?_) hget
    · exact (hp.arrived x hx (hxip ▸ hnot)).imp_right fun h => ⟨h, hp.present x hx⟩
    · exact earliest_between hy ((hp.arrived x hx (hxip ▸ hnot)).imp_right fun h => ⟨h, hp.present x hx⟩)
  have hlater := hp.later
  rcases liveRun_cases hrun with ⟨-, heq⟩ | ⟨hseen, hheld, -⟩
  · rw [heq, Observation.firstSeen_startedAt]
    split <;> omega
  · rw [get?_byAddress_of_not_seen hs.nodup hseen] at hget
    obtain ⟨hretain, hip⟩ := hhistory o hget
    have hobserved := hp.elsewhere o hretain (hip ▸ hheld)
    rw [hip, ← seenIn_iff, hseen] at hobserved
    exact absurd hobserved Bool.false_ne_true

theorem Standing.Fair.sound : (s.pass limit p).Sound limit := by
  refine ⟨ordered_decideCap _ _ _ _ _ _, (splits_decideCap hs.nodup _ _ _ _ _).nodup, fun r' hr' => ?_,
    fun r hr => firstSeen_of_mem_retain hr, hs.positive.trans hp.later⟩
  have hpositive := hs.positive
  show r'.firstSeenUnixMilli ≠ 0 ∧ r'.firstSeenUnixMilli ≤ p.now
  by_cases hlive : r'.ip ∈ s.verdict.live.map Observation.ip
  · obtain ⟨r, hr, hip⟩ := mem_map.mp hlive
    rw [hp.firstSeen_eq hs hr hr' hip]
    have hstarted := hs.started r hr
    have hlater := hp.later
    exact ⟨hstarted.1, by omega⟩
  · have hbounds := hp.lt_firstSeen hs hr' hlive
    exact ⟨by omega, hbounds.2⟩

theorem Standing.Fair.mem_keep_of_before {k' : Observation} (hr : r ∈ s.verdict.keep) (hr' : r' ∈ (s.pass limit p).verdict.live)
    (hip : r.ip = r'.ip) (hk' : k' ∈ (s.pass limit p).verdict.live) (hne : k'.ip ≠ r.ip)
    (hbefore : k'.Before Observation.firstSeenUnixMilli r') : k'.ip ∈ s.verdict.keep.map Observation.ip := by
  have hlive : r ∈ s.verdict.live := mem_append_left _ hr
  have hstart := hp.firstSeen_eq hs hlive hr' hip
  by_cases hk : k'.ip ∈ s.verdict.live.map Observation.ip
  · obtain ⟨k, hk, hkip⟩ := mem_map.mp hk
    have hkstart := hp.firstSeen_eq hs hk hk' hkip
    have hkr : k.Before Observation.firstSeenUnixMilli r := by
      unfold Observation.Before at hbefore ⊢
      rwa [hkstart, hstart, ← hkip, ← hip] at hbefore
    rcases mem_append.mp hk with hkeep | hover
    · exact mem_map.mpr ⟨k, hkeep, hkip⟩
    · -- a run over the cap comes after every holder's
      have hrk := (pairwise_append.mp hs.ordered.sorted).2.2 r hr k hover
      exact absurd (hkip.symm.trans (hkr.ip_eq hrk)) hne
  · have hlt := (hp.lt_firstSeen hs hk' hk).1
    have hle := hbefore.le
    have hbound := (hs.started r hlive).2
    omega

theorem Standing.Fair.keeps (hkeep : ip ∈ s.verdict.keep.map Observation.ip)
    (hlive : ip ∈ (s.pass limit p).verdict.live.map Observation.ip) : ip ∈ (s.pass limit p).verdict.keep.map Observation.ip := by
  obtain ⟨r, hr, rfl⟩ := mem_map.mp hkeep
  obtain ⟨r', hr', hip⟩ := mem_map.mp hlive
  have hnext := hp.sound hs
  rcases mem_append.mp hr' with hkept | hover
  · exact mem_map.mpr ⟨r', hkept, hip⟩
  exfalso
  -- otherwise every slot is another's that held it before, and the holder's makes one too many
  obtain ⟨hlimit, hfull⟩ := hnext.ordered.full (ne_nil_of_mem hover)
  have hcap := hs.ordered.cap hlimit
  have hsorted := pairwise_append.mp hnext.ordered.sorted
  have hdistinct : ((s.pass limit p).verdict.live.map Observation.ip).Nodup :=
    hnext.nodup.sublist ((sublist_append_left _ _).map _)
  have hnotin : r.ip ∉ (s.pass limit p).verdict.keep.map Observation.ip := by
    rw [Verdict.live, map_append, nodup_append] at hdistinct
    exact fun hmem => hdistinct.2.2 r.ip hmem r.ip (hip ▸ mem_map_of_mem hover) rfl
  have hsubset : r.ip :: (s.pass limit p).verdict.keep.map Observation.ip ⊆ s.verdict.keep.map Observation.ip := by
    intro x hx
    rcases mem_cons.mp hx with rfl | hx
    · exact hkeep
    · obtain ⟨k', hk', rfl⟩ := mem_map.mp hx
      exact hp.mem_keep_of_before hs hr hr' hip.symm (mem_append_left _ hk')
        (fun heq => hnotin (heq ▸ hx)) (hsorted.2.2 k' hk' r' hover)
  have hnodup : (r.ip :: (s.pass limit p).verdict.keep.map Observation.ip).Nodup := by
    refine nodup_cons.mpr ⟨hnotin, ?_⟩
    exact hdistinct.sublist ((sublist_append_left _ _).map _)
  have hlength := (subperm_of_subset hnodup hsubset).length_le
  simp only [length_cons, length_map] at hlength
  omega

end Fair

theorem keeps_slot {s : Standing} (hs : s.Sound limit) (hkeep : ip ∈ s.verdict.keep.map Observation.ip)
    {ps : List Pass}
    (h : Run.Along (Standing.pass limit) (fun s p => s.Fair p ∧ ip ∈ (s.pass limit p).verdict.live.map Observation.ip) s ps) :
    ip ∈ (Run.after (Standing.pass limit) s ps).verdict.keep.map Observation.ip :=
  (Run.inv_after_along (I := fun s => s.Sound limit ∧ ip ∈ s.verdict.keep.map Observation.ip)
    (fun _ _ hp hs => ⟨hp.1.sound hs.1, hp.1.keeps hs.1 hs.2 hp.2⟩) ⟨hs, hkeep⟩ h).2

/-- The verdict of a pass parts the known addresses, keeps to the cap and to the order of arrival, and does not depend on the order of
its inputs; and over every run of passes in the conditions of service an address that holds a slot and stays live keeps it. -/
theorem verdict_parts_and_keeps_slots (persisted : List Observation) (hnodup : (persisted.map Observation.ip).Nodup) (p : Pass)
    (limit : Int) :
    let v := decideCap persisted p.observed limit p.now p.staleCutoff p.heldElsewhere
    v.Splits persisted p.observed p.staleCutoff ∧
      (0 < limit → v.keep.length ≤ limit) ∧ (limit ≤ 0 → v.over = []) ∧
      (∀ k ∈ v.keep, ∀ o ∈ v.over, k.Before Observation.firstSeenUnixMilli o) ∧
      (∀ persisted' observed', persisted.Perm persisted' → p.observed.Perm observed' →
        decideCap persisted' observed' limit p.now p.staleCutoff p.heldElsewhere = v) ∧
      (p.Opens persisted → ∀ ps qs ip, Run.Along (Standing.pass limit) Standing.Fair (p.over limit persisted) ps →
        let s := Run.after (Standing.pass limit) (p.over limit persisted) ps
        ip ∈ s.verdict.keep.map Observation.ip →
        Run.Along (Standing.pass limit) (fun s p => s.Fair p ∧ ip ∈ (s.pass limit p).verdict.live.map Observation.ip) s qs →
        ip ∈ (Run.after (Standing.pass limit) s qs).verdict.keep.map Observation.ip) := by
  intro v
  have hordered := ordered_decideCap persisted p.observed limit p.now p.staleCutoff p.heldElsewhere
  refine ⟨splits_decideCap hnodup _ _ _ _ _, hordered.cap, fun hlimit => ?_, (pairwise_append.mp hordered.sorted).2.2,
    fun persisted' observed' hpersisted hobserved => (decideCap_congr hnodup hpersisted hobserved).symm,
    fun hopens ps qs ip hps => ?_⟩
  · by_contra hover
    exact absurd (hordered.full hover).1 (not_lt.mpr hlimit)
  · intro s hkeep hqs
    have hsound : s.Sound limit :=
      Run.inv_after_along (I := fun s => s.Sound limit) (fun _ _ hp hs => hp.sound hs) (hopens.sound limit) hps
    exact keeps_slot hsound hkeep hqs

namespace Sample

def phone (time : Int) : Observation := ⟨"198.51.100.7", time, 0⟩

def laptop (time : Int) : Observation := ⟨"203.0.113.9", time, 0⟩

def pass (observed : List Observation) (now : Int) (heldElsewhere : String → Bool) : Pass := ⟨observed, now, 0, heldElsewhere⟩

end Sample

/-- A phone that leaves and a laptop that takes its slot: while the laptop is live it keeps the one slot, when the phone is back too. -/
theorem verdict_parts_and_keeps_slots_two :
    let first := Sample.pass [Sample.phone 100] 100 fun _ => false
    let away := Sample.pass [Sample.laptop 200] 200 fun _ => false
    let back := Sample.pass [Sample.laptop 300, Sample.phone 300] 300 fun _ => false
    first.Opens [] ∧ "203.0.113.9" ∈ (Run.after (Standing.pass 1) (first.over 1 []) [away, back]).verdict.keep.map Observation.ip := by
  refine ⟨⟨by decide, by decide, by decide, by decide⟩, ?_⟩
  refine (verdict_parts_and_keeps_slots [] nodup_nil (Sample.pass [Sample.phone 100] 100 fun _ => false) 1).2.2.2.2.2
    ⟨by decide, by decide, by decide, by decide⟩ [Sample.pass [Sample.laptop 200] 200 fun _ => false]
    [Sample.pass [Sample.laptop 300, Sample.phone 300] 300 fun _ => false] "203.0.113.9" ⟨?_, trivial⟩ (by decide +kernel) ⟨⟨?_, ?_⟩, trivial⟩
  · exact ⟨by decide, by decide +kernel, by decide, by decide +kernel, by decide +kernel, by decide +kernel⟩
  · exact ⟨by decide, by decide +kernel, by decide, by decide +kernel, by decide +kernel, by decide +kernel⟩
  · decide +kernel

/-- The phone leaves, the laptop takes the one slot and stays; the phone comes back on another node only, is taken to have started when it
was last seen, and has the slot. -/
theorem held_elsewhere_takes_slot :
    let first := Sample.pass [Sample.phone 100] 100 fun _ => false
    let away := Sample.pass [Sample.laptop 200] 200 fun _ => false
    let elsewhere := Sample.pass [Sample.laptop 300] 300 fun ip => ip = "198.51.100.7"
    let s := Run.after (Standing.pass 1) (first.over 1 []) [away]
    s.verdict.keep = [⟨"203.0.113.9", 200, 200⟩] ∧ (s.pass 1 elsewhere).verdict.keep = [⟨"198.51.100.7", 100, 100⟩] ∧
      (s.pass 1 elsewhere).verdict.over = [⟨"203.0.113.9", 300, 200⟩] := by
  decide +kernel

theorem admitScan_of_mem (limit : Int) (h : source ∈ held) (distinct : List String) :
    admitScan source limit held distinct = true := by
  induction held generalizing distinct with
  | nil => cases h
  | cons x held ih =>
    rw [admitScan]
    split
    · rfl
    · rename_i hne
      exact ih ((mem_cons.mp h).resolve_left (Ne.symm hne)) _

theorem admitScan_of_not_mem (limit : Int) (h : source ∉ held) {distinct live : List String}
    (hdistinct : distinct.Nodup) (hlive : live.Nodup) (hmem : ∀ ip, ip ∈ live ↔ ip ∈ held ∨ ip ∈ distinct) :
    admitScan source limit held distinct = decide (live.length < limit) := by
  induction held generalizing distinct with
  | nil =>
    have hperm : live.Perm distinct := (perm_ext_iff_of_nodup hlive hdistinct).mpr fun ip => by simpa using hmem ip
    rw [admitScan, hperm.length_eq]
  | cons x held ih =>
    rw [mem_cons, not_or] at h
    rw [admitScan, if_neg (Ne.symm h.1)]
    refine ih h.2 hdistinct.insert fun ip => ?_
    rw [hmem, mem_cons, mem_insert_iff, or_assoc, or_left_comm]

theorem admit_iff_of_not_mem {live : List String} (h : source ∉ held) (hlive : live.Nodup)
    (hmem : ∀ ip, ip ∈ held ↔ ip ∈ live) : admits held source limit ↔ limit ≤ 0 ∨ live.length < limit := by
  unfold admits
  split
  · rename_i hlimit
    exact iff_of_true rfl (.inl hlimit)
  · rename_i hlimit
    rw [admitScan_of_not_mem limit h nodup_nil hlive (by simpa using fun ip => (hmem ip).symm), decide_eq_true_eq,
      or_iff_right hlimit]

theorem mem_overCap_concat {live : List Observation} {n : Observation} (hnot : n.ip ∉ live.map Observation.ip) (limit : Int) :
    n.ip ∈ (overCap (live ++ [n]) limit).1.map Observation.ip ↔ limit ≤ 0 ∨ live.length < limit := by
  unfold overCap
  rw [length_append, length_singleton]
  split
  · rename_i h
    refine iff_of_true (by simp) ?_
    omega
  · rename_i h
    have htake : (live ++ [n]).take limit.toNat = live.take limit.toNat := take_append_of_le_length (by omega)
    rw [htake]
    refine iff_of_false (fun hmem => hnot ?_) (by omega)
    exact (map_subset _ (take_subset _ _)) hmem

section Arrival

variable {persisted observed : List Observation} (hnodup : (persisted.map Observation.ip).Nodup) {limit now staleCutoff : Int}
  {heldElsewhere : String → Bool} {o : Observation}

include hnodup

theorem mem_live_concat_of_ne {r : Observation} (hne : r.ip ≠ o.ip) :
    r ∈ (decideCap persisted (observed ++ [o]) limit now staleCutoff heldElsewhere).live ↔
      r ∈ (decideCap persisted observed limit now staleCutoff heldElsewhere).live := by
  have hget : (byAddress persisted (observed ++ [o]) staleCutoff).get? r.ip = (byAddress persisted observed staleCutoff).get? r.ip := by
    rw [get?_byAddress hnodup, get?_byAddress hnodup, filter_append, filter_singleton,
      decide_eq_false hne.symm, cond_false, append_nil]
  have hseen : seenIn (observed ++ [o]) r.ip = seenIn observed r.ip := by
    simp [seenIn, hne.symm]
  rw [mem_live_decideCap hnodup, mem_live_decideCap hnodup, hget]
  unfold liveRun
  rw [hseen]

theorem exists_live_of_seen (ho : o ∈ observed) :
    ∃ n ∈ (decideCap persisted observed limit now staleCutoff heldElsewhere).live, n.ip = o.ip := by
  have hmem : o.ip ∈ observed.map Observation.ip := mem_map_of_mem ho
  have hsome : ((byAddress persisted observed staleCutoff).get? o.ip).isSome := (isSome_get?_byAddress hnodup).mpr (.inl hmem)
  obtain ⟨x, hx⟩ := Option.isSome_iff_exists.mp hsome
  have hip : (x.startedAt now).ip = o.ip := (x.ip_startedAt now).trans (ip_of_get?_byAddress hnodup hx)
  refine ⟨x.startedAt now, (mem_live_decideCap hnodup).mpr ⟨x, hip ▸ hx, ?_⟩, hip⟩
  rw [hip]
  exact if_pos (seenIn_iff.mpr hmem)

theorem live_concat (hnot : o.ip ∉ (decideCap persisted observed limit now staleCutoff heldElsewhere).live.map Observation.ip)
    (hlatest : ∀ k ∈ (decideCap persisted observed limit now staleCutoff heldElsewhere).live,
      ∀ n ∈ (decideCap persisted (observed ++ [o]) limit now staleCutoff heldElsewhere).live, n.ip = o.ip →
        k.firstSeenUnixMilli < n.firstSeenUnixMilli) :
    ∃ n, n.ip = o.ip ∧ (decideCap persisted (observed ++ [o]) limit now staleCutoff heldElsewhere).live =
      (decideCap persisted observed limit now staleCutoff heldElsewhere).live ++ [n] := by
  obtain ⟨n, hn, hip⟩ : ∃ n ∈ (decideCap persisted (observed ++ [o]) limit now staleCutoff heldElsewhere).live, n.ip = o.ip :=
    exists_live_of_seen hnodup (mem_append_right observed (mem_singleton_self o))
  refine ⟨n, hip, ?_⟩
  have hold : ((decideCap persisted observed limit now staleCutoff heldElsewhere).live.map Observation.ip).Nodup :=
    (splits_decideCap hnodup _ _ _ _ _).nodup.sublist ((sublist_append_left _ _).map _)
  have hnew : ((decideCap persisted (observed ++ [o]) limit now staleCutoff heldElsewhere).live.map Observation.ip).Nodup :=
    (splits_decideCap hnodup _ _ _ _ _).nodup.sublist ((sublist_append_left _ _).map _)
  have hjoined : (((decideCap persisted observed limit now staleCutoff heldElsewhere).live ++ [n]).map Observation.ip).Nodup := by
    rw [map_append, nodup_append]
    refine ⟨hold, nodup_singleton _, fun x hx y hy heq => hnot ?_⟩
    rw [← hip, ← mem_singleton.mp hy, ← heq]
    exact hx
  refine eq_of_pairwise_before hnew (ordered_decideCap _ _ _ _ _ _).sorted ?_ ?_
  · refine pairwise_append.mpr ⟨(ordered_decideCap _ _ _ _ _ _).sorted, pairwise_singleton _ _, fun k hk x hx => ?_⟩
    exact .inl (mem_singleton.mp hx ▸ hlatest k hk n hn hip)
  · refine (perm_ext_iff_of_nodup hnew.of_map hjoined.of_map).mpr fun r => ?_
    rw [mem_append, mem_singleton]
    by_cases hr : r.ip = o.ip
    · constructor
      · exact fun hmem => .inr (inj_on_of_nodup_map hnew hmem hn (hr.trans hip.symm))
      · rintro (hmem | rfl)
        · exact absurd (hr ▸ mem_map_of_mem hmem) hnot
        · exact hn
    · rw [mem_live_concat_of_ne hnodup hr]
      exact (or_iff_left fun heq : r = n => hr (heq ▸ hip)).symm

end Arrival

/-- A login is answered as a pass answers: a source with a slot is let in, and a new one exactly if it would have a slot as the latest of
the arrivals. -/
theorem admit_agrees_with_decideCap (persisted observed : List Observation) (hnodup : (persisted.map Observation.ip).Nodup)
    (limit now staleCutoff : Int) (heldElsewhere : String → Bool) (held : List String)
    (hheld : ∀ ip, ip ∈ held ↔ ip ∈ (decideCap persisted observed limit now staleCutoff heldElsewhere).live.map Observation.ip) :
    (∀ k ∈ (decideCap persisted observed limit now staleCutoff heldElsewhere).keep, admits held k.ip limit) ∧
      ∀ o : Observation, o.ip ∉ held →
        (∀ k ∈ (decideCap persisted observed limit now staleCutoff heldElsewhere).live,
          ∀ n ∈ (decideCap persisted (observed ++ [o]) limit now staleCutoff heldElsewhere).live, n.ip = o.ip →
            k.firstSeenUnixMilli < n.firstSeenUnixMilli) →
        (admits held o.ip limit ↔
          o.ip ∈ (decideCap persisted (observed ++ [o]) limit now staleCutoff heldElsewhere).keep.map Observation.ip) := by
  constructor
  · intro k hk
    have hmem : k.ip ∈ held := (hheld k.ip).mpr (mem_map_of_mem (mem_append_left _ hk))
    unfold admits
    split
    · rfl
    · exact admitScan_of_mem limit hmem []
  · intro o hnew hlatest
    have hnot := fun hmem => hnew ((hheld o.ip).mpr hmem)
    obtain ⟨n, hip, hlive⟩ := live_concat hnodup hnot hlatest
    have hdistinct : ((decideCap persisted observed limit now staleCutoff heldElsewhere).live.map Observation.ip).Nodup :=
      (splits_decideCap hnodup _ _ _ _ _).nodup.sublist ((sublist_append_left _ _).map _)
    have hkeep : (decideCap persisted (observed ++ [o]) limit now staleCutoff heldElsewhere).keep =
        (overCap ((decideCap persisted observed limit now staleCutoff heldElsewhere).live ++ [n]) limit).1 := by
      rw [← hlive, live_decideCap]
      rfl
    rw [admit_iff_of_not_mem hnew hdistinct hheld, hkeep, ← hip, mem_overCap_concat (hip ▸ hnot), length_map]

/-- Two sources under a limit of two, one of them listed twice, and a third that is refused. -/
theorem admit_agrees_with_decideCap_full :
    let observed := [Sample.phone 100, ⟨"203.0.113.9", 100, 40⟩, ⟨"198.51.100.7", 100, 60⟩]
    let held := ["203.0.113.9", "198.51.100.7", "203.0.113.9"]
    admits held "198.51.100.7" 2 ∧ ¬ admits held "192.0.2.1" 2 ∧
      (admits held "192.0.2.1" 2 ↔
        "192.0.2.1" ∈ (decideCap [] (observed ++ [⟨"192.0.2.1", 100, 0⟩]) 2 100 0 fun _ => false).keep.map Observation.ip) := by
  refine ⟨by decide +kernel, by decide +kernel, ?_⟩
  refine (admit_agrees_with_decideCap [] [Sample.phone 100, ⟨"203.0.113.9", 100, 40⟩, ⟨"198.51.100.7", 100, 60⟩] nodup_nil 2 100 0
    (fun _ => false) ["203.0.113.9", "198.51.100.7", "203.0.113.9"] ?_).2 ⟨"192.0.2.1", 100, 0⟩ (by decide +kernel) (by decide +kernel)
  have hlive : (decideCap [] [Sample.phone 100, ⟨"203.0.113.9", 100, 40⟩, ⟨"198.51.100.7", 100, 60⟩] 2 100 0 fun _ => false).live.map
      Observation.ip = ["203.0.113.9", "198.51.100.7"] := by decide +kernel
  intro ip
  rw [hlive]
  simp only [mem_cons, not_mem_nil, or_false]
  grind

end Policy

end Pui
