import Mathlib.Data.List.Sort
import Mathlib.Data.Multiset.MapFold
import Pui.AddressText
import Pui.ShapingNames

/-!
# Plans of shaped devices

A device is asked to shape subjects, each by the addresses that it is selected on.
-/

namespace Pui

open Table List

namespace Shaping

variable {p : Prefix} {s t : Subject} {w : DeviceWant} {l : List Prefix} {d : Shaped}

open WireGuard (Prefix Family)

structure Key where
  net : Option Prefix
  mark : Nat
  deriving DecidableEq

structure Limits where
  upBps : Int
  downBps : Int
  deriving DecidableEq

structure Subject where
  id : String
  keys : List Key
  limits : Limits
  deriving DecidableEq

structure DeviceWant where
  device : String
  subjects : List Subject
  deriving DecidableEq

structure Shaped where
  id : String
  prefixes : List Prefix
  rate : Nat
  deriving DecidableEq

structure DevicePlan where
  device : String
  mirror : String
  download : List Shaped
  upload : List Shaped
  deriving DecidableEq

inductive PlanError where
  | notOwned (device : String)
  | mark (subject device : String) (mark : Nat)
  | notHost (subject device : String) (net : Option Prefix)
  | duplicateKey (net : Prefix) (first second : String)
  deriving DecidableEq

structure PrefixText where
  string : Prefix → String
  injective : Function.Injective string
  plain : ∀ p, ',' ∉ (string p).toList

def kernelBytesPerSec (bitsPerSec : Int) : Nat := if bitsPerSec ≤ 0 then 0 else bitsPerSec.toNat / 8

structure Scan where
  owner : Table Prefix String
  duplicated : List Prefix
  failures : List PlanError
  prefixes : List Prefix

def Scan.take (id : String) (s : Scan) (p : Prefix) : Scan :=
  match s.owner.get? p with
  | some first =>
    if first ≠ id then
      { s with duplicated := p :: s.duplicated, failures := s.failures ++ [.duplicateKey p first id] }
    else { s with owner := s.owner.put p id, prefixes := s.prefixes ++ [p] }
  | none => { s with owner := s.owner.put p id, prefixes := s.prefixes ++ [p] }

def Scan.key (device id : String) (s : Scan) (key : Key) : Scan :=
  match key.net with
  | none =>
    if key.mark ≠ 0 then { s with failures := s.failures ++ [.mark id device key.mark] }
    else { s with failures := s.failures ++ [.notHost id device none] }
  | some p =>
    if p.bits ≠ p.addr.family.bitLen then { s with failures := s.failures ++ [.notHost id device (some p)] }
    else s.take id p.masked

structure Gathered where
  owner : Table Prefix String
  duplicated : List Prefix
  failures : List PlanError
  keys : Table String (List Prefix)

def Gathered.scan (device : String) (g : Gathered) (subject : Subject) : Scan :=
  subject.keys.foldl (Scan.key device subject.id) ⟨g.owner, g.duplicated, g.failures, []⟩

def Gathered.subject (device : String) (g : Gathered) (subject : Subject) : Gathered :=
  let s := g.scan device subject
  ⟨s.owner, s.duplicated, s.failures, g.keys.put subject.id s.prefixes⟩

def gather (w : DeviceWant) : Gathered := w.subjects.foldl (Gathered.subject w.device) ⟨∅, [], [], ∅⟩

def NotAfter (a b : Prefix) : Prop :=
  a.addr.family.bitLen < b.addr.family.bitLen ∨ a.addr.family.bitLen = b.addr.family.bitLen ∧ a.addr.value ≤ b.addr.value

instance : DecidableRel NotAfter := fun a b =>
  inferInstanceAs (Decidable (a.addr.family.bitLen < b.addr.family.bitLen ∨
    a.addr.family.bitLen = b.addr.family.bitLen ∧ a.addr.value ≤ b.addr.value))

def compact : List Prefix → List Prefix
  | [] => []
  | [p] => [p]
  | p :: q :: rest => if p = q then compact (q :: rest) else p :: compact (q :: rest)

def prefixesOf (g : Gathered) (subject : Subject) : List Prefix :=
  compact ((((g.keys.get? subject.id).getD []).filter fun p => p ∉ g.duplicated).insertionSort NotAfter)

def shape (g : Gathered) (bps : Subject → Int) (subject : Subject) : Option Shaped :=
  let prefixes := prefixesOf g subject
  let rate := kernelBytesPerSec (bps subject)
  if prefixes = [] then none else if rate > 0 then some ⟨subject.id, prefixes, rate⟩ else none

def Shaped.key (text : PrefixText) (s : Shaped) : String :=
  String.ofList (List.intercalate [','] (s.prefixes.map fun p => (text.string p).toList))

def sortSubjects (text : PrefixText) (l : List Shaped) : List Shaped := l.insertionSort fun a b => a.key text ≤ b.key text

def planDevice (text : PrefixText) (ns : Namespaces) (w : DeviceWant) : DevicePlan × List PlanError :=
  if !ns.owns w.device then (⟨"", "", [], []⟩, [.notOwned w.device])
  else match ns.mirrorOf w.device with
    | none => (⟨"", "", [], []⟩, [.notOwned w.device])
    | some mirror =>
      let g := gather w
      (⟨w.device, mirror, sortSubjects text (w.subjects.filterMap (shape g fun s => s.limits.downBps)),
        sortSubjects text (w.subjects.filterMap (shape g fun s => s.limits.upBps))⟩, g.failures)

def IsHost (p : Prefix) : Prop := p.bits = p.addr.family.bitLen

instance : DecidablePred IsHost := fun p => inferInstanceAs (Decidable (p.bits = p.addr.family.bitLen))

def listed (keys : List Key) (p : Prefix) : Prop := IsHost p ∧ ∃ key ∈ keys, key.net = some p

instance (keys : List Key) (p : Prefix) : Decidable (listed keys p) := inferInstanceAs (Decidable (_ ∧ _))

theorem masked_of_isHost (h : IsHost p) : p.masked = p := by
  have hbits : p.hostBits = 0 := by
    unfold WireGuard.Prefix.hostBits
    rw [h]
    omega
  unfold WireGuard.Prefix.masked
  rw [hbits]
  simp

theorem Scan.key_cases (device id : String) (s : Scan) (key : Key) :
    (∃ p, key.net = some p ∧ IsHost p ∧ s.key device id key = s.take id p) ∨
      (∀ p, key.net = some p → ¬ IsHost p) ∧ ∃ e, s.key device id key = { s with failures := s.failures ++ [e] } := by
  unfold Scan.key
  cases hnet : key.net with
  | none =>
    refine .inr ⟨fun p hp => (nomatch hp), ?_⟩
    by_cases hmark : key.mark ≠ 0
    · exact ⟨_, if_pos hmark⟩
    · exact ⟨_, if_neg hmark⟩
  | some p =>
    by_cases hhost : IsHost p
    · refine .inl ⟨p, rfl, hhost, ?_⟩
      exact (if_neg (not_not.mpr hhost)).trans (congrArg (s.take id) (masked_of_isHost hhost))
    · exact .inr ⟨fun q hq => Option.some.inj hq ▸ hhost, _, if_pos hhost⟩

/-- The state of the scan of a subject after some of its keys. -/
structure Scan.Follows (s : Scan) (g : Gathered) (id : String) (keys : List Key) : Prop where
  owner : ∀ p, s.owner.get? p = (g.owner.get? p).or (if listed keys p then some id else none)
  duplicated : ∀ p, p ∈ s.duplicated ↔ p ∈ g.duplicated ∨ listed keys p ∧ (g.owner.get? p).isSome
  prefixes : ∀ p, p ∈ s.prefixes ↔ listed keys p ∧ g.owner.get? p = none

theorem listed_concat {keys : List Key} {key : Key} :
    listed (keys ++ [key]) p ↔ listed keys p ∨ IsHost p ∧ key.net = some p := by
  simp only [listed, mem_append, mem_singleton, or_and_right, exists_or, exists_eq_left, and_or_left]

theorem Scan.Follows.take {s : Scan} {g : Gathered} {id : String} {keys : List Key} (h : s.Follows g id keys)
    (hnew : ∀ p, g.owner.get? p ≠ some id) {key : Key} (hkey : key.net = some p) (hhost : IsHost p) :
    (s.take id p).Follows g id (keys ++ [key]) := by
  have hlisted : ∀ q, listed (keys ++ [key]) q ↔ listed keys q ∨ q = p := by
    intro q
    rw [listed_concat]
    refine or_congr_right ⟨fun hq => (Option.some.inj (hkey.symm.trans hq.2)).symm, ?_⟩
    rintro rfl
    exact ⟨hhost, hkey⟩
  have howner := h.owner p
  unfold Scan.take
  cases hg : g.owner.get? p with
  | some first =>
    -- another subject has the address
    rw [hg, Option.some_or] at howner
    rw [howner]
    have hne : first ≠ id := fun heq => hnew p (heq ▸ hg)
    simp only [hne, ne_eq, not_false_eq_true, if_true]
    refine ⟨fun q => ?_, fun q => ?_, fun q => ?_⟩
    · rw [h.owner q]
      by_cases hq : q = p
      · rw [hq, hg, Option.some_or, Option.some_or]
      · simp only [hlisted, hq, or_false]
    · rw [mem_cons, h.duplicated, hlisted]
      constructor
      · rintro (rfl | hold | ⟨hq, hsome⟩)
        · exact .inr ⟨.inr rfl, by rw [hg]; rfl⟩
        · exact .inl hold
        · exact .inr ⟨.inl hq, hsome⟩
      · rintro (hold | ⟨hq | rfl, hsome⟩)
        · exact .inr (.inl hold)
        · exact .inr (.inr ⟨hq, hsome⟩)
        · exact .inl rfl
    · rw [h.prefixes, hlisted]
      constructor
      · rintro ⟨hq, hnone⟩
        exact ⟨.inl hq, hnone⟩
      · rintro ⟨hq | rfl, hnone⟩
        · exact ⟨hq, hnone⟩
        · rw [hg] at hnone
          cases hnone
  | none =>
    -- the address is free, or the subject's already
    rw [hg, Option.none_or] at howner
    have hfollows : Scan.Follows { s with owner := s.owner.put p id, prefixes := s.prefixes ++ [p] } g id (keys ++ [key]) := by
      refine ⟨fun q => ?_, fun q => ?_, fun q => ?_⟩
      · rw [get?_put, h.owner q]
        by_cases hq : q = p
        · rw [if_pos hq, hq, hg, Option.none_or, if_pos ((hlisted p).mpr (.inr rfl))]
        · simp only [hq, if_false, hlisted, or_false]
      · rw [h.duplicated, hlisted]
        refine or_congr_right ⟨fun hq => ⟨.inl hq.1, hq.2⟩, ?_⟩
        rintro ⟨hq | rfl, hsome⟩
        · exact ⟨hq, hsome⟩
        · rw [hg] at hsome
          cases hsome
      · rw [mem_append, mem_singleton, h.prefixes, hlisted]
        constructor
        · rintro (⟨hq, hnone⟩ | rfl)
          · exact ⟨.inl hq, hnone⟩
          · exact ⟨.inr rfl, hg⟩
        · rintro ⟨hq | rfl, hnone⟩
          · exact .inl ⟨hq, hnone⟩
          · exact .inr rfl
    by_cases hmine : listed keys p
    · rw [howner, if_pos hmine]
      simpa using hfollows
    · rw [howner, if_neg hmine]
      exact hfollows

theorem Gathered.follows_scan (device : String) (g : Gathered) (subject : Subject) (hnew : ∀ p, g.owner.get? p ≠ some subject.id) :
    (g.scan device subject).Follows g subject.id subject.keys := by
  unfold Gathered.scan
  induction subject.keys using List.reverseRecOn with
  | nil =>
    have hnone : ∀ p, ¬ listed [] p := fun p h => by simp [listed] at h
    refine ⟨fun p => ?_, fun p => ?_, fun p => ?_⟩
    · simp [hnone p]
    · simp [hnone p]
    · simp [hnone p]
  | append_singleton keys key ih =>
    rw [foldl_append]
    simp only [foldl_cons, foldl_nil]
    rcases Scan.key_cases device subject.id (keys.foldl (Scan.key device subject.id) ⟨g.owner, g.duplicated, g.failures, []⟩) key with
      ⟨p, hkey, hhost, heq⟩ | ⟨hnot, e, heq⟩
    · rw [heq]
      exact ih.take hnew hkey hhost
    · have hlisted : ∀ q, listed (keys ++ [key]) q ↔ listed keys q := by
        intro q
        rw [listed_concat]
        exact or_iff_left fun hq => hnot q hq.2 hq.1
      rw [heq]
      refine ⟨fun q => ?_, fun q => ?_, fun q => ?_⟩
      · simp only [hlisted]
        exact ih.owner q
      · rw [hlisted]
        exact ih.duplicated q
      · rw [hlisted]
        exact ih.prefixes q

def Subject.lists (s : Subject) (p : Prefix) : Prop := listed s.keys p

structure Gathered.Covers (g : Gathered) (done : List Subject) : Prop where
  owned : ∀ p, (g.owner.get? p).isSome ↔ ∃ s ∈ done, s.lists p
  owner : ∀ p id, g.owner.get? p = some id → id ∈ done.map Subject.id
  duplicated : ∀ p, p ∈ g.duplicated ↔ ∃ s ∈ done, ∃ t ∈ done, s.id ≠ t.id ∧ s.lists p ∧ t.lists p
  keys : ∀ s ∈ done, ∃ l, g.keys.get? s.id = some l ∧ (∀ p ∈ l, s.lists p) ∧ ∀ p, s.lists p → p ∈ l ∨ p ∈ g.duplicated

theorem Gathered.Covers.subject {g : Gathered} {done : List Subject} (h : g.Covers done) (device : String)
    (hnew : s.id ∉ done.map Subject.id) : (g.subject device s).Covers (done ++ [s]) := by
  have hscan := g.follows_scan device s fun p hp => hnew (h.owner p s.id hp)
  have hid : ∀ t ∈ done, t.id ≠ s.id := fun t ht heq => hnew (heq ▸ mem_map_of_mem ht)
  refine ⟨fun p => ?_, fun p id hp => ?_, fun p => ?_, fun t ht => ?_⟩
  · show ((g.scan device s).owner.get? p).isSome ↔ _
    rw [hscan.owner, Option.isSome_or, Bool.or_eq_true, h.owned]
    constructor
    · rintro (⟨t, ht, hlists⟩ | hlists)
      · exact ⟨t, mem_append_left _ ht, hlists⟩
      · refine ⟨s, mem_append_right _ mem_cons_self, ?_⟩
        by_contra hnot
        simp only [show ¬ listed s.keys p from hnot, if_false, Option.isSome_none, Bool.false_eq_true] at hlists
    · rintro ⟨t, ht, hlists⟩
      rcases mem_append.mp ht with ht | ht
      · exact .inl ⟨t, ht, hlists⟩
      · obtain rfl := mem_singleton.mp ht
        exact .inr (by rw [if_pos (show listed t.keys p from hlists)]; rfl)
  · have howner : (g.scan device s).owner.get? p = some id := hp
    rw [hscan.owner, Option.or_eq_some_iff] at howner
    rw [map_append, mem_append]
    rcases howner with hold | ⟨-, hmine⟩
    · exact .inl (h.owner p id hold)
    · split at hmine
      · exact .inr (mem_singleton.mpr (Option.some.inj hmine).symm)
      · cases hmine
  · show p ∈ (g.scan device s).duplicated ↔ _
    rw [hscan.duplicated, h.duplicated, h.owned]
    constructor
    · rintro (⟨t, ht, u, hu, hne, htp, hup⟩ | ⟨hsp, t, ht, htp⟩)
      · exact ⟨t, mem_append_left _ ht, u, mem_append_left _ hu, hne, htp, hup⟩
      · exact ⟨t, mem_append_left _ ht, s, mem_append_right _ mem_cons_self, hid t ht, htp, hsp⟩
    · rintro ⟨t, ht, u, hu, hne, htp, hup⟩
      rcases mem_append.mp ht with hold | hlast
      · rcases mem_append.mp hu with hold' | hlast'
        · exact .inl ⟨t, hold, u, hold', hne, htp, hup⟩
        · obtain rfl := mem_singleton.mp hlast'
          exact .inr ⟨hup, t, hold, htp⟩
      · obtain rfl := mem_singleton.mp hlast
        rcases mem_append.mp hu with hu | hu
        · exact .inr ⟨htp, u, hu, hup⟩
        · exact absurd (congrArg Subject.id (mem_singleton.mp hu)).symm hne
  · show ∃ l, (g.keys.put s.id (g.scan device s).prefixes).get? t.id = some l ∧ _
    rcases mem_append.mp ht with ht | ht
    · obtain ⟨l, hl, hsub, hall⟩ := h.keys t ht
      refine ⟨l, by rw [get?_put_of_ne (hid t ht), hl], hsub, fun p hp => (hall p hp).imp_right fun hdup => ?_⟩
      exact (hscan.duplicated p).mpr (.inl hdup)
    · obtain rfl := mem_singleton.mp ht
      refine ⟨_, get?_put_self _ _ _, fun p hp => ((hscan.prefixes p).mp hp).1, fun p hp => ?_⟩
      cases hg : g.owner.get? p with
      | none => exact .inl ((hscan.prefixes p).mpr ⟨hp, hg⟩)
      | some first => exact .inr ((hscan.duplicated p).mpr (.inr ⟨hp, by rw [hg]; rfl⟩))

theorem covers_gather (h : (w.subjects.map Subject.id).Nodup) : (gather w).Covers w.subjects := by
  unfold gather
  generalize w.subjects = subjects at h
  induction subjects using List.reverseRecOn with
  | nil => exact ⟨fun p => by simp, fun p id hp => by simp at hp, fun p => by simp, fun s hs => by simp at hs⟩
  | append_singleton done s ih =>
    rw [map_append, nodup_append] at h
    rw [foldl_append]
    refine (ih h.1).subject w.device fun hmem => ?_
    exact h.2.2 s.id hmem s.id mem_cons_self rfl

def Sole (subjects : List Subject) (s : Subject) (p : Prefix) : Prop := s.lists p ∧ ∀ t ∈ subjects, t.id ≠ s.id → ¬ t.lists p

theorem mem_compact : p ∈ compact l ↔ p ∈ l := by
  fun_induction compact l with
  | case1 => rfl
  | case2 => rfl
  | case3 q rest ih => rw [ih, mem_cons, mem_cons]; simp
  | case4 q r rest hne ih => rw [mem_cons, ih, ← mem_cons]

def Precedes (a b : Prefix) : Prop := NotAfter a b ∧ a ≠ b

theorem notAfter_trans {a b c : Prefix} (hab : NotAfter a b) (hbc : NotAfter b c) : NotAfter a c := by
  unfold NotAfter at *
  omega

theorem notAfter_total (a b : Prefix) : NotAfter a b ∨ NotAfter b a := by
  unfold NotAfter
  omega

theorem eq_of_notAfter {a b : Prefix} (ha : IsHost a) (hb : IsHost b) (hab : NotAfter a b) (hba : NotAfter b a) : a = b := by
  obtain ⟨⟨fa, va⟩, bitsa⟩ := a
  obtain ⟨⟨fb, vb⟩, bitsb⟩ := b
  simp only [NotAfter, IsHost] at *
  have hlen : fa.bitLen = fb.bitLen := by omega
  have hfamily : fa = fb := by
    cases fa <;> cases fb
    · rfl
    · cases hlen
    · cases hlen
    · rfl
  subst hfamily
  have hvalue : va = vb := by omega
  rw [hvalue, ha, hb]

theorem pairwise_compact (hl : l.Pairwise NotAfter) (hhost : ∀ p ∈ l, IsHost p) : (compact l).Pairwise Precedes := by
  fun_induction compact l with
  | case1 => exact .nil
  | case2 p => exact pairwise_singleton _ _
  | case3 q rest ih => exact ih hl.of_cons fun p hp => hhost p (mem_cons_of_mem _ hp)
  | case4 q r rest hne ih =>
    refine pairwise_cons.mpr ⟨fun p hp => ?_, ih hl.of_cons fun p hp => hhost p (mem_cons_of_mem _ hp)⟩
    have hrel := (pairwise_cons.mp hl).1
    rw [mem_compact] at hp
    refine ⟨hrel p hp, fun heq => hne ?_⟩
    -- the next element lies between, so it is the same
    subst heq
    have hnext : NotAfter r q := by
      rcases mem_cons.mp hp with heq | hp
      · exact heq ▸ hrel q (heq ▸ mem_cons_self)
      · exact (pairwise_cons.mp hl.of_cons).1 q hp
    exact eq_of_notAfter (hhost q mem_cons_self) (hhost r (mem_cons_of_mem _ mem_cons_self)) (hrel r mem_cons_self) hnext

theorem eq_of_pairwise_precedes {l' : List Prefix} (hl : l.Pairwise Precedes) (hl' : l'.Pairwise Precedes) (hhost : ∀ p ∈ l, IsHost p)
    (h : ∀ p, p ∈ l ↔ p ∈ l') : l = l' := by
  have hnodup : l.Nodup := hl.imp And.right
  have hnodup' : l'.Nodup := hl'.imp And.right
  have hsorted : l.Pairwise NotAfter := hl.imp And.left
  have hsorted' : l'.Pairwise NotAfter := hl'.imp And.left
  refine List.Perm.eq_of_pairwise (fun a b ha hb hab hba => ?_) hsorted hsorted' ((perm_ext_iff_of_nodup hnodup hnodup').mpr h)
  exact eq_of_notAfter (hhost a ha) (hhost b ((h b).mpr hb)) hab hba

section Prefixes

variable {w : DeviceWant} (hids : (w.subjects.map Subject.id).Nodup) {s : Subject} (hs : s ∈ w.subjects)

include hids hs

theorem mem_prefixesOf : p ∈ prefixesOf (gather w) s ↔ Sole w.subjects s p := by
  have hcovers := covers_gather hids
  obtain ⟨l, hl, hsub, hall⟩ := hcovers.keys s hs
  unfold prefixesOf
  rw [mem_compact, (perm_insertionSort _ _).mem_iff, mem_filter, hl, Option.getD_some, decide_eq_true_eq]
  constructor
  · rintro ⟨hp, hnot⟩
    refine ⟨hsub p hp, fun t ht hne htp => hnot ?_⟩
    exact (hcovers.duplicated p).mpr ⟨t, ht, s, hs, hne, htp, hsub p hp⟩
  · rintro ⟨hp, hsole⟩
    have hnot : p ∉ (gather w).duplicated := by
      intro hdup
      obtain ⟨t, ht, u, hu, hne, htp, hup⟩ := (hcovers.duplicated p).mp hdup
      by_cases hts : t.id = s.id
      · exact hsole u hu (fun hus => hne (hts.trans hus.symm)) hup
      · exact hsole t ht hts htp
    exact ⟨(hall p hp).resolve_right hnot, hnot⟩

theorem isHost_of_mem_prefixesOf : ∀ p ∈ prefixesOf (gather w) s, IsHost p :=
  fun _ hp => ((mem_prefixesOf hids hs).mp hp).1.1

theorem pairwise_prefixesOf : (prefixesOf (gather w) s).Pairwise Precedes := by
  have : Std.Total NotAfter := ⟨notAfter_total⟩
  have : IsTrans Prefix NotAfter := ⟨fun _ _ _ => notAfter_trans⟩
  refine pairwise_compact (pairwise_insertionSort _ _) fun p hp => ?_
  exact isHost_of_mem_prefixesOf hids hs p (mem_compact.mpr hp)

end Prefixes

theorem kernelBytesPerSec_pos {bps : Int} : 0 < kernelBytesPerSec bps ↔ 8 ≤ bps := by
  unfold kernelBytesPerSec
  split <;> omega

theorem shape_eq_some_iff {g : Gathered} {bps : Subject → Int} :
    shape g bps s = some d ↔ prefixesOf g s ≠ [] ∧ 8 ≤ bps s ∧ d = ⟨s.id, prefixesOf g s, kernelBytesPerSec (bps s)⟩ := by
  unfold shape
  by_cases hnil : prefixesOf g s = []
  · simp [hnil]
  · by_cases hrate : 0 < kernelBytesPerSec (bps s)
    · simp only [hnil, if_false, gt_iff_lt, hrate, if_true, Option.some.injEq, ne_eq, not_false_eq_true, true_and,
        kernelBytesPerSec_pos.mp hrate]
      exact eq_comm
    · simp [hnil, hrate, mt kernelBytesPerSec_pos.mpr hrate]

section Shapes

variable {w : DeviceWant} (hids : (w.subjects.map Subject.id).Nodup) {bps : Subject → Int} {d d' : Shaped}

include hids

theorem eq_of_mem_shapes (hd : d ∈ w.subjects.filterMap (shape (gather w) bps))
    (hd' : d' ∈ w.subjects.filterMap (shape (gather w) bps)) (hp : p ∈ d.prefixes) (hp' : p ∈ d'.prefixes) : d = d' := by
  obtain ⟨s, hs, hshape⟩ := mem_filterMap.mp hd
  obtain ⟨t, ht, hshape'⟩ := mem_filterMap.mp hd'
  obtain ⟨-, -, rfl⟩ := shape_eq_some_iff.mp hshape
  obtain ⟨-, -, rfl⟩ := shape_eq_some_iff.mp hshape'
  have hsole := (mem_prefixesOf hids hs).mp hp
  have hsole' := (mem_prefixesOf hids ht).mp hp'
  have hid : t.id = s.id := by
    by_contra hne
    exact hsole.2 t ht hne hsole'.1
  rw [inj_on_of_nodup_map hids ht hs hid]

theorem nodup_shapes : (w.subjects.filterMap (shape (gather w) bps)).Nodup := by
  refine pairwise_filterMap.mpr ((pairwise_map.mp hids).imp ?_)
  rintro s t hne d hshape _ hshape' rfl
  obtain ⟨-, -, hd⟩ := shape_eq_some_iff.mp hshape
  obtain ⟨-, -, hd'⟩ := shape_eq_some_iff.mp hshape'
  exact hne (congrArg Shaped.id (hd.symm.trans hd'))

theorem nodup_flatMap_prefixes : ((w.subjects.filterMap (shape (gather w) bps)).flatMap Shaped.prefixes).Nodup := by
  refine nodup_flatMap.mpr ⟨fun d hd => ?_, ?_⟩
  · obtain ⟨s, hs, hshape⟩ := mem_filterMap.mp hd
    obtain ⟨-, -, rfl⟩ := shape_eq_some_iff.mp hshape
    exact (pairwise_prefixesOf hids hs).imp And.right
  · refine (nodup_shapes hids).pairwise_of_forall_ne fun d hd d' hd' hne p hp hp' => ?_
    exact hne (eq_of_mem_shapes hids hd hd' hp hp')

theorem mem_shapes_iff (hs : s ∈ w.subjects) :
    (∃ d ∈ w.subjects.filterMap (shape (gather w) bps), d.id = s.id ∧ p ∈ d.prefixes) ↔ Sole w.subjects s p ∧ 8 ≤ bps s := by
  constructor
  · rintro ⟨d, hd, hid, hp⟩
    obtain ⟨t, ht, hshape⟩ := mem_filterMap.mp hd
    obtain ⟨-, hrate, rfl⟩ := shape_eq_some_iff.mp hshape
    obtain rfl := inj_on_of_nodup_map hids ht hs hid
    exact ⟨(mem_prefixesOf hids hs).mp hp, hrate⟩
  · rintro ⟨hsole, hrate⟩
    have hp := (mem_prefixesOf hids hs).mpr hsole
    refine ⟨_, mem_filterMap.mpr ⟨s, hs, shape_eq_some_iff.mpr ⟨ne_nil_of_mem hp, hrate, rfl⟩⟩, rfl, hp⟩

end Shapes

theorem cut_key (text : PrefixText) {rest : List Prefix} (h : d.prefixes = p :: rest) :
    (Decimal.cut ',' (d.key text).toList).1 = (text.string p).toList := by
  unfold Shaped.key
  rw [h, String.toList_ofList]
  cases rest with
  | nil =>
    have hkey : List.intercalate [','] (([p] : List Prefix).map fun p => (text.string p).toList) = (text.string p).toList := by
      simp [List.intercalate]
    rw [hkey, Decimal.cut_of_not_mem (text.plain p)]
  | cons q rest =>
    have hkey : List.intercalate [','] ((p :: q :: rest).map fun p => (text.string p).toList) =
        (text.string p).toList ++ ',' :: List.intercalate [','] ((q :: rest).map fun p => (text.string p).toList) := by
      simp [List.intercalate]
    rw [hkey, Decimal.cut_append (text.plain p)]

theorem eq_of_key_eq (text : PrefixText) (hids : (w.subjects.map Subject.id).Nodup) {bps : Subject → Int} {d' : Shaped}
    (hd : d ∈ w.subjects.filterMap (shape (gather w) bps)) (hd' : d' ∈ w.subjects.filterMap (shape (gather w) bps))
    (hkey : d.key text = d'.key text) : d = d' := by
  have hfirst : ∀ e ∈ w.subjects.filterMap (shape (gather w) bps), ∃ p rest, e.prefixes = p :: rest := by
    intro e he
    obtain ⟨s, hs, hshape⟩ := mem_filterMap.mp he
    obtain ⟨hne, -, rfl⟩ := shape_eq_some_iff.mp hshape
    exact exists_cons_of_ne_nil hne
  obtain ⟨p, rest, hp⟩ := hfirst d hd
  obtain ⟨q, rest', hq⟩ := hfirst d' hd'
  have hcut := cut_key text hp
  rw [hkey, cut_key text hq] at hcut
  obtain rfl := text.injective (String.toList_inj.mp hcut)
  exact eq_of_mem_shapes hids hd hd' (hp ▸ mem_cons_self) (hq ▸ mem_cons_self)

structure Subject.Same (s t : Subject) : Prop where
  id : s.id = t.id
  limits : s.limits = t.limits
  keys : s.keys.Perm t.keys

theorem Subject.Same.symm (h : s.Same t) : t.Same s := ⟨h.id.symm, h.limits.symm, h.keys.symm⟩

theorem Subject.Same.lists (h : s.Same t) : s.lists p ↔ t.lists p :=
  and_congr_right fun _ => exists_congr fun _ => and_congr_left fun _ => h.keys.mem_iff

structure DeviceWant.Reordered (w w' : DeviceWant) : Prop where
  device : w.device = w'.device
  subjects : Multiset.Rel Subject.Same w.subjects w'.subjects

namespace DeviceWant.Reordered

variable {w w' : DeviceWant} (h : w.Reordered w')

include h

theorem symm : w'.Reordered w :=
  ⟨h.device.symm, Multiset.rel_flip.mp (h.subjects.mono fun _ _ _ _ hsame => hsame.symm)⟩

theorem nodup (hids : (w.subjects.map Subject.id).Nodup) : (w'.subjects.map Subject.id).Nodup := by
  have hmap : Multiset.map Subject.id w.subjects = Multiset.map Subject.id w'.subjects :=
    Multiset.rel_eq.mp (Multiset.rel_map.mpr (h.subjects.mono fun _ _ _ _ hsame => hsame.id))
  exact (Multiset.coe_eq_coe.mp hmap).nodup_iff.mp hids

theorem sole (hsame : s.Same t) (hsole : Sole w.subjects s p) : Sole w'.subjects t p := by
  refine ⟨hsame.lists.mp hsole.1, fun u hu hne hup => ?_⟩
  obtain ⟨v, hv, hvu⟩ := Multiset.exists_mem_of_rel_of_mem h.symm.subjects hu
  exact hsole.2 v hv (fun heq => hne (hvu.id.trans (heq.trans hsame.id))) (hvu.lists.mp hup)

theorem prefixesOf_eq (hids : (w.subjects.map Subject.id).Nodup) (hs : s ∈ w.subjects) (ht : t ∈ w'.subjects) (hsame : s.Same t) :
    prefixesOf (gather w) s = prefixesOf (gather w') t := by
  have hids' := h.nodup hids
  refine eq_of_pairwise_precedes (pairwise_prefixesOf hids hs) (pairwise_prefixesOf hids' ht) (isHost_of_mem_prefixesOf hids hs) fun p => ?_
  rw [mem_prefixesOf hids hs, mem_prefixesOf hids' ht]
  exact ⟨h.sole hsame, h.symm.sole hsame.symm⟩

theorem shapes (hids : (w.subjects.map Subject.id).Nodup) {rate : Limits → Int}
    (hd : d ∈ w.subjects.filterMap (shape (gather w) fun s => rate s.limits)) :
    d ∈ w'.subjects.filterMap (shape (gather w') fun s => rate s.limits) := by
  obtain ⟨s, hs, hshape⟩ := mem_filterMap.mp hd
  obtain ⟨t, ht, hsame⟩ := Multiset.exists_mem_of_rel_of_mem h.subjects hs
  refine mem_filterMap.mpr ⟨t, ht, ?_⟩
  rw [shape_eq_some_iff] at hshape ⊢
  rw [← h.prefixesOf_eq hids hs ht hsame, ← hsame.id, ← hsame.limits]
  exact hshape

theorem sortSubjects_eq (text : PrefixText) (hids : (w.subjects.map Subject.id).Nodup) (rate : Limits → Int) :
    sortSubjects text (w.subjects.filterMap (shape (gather w) fun s => rate s.limits)) =
      sortSubjects text (w'.subjects.filterMap (shape (gather w') fun s => rate s.limits)) := by
  have hids' := h.nodup hids
  have hperm : (w.subjects.filterMap (shape (gather w) fun s => rate s.limits)).Perm
      (w'.subjects.filterMap (shape (gather w') fun s => rate s.limits)) :=
    (perm_ext_iff_of_nodup (nodup_shapes hids) (nodup_shapes hids')).mpr fun _ => ⟨h.shapes hids, h.symm.shapes hids'⟩
  have hsorted : ∀ l, (Shaping.sortSubjects text l).Pairwise fun a b => a.key text ≤ b.key text := pairwise_insertionSort _
  refine List.Perm.eq_of_pairwise (fun a b ha hb hab hba => ?_) (hsorted _) (hsorted _)
    (((perm_insertionSort _ _).trans hperm).trans (perm_insertionSort _ _).symm)
  have ha' := (perm_insertionSort _ _).mem_iff.mp ha
  have hb' := h.symm.shapes hids' ((perm_insertionSort _ _).mem_iff.mp hb)
  exact eq_of_key_eq text hids ha' hb' (le_antisymm hab hba)

end DeviceWant.Reordered

theorem Namespaces.owns_of_mirrorOf {ns : Namespaces} {device : String} (h : (ns.mirrorOf device).isSome) : ns.owns device = true := by
  simp only [Namespaces.mirrorOf, Namespaces.suffixOf, Option.isSome_map, Namespaces.namespaceOf, Option.isSome_or, Bool.or_eq_true,
    List.find?_isSome] at h
  simp only [Namespaces.owns, Namespaces.deviceID, Option.isSome_or, Bool.or_eq_true, List.findSome?_isSome_iff]
  rcases h with ⟨p, hp, hsome⟩ | ⟨p, hp, hsome⟩
  · exact .inr (.inr (.inl ⟨p, hp, hsome⟩))
  · exact .inr (.inr (.inr ⟨p, hp, hsome⟩))

theorem planDevice_eq (text : PrefixText) {ns : Namespaces} {mirror : String} (h : ns.mirrorOf w.device = some mirror) :
    planDevice text ns w = (⟨w.device, mirror, sortSubjects text (w.subjects.filterMap (shape (gather w) fun s => s.limits.downBps)),
      sortSubjects text (w.subjects.filterMap (shape (gather w) fun s => s.limits.upBps))⟩, (gather w).failures) := by
  have howns : ns.owns w.device = true := Namespaces.owns_of_mirrorOf (by rw [h]; rfl)
  unfold planDevice
  rw [howns, h]
  rfl

structure Tree (subjects : List Subject) (bps : Subject → Int) (tree : List Shaped) : Prop where
  subject : ∀ d ∈ tree, d.id ∈ subjects.map Subject.id
  claimant : ∀ s ∈ subjects, ∀ p, (∃ d ∈ tree, d.id = s.id ∧ p ∈ d.prefixes) ↔
    s.lists p ∧ (∀ t ∈ subjects, t.id ≠ s.id → ¬ t.lists p) ∧ 8 ≤ bps s
  once : (tree.flatMap Shaped.prefixes).Nodup

theorem tree_sortSubjects (text : PrefixText) (hids : (w.subjects.map Subject.id).Nodup) (bps : Subject → Int) :
    Tree w.subjects bps (sortSubjects text (w.subjects.filterMap (shape (gather w) bps))) := by
  have hperm : (sortSubjects text (w.subjects.filterMap (shape (gather w) bps))).Perm (w.subjects.filterMap (shape (gather w) bps)) :=
    perm_insertionSort _ _
  refine ⟨fun d hd => ?_, fun s hs p => ?_, ?_⟩
  · obtain ⟨s, hs, hshape⟩ := mem_filterMap.mp (hperm.mem_iff.mp hd)
    obtain ⟨-, -, rfl⟩ := shape_eq_some_iff.mp hshape
    exact mem_map_of_mem hs
  · simp only [hperm.mem_iff]
    rw [mem_shapes_iff hids hs, Sole, and_assoc]
  · exact (hperm.flatMap_right _).nodup_iff.mpr (nodup_flatMap_prefixes hids)

theorem planDevice_uncontested (text : PrefixText) (ns : Namespaces) (w : DeviceWant) (hdevice : (ns.mirrorOf w.device).isSome)
    (hids : (w.subjects.map Subject.id).Nodup) :
    Tree w.subjects (fun s => s.limits.downBps) (planDevice text ns w).1.download ∧
      Tree w.subjects (fun s => s.limits.upBps) (planDevice text ns w).1.upload ∧
      ∀ w', w.Reordered w' → (planDevice text ns w').1 = (planDevice text ns w).1 := by
  obtain ⟨mirror, hmirror⟩ := Option.isSome_iff_exists.mp hdevice
  rw [planDevice_eq text hmirror]
  refine ⟨tree_sortSubjects text hids _, tree_sortSubjects text hids _, fun w' h => ?_⟩
  rw [planDevice_eq text (h.device ▸ hmirror)]
  rw [h.device, h.sortSubjects_eq text hids Limits.downBps, h.sortSubjects_eq text hids Limits.upBps]

/-- The text that the plan is sorted by in the source. -/
def netipText : PrefixText := ⟨Prefix.string, Prefix.string_injective, Prefix.comma_not_mem_string⟩

/-- Of two subjects that both list one address, the first is shaped by its other address alone. -/
theorem planDevice_uncontested_pair :
    let host (n : Nat) : Key := ⟨some ⟨⟨.v4, n⟩, 32⟩, 0⟩
    let w : DeviceWant := ⟨"pwg7", [⟨"a", [host 1, host 2], ⟨0, 800⟩⟩, ⟨"b", [host 2], ⟨0, 800⟩⟩]⟩
    (planDevice netipText defaultNamespaces w).1.download = [⟨"a", [⟨⟨.v4, 1⟩, 32⟩], 100⟩] ∧
      Tree w.subjects (fun s => s.limits.downBps) (planDevice netipText defaultNamespaces w).1.download := by
  refine ⟨by decide +kernel, ?_⟩
  exact (planDevice_uncontested netipText defaultNamespaces _ (by decide +kernel) (by decide)).1

end Shaping

end Pui
