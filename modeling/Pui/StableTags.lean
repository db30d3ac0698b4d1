import Mathlib.Data.List.Forall2
import Mathlib.Data.List.Sort
import Pui.Decimal
import Pui.Routing

/-!
# The tags of a subscription's outbounds

`assignStableTags` of `internal/web/service/outbound_subscription.go` and `SuggestTag` of
`internal/util/link/outbound.go`, and the refresh that stores the tags for the next one.
-/

namespace Pui.Outbound

open Table List

abbrev Text := List Char

/-- What the code asks of the `unicode` package. -/
structure Unicode where
  letterOrNumber : Char → Bool
  lower : Char → Char

/-- Every run of characters that are no letters or numbers becomes one dash. -/
def dashed (u : Unicode) : Bool → Text → Text
  | _, [] => []
  | inRun, c :: cs =>
    if u.letterOrNumber c then c :: dashed u false cs
    else if inRun then dashed u true cs else '-' :: dashed u true cs

def replaceDashes : Text → Text
  | '-' :: '-' :: cs => '-' :: replaceDashes cs
  | c :: cs => c :: replaceDashes cs
  | [] => []

def hasDoubleDash : Text → Bool
  | '-' :: '-' :: _ => true
  | _ :: cs => hasDoubleDash cs
  | [] => false

/-- Every round makes the text shorter, so its length bounds their number. -/
def collapseDashes : Nat → Text → Text
  | 0, s => s
  | rounds + 1, s => if hasDoubleDash s then collapseDashes rounds (replaceDashes s) else s

def slugRemark (u : Unicode) (remark : Text) : Text :=
  let s := dashed u false ((Routing.trimSpace remark).map u.lower)
  let s := ((s.dropWhile (· = '-')).reverse.dropWhile (· = '-')).reverse
  if s = [] then [] else collapseDashes s.length s

def suggestTag (u : Unicode) (tagPrefix remark : Text) (idx : Nat) : Text :=
  let base := if slugRemark u remark = [] then Nat.toDigits 10 idx else slugRemark u remark
  let p := if tagPrefix.getLast? = some '-' then tagPrefix.dropLast else tagPrefix
  if p ≠ [] then p ++ '-' :: base else base

abbrev Bytes := List UInt8

/-- How many bytes the character of this first byte has, and the range of the second. -/
def runeStart (b : UInt8) : Nat × UInt8 × UInt8 :=
  if b < 0x80 then (1, 0x80, 0xbf)
  else if b < 0xc2 then (0, 0x80, 0xbf)
  else if b < 0xe0 then (2, 0x80, 0xbf)
  else if b < 0xf0 then (3, if b = 0xe0 then 0xa0 else 0x80, if b = 0xed then 0x9f else 0xbf)
  else if b < 0xf5 then (4, if b = 0xf0 then 0x90 else 0x80, if b = 0xf4 then 0x8f else 0xbf)
  else (0, 0x80, 0xbf)

/-- The length of the UTF-8 character that the bytes start with, zero if there is none. -/
def runeLength : Bytes → Nat
  | [] => 0
  | b :: rest =>
    let (n, lo, hi) := runeStart b
    match rest.take (n - 1) with
    | [] => if n = 1 then 1 else 0
    | c :: cs => if lo ≤ c ∧ c ≤ hi ∧ cs.all (fun d => 0x80 ≤ d ∧ d ≤ 0xbf) ∧ cs.length + 2 = n then n else 0

/-- Each byte that starts no character becomes U+FFFD; every round takes a byte, so the length bounds their number. -/
def replaceInvalid : Nat → Bytes → Bytes
  | rounds + 1, b :: rest =>
    match runeLength (b :: rest) with
    | 0 => [0xef, 0xbf, 0xbd] ++ replaceInvalid rounds rest
    | n + 1 => b :: rest.take n ++ replaceInvalid rounds (rest.drop n)
  | _, _ => []

/-- What is read back of a text that was written as JSON. -/
def jsonText (s : Bytes) : Bytes := replaceInvalid s.length s

/-- What is read back of a map that was written as JSON: its keys are written in order, and the last of two that are the same is read. -/
def jsonMap (m : Table Bytes Text) : Table Bytes Text :=
  (m.entries.insertionSort fun a b => a.1 ≤ b.1).foldl (fun t e => t.put (jsonText e.1) e.2) ∅

structure Link where
  identity : Bytes
  remark : Text
deriving DecidableEq

def suffixed (candidate : Text) (k : Nat) : Text := candidate ++ '-' :: Nat.toDigits 10 k

/-- The candidate, or the first of its numbered variants that is not taken. -/
def firstFree (taken : Text → Bool) (candidate : Text) : Nat → Nat → Text → Option Text
  | 0, _, _ => none
  | tries + 1, k, final =>
    if taken final then firstFree taken candidate tries (k + 1) (suffixed candidate k) else some final

/-- The tag that the link's identity had before, empty if it had none. -/
def identityTag (prev : Table Bytes Text) (l : Link) : Text := (prev.get? l.identity).getD []

def taken (used reserved : List Text) (own t : Text) : Bool := t ∈ used || (t ∈ reserved && t ≠ own)

section
variable (u : Unicode) (prev : Table Bytes Text) (prevTags reserved : List Text) (tagPrefix : Text)

/-- The tag of the link at index `i`, when those in `used` are given away. -/
def assignTag (i : Nat) (used : List Text) (l : Link) : Option Text :=
  let own := identityTag prev l
  let old := prevTags[i]?.getD []
  let candidate :=
    if own ≠ [] then own else if old ≠ [] ∧ old ∉ reserved then old else suggestTag u tagPrefix l.remark i
  firstFree (taken used reserved own) candidate (used.length + reserved.length + 1) 1 candidate

def assignFrom : Nat → List Text → List Link → Option (List Text)
  | _, _, [] => some []
  | i, used, l :: rest => do
    let final ← assignTag u prev prevTags reserved tagPrefix i used l
    let more ← assignFrom (i + 1) (final :: used) rest
    return final :: more

end

def assignStableTags (u : Unicode) (links : List Link) (prev : Table Bytes Text) (prevTags : List Text) (subID : Nat)
    (tagPrefix : Text) : Option (List Text) :=
  let reserved := (links.map (identityTag prev)).filter (· ≠ [])
  assignFrom u prev prevTags reserved
    (if tagPrefix = [] then "sub".toList ++ Nat.toDigits 10 subID ++ ['-'] else tagPrefix) 0 [] links

structure Stored where
  linkIdentities : Table Bytes Text
  lastTags : List Text

/-- The links of one fetch and the prefix configured at that time. -/
structure Fetch where
  links : List Link
  tagPrefix : Text

def Fetch.identities (f : Fetch) : List Bytes := f.links.map Link.identity

def refresh (u : Unicode) (subID : Nat) (s : Stored) (f : Fetch) : Option Stored := do
  let assigned ← assignStableTags u f.links s.linkIdentities s.lastTags subID f.tagPrefix
  let newIdent := (f.links.zip assigned).foldl (fun t p => t.put p.1.identity p.2) ∅
  return { linkIdentities := jsonMap newIdent, lastTags := assigned }

theorem suggestTag_ne_nil (u : Unicode) (tagPrefix remark : Text) (idx : Nat) :
    suggestTag u tagPrefix remark idx ≠ [] := by
  obtain ⟨c, rest, hdigits, -⟩ := Decimal.toDigits_eq_cons idx
  have hbase : (if slugRemark u remark = [] then Nat.toDigits 10 idx else slugRemark u remark) ≠ [] := by
    split
    · simp [hdigits]
    · assumption
  unfold suggestTag
  dsimp only
  generalize (if tagPrefix.getLast? = some '-' then tagPrefix.dropLast else tagPrefix) = p
  split
  · simp
  · exact hbase

theorem suffixed_inj {candidate : Text} {j k : Nat} (h : suffixed candidate j = suffixed candidate k) : j = k :=
  Decimal.toDigits_inj (List.cons.inj (append_cancel_left h)).2

theorem firstFree_eq_some {taken : Text → Bool} {candidate : Text} {tries k : Nat} {final : Text} {l : List Text}
    (hl : l.length < tries) (hfinal : final ≠ []) (hne : ∀ j, k ≤ j → suffixed candidate j ≠ final)
    (hin : taken final → final ∈ l) (hmem : ∀ j, k ≤ j → taken (suffixed candidate j) → suffixed candidate j ∈ l) :
    ∃ tag, firstFree taken candidate tries k final = some tag ∧ taken tag = false ∧ tag ≠ [] := by
  induction tries generalizing k final l with
  | zero => omega
  | succ tries ih =>
    unfold firstFree
    by_cases htaken : taken final
    · rw [if_pos htaken]
      have hlen := length_erase_add_one (hin htaken)
      refine ih (l := l.erase final) (by omega) (by simp [suffixed]) (fun j hj heq => ?_) (fun h => ?_) (fun j hj h => ?_)
      · have := suffixed_inj heq
        omega
      · exact (mem_erase_of_ne (hne k le_rfl)).mpr (hmem k le_rfl h)
      · exact (mem_erase_of_ne (hne j (by omega))).mpr (hmem j (by omega) h)
    · rw [if_neg htaken]
      exact ⟨final, rfl, by simpa using htaken, hfinal⟩

theorem firstFree_start {taken : Text → Bool} {candidate : Text} {used reserved : List Text} (hcandidate : candidate ≠ [])
    (hmem : ∀ {t}, taken t → t ∈ used ++ reserved) :
    ∃ tag, firstFree taken candidate (used.length + reserved.length + 1) 1 candidate = some tag ∧
      taken tag = false ∧ tag ≠ [] :=
  firstFree_eq_some (l := used ++ reserved) (by simp) hcandidate (fun j _ => by simp [suffixed]) hmem
    (fun _ _ => hmem)

/-- The stored tags are not empty, and no two identities share one. -/
def Distinct (prev : Table Bytes Text) : Prop :=
  ∀ id tag, prev.get? id = some tag → tag ≠ [] ∧ ∀ id', prev.get? id' = some tag → id' = id

theorem Distinct.eq_of_identityTag {prev : Table Bytes Text} (h : Distinct prev) {l l' : Link}
    (hne : identityTag prev l ≠ []) (heq : identityTag prev l' = identityTag prev l) : l'.identity = l.identity := by
  unfold identityTag at *
  cases hid : prev.get? l.identity with
  | none => simp [hid] at hne
  | some tag =>
    cases hid' : prev.get? l'.identity with
    | none => simp_all
    | some tag' =>
      obtain rfl : tag' = tag := by simpa [hid, hid'] using heq
      exact (h _ tag' hid).2 _ hid'

section
variable (u : Unicode) {prev : Table Bytes Text} (prevTags : List Text) {reserved : List Text} (tagPrefix : Text)

/-- A link keeps its own tag, and a new tag is none that a link keeps. -/
theorem assignTag_eq_some {used : List Text} {l : Link} (i : Nat)
    (hown : identityTag prev l ≠ [] → identityTag prev l ∉ used) :
    ∃ final, assignTag u prev prevTags reserved tagPrefix i used l = some final ∧ final ≠ [] ∧ final ∉ used ∧
      (identityTag prev l ≠ [] → final = identityTag prev l) ∧
      (identityTag prev l = [] → final ∉ reserved) := by
  unfold assignTag
  dsimp only
  by_cases hid : identityTag prev l = []
  · rw [if_neg (not_not.mpr hid)]
    have hmem : ∀ {t}, taken used reserved (identityTag prev l) t → t ∈ used ++ reserved := by
      intro t ht
      simp only [taken, Bool.or_eq_true, Bool.and_eq_true, decide_eq_true_eq] at ht
      exact mem_append.mpr (ht.imp_right And.left)
    have hcandidate : (if prevTags[i]?.getD [] ≠ [] ∧ prevTags[i]?.getD [] ∉ reserved then prevTags[i]?.getD []
        else suggestTag u tagPrefix l.remark i) ≠ [] := by
      split
      · next h => exact h.1
      · exact suggestTag_ne_nil u tagPrefix l.remark i
    obtain ⟨final, hfinal, htaken, hne⟩ := firstFree_start hcandidate hmem
    simp only [taken, hid, Bool.or_eq_false_iff, Bool.and_eq_false_iff, decide_eq_false_iff_not, not_not] at htaken
    exact ⟨final, hfinal, hne, htaken.1, fun h => absurd hid h, fun _ => htaken.2.resolve_right hne⟩
  · rw [if_pos hid]
    refine ⟨_, if_neg ?_, hid, hown hid, fun _ => rfl, fun h => absurd h hid⟩
    simpa [taken] using hown hid

theorem assignFrom_eq_some (hprev : Distinct prev) {links : List Link} (i : Nat) (used reserved : List Text)
    (hlinks : (links.map Link.identity).Nodup)
    (hown : ∀ l ∈ links, identityTag prev l ≠ [] →
      identityTag prev l ∈ reserved ∧ identityTag prev l ∉ used) :
    ∃ tags, assignFrom u prev prevTags reserved tagPrefix i used links = some tags ∧ tags.Nodup ∧
      (∀ t ∈ tags, t ≠ [] ∧ t ∉ used) ∧
      List.Forall₂ (fun l t => identityTag prev l ≠ [] → t = identityTag prev l) links tags := by
  induction links generalizing used i with
  | nil => exact ⟨[], rfl, nodup_nil, by simp, .nil⟩
  | cons l rest ih =>
    rw [map_cons, nodup_cons] at hlinks
    obtain ⟨final, hfinal, hne, hused, hkeep, hnew⟩ :=
      assignTag_eq_some u prevTags tagPrefix i fun h => (hown l mem_cons_self h).2
    have hrest : ∀ l' ∈ rest, identityTag prev l' ≠ [] →
        identityTag prev l' ∈ reserved ∧ identityTag prev l' ∉ final :: used := by
      intro l' hl' h
      obtain ⟨hres, hnot⟩ := hown l' (mem_cons_of_mem _ hl') h
      refine ⟨hres, fun hmem => ?_⟩
      rcases mem_cons.mp hmem with heq | hmem
      · by_cases hid : identityTag prev l = []
        · exact hnew hid (heq ▸ hres)
        · have := hprev.eq_of_identityTag hid (heq.trans (hkeep hid))
          exact hlinks.1 (this ▸ mem_map_of_mem hl')
      · exact hnot hmem
    obtain ⟨tags, htags, hnodup, hfresh, hkept⟩ := ih (i + 1) _ hlinks.2 hrest
    refine ⟨final :: tags, by rw [assignFrom, hfinal]; simp [htags], ?_, ?_, .cons hkeep hkept⟩
    · exact nodup_cons.mpr ⟨fun h => (hfresh final h).2 mem_cons_self, hnodup⟩
    · rintro t (_ | ⟨_, ht⟩)
      · exact ⟨hne, hused⟩
      · exact ⟨(hfresh t ht).1, fun h => (hfresh t ht).2 (mem_cons_of_mem _ h)⟩

end

/-- What a refresh leaves behind: distinct tags, and every known identity keeps its own. -/
structure Refreshed (s : Stored) (f : Fetch) (s' : Stored) : Prop where
  length : f.links.length = s'.lastTags.length
  nodup : s'.lastTags.Nodup
  ne_nil : ∀ tag ∈ s'.lastTags, tag ≠ []
  tags : ∀ id tag, s'.linkIdentities.get? id = some tag ↔ ∃ l, (l, tag) ∈ f.links.zip s'.lastTags ∧ l.identity = id
  kept : ∀ id ∈ f.identities, ∀ tag, s.linkIdentities.get? id = some tag → s'.linkIdentities.get? id = some tag

theorem get?_foldl_put_iff {α : Type} (key : α → Bytes) (row : α → Text) {l : List α} (hl : (l.map key).Nodup) (id tag) :
    (l.foldl (fun t a => t.put (key a) (row a)) (∅ : Table Bytes Text)).get? id = some tag ↔ ∃ a ∈ l, key a = id ∧ row a = tag := by
  constructor
  · exact fun h => (Table.get?_foldl_put key row h).resolve_left (by simp)
  · rintro ⟨a, ha, rfl, rfl⟩
    rw [Table.get?_foldl_put_of_nodup key row hl]
    have hfound : (l.find? fun b => key b = key a).isSome := List.find?_isSome.mpr ⟨a, ha, by simp⟩
    obtain ⟨b, hb⟩ := Option.isSome_iff_exists.mp hfound
    have hkey : key b = key a := by simpa using List.find?_some hb
    rw [hb, inj_on_of_nodup_map hl (mem_of_find?_eq_some hb) ha hkey]
    rfl

/-- Keys that JSON keeps are read back with their values. -/
theorem get?_jsonMap {m : Table Bytes Text} (h : ∀ k ∈ m.keys, jsonText k = k) (id : Bytes) : (jsonMap m).get? id = m.get? id := by
  have hperm := perm_insertionSort (fun a b : Sigma fun _ : Bytes => Text => a.1 ≤ b.1) m.entries
  have hkeys : (m.entries.insertionSort fun a b => a.1 ≤ b.1).map (fun e => jsonText e.1) =
      (m.entries.insertionSort fun a b => a.1 ≤ b.1).map Sigma.fst :=
    map_congr_left fun e he => h _ (mem_map_of_mem (hperm.mem_iff.mp he))
  have hnodup : ((m.entries.insertionSort fun a b => a.1 ≤ b.1).map fun e => jsonText e.1).Nodup := by
    rw [hkeys]
    exact (hperm.map Sigma.fst).nodup_iff.mpr m.nodupKeys
  refine Option.ext fun tag => ?_
  rw [jsonMap, get?_foldl_put_iff _ _ hnodup, ← mem_entries]
  constructor
  · rintro ⟨⟨k, r⟩, he, hk, rfl⟩
    have hmem := hperm.mem_iff.mp he
    have hkept : jsonText k = k := h k (mem_map_of_mem (f := Sigma.fst) hmem)
    rw [← hk]
    exact hkept.symm ▸ hmem
  · exact fun he => ⟨_, hperm.mem_iff.mpr he, h id (mem_map_of_mem (f := Sigma.fst) he), rfl⟩

theorem get?_linkIdentities {links : List Link} {tags : List Text} (hlinks : (links.map Link.identity).Nodup)
    (hlen : links.length = tags.length) (hvalid : ∀ id ∈ links.map Link.identity, jsonText id = id) (id : Bytes) (tag : Text) :
    (jsonMap ((links.zip tags).foldl (fun t p => t.put p.1.identity p.2) ∅)).get? id = some tag ↔
      ∃ l, (l, tag) ∈ links.zip tags ∧ l.identity = id := by
  have hkeys : ((links.zip tags).map fun p => p.1.identity) = links.map Link.identity := by
    rw [← Function.comp_def Link.identity Prod.fst, ← map_map, map_fst_zip hlen.le]
  have hput := get?_foldl_put_iff (fun p : Link × Text => p.1.identity) Prod.snd (hkeys ▸ hlinks)
  rw [get?_jsonMap fun k hk => ?_, hput]
  · constructor
    · rintro ⟨⟨l, t⟩, hmem, hid, rfl⟩
      exact ⟨l, hmem, hid⟩
    · rintro ⟨l, hmem, hid⟩
      exact ⟨(l, tag), hmem, hid, rfl⟩
  · obtain ⟨tag', htag⟩ := Option.isSome_iff_exists.mp (mem_keys_iff.mp hk)
    obtain ⟨⟨l, t⟩, hmem, rfl, -⟩ := (hput k tag').mp htag
    exact hvalid _ (mem_map_of_mem (of_mem_zip hmem).1)

theorem refresh_eq_some {s : Stored} {f : Fetch} (u : Unicode) (subID : Nat) (hs : Distinct s.linkIdentities)
    (hf : f.identities.Nodup) (hvalid : ∀ id ∈ f.identities, jsonText id = id) :
    ∃ s', refresh u subID s f = some s' ∧ Refreshed s f s' ∧ Distinct s'.linkIdentities := by
  obtain ⟨tags, htags, hnodup, hfresh, hkept⟩ := assignFrom_eq_some u s.lastTags
    (if f.tagPrefix = [] then "sub".toList ++ Nat.toDigits 10 subID ++ ['-'] else f.tagPrefix) hs
    0 [] ((f.links.map (identityTag s.linkIdentities)).filter (· ≠ [])) hf
    (fun l hl h => ⟨mem_filter.mpr ⟨mem_map_of_mem hl, by simpa using h⟩, not_mem_nil⟩)
  obtain ⟨hlen, hkept⟩ := List.forall₂_iff_zip.mp hkept
  have hget := get?_linkIdentities hf hlen hvalid
  refine ⟨⟨_, tags⟩, by rw [refresh, assignStableTags, htags]; rfl, ⟨hlen, hnodup, fun t ht => (hfresh t ht).1, hget, ?_⟩, ?_⟩
  · rintro _ hid tag htag
    obtain ⟨l, hl, rfl⟩ := mem_map.mp hid
    rw [← map_fst_zip hlen.le] at hl
    obtain ⟨⟨l, t⟩, hmem, rfl⟩ := mem_map.mp hl
    have hown : identityTag s.linkIdentities l = tag := by simp [identityTag, htag]
    have ht := hkept hmem (hown ▸ (hs _ _ htag).1)
    exact (hget _ _).mpr ⟨l, ht.trans hown ▸ hmem, rfl⟩
  · intro id tag htag
    obtain ⟨l, hmem, rfl⟩ := (hget _ _).mp htag
    refine ⟨(hfresh tag (of_mem_zip hmem).2).1, fun id' htag' => ?_⟩
    obtain ⟨l', hmem', rfl⟩ := (hget _ _).mp htag'
    have hsnd : ((f.links.zip tags).map Prod.snd).Nodup := (map_snd_zip hlen.ge).symm ▸ hnodup
    have := inj_on_of_nodup_map hsnd hmem' hmem rfl
    rw [(Prod.mk.inj this).1]

theorem refreshes_distinct (u : Unicode) (subID : Nat) {fetches : List Fetch} {s : Stored} (hs : Distinct s.linkIdentities)
    (hf : ∀ f ∈ fetches, f.identities.Nodup) (hvalid : ∀ f ∈ fetches, ∀ id ∈ f.identities, jsonText id = id) :
    ∃ s', fetches.foldlM (refresh u subID) s = some s' ∧ Distinct s'.linkIdentities := by
  induction fetches generalizing s with
  | nil => exact ⟨s, rfl, hs⟩
  | cons f rest ih =>
    obtain ⟨s', hs', -, hdistinct⟩ := refresh_eq_some u subID hs (hf f mem_cons_self) (hvalid f mem_cons_self)
    obtain ⟨s'', hs'', hdistinct'⟩ := ih hdistinct (fun g hg => hf g (mem_cons_of_mem _ hg))
      fun g hg => hvalid g (mem_cons_of_mem _ hg)
    exact ⟨s'', by rw [foldlM_cons, hs']; exact hs'', hdistinct'⟩

/-- Whatever was fetched before, a refresh gives the links different tags, none of them empty, and a link whose identity is valid UTF-8
keeps its tag, as JSON keeps the identity. -/
theorem outbound_tags_are_stable (u : Unicode) (subID : Nat) (history : List Fetch) (f g : Fetch)
    (hdistinct : ∀ x ∈ g :: f :: history, x.identities.Nodup)
    (hvalid : ∀ x ∈ g :: f :: history, ∀ id ∈ x.identities, jsonText id = id) :
    ∃ s s' s'', history.foldlM (refresh u subID) ⟨∅, []⟩ = some s ∧ refresh u subID s f = some s' ∧
      refresh u subID s' g = some s'' ∧ Refreshed s f s' ∧ Refreshed s' g s'' ∧
      (g.identities.Perm f.identities → ∀ id, s''.linkIdentities.get? id = s'.linkIdentities.get? id) := by
  obtain ⟨s, hs, hd⟩ := refreshes_distinct u subID (s := ⟨∅, []⟩) (fun id tag h => by simp at h)
    (fun x hx => hdistinct x (mem_cons_of_mem _ (mem_cons_of_mem _ hx)))
    fun x hx => hvalid x (mem_cons_of_mem _ (mem_cons_of_mem _ hx))
  obtain ⟨s', hs', hf, hd'⟩ := refresh_eq_some u subID hd (hdistinct f (mem_cons_of_mem _ mem_cons_self))
    (hvalid f (mem_cons_of_mem _ mem_cons_self))
  obtain ⟨s'', hs'', hg, -⟩ := refresh_eq_some u subID hd' (hdistinct g mem_cons_self) (hvalid g mem_cons_self)
  refine ⟨s, s', s'', hs, hs', hs'', hf, hg, fun hperm id => ?_⟩
  by_cases hid : id ∈ f.identities
  · obtain ⟨l, hl, rfl⟩ := mem_map.mp hid
    rw [← map_fst_zip hf.length.le] at hl
    obtain ⟨⟨l, tag⟩, hmem, rfl⟩ := mem_map.mp hl
    have htag := (hf.tags _ _).mpr ⟨l, hmem, rfl⟩
    rw [htag, hg.kept _ (hperm.mem_iff.mpr hid) tag htag]
  · have hnone : ∀ {t t' : Stored} {x : Fetch}, Refreshed t x t' → id ∉ x.identities → t'.linkIdentities.get? id = none := by
      intro t t' x hx hmem
      refine Option.eq_none_iff_forall_ne_some.mpr fun tag htag => hmem ?_
      obtain ⟨l, hl, rfl⟩ := (hx.tags _ _).mp htag
      exact mem_map_of_mem (of_mem_zip hl).1
    rw [hnone hf hid, hnone hg fun h => hid (hperm.mem_iff.mp h)]

namespace Sample

def latin : Unicode := ⟨Char.isAlphanum, Char.toLower⟩

def bytes (s : String) : Bytes := s.toList.map fun c => UInt8.ofNat c.toNat

def first : Link := ⟨bytes "vless://a", "Berlin".toList⟩

def second : Link := ⟨bytes "vless://b", "Berlin".toList⟩

/-- The link `trojan://%ff@h#a`. -/
def invalid : Link := ⟨bytes "trojan:trojan://" ++ 0xff :: bytes "@h:443?", "a".toList⟩

end Sample

/-- Two links of one remark keep their tags when they change places. -/
theorem outbound_tags_are_stable_swapped : ∃ s' s'',
    refresh Sample.latin 7 ⟨∅, []⟩ ⟨[Sample.first, Sample.second], []⟩ = some s' ∧
      refresh Sample.latin 7 s' ⟨[Sample.second, Sample.first], []⟩ = some s'' ∧
      ∀ id, s''.linkIdentities.get? id = s'.linkIdentities.get? id := by
  obtain ⟨s, s', s'', hs, hs', hs'', -, -, hperm⟩ := outbound_tags_are_stable Sample.latin 7 []
    ⟨[Sample.first, Sample.second], []⟩ ⟨[Sample.second, Sample.first], []⟩ (by decide) (by decide +kernel)
  obtain rfl := Option.some.inj hs
  exact ⟨s', s'', hs', hs'', hperm (by decide)⟩

/-- A link whose identity is no UTF-8 is not known again, and loses its tag to a link that is put before it. -/
theorem invalid_identity_loses_tag :
    ((refresh Sample.latin 1 ⟨∅, []⟩ ⟨[Sample.invalid], []⟩).map fun s => s.lastTags.map String.ofList) = some ["sub1-a"] ∧
    (((refresh Sample.latin 1 ⟨∅, []⟩ ⟨[Sample.invalid], []⟩).bind fun s =>
      refresh Sample.latin 1 s ⟨[Sample.first, Sample.invalid], []⟩).map fun s => s.lastTags.map String.ofList) =
        some ["sub1-a", "sub1-a-1"] := by
  decide +kernel

end Pui.Outbound
