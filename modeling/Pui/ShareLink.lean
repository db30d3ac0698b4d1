import Mathlib.Data.List.Perm.Basic
import Mathlib.Data.Option.Basic
import Pui.Json
import Pui.Table

/-!
# Fields of share links

A field of a share link is searched for by its key in a tree of JSON values whose maps are walked in no particular
order.
-/

namespace Pui

open Table List

namespace ShareLink

/-! ### The search -/

mutual

/-- The first value under the key, where each map is walked in the order of its fields. -/
def searchKey (key : String) : Json → Option Json
  | .object fields => searchFields key fields
  | .array items => searchItems key items
  | .null | .bool _ | .number _ | .string _ => none

def searchFields (key : String) : List (String × Json) → Option Json
  | [] => none
  | (k, v) :: fields =>
    if k = key then some v
    else match searchKey key v with
      | some result => some result
      | none => searchFields key fields

def searchItems (key : String) : List Json → Option Json
  | [] => none
  | v :: items =>
    match searchKey key v with
    | some result => some result
    | none => searchItems key items

end

/-- What the search finds at a field: the field itself, or what its value holds. -/
def reach (key : String) (field : String × Json) : Option Json := if field.1 = key then some field.2 else searchKey key field.2

theorem searchFields_eq (key : String) (fields : List (String × Json)) : searchFields key fields = fields.findSome? (reach key) := by
  induction fields with
  | nil => rfl
  | cons field fields ih =>
    rw [searchFields, List.findSome?_cons, reach]
    split
    · rfl
    · cases searchKey key field.2 with
      | none => exact ih
      | some result => rfl

theorem searchItems_eq (key : String) (items : List Json) : searchItems key items = items.findSome? (searchKey key) := by
  induction items with
  | nil => rfl
  | cons v items ih =>
    rw [searchItems, List.findSome?_cons]
    cases searchKey key v with
    | none => exact ih
    | some result => rfl

/-! ### Trees up to the order of their maps -/

/-- The same tree, with the fields of its maps in another order. -/
inductive Reordered : Json → Json → Prop where
  | refl (t : Json) : Reordered t t
  | trans {t t' t'' : Json} (h : Reordered t t') (h' : Reordered t' t'') : Reordered t t''
  | perm {fields fields' : List (String × Json)} (h : fields.Perm fields') : Reordered (.object fields) (.object fields')
  | field {v v' : Json} (k : String) (fields : List (String × Json)) (h : Reordered v v') :
      Reordered (.object ((k, v) :: fields)) (.object ((k, v') :: fields))
  | head {v v' : Json} (items : List Json) (h : Reordered v v') : Reordered (.array (v :: items)) (.array (v' :: items))
  | tail {items items' : List Json} (v : Json) (h : Reordered (.array items) (.array items')) :
      Reordered (.array (v :: items)) (.array (v :: items'))

variable {key : String} {t t' v v' : Json} {items : List Json} {fields : List (String × Json)}

theorem Reordered.symm (h : Reordered t t') : Reordered t' t := by
  induction h with
  | refl t => exact .refl t
  | trans _ _ ih ih' => exact ih'.trans ih
  | perm h => exact .perm h.symm
  | field k fields _ ih => exact .field k fields ih
  | head items _ ih => exact .head items ih
  | tail v _ ih => exact .tail v ih

/-- Any field of a map can be walked first. -/
theorem Reordered.front {k : String} (hmem : (k, v) ∈ fields) (h : Reordered v v') :
    ∃ rest, Reordered (.object fields) (.object ((k, v') :: rest)) := by
  obtain ⟨l, l', rfl⟩ := append_of_mem hmem
  exact ⟨l ++ l', (Reordered.perm perm_middle).trans (.field k _ h)⟩

theorem Reordered.array_left (h : Reordered t t') (ht : t = .array items) : ∃ items', t' = .array items' := by
  induction h generalizing items with
  | refl => exact ⟨items, ht⟩
  | trans _ _ ih ih' =>
    obtain ⟨_, hmid⟩ := ih ht
    exact ih' hmid
  | perm | field => cases ht
  | head | tail => exact ⟨_, rfl⟩

theorem Reordered.null_left (h : Reordered t t') (ht : t = .null) : t' = .null := by
  induction h with
  | refl => exact ht
  | trans _ _ ih ih' => exact ih' (ih ht)
  | perm | field | head | tail => cases ht

theorem Reordered.object_left (h : Reordered t t') (ht : t = .object fields) : ∃ fields', t' = .object fields' := by
  induction h generalizing fields with
  | refl => exact ⟨fields, ht⟩
  | trans _ _ ih ih' =>
    obtain ⟨_, hmid⟩ := ih ht
    exact ih' hmid
  | perm | field => exact ⟨_, rfl⟩
  | head | tail => cases ht

/-! ### What a search may return -/

/-- The key is somewhere in the tree. -/
inductive Occurs (key : String) : Json → Prop where
  | entry {fields : List (String × Json)} {v : Json} (h : (key, v) ∈ fields) : Occurs key (.object fields)
  | field {fields : List (String × Json)} {k : String} {v : Json} (h : (k, v) ∈ fields) (hv : Occurs key v) :
      Occurs key (.object fields)
  | item {items : List Json} {v : Json} (h : v ∈ items) (hv : Occurs key v) : Occurs key (.array items)

/-- A value that stands under the key, with no entry of the key above it and no item that holds the key before it in an array. -/
inductive Candidate (key : String) : Json → Json → Prop where
  | entry {fields : List (String × Json)} {v : Json} (h : (key, v) ∈ fields) : Candidate key (.object fields) v
  | field {fields : List (String × Json)} {k : String} {w v : Json} (h : (k, w) ∈ fields) (hk : k ≠ key)
      (hv : Candidate key w v) : Candidate key (.object fields) v
  | head {items : List Json} {w v : Json} (hv : Candidate key w v) : Candidate key (.array (w :: items)) v
  | tail {items : List Json} {w v : Json} (hw : ¬Occurs key w) (hv : Candidate key (.array items) v) :
      Candidate key (.array (w :: items)) v

theorem occurs_object : Occurs key (.object fields) ↔ ∃ e ∈ fields, e.1 = key ∨ Occurs key e.2 := by
  constructor
  · intro h
    cases h with
    | entry h => exact ⟨_, h, .inl rfl⟩
    | field h hv => exact ⟨_, h, .inr hv⟩
  · rintro ⟨⟨k, v⟩, h, rfl | hv⟩
    · exact .entry h
    · exact .field h hv

theorem occurs_array : Occurs key (.array items) ↔ ∃ v ∈ items, Occurs key v :=
  ⟨fun h => by cases h with | item h hv => exact ⟨_, h, hv⟩, fun ⟨_, h, hv⟩ => .item h hv⟩

theorem Candidate.occurs (h : Candidate key t v) : Occurs key t := by
  induction h with
  | entry h => exact .entry h
  | field h _ _ ih => exact .field h ih
  | head _ ih => exact .item mem_cons_self ih
  | tail _ _ ih =>
    obtain ⟨u, hu, hocc⟩ := occurs_array.mp ih
    exact .item (mem_cons_of_mem _ hu) hocc

theorem searchKey_eq_none_of_not (h : searchKey key t = none) : ¬Occurs key t := by
  intro hocc
  induction hocc with
  | @entry fields v hmem =>
    rw [searchKey, searchFields_eq, List.findSome?_eq_none_iff] at h
    simpa [reach] using h _ hmem
  | @field fields k v hmem _ ih =>
    rw [searchKey, searchFields_eq, List.findSome?_eq_none_iff] at h
    have hnone := h _ hmem
    unfold reach at hnone
    split at hnone
    · cases hnone
    · exact ih hnone
  | item hmem _ ih =>
    rw [searchKey, searchItems_eq, List.findSome?_eq_none_iff] at h
    exact ih (h _ hmem)

mutual

theorem candidate_of_searchKey : ∀ t, searchKey key t = some v → Candidate key t v
  | .null, h | .bool _, h | .number _, h | .string _, h => nomatch h
  | .array items, h => candidate_of_searchItems items h
  | .object fields, h => by
    obtain ⟨k, w, hmem, ⟨rfl, rfl⟩ | ⟨hk, hv⟩⟩ := candidate_of_searchFields fields h
    · exact .entry hmem
    · exact .field hmem hk hv

theorem candidate_of_searchFields : ∀ fields, searchFields key fields = some v →
    ∃ k w, (k, w) ∈ fields ∧ (k = key ∧ w = v ∨ k ≠ key ∧ Candidate key w v)
  | [], h => nomatch h
  | (k, w) :: fields, h => by
    rw [searchFields] at h
    split at h
    · next hk => exact ⟨k, w, mem_cons_self, .inl ⟨hk, Option.some.inj h⟩⟩
    · next hk =>
      split at h
      · next hw => exact ⟨k, w, mem_cons_self, .inr ⟨hk, candidate_of_searchKey w (hw.trans h)⟩⟩
      · obtain ⟨k', w', hmem, hor⟩ := candidate_of_searchFields fields h
        exact ⟨k', w', mem_cons_of_mem _ hmem, hor⟩

theorem candidate_of_searchItems : ∀ items, searchItems key items = some v → Candidate key (.array items) v
  | [], h => nomatch h
  | w :: items, h => by
    rw [searchItems] at h
    split at h
    · next hw => exact .head (candidate_of_searchKey w (hw.trans h))
    · next hw => exact .tail (searchKey_eq_none_of_not hw) (candidate_of_searchItems items h)

end

theorem searchKey_eq_none : searchKey key t = none ↔ ¬Occurs key t := by
  refine ⟨searchKey_eq_none_of_not, fun h => ?_⟩
  cases hfound : searchKey key t with
  | none => rfl
  | some v => exact absurd (candidate_of_searchKey t hfound).occurs h

theorem Occurs.iff_of_reordered (h : Reordered t t') : Occurs key t ↔ Occurs key t' := by
  induction h with
  | refl => rfl
  | trans _ _ ih ih' => exact ih.trans ih'
  | perm h => simp only [occurs_object, h.mem_iff]
  | field k fields _ ih => simp only [occurs_object, exists_mem_cons_iff, ih]
  | head items _ ih => simp only [occurs_array, exists_mem_cons_iff, ih]
  | tail v _ ih => rw [occurs_array, occurs_array, exists_mem_cons_iff, exists_mem_cons_iff, ← occurs_array, ih, occurs_array]

/-- The candidates of a tree in another order are the candidates of the tree. -/
theorem Candidate.reordered (h : Reordered t t') (hv : Candidate key t' v') : ∃ v, Candidate key t v ∧ Reordered v v' := by
  induction h generalizing v' with
  | refl => exact ⟨v', hv, .refl v'⟩
  | trans _ _ ih ih' =>
    obtain ⟨w, hw, hwv⟩ := ih' hv
    obtain ⟨v, hv, hvw⟩ := ih hw
    exact ⟨v, hv, hvw.trans hwv⟩
  | perm h =>
    cases hv with
    | entry hmem => exact ⟨v', .entry (h.mem_iff.mpr hmem), .refl v'⟩
    | field hmem hk hv => exact ⟨v', .field (h.mem_iff.mpr hmem) hk hv, .refl v'⟩
  | field k fields h ih =>
    cases hv with
    | entry hmem =>
      rcases mem_cons.mp hmem with heq | hmem
      · cases heq
        exact ⟨_, .entry mem_cons_self, h⟩
      · exact ⟨v', .entry (mem_cons_of_mem _ hmem), .refl v'⟩
    | field hmem hk hv =>
      rcases mem_cons.mp hmem with heq | hmem
      · cases heq
        obtain ⟨v, hv, hvv⟩ := ih hv
        exact ⟨v, .field mem_cons_self hk hv, hvv⟩
      · exact ⟨v', .field (mem_cons_of_mem _ hmem) hk hv, .refl v'⟩
  | head items h ih =>
    cases hv with
    | head hv =>
      obtain ⟨v, hv, hvv⟩ := ih hv
      exact ⟨v, .head hv, hvv⟩
    | tail hw hv => exact ⟨v', .tail (mt (Occurs.iff_of_reordered h).mp hw) hv, .refl v'⟩
  | tail w _ ih =>
    cases hv with
    | head hv => exact ⟨v', .head hv, .refl v'⟩
    | tail hw hv =>
      obtain ⟨v, hv, hvv⟩ := ih hv
      exact ⟨v, .tail hw hv, hvv⟩

/-- Every candidate is what the search returns in some order. -/
theorem Candidate.found (h : Candidate key t v) (hv : Reordered v v') : ∃ t', Reordered t t' ∧ searchKey key t' = some v' := by
  induction h with
  | entry hmem =>
    obtain ⟨rest, hrest⟩ := Reordered.front hmem hv
    exact ⟨_, hrest, by simp [searchKey, searchFields]⟩
  | field hmem hk _ ih =>
    obtain ⟨w', hw, hfound⟩ := ih hv
    obtain ⟨rest, hrest⟩ := Reordered.front hmem hw
    exact ⟨_, hrest, by simp [searchKey, searchFields, hk, hfound]⟩
  | @head items w v _ ih =>
    obtain ⟨w', hw, hfound⟩ := ih hv
    exact ⟨_, .head items hw, by simp [searchKey, searchItems, hfound]⟩
  | @tail items w v hnot _ ih =>
    obtain ⟨t', ht, hfound⟩ := ih hv
    obtain ⟨items', rfl⟩ := ht.array_left rfl
    refine ⟨_, .tail w ht, ?_⟩
    rw [searchKey, searchItems, searchKey_eq_none.mpr hnot]
    exact hfound

/-- What a search for the key may return, by the order in which the maps are walked. -/
def MayFind (key : String) (t : Json) : Option Json → Prop
  | some v => Candidate key t v
  | none => ¬Occurs key t

theorem mayFind_searchKey (key : String) (t : Json) : MayFind key t (searchKey key t) := by
  cases hfound : searchKey key t with
  | none => exact searchKey_eq_none.mp hfound
  | some v => exact candidate_of_searchKey t hfound

variable {r r' : Option Json}

theorem MayFind.reordered (ht : Reordered t t') (h : MayFind key t' r') : ∃ r, MayFind key t r ∧ Option.Rel Reordered r r' := by
  cases r' with
  | none => exact ⟨none, mt (Occurs.iff_of_reordered ht).mp h, .none⟩
  | some v' =>
    obtain ⟨v, hv, hvv⟩ := Candidate.reordered ht h
    exact ⟨some v, hv, .some hvv⟩

theorem MayFind.found (h : MayFind key t r) (hr : Option.Rel Reordered r r') : ∃ t', Reordered t t' ∧ searchKey key t' = r' := by
  cases hr with
  | none => exact ⟨t, .refl t, searchKey_eq_none.mpr h⟩
  | some hv => exact Candidate.found h hv

/-- What may be returned counts as the same, whatever it is. -/
def Settled {α : Type} (May : α → Prop) (Same : α → α → Prop) : Prop := ∀ r r', May r → May r' → Same r r'

/-- A result does not depend on the order of the maps if and only if it is settled over what may be returned. -/
theorem settled_iff {α : Type} {Same : α → α → Prop} (hsame : Equivalence Same) (run : Json → α) (May : Json → α → Prop)
    (hmay : ∀ t', Reordered t t' → ∃ r, May t r ∧ Same r (run t'))
    (hfound : ∀ r, May t r → ∃ t', Reordered t t' ∧ Same (run t') r) :
    (∀ t', Reordered t t' → Same (run t) (run t')) ↔ Settled (May t) Same := by
  constructor
  · intro h r r' hr hr'
    obtain ⟨u, hu, hur⟩ := hfound r hr
    obtain ⟨u', hu', hur'⟩ := hfound r' hr'
    exact hsame.trans (hsame.symm (hsame.trans (h u hu) hur)) (hsame.trans (h u' hu') hur')
  · intro h t' ht
    obtain ⟨r, hr, hrt⟩ := hmay t (.refl t)
    obtain ⟨r', hr', hrt'⟩ := hmay t' ht
    exact hsame.trans (hsame.symm hrt) (hsame.trans (h r r' hr hr') hrt')

theorem rel_reordered_refl (r : Option Json) : Option.Rel Reordered r r := by
  cases r with
  | none => exact .none
  | some v => exact .some (.refl v)

theorem rel_reordered : Equivalence (Option.Rel Reordered) where
  refl := rel_reordered_refl
  symm h := by
    cases h with
    | none => exact .none
    | some h => exact .some h.symm
  trans h h' := by
    cases h with
    | none => exact h'
    | some h =>
      cases h' with
      | some h' => exact .some (h.trans h')

theorem searchKey_settled : (∀ t', Reordered t t' → Option.Rel Reordered (searchKey key t) (searchKey key t')) ↔
    ∀ v v', Candidate key t v → Candidate key t v' → Reordered v v' := by
  refine (settled_iff rel_reordered _ (MayFind key) (fun t' ht => (mayFind_searchKey key t').reordered ht) fun r hr => ?_).trans ?_
  · obtain ⟨t', ht, rfl⟩ := hr.found (rel_reordered_refl r)
    exact ⟨t', ht, rel_reordered_refl _⟩
  · constructor
    · intro h v v' hv hv'
      cases h (some v) (some v') hv hv' with
      | some hvv => exact hvv
    · intro h r r' hr hr'
      cases r with
      | none =>
        cases r' with
        | none => exact .none
        | some v' => exact absurd (Candidate.occurs hr') hr
      | some v =>
        cases r' with
        | none => exact absurd (Candidate.occurs hr) hr'
        | some v' => exact .some (h v v' hr hr')

/-! ### The host of the headers -/

def foldRune (c : Char) : Char :=
  if c = Char.ofNat 0x17f then 's' else if c = Char.ofNat 0x212a then 'k' else c.toLower

def equalFold (k text : String) : Bool := k.toList.map foldRune = text.toList.map foldRune

def text : Json → String
  | .string s => s
  | _ => ""

def hostOf (field : String × Json) : Option String :=
  if equalFold field.1 "host" then
    match field.2 with
    | .null => none
    | .array [] => some ""
    | .array (h :: _) => some (text h)
    | v => some (text v)
  else none

def searchHost : Json → String
  | .object data => (data.findSome? hostOf).getD ""
  | _ => ""

theorem text_reordered (h : Reordered v v') : text v = text v' := by
  induction h with
  | trans _ _ ih ih' => exact ih.trans ih'
  | refl | perm | field | head | tail => rfl

theorem hostOf_reordered {k : String} (h : Reordered v v') : hostOf (k, v) = hostOf (k, v') := by
  induction h with
  | trans _ _ ih ih' => exact ih.trans ih'
  | head items h _ => simp only [hostOf, text_reordered h]
  | refl | perm | field | tail => rfl

/-- A header that folds to the host has this text. -/
def Hosts : Json → String → Prop
  | .object data, host => ∃ e ∈ data, hostOf e = some host
  | _, _ => False

theorem Hosts.iff_of_reordered (h : Reordered t t') (host : String) : Hosts t host ↔ Hosts t' host := by
  induction h with
  | trans _ _ ih ih' => exact ih.trans ih'
  | perm h => simp only [Hosts, h.mem_iff]
  | field k fields h _ => simp only [Hosts, exists_mem_cons_iff, hostOf_reordered h]
  | refl | head | tail => rfl

theorem searchHost_cases (t : Json) : Hosts t (searchHost t) ∨ (∀ host, ¬Hosts t host) ∧ searchHost t = "" := by
  cases t with
  | object data =>
    rw [searchHost]
    cases hfound : data.findSome? hostOf with
    | none =>
      refine .inr ⟨fun host ⟨e, he, hhost⟩ => ?_, rfl⟩
      rw [List.findSome?_eq_none_iff.mp hfound e he] at hhost
      cases hhost
    | some host => exact .inl (List.exists_of_findSome?_eq_some hfound)
  | null | bool | number | string | array => exact .inr ⟨fun _ h => h, rfl⟩

theorem searchHost_settled (t : Json) :
    (∀ t', Reordered t t' → searchHost t = searchHost t') ↔ ∀ host host', Hosts t host → Hosts t host' → host = host' := by
  constructor
  · intro h
    have hfirst : ∀ host, Hosts t host → searchHost t = host := by
      intro host hhost
      cases t with
      | object data =>
        obtain ⟨⟨k, v⟩, he, hhost⟩ := hhost
        obtain ⟨rest, hrest⟩ := Reordered.front he (.refl v)
        rw [h _ hrest, searchHost, findSome?_cons, hhost]
        rfl
      | null | bool | number | string | array => exact hhost.elim
    exact fun host host' hhost hhost' => (hfirst host hhost).symm.trans (hfirst host' hhost')
  · intro h t' ht
    rcases searchHost_cases t with hhost | ⟨hnone, hempty⟩
    · rcases searchHost_cases t' with hhost' | ⟨hnone', -⟩
      · exact h _ _ hhost ((Hosts.iff_of_reordered ht _).mpr hhost')
      · exact absurd ((Hosts.iff_of_reordered ht _).mp hhost) (hnone' _)
    · rcases searchHost_cases t' with hhost' | ⟨-, hempty'⟩
      · exact absurd ((Hosts.iff_of_reordered ht _).mpr hhost') (hnone _)
      · rw [hempty, hempty']

/-! ### The fields of a reality link -/

structure Sums where
  head : String → Nat
  hex : String → String
  drawn : String

def deriveListIndex (sums : Sums) (field clientKey : String) (n : Nat) : Nat :=
  if n ≤ 1 then 0 else sums.head (field ++ "|" ++ clientKey) % n

def deriveSpiderX (sums : Sums) (seed clientKey : String) : String :=
  if seed = "" ∧ clientKey = "" then "/" ++ sums.drawn
  else "/" ++ String.ofList ((sums.hex (seed ++ "|" ++ clientKey)).toList.take 15)

def listText (sums : Sums) (field clientKey : String) : Option Json → Option String
  | some (.array (v :: vs)) => some (text ((v :: vs).getD (deriveListIndex sums field clientKey (v :: vs).length) .null))
  | _ => none

def nonEmpty (found : Option Json) : Option String := (found.map text).filter (· ≠ "")

def putSome (params : Table String String) (name : String) : Option String → Table String String
  | none => params
  | some value => params.put name value

/-- What a reality link reads off the settings. -/
structure RealityTexts where
  pinned : Option String
  names : Option String
  pbk : Option String
  sid : Option String
  fp : Option String
  pqv : Option String
  spx : String

def realityTexts (sums : Sums) (clientKey : String) (realitySetting : Json) : RealityTexts :=
  let realitySettings := (searchKey "settings" realitySetting).getD .null
  { pinned := nonEmpty (searchKey "serverName" realitySettings)
    names := listText sums "sni" clientKey (searchKey "serverNames" realitySetting)
    pbk := (searchKey "publicKey" realitySettings).map text
    sid := listText sums "sid" clientKey (searchKey "shortIds" realitySetting)
    fp := nonEmpty (searchKey "fingerprint" realitySettings)
    pqv := nonEmpty (searchKey "mldsa65Verify" realitySettings)
    spx := deriveSpiderX sums (((searchKey "spiderX" realitySettings).map text).getD "") clientKey }

def fillReality (params : Table String String) (x : RealityTexts) : Table String String :=
  let params := putSome params "sni" x.pinned
  let params := if (params.get? "sni").isSome then params else putSome params "sni" x.names
  let params := putSome params "pbk" x.pbk
  let params := putSome params "sid" x.sid
  let params := putSome params "fp" x.fp
  let params := putSome params "pqv" x.pqv
  params.put "spx" x.spx

def applyShareRealityParams (sums : Sums) (stream : Table String Json) (params : Table String String) (clientKey : String) :
    Table String String :=
  let params := params.put "security" "reality"
  match stream.get? "realitySettings" with
  | some (.object fields) => fillReality params (realityTexts sums clientKey (.object fields))
  | _ => params

theorem map_text_reordered {r r' : Option Json} (h : Option.Rel Reordered r r') : r.map text = r'.map text := by
  cases h with
  | none => rfl
  | some hv => exact congrArg some (text_reordered hv)

def itemTexts : Json → List String
  | .array items => items.map text
  | .null | .bool _ | .number _ | .string _ | .object _ => []

theorem itemTexts_reordered (h : Reordered v v') : itemTexts v = itemTexts v' := by
  induction h with
  | trans _ _ ih ih' => exact ih.trans ih'
  | head items h _ => exact congrArg (· :: items.map text) (text_reordered h)
  | tail v _ ih => exact congrArg (text v :: ·) ih
  | refl | perm | field => rfl

theorem listText_some (sums : Sums) (field clientKey : String) (v : Json) :
    listText sums field clientKey (some v) =
      (itemTexts v).head?.map fun _ => (itemTexts v).getD (deriveListIndex sums field clientKey (itemTexts v).length) "" := by
  cases v with
  | array items =>
    cases items with
    | nil => rfl
    | cons w items =>
      simp only [itemTexts, listText, length_map, getD_eq_getElem?_getD, getElem?_map]
      cases (w :: items)[deriveListIndex sums field clientKey (w :: items).length]? <;> rfl
  | null | bool | number | string | object => rfl

theorem listText_reordered (sums : Sums) (field clientKey : String) {r r' : Option Json} (h : Option.Rel Reordered r r') :
    listText sums field clientKey r = listText sums field clientKey r' := by
  cases h with
  | none => rfl
  | some hv => rw [listText_some, listText_some, itemTexts_reordered hv]

/-- Readings of a search are compared by what is read off them. -/
def SameBy {α : Type} (read : Option Json → α) (r r' : Option Json) : Prop := read r = read r'

theorem sameBy {α : Type} (read : Option Json → α) : Equivalence (SameBy read) := ⟨fun _ => rfl, Eq.symm, Eq.trans⟩

theorem settled_find {α : Type} {read : Option Json → α} (hread : ∀ r r', Option.Rel Reordered r r' → read r = read r') :
    (∀ t', Reordered t t' → read (searchKey key t) = read (searchKey key t')) ↔ Settled (MayFind key t) (SameBy read) := by
  refine settled_iff (sameBy read) _ _ (fun t' ht => ?_) fun r hr => ?_
  · obtain ⟨r, hr, hrel⟩ := (mayFind_searchKey key t').reordered ht
    exact ⟨r, hr, hread _ _ hrel⟩
  · obtain ⟨t', ht, rfl⟩ := hr.found (rel_reordered_refl r)
    exact ⟨t', ht, rfl⟩

/-- What a search for the key in the settings may return. -/
def MayFindSetting (key : String) (t : Json) (r : Option Json) : Prop :=
  ∃ s, MayFind "settings" t s ∧ MayFind key (s.getD .null) r

theorem settled_settings {α : Type} {read : Option Json → α} (hread : ∀ r r', Option.Rel Reordered r r' → read r = read r') :
    (∀ t', Reordered t t' → read (searchKey key ((searchKey "settings" t).getD .null)) =
      read (searchKey key ((searchKey "settings" t').getD .null))) ↔ Settled (MayFindSetting key t) (SameBy read) := by
  refine settled_iff (sameBy read) (fun t => searchKey key ((searchKey "settings" t).getD .null)) _ (fun t' ht => ?_) ?_
  · obtain ⟨s, hs, hrel⟩ := (mayFind_searchKey "settings" t').reordered ht
    have hsettings : Reordered (s.getD .null) ((searchKey "settings" t').getD .null) := by
      generalize searchKey "settings" t' = s' at hrel
      cases hrel with
      | none => exact .refl _
      | some hv => exact hv
    obtain ⟨r, hr, hrr⟩ := (mayFind_searchKey key _).reordered hsettings
    exact ⟨r, ⟨s, hs, hr⟩, hread _ _ hrr⟩
  · rintro r ⟨s, hs, hr⟩
    obtain ⟨u, hu, rfl⟩ := hr.found (rel_reordered_refl r)
    obtain ⟨s', hrel, rfl⟩ : ∃ s', Option.Rel Reordered s s' ∧ s'.getD .null = u := by
      cases s with
      | none => exact ⟨none, .none, (hu.null_left rfl).symm⟩
      | some v => exact ⟨some u, .some hu, rfl⟩
    obtain ⟨t', ht, rfl⟩ := hs.found hrel
    exact ⟨t', ht, rfl⟩

/-- The readings of a reality link that the order of the maps could change, and does not. -/
structure LinkSettled (sums : Sums) (clientKey : String) (t : Json) : Prop where
  serverName : Settled (MayFindSetting "serverName" t) (SameBy nonEmpty)
  /-- Where no name is pinned, one of the list is taken. -/
  serverNames : (∃ r, MayFindSetting "serverName" t r ∧ nonEmpty r = none) →
    Settled (MayFind "serverNames" t) (SameBy (listText sums "sni" clientKey))
  publicKey : Settled (MayFindSetting "publicKey" t) (SameBy (Option.map text))
  shortIds : Settled (MayFind "shortIds" t) (SameBy (listText sums "sid" clientKey))
  fingerprint : Settled (MayFindSetting "fingerprint" t) (SameBy nonEmpty)
  mldsa65Verify : Settled (MayFindSetting "mldsa65Verify" t) (SameBy nonEmpty)
  spiderX : Settled (MayFindSetting "spiderX" t) (SameBy fun r => deriveSpiderX sums ((r.map text).getD "") clientKey)

@[simp] theorem get?_putSome (params : Table String String) (name k : String) (o : Option String) :
    (putSome params name o).get? k = if k = name then o.or (params.get? k) else params.get? k := by
  cases o with
  | none => simp [putSome]
  | some value => simp [putSome, get?_put]

/-- A link has all that it is filled with, but for the names beside a pinned one. -/
theorem fillReality_eq_iff {x x' : RealityTexts} :
    (∀ params : Table String String, fillReality (params.put "security" "reality") x = fillReality (params.put "security" "reality") x') ↔
      x.pinned = x'.pinned ∧ (x.pinned = none → x.names = x'.names) ∧ x.pbk = x'.pbk ∧ x.sid = x'.sid ∧ x.fp = x'.fp ∧
        x.pqv = x'.pqv ∧ x.spx = x'.spx := by
  constructor
  · intro h
    have hsni : ∀ (params : Table String String) (x : RealityTexts),
        (fillReality (params.put "security" "reality") x).get? "sni" = (x.pinned.or (params.get? "sni")).or x.names := by
      intro params x
      cases hpinned : x.pinned <;> cases hn : params.get? "sni" <;> simp [fillReality, hpinned, hn]
    have hrest : ∀ x : RealityTexts, let filled := fillReality (Table.put ∅ "security" "reality") x
        filled.get? "pbk" = x.pbk ∧ filled.get? "sid" = x.sid ∧ filled.get? "fp" = x.fp ∧ filled.get? "pqv" = x.pqv ∧
          filled.get? "spx" = some x.spx := by
      intro x
      cases hpinned : x.pinned <;> simp [fillReality, hpinned]
    -- a name of the caller tells a pinned name from none
    have hpinned : x.pinned = x'.pinned := by
      have hany : ∀ q, x.pinned.or (some q) = x'.pinned.or (some q) := by
        intro q
        have hq := congrArg (Table.get? · "sni") (h (Table.put ∅ "sni" q))
        simpa [hsni] using hq
      have hlong : ∀ s : String, s ++ "a" ≠ s := fun s heq => by simpa using congrArg String.length heq
      cases hp : x.pinned with
      | none =>
        cases hp' : x'.pinned with
        | none => rfl
        | some s => exact absurd (by simpa [hp, hp'] using hany (s ++ "a")) (hlong s)
      | some s =>
        cases hp' : x'.pinned with
        | none => exact absurd (by simpa [hp, hp'] using (hany (s ++ "a")).symm) (hlong s)
        | some s' => simpa [hp, hp'] using hany ""
    have hempty := h ∅
    have hnames := congrArg (Table.get? · "sni") hempty
    simp only [hsni, get?_empty, Option.or_none] at hnames
    obtain ⟨hpbk, hsid, hfp, hpqv, hspx⟩ := hrest x
    rw [hempty] at hpbk hsid hfp hpqv hspx
    obtain ⟨hpbk', hsid', hfp', hpqv', hspx'⟩ := hrest x'
    refine ⟨hpinned, fun hnone => ?_, hpbk.symm.trans hpbk', hsid.symm.trans hsid', hfp.symm.trans hfp', hpqv.symm.trans hpqv',
      Option.some.inj (hspx.symm.trans hspx')⟩
    rwa [← hpinned, hnone, Option.none_or, Option.none_or] at hnames
  · rintro ⟨hpinned, hnames, hpbk, hsid, hfp, hpqv, hspx⟩ params
    cases hp : x.pinned with
    | none => simp only [fillReality, ← hpinned, hnames hp, hpbk, hsid, hfp, hpqv, hspx]
    | some s => simp only [fillReality, ← hpinned, hp, putSome, get?_put_self, Option.isSome_some, if_true, hpbk, hsid, hfp, hpqv, hspx]

theorem applyShareRealityParams_settled (sums : Sums) (clientKey : String) (data : List (String × Json)) :
    (∀ t', Reordered (.object data) t' → ∀ (stream : Table String Json) params,
      applyShareRealityParams sums (stream.put "realitySettings" (.object data)) params clientKey =
        applyShareRealityParams sums (stream.put "realitySettings" t') params clientKey) ↔
      LinkSettled sums clientKey (.object data) := by
  have hnonEmpty : ∀ r r', Option.Rel Reordered r r' → nonEmpty r = nonEmpty r' := fun r r' h => by
    rw [nonEmpty, map_text_reordered h, nonEmpty]
  have hspider : ∀ r r', Option.Rel Reordered r r' →
      deriveSpiderX sums ((r.map text).getD "") clientKey = deriveSpiderX sums ((r'.map text).getD "") clientKey :=
    fun r r' h => by rw [map_text_reordered h]
  have hlist : ∀ field r r', Option.Rel Reordered r r' → listText sums field clientKey r = listText sums field clientKey r' :=
    fun field _ _ => listText_reordered sums field clientKey
  have hsettings : ∀ key, MayFindSetting key (.object data) (searchKey key ((searchKey "settings" (.object data)).getD .null)) :=
    fun key => ⟨_, mayFind_searchKey .., mayFind_searchKey ..⟩
  have hfill : ∀ t', Reordered (.object data) t' → ((∀ (stream : Table String Json) params,
      applyShareRealityParams sums (stream.put "realitySettings" (.object data)) params clientKey =
        applyShareRealityParams sums (stream.put "realitySettings" t') params clientKey) ↔
      ∀ params : Table String String, fillReality (params.put "security" "reality") (realityTexts sums clientKey (.object data)) =
        fillReality (params.put "security" "reality") (realityTexts sums clientKey t')) := by
    intro t' ht
    obtain ⟨data', rfl⟩ := ht.object_left rfl
    simp only [applyShareRealityParams, get?_put_self, forall_const]
  constructor
  · intro h
    have hall := fun t' ht => fillReality_eq_iff.mp ((hfill t' ht).mp (h t' ht))
    have hname := (settled_settings hnonEmpty).mp fun t' ht => (hall t' ht).1
    refine ⟨hname, ?_, ?_, ?_, ?_, ?_, ?_⟩
    · rintro ⟨r, hr, hnone⟩
      exact (settled_find (hlist "sni")).mp fun t' ht => (hall t' ht).2.1 ((hname _ r (hsettings _) hr).trans hnone)
    · exact (settled_settings fun _ _ => map_text_reordered).mp fun t' ht => (hall t' ht).2.2.1
    · exact (settled_find (hlist "sid")).mp fun t' ht => (hall t' ht).2.2.2.1
    · exact (settled_settings hnonEmpty).mp fun t' ht => (hall t' ht).2.2.2.2.1
    · exact (settled_settings hnonEmpty).mp fun t' ht => (hall t' ht).2.2.2.2.2.1
    · exact (settled_settings hspider).mp fun t' ht => (hall t' ht).2.2.2.2.2.2
  · intro h t' ht
    refine (hfill t' ht).mpr (fillReality_eq_iff.mpr ⟨?_, fun hnone => ?_, ?_, ?_, ?_, ?_, ?_⟩)
    · exact (settled_settings hnonEmpty).mpr h.serverName t' ht
    · have hnames := h.serverNames ⟨_, hsettings _, hnone⟩
      exact (settled_find (hlist "sni")).mpr hnames t' ht
    · exact (settled_settings fun _ _ => map_text_reordered).mpr h.publicKey t' ht
    · exact (settled_find (hlist "sid")).mpr h.shortIds t' ht
    · exact (settled_settings hnonEmpty).mpr h.fingerprint t' ht
    · exact (settled_settings hnonEmpty).mpr h.mldsa65Verify t' ht
    · exact (settled_settings hspider).mpr h.spiderX t' ht

/-- The value that is found, the host of the headers and the fields of a reality link do not depend on the order in which the maps of the
settings are walked if and only if the entries that the walk may come to first agree. -/
theorem share_link_settled (key : String) (t : Json) (sums : Sums) (clientKey : String) (data : List (String × Json)) :
    ((∀ t', Reordered t t' → Option.Rel Reordered (searchKey key t) (searchKey key t')) ↔
      ∀ v v', Candidate key t v → Candidate key t v' → Reordered v v') ∧
    ((∀ t', Reordered t t' → searchHost t = searchHost t') ↔ ∀ host host', Hosts t host → Hosts t host' → host = host') ∧
    ((∀ t', Reordered (.object data) t' → ∀ (stream : Table String Json) params,
      applyShareRealityParams sums (stream.put "realitySettings" (.object data)) params clientKey =
        applyShareRealityParams sums (stream.put "realitySettings" t') params clientKey) ↔
      LinkSettled sums clientKey (.object data)) :=
  ⟨searchKey_settled, searchHost_settled t, applyShareRealityParams_settled sums clientKey data⟩

namespace Sample

def tlsSettings : Json :=
  .object [("serverName", .string "a.example"), ("settings", .object [("serverName", .string "b.example")])]

def tlsSettings' : Json :=
  .object [("settings", .object [("serverName", .string "b.example")]), ("serverName", .string "a.example")]

theorem reordered_tlsSettings : Reordered tlsSettings tlsSettings' :=
  .perm (.swap _ _ _)

def repeated : Json :=
  .object [("serverName", .string "a.example"), ("settings", .object [("serverName", .string "a.example")])]

end Sample

/-- A server name that stands twice, the same, is found in every order. -/
theorem share_link_settled_repeated : ∀ t', Reordered Sample.repeated t' →
    Option.Rel Reordered (searchKey "serverName" Sample.repeated) (searchKey "serverName" t') := by
  refine (share_link_settled "serverName" Sample.repeated ⟨String.length, id, ""⟩ "" []).1.mpr ?_
  have hone : ∀ v, Candidate "serverName" Sample.repeated v → v = .string "a.example" := by
    intro v hv
    cases hv with
    | entry hmem => simpa using hmem
    | field hmem hk hv =>
      simp only [mem_cons, Prod.mk.injEq, not_mem_nil, or_false] at hmem
      rcases hmem with ⟨rfl, -⟩ | ⟨-, rfl⟩
      · exact absurd rfl hk
      · cases hv with
        | entry hmem => simpa using hmem
        | field hmem hk _ =>
          simp only [mem_cons, Prod.mk.injEq, not_mem_nil, or_false] at hmem
          exact absurd hmem.1 hk
  intro v v' hv hv'
  rw [hone v hv, hone v' hv']
  exact .refl _

/-- A server name at two depths: which of the two the link has is decided by the order in which the map is walked. -/
theorem searchKey_depends_on_order :
    Reordered Sample.tlsSettings Sample.tlsSettings' ∧ searchKey "serverName" Sample.tlsSettings = some (.string "a.example") ∧
      searchKey "serverName" Sample.tlsSettings' = some (.string "b.example") :=
  ⟨Sample.reordered_tlsSettings, by decide +kernel, by decide +kernel⟩

end ShareLink

end Pui
