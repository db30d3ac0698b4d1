import Mathlib.Data.String.Basic
import Pui.Decimal
import Pui.Run

/-!
# Names of shaped devices

A device that is shaped carries in its name its namespace and the id of its inbound.
-/

namespace Pui

namespace Shaping

variable {p : String} {suffix : List Char}

open Decimal List Option

def wireguardPrefix : String := "pwg"

def amneziawgPrefix : String := "pawg"

def egressPrefix : String := "peg"

def ifbPrefix : String := "pifb"

def minID : Int := 1

def maxDeviceName : Nat := 15

def atoi : List Char → Option Int
  | '-' :: ds => (value ds).bind fun n => if n ≤ 2 ^ 63 then some (-n) else none
  | '+' :: ds => (value ds).bind fun n => if n < 2 ^ 63 then some n else none
  | ds => (value ds).bind fun n => if n < 2 ^ 63 then some n else none

def cutPrefix (s p : String) : Option (List Char) :=
  if p.toList.isPrefixOf s.toList then some (s.toList.drop p.toList.length) else none

def ownedID (name p : String) : Option Int :=
  match cutPrefix name p with
  | none => none
  | some rest =>
    if name.utf8ByteSize > maxDeviceName then none
    else match atoi rest with
      | none => none
      | some id => if id < minID ∨ p ++ toString id ≠ name then none else some id

def familyDevice (p : String) (id n : Int) : String := p ++ toString id ++ "-" ++ toString n

def ownedFamilyID (name p : String) : Option Int :=
  match cutPrefix name p with
  | none => none
  | some rest =>
    if name.utf8ByteSize > maxDeviceName then none
    else match cut '-' rest with
      | (_, none) => none
      | (idPart, some nPart) =>
        match atoi idPart with
        | none => none
        | some id =>
          if id < minID then none
          else match atoi nPart with
            | none => none
            | some n => if n < 0 ∨ familyDevice p id n ≠ name then none else some id

def mirrorDevice (suffix : List Char) : String := ifbPrefix ++ String.ofList suffix

def ownedMirror (name : String) : Option (List Char) :=
  match cutPrefix name ifbPrefix with
  | none => none
  | some rest => if (ownedID name ifbPrefix).isSome then some rest
    else if (ownedFamilyID name ifbPrefix).isSome then some rest
    else none

inductive NamespaceError where
  | empty
  | bad (p : String)
  | duplicate (p : String)
  deriving DecidableEq

structure Namespaces where
  shapeable : List String
  families : List String
  deriving DecidableEq

def defaultNamespaces : Namespaces := ⟨[wireguardPrefix, amneziawgPrefix, egressPrefix], []⟩

def isLetter (c : Char) : Bool := 'a' ≤ c && c ≤ 'z'

def checkPrefix (p : String) : Except NamespaceError Unit :=
  if p = "" then .error .empty
  else if p.toList.any fun c => !isLetter c then .error (.bad p)
  else if p.utf8ByteSize + 1 > maxDeviceName then .error (.bad p)
  else .ok ()

namespace Namespaces

def claimed (ns : Namespaces) (p : String) : Bool := ns.shapeable.contains p || ns.families.contains p

def add (ns : Namespaces) (p : String) (next : Namespaces) : Except NamespaceError Namespaces := do
  checkPrefix p
  if ns.claimed p then .error (.duplicate p) else .ok next

def register (ns : Namespaces) (p : String) : Except NamespaceError Namespaces := ns.add p { ns with shapeable := ns.shapeable ++ [p] }

def registerFamily (ns : Namespaces) (p : String) : Except NamespaceError Namespaces := ns.add p { ns with families := ns.families ++ [p] }

def deviceID (ns : Namespaces) (device : String) : Option Int :=
  (ownedID device ifbPrefix).or ((ownedFamilyID device ifbPrefix).or
    ((ns.shapeable.findSome? (ownedID device)).or (ns.families.findSome? (ownedFamilyID device))))

def owns (ns : Namespaces) (device : String) : Bool := (ns.deviceID device).isSome

def namespaceOf (ns : Namespaces) (device : String) : Option String :=
  (ns.shapeable.find? fun p => (ownedID device p).isSome).or (ns.families.find? fun p => (ownedFamilyID device p).isSome)

def suffixOf (ns : Namespaces) (device : String) : Option (List Char) :=
  (ns.namespaceOf device).map fun p => device.toList.drop p.toList.length

def mirrorOf (ns : Namespaces) (device : String) : Option String := (ns.suffixOf device).map mirrorDevice

end Namespaces

theorem atoi_toDigits {n : Nat} (h : n < 2 ^ 63) : atoi (Nat.toDigits 10 n) = some (n : Int) := by
  obtain ⟨c, rest, hdigits, hc⟩ := toDigits_eq_cons n
  have hplain : atoi (Nat.toDigits 10 n) = (value (Nat.toDigits 10 n)).bind fun n => if n < 2 ^ 63 then some (n : Int) else none := by
    rw [hdigits]
    unfold atoi
    split
    · rename_i heq
      obtain ⟨rfl, -⟩ := List.cons.inj heq
      cases hc
    · rename_i heq
      obtain ⟨rfl, -⟩ := List.cons.inj heq
      cases hc
    · rfl
  rw [hplain, value_toDigits]
  exact if_pos h

theorem toList_toString_natCast (n : Nat) : (toString (n : Int)).toList = Nat.toDigits 10 n := by
  show (Nat.repr n).toList = _
  simp

theorem toList_familyDevice (p : String) (n m : Nat) :
    (familyDevice p n m).toList = p.toList ++ (Nat.toDigits 10 n ++ '-' :: Nat.toDigits 10 m) := by
  rw [familyDevice, String.toList_append, String.toList_append, String.toList_append, toList_toString_natCast,
    toList_toString_natCast]
  simp

theorem length_le_utf8ByteSize (s : String) : s.toList.length ≤ s.utf8ByteSize := by
  have hsize : s.utf8ByteSize = String.utf8Len s.toList := by
    rw [← String.utf8ByteSize_ofList, String.ofList_toList]
  rw [hsize]
  generalize s.toList = cs
  induction cs with
  | nil => exact Nat.zero_le _
  | cons c cs ih =>
    have hc := c.utf8Size_pos
    rw [length_cons, String.utf8Len_cons]
    omega

theorem lt_of_length_le {n : Nat} (h : (Nat.toDigits 10 n).length ≤ maxDeviceName) : n < 2 ^ 63 := by
  have hlt := (Nat.length_toDigits_le_iff (b := 10) (n := n) (k := 15) (by decide) (by decide)).mp h
  omega

theorem cutPrefix_eq_some_iff {s : String} {rest : List Char} : cutPrefix s p = some rest ↔ s.toList = p.toList ++ rest := by
  unfold cutPrefix
  constructor
  · intro h
    split at h
    · rename_i hpre
      obtain ⟨tail, htail⟩ := isPrefixOf_iff_prefix.mp hpre
      rw [← Option.some.inj h, ← htail, drop_left]
    · cases h
  · intro h
    rw [if_pos ( isPrefixOf_iff_prefix.mpr ⟨rest, h.symm⟩), h, drop_left]

theorem ownedID_eq_some_iff {name : String} {id : Int} :
    ownedID name p = some id ↔
      ∃ n : Nat, 1 ≤ n ∧ id = n ∧ name.toList = p.toList ++ Nat.toDigits 10 n ∧ name.utf8ByteSize ≤ maxDeviceName := by
  constructor
  · intro h
    unfold ownedID at h
    split at h
    · cases h
    · split at h
      · cases h
      · split at h
        · cases h
        · split at h
          · cases h
          · rename_i hsize _ hgood
            obtain rfl := Option.some.inj h
            simp only [not_or, not_lt, ne_eq, not_not, minID] at hgood
            obtain ⟨hpos, hname⟩ := hgood
            refine ⟨Int.toNat _, by omega, (Int.toNat_of_nonneg (by omega)).symm, ?_, by omega⟩
            rw [← hname, String.toList_append, ← toList_toString_natCast, Int.toNat_of_nonneg (by omega)]
  · rintro ⟨n, hpos, rfl, hname, hsize⟩
    have hlength := length_le_utf8ByteSize name
    rw [hname, length_append] at hlength
    have hbuilt : p ++ toString (n : Int) = name := by
      rw [← String.toList_inj, String.toList_append, toList_toString_natCast, hname]
    unfold ownedID
    rw [cutPrefix_eq_some_iff.mpr hname]
    simp only [Nat.not_lt.mpr hsize, if_false, atoi_toDigits (n := n) (lt_of_length_le (by omega))]
    exact if_neg (by rw [not_or, not_not]; exact ⟨by unfold minID; omega, hbuilt⟩)

theorem ownedFamilyID_eq_some_iff {name : String} {id : Int} :
    ownedFamilyID name p = some id ↔ ∃ n m : Nat, 1 ≤ n ∧ id = n ∧
      name.toList = p.toList ++ (Nat.toDigits 10 n ++ '-' :: Nat.toDigits 10 m) ∧ name.utf8ByteSize ≤ maxDeviceName := by
  constructor
  · intro h
    unfold ownedFamilyID at h
    split at h
    · cases h
    · split at h
      · cases h
      · split at h
        · cases h
        · split at h
          · cases h
          · split at h
            · cases h
            · split at h
              · cases h
              · split at h
                · cases h
                · rename_i hsize _ _ _ _ _ _ hid _ m _ hgood
                  obtain rfl := Option.some.inj h
                  simp only [not_or, not_lt, ne_eq, not_not, minID] at hgood hid
                  obtain ⟨hpos, hname⟩ := hgood
                  refine ⟨Int.toNat _, m.toNat, by omega, (Int.toNat_of_nonneg (by omega)).symm, ?_, by omega⟩
                  rw [← hname, ← toList_familyDevice, Int.toNat_of_nonneg (by omega), Int.toNat_of_nonneg (by omega)]
  · rintro ⟨n, m, hpos, rfl, hname, hsize⟩
    have hlength := length_le_utf8ByteSize name
    rw [hname, length_append, length_append, length_cons] at hlength
    have hbuilt : familyDevice p n m = name := by
      rw [← String.toList_inj, hname, toList_familyDevice]
    unfold ownedFamilyID
    rw [cutPrefix_eq_some_iff.mpr hname]
    simp only [Nat.not_lt.mpr hsize, if_false, cut_append (not_mem_toDigits (c := '-') rfl n),
      atoi_toDigits (n := n) (lt_of_length_le (by omega)), atoi_toDigits (n := m) (lt_of_length_le (by omega))]
    rw [if_neg (by unfold minID; omega)]
    exact if_neg (by rw [not_or, not_not]; exact ⟨by omega, hbuilt⟩)

inductive Registration where
  | register (p : String)
  | registerFamily (p : String)

def Namespaces.claim (ns : Namespaces) : Registration → Namespaces
  | .register p => (ns.register p).toOption.getD ns
  | .registerFamily p => (ns.registerFamily p).toOption.getD ns

def Namespaces.Lettered (ns : Namespaces) : Prop := ∀ p ∈ ns.shapeable ++ ns.families, ∀ c ∈ p.toList, isLetter c

theorem checkPrefix_eq_ok (h : checkPrefix p = .ok ()) : ∀ c ∈ p.toList, isLetter c := by
  unfold checkPrefix at h
  split at h
  · cases h
  · split at h
    · cases h
    · rename_i hall
      simpa using hall

theorem add_cases (ns : Namespaces) (p : String) (next : Namespaces) :
    (ns.add p next).toOption.getD ns = ns ∨ checkPrefix p = .ok () ∧ (ns.add p next).toOption.getD ns = next := by
  unfold Namespaces.add
  cases hcheck : checkPrefix p with
  | error e => exact .inl rfl
  | ok _ =>
    by_cases hclaimed : ns.claimed p
    · exact .inl (by simp [hclaimed, Except.toOption, bind, Except.bind])
    · exact .inr ⟨rfl, by simp [hclaimed, Except.toOption, bind, Except.bind]⟩

theorem Namespaces.Lettered.claim {ns : Namespaces} (h : ns.Lettered) (r : Registration) : (ns.claim r).Lettered := by
  cases r with
  | register p =>
    rcases add_cases ns p { ns with shapeable := ns.shapeable ++ [p] } with heq | ⟨hcheck, heq⟩
    · rwa [Namespaces.claim, Namespaces.register, heq]
    · rw [Namespaces.claim, Namespaces.register, heq]
      intro q hq
      rcases mem_append.mp hq with hq | hq
      · rcases mem_append.mp hq with hq | hq
        · exact h q (mem_append_left _ hq)
        · exact mem_singleton.mp hq ▸ checkPrefix_eq_ok hcheck
      · exact h q (mem_append_right _ hq)
  | registerFamily p =>
    rcases add_cases ns p { ns with families := ns.families ++ [p] } with heq | ⟨hcheck, heq⟩
    · rwa [Namespaces.claim, Namespaces.registerFamily, heq]
    · rw [Namespaces.claim, Namespaces.registerFamily, heq]
      intro q hq
      rcases mem_append.mp hq with hq | hq
      · exact h q (mem_append_left _ hq)
      · rcases mem_append.mp hq with hq | hq
        · exact h q (mem_append_right _ hq)
        · exact mem_singleton.mp hq ▸ checkPrefix_eq_ok hcheck

theorem lettered_default : defaultNamespaces.Lettered := by
  have hall : ∀ p ∈ defaultNamespaces.shapeable ++ defaultNamespaces.families, p.toList.all isLetter := by decide
  exact fun p hp => all_eq_true.mp (hall p hp)

def Namespaces.RoundTrips (ns : Namespaces) (device p : String) : Prop :=
  p ∈ ns.shapeable ∧ (ownedID device p).isSome ∨ p ∈ ns.families ∧ (ownedFamilyID device p).isSome

/-- What follows the namespace in a device's name: the inbound's number, and the session's for a device of one session. -/
def numbers (id : Nat) : Option Nat → List Char
  | none => Nat.toDigits 10 id
  | some n => Nat.toDigits 10 id ++ '-' :: Nat.toDigits 10 n

/-- The namespace and the numbers that a device is named by. -/
inductive Namespaces.Names (ns : Namespaces) (device p : String) (id : Nat) : Option Nat → Prop
  | inbound : p ∈ ns.shapeable → device = p ++ toString (id : Int) → ns.Names device p id none
  | session (n : Nat) : p ∈ ns.families → device = familyDevice p id n → ns.Names device p id (some n)

theorem numbers_eq_cons (id : Nat) (session : Option Nat) : ∃ c cs, numbers id session = c :: cs ∧ c.isDigit := by
  obtain ⟨c, rest, heq, hc⟩ := toDigits_eq_cons id
  cases session with
  | none => exact ⟨c, rest, heq, hc⟩
  | some n => exact ⟨c, rest ++ '-' :: Nat.toDigits 10 n, by rw [numbers, heq, cons_append], hc⟩

theorem numbers_inj {id id' : Nat} {session session' : Option Nat} (h : numbers id session = numbers id' session') :
    id = id' ∧ session = session' := by
  -- both texts are cut at the dash, if there is one
  have hcut : ∀ (id : Nat) (session : Option Nat), cut '-' (numbers id session) = (Nat.toDigits 10 id, session.map (Nat.toDigits 10)) := by
    intro id session
    cases session with
    | none => exact cut_of_not_mem (not_mem_toDigits rfl id)
    | some n => exact cut_append (not_mem_toDigits rfl id) _
  have hsame := congrArg (cut '-') h
  rw [hcut, hcut, Prod.mk.injEq] at hsame
  exact ⟨toDigits_inj hsame.1, map_injective (fun _ _ => toDigits_inj) hsame.2⟩

section RoundTrips

variable {ns : Namespaces} {device p q : String} {id : Nat} {session : Option Nat}

theorem Namespaces.Names.mem (h : ns.Names device p id session) : p ∈ ns.shapeable ++ ns.families := by
  cases h with
  | inbound hp _ => exact mem_append_left _ hp
  | session n hp _ => exact mem_append_right _ hp

theorem Namespaces.Names.toList_eq (h : ns.Names device p id session) : device.toList = p.toList ++ numbers id session := by
  cases h with
  | inbound _ hname => rw [hname, String.toList_append, toList_toString_natCast, numbers]
  | session n _ hname => rw [hname, toList_familyDevice, numbers]

theorem Namespaces.RoundTrips.names (h : ns.RoundTrips device p) : ∃ id session, 1 ≤ id ∧ ns.Names device p id session := by
  rcases h with ⟨hp, h⟩ | ⟨hp, h⟩
  · obtain ⟨id, hid⟩ := isSome_iff_exists.mp h
    obtain ⟨n, hpos, -, hname, -⟩ := ownedID_eq_some_iff.mp hid
    refine ⟨n, none, hpos, .inbound hp (String.toList_inj.mp ?_)⟩
    rw [hname, String.toList_append, toList_toString_natCast]
  · obtain ⟨id, hid⟩ := isSome_iff_exists.mp h
    obtain ⟨n, m, hpos, -, hname, -⟩ := ownedFamilyID_eq_some_iff.mp hid
    refine ⟨n, some m, hpos, .session m hp (String.toList_inj.mp ?_)⟩
    rw [hname, toList_familyDevice]

theorem not_isDigit_of_isLetter {c : Char} (h : isLetter c) : ¬ c.isDigit := by
  unfold isLetter at h
  simp only [Bool.and_eq_true, decide_eq_true_eq] at h
  intro hdigit
  simp only [Char.isDigit, Bool.and_eq_true, decide_eq_true_eq] at hdigit
  have hlow : 97 ≤ c.val.toNat := h.1
  have hhigh : c.val.toNat ≤ 57 := hdigit.2
  omega

/-- Namespaces are letters, so a name splits at one place. -/
theorem Namespaces.Names.unique {id' : Nat} {session' : Option Nat} (hns : ns.Lettered) (hp : ns.Names device p id session)
    (hq : ns.Names device q id' session') : p = q ∧ id = id' ∧ session = session' := by
  have hcut := stem_unique (p := fun c => isLetter c) (q := fun c => c.isDigit) (fun c => not_isDigit_of_isLetter)
    (hns p hp.mem) (hns q hq.mem) (numbers_eq_cons id session) (numbers_eq_cons id' session') (hp.toList_eq.symm.trans hq.toList_eq)
  exact ⟨String.toList_inj.mp hcut.1, numbers_inj hcut.2⟩

theorem Namespaces.roundTrips_namespaceOf (h : ns.namespaceOf device = some p) : ns.RoundTrips device p := by
  unfold Namespaces.namespaceOf at h
  rcases or_eq_some_iff.mp h with h | ⟨-, h⟩
  · exact .inl ⟨mem_of_find?_eq_some h, by simpa using List.find?_some h⟩
  · exact .inr ⟨mem_of_find?_eq_some h, by simpa using List.find?_some h⟩

theorem Namespaces.mirrorOf_eq_some {mirror : String} (h : ns.mirrorOf device = some mirror) :
    ∃ p id session, 1 ≤ id ∧ ns.Names device p id session ∧ mirror = mirrorDevice (numbers id session) := by
  unfold Namespaces.mirrorOf Namespaces.suffixOf at h
  simp only [Option.map_map, Option.map_eq_some_iff, Function.comp_apply] at h
  obtain ⟨p, hp, rfl⟩ := h
  obtain ⟨id, session, hpos, hnames⟩ := (Namespaces.roundTrips_namespaceOf hp).names
  exact ⟨p, id, session, hpos, hnames, by rw [hnames.toList_eq, drop_left]⟩

theorem toList_mirrorDevice (suffix : List Char) : (mirrorDevice suffix).toList = ifbPrefix.toList ++ suffix := by
  rw [mirrorDevice, String.toList_append, String.toList_ofList]

theorem mirrorDevice_inj {suffix' : List Char} (h : mirrorDevice suffix = mirrorDevice suffix') : suffix = suffix' := by
  have hlist := congrArg String.toList h
  rw [toList_mirrorDevice, toList_mirrorDevice] at hlist
  exact append_cancel_left hlist

theorem ownedMirror_mirrorDevice (hpos : 1 ≤ id) (session : Option Nat)
    (hsize : (mirrorDevice (numbers id session)).utf8ByteSize ≤ maxDeviceName) :
    ownedMirror (mirrorDevice (numbers id session)) = some (numbers id session) := by
  have hname := toList_mirrorDevice (numbers id session)
  unfold ownedMirror
  rw [cutPrefix_eq_some_iff.mpr hname]
  cases session with
  | none =>
    have hplain : ownedID (mirrorDevice (numbers id none)) ifbPrefix = some (id : Int) :=
      ownedID_eq_some_iff.mpr ⟨id, hpos, rfl, hname, hsize⟩
    simp [hplain]
  | some n =>
    have hfamily : ownedFamilyID (mirrorDevice (numbers id (some n))) ifbPrefix = some (id : Int) :=
      ownedFamilyID_eq_some_iff.mpr ⟨id, n, hpos, rfl, hname, hsize⟩
    simp [hfamily]

end RoundTrips

/-- Over every list of registrations, a device with a mirror is named by a namespace and numbers, and two devices have one mirror if and
only if they have the same numbers, so that devices of one namespace do not. A mirror that fits is taken for one, and no name is of two
namespaces. -/
theorem mirrors_private (rs : List Registration) :
    let ns := Run.after Namespaces.claim defaultNamespaces rs
    (∀ d m, ns.mirrorOf d = some m → ∃ p id session, ns.Names d p id session) ∧
      (∀ d d' m m' p p' id id' session session', d ≠ d' → ns.owns d → ns.owns d' →
        ns.mirrorOf d = some m → ns.mirrorOf d' = some m' → ns.Names d p id session → ns.Names d' p' id' session' →
        (m = m' ↔ id = id' ∧ session = session') ∧ (p = p' → m ≠ m')) ∧
      (∀ d m p id session, ns.mirrorOf d = some m → ns.Names d p id session → m.utf8ByteSize ≤ maxDeviceName →
        ownedMirror m = some (numbers id session)) ∧
      ∀ d p q, ns.RoundTrips d p → ns.RoundTrips d q → p = q := by
  intro ns
  have hns : ns.Lettered := Run.inv_after (I := Namespaces.Lettered) (fun _ r h => h.claim r) lettered_default rs
  have hmirror : ∀ {d m p : String} {id : Nat} {session : Option Nat}, ns.mirrorOf d = some m → ns.Names d p id session →
      1 ≤ id ∧ m = mirrorDevice (numbers id session) := by
    intro d m p id session hm hd
    obtain ⟨q, id', session', hpos, hnames, rfl⟩ := Namespaces.mirrorOf_eq_some hm
    obtain ⟨-, rfl, rfl⟩ := hd.unique hns hnames
    exact ⟨hpos, rfl⟩
  refine ⟨fun d m hm => ?_, fun d d' m m' p p' id id' session session' hne _ _ hm hm' hd hd' => ?_,
    fun d m p id session hm hd hsize => ?_, fun d p q hp hq => ?_⟩
  · obtain ⟨p, id, session, -, hnames, -⟩ := Namespaces.mirrorOf_eq_some hm
    exact ⟨p, id, session, hnames⟩
  · obtain ⟨-, rfl⟩ := hmirror hm hd
    obtain ⟨-, rfl⟩ := hmirror hm' hd'
    refine ⟨⟨fun heq => numbers_inj (mirrorDevice_inj heq), fun ⟨hid, hsession⟩ => by rw [hid, hsession]⟩, ?_⟩
    rintro rfl heq
    refine hne (String.toList_inj.mp ?_)
    rw [hd.toList_eq, hd'.toList_eq, mirrorDevice_inj heq]
  · obtain ⟨hpos, rfl⟩ := hmirror hm hd
    exact ownedMirror_mirrorDevice hpos session hsize
  · obtain ⟨id, session, -, hp⟩ := hp.names
    obtain ⟨id', session', -, hq⟩ := hq.names
    exact (hp.unique hns hq).1

/-- An inbound and an egress with one number have one mirror. -/
theorem mirror_shared :
    defaultNamespaces.owns "pwg7" ∧ defaultNamespaces.owns "peg7" ∧ defaultNamespaces.mirrorOf "pwg7" = some "pifb7" ∧
      defaultNamespaces.mirrorOf "peg7" = some "pifb7" := by
  decide +kernel

end Shaping

end Pui
