import Mathlib
import Pui.Guard
import Pui.Routing
import Pui.WireGuard

/-!
# Addresses and keys of new WireGuard clients

A client that is added without keys or without an address gets them.
-/

namespace Pui

open Table Guard List

namespace WireGuard

namespace Prefix

def overlaps (p q : Prefix) : Bool :=
  p.addr.family = q.addr.family && p.addr.value / 2 ^ (p.addr.family.bitLen - min p.bits q.bits) =
    q.addr.value / 2 ^ (p.addr.family.bitLen - min p.bits q.bits)

def isSingleIP (p : Prefix) : Bool := p.bits = p.addr.family.bitLen

end Prefix

def hostPrefix (a : Addr) : Prefix := ⟨a, a.family.bitLen⟩

def CidrText.read : CidrText → Option Prefix
  | .cidr p => some p
  | .host a => some (hostPrefix a)
  | .blank | .malformed _ => none

def wireguardClaimedPrefix (text : CidrText) : Option Prefix := (text.read.filter fun p => 0 < p.bits).map Prefix.masked

def wireguardHostAddr (text : CidrText) : Option Addr := text.read.map Prefix.addr

def usableWireguardV4 (a : Addr) : Bool := a.family = .v4 && a.value ≠ 0

def insideAny (a : Addr) (blocked : List Prefix) : Bool := blocked.any fun p => p.contains a

inductive PoolError where
  | keys (text : String)
  | keyUsed (other : String)
  | badBase (base : CidrText)
  | noFreeAddress (scope : Prefix)
  | invalidEntry (entry : CidrText)
  | noUsableEntry
  | entryUsed (entry : Prefix)
  | entryBlocked (entry : Prefix)
  deriving DecidableEq

def wireguardAllocationBase (used : List CidrText) (fallback : CidrText) : CidrText :=
  let addrs := (used.filterMap wireguardHostAddr).filter usableWireguardV4
  let rebased := (addrs.head?.map fun a => .cidr (Prefix.masked ⟨a, 24⟩)).getD fallback
  match fallback with
  | .cidr configured => if addrs.any configured.contains then .cidr configured.masked else rebased
  | _ => rebased

def wireguardPoolFloorBits : Nat := 16

def defaultWireguardBase : Prefix := ⟨⟨.v4, 10 * 2 ^ 24⟩, 24⟩

def wireguardScopes (p : Prefix) : List Prefix :=
  p :: if p.addr.family = .v4 ∧ p.bits > wireguardPoolFloorBits then [Prefix.masked ⟨p.addr, wireguardPoolFloorBits⟩] else []

def widestScope (p : Prefix) : Prefix := (wireguardScopes p).getLastD p

/-- The first free address of a scope from an address on, in so many steps. -/
def firstFree (free : Addr → Bool) (scope : Prefix) : Nat → Addr → Option Addr
  | 0, _ => none
  | steps + 1, a =>
    if scope.contains a then
      if free a then some a else firstFree free scope steps { a with value := a.value + 1 }
    else none

def searchScope (free : Addr → Bool) (scope : Prefix) : Option Addr :=
  firstFree free scope (2 ^ scope.hostBits) { scope.masked.addr with value := scope.masked.addr.value + 2 }

def wireguardFree (used : List CidrText) (blocked : List Prefix) (a : Addr) : Bool :=
  let claimed := used.filterMap wireguardClaimedPrefix
  let taken := (claimed.filter Prefix.isSingleIP).map Prefix.addr
  let ranges := claimed.filter fun p => !p.isSingleIP
  !taken.contains a && !insideAny a ranges && !insideAny a blocked

def allocateWireguardAddress (used : List CidrText) (base : CidrText) (blocked : List Prefix) : Except PoolError Prefix :=
  let scan (p : Prefix) : Except PoolError Prefix :=
    match (wireguardScopes p).findSome? (searchScope (wireguardFree used blocked)) with
    | some a => .ok (hostPrefix a)
    | none => .error (.noFreeAddress (widestScope p))
  match base with
  | .blank => scan defaultWireguardBase
  | .cidr p => scan p
  | _ => .error (.badBase base)

def normalizeWireguardAllowedIPs (values : List CidrText) : Except PoolError (List Prefix) := do
  let entries ← (values.filter (· ≠ .blank)).mapM fun v => found v.read (.invalidEntry v)
  return entries.eraseDups

def wireguardAllowedIPsCollision (entries : List Prefix) (used : List CidrText) : Option Prefix :=
  let taken := used.filterMap wireguardClaimedPrefix
  entries.find? fun e => (wireguardClaimedPrefix (.cidr e)).any fun p => taken.any p.overlaps

def wireguardBlockedEntry (entries blocked : List Prefix) : Option Prefix := entries.find? fun e => insideAny e.addr blocked

structure PoolClient where
  email : String
  privateKey : String
  publicKey : String
  allowedIPs : List CidrText
  preSharedKey : String := ""
  keepAlive : Int := 0
  deriving DecidableEq

inductive RawField where
  | text (s : String)
  | prefixes (l : List CidrText)
  | number (n : Int)
  deriving DecidableEq

structure WireguardPool where
  base : CidrText
  taken : List CidrText
  blocked : List Prefix

structure KeySource where
  generate : Nat → Except PoolError (String × String)
  publicFromPrivate : String → Except PoolError String

namespace PoolClient

def key (c : PoolClient) : String := String.ofList (Routing.trimSpace c.publicKey.toList)

def withKeys (keys : KeySource) (i : Nat) (c : PoolClient) : Except PoolError PoolClient :=
  if c.privateKey = "" ∧ c.publicKey = "" then do
    let (priv, pub) ← keys.generate i
    return { c with privateKey := priv, publicKey := pub }
  else if c.publicKey = "" then do
    let pub ← keys.publicFromPrivate c.privateKey
    return { c with publicKey := pub }
  else .ok c

def withAllowedIPs (pool : WireguardPool) (base : CidrText) (used : List CidrText) (c : PoolClient) : Except PoolError PoolClient :=
  if c.allowedIPs = [] then do
    let addr ← allocateWireguardAddress used base pool.blocked
    return { c with allowedIPs := [.cidr addr] }
  else do
    let normalized ← normalizeWireguardAllowedIPs c.allowedIPs
    refuse (normalized = []) .noUsableEntry
    match wireguardAllowedIPsCollision normalized used, wireguardBlockedEntry normalized pool.blocked with
    | some hit, _ => .error (.entryUsed hit)
    | none, some hit => .error (.entryBlocked hit)
    | none, none => return { c with allowedIPs := normalized.map .cidr }

def write (c : PoolClient) (raw : Table String RawField) : Table String RawField :=
  let raw := ((raw.put "privateKey" (.text c.privateKey)).put "publicKey" (.text c.publicKey)).put "allowedIPs" (.prefixes c.allowedIPs)
  let raw := if c.preSharedKey ≠ "" then raw.put "preSharedKey" (.text c.preSharedKey) else raw
  if c.keepAlive > 0 then raw.put "keepAlive" (.number c.keepAlive) else raw

end PoolClient

/-- The clients that are filled in so far, and what they and the others have. -/
structure Filling where
  owners : Table String String
  used : List CidrText
  clients : List PoolClient := []
  raws : List (Option (Table String RawField))

def Filling.next (keys : KeySource) (pool : WireguardPool) (base : CidrText) (s : Filling) (e : PoolClient × Nat) : Except PoolError Filling := do
  let c ← e.1.withKeys keys e.2
  match s.owners.get? c.key with
  | some other => .error (.keyUsed other)
  | none => do
    let c ← c.withAllowedIPs pool base s.used
    return ⟨s.owners.put c.key c.email, s.used ++ c.allowedIPs, s.clients ++ [c], s.raws.modify e.2 (Option.map c.write)⟩

def keyOwners (existing : List PoolClient) : Table String String :=
  existing.foldl (fun owners c => if c.key = "" ∨ (owners.get? c.key).isSome then owners else owners.put c.key c.email) ∅

def defaultWireguardClients (keys : KeySource) (existing clients : List PoolClient) (raws : List (Option (Table String RawField)))
    (pool : WireguardPool) : Except PoolError Filling :=
  let own := existing.flatMap PoolClient.allowedIPs
  clients.zipIdx.foldlM (Filling.next keys pool (wireguardAllocationBase own pool.base))
    { owners := keyOwners existing, used := pool.taken ++ own, raws := raws }

section

variable {p q : Prefix} {a b : Addr} {text : CidrText} {used : List CidrText} {blocked : List Prefix}

theorem Prefix.overlaps_comm (p q : Prefix) : p.overlaps q = q.overlaps p := by
  unfold overlaps
  by_cases hfamily : p.addr.family = q.addr.family
  · simp only [hfamily, min_comm p.bits, eq_comm (a := p.addr.value / _)]
  · simp only [hfamily, Ne.symm hfamily, decide_false, Bool.false_and]

theorem Prefix.overlaps_eq (p q : Prefix) : p.overlaps q = if q.bits ≤ p.bits then q.contains p.addr else p.contains q.addr := by
  have hlonger : ∀ p q : Prefix, q.bits ≤ p.bits → p.overlaps q = q.contains p.addr := by
    intro p q hle
    unfold overlaps contains hostBits
    by_cases hfamily : p.addr.family = q.addr.family
    · simp only [hfamily, min_eq_right hle, eq_comm (a := p.addr.value / _)]
    · simp only [hfamily, Ne.symm hfamily, decide_false, Bool.false_and]
  split
  · next hle => exact hlonger p q hle
  · next hlt => rw [overlaps_comm, hlonger q p (by omega)]

theorem Prefix.overlaps_masked (p q : Prefix) : p.masked.overlaps q = p.overlaps q := by
  have hvalue : ∀ m, p.hostBits ≤ m → p.addr.value / 2 ^ p.hostBits * 2 ^ p.hostBits / 2 ^ m = p.addr.value / 2 ^ m := by
    intro m hle
    have hpow : 2 ^ m = 2 ^ p.hostBits * 2 ^ (m - p.hostBits) := by rw [← pow_add, Nat.add_sub_cancel' hle]
    rw [hpow, ← Nat.div_div_eq_div_mul, ← Nat.div_div_eq_div_mul, Nat.mul_div_cancel _ (Nat.two_pow_pos _)]
  have hhost : p.hostBits ≤ p.addr.family.bitLen - min p.bits q.bits := Nat.sub_le_sub_left (Nat.min_le_left _ _) _
  have hsame := hvalue _ hhost
  unfold overlaps
  change (decide _ && decide (p.addr.value / 2 ^ p.hostBits * 2 ^ p.hostBits / 2 ^ (p.addr.family.bitLen - min p.bits q.bits) = _)) = _
  rw [hsame]
  rfl

theorem Prefix.masked_hostPrefix (a : Addr) : (hostPrefix a).masked = hostPrefix a := by
  have hbits : (hostPrefix a).hostBits = 0 := Nat.sub_self _
  unfold masked
  rw [hbits]
  simp

theorem Prefix.overlaps_hostPrefix (p : Prefix) (a : Addr) : (hostPrefix a).overlaps p = p.contains a := by
  rw [overlaps_eq]
  split
  · rfl
  · next hlong =>
    -- a prefix of more bits than there are is one address
    have hhost : ∀ f : Family, f = a.family → f.bitLen - p.bits = 0 := by
      rintro f rfl
      have : ¬p.bits ≤ a.family.bitLen := hlong
      omega
    have hself : a.family.bitLen - a.family.bitLen = 0 := Nat.sub_self _
    unfold contains hostBits hostPrefix
    by_cases hfamily : p.addr.family = a.family
    · simp only [hfamily, hself, hhost _ rfl, pow_zero, Nat.div_one, eq_comm (a := a.value)]
    · simp only [hfamily, Ne.symm hfamily, decide_false, Bool.false_and]

theorem wireguardClaimedPrefix_eq_some : wireguardClaimedPrefix text = some p ↔ ∃ q, text.read = some q ∧ 0 < q.bits ∧ q.masked = p := by
  simp [wireguardClaimedPrefix, Option.map_eq_some_iff, Option.filter_eq_some_iff, and_assoc]

def Apart (l l' : List CidrText) : Prop :=
  ∀ text ∈ l, ∀ text' ∈ l', ∀ p p', wireguardClaimedPrefix text = some p → wireguardClaimedPrefix text' = some p' → p.overlaps p' = false

theorem Apart.symm {l l' : List CidrText} (h : Apart l l') : Apart l' l := by
  intro text htext text' htext' p p' hp hp'
  rw [Prefix.overlaps_comm]
  exact h text' htext' text htext p' p hp' hp

theorem wireguardFree_eq_false : wireguardFree used blocked a = false ↔
    (∃ text ∈ used, ∃ p, wireguardClaimedPrefix text = some p ∧ p.contains a = true) ∨ insideAny a blocked = true := by
  have hsingle : ∀ p : Prefix, p.isSingleIP = true → (p.contains a = true ↔ p.addr = a) := by
    rintro ⟨⟨family, value⟩, bits⟩ hp
    have hzero : family.bitLen - bits = 0 := by
      have : bits = family.bitLen := of_decide_eq_true hp
      omega
    obtain ⟨family', value'⟩ := a
    simp [Prefix.contains, Prefix.hostBits, hzero]
  unfold wireguardFree
  simp only [Bool.and_eq_false_iff, Bool.not_eq_false']
  refine or_congr_left ?_
  rw [contains_iff_mem]
  simp only [insideAny, mem_map, mem_filter, mem_filterMap, any_eq_true, Bool.not_eq_true']
  constructor
  · rintro (⟨p, ⟨⟨text, htext, hclaim⟩, hp⟩, rfl⟩ | ⟨p, ⟨⟨text, htext, hclaim⟩, hp⟩, hin⟩)
    · exact ⟨text, htext, p, hclaim, (hsingle p hp).mpr rfl⟩
    · exact ⟨text, htext, p, hclaim, hin⟩
  · rintro ⟨text, htext, p, hclaim, hin⟩
    cases hp : p.isSingleIP with
    | true => exact .inl ⟨p, ⟨⟨text, htext, hclaim⟩, hp⟩, (hsingle p hp).mp hin⟩
    | false => exact .inr ⟨p, ⟨⟨text, htext, hclaim⟩, hp⟩, hin⟩

variable {free : Addr → Bool} {scope : Prefix} {steps : Nat}

theorem free_of_firstFree (h : firstFree free scope steps a = some b) : free b = true := by
  induction steps generalizing a with
  | zero => cases h
  | succ steps ih =>
    unfold firstFree at h
    split at h
    · split at h
      · next hfree =>
        cases h
        exact hfree
      · exact ih h
    · cases h

theorem Prefix.contains_iff : scope.contains b = true ↔ b.family = scope.addr.family ∧ scope.masked.addr.value ≤ b.value ∧
    b.value < scope.masked.addr.value + 2 ^ scope.hostBits := by
  have hpos : 0 < 2 ^ scope.hostBits := Nat.two_pow_pos _
  simp only [contains, masked, Bool.and_eq_true, decide_eq_true_eq, eq_comm (a := scope.addr.family)]
  refine and_congr_right fun _ => ?_
  rw [eq_comm, Nat.div_eq_iff hpos]
  omega

theorem firstFree_eq_none (h : firstFree free scope steps a = none) (hfamily : a.family = scope.addr.family)
    (hstart : scope.masked.addr.value ≤ a.value) (hb : scope.contains b = true) (hle : a.value ≤ b.value) (hsteps : b.value < a.value + steps) :
    free b = false := by
  induction steps generalizing a with
  | zero => omega
  | succ steps ih =>
    obtain ⟨hfamily', -, hend⟩ := Prefix.contains_iff.mp hb
    unfold firstFree at h
    rw [if_pos (Prefix.contains_iff.mpr ⟨hfamily, hstart, by omega⟩)] at h
    split at h
    · cases h
    · next hnot =>
      by_cases heq : a.value = b.value
      · have hab : a = b := by
          obtain ⟨family, value⟩ := a
          obtain ⟨family', value'⟩ := b
          rw [Addr.mk.injEq]
          exact ⟨hfamily.trans hfamily'.symm, heq⟩
        rw [← hab]
        exact Bool.eq_false_iff.mpr hnot
      · refine ih h hfamily ?_ ?_ ?_
        · exact hstart.trans (Nat.le_succ _)
        · exact Nat.lt_of_le_of_ne hle heq
        · dsimp only
          omega

theorem searchScope_eq_none (h : searchScope free scope = none) (hb : scope.contains b = true) (hle : scope.masked.addr.value + 2 ≤ b.value) :
    free b = false := by
  obtain ⟨-, -, hend⟩ := Prefix.contains_iff.mp hb
  refine firstFree_eq_none h rfl (Nat.le_add_right _ 2) hb hle ?_
  dsimp only
  omega

theorem allocateWireguardAddress_eq_ok {base : CidrText} (h : allocateWireguardAddress used base blocked = .ok p) :
    ∃ a, p = hostPrefix a ∧ wireguardFree used blocked a = true := by
  have hscan : ∀ q : Prefix, (match (wireguardScopes q).findSome? (searchScope (wireguardFree used blocked)) with
      | some a => .ok (hostPrefix a)
      | none => .error (.noFreeAddress (widestScope q))) = (.ok p : Except PoolError Prefix) →
      ∃ a, p = hostPrefix a ∧ wireguardFree used blocked a = true := by
    intro q h
    split at h
    · next a ha =>
      cases h
      obtain ⟨scope, -, hfound⟩ := exists_of_findSome?_eq_some ha
      exact ⟨a, rfl, free_of_firstFree hfound⟩
    · cases h
  unfold allocateWireguardAddress at h
  dsimp only at h
  split at h
  · exact hscan _ h
  · exact hscan _ h
  · cases h

theorem allocateWireguardAddress_eq_error {base : CidrText} {e : PoolError} (h : allocateWireguardAddress used base blocked = .error e) :
    e = .badBase base ∧ base ≠ .blank ∧ (∀ p, base ≠ .cidr p) ∨
      ∃ p, (base = .cidr p ∨ base = .blank ∧ p = defaultWireguardBase) ∧ e = .noFreeAddress (widestScope p) ∧
        ∀ a, (widestScope p).contains a = true → (widestScope p).masked.addr.value + 2 ≤ a.value → wireguardFree used blocked a = false := by
  have hscan : ∀ q : Prefix, (match (wireguardScopes q).findSome? (searchScope (wireguardFree used blocked)) with
      | some a => .ok (hostPrefix a)
      | none => .error (.noFreeAddress (widestScope q))) = (.error e : Except PoolError Prefix) →
      e = .noFreeAddress (widestScope q) ∧
        ∀ a, (widestScope q).contains a = true → (widestScope q).masked.addr.value + 2 ≤ a.value → wireguardFree used blocked a = false := by
    intro q h
    split at h
    · cases h
    · next hnone =>
      cases h
      have hmem : widestScope q ∈ wireguardScopes q := by
        unfold widestScope wireguardScopes
        split <;> simp
      exact ⟨rfl, fun a ha hle => searchScope_eq_none (List.findSome?_eq_none_iff.mp hnone _ hmem) ha hle⟩
  unfold allocateWireguardAddress at h
  dsimp only at h
  split at h
  · exact .inr ⟨_, .inr ⟨rfl, rfl⟩, hscan _ h⟩
  · exact .inr ⟨_, .inl rfl, hscan _ h⟩
  · next hblank hcidr =>
    cases h
    exact .inl ⟨rfl, hblank, hcidr⟩

end

/-- The client with keys and addresses filled in: what it has is kept, and what it has not is added. -/
structure PoolClient.Completes (c c' : PoolClient) : Prop where
  email : c'.email = c.email
  publicKey : c.publicKey ≠ "" → c'.publicKey = c.publicKey
  entered : c.allowedIPs ≠ [] → ∀ text, text ∈ c'.allowedIPs ↔ ∃ p, text = .cidr p ∧ ∃ entry ∈ c.allowedIPs, entry.read = some p
  allocated : c.allowedIPs = [] → ∃ a, c'.allowedIPs = [.cidr (hostPrefix a)]

/-- What the step for a client adds to the clients that are filled in. -/
structure Filled (pool : WireguardPool) (s : Filling) (c c' : PoolClient) (s' : Filling) : Prop where
  clients : s'.clients = s.clients ++ [c']
  used : s'.used = s.used ++ c'.allowedIPs
  owners : s'.owners = s.owners.put c'.key c'.email
  key : s.owners.get? c'.key = none
  completes : c.Completes c'
  apart : Apart c'.allowedIPs s.used
  spares : ∀ p, .cidr p ∈ c'.allowedIPs → insideAny p.addr pool.blocked = false

section

variable {keys : KeySource} {pool : WireguardPool} {base : CidrText} {used : List CidrText} {c c' : PoolClient} {s s' : Filling}

theorem withKeys_eq_ok {i : Nat} (h : c.withKeys keys i = .ok c') :
    c'.email = c.email ∧ (c.publicKey ≠ "" → c'.publicKey = c.publicKey) ∧ c'.allowedIPs = c.allowedIPs := by
  unfold PoolClient.withKeys at h
  split at h
  · next hnone =>
    simp only [bind_eq_ok, pure_eq_ok] at h
    obtain ⟨-, -, rfl⟩ := h
    exact ⟨rfl, fun hne => absurd hnone.2 hne, rfl⟩
  · split at h
    · next hnone =>
      simp only [bind_eq_ok, pure_eq_ok] at h
      obtain ⟨-, -, rfl⟩ := h
      exact ⟨rfl, fun hne => absurd hnone hne, rfl⟩
    · cases h
      exact ⟨rfl, fun _ => rfl, rfl⟩

theorem withAllowedIPs_eq_ok (h : c.withAllowedIPs pool base used = .ok c') :
    c'.key = c.key ∧ c.Completes c' ∧ Apart c'.allowedIPs used ∧
      ∀ p, .cidr p ∈ c'.allowedIPs → insideAny p.addr pool.blocked = false := by
  unfold PoolClient.withAllowedIPs at h
  split at h
  · next hempty =>
    simp only [bind_eq_ok, pure_eq_ok] at h
    obtain ⟨p, hp, rfl⟩ := h
    obtain ⟨a, rfl, hfree⟩ := allocateWireguardAddress_eq_ok hp
    have hnot := mt wireguardFree_eq_false.mpr (by rw [hfree]; decide)
    rw [not_or] at hnot
    refine ⟨rfl, ⟨rfl, fun _ => rfl, absurd hempty, fun _ => ⟨a, rfl⟩⟩, fun text htext text' htext' q q' hq hq' => ?_,
      fun p hp => ?_⟩
    · rw [mem_singleton.mp htext, wireguardClaimedPrefix_eq_some] at hq
      obtain ⟨_, heq, -, rfl⟩ := hq
      cases heq
      rw [Prefix.masked_hostPrefix, Prefix.overlaps_hostPrefix, Bool.eq_false_iff]
      exact fun hin => hnot.1 ⟨text', htext', q', hq', hin⟩
    · cases mem_singleton.mp hp
      exact Bool.eq_false_iff.mpr hnot.2
  · next hentered =>
    simp only [bind_eq_ok, normalizeWireguardAllowedIPs, pure_eq_ok] at h
    obtain ⟨_, ⟨entries, hentries, rfl⟩, -, -, h⟩ := h
    split at h
    · cases h
    · cases h
    · next hcollision hblocked =>
      cases h
      have hread : ∀ p, p ∈ entries ↔ ∃ entry ∈ c.allowedIPs, entry.read = some p := by
        refine fun p => ⟨fun hp => ?_, ?_⟩
        · obtain ⟨entry, hentry, hread⟩ := exists_of_mem_mapM hentries hp
          exact ⟨entry, (mem_filter.mp hentry).1, found_eq_ok.mp hread⟩
        · rintro ⟨entry, hentry, hread⟩
          have hblank : entry ≠ .blank := by
            rintro rfl
            cases hread
          obtain ⟨_, hp, hfound⟩ := exists_mem_of_mapM hentries (mem_filter.mpr ⟨hentry, decide_eq_true hblank⟩)
          cases hread.symm.trans (found_eq_ok.mp hfound)
          exact hp
      refine ⟨rfl, ⟨rfl, fun _ => rfl, fun _ text => ?_, fun hempty => absurd hempty hentered⟩,
        fun text htext text' htext' q q' hq hq' => ?_, fun p hp => ?_⟩
      · simp only [mem_map, mem_eraseDups, hread, and_comm, eq_comm (b := text)]
      · obtain ⟨p, hp, rfl⟩ := mem_map.mp htext
        have hnone := List.find?_eq_none.mp hcollision p hp
        rw [hq, Option.any_some, any_eq_true] at hnone
        exact Bool.eq_false_iff.mpr fun hover => hnone ⟨q', mem_filterMap.mpr ⟨text', htext', hq'⟩, hover⟩
      · obtain ⟨q, hp, heq⟩ := mem_map.mp hp
        cases heq
        exact Bool.eq_false_iff.mpr (List.find?_eq_none.mp hblocked p hp)

theorem next_eq_ok {i : Nat} (h : s.next keys pool base (c, i) = .ok s') : ∃ c', Filled pool s c c' s' := by
  simp only [Filling.next, bind_eq_ok] at h
  obtain ⟨keyed, hkeyed, h⟩ := h
  obtain ⟨hemail, hpublic, hips⟩ := withKeys_eq_ok hkeyed
  split at h
  · cases h
  · next hkey =>
    simp only [bind_eq_ok, pure_eq_ok] at h
    obtain ⟨c', hc', rfl⟩ := h
    obtain ⟨hsame, hcompletes, hapart, hspares⟩ := withAllowedIPs_eq_ok hc'
    have hkept : c.publicKey ≠ "" → c'.publicKey = c.publicKey := fun hne =>
      (hcompletes.publicKey (by rwa [hpublic hne])).trans (hpublic hne)
    exact ⟨c', rfl, rfl, rfl, by rw [hsame, hkey],
      ⟨hcompletes.email.trans hemail, hkept, hips ▸ hcompletes.entered, hips ▸ hcompletes.allocated⟩, hapart, hspares⟩

theorem isSome_keyOwners {existing : List PoolClient} (hc : c ∈ existing) (hkey : c.key ≠ "") : ((keyOwners existing).get? c.key).isSome = true := by
  have hfold : ∀ (l : List PoolClient) (owners : Table String String), (owners.get? c.key).isSome = true ∨ c ∈ l →
      ((l.foldl (fun owners c => if c.key = "" ∨ (owners.get? c.key).isSome then owners else owners.put c.key c.email) owners).get? c.key).isSome =
        true := by
    intro l
    induction l with
    | nil => exact fun owners h => h.resolve_right (by simp)
    | cons d l ih =>
      intro owners h
      refine ih _ ?_
      dsimp only
      by_cases hsame : c.key = d.key
      · left
        rw [← hsame]
        split
        · next hor => exact hor.resolve_left hkey
        · rw [get?_put_self]
          rfl
      · refine h.imp (fun hsome => ?_) fun hmem => (mem_cons.mp hmem).resolve_left fun heq => hsame (heq ▸ rfl)
        split
        · exact hsome
        · rwa [get?_put_of_ne hsame]
  exact hfold existing ∅ (.inr hc)

structure Spread (existing : List PoolClient) (pool : WireguardPool) (s : Filling) : Prop where
  used : s.used = pool.taken ++ existing.flatMap PoolClient.allowedIPs ++ s.clients.flatMap PoolClient.allowedIPs
  owned : ∀ c, c ∈ s.clients ∨ c ∈ existing ∧ c.key ≠ "" → (s.owners.get? c.key).isSome = true
  apart : ∀ c ∈ s.clients, Apart c.allowedIPs (pool.taken ++ existing.flatMap PoolClient.allowedIPs)
  pairwise : s.clients.Pairwise fun c d => Apart c.allowedIPs d.allowedIPs ∧ c.key ≠ d.key
  keys : ∀ c ∈ s.clients, ∀ e ∈ existing, e.key ≠ "" → c.key ≠ e.key

theorem Spread.next {existing : List PoolClient} (h : Spread existing pool s) (hfilled : Filled pool s c c' s') : Spread existing pool s' := by
  have hfresh : ∀ d, d ∈ s.clients ∨ d ∈ existing ∧ d.key ≠ "" → c'.key ≠ d.key := by
    intro d hd heq
    have howned := h.owned d hd
    rw [← heq, hfilled.key] at howned
    cases howned
  have hapart := hfilled.apart
  rw [h.used] at hapart
  refine ⟨?_, fun d hd => ?_, ?_, ?_, ?_⟩
  · rw [hfilled.used, hfilled.clients, h.used, flatMap_append, flatMap_singleton, append_assoc]
  · rw [hfilled.owners, get?_put]
    rw [hfilled.clients, mem_append, mem_singleton, or_right_comm] at hd
    split
    · rfl
    · next hne => exact h.owned d (hd.resolve_right fun heq => hne (heq ▸ rfl))
  · rw [hfilled.clients, forall_mem_append]
    refine ⟨h.apart, forall_mem_singleton.mpr fun text htext text' htext' => ?_⟩
    exact hapart text htext text' (mem_append_left _ htext')
  · rw [hfilled.clients, pairwise_append]
    refine ⟨h.pairwise, pairwise_singleton _ _, fun d hd e he => ?_⟩
    rw [mem_singleton.mp he]
    refine ⟨Apart.symm fun text htext text' htext' => ?_, (hfresh d (.inl hd)).symm⟩
    exact hapart text htext text' (mem_append_right _ (mem_flatMap.mpr ⟨d, hd, htext'⟩))
  · rw [hfilled.clients, forall_mem_append]
    exact ⟨h.keys, forall_mem_singleton.mpr fun e he hkey => hfresh e (.inr ⟨he, hkey⟩)⟩

theorem spread_of_defaultWireguardClients {existing clients : List PoolClient} {raws : List (Option (Table String RawField))}
    (h : defaultWireguardClients keys existing clients raws pool = .ok s) : Spread existing pool s := by
  refine foldlM_keeps (I := Spread existing pool) (fun t e _ t' hnext ht => ?_) h ⟨?_, ?_, ?_, .nil, ?_⟩
  · obtain ⟨c', hfilled⟩ := next_eq_ok hnext
    exact ht.next hfilled
  · simp
  · rintro c (hc | ⟨hc, hkey⟩)
    · cases hc
    · exact isSome_keyOwners hc hkey
  · simp
  · simp

theorem completes_of_defaultWireguardClients {existing clients : List PoolClient} {raws : List (Option (Table String RawField))}
    (h : defaultWireguardClients keys existing clients raws pool = .ok s) : Forall₂ PoolClient.Completes clients s.clients := by
  -- the clients that are filled in stand in the order of the given ones
  have hrun : ∀ (clients : List PoolClient) (i : Nat) (t : Filling), (clients.zipIdx i).foldlM (Filling.next keys pool
      (wireguardAllocationBase (existing.flatMap PoolClient.allowedIPs) pool.base)) t = .ok s →
      ∃ l, s.clients = t.clients ++ l ∧ Forall₂ PoolClient.Completes clients l := by
    intro clients
    induction clients with
    | nil =>
      intro i t h
      cases h
      exact ⟨[], (append_nil _).symm, .nil⟩
    | cons c clients ih =>
      intro i t h
      rw [zipIdx_cons, foldlM_cons, bind_eq_ok] at h
      obtain ⟨t', hnext, h⟩ := h
      obtain ⟨c', hfilled⟩ := next_eq_ok hnext
      obtain ⟨l, hl, hall⟩ := ih _ t' h
      exact ⟨c' :: l, by rw [hl, hfilled.clients, append_assoc, singleton_append], .cons hfilled.completes hall⟩
  obtain ⟨l, hl, hall⟩ := hrun clients 0 _ h
  rw [hl]
  exact hall

end

/-- The new clients have addresses and keys of their own, and an allocation fails only for want of a base or of a free address. -/
theorem new_clients_share_nothing (keys : KeySource) (existing clients : List PoolClient) (raws : List (Option (Table String RawField)))
    (pool : WireguardPool) :
    (∀ s, defaultWireguardClients keys existing clients raws pool = .ok s →
      Forall₂ PoolClient.Completes clients s.clients ∧
      (∀ c ∈ s.clients, Apart c.allowedIPs (pool.taken ++ existing.flatMap PoolClient.allowedIPs)) ∧
      (s.clients.Pairwise fun c d => Apart c.allowedIPs d.allowedIPs ∧ c.publicKey ≠ d.publicKey) ∧
      ∀ c ∈ s.clients, ∀ e ∈ existing, e.key ≠ "" → c.publicKey ≠ e.publicKey) ∧
    ∀ used base blocked e, allocateWireguardAddress used base blocked = .error e →
      (base ≠ .blank ∧ ∀ p, base ≠ .cidr p) ∨
      ∃ p, (base = .cidr p ∨ base = .blank ∧ p = defaultWireguardBase) ∧
        ∀ a, (widestScope p).contains a = true → (widestScope p).masked.addr.value + 2 ≤ a.value →
          (∃ text ∈ used, ∃ q, wireguardClaimedPrefix text = some q ∧ q.contains a = true) ∨ insideAny a blocked = true := by
  have hkey : ∀ c d : PoolClient, c.key ≠ d.key → c.publicKey ≠ d.publicKey := by
    intro c d hne heq
    exact hne (by rw [PoolClient.key, PoolClient.key, heq])
  refine ⟨fun s hs => ?_, fun used base blocked e he => ?_⟩
  · have hspread := spread_of_defaultWireguardClients hs
    refine ⟨completes_of_defaultWireguardClients hs, hspread.apart, hspread.pairwise.imp fun h => ⟨h.1, hkey _ _ h.2⟩, fun c hc e he hne => ?_⟩
    exact hkey c e (hspread.keys c hc e he hne)
  · rcases allocateWireguardAddress_eq_error he with ⟨-, hbase⟩ | ⟨p, hp, -, hfull⟩
    · exact .inl hbase
    · exact .inr ⟨p, hp, fun a ha hle => wireguardFree_eq_false.mp (hfull a ha hle)⟩

namespace Sample

def noKeys : KeySource := ⟨fun _ => .error (.keys "none"), fun _ => .error (.keys "none")⟩

def client (key : String) (allowedIPs : List CidrText) : PoolClient := { email := key, privateKey := "", publicKey := key, allowedIPs := allowedIPs }

def ten : Prefix := ⟨⟨.v4, 10 * 2 ^ 24⟩, 8⟩

def tenZero : Prefix := ⟨⟨.v4, 10 * 2 ^ 24⟩, 30⟩

def tenFive : Prefix := ⟨⟨.v4, 10 * 2 ^ 24 + 5 * 2 ^ 16⟩, 16⟩

end Sample

/-- A client that is added beside another without an address gets the next one. -/
theorem new_clients_share_nothing_second :
    ∃ s, defaultWireguardClients Sample.noKeys [Sample.client "a" [.host ⟨.v4, 10 * 2 ^ 24 + 2⟩]] [Sample.client "b" []] []
        ⟨.blank, [], []⟩ = .ok s ∧
      s.clients.map PoolClient.allowedIPs = [[.cidr (hostPrefix ⟨.v4, 10 * 2 ^ 24 + 3⟩)]] ∧
      Forall₂ PoolClient.Completes [Sample.client "b" []] s.clients := by
  have hrun : (defaultWireguardClients Sample.noKeys [Sample.client "a" [.host ⟨.v4, 10 * 2 ^ 24 + 2⟩]] [Sample.client "b" []] []
      ⟨.blank, [], []⟩).map (fun s => s.clients.map PoolClient.allowedIPs) =
        .ok [[.cidr (hostPrefix ⟨.v4, 10 * 2 ^ 24 + 3⟩)]] := by decide +kernel
  obtain ⟨s, hs, hips⟩ := map_eq_ok.mp hrun
  exact ⟨s, hs, hips, ((new_clients_share_nothing ..).1 s hs).1⟩

/-- A key of white space counts as none in an existing client, so a new client can repeat it; and a base that is no prefix fails an
allocation whatever is taken. -/
theorem blank_key_is_shared :
    ((defaultWireguardClients Sample.noKeys [Sample.client " " []] [Sample.client " " []] [] ⟨.blank, [], []⟩).map fun s =>
      s.clients.map PoolClient.publicKey) = .ok [" "] ∧
    allocateWireguardAddress [] (.host ⟨.v4, 10 * 2 ^ 24⟩) [] = .error (.badBase (.host ⟨.v4, 10 * 2 ^ 24⟩)) := by
  decide +kernel

private theorem exists_of_forall₂ {α β : Type} {R : α → β → Prop} {l : List α} {l' : List β} (h : Forall₂ R l l') :
    (∀ a ∈ l, ∃ b ∈ l', R a b) ∧ ∀ b ∈ l', ∃ a ∈ l, R a b := by
  induction h with
  | nil => simp
  | cons hab _ ih =>
    simp only [mem_cons, forall_eq_or_imp, exists_eq_or_imp]
    exact ⟨⟨.inl hab, fun a ha => .inr (ih.1 a ha)⟩, .inl hab, fun b hb => .inr (ih.2 b hb)⟩

/-- The new clients stay out of the blocked subnets if and only if no entered prefix contains one that is longer. -/
theorem new_clients_spare_blocked (keys : KeySource) (existing clients : List PoolClient) (raws : List (Option (Table String RawField)))
    (pool : WireguardPool) (s : Filling) (h : defaultWireguardClients keys existing clients raws pool = .ok s) :
    (∀ c ∈ s.clients, ∀ text ∈ c.allowedIPs, ∀ p, wireguardClaimedPrefix text = some p → ∀ b ∈ pool.blocked, p.overlaps b = false) ↔
      ∀ c ∈ clients, ∀ entry ∈ c.allowedIPs, ∀ p, entry.read = some p → ∀ b ∈ pool.blocked, 0 < p.bits → p.bits < b.bits →
        p.contains b.addr = false := by
  have hcompletes := completes_of_defaultWireguardClients h
  have hspares : ∀ c ∈ s.clients, ∀ p, .cidr p ∈ c.allowedIPs → insideAny p.addr pool.blocked = false := by
    refine foldlM_keeps (I := fun s : Filling => ∀ c ∈ s.clients, ∀ p, .cidr p ∈ c.allowedIPs → insideAny p.addr pool.blocked = false)
      (fun t e he t' hnext ht => ?_) h (by simp)
    obtain ⟨c', hfilled⟩ := next_eq_ok hnext
    rw [hfilled.clients, forall_mem_append]
    exact ⟨ht, forall_mem_singleton.mpr hfilled.spares⟩
  constructor
  · intro hclear c hc entry hentry p hread b hb hbits hlt
    obtain ⟨c', hc', hcc⟩ := (exists_of_forall₂ hcompletes).1 c hc
    have hkept : CidrText.cidr p ∈ c'.allowedIPs := (hcc.entered (ne_nil_of_mem hentry) _).mpr ⟨p, rfl, entry, hentry, hread⟩
    have hover := hclear c' hc' _ hkept p.masked (wireguardClaimedPrefix_eq_some.mpr ⟨p, rfl, hbits, rfl⟩) b hb
    rwa [Prefix.overlaps_masked, Prefix.overlaps_eq, if_neg (by omega)] at hover
  · intro hentered c' hc' text htext p hclaim b hb
    obtain ⟨c, hc, hcc⟩ := (exists_of_forall₂ hcompletes).2 c' hc'
    obtain ⟨q, hread, hbits, rfl⟩ := wireguardClaimedPrefix_eq_some.mp hclaim
    rw [Prefix.overlaps_masked]
    by_cases hempty : c.allowedIPs = []
    · obtain ⟨a, ha⟩ := hcc.allocated hempty
      rw [ha, mem_singleton] at htext
      subst htext
      cases hread
      have hout := hspares c' hc' (hostPrefix a) (ha ▸ mem_singleton_self _)
      exact (Prefix.overlaps_hostPrefix b a).trans (Bool.eq_false_iff.mpr (any_eq_false.mp hout b hb))
    · obtain ⟨q', rfl, entry, hentry, hread'⟩ := (hcc.entered hempty text).mp htext
      cases hread
      rw [Prefix.overlaps_eq]
      split
      · exact Bool.eq_false_iff.mpr (any_eq_false.mp (hspares c' hc' q htext) b hb)
      · next hlt => exact hentered c hc entry hentry q hread' b hb hbits (by omega)

theorem new_clients_spare_blocked_allocated :
    ∃ s, defaultWireguardClients Sample.noKeys [] [Sample.client "a" []] [] ⟨.cidr Sample.ten, [], [Sample.tenZero]⟩ = .ok s ∧
      s.clients.map PoolClient.allowedIPs = [[.cidr (hostPrefix ⟨.v4, 10 * 2 ^ 24 + 4⟩)]] ∧
      ∀ c ∈ s.clients, ∀ text ∈ c.allowedIPs, ∀ p, wireguardClaimedPrefix text = some p → p.overlaps Sample.tenZero = false := by
  have hrun : (defaultWireguardClients Sample.noKeys [] [Sample.client "a" []] [] ⟨.cidr Sample.ten, [], [Sample.tenZero]⟩).map
      (fun s => s.clients.map PoolClient.allowedIPs) = .ok [[.cidr (hostPrefix ⟨.v4, 10 * 2 ^ 24 + 4⟩)]] := by decide +kernel
  obtain ⟨s, hs, hips⟩ := map_eq_ok.mp hrun
  refine ⟨s, hs, hips, fun c hc text htext p hp => ?_⟩
  refine (new_clients_spare_blocked _ _ _ _ _ s hs).mpr (fun c hc entry hentry => ?_) c hc text htext p hp _ (mem_singleton_self _)
  rw [mem_singleton.mp hc] at hentry
  cases hentry

/-- An entered prefix that contains a blocked subnet passes, since its own address is not on the subnet. -/
theorem wide_entry_reaches_blocked :
    ((defaultWireguardClients Sample.noKeys [] [Sample.client "a" [.cidr Sample.ten]] [] ⟨.blank, [], [Sample.tenFive]⟩).map fun s =>
      s.clients.map PoolClient.allowedIPs) = .ok [[.cidr Sample.ten]] ∧
    wireguardClaimedPrefix (.cidr Sample.ten) = some Sample.ten ∧ Sample.ten.overlaps Sample.tenFive = true := by
  decide +kernel

end WireGuard

end Pui
