import Pui.Json
import Pui.Table

/-!
# The difference of two Xray configurations

Xray can change inbounds, the users of an inbound, outbounds and the routing rules while it runs.
-/

namespace Pui

open Table List Option

namespace Hot

variable {inbounds newInbounds oldInbounds : List InboundConfig} {apiTag : String} {oldIb newIb : InboundConfig} {d : HotDiff}
  {old new : Config}

/-- A section: nothing, the text of a value, or a text that is none. -/
inductive RawMessage where
  | empty
  | json (text : String) (value : Json) (whole : Bool)
  | malformed (text : String)
  deriving DecidableEq

namespace RawMessage

def canonicalJSON : RawMessage → Option (Option Json)
  | .empty => some none
  | .json _ .null _ => some none
  | .json _ value _ => some (some value)
  | .malformed _ => none

def equalNormalized (a b : RawMessage) : Bool :=
  a = b || match a.canonicalJSON, b.canonicalJSON with
    | some x, some y => x = y
    | _, _ => false

def unmarshal : RawMessage → Option Json
  | .json _ value true => some value
  | _ => none

def marshals : RawMessage → Bool
  | .empty => true
  | .json _ _ whole => whole
  | .malformed _ => false

end RawMessage

def lookup (name : String) (fields : List (String × Json)) : Option Json := (fields.find? fun f => f.1 = name).map Prod.snd

def recordField (name : String) (fields : List (String × Json)) : Option Json :=
  (fields.filter fun f => f.1.toLower = name).getLast?.map Prod.snd

def without (names : List String) (fields : List (String × Json)) : List (String × Json) := fields.filter fun f => f.1 ∉ names

def recordString (name : String) : Json → Option String
  | .null => some ""
  | .object fields =>
    match recordField name fields with
    | none | some .null => some ""
    | some (.string s) => some s
    | some _ => none
  | _ => none

structure InboundConfig where
  listen : RawMessage
  port : Int
  protocol : String
  settings : RawMessage
  streamSettings : RawMessage
  tag : String
  sniffing : RawMessage
  deriving DecidableEq

structure Config where
  log : RawMessage
  routing : RawMessage
  dns : RawMessage
  inbounds : List InboundConfig
  outbounds : RawMessage
  transport : RawMessage
  policy : RawMessage
  api : RawMessage
  stats : RawMessage
  reverse : RawMessage
  fakedns : RawMessage
  observatory : RawMessage
  burstObservatory : RawMessage
  metrics : RawMessage
  geodata : RawMessage
  env : RawMessage

def Config.static (c : Config) : List RawMessage :=
  [c.log, c.dns, c.transport, c.policy, c.api, c.stats, c.reverse, c.fakedns, c.observatory, c.burstObservatory, c.metrics,
    c.geodata, c.env]

structure UserOp where
  tag : String
  protocol : String
  email : String
  user : Option Json
  deriving DecidableEq

structure OutboundEntry where
  tag : String
  value : Json
  deriving DecidableEq

structure HotDiff where
  removedInboundTags : List String := []
  addedInbounds : List InboundConfig := []
  removedUsers : List UserOp := []
  addedUsers : List UserOp := []
  droppedClients : List UserOp := []
  removedOutboundTags : List String := []
  addedOutbounds : List OutboundEntry := []
  routingConfig : Option RawMessage := none

namespace HotDiff

def append (d e : HotDiff) : HotDiff where
  removedInboundTags := d.removedInboundTags ++ e.removedInboundTags
  addedInbounds := d.addedInbounds ++ e.addedInbounds
  removedUsers := d.removedUsers ++ e.removedUsers
  addedUsers := d.addedUsers ++ e.addedUsers
  droppedClients := d.droppedClients ++ e.droppedClients
  removedOutboundTags := d.removedOutboundTags ++ e.removedOutboundTags
  addedOutbounds := d.addedOutbounds ++ e.addedOutbounds
  routingConfig := e.routingConfig.or d.routingConfig

instance : Append HotDiff := ⟨append⟩

def collect {α : Type} (round : α → Option HotDiff) : List α → Option HotDiff
  | [] => some {}
  | a :: l => do
    let d ← round a
    let e ← collect round l
    return d ++ e

def userKey (u : UserOp) : String := u.tag ++ "\x00" ++ u.email

def dropsUsers (d : HotDiff) : Bool :=
  d.droppedClients.length > 0 || d.removedUsers.any fun u => !(d.addedUsers.map userKey).contains (userKey u)

def empty (d : HotDiff) : Bool :=
  d.removedInboundTags.length = 0 && d.addedInbounds.length = 0 && d.removedUsers.length = 0 && d.addedUsers.length = 0 &&
    d.removedOutboundTags.length = 0 && d.addedOutbounds.length = 0 && d.routingConfig.isNone

end HotDiff

def clientsByEmail : List Json → Table String Json → Option (Table String Json)
  | [], clients => some clients
  | .object fields :: items, clients =>
    match lookup "email" fields with
    | some (.string email) =>
      if email = "" ∨ (clients.get? email).isSome then none else clientsByEmail items (clients.put email (.object fields))
    | _ => none
  | _ :: _, _ => none

def splitSettingsClients : RawMessage → Option (Table String Json × Json)
  | .json _ (.object fields) _ =>
    match lookup "clients" fields with
    | some (.array items) => (clientsByEmail items ∅).map fun clients => (clients, .object (without ["clients"] fields))
    | _ => none
  | _ => none

def inboundEqualNormalized (a b : InboundConfig) : Bool :=
  a.port = b.port && a.protocol = b.protocol && a.tag = b.tag && a.listen.equalNormalized b.listen &&
    a.settings.equalNormalized b.settings && a.streamSettings.equalNormalized b.streamSettings && a.sniffing.equalNormalized b.sniffing

def userDiffableProtocols : List String := ["vless", "vmess", "trojan", "hysteria"]

def diffInboundUsers (oldIb newIb : InboundConfig) : Option HotDiff := do
  guard (oldIb.port = newIb.port ∧ oldIb.protocol = newIb.protocol ∧ oldIb.tag = newIb.tag)
  guard (oldIb.protocol ∈ userDiffableProtocols)
  guard (oldIb.listen.equalNormalized newIb.listen ∧ oldIb.streamSettings.equalNormalized newIb.streamSettings ∧
    oldIb.sniffing.equalNormalized newIb.sniffing)
  let (oldClients, oldRest) ← splitSettingsClients oldIb.settings
  let (newClients, newRest) ← splitSettingsClients newIb.settings
  guard (oldRest = newRest)
  let changed := oldClients.entries.filter fun c => newClients.get? c.1 ≠ some c.2
  let readded := changed.filterMap fun c => (newClients.get? c.1).map fun user => (c.1, user)
  let added := (newClients.entries.filter fun c => (oldClients.get? c.1).isNone).map fun c => (c.1, c.2)
  return {
    removedUsers := changed.map fun c => ⟨oldIb.tag, oldIb.protocol, c.1, none⟩
    addedUsers := (readded ++ added).map fun c => ⟨oldIb.tag, oldIb.protocol, c.1, some c.2⟩ }

def inboundUsesReality (ib : InboundConfig) : Bool :=
  ib.streamSettings.unmarshal.any fun stream => recordString "security" stream = some "reality"

def inboundHasReverseClient (ib : InboundConfig) : Bool :=
  match ib.settings.unmarshal with
  | some (.object fields) =>
    match recordField "clients" fields with
    | some (.array items) =>
      items.all (fun c => match c with | .object _ | .null => true | _ => false) &&
        items.any fun c => match c with
          | .object fields => match recordField "reverse" fields with | none | some .null => false | some _ => true
          | _ => false
    | _ => false
  | _ => false

def apiTagFromConfig (api : RawMessage) : String :=
  match api.unmarshal.bind (recordString "tag") with
  | some tag => if tag ≠ "" then tag else "api"
  | none => "api"

def inboundsTagged (inbounds : List InboundConfig) : Bool :=
  inbounds.all (fun ib => ib.tag ≠ "") && decide (inbounds.map InboundConfig.tag).Nodup

def InboundConfig.marshals (ib : InboundConfig) : Bool :=
  ib.listen.marshals && ib.settings.marshals && ib.streamSettings.marshals && ib.sniffing.marshals

def droppedClients (oldIb newIb : InboundConfig) : List UserOp :=
  match splitSettingsClients oldIb.settings, splitSettingsClients newIb.settings with
  | some (oldClients, _), some (newClients, _) =>
    (oldClients.keys.filter fun email => (newClients.get? email).isNone).map fun email => ⟨newIb.tag, newIb.protocol, email, none⟩
  | _, _ => []

def inboundByTag (inbounds : List InboundConfig) (tag : String) : Option InboundConfig := inbounds.find? fun ib => ib.tag = tag

def diffOldInbound (apiTag : String) (newInbounds : List InboundConfig) (oldIb : InboundConfig) : Option HotDiff :=
  match inboundByTag newInbounds oldIb.tag with
  | some newIb =>
    if inboundEqualNormalized oldIb newIb then some {}
    else if oldIb.tag = apiTag ∨ oldIb.tag = "api" then none
    else if inboundHasReverseClient oldIb ∨ inboundHasReverseClient newIb then none
    else
      match diffInboundUsers oldIb newIb with
      | some users => some { users with droppedClients := droppedClients oldIb newIb }
      | none =>
        if inboundUsesReality oldIb ∨ inboundUsesReality newIb ∨ !newIb.marshals then none
        else some { removedInboundTags := [oldIb.tag], addedInbounds := [newIb], droppedClients := droppedClients oldIb newIb }
  | none => if oldIb.tag = apiTag ∨ oldIb.tag = "api" then none else some { removedInboundTags := [oldIb.tag] }

def diffNewInbound (apiTag : String) (oldInbounds : List InboundConfig) (newIb : InboundConfig) : Option HotDiff :=
  if (inboundByTag oldInbounds newIb.tag).isSome then some {}
  else if newIb.tag = apiTag ∨ newIb.tag = "api" ∨ !newIb.marshals then none
  else some { addedInbounds := [newIb] }

def diffInbounds (old new : Config) : Option HotDiff := do
  guard (inboundsTagged old.inbounds ∧ inboundsTagged new.inbounds)
  let kept ← HotDiff.collect (diffOldInbound (apiTagFromConfig new.api) new.inbounds) old.inbounds
  let added ← HotDiff.collect (diffNewInbound (apiTagFromConfig new.api) old.inbounds) new.inbounds
  return kept ++ added

def parseOutbounds (raw : RawMessage) : Option (List OutboundEntry) :=
  match raw with
  | .empty => some []
  | raw =>
    match raw.unmarshal with
    | some .null => some []
    | some (.array items) => do
      let entries ← items.mapM fun item => (recordString "tag" item).map fun tag => (⟨tag, item⟩ : OutboundEntry)
      guard (entries.all (fun e => e.tag ≠ "") ∧ (entries.map OutboundEntry.tag).Nodup)
      return entries
    | _ => none

def outboundByTag (entries : List OutboundEntry) (tag : String) : Option OutboundEntry := entries.find? fun e => e.tag = tag

def diffOutbounds (old new : Config) : Option HotDiff := do
  let oldOut ← parseOutbounds old.outbounds
  let newOut ← parseOutbounds new.outbounds
  -- the first outbound is the default one, and a running Xray can only append
  guard (oldOut.head? = newOut.head?)
  let changed := oldOut.filter fun e => outboundByTag newOut e.tag ≠ some e
  return {
    removedOutboundTags := changed.map OutboundEntry.tag
    addedOutbounds := changed.filterMap (fun e => outboundByTag newOut e.tag) ++
      newOut.filter fun e => (outboundByTag oldOut e.tag).isNone }

def routingWithoutReloadable : RawMessage → Option Json
  | .empty => some (.object [])
  | .json _ .null _ => some .null
  | .json _ (.object fields) _ => some (.object (without ["rules", "balancers"] fields))
  | _ => none

def diffRouting (old new : Config) : Option HotDiff :=
  if old.routing = new.routing then some {}
  else if old.routing = .empty ∨ new.routing = .empty then none
  else do
    let oldRest ← routingWithoutReloadable old.routing
    let newRest ← routingWithoutReloadable new.routing
    guard (oldRest = newRest)
    return { routingConfig := some new.routing }

def computeHotDiff (old new : Config) : Option HotDiff := do
  guard ((old.static.zip new.static).all fun s => s.1.equalNormalized s.2)
  let inbounds ← diffInbounds old new
  let outbounds ← diffOutbounds old new
  let routing ← diffRouting old new
  return inbounds ++ outbounds ++ routing

def RawMessage.content : RawMessage → Except String (Option Json)
  | .empty => .ok none
  | .json _ .null _ => .ok none
  | .json _ value _ => .ok (some value)
  | .malformed text => .error text

def RawMessage.ofContent : Except String (Option Json) → RawMessage
  | .ok none => .empty
  | .ok (some value) => .json "" value true
  | .error text => .malformed text

theorem RawMessage.congr_of_content {α : Type} (f : RawMessage → α) (hnull : ∀ text whole, f (.json text .null whole) = f .empty)
    (htext : ∀ text value whole, f (.json text value whole) = f (.json "" value true)) {a b : RawMessage}
    (h : a.content = b.content) : f a = f b := by
  have hread : ∀ raw : RawMessage, f raw = f (ofContent raw.content) := by
    intro raw
    cases raw with
    | empty => rfl
    | malformed _ => rfl
    | json text value whole =>
      cases value with
      | null => exact hnull text whole
      | _ => exact htext text _ whole
  rw [hread a, hread b, h]

theorem RawMessage.content_eq (raw : RawMessage) : raw.canonicalJSON = raw.content.toOption := by
  unfold canonicalJSON content
  split <;> rfl

theorem RawMessage.eq_malformed {raw : RawMessage} {text : String} (h : raw.content = .error text) : raw = .malformed text := by
  unfold content at h
  split at h
  · cases h
  · cases h
  · cases h
  · cases h
    rfl

theorem RawMessage.equalNormalized_iff {a b : RawMessage} : a.equalNormalized b = true ↔ a.content = b.content := by
  unfold equalNormalized
  rw [content_eq, content_eq, Bool.or_eq_true, decide_eq_true_eq]
  constructor
  · rintro (rfl | h)
    · rfl
    · cases ha : a.content with
      | error e => simp [ha, Except.toOption] at h
      | ok x =>
        cases hb : b.content with
        | error e => simp [ha, hb, Except.toOption] at h
        | ok y => simpa [ha, hb, Except.toOption] using h
  · intro h
    cases ha : a.content with
    | ok x =>
      rw [ha] at h
      rw [← h]
      exact .inr (by simp [Except.toOption])
    | error text =>
      rw [ha] at h
      exact .inl ((eq_malformed ha).trans (eq_malformed h.symm).symm)

namespace HotDiff

def part {α : Type} (round : α → Option HotDiff) (a : α) : HotDiff := (round a).getD {}

theorem part_eq {α : Type} {round : α → Option HotDiff} {a : α} (h : round a = some d) : part round a = d := by
  rw [part, h, getD_some]

structure Collected {α : Type} (round : α → Option HotDiff) (l : List α) (d : HotDiff) : Prop where
  rounds : ∀ a ∈ l, round a = some (part round a)
  removedInboundTags : d.removedInboundTags = l.flatMap fun a => (part round a).removedInboundTags
  addedInbounds : d.addedInbounds = l.flatMap fun a => (part round a).addedInbounds
  removedUsers : d.removedUsers = l.flatMap fun a => (part round a).removedUsers
  addedUsers : d.addedUsers = l.flatMap fun a => (part round a).addedUsers
  droppedClients : d.droppedClients = l.flatMap fun a => (part round a).droppedClients

theorem collect_eq_some {α : Type} {round : α → Option HotDiff} {l : List α} (h : collect round l = some d) :
    Collected round l d := by
  induction l generalizing d with
  | nil =>
    cases h
    exact ⟨fun a ha => (nomatch ha), rfl, rfl, rfl, rfl, rfl⟩
  | cons a l ih =>
    simp only [collect, bind_eq_bind, bind_eq_some_iff] at h
    obtain ⟨p, hp, e, he, hd⟩ := h
    cases hd
    have hrest := ih he
    have hpart := part_eq hp
    refine ⟨forall_mem_cons.mpr ⟨hpart.symm ▸ hp, hrest.rounds⟩, ?_, ?_, ?_, ?_, ?_⟩
    all_goals rw [flatMap_cons, hpart]
    · exact congrArg (p.removedInboundTags ++ ·) hrest.removedInboundTags
    · exact congrArg (p.addedInbounds ++ ·) hrest.addedInbounds
    · exact congrArg (p.removedUsers ++ ·) hrest.removedUsers
    · exact congrArg (p.addedUsers ++ ·) hrest.addedUsers
    · exact congrArg (p.droppedClients ++ ·) hrest.droppedClients

def OnInbounds (d : HotDiff) : Prop := d.removedOutboundTags = [] ∧ d.addedOutbounds = [] ∧ d.routingConfig = none

theorem onInbounds_of_collect {α : Type} {round : α → Option HotDiff} (hround : ∀ a p, round a = some p → p.OnInbounds) {l : List α} (h : collect round l = some d) : d.OnInbounds := by
  induction l generalizing d with
  | nil =>
    cases h
    exact ⟨rfl, rfl, rfl⟩
  | cons a l ih =>
    simp only [collect, bind_eq_bind, bind_eq_some_iff] at h
    obtain ⟨p, hp, e, he, hd⟩ := h
    cases hd
    obtain ⟨hp₁, hp₂, hp₃⟩ := hround a p hp
    obtain ⟨he₁, he₂, he₃⟩ := ih he
    exact ⟨congrArg₂ (· ++ ·) hp₁ he₁, congrArg₂ (· ++ ·) hp₂ he₂, congrArg₂ Option.or he₃ hp₃⟩

end HotDiff

theorem inboundByTag_eq_some {tag : String} {ib : InboundConfig}
    (h : inboundByTag inbounds tag = some ib) : ib ∈ inbounds ∧ ib.tag = tag := by
  refine ⟨mem_of_find?_eq_some h, ?_⟩
  simpa using List.find?_some h

theorem inboundByTag_of_mem (htagged : inboundsTagged inbounds = true) {ib : InboundConfig}
    (hib : ib ∈ inbounds) : inboundByTag inbounds ib.tag = some ib := by
  simp only [inboundsTagged, Bool.and_eq_true, decide_eq_true_eq] at htagged
  cases hfound : inboundByTag inbounds ib.tag with
  | none => exact absurd (decide_eq_true rfl) (List.find?_eq_none.mp hfound ib hib)
  | some other =>
    obtain ⟨hother, htag⟩ := inboundByTag_eq_some hfound
    rw [inj_on_of_nodup_map htagged.2 hother hib htag]

inductive OldInbound (newInbounds : List InboundConfig) (oldIb : InboundConfig) : HotDiff → Prop
  | same (newIb : InboundConfig) (hnew : inboundByTag newInbounds oldIb.tag = some newIb)
    (hequal : inboundEqualNormalized oldIb newIb = true) : OldInbound newInbounds oldIb {}
  | users (newIb : InboundConfig) (users : HotDiff) (hnew : inboundByTag newInbounds oldIb.tag = some newIb)
    (husers : diffInboundUsers oldIb newIb = some users) :
    OldInbound newInbounds oldIb { users with droppedClients := droppedClients oldIb newIb }
  | replaced (newIb : InboundConfig) (hnew : inboundByTag newInbounds oldIb.tag = some newIb) :
    OldInbound newInbounds oldIb
      { removedInboundTags := [oldIb.tag], addedInbounds := [newIb], droppedClients := droppedClients oldIb newIb }
  | removed (hnew : inboundByTag newInbounds oldIb.tag = none) : OldInbound newInbounds oldIb { removedInboundTags := [oldIb.tag] }

theorem diffOldInbound_eq_some (h : diffOldInbound apiTag newInbounds oldIb = some d) : OldInbound newInbounds oldIb d := by
  unfold diffOldInbound at h
  split at h
  · next newIb hnew =>
    split at h
    · next hequal =>
      cases h
      exact .same newIb hnew hequal
    · split at h
      · cases h
      · split at h
        · cases h
        · split at h
          · next users husers =>
            cases h
            exact .users newIb users hnew husers
          · split at h
            · cases h
            · cases h
              exact .replaced newIb hnew
  · next hnew =>
    split at h
    · cases h
    · cases h
      exact .removed hnew

theorem diffNewInbound_eq_some (h : diffNewInbound apiTag oldInbounds newIb = some d) :
    (inboundByTag oldInbounds newIb.tag).isSome = true ∧ d = {} ∨
      inboundByTag oldInbounds newIb.tag = none ∧ d = { addedInbounds := [newIb] } := by
  unfold diffNewInbound at h
  split at h
  · next hsome =>
    cases h
    exact .inl ⟨hsome, rfl⟩
  · next hnone =>
    split at h
    · cases h
    · cases h
      exact .inr ⟨by simpa using hnone, rfl⟩

structure UsersDiffer (oldIb newIb : InboundConfig) (d : HotDiff) (oldClients newClients : Table String Json) : Prop where
  port : oldIb.port = newIb.port
  protocol : oldIb.protocol = newIb.protocol
  listen : oldIb.listen.content = newIb.listen.content
  streamSettings : oldIb.streamSettings.content = newIb.streamSettings.content
  sniffing : oldIb.sniffing.content = newIb.sniffing.content
  settings : ∃ rest, splitSettingsClients oldIb.settings = some (oldClients, rest) ∧
    splitSettingsClients newIb.settings = some (newClients, rest)
  untouched : d.removedInboundTags = [] ∧ d.addedInbounds = []
  onInbounds : d.OnInbounds
  removed : ∀ u, u ∈ d.removedUsers ↔ u.tag = oldIb.tag ∧ u.protocol = oldIb.protocol ∧ u.user = none ∧
    ∃ c, oldClients.get? u.email = some c ∧ newClients.get? u.email ≠ some c
  added : ∀ u, u ∈ d.addedUsers ↔ u.tag = oldIb.tag ∧ u.protocol = oldIb.protocol ∧
    ∃ c, u.user = some c ∧ newClients.get? u.email = some c ∧ oldClients.get? u.email ≠ some c

theorem diffInboundUsers_eq_some (h : diffInboundUsers oldIb newIb = some d) :
    ∃ oldClients newClients, UsersDiffer oldIb newIb d oldClients newClients := by
  simp only [diffInboundUsers, Option.bind_eq_bind, Option.bind_eq_some_iff, Option.guard_eq_some', Prod.exists] at h
  obtain ⟨⟨⟩, ⟨hport, hprotocol, -⟩, ⟨⟩, -, ⟨⟩, ⟨hlisten, hstream, hsniffing⟩, oldClients, rest, hold, newClients, rest', hnew, ⟨⟩,
    rfl, hd⟩ := h
  cases hd
  refine ⟨oldClients, newClients, hport, hprotocol, RawMessage.equalNormalized_iff.mp hlisten, RawMessage.equalNormalized_iff.mp hstream,
    RawMessage.equalNormalized_iff.mp hsniffing, ⟨rest, hold, hnew⟩, ⟨rfl, rfl⟩, ⟨rfl, rfl, rfl⟩,
    fun u => ?_, fun u => ?_⟩
  · simp only [List.mem_map, List.mem_filter, decide_eq_true_eq]
    constructor
    · rintro ⟨⟨email, c⟩, ⟨hmem, hchanged⟩, rfl⟩
      exact ⟨rfl, rfl, rfl, c, mem_entries.mp hmem, hchanged⟩
    · rintro ⟨htag, hproto, huser, c, hget, hchanged⟩
      refine ⟨⟨u.email, c⟩, ⟨mem_entries.mpr hget, hchanged⟩, ?_⟩
      cases u
      simp_all
  · simp only [List.mem_map, List.mem_append, List.mem_filterMap, List.mem_filter, decide_eq_true_eq, Option.map_eq_some_iff]
    constructor
    · rintro ⟨⟨email, c⟩, ⟨⟨email', c'⟩, ⟨hmem, hchanged⟩, user, huser, heq⟩ | ⟨⟨email', c'⟩, ⟨hmem, hnone⟩, heq⟩, rfl⟩
      · rw [Prod.mk.injEq] at heq
        obtain ⟨rfl, rfl⟩ := heq
        refine ⟨rfl, rfl, user, rfl, huser, ?_⟩
        rw [mem_entries.mp hmem]
        rintro ⟨⟩
        exact hchanged huser
      · rw [Prod.mk.injEq] at heq
        obtain ⟨rfl, rfl⟩ := heq
        refine ⟨rfl, rfl, c', rfl, mem_entries.mp hmem, ?_⟩
        rw [Option.isNone_iff_eq_none.mp hnone]
        rintro ⟨⟩
    · rintro ⟨htag, hproto, c, huser, hget, hchanged⟩
      refine ⟨(u.email, c), ?_, by cases u; simp_all⟩
      cases hold' : oldClients.get? u.email with
      | none => exact .inr ⟨⟨u.email, c⟩, ⟨mem_entries.mpr hget, by rw [hold']; rfl⟩, rfl⟩
      | some c' =>
        refine .inl ⟨⟨u.email, c'⟩, ⟨mem_entries.mpr hold', ?_⟩, c, hget, rfl⟩
        rw [hget]
        rintro ⟨⟩
        exact hchanged hold'

theorem OldInbound.onInbounds (h : OldInbound newInbounds oldIb d) : d.OnInbounds := by
  cases h with
  | same _ _ _ => exact ⟨rfl, rfl, rfl⟩
  | users newIb users _ husers =>
    obtain ⟨_, _, hdiffer⟩ := diffInboundUsers_eq_some husers
    exact hdiffer.onInbounds
  | replaced _ _ => exact ⟨rfl, rfl, rfl⟩
  | removed _ => exact ⟨rfl, rfl, rfl⟩

theorem diffNewInbound_onInbounds (h : diffNewInbound apiTag oldInbounds newIb = some d) : d.OnInbounds := by
  rcases diffNewInbound_eq_some h with ⟨-, rfl⟩ | ⟨-, rfl⟩ <;> exact ⟨rfl, rfl, rfl⟩

structure DiffInbounds (old new : Config) (d : HotDiff) : Prop where
  oldTagged : inboundsTagged old.inbounds = true
  newTagged : inboundsTagged new.inbounds = true
  parts : ∃ kept added, HotDiff.Collected (diffOldInbound (apiTagFromConfig new.api) new.inbounds) old.inbounds kept ∧
    HotDiff.Collected (diffNewInbound (apiTagFromConfig new.api) old.inbounds) new.inbounds added ∧ d = kept ++ added
  onInbounds : d.OnInbounds

theorem diffInbounds_eq_some (h : diffInbounds old new = some d) : DiffInbounds old new d := by
  simp only [diffInbounds, bind_eq_bind, bind_eq_some_iff, guard_eq_some'] at h
  obtain ⟨⟨⟩, htagged, kept, hkept, added, hadded, hd⟩ := h
  cases hd
  obtain ⟨hkept₁, hkept₂, hkept₃⟩ := HotDiff.onInbounds_of_collect (fun _ _ h => (diffOldInbound_eq_some h).onInbounds) hkept
  obtain ⟨hadded₁, hadded₂, hadded₃⟩ := HotDiff.onInbounds_of_collect (fun _ _ h => diffNewInbound_onInbounds h) hadded
  exact ⟨htagged.1, htagged.2, ⟨kept, added, HotDiff.collect_eq_some hkept, HotDiff.collect_eq_some hadded, rfl⟩,
    congrArg₂ (· ++ ·) hkept₁ hadded₁, congrArg₂ (· ++ ·) hkept₂ hadded₂, congrArg₂ Option.or hadded₃ hkept₃⟩

theorem computeHotDiff_eq_some (h : computeHotDiff old new = some d) :
    (∀ s ∈ old.static.zip new.static, s.1.content = s.2.content) ∧
    ∃ inbounds outbounds routing, DiffInbounds old new inbounds ∧ diffOutbounds old new = some outbounds ∧
      diffRouting old new = some routing ∧ d = inbounds ++ outbounds ++ routing := by
  simp only [computeHotDiff, bind_eq_bind, bind_eq_some_iff, guard_eq_some'] at h
  obtain ⟨⟨⟩, hstatic, inbounds, hinbounds, outbounds, houtbounds, routing, hrouting, hd⟩ := h
  cases hd
  refine ⟨fun s hs => ?_, inbounds, outbounds, routing, diffInbounds_eq_some hinbounds, houtbounds, hrouting, rfl⟩
  exact RawMessage.equalNormalized_iff.mp (all_eq_true.mp hstatic s hs)

theorem diffOutbounds_eq_some (h : diffOutbounds old new = some d) :
    ∃ oldOut newOut, parseOutbounds old.outbounds = some oldOut ∧ parseOutbounds new.outbounds = some newOut ∧
      oldOut.head? = newOut.head? ∧ d = {
        removedOutboundTags := (oldOut.filter fun e => outboundByTag newOut e.tag ≠ some e).map OutboundEntry.tag
        addedOutbounds := (oldOut.filter fun e => outboundByTag newOut e.tag ≠ some e).filterMap (fun e => outboundByTag newOut e.tag) ++
          newOut.filter fun e => (outboundByTag oldOut e.tag).isNone } := by
  simp only [diffOutbounds, bind_eq_bind, bind_eq_some_iff, guard_eq_some'] at h
  obtain ⟨oldOut, hold, newOut, hnew, ⟨⟩, hhead, hd⟩ := h
  cases hd
  exact ⟨oldOut, newOut, hold, hnew, hhead, rfl⟩

theorem diffRouting_eq_some (h : diffRouting old new = some d) :
    old.routing = new.routing ∧ d = {} ∨
      ∃ rest, (old.routing ≠ .empty ∧ new.routing ≠ .empty) ∧ routingWithoutReloadable old.routing = some rest ∧
        routingWithoutReloadable new.routing = some rest ∧ d = { routingConfig := some new.routing } := by
  unfold diffRouting at h
  split at h
  · next hsame =>
    cases h
    exact .inl ⟨hsame, rfl⟩
  · split at h
    · cases h
    · next hthere =>
      simp only [bind_eq_bind, bind_eq_some_iff, guard_eq_some'] at h
      obtain ⟨rest, hold, rest', hnew, ⟨⟩, rfl, hd⟩ := h
      cases hd
      exact .inr ⟨rest, not_or.mp hthere, hold, hnew, rfl⟩

structure InboundParts (old new : Config) (d : HotDiff) (part : InboundConfig → HotDiff) : Prop where
  oldTagged : inboundsTagged old.inbounds = true
  newTagged : inboundsTagged new.inbounds = true
  rounds : ∀ ib ∈ old.inbounds, OldInbound new.inbounds ib (part ib)
  removedInboundTags : d.removedInboundTags = old.inbounds.flatMap fun ib => (part ib).removedInboundTags
  addedInbounds : d.addedInbounds = (old.inbounds.flatMap fun ib => (part ib).addedInbounds) ++
    new.inbounds.flatMap fun ib => if inboundByTag old.inbounds ib.tag = none then [ib] else []
  removedUsers : d.removedUsers = old.inbounds.flatMap fun ib => (part ib).removedUsers
  addedUsers : d.addedUsers = old.inbounds.flatMap fun ib => (part ib).addedUsers
  droppedClients : d.droppedClients = old.inbounds.flatMap fun ib => (part ib).droppedClients

theorem DiffInbounds.inboundParts (h : DiffInbounds old new d) :
    ∃ part, InboundParts old new d part := by
  obtain ⟨kept, added, hkept, hadded, rfl⟩ := h.parts
  -- a new inbound adds itself when its tag is new, and nothing else
  have hpart : ∀ ib ∈ new.inbounds, HotDiff.part (diffNewInbound (apiTagFromConfig new.api) old.inbounds) ib =
      { addedInbounds := if inboundByTag old.inbounds ib.tag = none then [ib] else [] } := by
    intro ib hib
    rcases diffNewInbound_eq_some (hadded.rounds ib hib) with ⟨hsome, heq⟩ | ⟨hnone, heq⟩
    · rw [heq, if_neg (isSome_iff_ne_none.mp hsome)]
    · rw [heq, if_pos hnone]
  refine ⟨HotDiff.part (diffOldInbound (apiTagFromConfig new.api) new.inbounds), h.oldTagged, h.newTagged,
    fun ib hib => diffOldInbound_eq_some (hkept.rounds ib hib), ?_, ?_, ?_, ?_, ?_⟩
  · have hnil : added.removedInboundTags = [] := by
      rw [hadded.removedInboundTags, flatMap_eq_nil_iff]
      exact fun ib hib => congrArg HotDiff.removedInboundTags (hpart ib hib)
    exact (congrArg₂ (· ++ ·) hkept.removedInboundTags hnil).trans (append_nil _)
  · refine congrArg₂ (· ++ ·) hkept.addedInbounds (hadded.addedInbounds.trans ?_)
    exact flatMap_congr fun ib hib => congrArg HotDiff.addedInbounds (hpart ib hib)
  · have hnil : added.removedUsers = [] := by
      rw [hadded.removedUsers, flatMap_eq_nil_iff]
      exact fun ib hib => congrArg HotDiff.removedUsers (hpart ib hib)
    exact (congrArg₂ (· ++ ·) hkept.removedUsers hnil).trans (append_nil _)
  · have hnil : added.addedUsers = [] := by
      rw [hadded.addedUsers, flatMap_eq_nil_iff]
      exact fun ib hib => congrArg HotDiff.addedUsers (hpart ib hib)
    exact (congrArg₂ (· ++ ·) hkept.addedUsers hnil).trans (append_nil _)
  · have hnil : added.droppedClients = [] := by
      rw [hadded.droppedClients, flatMap_eq_nil_iff]
      exact fun ib hib => congrArg HotDiff.droppedClients (hpart ib hib)
    exact (congrArg₂ (· ++ ·) hkept.droppedClients hnil).trans (append_nil _)

theorem fields_of_computeHotDiff (h : computeHotDiff old new = some d) :
    (∀ s ∈ old.static.zip new.static, s.1.content = s.2.content) ∧
    (∃ part, InboundParts old new d part) ∧
    (∃ outbounds, diffOutbounds old new = some outbounds ∧ d.removedOutboundTags = outbounds.removedOutboundTags ∧
      d.addedOutbounds = outbounds.addedOutbounds) ∧
    ∃ routing, diffRouting old new = some routing ∧ d.routingConfig = routing.routingConfig := by
  obtain ⟨hstatic, inbounds, outbounds, routing, hinbounds, houtbounds, hrouting, rfl⟩ := computeHotDiff_eq_some h
  obtain ⟨part, hparts⟩ := hinbounds.inboundParts
  obtain ⟨hin₁, hin₂, hin₃⟩ := hinbounds.onInbounds
  obtain ⟨_, _, -, -, -, rfl⟩ := diffOutbounds_eq_some houtbounds
  obtain ⟨config, rfl⟩ : ∃ config, routing = { routingConfig := config } := by
    rcases diffRouting_eq_some hrouting with ⟨-, rfl⟩ | ⟨_, -, -, -, rfl⟩ <;> exact ⟨_, rfl⟩
  refine ⟨hstatic, ⟨part, hparts.oldTagged, hparts.newTagged, hparts.rounds, ?_, ?_, ?_, ?_, ?_⟩, ⟨_, houtbounds, ?_, ?_⟩, _, hrouting, ?_⟩
  · exact (congrArg (· ++ [] ++ []) hparts.removedInboundTags).trans (by simp only [append_nil])
  · exact (congrArg (· ++ [] ++ []) hparts.addedInbounds).trans (by simp only [append_nil])
  · exact (congrArg (· ++ [] ++ []) hparts.removedUsers).trans (by simp only [append_nil])
  · exact (congrArg (· ++ [] ++ []) hparts.addedUsers).trans (by simp only [append_nil])
  · exact (congrArg (· ++ [] ++ []) hparts.droppedClients).trans (by simp only [append_nil])
  · exact (congrArg (· ++ _ ++ []) hin₁).trans (by simp only [append_nil, nil_append])
  · exact (congrArg (· ++ _ ++ []) hin₂).trans (by simp only [append_nil, nil_append])
  · exact (congrArg (fun o => config.or (Option.or none o)) hin₃).trans (by simp)

end Hot

end Pui
