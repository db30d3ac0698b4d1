import Mathlib.Logic.Function.Basic
import Pui.HotDropped
import Pui.Prog

/-!
# Applying a diff to a running Xray

A running Xray is its outbounds in order, its inbounds by tag with their users by email, and its routing section.
-/

namespace Pui

open Table Crash Crash.Prog List

namespace Hot

variable {tag : String} {remove : Prog Core ApiError Unit}

inductive HandlerSettings where
  | users (rest : Json) (byEmail : String → Option Json)
  | whole (content : Except String (Option Json))

structure Handler where
  port : Int
  protocol : String
  listen : Except String (Option Json)
  streamSettings : Except String (Option Json)
  sniffing : Except String (Option Json)
  settings : HandlerSettings

def Handler.setUser (email : String) (user : Option Json) (h : Handler) : Handler :=
  match h.settings with
  | .users rest byEmail => { h with settings := .users rest (Function.update byEmail email user) }
  | .whole _ => h

/-- The routing section: what is fixed at the start, the rules and the balancers. -/
structure RoutingState where
  rest : Except String (Option Json)
  rules : Option Json
  balancers : Option Json

structure Core where
  outbounds : List OutboundEntry
  inbounds : String → Option Handler
  routing : RoutingState
  static : List (Except String (Option Json))

def RawMessage.handlerSettings (raw : RawMessage) : HandlerSettings :=
  match splitSettingsClients raw with
  | some (clients, rest) => .users rest clients.get?
  | none => .whole raw.content

def InboundConfig.handler (ib : InboundConfig) : Handler where
  port := ib.port
  protocol := ib.protocol
  listen := ib.listen.content
  streamSettings := ib.streamSettings.content
  sniffing := ib.sniffing.content
  settings := ib.settings.handlerSettings

def RawMessage.routingState : RawMessage → RoutingState
  | .json _ (.object fields) _ =>
    ⟨.ok (some (.object (without ["rules", "balancers"] fields))), lookup "rules" fields, lookup "balancers" fields⟩
  | raw => ⟨raw.content, none, none⟩

def Config.core (c : Config) : Option Core := do
  let outbounds ← parseOutbounds c.outbounds
  return {
    outbounds := outbounds
    inbounds := fun tag => (inboundByTag c.inbounds tag).map InboundConfig.handler
    routing := c.routing.routingState
    static := c.static.map RawMessage.content }

/-- Two cores are the same up to the order of their outbounds. -/
structure Core.Same (c c' : Core) : Prop where
  first : c.outbounds.head? = c'.outbounds.head?
  outbounds : c.outbounds.Perm c'.outbounds
  inbounds : c.inbounds = c'.inbounds
  routing : c.routing = c'.routing
  static : c.static = c'.static

inductive ApiError where
  | missing
  | existingTag
  | userExists
  | invalid
  | unavailable
  deriving DecidableEq

namespace Core

def alter (tag : String) (f : Option Handler → Option Handler) (c : Core) : Core :=
  { c with inbounds := Function.update c.inbounds tag (f (c.inbounds tag)) }

def dropUser (tag email : String) : Core → Core := alter tag fun h => h.map (Handler.setUser email none)

def putUser (tag email : String) (user : Json) : Core → Core := alter tag fun h => h.map (Handler.setUser email (some user))

def dropInbound (tag : String) : Core → Core := alter tag fun _ => none

def putInbound (ib : InboundConfig) : Core → Core := alter ib.tag fun _ => some ib.handler

def dropOutbound (tag : String) (c : Core) : Core := { c with outbounds := c.outbounds.filter fun e => e.tag ≠ tag }

def putOutbound (e : OutboundEntry) (c : Core) : Core := { c with outbounds := (c.outbounds.filter fun o => o.tag ≠ e.tag) ++ [e] }

def setRouting (raw : RawMessage) (c : Core) : Core :=
  { c with routing := { c.routing with rules := raw.routingState.rules, balancers := raw.routingState.balancers } }

def user (tag email : String) (c : Core) : Except ApiError (Option Json) :=
  match c.inbounds tag with
  | none => .error .missing
  | some h =>
    match h.settings with
    | .users _ byEmail => .ok (byEmail email)
    | .whole _ => .error .unavailable

end Core

namespace Api

def removeUser (tag email : String) : Prog Core ApiError Unit :=
  write .unavailable fun c => do
    match ← c.user tag email with
    | none => .error .missing
    | some _ => return ((), c.dropUser tag email)

/-- The API call that does what it says: the inbound has the user. `XrayAPI.AddUser` itself builds an account from some
of the user's fields and sends that and the email. -/
def addUser (tag : String) (user : Json) : Prog Core ApiError Unit :=
  write .unavailable fun c =>
    match itemEmail user with
    | none => .error .invalid
    | some email => do
      match ← c.user tag email with
      | some _ => .error .userExists
      | none => return ((), c.putUser tag email user)

def delInbound (tag : String) : Prog Core ApiError Unit :=
  write .unavailable fun c => if (c.inbounds tag).isNone then .error .missing else .ok ((), c.dropInbound tag)

def addInbound (ib : InboundConfig) : Prog Core ApiError Unit :=
  write .unavailable fun c => if (c.inbounds ib.tag).isSome then .error .existingTag else .ok ((), c.putInbound ib)

def delOutbound (tag : String) : Prog Core ApiError Unit :=
  write .unavailable fun c => if (outboundByTag c.outbounds tag).isNone then .error .missing else .ok ((), c.dropOutbound tag)

def addOutbound (e : OutboundEntry) : Prog Core ApiError Unit :=
  write .unavailable fun c => if (outboundByTag c.outbounds e.tag).isSome then .error .existingTag else .ok ((), c.putOutbound e)

def applyRoutingConfig (raw : RawMessage) : Prog Core ApiError Unit :=
  write .unavailable fun c => .ok ((), c.setRouting raw)

end Api

def tolerating (remove : Prog Core ApiError Unit) : Prog Core ApiError Unit := do
  match ← attempt remove with
  | .ok () => pure ()
  | .error e => failIf (e ≠ .missing) e

def reconciling (conflict : ApiError) (add remove : Prog Core ApiError Unit) : Prog Core ApiError Unit := do
  match ← attempt add with
  | .ok () => pure ()
  | .error e => do
    failIf (e ≠ conflict) e
    tolerating remove
    add

def addUserReconciling (u : UserOp) : Prog Core ApiError Unit :=
  reconciling .userExists (Api.addUser u.tag (u.user.getD .null)) (Api.removeUser u.tag u.email)

def addInboundReconciling (ib : InboundConfig) : Prog Core ApiError Unit :=
  reconciling .existingTag (Api.addInbound ib) (Api.delInbound ib.tag)

def addOutboundReconciling (e : OutboundEntry) : Prog Core ApiError Unit :=
  reconciling .existingTag (Api.addOutbound e) (Api.delOutbound e.tag)

def applyHotDiff (d : HotDiff) : Prog Core ApiError Unit := do
  d.removedUsers.forM fun u => tolerating (Api.removeUser u.tag u.email)
  d.removedInboundTags.forM fun tag => tolerating (Api.delInbound tag)
  d.removedOutboundTags.forM fun tag => tolerating (Api.delOutbound tag)
  d.addedOutbounds.forM addOutboundReconciling
  d.addedInbounds.forM addInboundReconciling
  d.addedUsers.forM addUserReconciling
  match d.routingConfig with
  | none => pure ()
  | some raw => Api.applyRoutingConfig raw

def HotDiff.applied (d : HotDiff) (c : Core) : Core :=
  let c := d.removedUsers.foldl (fun c u => c.dropUser u.tag u.email) c
  let c := d.removedInboundTags.foldl (fun c tag => c.dropInbound tag) c
  let c := d.removedOutboundTags.foldl (fun c tag => c.dropOutbound tag) c
  let c := d.addedOutbounds.foldl (fun c e => c.putOutbound e) c
  let c := d.addedInbounds.foldl (fun c ib => c.putInbound ib) c
  let c := d.addedUsers.foldl (fun c u => c.putUser u.tag u.email (u.user.getD .null)) c
  match d.routingConfig with
  | none => c
  | some raw => c.setRouting raw

def HotDiff.WellNamed (d : HotDiff) : Prop := ∀ u ∈ d.addedUsers, itemEmail (u.user.getD .null) = some u.email

theorem Handler.setUser_setUser (email : String) (u v : Option Json) (h : Handler) : (h.setUser email u).setUser email v = h.setUser email v := by
  obtain ⟨port, protocol, listen, stream, sniffing, settings⟩ := h
  cases settings with
  | users rest byEmail => simp [setUser]
  | whole content => rfl

theorem Core.alter_alter (tag : String) (f g : Option Handler → Option Handler) (c : Core) :
    (c.alter tag f).alter tag g = c.alter tag (g ∘ f) := by
  simp [alter]

theorem Core.alter_of_eq {f : Option Handler → Option Handler} {c : Core} (h : f (c.inbounds tag) = c.inbounds tag) :
    c.alter tag f = c := by
  rw [alter, h, Function.update_eq_self]

theorem Core.dropUser_of_absent {email : String} {c : Core} (h : c.user tag email = .ok none ∨ c.user tag email = .error .missing) :
    c.dropUser tag email = c := by
  refine alter_of_eq ?_
  unfold user at h
  cases hc : c.inbounds tag with
  | none => rfl
  | some handler =>
    obtain ⟨port, protocol, listen, stream, sniffing, settings⟩ := handler
    rw [hc] at h
    cases settings with
    | users rest byEmail =>
      have hnone : byEmail email = none := by simpa using h
      simp [Handler.setUser, ← hnone]
    | whole content => simp at h

theorem outboundByTag_eq_none {entries : List OutboundEntry} (h : outboundByTag entries tag = none) :
    (entries.filter fun e => e.tag ≠ tag) = entries := by
  rw [filter_eq_self]
  intro e he
  have hne := List.find?_eq_none.mp h e he
  simpa using hne

def Removes (x : Prog Core ApiError Unit) (c c' : Core) : Prop := Spec x c (fun _ t => t = c') fun h t => h = .failed .missing → t = c'

theorem tolerating_spec {c c' : Core} (h : Removes remove c c') :
    Spec (tolerating remove) c (fun _ t => t = c') fun _ _ => True := by
  refine Spec.bind (Q := fun r t => r = .ok () ∨ r = .error .missing → t = c') (Spec.attempt (h.mono ?_ ?_)) ?_
  · exact fun _ t ht _ => ht
  · rintro (e | -) t ht
    · intro he
      rcases he with he | he
      · cases he
      · cases he
        exact ht rfl
    · trivial
  · rintro (e | ⟨⟩) t ht
    · refine (spec_failIf _ _).mpr ⟨fun _ => trivial, fun he => ht (.inr ?_)⟩
      rw [not_not.mp he]
    · exact (spec_pure _).mpr (ht (.inl rfl))

def Adds (conflict : ApiError) (x : Prog Core ApiError Unit) (c c' : Core) : Prop :=
  Spec x c (fun _ t => t = c') fun h t => h = .failed conflict → t = c

theorem reconciling_spec {conflict : ApiError} {add : Prog Core ApiError Unit} {put drop : Core → Core}
    (hadd : ∀ c, Adds conflict add c (put c)) (hremove : ∀ c, Removes remove c (drop c)) (hput : ∀ c, put (drop c) = put c) (c : Core) :
    Spec (reconciling conflict add remove) c (fun _ t => t = put c) fun _ _ => True := by
  refine Spec.bind (Q := fun r t => (r = .ok () → t = put c) ∧ (r = .error conflict → t = c)) (Spec.attempt ((hadd c).mono ?_ ?_)) ?_
  · exact fun _ t ht => ⟨fun _ => ht, fun he => nomatch he⟩
  · rintro (e | -) t ht
    · refine ⟨fun he => (nomatch he), fun he => ?_⟩
      cases he
      exact ht rfl
    · trivial
  · rintro (e | ⟨⟩) t ht
    · refine (spec_failIf_bind _ _).mpr ⟨fun _ => trivial, fun he => ?_⟩
      rw [ht.2 (by rw [not_not.mp he])]
      refine Spec.bind (tolerating_spec (hremove c)) ?_
      rintro _ t rfl
      refine (hadd (drop c)).mono (fun _ t ht => ?_) fun _ _ _ => trivial
      rw [ht, hput]
    · exact (spec_pure _).mpr (ht.1 rfl)

theorem removeUser_removes (tag email : String) (c : Core) : Removes (Api.removeUser tag email) c (c.dropUser tag email) := by
  refine Spec.write (fun he => nomatch he) ?_ ?_
  · intro e he
    refine ⟨fun heq => ?_, fun heq => nomatch heq⟩
    cases heq
    cases huser : c.user tag email with
    | error e' =>
      rw [huser] at he
      cases he
      exact (Core.dropUser_of_absent (.inr huser)).symm
    | ok o =>
      cases o with
      | none => exact (Core.dropUser_of_absent (.inl huser)).symm
      | some user =>
        rw [huser] at he
        cases he
  · intro _ t ht
    refine ⟨?_, fun he => nomatch he⟩
    cases huser : c.user tag email with
    | error e' =>
      rw [huser] at ht
      cases ht
    | ok o =>
      rw [huser] at ht
      cases o <;> cases ht
      rfl

theorem addUser_adds {email : String} {user : Json} (hemail : itemEmail user = some email) (c : Core) :
    Adds .userExists (Api.addUser tag user) c (c.putUser tag email user) := by
  refine Spec.write (fun _ => rfl) (fun _ _ => ⟨fun _ => rfl, fun _ => rfl⟩) ?_
  intro _ t ht
  refine ⟨?_, fun he => nomatch he⟩
  simp only [hemail] at ht
  cases huser : c.user tag email with
  | error e' =>
    rw [huser] at ht
    cases ht
  | ok o =>
    rw [huser] at ht
    cases o <;> cases ht
    rfl

theorem delInbound_removes (tag : String) (c : Core) : Removes (Api.delInbound tag) c (c.dropInbound tag) := by
  refine Spec.write (fun he => nomatch he) ?_ ?_
  · intro e he
    split at he
    · next hnone =>
      refine ⟨fun _ => (Core.alter_of_eq ?_).symm, fun heq => nomatch heq⟩
      exact (Option.isNone_iff_eq_none.mp hnone).symm
    · cases he
  · intro _ t ht
    split at ht
    · cases ht
    · cases ht
      exact ⟨rfl, fun he => nomatch he⟩

theorem addInbound_adds (ib : InboundConfig) (c : Core) : Adds .existingTag (Api.addInbound ib) c (c.putInbound ib) := by
  refine Spec.write (fun _ => rfl) (fun _ _ => ⟨fun _ => rfl, fun _ => rfl⟩) ?_
  intro _ t ht
  split at ht
  · cases ht
  · cases ht
    exact ⟨rfl, fun he => nomatch he⟩

theorem delOutbound_removes (tag : String) (c : Core) : Removes (Api.delOutbound tag) c (c.dropOutbound tag) := by
  refine Spec.write (fun he => nomatch he) ?_ ?_
  · intro e he
    split at he
    · next hnone =>
      refine ⟨fun _ => ?_, fun heq => nomatch heq⟩
      rw [Core.dropOutbound, outboundByTag_eq_none (Option.isNone_iff_eq_none.mp hnone)]
    · cases he
  · intro _ t ht
    split at ht
    · cases ht
    · cases ht
      exact ⟨rfl, fun he => nomatch he⟩

theorem addOutbound_adds (e : OutboundEntry) (c : Core) : Adds .existingTag (Api.addOutbound e) c (c.putOutbound e) := by
  refine Spec.write (fun _ => rfl) (fun _ _ => ⟨fun _ => rfl, fun _ => rfl⟩) ?_
  intro _ t ht
  split at ht
  · cases ht
  · cases ht
    exact ⟨rfl, fun he => nomatch he⟩

theorem forM_spec {α : Type} {f : α → Prog Core ApiError PUnit} {g : Core → α → Core} {l : List α}
    (h : ∀ a ∈ l, ∀ c, Spec (f a) c (fun _ t => t = g c a) fun _ _ => True) (c : Core) :
    Spec (l.forM f) c (fun _ t => t = l.foldl g c) fun _ _ => True := by
  have hloop := Spec.forM (f := f) (l := l) (s := c) (E := fun _ _ => True)
    (I := fun rest t => (∀ a ∈ rest, a ∈ l) ∧ rest.foldl g t = l.foldl g c) ?_ ⟨fun _ ha => ha, rfl⟩
  · exact hloop.mono (fun _ _ ht => ht.2) fun _ _ _ => trivial
  · rintro a rest t ⟨hsub, ht⟩
    refine (h a (hsub a mem_cons_self) t).mono ?_ fun _ _ _ => trivial
    rintro _ _ rfl
    exact ⟨fun b hb => hsub b (mem_cons_of_mem a hb), ht⟩

theorem applyHotDiff_spec {d : HotDiff} (hnamed : d.WellNamed) (c : Core) :
    Spec (applyHotDiff d) c (fun _ t => t = d.applied c) fun _ _ => True := by
  refine Spec.bind (forM_spec (fun u _ c => tolerating_spec (removeUser_removes u.tag u.email c)) c) ?_
  rintro _ _ rfl
  refine Spec.bind (forM_spec (fun tag _ c => tolerating_spec (delInbound_removes tag c)) _) ?_
  rintro _ _ rfl
  refine Spec.bind (forM_spec (fun tag _ c => tolerating_spec (delOutbound_removes tag c)) _) ?_
  rintro _ _ rfl
  refine Spec.bind (forM_spec (g := fun c e => c.putOutbound e) (fun e _ c => ?_) _) ?_
  · refine reconciling_spec (addOutbound_adds e) (delOutbound_removes e.tag) (fun c => ?_) c
    simp [Core.putOutbound, Core.dropOutbound, filter_filter]
  rintro _ _ rfl
  refine Spec.bind (forM_spec (g := fun c ib => c.putInbound ib) (fun ib _ c => ?_) _) ?_
  · exact reconciling_spec (addInbound_adds ib) (delInbound_removes ib.tag) (fun c => Core.alter_alter _ _ _ c) c
  rintro _ _ rfl
  refine Spec.bind (forM_spec (g := fun c u => c.putUser u.tag u.email (u.user.getD .null)) (fun u hu c => ?_) _) ?_
  · refine reconciling_spec (addUser_adds (hnamed u hu)) (removeUser_removes u.tag u.email) (fun c => ?_) c
    refine (Core.alter_alter _ _ _ c).trans ?_
    congr 1
    funext h
    cases h with
    | none => rfl
    | some h => exact congrArg some (Handler.setUser_setUser _ _ _ h)
  rintro _ _ rfl
  unfold HotDiff.applied
  cases d.routingConfig with
  | none => exact (spec_pure _).mpr rfl
  | some raw =>
    refine Spec.write trivial (fun _ _ => ⟨trivial, trivial⟩) ?_
    intro _ t ht
    cases ht
    exact ⟨rfl, trivial⟩

end Hot

end Pui
