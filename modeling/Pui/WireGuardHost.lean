import Mathlib.Data.List.TakeWhile
import Pui.Counter
import Pui.Prog
import Pui.WireGuard

/-!
# The WireGuard manager and its host

The kernel holds a link for each device: its peers with their counters, its addresses and its routes.
-/

namespace Pui

open Table Crash Crash.Prog List

def Counter.forget (key : String) (c : Counter) : Counter := { c with last := c.last.drop key, absent := c.absent.drop key }

namespace WireGuard

structure Link where
  index : Nat
  mtu : Int
  privateKey : Key := .zero
  listenPort : Int := 0
  firewallMark : Int := 0
  peers : List KernelPeer := []
  addrs : List Prefix := []
  routes : List Prefix := []

structure Kernel where
  links : Table String Link := ∅
  nextIndex : Nat := 1

def KernelPeer.update (cfg : PeerConfig) (p : KernelPeer) : KernelPeer :=
  { p with
    presharedKey := cfg.presharedKey.getD p.presharedKey
    endpoint := cfg.endpoint.or p.endpoint
    keepalive := cfg.keepalive.getD p.keepalive
    allowedIPs := ((if cfg.replaceAllowedIPs then [] else p.allowedIPs) ++ cfg.allowedIPs).eraseDups }

def KernelPeer.fresh (key : Key) : KernelPeer where
  publicKey := key
  presharedKey := .zero
  endpoint := none
  keepalive := 0
  allowedIPs := []
  receiveBytes := 0
  transmitBytes := 0

def KernelPeer.write (cfg : PeerConfig) (p : KernelPeer) : KernelPeer :=
  if p.publicKey = cfg.publicKey then p.update cfg else { p with allowedIPs := p.allowedIPs.filter (· ∉ cfg.allowedIPs) }

def setPeer (peers : List KernelPeer) (cfg : PeerConfig) : List KernelPeer :=
  if cfg.remove then peers.filter fun p => p.publicKey ≠ cfg.publicKey
  else
    let written := peers.map (KernelPeer.write cfg)
    if cfg.publicKey ∈ peers.map KernelPeer.publicKey then written else written ++ [(KernelPeer.fresh cfg.publicKey).update cfg]

def Link.configure (delta : DeviceDelta) (cfgs : List PeerConfig) (link : Link) : Link :=
  { link with
    privateKey := delta.privateKey.getD link.privateKey
    listenPort := delta.listenPort.getD link.listenPort
    firewallMark := delta.firewallMark.getD link.firewallMark
    peers := cfgs.foldl setPeer link.peers }

def Link.addAddr (p : Prefix) (link : Link) : Except KernelError Link :=
  if p.addr.is4In6 then .error .invalid
  else if p ∈ link.addrs then .error .existing
  else .ok { link with
    addrs := link.addrs ++ [p]
    routes := if p.masked ∈ link.routes then link.routes else link.routes ++ [p.masked] }

def Link.delAddr (p : Prefix) (link : Link) : Except KernelError Link :=
  if p ∉ link.addrs then .error .missing
  else
    let left := link.addrs.filter (· ≠ p)
    .ok { link with
      addrs := left
      routes := if p.masked ∈ left.map Prefix.masked then link.routes else link.routes.filter (· ≠ p.masked) }

def Link.addRoute (p : Prefix) (link : Link) : Except KernelError Link :=
  if p.addr.is4In6 then .error .invalid
  else if p ∈ link.routes then .error .existing
  else .ok { link with routes := link.routes ++ [p] }

def Link.delRoute (p : Prefix) (link : Link) : Except KernelError Link :=
  if p ∉ link.routes then .error .missing else .ok { link with routes := link.routes.filter (· ≠ p) }

namespace Kernel

def alter (name : String) (f : Link → Except KernelError Link) (k : Kernel) : Except KernelError (Unit × Kernel) :=
  match k.links.get? name with
  | none => .error .noDevice
  | some link => (f link).map fun link => ((), { k with links := k.links.put name link })

def snapshot (name : String) (k : Kernel) : Except KernelError (Option Link × Kernel) := .ok (k.links.get? name, k)

def names (k : Kernel) : Except KernelError (List String × Kernel) := .ok (k.links.keys, k)

def create (name : String) (mtu : Int) (k : Kernel) : Kernel where
  links := k.links.put name { index := k.nextIndex, mtu := if mtu > 0 then mtu else defaultMTU }
  nextIndex := k.nextIndex + 1

def ensureLink (name : String) (mtu : Int) (k : Kernel) : Except KernelError (Bool × Kernel) :=
  match k.links.get? name with
  | none => .ok (true, k.create name mtu)
  | some link => .ok (false, { k with links := k.links.put name { link with mtu := if mtu > 0 then mtu else link.mtu } })

def deleteLink (name : String) (k : Kernel) : Except KernelError (Unit × Kernel) := .ok ((), { k with links := k.links.drop name })

def configure (name : String) (delta : DeviceDelta) (cfgs : List PeerConfig) : Kernel → Except KernelError (Unit × Kernel) :=
  alter name fun link =>
    if cfgs.any fun cfg => cfg.allowedIPs.any fun n => n.ip.is4In6 then .error .invalid else .ok (link.configure delta cfgs)

end Kernel

structure Traffic where
  tag : String
  email : String
  up : Int
  down : Int
  deriving DecidableEq

def Traffic.bytes (t : Traffic) : Int := t.up + t.down

structure Managed where
  tag : String := ""
  generation : Nat := 0
  counter : Counter := {}
  byEmail : Table String Key := ∅
  byKey : Table Key String := ∅
  pending : Table String Traffic := ∅

def upKey : String := "\x00up"

def downKey : String := "\x00down"

def subject (key : Key) (up : Bool) : String := key.text ++ if up then upKey else downKey

def cutKey (s : String) : Key :=
  ⟨String.ofList (s.toList.takeWhile (· ≠ keySep)), by
    rw [String.toList_ofList]
    intro hmem
    simpa using mem_takeWhile_imp hmem⟩

def cutDirection (s : String) : String := String.ofList ((s.toList.dropWhile (· ≠ keySep)).drop 1)

def deviceReadings (link : Link) (generation : Nat) : Table String Int × String :=
  (link.peers.foldl (fun t p => (t.put (subject p.publicKey true) (p.receiveBytes : Int)).put (subject p.publicKey false) (p.transmitBytes : Int)) ∅,
    toString link.index ++ ":" ++ toString generation)

namespace Managed

def index (acc : Table String Key × Table Key String) (p : Peer) : Table String Key × Table Key String :=
  match parseKey p.publicKey with
  | none => acc
  | some key =>
    if p.email = "" ∨ key = .zero then acc
    else if (acc.2.get? key).isSome then acc
    else (acc.1.put p.email key, acc.2.put key p.email)

def hold (owners : Table Key String) (acc : Table String Key × Table Key String) (p : KernelPeer) : Table String Key × Table Key String :=
  match owners.get? p.publicKey with
  | none => acc
  | some email =>
    if (acc.2.get? p.publicKey).isSome then acc
    else (if (acc.1.get? email).isSome then acc.1 else acc.1.put email p.publicKey, acc.2.put p.publicKey email)

def reindex (peers : List Peer) (held : List KernelPeer) (rec : Managed) : Managed :=
  let acc := held.foldl (hold rec.byKey) (peers.foldl index (∅, ∅))
  { rec with byEmail := acc.1, byKey := acc.2 }

def track (email : String) (key : Key) (rec : Managed) : Managed :=
  if email = "" then rec
  else
    let byKey := match rec.byEmail.get? email with
      | some old => if old ≠ key then rec.byKey.drop old else rec.byKey
      | none => rec.byKey
    { rec with byEmail := rec.byEmail.put email key, byKey := byKey.put key email }

def renew (tag : String) (created : Bool) (rec : Managed) : Managed :=
  { rec with tag := tag, generation := if created then rec.generation + 1 else rec.generation }

def retag (tag : String) (rec : Managed) : Managed := { rec with tag := if tag ≠ "" then tag else rec.tag }

def forgetKey (key : Key) (rec : Managed) : Managed :=
  { rec with counter := (rec.counter.forget (subject key true)).forget (subject key false) }

def forget (email : String) (key : Key) (rec : Managed) : Managed :=
  ({ rec with byEmail := rec.byEmail.drop email, byKey := rec.byKey.drop key } : Managed).forgetKey key

def forgetRemoved (changes : List PeerConfig) (rec : Managed) : Managed :=
  (changes.filter PeerConfig.remove).foldl (fun rec c => rec.forgetKey c.publicKey) rec

/-- The growth of one subject goes to the client that owns its key. The source adds in `int64`; the totals of the model
are integers, so they stand for totals below 2 ^ 63. -/
def attributeOne (rec : Managed) (into : Table String Traffic) (e : Sigma fun _ : String => Int) : Table String Traffic :=
  match rec.byKey.get? (cutKey e.1) with
  | none => into
  | some email =>
    let acc := (into.get? email).getD ⟨rec.tag, email, 0, 0⟩
    into.put email (if cutDirection e.1 = "up" then { acc with up := acc.up + e.2 } else { acc with down := acc.down + e.2 })

def attributeDeltas (deltas : Table String Int) (into : Table String Traffic) (rec : Managed) : Table String Traffic :=
  deltas.entries.foldl (attributeOne rec) into

def observe (link : Link) (rec : Managed) : Managed :=
  let (readings, epoch) := deviceReadings link rec.generation
  let (deltas, counter) := rec.counter.observe epoch readings
  { rec with counter := counter, pending := rec.attributeDeltas deltas rec.pending }

def drain (link : Link) (rec : Managed) : Managed := if rec.counter.primed then rec.observe link else rec

def takePending (rec : Managed) : Managed := { rec with pending := ∅ }

def flatten (billed : Table String Traffic) : List Traffic := billed.entries.map Sigma.snd

end Managed

structure Host where
  devices : Table Int Managed := ∅
  kernel : Kernel := {}

abbrev Op (α : Type) : Type := Prog Host KernelError α

def call {α : Type} (f : Kernel → Except KernelError (α × Kernel)) : Op (Except KernelError α) :=
  attempt (write .refused fun h => (f h.kernel).map fun r => (r.1, { h with kernel := r.2 }))

def Host.record (h : Host) (id : Int) : Managed := (h.devices.get? id).getD {}

def modifyRecord (id : Int) (f : Managed → Managed) : Op Unit :=
  update fun h => { h with devices := h.devices.put id (f (h.record id)) }

def nameIn (space : String) (id : Int) : String := space ++ toString id

def ownedIDIn (space name : String) : Option Int :=
  if space.toList.isPrefixOf name.toList then
    match (String.ofList (name.toList.drop space.toList.length)).toInt? with
    | some id => if id ≤ 0 ∨ nameIn space id ≠ name then none else some id
    | none => none
  else none

def each {α : Type} (f : α → Op (List Failure)) : List α → Op (List Failure)
  | [] => pure []
  | a :: l => do
    let failures ← f a
    let rest ← each f l
    return failures ++ rest

def attemptOne {α : Type} (failure : α → KernelError → Failure) (f : α → Kernel → Except KernelError (Unit × Kernel)) (a : α) :
    Op (List Failure) := do
  match ← call (f a) with
  | .ok () => return []
  | .error e => return [failure a e]

def addAddr (name : String) : Prefix → Op (List Failure) :=
  attemptOne (fun p e => .addAddr p name e) fun p => Kernel.alter name (Link.addAddr p)

def addRoute (name : String) : Prefix → Op (List Failure) :=
  attemptOne (fun p e => .addRoute p name e) fun p => Kernel.alter name (Link.addRoute p)

def delRoute (name : String) : Prefix → Op (List Failure) :=
  attemptOne (fun p e => .delRoute p name e) fun p => Kernel.alter name (Link.delRoute p)

def delAddrs (name : String) : List Prefix → Op (List Prefix × List Failure)
  | [] => pure ([], [])
  | p :: l => do
    match ← call (Kernel.alter name (Link.delAddr p)) with
    | .ok () => do
      let (dropped, failures) ← delAddrs name l
      return (p.masked :: dropped, failures)
    | .error e => do
      let (dropped, failures) ← delAddrs name l
      return (dropped, .delAddr p name e :: failures)

def syncAddrs (name : String) (current desired : List Prefix) : Op (List Prefix × List Failure) := do
  let (add, del) := diffAddrs current desired
  let added ← each (addAddr name) add
  let (dropped, failures) ← delAddrs name del
  return (dropped, added ++ failures)

def syncRoutes (name : String) (current desired addrs gone : List Prefix) : Op (List Failure) := do
  let (add, del) := diffRoutes current desired addrs
  let added ← each (addRoute name) add
  let dropped ← each (delRoute name) (del.filter (· ∉ gone))
  return added ++ dropped

/-- Bring the link up and write the settings of the device itself. -/
def ensureDevice (name : String) (inst : Instance) (key : Key) : Op (Except Failure (Link × Bool)) := do
  match ← call (Kernel.ensureLink name (deviceMTU inst.mtu inst.transportPadding)) with
  | .error e => return .error (.kernel e)
  | .ok created => do
    match ← call (Kernel.snapshot name) with
    | .error e => return .error (.kernel e)
    | .ok none => return .error (.noDevice name)
    | .ok (some link) => do
      let delta := diffDevice link.privateKey link.listenPort link.firewallMark key inst.port inst.fwMark created
      if delta = {} then return .ok (link, created)
      else do
        match ← call (Kernel.configure name delta []) with
        | .error e => return .error (.kernel e)
        | .ok () => return .ok (link, created)

def pushPeers (name : String) (id : Int) (changes : List PeerConfig) : Op (Option KernelError) :=
  if changes = [] then pure none
  else do
    match ← call (Kernel.configure name {} changes) with
    | .error e => return some e
    | .ok () => do
      modifyRecord id (Managed.forgetRemoved changes)
      return none

def ensure (space : String) (inst : Instance) : Op (List Failure) :=
  let name := nameIn space inst.id
  match parseKey inst.privateKey, parsePrefixes inst.address with
  | none, _ => return [.unusablePrivateKey inst.id]
  | some _, .error e => return [e]
  | some key, .ok addrs => do
    let (peers, rejected) := desiredPeers inst.peers
    match ← ensureDevice name inst key with
    | .error e => return rejected ++ [e]
    | .ok (link, created) => do
      modifyRecord inst.id (Managed.renew inst.tag created)
      let changes := diffPeers link.peers peers created
      -- banked while the old index still names the owners
      modifyRecord inst.id fun rec => if changes.any PeerConfig.remove then rec.drain link else rec
      let refused ← pushPeers name inst.id changes
      modifyRecord inst.id (Managed.reindex inst.peers (if refused.isSome then link.peers else []))
      let (dropped, addrFailures) ← syncAddrs name link.addrs addrs
      let routeFailures ← syncRoutes name link.routes (desiredRoutes addrs peers) addrs dropped
      return rejected ++ refused.toList.map .kernel ++ addrFailures ++ routeFailures

def drainDevice (name : String) (id : Int) : Op Unit := do
  match ← call (Kernel.snapshot name) with
  | .ok (some link) => modifyRecord id (Managed.drain link)
  | _ => return ()

def remove (space : String) (id : Int) : Op (List Failure) := do
  let name := nameIn space id
  let h ← read
  (if (h.devices.get? id).isSome then drainDevice name id else pure () : Op Unit)
  match ← call (Kernel.deleteLink name) with
  | .error e => return [.deleteLink name e]
  | .ok () => do
    update fun h =>
      match h.devices.get? id with
      | none => h
      | some rec => if rec.pending.entries ≠ [] then h else { h with devices := h.devices.drop id }
    return []

def reconcile (space : String) (desired : List Instance) (retain : List Int) : Op (List Failure) := do
  let want := desired.map Instance.id ++ retain
  let h ← read
  let (names, failures) ← (do
    match ← call Kernel.names with
    | .ok names => return (names, [])
    | .error e => return ([], [Failure.kernel e]) : Op (List String × List Failure))
  let unwanted := (h.devices.keys ++ names.filterMap (ownedIDIn space)).filter (· ∉ want)
  let removed ← each (remove space) unwanted.eraseDups
  let ensured ← each (ensure space) desired
  return failures ++ removed ++ ensured

def addPeerTo (name : String) (inst : Instance) (p : Peer) (want : PeerConfig) (link : Link) : Op (List Failure) := do
  modifyRecord inst.id fun rec => (rec.retag inst.tag).track p.email want.publicKey
  match upsertPeer link.peers want with
  | none => return []
  | some cfg => do
    match ← call (Kernel.configure name {} [cfg]) with
    | .error e => return [.kernel e]
    | .ok () =>
      match parsePrefixes inst.address with
      | .error e => return [e]
      -- nothing is dropped: the prefixes of the other clients are not known here
      | .ok addrs => each (addRoute name) (diffRoutes link.routes (desiredRoutes addrs [cfg]) addrs).1

def addPeer (space : String) (inst : Instance) (p : Peer) : Op (List Failure) :=
  let name := nameIn space inst.id
  match desiredPeer p with
  | .error e => return [e]
  | .ok want => do
    modifyRecord inst.id id
    let h ← read
    match (h.record inst.id).byKey.get? want.publicKey with
    | some other =>
      if other ≠ p.email then return [.sharedPublicKey other p.email] else edit name want
    | none => edit name want
where
  edit (name : String) (want : PeerConfig) : Op (List Failure) := do
    match ← call (Kernel.snapshot name) with
    | .error e => return [.kernel e]
    | .ok none => return [.noDevice name]
    | .ok (some link) => addPeerTo name inst p want link

def resolve (h : Host) (inst : Instance) (email : String) (fallbackKey : KeyText) : Option Key :=
  let indexed := (h.devices.get? inst.id).bind fun rec => rec.byEmail.get? email
  let listed := inst.peers.findSome? fun p =>
    if p.email ≠ email then none else (parseKey p.publicKey).filter (· ≠ .zero)
  indexed.or (listed.or ((parseKey fallbackKey).filter (· ≠ .zero)))

def removePeerFrom (name : String) (inst : Instance) (email : String) (key : Key) (link : Link) : Op (List Failure) := do
  modifyRecord inst.id fun rec => (rec.retag inst.tag).drain link
  match ← call (Kernel.configure name {} [{ publicKey := key, remove := true }]) with
  | .error e => return [.kernel e]
  | .ok () => do
    modifyRecord inst.id (Managed.forget email key)
    match parsePrefixes inst.address with
    | .error e => return [e]
    | .ok addrs =>
      -- without the addresses a connected route cannot be told from a surplus one
      if addrs = [] then return []
      else do
        let remaining := (link.peers.filter fun p => p.publicKey ≠ key).map fun p =>
          ({ publicKey := p.publicKey, allowedIPs := p.allowedIPs } : PeerConfig)
        each (delRoute name) (diffRoutes link.routes (desiredRoutes addrs remaining) addrs).2

def removePeer (space : String) (inst : Instance) (email : String) (fallbackKey : KeyText) : Op (List Failure) := do
  let name := nameIn space inst.id
  let h ← read
  match resolve h inst email fallbackKey with
  | none => return []
  | some key => do
    modifyRecord inst.id id
    match ← call (Kernel.snapshot name) with
    | .error e => return [.kernel e]
    | .ok none => do
      modifyRecord inst.id (Managed.forget email key)
      return []
    | .ok (some link) => removePeerFrom name inst email key link

def scrapeDevice (space : String) (id : Int) : Op (List Traffic) := do
  let h ← read
  match h.devices.get? id with
  | none => return []
  | some rec => do
    -- taken before the read can fail
    modifyRecord id Managed.takePending
    match ← call (Kernel.snapshot (nameIn space id)) with
    | .ok (some link) => do
      modifyRecord id fun _ => (rec.observe link).takePending
      return Managed.flatten (rec.observe link).pending
    | _ => return Managed.flatten rec.pending

theorem Kernel.alter_eq_ok {name : String} {f : Link → Except KernelError Link} {k k' : Kernel} (h : alter name f k = .ok ((), k')) :
    ∃ link link', k.links.get? name = some link ∧ f link = .ok link' ∧ k' = { k with links := k.links.put name link' } := by
  unfold alter at h
  split at h
  · cases h
  · next link hget =>
    cases hf : f link with
    | error e =>
      rw [hf] at h
      cases h
    | ok link' =>
      rw [hf] at h
      cases h
      exact ⟨link, link', hget, hf, rfl⟩

variable {α : Type} {h : Host} {E : Halt KernelError → Host → Prop}

theorem call_eq_ok {f : Kernel → Except KernelError (α × Kernel)} {a : α} {t : Host}
    (ht : ((f h.kernel).map fun r => (r.1, { h with kernel := r.2 })) = .ok (a, t)) : ∃ k, f h.kernel = .ok (a, k) ∧ t = { h with kernel := k } := by
  cases hf : f h.kernel with
  | error e =>
    rw [hf] at ht
    cases ht
  | ok r =>
    rw [hf] at ht
    cases ht
    exact ⟨r.2, rfl, rfl⟩

theorem call_spec {f : Kernel → Except KernelError (α × Kernel)} {Q : Except KernelError α → Host → Prop} (herror : ∀ e, Q (.error e) h)
    (hok : ∀ a k, f h.kernel = .ok (a, k) → Q (.ok a) { h with kernel := k } ∧ E .crashed { h with kernel := k }) (hcrashed : E .crashed h) :
    Spec (call f) h Q E := by
  refine Spec.attempt (Spec.write (herror _) (fun e _ => ⟨herror e, hcrashed⟩) fun a t ht => ?_)
  obtain ⟨k, hf, rfl⟩ := call_eq_ok ht
  exact hok a k hf

theorem call_bind_spec {β : Type} {f : Kernel → Except KernelError (α × Kernel)} {g : Except KernelError α → Op β} {R : β → Host → Prop}
    (herror : ∀ e, Spec (g (.error e)) h R E)
    (hok : ∀ a k, f h.kernel = .ok (a, k) → Spec (g (.ok a)) { h with kernel := k } R E ∧ E .crashed { h with kernel := k })
    (hcrashed : E .crashed h) : Spec (call f >>= g) h R E :=
  Spec.bind (call_spec (Q := fun r t => Spec (g r) t R E) herror hok hcrashed) fun _ _ ht => ht

theorem each_spec {I : Host → Prop} {f : α → Op (List Failure)} {l : List α} (hf : ∀ a ∈ l, ∀ t, I t → Spec (f a) t (fun _ => I) E)
    (hi : I h) : Spec (each f l) h (fun _ => I) E := by
  induction l generalizing h with
  | nil => exact (spec_pure _).mpr hi
  | cons a l ih =>
    refine Spec.bind (hf a mem_cons_self h hi) fun _ t ht => ?_
    refine Spec.bind (ih (fun b hb => hf b (mem_cons_of_mem a hb)) ht) fun _ t' ht' => ?_
    exact (spec_pure _).mpr ht'

theorem delAddrs_spec {I : Host → Prop} {name : String} {l : List Prefix}
    (hcall : ∀ p ∈ l, ∀ t k, I t → Kernel.alter name (Link.delAddr p) t.kernel = .ok ((), k) → I { t with kernel := k })
    (hE : ∀ t, I t → E .crashed t) (hi : I h) : Spec (delAddrs name l) h (fun _ => I) E := by
  induction l generalizing h with
  | nil => exact (spec_pure _).mpr hi
  | cons p l ih =>
    have hrest := fun t (ht : I t) => ih (fun q hq => hcall q (mem_cons_of_mem p hq)) ht
    refine call_bind_spec (fun e => ?_) (fun a k hk => ⟨?_, ?_⟩) (hE h hi)
    · exact Spec.bind (hrest h hi) fun _ t ht => (spec_pure _).mpr ht
    · exact Spec.bind (hrest _ (hcall p mem_cons_self h k hi hk)) fun _ t ht => (spec_pure _).mpr ht
    · exact hE _ (hcall p mem_cons_self h k hi hk)

theorem attemptOne_spec {I : Host → Prop} {failure : α → KernelError → Failure} {f : α → Kernel → Except KernelError (Unit × Kernel)} {a : α}
    (hcall : ∀ k, f a h.kernel = .ok ((), k) → I { h with kernel := k }) (hE : ∀ t, I t → E .crashed t) (hi : I h) :
    Spec (attemptOne failure f a) h (fun _ => I) E := by
  refine call_bind_spec (fun e => (spec_pure _).mpr hi) (fun _ k hk => ⟨(spec_pure _).mpr (hcall k hk), ?_⟩) (hE h hi)
  exact hE _ (hcall k hk)

/-- A property that the writes to the addresses and the routes of a link keep. -/
structure SyncKeeps (name : String) (I : Host → Prop) : Prop where
  addAddr : ∀ p t k, I t → Kernel.alter name (Link.addAddr p) t.kernel = .ok ((), k) → I { t with kernel := k }
  delAddr : ∀ p t k, I t → Kernel.alter name (Link.delAddr p) t.kernel = .ok ((), k) → I { t with kernel := k }
  addRoute : ∀ p t k, I t → Kernel.alter name (Link.addRoute p) t.kernel = .ok ((), k) → I { t with kernel := k }
  delRoute : ∀ p t k, I t → Kernel.alter name (Link.delRoute p) t.kernel = .ok ((), k) → I { t with kernel := k }

theorem SyncKeeps.of_alter {I : Host → Prop} {name : String}
    (halter : ∀ f t k, (∀ l l' : Link, f l = .ok l' → l'.peers = l.peers ∧ l'.index = l.index) → I t → Kernel.alter name f t.kernel = .ok ((), k) →
      I { t with kernel := k }) : SyncKeeps name I := by
  refine ⟨fun p t k ht hcall => ?_, fun p t k ht hcall => ?_, fun p t k ht hcall => ?_, fun p t k ht hcall => ?_⟩
  all_goals refine halter _ t k (fun l l' hf => ?_) ht hcall
  · unfold Link.addAddr at hf
    split at hf
    · cases hf
    · split at hf
      · cases hf
      · cases hf
        exact ⟨rfl, rfl⟩
  · unfold Link.delAddr at hf
    split at hf
    · cases hf
    · cases hf
      exact ⟨rfl, rfl⟩
  · unfold Link.addRoute at hf
    split at hf
    · cases hf
    · split at hf
      · cases hf
      · cases hf
        exact ⟨rfl, rfl⟩
  · unfold Link.delRoute at hf
    split at hf
    · cases hf
    · cases hf
      exact ⟨rfl, rfl⟩

theorem SyncKeeps.syncAddrs {I : Host → Prop} {name : String} (hkeeps : SyncKeeps name I) (hE : ∀ t, I t → E .crashed t) (hi : I h)
    (current desired : List Prefix) : Spec (syncAddrs name current desired) h (fun _ => I) E := by
  refine Spec.bind (each_spec (fun p _ t ht => ?_) hi) fun _ t ht => ?_
  · exact attemptOne_spec (hkeeps.addAddr p t · ht) hE ht
  · refine Spec.bind (delAddrs_spec (fun p _ => hkeeps.delAddr p) hE ht) fun _ t ht => ?_
    exact (spec_pure _).mpr ht

theorem SyncKeeps.syncRoutes {I : Host → Prop} {name : String} (hkeeps : SyncKeeps name I) (hE : ∀ t, I t → E .crashed t) (hi : I h)
    (current desired addrs gone : List Prefix) : Spec (syncRoutes name current desired addrs gone) h (fun _ => I) E := by
  refine Spec.bind (each_spec (fun p _ t ht => ?_) hi) fun _ t ht => ?_
  · exact attemptOne_spec (hkeeps.addRoute p t · ht) hE ht
  · refine Spec.bind (each_spec (fun p _ t ht => ?_) ht) fun _ t ht => ?_
    · exact attemptOne_spec (hkeeps.delRoute p t · ht) hE ht
    · exact (spec_pure _).mpr ht

end WireGuard

end Pui
