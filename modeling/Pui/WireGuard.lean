import Mathlib.Data.List.Perm.Basic
import Pui.Table

/-!
# Desired WireGuard devices

An inbound is one kernel device.
-/

namespace Pui

open Table

namespace WireGuard

def keySep : Char := Char.ofNat 0

structure Key where
  text : String
  plain : keySep ∉ text.toList
  deriving DecidableEq

def Key.zero : Key := ⟨"AAAAAAAAAAAAAAAAAAAAAAAAAAAAAAAAAAAAAAAAAAA=", by decide +kernel⟩

inductive KeyText where
  | blank
  | key (k : Key)
  | malformed
  deriving DecidableEq

def parseKey : KeyText → Option Key
  | .blank => some .zero
  | .key k => some k
  | .malformed => none

inductive Family where
  | v4
  | v6
  deriving DecidableEq

def Family.bitLen : Family → Nat
  | .v4 => 32
  | .v6 => 128

structure Addr where
  family : Family
  value : Nat
  deriving DecidableEq

namespace Addr

def is4In6 (a : Addr) : Bool := a.family = .v6 && a.value / 2 ^ 32 = 65535

def unmap (a : Addr) : Addr := if a.is4In6 then ⟨.v4, a.value % 2 ^ 32⟩ else a

def isLinkLocalUnicast (a : Addr) : Bool :=
  match a.unmap with
  | ⟨.v4, value⟩ => value / 2 ^ 16 = 43518
  | ⟨.v6, value⟩ => value / 2 ^ 118 = 1018

end Addr

structure Prefix where
  addr : Addr
  bits : Nat
  deriving DecidableEq

namespace Prefix

def hostBits (p : Prefix) : Nat := p.addr.family.bitLen - p.bits

def masked (p : Prefix) : Prefix := { p with addr.value := p.addr.value / 2 ^ p.hostBits * 2 ^ p.hostBits }

def contains (p : Prefix) (a : Addr) : Bool :=
  p.addr.family = a.family && p.addr.value / 2 ^ p.hostBits = a.value / 2 ^ p.hostBits

end Prefix

inductive CidrText where
  | blank
  | cidr (p : Prefix)
  | host (a : Addr)
  | malformed (text : String)
  deriving DecidableEq

structure IPNet where
  ip : Addr
  ones : Nat
  deriving DecidableEq

def toIPNet (p : Prefix) : IPNet := ⟨p.addr, p.bits⟩

def toPrefix (n : IPNet) : Option Prefix := if n.ones > n.ip.unmap.family.bitLen then none else some ⟨n.ip.unmap, n.ones⟩

def IPNet.string (n : IPNet) : Addr × Nat := if n.ip.is4In6 then (n.ip.unmap, n.ones - 96) else (n.ip, n.ones)

inductive EndpointText where
  | blank
  | resolved (addr : String)
  | unreachable (text : String)
  deriving DecidableEq

structure Peer where
  email : String
  publicKey : KeyText
  preSharedKey : KeyText
  allowedIPs : List CidrText
  keepAlive : Int
  endpoint : EndpointText
  deriving DecidableEq

structure Instance where
  id : Int
  tag : String
  port : Int
  privateKey : KeyText
  address : List CidrText
  mtu : Int
  fwMark : Int
  peers : List Peer
  transportPadding : Int

structure PeerConfig where
  publicKey : Key
  remove : Bool := false
  presharedKey : Option Key := none
  endpoint : Option String := none
  keepalive : Option Int := none
  replaceAllowedIPs : Bool := false
  allowedIPs : List IPNet := []
  deriving DecidableEq

/-- A peer as the kernel holds it, with the bytes it moved since it is there. -/
structure KernelPeer where
  publicKey : Key
  presharedKey : Key
  endpoint : Option String
  keepalive : Int
  allowedIPs : List IPNet
  receiveBytes : Nat
  transmitBytes : Nat

inductive KernelError where
  | refused
  | noDevice
  | existing
  | missing
  | invalid
  deriving DecidableEq

inductive Failure where
  | unusablePrivateKey (id : Int)
  | unusablePublicKey (email : String)
  | noPublicKey (email : String)
  | unusablePreSharedKey (email : String)
  | invalidAllowedIP (text : String)
  | invalidAddress (text : String)
  | unreachableEndpoint (text : String)
  | sharedPublicKey (other email : String)
  | sharedAllowedIP (other email : String) (net : Addr × Nat)
  | noDevice (name : String)
  | kernel (e : KernelError)
  | addAddr (p : Prefix) (name : String) (e : KernelError)
  | delAddr (p : Prefix) (name : String) (e : KernelError)
  | addRoute (p : Prefix) (name : String) (e : KernelError)
  | delRoute (p : Prefix) (name : String) (e : KernelError)
  | deleteLink (name : String) (e : KernelError)
  deriving DecidableEq

def readPrefixes (invalid : String → Failure) : List CidrText → Except Failure (List Prefix)
  | [] => .ok []
  | .blank :: texts => readPrefixes invalid texts
  | .cidr p :: texts => (readPrefixes invalid texts).map (p :: ·)
  | .host a :: texts => (readPrefixes invalid texts).map (⟨a, a.family.bitLen⟩ :: ·)
  | .malformed text :: _ => .error (invalid text)

def parseAllowedIPs (texts : List CidrText) : Except Failure (List Prefix) :=
  (readPrefixes .invalidAllowedIP texts).map (List.map Prefix.masked)

def parsePrefixes (texts : List CidrText) : Except Failure (List Prefix) := readPrefixes .invalidAddress texts

def parseEndpoint : EndpointText → Except Failure (Option String)
  | .blank => .ok none
  | .resolved addr => .ok (some addr)
  | .unreachable text => .error (.unreachableEndpoint text)

def desiredPeer (p : Peer) : Except Failure PeerConfig := do
  let key ← match parseKey p.publicKey with
    | some key => .ok key
    | none => .error (.unusablePublicKey p.email)
  if key = .zero then .error (.noPublicKey p.email)
  let psk ← match parseKey p.preSharedKey with
    | some psk => .ok psk
    | none => .error (.unusablePreSharedKey p.email)
  let allowed ← parseAllowedIPs p.allowedIPs
  let endpoint ← parseEndpoint p.endpoint
  return {
    publicKey := key
    presharedKey := some psk
    endpoint := endpoint
    keepalive := some p.keepAlive
    replaceAllowedIPs := true
    allowedIPs := allowed.map toIPNet }

def claimedAllowedIP (claimed : Table (Addr × Nat) String) : List IPNet → Option ((Addr × Nat) × String)
  | [] => none
  | n :: nets =>
    match claimed.get? n.string with
    | some other => some (n.string, other)
    | none => claimedAllowedIP claimed nets

/-- The clients that are served so far, and those that are not. -/
structure Serving where
  out : List (Peer × PeerConfig) := []
  seen : Table Key String := ∅
  claimed : Table (Addr × Nat) String := ∅
  rejected : List Failure := []

namespace Serving

def reject (s : Serving) (e : Failure) : Serving := { s with rejected := s.rejected ++ [e] }

def serve (s : Serving) (p : Peer) (cfg : PeerConfig) : Serving where
  out := s.out ++ [(p, cfg)]
  seen := s.seen.put cfg.publicKey p.email
  claimed := cfg.allowedIPs.foldl (fun claimed n => claimed.put n.string p.email) s.claimed
  rejected := s.rejected

def next (s : Serving) (p : Peer) : Serving :=
  match desiredPeer p with
  | .error e => s.reject e
  | .ok cfg =>
    match s.seen.get? cfg.publicKey with
    | some other => s.reject (.sharedPublicKey other p.email)
    | none =>
      match claimedAllowedIP s.claimed cfg.allowedIPs with
      | some (net, other) => if other ≠ "" then s.reject (.sharedAllowedIP other p.email net) else s.serve p cfg
      | none => s.serve p cfg

end Serving

def servedClients (peers : List Peer) : List (Peer × PeerConfig) := (peers.foldl Serving.next {}).out

def desiredPeers (peers : List Peer) : List PeerConfig × List Failure :=
  ((servedClients peers).map Prod.snd, (peers.foldl Serving.next {}).rejected)

def peerEqual (cur : KernelPeer) (want : PeerConfig) : Bool :=
  match want.presharedKey, want.keepalive with
  | some psk, some keepalive =>
    (want.endpoint.isNone || cur.endpoint = want.endpoint) && cur.presharedKey = psk && cur.keepalive = keepalive &&
      cur.allowedIPs.length = want.allowedIPs.length && decide ((cur.allowedIPs.map IPNet.string).Perm (want.allowedIPs.map IPNet.string))
  | _, _ => false

def diffPeers (current : List KernelPeer) (desired : List PeerConfig) (full : Bool) : List PeerConfig :=
  let byKey : Table Key KernelPeer := current.foldl (fun t p => t.put p.publicKey p) ∅
  (desired.filter fun cfg => full || !((byKey.get? cfg.publicKey).any fun cur => peerEqual cur cfg)) ++
    (current.filter fun p => p.publicKey ∉ desired.map PeerConfig.publicKey).map fun p => { publicKey := p.publicKey, remove := true }

def upsertPeer (current : List KernelPeer) (want : PeerConfig) : Option PeerConfig :=
  match current.find? fun p => p.publicKey = want.publicKey with
  | some cur => if peerEqual cur want then none else some want
  | none => some want

structure DeviceDelta where
  privateKey : Option Key := none
  listenPort : Option Int := none
  firewallMark : Option Int := none
  deriving DecidableEq

def diffDevice (curKey : Key) (curPort curMark : Int) (key : Key) (port fwMark : Int) (full : Bool) : DeviceDelta where
  privateKey := if full ∨ curKey ≠ key then some key else none
  listenPort := if port ≠ 0 ∧ (full ∨ curPort ≠ port) then some port else none
  firewallMark := if full ∨ curMark ≠ fwMark then some fwMark else none

def diffAddrs (current desired : List Prefix) : List Prefix × List Prefix :=
  let own := current.filter fun p => !p.addr.isLinkLocalUnicast
  (desired.filter (· ∉ own), own.filter (· ∉ desired))

def coveredByAddrs (p : Prefix) (addrs : List Prefix) : Bool :=
  addrs.any fun a => a.masked.bits ≤ p.bits && a.masked.contains p.addr

def kernelOwned (p : Prefix) (addrs : List Prefix) : Bool := p.addr.isLinkLocalUnicast || coveredByAddrs p addrs

def desiredRoutes (addrs : List Prefix) (peers : List PeerConfig) : List Prefix :=
  (((peers.filter fun cfg => !cfg.remove).flatMap PeerConfig.allowedIPs).filterMap toPrefix).filter
    (fun p => p.bits ≠ 0 && !coveredByAddrs p addrs) |>.eraseDups

def diffRoutes (current desired addrs : List Prefix) : List Prefix × List Prefix :=
  let own := current.filter fun p => !kernelOwned p addrs
  (desired.filter (· ∉ own), own.filter (· ∉ desired))

def defaultMTU : Int := 1420

def minMTU : Int := 1280

def deviceMTU (configured transportPadding : Int) : Int :=
  if configured > 0 then configured else max minMTU (defaultMTU - transportPadding)

end WireGuard

end Pui
