import Pui.WireGuardHost

/-!
# Who is billed for a WireGuard peer

A peer is served for the first client of its key that the kernel can hold, and billed to the first that has an email.
-/

namespace Pui

open Table Crash Crash.Prog List

namespace WireGuard

variable {peers : List Peer} {c : Peer × PeerConfig} {key : Key}

/-! ### Served clients -/

/-- What the kernel is to hold for a client is under the client's own key. -/
theorem publicKey_of_desiredPeer {p : Peer} {cfg : PeerConfig} (h : desiredPeer p = .ok cfg) :
    parseKey p.publicKey = some cfg.publicKey ∧ cfg.publicKey ≠ .zero := by
  unfold desiredPeer at h
  cases hkey : parseKey p.publicKey with
  | none =>
    rw [hkey] at h
    cases h
  | some key =>
    rw [hkey] at h
    by_cases hzero : key = .zero
    · simp [hzero, bind, Except.bind] at h
    · cases hpsk : parseKey p.preSharedKey <;> cases hallowed : parseAllowedIPs p.allowedIPs <;>
        cases hend : parseEndpoint p.endpoint <;>
        simp [hzero, hpsk, hallowed, hend, bind, Except.bind, pure, Except.pure] at h
      subst h
      exact ⟨rfl, hzero⟩

private theorem mem_out_next {s : Serving} {p : Peer} (h : c ∈ (s.next p).out) :
    c ∈ s.out ∨ c.1 = p ∧ desiredPeer p = .ok c.2 := by
  unfold Serving.next at h
  split at h
  · exact .inl h
  · next cfg hcfg =>
    have hserve : c ∈ (s.serve p cfg).out → c ∈ s.out ∨ c.1 = p ∧ desiredPeer p = .ok c.2 := by
      refine fun h => (mem_append.mp h).imp_right fun h => ?_
      rw [mem_singleton.mp h]
      exact ⟨rfl, hcfg⟩
    split at h
    · exact .inl h
    · split at h
      · split at h
        · exact .inl h
        · exact hserve h
      · exact hserve h

/-- A served client is one of the clients, with its own configuration. -/
theorem mem_servedClients (hc : c ∈ servedClients peers) : c.1 ∈ peers ∧ desiredPeer c.1 = .ok c.2 := by
  have hout : ∀ (l : List Peer) (s : Serving), c ∈ (l.foldl Serving.next s).out →
      c ∈ s.out ∨ c.1 ∈ l ∧ desiredPeer c.1 = .ok c.2 := by
    intro l
    induction l with
    | nil => exact fun _ h => .inl h
    | cons p l ih =>
      intro s h
      rcases ih _ h with h | ⟨hmem, hcfg⟩
      · exact (mem_out_next h).imp_right fun ⟨heq, hcfg⟩ => ⟨heq ▸ mem_cons_self, heq ▸ hcfg⟩
      · exact .inr ⟨mem_cons_of_mem p hmem, hcfg⟩
  exact (hout peers {} hc).resolve_left (not_mem_nil)

/-! ### The index -/

/-- The email of the first client that has the key and an email. -/
def ownerOf (peers : List Peer) (key : Key) : Option String :=
  (peers.find? fun p => parseKey p.publicKey = some key ∧ p.email ≠ "").map Peer.email

theorem get?_index (acc : Table String Key × Table Key String) (p : Peer) (hzero : key ≠ .zero) :
    (Managed.index acc p).2.get? key =
      (acc.2.get? key).or (if parseKey p.publicKey = some key ∧ p.email ≠ "" then some p.email else none) := by
  unfold Managed.index
  cases hparse : parseKey p.publicKey with
  | none => simp
  | some k =>
    by_cases hk : k = key
    · subst hk
      by_cases hemail : p.email = ""
      · simp [hemail]
      · cases hget : acc.2.get? k with
        | some email => simp [hzero, hemail, hget]
        | none => simp [hzero, hemail, hget]
    · have hkey : ¬(some k = some key ∧ p.email ≠ "") := fun h => hk (Option.some.inj h.1)
      rw [if_neg hkey, Option.or_none]
      dsimp only
      split
      · rfl
      · split
        · rfl
        · exact get?_put_of_ne (Ne.symm hk) _ _

/-- The clients of a list are indexed under their keys, the first one that has an email. -/
theorem get?_foldl_index (peers : List Peer) (acc : Table String Key × Table Key String) (hzero : key ≠ .zero) :
    (peers.foldl Managed.index acc).2.get? key = (acc.2.get? key).or (ownerOf peers key) := by
  induction peers generalizing acc with
  | nil => simp [ownerOf]
  | cons p peers ih =>
    rw [foldl_cons, ih, get?_index acc p hzero, Option.or_assoc]
    congr 1
    unfold ownerOf
    by_cases hp : parseKey p.publicKey = some key ∧ p.email ≠ ""
    · rw [if_pos hp, List.find?_cons_of_pos (by simpa using hp)]
      rfl
    · rw [if_neg hp, List.find?_cons_of_neg (by simpa using hp), Option.none_or]

/-- A peer that is still held keeps its owner, unless its key has a new one. -/
theorem get?_foldl_hold (owners : Table Key String) (held : List KernelPeer) (acc : Table String Key × Table Key String) :
    (held.foldl (Managed.hold owners) acc).2.get? key =
      (acc.2.get? key).or (if key ∈ held.map KernelPeer.publicKey then owners.get? key else none) := by
  induction held generalizing acc with
  | nil => simp
  | cons p held ih =>
    have hold : (Managed.hold owners acc p).2.get? key =
        (acc.2.get? key).or (if key = p.publicKey then owners.get? key else none) := by
      unfold Managed.hold
      by_cases hk : key = p.publicKey
      · subst hk
        cases hown : owners.get? p.publicKey with
        | none => simp
        | some email => cases hget : acc.2.get? p.publicKey <;> simp [hget]
      · rw [if_neg hk, Option.or_none]
        split
        · rfl
        · split
          · rfl
          · exact get?_put_of_ne hk _ _
    rw [foldl_cons, ih, hold, Option.or_assoc, map_cons]
    congr 1
    by_cases hk : key = p.publicKey
    · subst hk
      cases owners.get? p.publicKey <;> simp
    · simp [hk]

/-- The first client in the list that has the key and an email has this email. -/
def FirstNamed (peers : List Peer) (key : Key) (email : String) : Prop :=
  ∃ before p after, peers = before ++ p :: after ∧ parseKey p.publicKey = some key ∧ p.email = email ∧ email ≠ "" ∧
    ∀ q ∈ before, parseKey q.publicKey = some key → q.email = ""

theorem ownerOf_eq_some {email : String} : ownerOf peers key = some email ↔ FirstNamed peers key email := by
  unfold ownerOf FirstNamed
  simp only [Option.map_eq_some_iff, List.find?_eq_some_iff_append, decide_eq_true_eq, Bool.not_eq_true',
    decide_eq_false_iff_not, not_and, not_not]
  constructor
  · rintro ⟨p, ⟨⟨hkey, hemail⟩, before, after, heq, hbefore⟩, rfl⟩
    exact ⟨before, p, after, heq, hkey, rfl, hemail, hbefore⟩
  · rintro ⟨before, p, after, heq, hkey, rfl, hemail, hbefore⟩
    exact ⟨p, ⟨⟨hkey, hemail⟩, before, after, heq, hbefore⟩, rfl⟩

/-! ### A pass -/

/-- The failure is that a client is refused. -/
def Failure.ofClient : Failure → Bool
  | .unusablePublicKey _ | .noPublicKey _ | .unusablePreSharedKey _ | .invalidAllowedIP _ | .unreachableEndpoint _
  | .sharedPublicKey .. | .sharedAllowedIP .. => true
  | _ => false

theorem syncKeeps_devices (name : String) (devices : Table Int Managed) : SyncKeeps name fun t => t.devices = devices :=
  ⟨fun _ _ _ ht _ => ht, fun _ _ _ ht _ => ht, fun _ _ _ ht _ => ht, fun _ _ _ ht _ => ht⟩

private theorem parsePrefixes_ofClient {texts : List CidrText} {e : Failure} (h : parsePrefixes texts = .error e) :
    e.ofClient = false := by
  unfold parsePrefixes at h
  induction texts with
  | nil => cases h
  | cons text texts ih =>
    unfold readPrefixes at h
    cases text with
    | blank => exact ih h
    | malformed text =>
      cases h
      rfl
    | cidr p | host a =>
      dsimp only at h
      cases hrest : readPrefixes .invalidAddress texts with
      | error e' =>
        rw [hrest] at h
        cases h
        exact ih hrest
      | ok l =>
        rw [hrest] at h
        cases h

theorem ensureDevice_ofClient (name : String) (inst : Instance) (key : Key) (h : Host) :
    Spec (ensureDevice name inst key) h (fun r _ => ∀ e, r = .error e → e.ofClient = false) fun _ _ => True := by
  have herror : ∀ (e : Failure) (t : Host), e.ofClient = false →
      Spec (pure (.error e) : Op (Except Failure (Link × Bool))) t (fun r _ => ∀ e, r = .error e → e.ofClient = false) fun _ _ => True := by
    intro e t he
    refine (spec_pure _).mpr fun e' he' => ?_
    cases he'
    exact he
  have hok : ∀ (r : Link × Bool) (t : Host),
      Spec (pure (.ok r) : Op (Except Failure (Link × Bool))) t (fun r _ => ∀ e, r = .error e → e.ofClient = false) fun _ _ => True :=
    fun r t => (spec_pure _).mpr fun e he => nomatch he
  unfold ensureDevice
  refine call_bind_spec (fun e => herror _ _ rfl) (fun created k _ => ⟨?_, trivial⟩) trivial
  refine call_bind_spec (fun e => herror _ _ rfl) (fun link k' _ => ⟨?_, trivial⟩) trivial
  cases link with
  | none => exact herror _ _ rfl
  | some link =>
    dsimp only
    split
    · exact hok _ _
    · exact call_bind_spec (fun e => herror _ _ rfl) (fun _ k'' _ => ⟨hok _ _, trivial⟩) trivial

/-- After a pass that reports nothing but refused clients, each served peer is billed to the client that it is served for,
if and only if each served client's email is that of the first client with the same key that has an email. -/
theorem ensure_bills_served (space : String) (inst : Instance) (h : Host) :
    Spec (ensure space inst) h
      (fun failures t => (∀ f ∈ failures, f.ofClient = true) →
        ((∀ c ∈ servedClients inst.peers, (t.record inst.id).byKey.get? c.2.publicKey = some c.1.email) ↔
          ∀ c ∈ servedClients inst.peers, FirstNamed inst.peers c.2.publicKey c.1.email))
      fun _ _ => True := by
  -- a pass that ends early reports what it ended for
  have hstop : ∀ {failures : List Failure} {f : Failure} {P : Prop}, f ∈ failures → f.ofClient = false →
      (∀ f ∈ failures, f.ofClient = true) → P := by
    intro failures f P hf hkind hall
    rw [hall f hf] at hkind
    cases hkind
  unfold ensure
  split
  · exact (spec_pure _).mpr (hstop (mem_singleton_self _) rfl)
  · next haddrs => exact (spec_pure _).mpr (hstop (mem_singleton_self _) (parsePrefixes_ofClient haddrs))
  · next key addrs _ _ =>
    refine Spec.bind (ensureDevice_ofClient _ inst key h) fun r t hr => ?_
    cases r with
    | error e => exact (spec_pure _).mpr (hstop (mem_append_right _ (mem_singleton_self e)) (hr e rfl))
    | ok r =>
      obtain ⟨link, created⟩ := r
      dsimp only
      rw [modifyRecord, spec_update_bind, modifyRecord, spec_update_bind]
      refine Spec.bind (Q := fun _ _ => True) ?_ fun refused t₁ _ => ?_
      · unfold pushPeers
        split
        · exact (spec_pure _).mpr trivial
        · refine call_bind_spec (fun _ => (spec_pure _).mpr trivial) (fun _ k _ => ⟨?_, trivial⟩) trivial
          exact (spec_update_bind _).mpr ((spec_pure _).mpr trivial)
      rw [modifyRecord, spec_update_bind]
      -- the index is complete; what is left concerns the kernel only
      refine Spec.bind ((syncKeeps_devices _ _).syncAddrs (fun _ _ => trivial) rfl _ _) fun r t₂ ht₂ => ?_
      refine Spec.bind ((syncKeeps_devices _ _).syncRoutes (fun _ _ => trivial) ht₂ _ _ _ _) fun _ t₃ ht₃ => ?_
      refine (spec_pure _).mpr fun hall => forall₂_congr fun c hc => ?_
      have hnone : refused = none := by
        cases refused with
        | none => rfl
        | some e => cases hall (.kernel e) (by simp)
      have hzero := (publicKey_of_desiredPeer (mem_servedClients hc).2).2
      rw [Host.record, ht₃, get?_put_self, Option.getD_some, hnone, ← ownerOf_eq_some]
      exact (congrArg (· = some c.1.email) (get?_foldl_index inst.peers (∅, ∅) hzero)).to_iff

namespace Sample

def peer (email : String) (publicKey : Key) (psk : KeyText) (host : Nat) : Peer where
  email := email
  publicKey := .key publicKey
  preSharedKey := psk
  allowedIPs := [.host ⟨.v4, 167772160 + host⟩]
  keepAlive := 0
  endpoint := .blank

def inbound (peers : List Peer) : Instance where
  id := 1
  tag := "in-1"
  port := 51820
  privateKey := .key ⟨"cA==", by decide +kernel⟩
  address := [.cidr ⟨⟨.v4, 167772161⟩, 24⟩]
  mtu := 0
  fwMark := 0
  peers := peers
  transportPadding := 0

def keyA : Key := ⟨"YQ==", by decide +kernel⟩

def keyB : Key := ⟨"Yg==", by decide +kernel⟩

def two : Instance := inbound [peer "a" keyA .blank 2, peer "b" keyB .blank 3]

def shared : Instance := inbound [peer "a" keyA .malformed 2, peer "b" keyA .blank 3]

end Sample

/-- Two clients with keys of their own are billed for what they are served. -/
theorem ensure_bills_served_two : ∃ failures w, ensure "pwg" Sample.two ⟨{}, []⟩ = .ok failures w ∧
    ∀ c ∈ servedClients Sample.two.peers, (w.state.record 1).byKey.get? c.2.publicKey = some c.1.email := by
  have hspec := ensure_bills_served "pwg" Sample.two {} []
  have hclean : (match ensure "pwg" Sample.two ⟨{}, []⟩ with
    | .ok failures _ => failures.all Failure.ofClient
    | .error _ _ => false) = true := by decide +kernel
  cases hrun : ensure "pwg" Sample.two ⟨{}, []⟩ with
  | error e w =>
    rw [hrun] at hclean
    cases hclean
  | ok failures w =>
    rw [hrun] at hclean hspec
    refine ⟨failures, w, rfl, (hspec.1 fun f hf => all_eq_true.mp hclean f hf).mpr fun c hc => ownerOf_eq_some.mp ?_⟩
    revert c
    decide +kernel

/-- A client that is refused for its pre-shared key is billed for the client that has its key after it. -/
theorem refused_client_is_billed :
    (match ensure "pwg" Sample.shared ⟨{}, []⟩ with
      | .ok failures w => failures.all Failure.ofClient && (w.state.record 1).byKey.get? Sample.keyA = some "a"
      | .error _ _ => false) = true ∧
    (servedClients Sample.shared.peers).map (fun c => (c.1.email, c.2.publicKey)) = [("b", Sample.keyA)] :=
  ⟨by decide +kernel, by decide +kernel⟩

end WireGuard

end Pui
