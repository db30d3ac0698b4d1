import Mathlib
import Pui.WireGuardAttribution

/-!
# What a WireGuard inbound can still bill

What an inbound can still bill an email is what is banked for it and what its peers are charged (`stake`).
-/

namespace Pui

open Table Crash Crash.Prog List Option

namespace WireGuard

variable {owner : Key → String} {space : String} {rec : Managed} {acc : Table String Key × Table Key String} {key : Key}
  {peers : List KernelPeer}

def due (owner : Key → String) (rec : Managed) (link : Link) (email : String) : Int :=
  (link.peers.map fun p => if owner p.publicKey = email then peerCharge rec link p else 0).sum

def stake (owner : Key → String) (rec : Managed) (link : Option Link) (email : String) : Int :=
  banked rec.pending email + link.elim 0 fun link => due owner rec link email

def Host.link (space : String) (id : Int) (h : Host) : Option Link := h.kernel.links.get? (nameIn space id)

def Host.stake (owner : Key → String) (space : String) (id : Int) (email : String) (h : Host) : Int :=
  WireGuard.stake owner (h.record id) (h.link space id) email

theorem due_nonneg (owner : Key → String) (rec : Managed) (link : Link) (email : String) : 0 ≤ due owner rec link email := by
  refine sum_nonneg fun x hx => ?_
  obtain ⟨p, -, rfl⟩ := mem_map.mp hx
  split
  · exact peerCharge_nonneg rec link p
  · exact le_rfl

theorem elim_due_nonneg (owner : Key → String) (rec : Managed) (link : Option Link) (email : String) :
    0 ≤ link.elim 0 fun link => due owner rec link email := by
  cases link with
  | none => exact le_rfl
  | some link => exact due_nonneg owner rec link email

theorem banked_of_entries_nil {pending : Table String Traffic} (h : pending.entries = []) (email : String) : banked pending email = 0 := by
  have hnone : pending.get? email = none := by
    rw [eq_none_iff_forall_ne_some]
    intro t ht
    rw [← mem_entries, h] at ht
    cases ht
  rw [banked, hnone]
  rfl

theorem due_of_nil {link : Link} (h : link.peers = []) (rec : Managed) (email : String) : due owner rec link email = 0 := by
  rw [due, h]
  rfl

theorem due_congr {rec' : Managed} {link link' : Link} (hcounter : rec'.counter = rec.counter) (hgeneration : rec'.generation = rec.generation)
    (hpeers : link'.peers = link.peers) (hindex : link'.index = link.index) (email : String) :
    due owner rec' link' email = due owner rec link email := by
  have hepoch : epochOf link' rec'.generation = epochOf link rec.generation := by
    unfold epochOf deviceReadings
    rw [hgeneration, hindex]
  unfold due peerCharge
  rw [hepoch, hcounter, hpeers]

theorem observe_congr {link link' : Link} (hpeers : link'.peers = link.peers) (hindex : link'.index = link.index) (rec : Managed) :
    rec.observe link' = rec.observe link := by
  unfold Managed.observe deviceReadings
  rw [hpeers, hindex]

/-- Every entry of an index relates an email to a key. -/
def Indexed (R : String → Key → Prop) (acc : Table String Key × Table Key String) : Prop :=
  (∀ email key, acc.1.get? email = some key → R email key) ∧ ∀ key email, acc.2.get? key = some email → R email key

/-- Keys are indexed under their owners, clients under their emails, and nothing is negative. -/
structure Managed.Sound (owner : Key → String) (rec : Managed) : Prop where
  counted : Nonneg rec.counter
  owned : Indexed (fun email key => owner key = email) (rec.byEmail, rec.byKey)
  named : Named rec.pending
  credit : ∀ email, 0 ≤ banked rec.pending email

def Link.Distinct (link : Link) : Prop := (link.peers.map KernelPeer.publicKey).Nodup

def Kernel.Distinct (k : Kernel) : Prop := ∀ name link, k.links.get? name = some link → link.Distinct

structure Host.Sound (owner : Key → String) (h : Host) : Prop where
  records : ∀ id rec, h.devices.get? id = some rec → rec.Sound owner
  links : h.kernel.Distinct

theorem indexed_empty (R : String → Key → Prop) : Indexed R (∅, ∅) := by
  constructor
  all_goals
    intro _ _ h
    simp at h

theorem sound_new (owner : Key → String) : ({} : Managed).Sound owner := by
  refine ⟨fun k v hv => ?_, indexed_empty _, fun email t ht => ?_, fun email => le_rfl⟩
  · simp at hv
  · simp at ht

theorem Host.Sound.record {h : Host} (hh : h.Sound owner) (id : Int) : (h.record id).Sound owner := by
  unfold Host.record
  cases hget : h.devices.get? id with
  | none => exact sound_new owner
  | some rec => exact hh.records id rec hget

namespace Managed.Sound

variable {rec : Managed}

theorem observe (h : rec.Sound owner) (link : Link) : (rec.observe link).Sound owner := by
  refine ⟨h.counted.observe _ ?_, h.owned, Named.attributeDeltas h.named, fun email => ?_⟩
  · exact readings_nonneg (t := ∅) fun k v hv => by simp at hv
  · have hobserve : (rec.observe link).pending =
        rec.attributeDeltas (rec.counter.observe (epochOf link rec.generation) (link.peers.foldl readPeer ∅)).1 rec.pending := rfl
    rw [hobserve, banked_attributeDeltas]
    refine add_nonneg (h.credit email) (sum_nonneg fun x hx => ?_)
    obtain ⟨⟨k, d⟩, hd, rfl⟩ := mem_map.mp hx
    rw [mem_entries, (Counter.observed _ _ rec.counter).deltas] at hd
    -- only what grew is attributed
    split at hd
    · obtain ⟨v, hv, rfl⟩ := map_eq_some_iff.mp hd
      have hgrown := (filter_eq_some_iff.mp hv).2
      simp only [Bool.and_eq_true, decide_eq_true_eq] at hgrown
      dsimp only
      split
      · exact hgrown.2.le
      · exact le_rfl
    · cases hd

theorem retag (h : rec.Sound owner) (tag : String) : (rec.retag tag).Sound owner :=
  ⟨h.counted, h.owned, h.named, h.credit⟩

theorem drain (h : rec.Sound owner) (link : Link) : (rec.drain link).Sound owner := by
  unfold Managed.drain
  split
  · exact h.observe link
  · exact h

theorem forgetKey (h : rec.Sound owner) (key : Key) : (rec.forgetKey key).Sound owner :=
  ⟨(h.counted.forget _).forget _, h.owned, h.named, h.credit⟩

theorem forgetRemoved (h : rec.Sound owner) (changes : List PeerConfig) : (rec.forgetRemoved changes).Sound owner :=
  foldlRecOn _ _ h fun _ h c _ => h.forgetKey c.publicKey

theorem forget (h : rec.Sound owner) (email : String) (key : Key) : (rec.forget email key).Sound owner :=
  ⟨(h.counted.forget _).forget _, ⟨forall_drop h.owned.1 email, forall_drop h.owned.2 key⟩, h.named, h.credit⟩

end Managed.Sound

def Peer.Owned (owner : Key → String) (p : Peer) : Prop := ∀ key, parseKey p.publicKey = some key → key ≠ .zero → owner key = p.email

def Instance.Owned (owner : Key → String) (inst : Instance) : Prop := ∀ p ∈ inst.peers, p.Owned owner

section Index

variable {R : String → Key → Prop} {email : String}

theorem Indexed.put (h : Indexed R acc) (hkey : R email key) : Indexed R (acc.1.put email key, acc.2.put key email) :=
  ⟨forall_put hkey h.1, forall_put hkey h.2⟩

theorem Indexed.index (h : Indexed R acc) {p : Peer}
    (hp : ∀ key, parseKey p.publicKey = some key → key ≠ .zero → p.email ≠ "" → R p.email key) : Indexed R (Managed.index acc p) := by
  unfold Managed.index
  split
  · exact h
  · next key hkey =>
    split
    · exact h
    · next husable =>
      split
      · exact h
      · exact h.put (hp key hkey (fun hzero => husable (.inr hzero)) fun hempty => husable (.inl hempty))

theorem Indexed.hold (h : Indexed R acc) {owners : Table Key String}
    (howners : ∀ key email, owners.get? key = some email → R email key) (p : KernelPeer) : Indexed R (Managed.hold owners acc p) := by
  unfold Managed.hold
  split
  · exact h
  · next email hemail =>
    have hput := h.put (howners _ _ hemail)
    split
    · exact h
    · refine ⟨?_, hput.2⟩
      dsimp only
      split
      · exact h.1
      · exact hput.1

theorem Indexed.reindex (h : Indexed R (rec.byEmail, rec.byKey)) {peers : List Peer}
    (hpeers : ∀ p ∈ peers, ∀ key, parseKey p.publicKey = some key → key ≠ .zero → p.email ≠ "" → R p.email key) (held : List KernelPeer) :
    Indexed R ((rec.reindex peers held).byEmail, (rec.reindex peers held).byKey) :=
  foldlRecOn (motive := Indexed R) held _
    (foldlRecOn (motive := Indexed R) peers _ (indexed_empty R) fun _ h p hp => h.index (hpeers p hp)) fun _ hacc p _ => hacc.hold h.2 p

theorem Indexed.track (h : Indexed R (rec.byEmail, rec.byKey)) (hkey : email ≠ "" → R email key) :
    Indexed R ((rec.track email key).byEmail, (rec.track email key).byKey) := by
  unfold Managed.track
  split
  · exact h
  · next hne =>
    refine ⟨forall_put (hkey hne) h.1, forall_put (hkey hne) ?_⟩
    split
    · split
      · exact forall_drop h.2 _
      · exact h.2
    · exact h.2

theorem Managed.Sound.reindex (h : rec.Sound owner) {peers : List Peer} (hpeers : ∀ p ∈ peers, p.Owned owner)
    (held : List KernelPeer) : (rec.reindex peers held).Sound owner :=
  ⟨h.counted, h.owned.reindex (fun p hp key hkey hzero _ => hpeers p hp key hkey hzero) held, h.named, h.credit⟩

theorem Managed.Sound.track (h : rec.Sound owner) (hkey : owner key = email) : (rec.track email key).Sound owner := by
  have howned := h.owned.track fun _ => hkey
  unfold Managed.track at howned ⊢
  split
  · exact h
  · next hne =>
    rw [if_neg hne] at howned
    exact ⟨h.counted, howned, h.named, h.credit⟩

end Index

section Stakes

variable {rec : Managed} {link : Link}

theorem stake_observe_le (h : rec.Sound owner) (hlink : link.Distinct) (email : String) :
    stake owner (rec.observe link) (some link) email ≤ stake owner rec (some link) email := by
  have hpaid : due owner (rec.observe link) link email = 0 := by
    refine sum_eq_zero fun x hx => ?_
    obtain ⟨p, hp, rfl⟩ := mem_map.mp hx
    rw [peerCharge_observe hlink rec hp]
    exact ite_self 0
  have hle : (link.peers.map fun p => if rec.byKey.get? p.publicKey = some email then peerCharge rec link p else 0).sum ≤
      due owner rec link email := by
    refine sum_le_sum fun p _ => ?_
    split
    · next howner => rw [if_pos (h.owned.2 _ _ howner)]
    · split
      · exact peerCharge_nonneg rec link p
      · exact le_rfl
  simp only [stake, elim_some]
  rw [hpaid, banked_observe hlink]
  omega

theorem stake_drain_le (h : rec.Sound owner) (hlink : link.Distinct) (email : String) :
    stake owner (rec.drain link) (some link) email ≤ stake owner rec (some link) email := by
  unfold Managed.drain
  split
  · exact stake_observe_le h hlink email
  · exact le_rfl

theorem enter_forget (c : Counter) (key epoch : String) :
    ((c.forget key).enter epoch).last.get? = fun k => if k = key then none else (c.enter epoch).last.get? k := by
  have hrestarted : (c.forget key).restarted epoch = c.restarted epoch := rfl
  funext k
  unfold Counter.enter
  rw [hrestarted]
  dsimp only
  split <;> split <;> simp [Counter.forget, get?_drop]

theorem charge_forget_of_ne {c : Counter} {epoch key k : String} (hne : k ≠ key) (value : Int) :
    charge (c.forget key) epoch k value = charge c epoch k value := by
  have hlast : ((c.forget key).enter epoch).last.get? k = (c.enter epoch).last.get? k := by
    rw [enter_forget]
    exact if_neg hne
  have hprimed : (c.forget key).primed = c.primed := rfl
  unfold charge
  rw [hprimed, Counter.baseline_congr hlast]

theorem peerCharge_forgetKey {p : KernelPeer} (hne : p.publicKey ≠ key) :
    peerCharge (rec.forgetKey key) link p = peerCharge rec link p := by
  have hsubject : ∀ up up', subject p.publicKey up ≠ subject key up' := fun up up' heq => hne (subject_inj heq).1
  have hone : ∀ up value, charge (rec.forgetKey key).counter (epochOf link rec.generation) (subject p.publicKey up) value =
      charge rec.counter (epochOf link rec.generation) (subject p.publicKey up) value := by
    intro up value
    exact (charge_forget_of_ne (hsubject up false) value).trans (charge_forget_of_ne (hsubject up true) value)
  exact congrArg₂ (· + ·) (hone true _) (hone false _)

theorem due_forgetKey (hkey : key ∉ link.peers.map KernelPeer.publicKey) (email : String) :
    due owner (rec.forgetKey key) link email = due owner rec link email := by
  refine congrArg List.sum (map_congr_left fun p hp => ?_)
  have hne : p.publicKey ≠ key := fun heq => hkey (heq ▸ mem_map_of_mem hp)
  rw [peerCharge_forgetKey hne]

theorem due_forgetRemoved {changes : List PeerConfig} (hgone : ∀ c ∈ changes, c.remove = true → c.publicKey ∉ link.peers.map KernelPeer.publicKey)
    (email : String) : due owner (rec.forgetRemoved changes) link email = due owner rec link email := by
  unfold Managed.forgetRemoved
  have hremoved : ∀ c ∈ changes.filter PeerConfig.remove, c.publicKey ∉ link.peers.map KernelPeer.publicKey := by
    intro c hc
    obtain ⟨hc, hremove⟩ := mem_filter.mp hc
    exact hgone c hc hremove
  exact foldlRecOn (motive := fun r => due owner r link email = due owner rec link email) _ _ rfl fun _ h c hc =>
    (due_forgetKey (hremoved c hc) email).trans h

theorem pending_forgetRemoved (changes : List PeerConfig) (rec : Managed) : (rec.forgetRemoved changes).pending = rec.pending :=
  foldlRecOn (motive := fun r : Managed => r.pending = rec.pending) _ _ rfl fun _ h _ _ => h

/-- Two peers of one key with the same counts. -/
def KernelPeer.Alike (p q : KernelPeer) : Prop :=
  p.publicKey = q.publicKey ∧ p.receiveBytes = q.receiveBytes ∧ p.transmitBytes = q.transmitBytes

theorem KernelPeer.Alike.trans {p q r : KernelPeer} (h : p.Alike q) (h' : q.Alike r) : p.Alike r :=
  ⟨h.1.trans h'.1, h.2.1.trans h'.2.1, h.2.2.trans h'.2.2⟩

theorem KernelPeer.alike_write (cfg : PeerConfig) (p : KernelPeer) : (p.write cfg).Alike p := by
  unfold write
  split <;> exact ⟨rfl, rfl, rfl⟩

theorem keys_setPeer_written (peers : List KernelPeer) (cfg : PeerConfig) :
    (peers.map (KernelPeer.write cfg)).map KernelPeer.publicKey = peers.map KernelPeer.publicKey := by
  rw [List.map_map]
  exact List.map_congr_left fun p _ => (p.alike_write cfg).1

theorem mem_keys_setPeer (peers : List KernelPeer) (cfg : PeerConfig) (key : Key) :
    key ∈ (setPeer peers cfg).map KernelPeer.publicKey ↔
      if cfg.remove then key ∈ peers.map KernelPeer.publicKey ∧ key ≠ cfg.publicKey
      else key ∈ peers.map KernelPeer.publicKey ∨ key = cfg.publicKey := by
  unfold setPeer
  split
  · simp only [List.mem_map, List.mem_filter, decide_eq_true_eq]
    constructor
    · rintro ⟨p, ⟨hp, hne⟩, rfl⟩
      exact ⟨⟨p, hp, rfl⟩, hne⟩
    · rintro ⟨⟨p, hp, rfl⟩, hne⟩
      exact ⟨p, ⟨hp, hne⟩, rfl⟩
  · dsimp only
    split
    · next hmem =>
      rw [keys_setPeer_written]
      exact ⟨.inl, fun h => h.elim id fun heq => heq ▸ hmem⟩
    · rw [map_append, keys_setPeer_written, mem_append, map_singleton, mem_singleton]
      rfl

theorem nodup_setPeer (h : (peers.map KernelPeer.publicKey).Nodup) (cfg : PeerConfig) :
    ((setPeer peers cfg).map KernelPeer.publicKey).Nodup := by
  unfold setPeer
  split
  · exact h.sublist (filter_sublist.map _)
  · dsimp only
    split
    · rwa [keys_setPeer_written]
    · next hnew =>
      rw [map_append, keys_setPeer_written, nodup_append]
      refine ⟨h, nodup_singleton _, fun key hkey key' hkey' heq => hnew ?_⟩
      have hfresh : key' = cfg.publicKey := mem_singleton.mp hkey'
      rwa [← hfresh, ← heq]

def OfCounts (f : KernelPeer → Int) : Prop := ∀ p q : KernelPeer, p.Alike q → f p = f q

theorem OfCounts.update {f : KernelPeer → Int} (h : OfCounts f) (p : KernelPeer) (cfg : PeerConfig) : f (p.update cfg) = f p :=
  h _ _ ⟨rfl, rfl, rfl⟩

theorem OfCounts.map_written {f : KernelPeer → Int} (h : OfCounts f) (peers : List KernelPeer) (cfg : PeerConfig) :
    (peers.map (KernelPeer.write cfg)).map f = peers.map f := by
  rw [List.map_map]
  exact List.map_congr_left fun p _ => h _ _ (p.alike_write cfg)

theorem sum_setPeer_le {f : KernelPeer → Int} (hcounts : OfCounts f) (hnonneg : ∀ p, 0 ≤ f p) (hfresh : ∀ key, f (KernelPeer.fresh key) = 0)
    (peers : List KernelPeer) (cfg : PeerConfig) : ((setPeer peers cfg).map f).sum ≤ (peers.map f).sum := by
  unfold setPeer
  split
  · refine List.Sublist.sum_le_sum (filter_sublist.map f) fun x hx => ?_
    obtain ⟨p, -, rfl⟩ := mem_map.mp hx
    exact hnonneg p
  · dsimp only
    split
    · rw [hcounts.map_written]
    · rw [map_append, hcounts.map_written, map_singleton, sum_append, sum_singleton, hcounts.update, hfresh, add_zero]

theorem nodup_foldl_setPeer (h : (peers.map KernelPeer.publicKey).Nodup) (cfgs : List PeerConfig) :
    ((cfgs.foldl setPeer peers).map KernelPeer.publicKey).Nodup := by
  induction cfgs generalizing peers with
  | nil => exact h
  | cons cfg cfgs ih => exact ih (nodup_setPeer h cfg)

def owed (owner : Key → String) (rec : Managed) (link : Link) (email : String) (p : KernelPeer) : Int :=
  if owner p.publicKey = email then peerCharge rec link p else 0

theorem ofCounts_owed (owner : Key → String) (rec : Managed) (link : Link) (email : String) : OfCounts (owed owner rec link email) := by
  rintro p q ⟨hkey, hrx, htx⟩
  simp only [owed, peerCharge, KernelPeer.count, hkey, hrx, htx]

theorem owed_fresh {email : String} (h : Nonneg rec.counter) (key : Key) : owed owner rec link email (.fresh key) = 0 := by
  have hcharge : peerCharge rec link (.fresh key) = 0 := congrArg₂ (· + ·) (charge_zero h) (charge_zero h)
  simp [owed, hcharge]

theorem due_configure_le (h : Nonneg rec.counter) (delta : DeviceDelta) (cfgs : List PeerConfig) (email : String) :
    due owner rec (link.configure delta cfgs) email ≤ due owner rec link email := by
  have hnonneg : ∀ p, 0 ≤ owed owner rec link email p := by
    intro p
    unfold owed
    split
    · exact peerCharge_nonneg rec link p
    · exact le_rfl
  have hfold : ∀ (cfgs : List PeerConfig) (peers : List KernelPeer),
      ((cfgs.foldl setPeer peers).map (owed owner rec link email)).sum ≤ (peers.map (owed owner rec link email)).sum := by
    intro cfgs
    induction cfgs with
    | nil => exact fun _ => le_rfl
    | cons cfg cfgs ih =>
      exact fun peers => (ih (setPeer peers cfg)).trans (sum_setPeer_le (ofCounts_owed _ _ _ _) hnonneg (owed_fresh h) peers cfg)
  exact hfold cfgs link.peers

theorem not_mem_foldl_removals {removals : List PeerConfig} (hremove : ∀ c ∈ removals, c.remove = true)
    (hkey : key ∈ removals.map PeerConfig.publicKey ∨ key ∉ peers.map KernelPeer.publicKey) :
    key ∉ (removals.foldl setPeer peers).map KernelPeer.publicKey := by
  induction removals generalizing peers with
  | nil => exact hkey.elim (fun h => nomatch h) id
  | cons c removals ih =>
    refine ih (fun c' hc' => hremove c' (mem_cons_of_mem c hc')) ?_
    have hset := mem_keys_setPeer peers c key
    rw [if_pos (hremove c mem_cons_self)] at hset
    rw [hset]
    rcases hkey with hmem | hnot
    · rcases mem_cons.mp hmem with heq | hmem
      · exact .inr fun h => h.2 heq
      · exact .inl hmem
    · exact .inr fun h => hnot h.1

theorem not_mem_diffPeers (current : List KernelPeer) (desired : List PeerConfig) (hdesired : ∀ c ∈ desired, c.remove = false) (full : Bool)
    (peers : List KernelPeer) {c : PeerConfig} (hc : c ∈ diffPeers current desired full) (hremove : c.remove = true) :
    c.publicKey ∉ ((diffPeers current desired full).foldl setPeer peers).map KernelPeer.publicKey := by
  unfold diffPeers at hc ⊢
  dsimp only at hc ⊢
  rcases mem_append.mp hc with hupsert | hremoval
  · rw [hdesired c (mem_filter.mp hupsert).1] at hremove
    cases hremove
  · rw [foldl_append]
    refine not_mem_foldl_removals (fun c' hc' => ?_) (.inl (mem_map_of_mem hremoval))
    obtain ⟨p, -, rfl⟩ := mem_map.mp hc'
    rfl

end Stakes

end WireGuard

end Pui
