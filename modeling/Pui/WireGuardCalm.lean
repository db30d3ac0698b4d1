import Pui.WireGuardExact

/-!
# WireGuard operations without a failing call

An operation whose calls are all carried out returns, and no count is lost.
-/

namespace Pui

open Table Crash Crash.Prog List Option

namespace WireGuard

variable {owner : Key → String} {keyOf : String → Key} {space : String} {id : Int}

section Returns

variable {α : Type} {h : Host}

theorem returns_call {f : Kernel → Except KernelError (α × Kernel)} {Q : Except KernelError α → Host → Prop}
    (herror : ∀ e, f h.kernel = .error e → Q (.error e) h) (hok : ∀ a k, f h.kernel = .ok (a, k) → Q (.ok a) { h with kernel := k }) :
    Returns (call f) h Q := by
  refine returns_attempt_write (fun e he => herror e ?_) fun a t ht => ?_
  · cases hf : f h.kernel with
    | error e' =>
      rw [hf] at he
      cases he
      rfl
    | ok r =>
      rw [hf] at he
      cases he
  · obtain ⟨k, hf, rfl⟩ := call_eq_ok ht
    exact hok a k hf

theorem returns_of_spec {x : Op α} {Q : α → Host → Prop} (hx : Spec x h Q fun halt _ => halt = .crashed) : Returns x h Q :=
  hx.returns fun _ _ he => nomatch he

theorem returns_of_dies {x : Op α} {Q : α → Host → Prop} (hx : Spec x h Q Dies) : Returns x h Q :=
  returns_of_spec (hx.mono (fun _ _ ht => ht) fun _ _ he => he.1)

end Returns

structure Seat where
  tracked : Option Managed
  link : Option Link
  next : Nat

def Seat.record (s : Seat) : Managed := s.tracked.getD {}

def Seat.track (s : Seat) (rec : Managed) : Seat := { s with tracked := some rec }

def Seat.show (s : Seat) (link : Link) : Seat := { s with link := some link }

def Host.seat (space : String) (id : Int) (h : Host) : Seat := ⟨h.devices.get? id, h.link space id, h.kernel.nextIndex⟩

theorem Host.seat_modify (space : String) (id : Int) (h : Host) (rec : Managed) :
    ({ h with devices := h.devices.put id rec } : Host).seat space id = (h.seat space id).track rec := by
  unfold Host.seat
  dsimp only
  rw [get?_put_self]
  rfl

theorem Host.seat_relink_self (space : String) (id : Int) (h : Host) (link : Link) :
    (h.relink space id link).seat space id = (h.seat space id).show link := by
  rw [Host.seat, Host.link_relink_self]
  rfl

namespace Seat

def stake (owner : Key → String) (s : Seat) (email : String) : Int := WireGuard.stake owner s.record s.link email

/-- The record fits the device, and after a baseline every peer is indexed. -/
structure Ready (owner : Key → String) (keyOf : String → Key) (s : Seat) : Prop where
  seated : Seated owner keyOf s.record s.link s.next
  complete : s.record.counter.primed = true → ∀ l, s.link = some l → Complete owner s.record l.peers

end Seat

theorem Seat.Ready.carry {s : Seat} {link : Link} (h : s.Ready owner keyOf) (hl : s.link = some link) (key : Key) (up down : Nat) :
    (s.show (link.carry key up down)).Ready owner keyOf := by
  have hseated := h.seated
  rw [hl] at hseated
  refine ⟨hseated.carry key up down, fun hprimed l hl' q hq hne => ?_⟩
  cases hl'
  obtain ⟨q', hq', hkey'⟩ := mem_map.mp (Books.keys_carry link key up down ▸ mem_map_of_mem hq)
  have hcomplete := h.complete hprimed link hl q' hq'
  rw [hkey'] at hcomplete
  exact hcomplete hne

/-- The stakes of the clients changed by what was paid out. -/
structure Exact (owner : Key → String) (keyOf : String → Key) (s : Seat) (paid : String → Int) (s' : Seat) : Prop where
  ready : s'.Ready owner keyOf
  primed : s.record.counter.primed = true → s'.record.counter.primed = true
  stake : ∀ email, email ≠ "" → s'.stake owner email + paid email = s.stake owner email

theorem Exact.of_eq {s s' : Seat} (h : s'.Ready owner keyOf) (hprimed : s.record.counter.primed = true → s'.record.counter.primed = true)
    (hstake : ∀ email, email ≠ "" → s'.stake owner email = s.stake owner email) : Exact owner keyOf s 0 s' :=
  ⟨h, hprimed, fun email hemail => (add_zero _).trans (hstake email hemail)⟩

theorem Exact.stake_eq {s s' : Seat} {email : String} (h : Exact owner keyOf s 0 s') (hemail : email ≠ "") :
    s'.stake owner email = s.stake owner email := (add_zero _).symm.trans (h.stake email hemail)

theorem Exact.refl {s : Seat} (h : s.Ready owner keyOf) : Exact owner keyOf s 0 s := .of_eq h id fun _ _ => rfl

theorem Exact.start {h : Host} {s : Seat} (hs : h.seat space id = s) (hready : s.Ready owner keyOf) :
    Exact owner keyOf s 0 (h.seat space id) := by
  rw [hs]
  exact .refl hready

theorem Exact.trans {s s' s'' : Seat} {paid : String → Int} (h : Exact owner keyOf s 0 s') (h' : Exact owner keyOf s' paid s'') :
    Exact owner keyOf s paid s'' := by
  refine ⟨h'.ready, fun hp => h'.primed (h.primed hp), fun email hemail => ?_⟩
  rw [h'.stake email hemail, h.stake_eq hemail]

theorem Exact.link {s s' : Seat} {paid : String → Int} {l l' : Link} (h : Exact owner keyOf s paid s') (hl : s'.link = some l)
    (hpeers : l'.peers = l.peers) (hindex : l'.index = l.index) : Exact owner keyOf s paid (s'.show l') := by
  refine ⟨⟨?_, fun hp l'' hl'' => ?_⟩, h.primed, fun email hemail => ?_⟩
  · have hseated := h.ready.seated
    rw [hl] at hseated
    exact hseated.same hpeers hindex
  · cases hl''
    rw [hpeers]
    exact h.ready.complete hp l hl
  · rw [← h.stake email hemail]
    unfold Seat.stake WireGuard.stake
    rw [hl]
    exact congrArg (fun d => banked s'.record.pending email + d + paid email) (due_congr rfl rfl hpeers hindex email)

namespace Exact

variable {s : Seat} {l cur : Link}

theorem renewCreated (h : s.Ready owner keyOf) (hl : s.link = none) (hpeers : cur.peers = []) (hindex : cur.index = s.next) (tag : String) :
    Exact owner keyOf s 0 ⟨some (s.record.renew tag true), some cur, s.next + 1⟩ := by
  refine .of_eq ⟨h.seated.created hpeers hindex tag, fun _ l hl p hp => ?_⟩ (fun hp => hp) fun email _ => ?_
  · cases hl
    rw [hpeers] at hp
    cases hp
  · have hnew : (⟨some (s.record.renew tag true), some cur, s.next + 1⟩ : Seat).stake owner email = banked s.record.pending email + 0 :=
      congrArg (banked s.record.pending email + ·) (due_of_nil hpeers _ email)
    have hold : s.stake owner email = banked s.record.pending email + 0 := by
      rw [Seat.stake, hl]
      rfl
    rw [hnew, hold]

theorem indexed (h : s.Ready owner keyOf) {rec : Managed} (hcounter : rec.counter = s.record.counter)
    (hgeneration : rec.generation = s.record.generation) (hpending : rec.pending = s.record.pending) (hsound : rec.Sound owner)
    (hkeeps : rec.Keeps keyOf) (hcomplete : rec.counter.primed = true → ∀ l, s.link = some l → Complete owner rec l.peers) :
    Exact owner keyOf s 0 (s.track rec) := by
  refine .of_eq ⟨h.seated.indexed hcounter hgeneration hsound hkeeps, hcomplete⟩ (fun hp => ?_) fun email _ => ?_
  · have hprimed : rec.counter.primed = true := by rw [hcounter, hp]
    exact hprimed
  · exact stake_congr hcounter hgeneration hpending s.link email

theorem tagged (h : s.Ready owner keyOf) {rec : Managed} (hrec : ∃ tag, rec = { s.record with tag := tag }) :
    Exact owner keyOf s 0 (s.track rec) := by
  obtain ⟨tag, rfl⟩ := hrec
  have hsound := h.seated.sound
  exact .indexed h rfl rfl rfl ⟨hsound.counted, hsound.owned, hsound.named, hsound.credit⟩ h.seated.keeps h.complete

theorem drained (h : s.Ready owner keyOf) (hl : s.link = some l) :
    Exact owner keyOf s 0 (s.track (s.record.drain l)) := by
  have hseated := h.seated
  rw [hl] at hseated
  have hdistinct := (hseated.device l rfl).distinct
  have hkeep : (s.record.drain l).byKey = s.record.byKey ∧ (s.record.drain l).counter.primed = s.record.counter.primed := by
    unfold Managed.drain
    split
    · next hprimed => exact ⟨rfl, (Counter.observed _ _ _).primed.trans hprimed.symm⟩
    · exact ⟨rfl, rfl⟩
  refine .of_eq ⟨?_, fun hprimed l' hl' => ?_⟩ (fun hprimed => hkeep.2.trans hprimed) fun email hemail => ?_
  · have hlink : (s.track (s.record.drain l)).link = some l := hl
    rw [hlink]
    exact hseated.drain
  · have hcomplete := h.complete (hkeep.2.symm.trans hprimed) l' hl'
    intro p hp hnamed
    exact (congrArg (fun t => Table.get? t p.publicKey) hkeep.1).trans (hcomplete p hp hnamed)
  · have hstake := stake_drain hseated.sound hdistinct (fun hprimed => h.complete hprimed l hl) hemail
    have hnew : (s.track (s.record.drain l)).stake owner email = WireGuard.stake owner (s.record.drain l) (some l) email :=
      congrArg (fun link => WireGuard.stake owner (s.record.drain l) link email) hl
    rw [hnew, hstake, Seat.stake, hl]

theorem written (h : s.Ready owner keyOf) (hl : s.link = some l) {changes : List PeerConfig} {rec : Managed}
    (hcharge : ∀ c ∈ changes, c.remove = true → ∀ p ∈ l.peers, p.publicKey = c.publicKey → peerCharge s.record l p = 0)
    (hgone : ∀ c ∈ changes, c.remove = true → c.publicKey ∉ (changes.foldl setPeer l.peers).map KernelPeer.publicKey)
    (hcounter : rec.counter = (s.record.forgetRemoved changes).counter) (hgeneration : rec.generation = s.record.generation)
    (hpending : rec.pending = s.record.pending) (hsound : rec.Sound owner) (hkeeps : rec.Keeps keyOf)
    (hcomplete : rec.counter.primed = true → Complete owner rec (changes.foldl setPeer l.peers)) :
    Exact owner keyOf s 0 ((s.track rec).show (l.configure {} changes)) := by
  have hforgotten := forgotten_forgetRemoved changes s.record
  have hseated := h.seated
  rw [hl] at hseated
  refine .of_eq ⟨?_, fun hp l' hl' => ?_⟩ (fun hp => ?_) fun email hemail => ?_
  · exact (hseated.push {} changes).indexed hcounter (hgeneration.trans hforgotten.generation.symm) hsound hkeeps
  · cases hl'
    exact hcomplete hp
  · have hprimed : rec.counter.primed = true := by rw [hcounter, hforgotten.primed, hp]
    exact hprimed
  · have hnew : ((s.track rec).show (l.configure {} changes)).stake owner email =
        WireGuard.stake owner (s.record.forgetRemoved changes) (some (l.configure {} changes)) email :=
      stake_congr hcounter (hgeneration.trans hforgotten.generation.symm) (hpending.trans (pending_forgetRemoved _ _).symm) _ email
    rw [hnew, stake_push hseated.sound.counted {} hcharge hgone, Seat.stake, hl]

end Exact

section Rules

variable {β : Type} {h : Host} {s : Seat}

theorem returns_modify_bind {f : Managed → Managed} {g : Unit → Op β} {R : β → Host → Prop} (hs : h.seat space id = s)
    (hg : ∀ t : Host, t.seat space id = s.track (f s.record) → Returns (g ()) t R) : Returns (modifyRecord id f >>= g) h R := by
  rw [modifyRecord, returns_update_bind]
  subst hs
  exact hg _ (Host.seat_modify ..)

theorem returns_modify {f : Managed → Managed} {Q : Unit → Host → Prop} (hs : h.seat space id = s)
    (hq : ∀ t : Host, t.seat space id = s.track (f s.record) → Q () t) : Returns (modifyRecord id f) h Q := by
  subst hs
  exact returns_update (hq _ (Host.seat_modify ..))

theorem returns_snapshot_bind {g : Except KernelError (Option Link) → Op β} {R : β → Host → Prop} (hs : h.seat space id = s)
    (hg : Returns (g (.ok s.link)) h R) : Returns (call (Kernel.snapshot (nameIn space id)) >>= g) h R := by
  subst hs
  refine Returns.bind (returns_call (Q := fun r t => Returns (g r) t R) (fun e he => nomatch he) fun link k hk => ?_) fun _ _ ht => ht
  cases hk
  exact hg

theorem returns_alter_bind {f : Link → Except KernelError Link} {l : Link} {g : Except KernelError Unit → Op β} {R : β → Host → Prop}
    (hs : h.seat space id = s) (hl : s.link = some l) (herror : ∀ e, f l = .error e → Returns (g (.error e)) h R)
    (hok : ∀ l' (t : Host), f l = .ok l' → t.seat space id = s.show l' → Returns (g (.ok ())) t R) :
    Returns (call (Kernel.alter (nameIn space id) f) >>= g) h R := by
  subst hs
  have hget : h.kernel.links.get? (nameIn space id) = some l := hl
  refine Returns.bind (returns_call (Q := fun r t => Returns (g r) t R) (fun e he => ?_) fun _ k hk => ?_) fun _ _ ht => ht
  · unfold Kernel.alter at he
    rw [hget] at he
    dsimp only at he
    cases hf : f l with
    | error e' =>
      rw [hf] at he
      cases he
      exact herror e hf
    | ok l' =>
      rw [hf] at he
      cases he
  · obtain ⟨link, l', hlink, hf, rfl⟩ := Kernel.alter_eq_ok hk
    cases hget.symm.trans hlink
    exact hok l' _ hf (Host.seat_relink_self ..)

def Showing (space : String) (id : Int) (s : Seat) (l : Link) (t : Host) : Prop :=
  ∃ l', t.seat space id = s.show l' ∧ l'.peers = l.peers ∧ l'.index = l.index

theorem Showing.of_seat {l : Link} (hl : (h.seat space id).link = some l) : Showing space id (h.seat space id) l h := by
  refine ⟨l, ?_, rfl, rfl⟩
  unfold Seat.show
  rw [← hl]

theorem Showing.exact {s₀ : Seat} {paid : String → Int} {l : Link} (hshowing : Showing space id s l h) (hexact : Exact owner keyOf s₀ paid s)
    (hl : s.link = some l) : Exact owner keyOf s₀ paid (h.seat space id) := by
  obtain ⟨l', hseat, hpeers, hindex⟩ := hshowing
  rw [hseat]
  exact hexact.link hl hpeers hindex

theorem Showing.alter {l : Link} {f : Link → Except KernelError Link} {t : Host} {k : Kernel} (h : Showing space id s l t)
    (hf : ∀ l l', f l = .ok l' → l'.peers = l.peers ∧ l'.index = l.index) (hcall : Kernel.alter (nameIn space id) f t.kernel = .ok ((), k)) :
    Showing space id s l { t with kernel := k } := by
  obtain ⟨cur, hseat, hpeers, hindex⟩ := h
  have hget : t.kernel.links.get? (nameIn space id) = some cur := congrArg Seat.link hseat
  obtain ⟨link, l', hlink, hfl, rfl⟩ := Kernel.alter_eq_ok hcall
  cases hget.symm.trans hlink
  obtain ⟨hpeers', hindex'⟩ := hf cur l' hfl
  refine ⟨l', (Host.seat_relink_self ..).trans ?_, hpeers'.trans hpeers, hindex'.trans hindex⟩
  rw [hseat]
  rfl

theorem Showing.syncKeeps (space : String) (id : Int) (s : Seat) (l : Link) : SyncKeeps (nameIn space id) (Showing space id s l) :=
  .of_alter fun _ _ _ hf h hcall => h.alter hf hcall

end Rules

section Operations

variable {h : Host} {s : Seat}

/-- The device was made, or was there and keeps its peers. -/
def Made (space : String) (id : Int) (s : Seat) (cur : Link) (t : Host) : Bool → Prop
  | true => s.link = none ∧ cur.peers = [] ∧ cur.index = s.next ∧ t.seat space id = ⟨s.tracked, some cur, s.next + 1⟩
  | false => ∃ old, s.link = some old ∧ cur.peers = old.peers ∧ cur.index = old.index ∧ t.seat space id = s.show cur

theorem Made.link {cur : Link} {t : Host} {created : Bool} (h : Made space id s cur t created) : (t.seat space id).link = some cur := by
  cases created with
  | true => rw [h.2.2.2]
  | false =>
    obtain ⟨_, _, _, _, hseat⟩ := h
    rw [hseat]
    rfl

theorem Made.show {cur cur' : Link} {t u : Host} {created : Bool} (h : Made space id s cur t created)
    (hu : u.seat space id = (t.seat space id).show cur') (hpeers : cur'.peers = cur.peers) (hindex : cur'.index = cur.index) :
    Made space id s cur' u created := by
  cases created with
  | true =>
    obtain ⟨hnone, hnil, hnext, hseat⟩ := h
    refine ⟨hnone, hpeers.trans hnil, hindex.trans hnext, hu.trans ?_⟩
    rw [hseat]
    rfl
  | false =>
    obtain ⟨old, hold, hsame, hsameIndex, hseat⟩ := h
    refine ⟨old, hold, hpeers.trans hsame, hindex.trans hsameIndex, hu.trans ?_⟩
    rw [hseat]
    rfl

theorem ensureLink_returns (mtu : Int) (hs : h.seat space id = s) :
    Returns (call (Kernel.ensureLink (nameIn space id) mtu)) h fun r t => ∃ cur created, r = .ok created ∧ Made space id s cur t created := by
  subst hs
  refine returns_call (fun e he => ?_) fun created k hk => ?_
  · unfold Kernel.ensureLink at he
    split at he <;> cases he
  · unfold Kernel.ensureLink at hk
    split at hk
    · next hnone =>
      cases hk
      refine ⟨{ index := h.kernel.nextIndex, mtu := if mtu > 0 then mtu else defaultMTU }, true, rfl, hnone, rfl, rfl, ?_⟩
      unfold Host.seat Host.link Kernel.create
      dsimp only
      rw [get?_put_self]
    · next old hold =>
      cases hk
      exact ⟨{ old with mtu := if mtu > 0 then mtu else old.mtu }, false, rfl, old, hold, rfl, rfl, Host.seat_relink_self ..⟩

theorem ensureDevice_returns (inst : Instance) (key : Key) (hs : h.seat space id = s) :
    Returns (ensureDevice (nameIn space id) inst key) h fun r t => ∃ link cur created, r = .ok (link, created) ∧
      cur.peers = link.peers ∧ cur.index = link.index ∧ Made space id s cur t created := by
  unfold ensureDevice
  refine (ensureLink_returns _ hs).bind fun r t hr => ?_
  obtain ⟨l, created, rfl, hmade⟩ := hr
  refine returns_snapshot_bind rfl ?_
  rw [hmade.link]
  dsimp only
  split
  · exact returns_pure ⟨l, l, created, rfl, rfl, rfl, hmade⟩
  · refine returns_alter_bind rfl hmade.link (fun e he => nomatch he) fun l' u hf hu => ?_
    cases hf
    exact returns_pure ⟨l, l.configure _ [], created, rfl, rfl, rfl, hmade.show hu rfl rfl⟩

/-- The changes were written, or refused as a whole. -/
def Pushed (s : Seat) (cur : Link) (changes : List PeerConfig) (refused : Option KernelError) (s' : Seat) : Prop :=
  (refused = none ∧ s'.record = s.record.forgetRemoved changes ∧ ∀ rec, s'.track rec = (s.track rec).show (cur.configure {} changes)) ∨
    (refused.isSome = true ∧ s' = s)

theorem pushPeers_returns (changes : List PeerConfig) {cur : Link} (hs : h.seat space id = s) (hl : s.link = some cur) :
    Returns (pushPeers (nameIn space id) id changes) h fun refused t => Pushed s cur changes refused (t.seat space id) := by
  unfold pushPeers
  split
  · next hnil =>
    refine returns_pure (.inl ⟨rfl, ?_, fun rec => ?_⟩)
    · rw [hs, hnil]
      rfl
    · have hsame : cur.configure {} changes = cur := by
        rw [hnil]
        rfl
      rw [hs, hsame]
      unfold Seat.track Seat.show
      rw [← hl]
  · refine returns_alter_bind hs hl (fun e _ => returns_pure (.inr ⟨rfl, hs⟩)) fun l' t hf ht => ?_
    refine returns_modify_bind ht fun u hu => returns_pure (.inl ⟨rfl, ?_, fun rec => ?_⟩)
    · rw [hu]
      rfl
    · rw [hu, configure_eq_ok hf]
      rfl

theorem exact_push {cur : Link} {inst : Instance} {created : Bool} {refused : Option KernelError} {s' : Seat} (hready : s.Ready owner keyOf)
    (hinst : inst.Owned owner) (hkeeps : ∀ p ∈ inst.peers, p.Keeps keyOf) (hl : s.link = some cur)
    (hcharge : ∀ c ∈ diffPeers cur.peers (desiredPeers inst.peers).1 created, c.remove = true →
      ∀ p ∈ cur.peers, p.publicKey = c.publicKey → peerCharge s.record cur p = 0)
    (ht : Pushed s cur (diffPeers cur.peers (desiredPeers inst.peers).1 created) refused s') :
    Exact owner keyOf s 0 (s'.track (s'.record.reindex inst.peers (if refused.isSome then cur.peers else []))) := by
  have hseated := hready.seated
  have hdesired : ∀ c ∈ (desiredPeers inst.peers).1, c.remove = false := fun c hc => remove_desiredPeers hc
  rcases ht with ⟨rfl, hrec, hseat⟩ | ⟨hrefused, hseat⟩
  · have hforgotten := forgotten_forgetRemoved (diffPeers cur.peers (desiredPeers inst.peers).1 created) s.record
    rw [hseat, hrec]
    refine .written hready hl hcharge ?_ rfl hforgotten.generation (pending_forgetRemoved _ _) ?_ ?_ fun _ => ?_
    · exact fun c hc hremove => not_mem_diffPeers _ _ hdesired created _ hc hremove
    · exact (hseated.sound.forgetRemoved _).reindex hinst _
    · refine Indexed.reindex ?_ hkeeps _
      rw [hforgotten.byEmail, hforgotten.byKey]
      exact hseated.keeps
    · exact complete_reindex (hseated.sound.forgetRemoved _) hinst fun key hkey => .inl (mem_keys_diffPeers _ _ hdesired created hkey)
  · -- the peers that a refused write left keep their owners
    rw [hseat, if_pos hrefused]
    refine .indexed hready rfl rfl rfl (hseated.sound.reindex hinst _) (Indexed.reindex hseated.keeps hkeeps _) fun hprimed l hl' => ?_
    cases hl.symm.trans hl'
    intro p hp hnamed
    have hheld := hready.complete hprimed cur hl
    have hnamedPeers : Complete owner (s.record.reindex inst.peers cur.peers) (cur.peers.filter fun q => owner q.publicKey ≠ "") := by
      refine complete_reindex hseated.sound hinst fun key hkey => .inr ?_
      obtain ⟨q, hq, rfl⟩ := mem_map.mp hkey
      obtain ⟨hq, hqnamed⟩ := mem_filter.mp hq
      rw [hheld q hq (of_decide_eq_true hqnamed)]
      exact ⟨rfl, mem_map_of_mem hq⟩
    exact hnamedPeers p (mem_filter.mpr ⟨hp, decide_eq_true hnamed⟩) hnamed

theorem ensure_exact {inst : Instance} (hinst : inst.Owned owner) (hkeeps : ∀ p ∈ inst.peers, p.Keeps keyOf) (hs : h.seat space inst.id = s)
    (hready : s.Ready owner keyOf) : Returns (ensure space inst) h fun _ t => Exact owner keyOf s 0 (t.seat space inst.id) := by
  have hstart : Exact owner keyOf s 0 (h.seat space inst.id) := .start hs hready
  unfold ensure
  dsimp only
  split
  · exact returns_pure hstart
  · exact returns_pure hstart
  refine (ensureDevice_returns inst _ hs).bind fun r t hr => ?_
  obtain ⟨link, cur, created, rfl, hpeers, hindex, hmade⟩ := hr
  dsimp only
  rw [← hpeers]
  refine returns_modify_bind (rfl : t.seat space inst.id = _) fun t₁ hs₁ => ?_
  have hl₁ : (t₁.seat space inst.id).link = some cur := by
    rw [hs₁]
    exact hmade.link
  have hexact₁ : Exact owner keyOf s 0 (t₁.seat space inst.id) := by
    cases created with
    | true =>
      obtain ⟨hnone, hnew, hnext, hseat⟩ := hmade
      rw [hs₁, hseat]
      exact .renewCreated hready hnone hnew hnext inst.tag
    | false =>
      obtain ⟨old, hold, hsame, hsameIndex, hseat⟩ := hmade
      rw [hs₁, hseat]
      exact (Exact.tagged hready ⟨inst.tag, rfl⟩).link hold hsame hsameIndex
  refine returns_modify_bind (rfl : t₁.seat space inst.id = _) fun t₂ hs₂ => ?_
  -- what the peers that go have counted is banked, and nothing is due for them any more
  have hdistinct : cur.Distinct := (hexact₁.ready.seated.device cur hl₁).distinct
  have hdrain : (t₁.seat space inst.id).record.drain link = (t₁.seat space inst.id).record.drain cur := by
    unfold Managed.drain
    rw [observe_congr hpeers hindex]
  have hexact₂ : Exact owner keyOf (t₁.seat space inst.id) 0 (t₂.seat space inst.id) := by
    rw [hs₂]
    split
    · rw [hdrain]
      exact .drained hexact₁.ready hl₁
    · exact .tagged hexact₁.ready ⟨_, rfl⟩
  have hcharge : ∀ c ∈ diffPeers cur.peers (desiredPeers inst.peers).1 created, c.remove = true →
      ∀ p ∈ cur.peers, p.publicKey = c.publicKey → peerCharge (t₂.seat space inst.id).record cur p = 0 := by
    intro c hc hremove p hp _
    rw [hs₂, if_pos (any_eq_true.mpr ⟨c, hc, hremove⟩), hdrain]
    exact peerCharge_drain hdistinct hp
  have hl₂ : (t₂.seat space inst.id).link = some cur := by
    rw [hs₂]
    exact hl₁
  refine (pushPeers_returns _ (rfl : t₂.seat space inst.id = _) hl₂).bind fun refused t₃ ht₃ => ?_
  have hexact₃ := exact_push hexact₂.ready hinst hkeeps hl₂ hcharge ht₃
  refine returns_modify_bind (rfl : t₃.seat space inst.id = _) fun t₄ hs₄ => ?_
  rw [← hs₄] at hexact₃
  -- addresses and routes are no part of a stake
  obtain ⟨cur₄, hl₄⟩ : ∃ l, (t₄.seat space inst.id).link = some l := by
    rw [hs₄]
    rcases ht₃ with ⟨-, -, hseat⟩ | ⟨-, hseat⟩
    · rw [hseat]
      exact ⟨_, rfl⟩
    · rw [hseat]
      exact ⟨cur, hl₂⟩
  have hkeeps := Showing.syncKeeps space inst.id (t₄.seat space inst.id) cur₄
  refine (returns_of_spec (hkeeps.syncAddrs (fun _ _ => rfl) (.of_seat hl₄) _ _)).bind fun r t₅ ht₅ => ?_
  refine (returns_of_spec (hkeeps.syncRoutes (fun _ _ => rfl) ht₅ _ _ _ _)).bind fun _ t₆ ht₆ => ?_
  exact returns_pure (ht₆.exact ((hexact₁.trans hexact₂).trans hexact₃) hl₄)

def Seat.Banks (owner : Key → String) (s : Seat) : Prop := s.record.counter.primed = true → ∃ email, email ≠ "" ∧ 0 < s.stake owner email

theorem Exact.banks {s s' : Seat} (h : Exact owner keyOf s 0 s') (hprimed : s'.record.counter.primed = true → s.record.counter.primed = true)
    (hbanks : s.Banks owner) : s'.Banks owner := by
  intro hp
  obtain ⟨email, hemail, hpos⟩ := hbanks (hprimed hp)
  exact ⟨email, hemail, by rwa [h.stake_eq hemail]⟩

theorem Exact.deleted {s : Seat} {l : Option Link} (h : s.Ready owner keyOf) (hl : s.link = l)
    (hdue : ∀ link email, l = some link → due owner s.record link email = 0) : Exact owner keyOf s 0 ⟨s.tracked, none, s.next⟩ := by
  refine .of_eq ⟨h.seated.gone, fun _ l hl => nomatch hl⟩ id fun email _ => ?_
  rw [Seat.stake, Seat.stake, hl]
  cases l with
  | none => rfl
  | some link => exact congrArg (banked s.record.pending email + ·) (hdue link email rfl).symm

theorem remove_exact (hs : h.seat space id = s) (hready : s.Ready owner keyOf) (hbanks : s.Banks owner) :
    Returns (remove space id) h fun _ t => Exact owner keyOf s 0 (t.seat space id) ∧
      ((t.seat space id).record.counter.primed = true → s.record.counter.primed = true) := by
  unfold remove
  dsimp only
  rw [returns_read_bind]
  -- the counts are banked when there is a record
  have hbanked : Returns ((if (h.devices.get? id).isSome then drainDevice (nameIn space id) id else pure () : Op Unit)) h fun _ t =>
      Exact owner keyOf s 0 (t.seat space id) ∧ ((t.seat space id).record.counter.primed = true → s.record.counter.primed = true) ∧
      ∀ link email, (t.seat space id).link = some link → due owner (t.seat space id).record link email = 0 := by
    split
    · unfold drainDevice
      refine returns_snapshot_bind hs ?_
      cases hl : s.link with
      | none =>
        refine returns_pure ⟨.start hs hready, fun hp => hs ▸ hp, fun link email hlink => ?_⟩
        rw [hs, hl] at hlink
        cases hlink
      | some link =>
        refine returns_modify hs fun t ht => ?_
        rw [ht]
        refine ⟨.drained hready hl, fun hp => ?_, fun link' email hlink => ?_⟩
        · by_contra hunprimed
          have hsame : s.record.drain link = s.record := if_neg hunprimed
          exact hunprimed (hsame ▸ hp)
        · cases hl.symm.trans hlink
          exact due_drain owner (hready.seated.device link hl).distinct email
    · next huntracked =>
      refine returns_pure ⟨.start hs hready, fun hp => hs ▸ hp, fun link email _ => due_of_unprimed ?_ link email⟩
      have hnone : (h.seat space id).tracked = none := not_isSome_iff_eq_none.mp huntracked
      rw [Seat.record, hnone]
      rfl
  refine hbanked.bind fun _ t ht => ?_
  obtain ⟨hexact, hprimed, hdue⟩ := ht
  refine Returns.bind (returns_call (Q := fun r u => r = .ok () ∧ u.seat space id = ⟨(t.seat space id).tracked, none, (t.seat space id).next⟩)
    (fun e he => (by cases he)) fun _ k hk => ?_) fun r u hu => ?_
  · cases hk
    refine ⟨rfl, ?_⟩
    unfold Host.seat Host.link
    dsimp only
    rw [get?_drop_self]
  · obtain ⟨rfl, hseat⟩ := hu
    have hgone := Exact.deleted hexact.ready rfl fun link email hlink => hdue link email hlink
    rw [← hseat] at hgone
    have hprimed' : (u.seat space id).record.counter.primed = true → s.record.counter.primed = true := by
      rw [hseat]
      exact hprimed
    dsimp only
    rw [returns_update_bind]
    refine returns_pure ?_
    cases htracked : u.devices.get? id with
    | none => exact ⟨hexact.trans hgone, hprimed'⟩
    | some rec =>
      dsimp only
      split
      · exact ⟨hexact.trans hgone, hprimed'⟩
      · next hempty =>
        -- the record goes only when no baseline is lost with it
        have hrecord : (u.seat space id).record = rec := by
          have hsome : (u.seat space id).tracked = some rec := htracked
          rw [Seat.record, hsome]
          rfl
        have hlink : (u.seat space id).link = none := by rw [hseat]
        have hstake : ∀ email, (u.seat space id).stake owner email = 0 := by
          intro email
          rw [Seat.stake, hlink, hrecord, stake, banked_of_entries_nil (not_not.mp hempty)]
          rfl
        have hdropped : ({ u with devices := u.devices.drop id } : Host).seat space id = ⟨none, none, (u.seat space id).next⟩ := by
          unfold Host.seat
          dsimp only
          rw [get?_drop_self]
          exact congrArg (fun link => Seat.mk none link u.kernel.nextIndex) hlink
        rw [hdropped]
        refine ⟨.of_eq ⟨seated_new owner keyOf (fun _ hl => (by cases hl)), fun hp => (by cases hp)⟩ (fun hp => ?_) fun email hemail => ?_,
          fun hp => (by cases hp)⟩
        · obtain ⟨email, hemail, hpos⟩ := hbanks hp
          rw [← (hexact.trans hgone).stake_eq hemail, hstake email] at hpos
          exact absurd hpos (lt_irrefl 0)
        · rw [← (hexact.trans hgone).stake_eq hemail, hstake email]
          rfl

theorem addPeerTo_exact {inst : Instance} {p : Peer} {want : PeerConfig} {l : Link} (hwant : want.remove = false)
    (howner : owner want.publicKey = p.email) (hkey : p.email ≠ "" → want.publicKey = keyOf p.email)
    (hs : h.seat space inst.id = s) (hl : s.link = some l) (hready : s.Ready owner keyOf) :
    Returns (addPeerTo (nameIn space inst.id) inst p want l) h fun _ t => Exact owner keyOf s 0 (t.seat space inst.id) := by
  unfold addPeerTo
  refine returns_modify_bind hs fun t ht => ?_
  have hsound := hready.seated.sound
  have hkeeps : (s.record.retag inst.tag).Keeps keyOf := hready.seated.keeps
  have hframe : ∀ rec : Managed, (rec.track p.email want.publicKey).counter = rec.counter ∧
      (rec.track p.email want.publicKey).generation = rec.generation ∧ (rec.track p.email want.publicKey).pending = rec.pending := by
    intro rec
    unfold Managed.track
    split <;> exact ⟨rfl, rfl, rfl⟩
  obtain ⟨hcounter, hgeneration, hpending⟩ := hframe (s.record.retag inst.tag)
  set rec := (s.record.retag inst.tag).track p.email want.publicKey with hrec
  -- the index names what it named and the client
  have hnamed : ∀ (key : Key), owner key ≠ "" → (s.record.byKey.get? key = some (owner key) ∨ key = want.publicKey) →
      rec.byKey.get? key = some (owner key) := by
    intro key hne hor
    by_cases hempty : p.email = ""
    · have hsame : rec = s.record.retag inst.tag := by rw [hrec, Managed.track, if_pos hempty]
      rw [hsame]
      refine hor.resolve_right fun heq => hne ?_
      rw [heq, howner, hempty]
    · rw [hkeeps.byKey_track hempty (hkey hempty), get?_put]
      split
      · next heq => rw [heq, howner]
      · next hne' => exact hor.resolve_right hne'
  have hexact : Exact owner keyOf s 0 (t.seat space inst.id) := by
    rw [ht]
    refine .indexed hready hcounter hgeneration hpending ((hsound.retag inst.tag).track howner) (Indexed.track hkeeps hkey) fun hprimed l hl q hq hne => ?_
    exact hnamed _ hne (.inl (hready.complete (hcounter ▸ hprimed) l hl q hq hne))
  have hl' : (t.seat space inst.id).link = some l := by
    rw [ht]
    exact hl
  split
  · exact returns_pure hexact
  · next cfg hcfg =>
    have hcfg : cfg = want := by
      unfold upsertPeer at hcfg
      split at hcfg
      · split at hcfg
        · cases hcfg
        · exact (Option.some.inj hcfg).symm
      · exact (Option.some.inj hcfg).symm
    subst hcfg
    refine returns_alter_bind rfl hl' (fun e _ => returns_pure hexact) fun l' u hf hu => ?_
    have hlink : l' = l.configure {} [cfg] := configure_eq_ok hf
    have hrecord : (t.seat space inst.id).record = rec := by
      rw [ht]
      rfl
    have hforget : rec.forgetRemoved [cfg] = rec := by
      unfold Managed.forgetRemoved
      rw [filter_cons, if_neg (by simp [hwant])]
      rfl
    have hwritten : Exact owner keyOf (t.seat space inst.id) 0 (((t.seat space inst.id).track rec).show (l.configure {} [cfg])) := by
      refine .written hexact.ready hl' ?_ ?_ ?_ ?_ ?_ (hrecord ▸ hexact.ready.seated.sound) (hrecord ▸ hexact.ready.seated.keeps) fun hprimed q hq hne => ?_
      · intro c hc hremove
        rw [mem_singleton.mp hc, hwant] at hremove
        cases hremove
      · intro c hc hremove
        rw [mem_singleton.mp hc, hwant] at hremove
        cases hremove
      · rw [hrecord, hforget]
      · rw [hrecord]
      · rw [hrecord]
      · refine hnamed _ hne ?_
        have hmem := (mem_keys_setPeer l.peers cfg q.publicKey).mp (mem_map_of_mem hq)
        rw [hwant, if_neg Bool.false_ne_true] at hmem
        refine hmem.imp (fun hold => ?_) id
        obtain ⟨q', hq', hkey'⟩ := mem_map.mp hold
        have hcomplete := hready.complete (hcounter ▸ hprimed) l hl q' hq'
        rw [hkey'] at hcomplete
        exact hcomplete hne
    have hseat : u.seat space inst.id = ((t.seat space inst.id).track rec).show (l.configure {} [cfg]) := by
      rw [hu, hlink, ht]
      rfl
    rw [← hseat] at hwritten
    dsimp only
    split
    · exact returns_pure (hexact.trans hwritten)
    · -- routes are no part of a stake
      have hlu : (u.seat space inst.id).link = some (l.configure {} [cfg]) := by rw [hseat]; rfl
      refine (returns_of_spec (each_spec (fun q _ v hv => ?_) (Showing.of_seat hlu))).mono fun _ v hv => ?_
      · exact attemptOne_spec ((Showing.syncKeeps space inst.id _ _).addRoute q v · hv) (fun _ _ => rfl) hv
      · exact hv.exact (hexact.trans hwritten) hlu

theorem addPeer_exact {inst : Instance} {p : Peer} (howned : p.Owned owner) (hkeeps : p.Keeps keyOf) (hs : h.seat space inst.id = s)
    (hready : s.Ready owner keyOf) : Returns (addPeer space inst p) h fun _ t => Exact owner keyOf s 0 (t.seat space inst.id) := by
  unfold addPeer
  dsimp only
  split
  · exact returns_pure (.start hs hready)
  · next want hwant =>
    obtain ⟨hkey, hzero⟩ := publicKey_of_desiredPeer hwant
    refine returns_modify_bind hs fun t ht => ?_
    have hexact : Exact owner keyOf s 0 (t.seat space inst.id) := by
      rw [ht]
      exact .tagged hready ⟨_, rfl⟩
    have hedit : Returns (addPeer.edit inst p (nameIn space inst.id) want) t fun _ u => Exact owner keyOf s 0 (u.seat space inst.id) := by
      unfold addPeer.edit
      refine returns_snapshot_bind rfl ?_
      cases hl : (t.seat space inst.id).link with
      | none => exact returns_pure hexact
      | some l =>
        exact (addPeerTo_exact (remove_of_desiredPeer hwant) (howned _ hkey hzero) (hkeeps _ hkey hzero) rfl hl hexact.ready).mono
          fun _ _ hu => hexact.trans hu
    rw [returns_read_bind]
    split
    · split
      · exact returns_pure hexact
      · exact hedit
    · exact hedit

theorem removePeerFrom_exact {inst : Instance} {email : String} {key : Key} {l : Link} (hs : h.seat space inst.id = s) (hl : s.link = some l)
    (hready : s.Ready owner keyOf) :
    Returns (removePeerFrom (nameIn space inst.id) inst email key l) h fun _ t => Exact owner keyOf s 0 (t.seat space inst.id) := by
  unfold removePeerFrom
  refine returns_modify_bind hs fun t ht => ?_
  have htagged : Exact owner keyOf s 0 (s.track (s.record.retag inst.tag)) := .tagged hready ⟨_, rfl⟩
  have hexact : Exact owner keyOf s 0 (t.seat space inst.id) := by
    rw [ht]
    exact htagged.trans (.drained htagged.ready hl)
  have hl' : (t.seat space inst.id).link = some l := by
    rw [ht]
    exact hl
  refine returns_alter_bind rfl hl' (fun e _ => returns_pure hexact) fun l' u hf hu => ?_
  have hlink : l' = l.configure {} [{ publicKey := key, remove := true }] := configure_eq_ok hf
  dsimp only
  refine returns_modify_bind hu fun v hv => ?_
  have hseated := hexact.ready.seated
  have hgone : key ∉ ([({ publicKey := key, remove := true } : PeerConfig)].foldl setPeer l.peers).map KernelPeer.publicKey := by
    refine not_mem_foldl_removals (fun c hc => ?_) (.inl mem_cons_self)
    rw [mem_singleton.mp hc]
  have hwritten : Exact owner keyOf (t.seat space inst.id) 0 (v.seat space inst.id) := by
    rw [hv, hlink]
    refine Exact.written hexact.ready hl' ?_ ?_ rfl rfl rfl (hseated.sound.forget email key)
      ⟨forall_drop hseated.keeps.1 email, forall_drop hseated.keeps.2 key⟩ fun hprimed q hq hne => ?_
    · intro c _ _ q hq _
      rw [ht]
      exact peerCharge_drain (hready.seated.device l hl).distinct hq
    · intro c hc _
      rw [mem_singleton.mp hc]
      exact hgone
    · -- the peers that are left are others
      have hne' : q.publicKey ≠ key := fun heq => hgone (mem_map.mpr ⟨q, hq, heq⟩)
      have hdrop : ((t.seat space inst.id).record.byKey.drop key).get? q.publicKey = (t.seat space inst.id).record.byKey.get? q.publicKey := by
        rw [get?_drop_of_ne hne']
      refine hdrop.trans ?_
      have hmem := (mem_keys_setPeer l.peers { publicKey := key, remove := true } q.publicKey).mp (mem_map_of_mem hq)
      rw [if_pos rfl] at hmem
      obtain ⟨q', hq', hkey'⟩ := mem_map.mp hmem.1
      have hcomplete := hexact.ready.complete hprimed l hl' q' hq'
      rw [hkey'] at hcomplete
      exact hcomplete hne
  split
  · exact returns_pure (hexact.trans hwritten)
  · split
    · exact returns_pure (hexact.trans hwritten)
    · have hlv : (v.seat space inst.id).link = some (l.configure {} [{ publicKey := key, remove := true }]) := by
        rw [hv, hlink]
        rfl
      refine (returns_of_spec (each_spec (fun q _ w hw => ?_) (Showing.of_seat hlv))).mono fun _ w hw => ?_
      · exact attemptOne_spec ((Showing.syncKeeps space inst.id _ _).delRoute q w · hw) (fun _ _ => rfl) hw
      · exact hw.exact (hexact.trans hwritten) hlv

theorem removePeer_exact (inst : Instance) (email : String) (fallbackKey : KeyText) (hs : h.seat space inst.id = s) (hready : s.Ready owner keyOf) :
    Returns (removePeer space inst email fallbackKey) h fun _ t => Exact owner keyOf s 0 (t.seat space inst.id) := by
  unfold removePeer
  dsimp only
  rw [returns_read_bind]
  split
  · exact returns_pure (.start hs hready)
  · next key _ =>
    refine returns_modify_bind hs fun t ht => ?_
    have hexact : Exact owner keyOf s 0 (t.seat space inst.id) := by
      rw [ht]
      exact .tagged hready ⟨_, rfl⟩
    refine returns_snapshot_bind rfl ?_
    cases hl : (t.seat space inst.id).link with
    | some l => exact (removePeerFrom_exact rfl hl hexact.ready).mono fun _ _ hu => hexact.trans hu
    | none =>
      refine returns_modify_bind (rfl : t.seat space inst.id = _) fun u hu => returns_pure ?_
      -- without a device nothing is due
      have hseated := hexact.ready.seated
      rw [hu]
      have hkeeps : ((t.seat space inst.id).record.forget email key).Keeps keyOf :=
        ⟨forall_drop hseated.keeps.1 email, forall_drop hseated.keeps.2 key⟩
      refine hexact.trans (.of_eq ⟨⟨hseated.sound.forget email key, hkeeps, (hseated.dated.forget _).forget _, fun l hl' => ?_⟩,
        fun _ l hl' => ?_⟩ (fun hp => hp) fun e _ => ?_)
      · cases hl.symm.trans hl'
      · cases hl.symm.trans hl'
      · have hlink : ∀ rec, ((t.seat space inst.id).track rec).link = none := fun _ => hl
        rw [Seat.stake, Seat.stake, hlink, hl]
        rfl

theorem Exact.taken {s : Seat} (h : s.Ready owner keyOf) :
    Exact owner keyOf s (fun email => banked s.record.pending email) (s.track s.record.takePending) := by
  refine ⟨⟨h.seated.indexed rfl rfl h.seated.sound.takePending h.seated.keeps, h.complete⟩, fun hp => hp, fun email _ => ?_⟩
  exact stake_takePending s.record s.link email

theorem Exact.observed {s : Seat} {l : Link} (h : s.Ready owner keyOf) (hl : s.link = some l) (hcomplete : Complete owner s.record l.peers) :
    Exact owner keyOf s 0 (s.track (s.record.observe l)) := by
  have hseated := h.seated
  rw [hl] at hseated
  have hlink : (s.track (s.record.observe l)).link = some l := hl
  refine .of_eq ⟨?_, fun _ l' hl' => ?_⟩ (fun _ => (Counter.observed _ _ _).primed) fun email hemail => ?_
  · rw [hlink]
    exact hseated.observe
  · cases hl.symm.trans hl'
    exact hcomplete
  · have hstake := stake_observe hseated.sound (hseated.device l rfl).distinct (fun _ => hcomplete) hemail
    rw [Seat.stake, Seat.stake, hlink, hl]
    exact hstake

theorem scrapeDevice_exact (hs : h.seat space id = s) (hready : s.Ready owner keyOf)
    (hknown : s.record.counter.primed = false → ∀ l, s.link = some l → Complete owner s.record l.peers) :
    Returns (scrapeDevice space id) h fun out t => Exact owner keyOf s (handedTo out) (t.seat space id) ∧
      (s.record.counter.primed = true ∨ s.tracked.isSome = true ∧ s.link.isSome = true → (t.seat space id).record.counter.primed = true ∧
        ∀ email, (t.seat space id).stake owner email = 0) := by
  have hcomplete : ∀ l, s.link = some l → Complete owner s.record l.peers := by
    intro l hl
    cases hprimed : s.record.counter.primed with
    | false => exact hknown hprimed l hl
    | true => exact hready.complete hprimed l hl
  have htracked : h.devices.get? id = s.tracked := congrArg Seat.tracked hs
  unfold scrapeDevice
  rw [returns_read_bind, htracked]
  cases hrec : s.tracked with
  | none =>
    refine returns_pure ⟨.start hs hready, fun hor => ?_⟩
    have hunprimed : s.record.counter.primed = false := by
      rw [Seat.record, hrec]
      rfl
    rcases hor with hp | ⟨hsome, -⟩
    · rw [hunprimed] at hp
      cases hp
    · cases hsome
  | some rec =>
    have hrecord : s.record = rec := by
      rw [Seat.record, hrec]
      rfl
    subst hrecord
    have hnamed := hready.seated.sound.named
    refine returns_modify_bind hs fun t ht => ?_
    refine returns_snapshot_bind ht ?_
    have hlink : ∀ r, (s.track r).link = s.link := fun _ => rfl
    have hout : ∀ {billed : Table String Traffic}, Named billed → (fun email => banked billed email) = handedTo (Managed.flatten billed) :=
      fun hbilled => funext fun email => (handedTo_flatten hbilled email).symm
    rw [hlink]
    cases hl : s.link with
    | none =>
      refine returns_pure ?_
      rw [ht, ← hout hnamed]
      refine ⟨.taken hready, fun hor => ⟨hor.resolve_right (fun h => nomatch h.2), fun email => ?_⟩⟩
      unfold Seat.stake
      rw [hlink, hl]
      rfl
    | some l =>
      have hobserved := Exact.observed hready hl (hcomplete l hl)
      refine returns_modify_bind ht fun u hu => returns_pure ?_
      have hnamed' : Named (s.record.observe l).pending := hobserved.ready.seated.sound.named
      rw [hu, ← hout hnamed']
      refine ⟨hobserved.trans (.taken hobserved.ready), fun _ => ⟨(Counter.observed _ _ _).primed, fun email => ?_⟩⟩
      have hdue : due owner (s.record.observe l) l email = 0 := due_observe owner (hready.seated.device l hl).distinct email
      have hstake : (s.track (s.record.observe l).takePending).stake owner email = 0 + due owner (s.record.observe l).takePending l email :=
        congrArg (fun link => stake owner (s.record.observe l).takePending link email) hl
      refine hstake.trans ?_
      rw [zero_add]
      exact (due_congr rfl rfl rfl rfl email).trans hdue

end Operations

section Others

variable {h : Host} {s : Seat}

theorem Exact.other {id' : Int} {paid : String → Int} {t : Host} (hready : (h.seat space id).Ready owner keyOf) (hne : id ≠ id')
    (hk : Kept owner space id' h paid t) : Exact owner keyOf (h.seat space id) 0 (t.seat space id) := by
  have hseat : t.seat space id = ⟨(h.seat space id).tracked, (h.seat space id).link, t.kernel.nextIndex⟩ := by
    unfold Host.seat Host.link
    rw [hk.records id hne, hk.links _ fun heq => hne (nameIn_inj heq)]
  rw [hseat]
  exact .of_eq ⟨hready.seated.mono hk.next, hready.complete⟩ (fun hp => hp) fun _ _ => rfl

theorem returns_each {α : Type} {I : Host → Prop} {f : α → Op (List Failure)} {l : List α} (hf : ∀ a ∈ l, ∀ t, I t → Returns (f a) t fun _ => I)
    (hi : I h) : Returns (each f l) h fun _ => I := by
  induction l generalizing h with
  | nil => exact returns_pure hi
  | cons a l ih =>
    refine (hf a mem_cons_self h hi).bind fun _ t ht => ?_
    refine (ih (fun b hb => hf b (mem_cons_of_mem a hb)) ht).bind fun _ u hu => ?_
    exact returns_pure hu

def Steady (owner : Key → String) (keyOf : String → Key) (space : String) (id : Int) (s : Seat) (t : Host) : Prop :=
  t.Sound owner ∧ Exact owner keyOf s 0 (t.seat space id) ∧
    ((t.seat space id).record.counter.primed = true → s.record.counter.primed = true)

theorem reconcile_exact {desired : List Instance} {retain : List Int} (hh : h.Sound owner) (hdesired : ∀ inst ∈ desired, inst.Owned owner)
    (hkeeps : ∀ inst ∈ desired, inst.id = id → ∀ p ∈ inst.peers, p.Keeps keyOf) (hs : h.seat space id = s) (hready : s.Ready owner keyOf)
    (hbanks : id ∉ desired.map Instance.id ++ retain → s.Banks owner) :
    Returns (reconcile space desired retain) h fun _ t => Exact owner keyOf s 0 (t.seat space id) := by
  have hstart := Exact.start hs hready
  unfold reconcile
  dsimp only
  rw [returns_read_bind]
  refine Returns.bind (Q := fun _ => Steady owner keyOf space id s) ?_ fun names t ht => ?_
  · refine Returns.bind (returns_call (Q := fun r u => (∃ names, r = .ok names) ∧ u = h) (fun e he => nomatch he) fun names k hk => ?_) fun r u hu => ?_
    · cases hk
      exact ⟨⟨_, rfl⟩, rfl⟩
    · obtain ⟨⟨names, rfl⟩, rfl⟩ := hu
      exact returns_pure ⟨hh, hstart, fun hp => hs ▸ hp⟩
  · -- the devices that are not wanted go, which the inbound survives if it has something to bank
    refine (returns_each (I := Steady owner keyOf space id s) (fun id' hid' u hu => ?_) ht).bind fun _ u hu => ?_
    · obtain ⟨hsound, hexact, hprimed⟩ := hu
      have hremove : Spec (remove space id') u (fun _ => Kept owner space id' u 0) Dies := remove_spec hsound id'
      by_cases heq : id = id'
      · subst heq
        have hunwanted : id ∉ desired.map Instance.id ++ retain := by
          have hmem := (mem_filter.mp (mem_eraseDups.mp hid')).2
          simpa using hmem
        refine ((remove_exact rfl hexact.ready (hexact.banks hprimed (hbanks hunwanted))).and_spec hremove).mono fun _ v hv => ?_
        exact ⟨hv.2.sound, hexact.trans hv.1.1, fun hp => hprimed (hv.1.2 hp)⟩
      · refine (returns_of_dies hremove).mono fun _ v hv => ?_
        refine ⟨hv.sound, hexact.trans (.other hexact.ready heq hv), fun hp => hprimed ?_⟩
        have hsame : v.devices.get? id = u.devices.get? id := hv.records id heq
        have hrecord : (v.seat space id).record = (u.seat space id).record := congrArg (fun r : Option Managed => r.getD {}) hsame
        rwa [hrecord] at hp
    · refine (returns_each (I := fun t => t.Sound owner ∧ Exact owner keyOf s 0 (t.seat space id)) (fun inst hinst v hv => ?_) ⟨hu.1, hu.2.1⟩).bind
        fun _ v hv => returns_pure hv.2
      obtain ⟨hsound, hexact⟩ := hv
      have hensure : Spec (ensure space inst) v (fun _ => Kept owner space inst.id v 0) Dies := ensure_spec (hdesired inst hinst) hsound
      by_cases heq : id = inst.id
      · subst heq
        refine ((ensure_exact (hdesired inst hinst) (hkeeps inst hinst rfl) rfl hexact.ready).and_spec hensure).mono fun _ w hw => ?_
        exact ⟨hw.2.sound, hexact.trans hw.1⟩
      · refine (returns_of_dies hensure).mono fun _ w hw => ?_
        exact ⟨hw.sound, hexact.trans (.other hexact.ready heq hw)⟩

end Others

end WireGuard

end Pui
