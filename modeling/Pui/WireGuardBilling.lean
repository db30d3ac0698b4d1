import Pui.Run
import Pui.WireGuardOwners
import Pui.WireGuardStakes

/-!
# WireGuard never bills more than was moved

No operation of the manager adds to what an inbound can bill, whichever of its calls fail (`Kept`), and a scrape takes
from it what it hands out.
-/

namespace Pui

open Table Crash Crash.Prog List Option

namespace WireGuard

variable {owner : Key → String} {space : String} {t : Host} {f : Managed → Managed} {link : Link} {inst : Instance} {rec : Managed}

theorem nameIn_inj {id id' : Int} (h : nameIn space id = nameIn space id') : id = id' := by
  have hlist := congrArg String.toList h
  rw [nameIn, nameIn, String.toList_append, String.toList_append] at hlist
  exact Int.repr_inj.mp (String.toList_inj.mp (append_cancel_left hlist))

/-- From `h` to `t` only the inbound `id` changed, and it can bill no more than before. -/
structure Kept (owner : Key → String) (space : String) (id : Int) (h : Host) (paid : String → Int) (t : Host) : Prop where
  sound : t.Sound owner
  records : ∀ id', id' ≠ id → t.devices.get? id' = h.devices.get? id'
  links : ∀ name, name ≠ nameIn space id → t.kernel.links.get? name = h.kernel.links.get? name
  next : h.kernel.nextIndex ≤ t.kernel.nextIndex
  stake : ∀ email, t.stake owner space id email + paid email ≤ h.stake owner space id email

namespace Kept

variable {id : Int} {h t : Host} {paid : String → Int}

theorem refl (hh : h.Sound owner) : Kept owner space id h 0 h :=
  ⟨hh, fun _ _ => rfl, fun _ _ => rfl, le_rfl, fun _ => (add_zero _).le⟩

theorem modifyPaid (hk : Kept owner space id h paid t) {paid' : String → Int}
    (hsound : (t.record id).Sound owner → (f (t.record id)).Sound owner)
    (hstake : ∀ email, WireGuard.stake owner (f (t.record id)) (t.link space id) email + paid' email ≤
      WireGuard.stake owner (t.record id) (t.link space id) email + paid email) :
    Kept owner space id h paid' { t with devices := t.devices.put id (f (t.record id)) } := by
  refine ⟨⟨forall_put (hsound (hk.sound.record id)) hk.sound.records, hk.sound.links⟩, fun id' hne => ?_, hk.links, hk.next, fun email => ?_⟩
  · exact (get?_put_of_ne hne _ _).trans (hk.records id' hne)
  · have hrecord : ({ t with devices := t.devices.put id (f (t.record id)) } : Host).record id = f (t.record id) := by
      rw [Host.record, get?_put_self, getD_some]
    refine le_trans ?_ (hk.stake email)
    unfold Host.stake
    rw [hrecord]
    exact hstake email

theorem modify (hk : Kept owner space id h paid t)
    (hsound : (t.record id).Sound owner → (f (t.record id)).Sound owner)
    (hstake : ∀ email, WireGuard.stake owner (f (t.record id)) (t.link space id) email ≤
      WireGuard.stake owner (t.record id) (t.link space id) email) :
    Kept owner space id h paid { t with devices := t.devices.put id (f (t.record id)) } :=
  hk.modifyPaid hsound fun email => add_le_add_left (hstake email) _

theorem kernel (hk : Kept owner space id h paid t) {k : Kernel} {link : Option Link}
    (hlink : k.links.get? (nameIn space id) = link) (hother : ∀ name, name ≠ nameIn space id → k.links.get? name = t.kernel.links.get? name)
    (hnext : t.kernel.nextIndex ≤ k.nextIndex) (hdistinct : ∀ l, link = some l → l.Distinct)
    (hstake : ∀ email, WireGuard.stake owner (t.record id) link email ≤ WireGuard.stake owner (t.record id) (t.link space id) email) :
    Kept owner space id h paid { t with kernel := k } := by
  refine ⟨⟨hk.sound.records, fun name l hl => ?_⟩, hk.records, fun name hne => ?_, hk.next.trans hnext, fun email => ?_⟩
  · by_cases hname : name = nameIn space id
    · subst hname
      exact hdistinct l (hlink.symm.trans hl)
    · dsimp only at hl
      rw [hother name hname] at hl
      exact hk.sound.links name l hl
  · exact (hother name hne).trans (hk.links name hne)
  · refine le_trans (add_le_add_left ?_ _) (hk.stake email)
    unfold Host.stake
    have hnew : ({ t with kernel := k } : Host).link space id = link := hlink
    rw [hnew]
    exact hstake email

theorem alter (hk : Kept owner space id h paid t) {f : Link → Except KernelError Link} {k : Kernel}
    (hcall : Kernel.alter (nameIn space id) f t.kernel = .ok ((), k))
    (hlink : ∀ link link', t.link space id = some link → f link = .ok link' →
      (link.Distinct → link'.Distinct) ∧ ∀ email, due owner (t.record id) link' email ≤ due owner (t.record id) link email) :
    Kept owner space id h paid { t with kernel := k } := by
  obtain ⟨link, link', hget, hf, rfl⟩ := Kernel.alter_eq_ok hcall
  obtain ⟨hdistinct, hdue⟩ := hlink link link' hget hf
  refine hk.kernel (get?_put_self ..) (fun name hne => get?_put_of_ne hne _ _) le_rfl (fun l hl => ?_) fun email => ?_
  · cases hl
    exact hdistinct (hk.sound.links _ link hget)
  · have hcur : t.link space id = some link := hget
    rw [hcur]
    exact add_le_add_right (hdue email) _

theorem syncKeeps (h : Host) (paid : String → Int) : SyncKeeps (nameIn space id) (Kept owner space id h paid) := by
  refine .of_alter fun f t k hf hk hcall => hk.alter hcall fun link link' _ hlink => ?_
  obtain ⟨hpeers, hindex⟩ := hf link link' hlink
  refine ⟨fun hd => ?_, fun email => (due_congr rfl rfl hpeers hindex email).le⟩
  unfold Link.Distinct
  rwa [hpeers]

end Kept

def Dies (halt : Halt KernelError) (t : Host) : Prop := halt = .crashed ∧ t.kernel.Distinct

theorem Kept.dies {id : Int} {h : Host} {paid : String → Int} (hk : Kept owner space id h paid t) : Dies .crashed t := ⟨rfl, hk.sound.links⟩

section Operations

variable {id : Int} {h₀ h : Host} {paid : String → Int}

theorem snapshot_bind_spec {β : Type} {name : String} {g : Except KernelError (Option Link) → Op β} {R : β → Host → Prop}
    (hk : Kept owner space id h₀ paid h) (herror : ∀ e, Spec (g (.error e)) h R Dies)
    (hok : Spec (g (.ok (h.kernel.links.get? name))) h R Dies) : Spec (call (Kernel.snapshot name) >>= g) h R Dies := by
  refine call_bind_spec herror (fun link k hcall => ?_) hk.dies
  cases hcall
  exact ⟨hok, hk.dies⟩

theorem alter_bind_spec {β : Type} {f : Link → Except KernelError Link} {g : Except KernelError Unit → Op β} {R : β → Host → Prop}
    (hk : Kept owner space id h₀ paid h)
    (hlink : ∀ link link', h.link space id = some link → f link = .ok link' →
      (link.Distinct → link'.Distinct) ∧ ∀ email, due owner (h.record id) link' email ≤ due owner (h.record id) link email)
    (herror : ∀ e, Spec (g (.error e)) h R Dies)
    (hok : ∀ link link' k, h.link space id = some link → f link = .ok link' → k.links.get? (nameIn space id) = some link' →
      Kept owner space id h₀ paid { h with kernel := k } → Spec (g (.ok ())) { h with kernel := k } R Dies) :
    Spec (call (Kernel.alter (nameIn space id) f) >>= g) h R Dies := by
  refine call_bind_spec herror (fun _ k hcall => ?_) hk.dies
  have hkept := hk.alter hcall hlink
  obtain ⟨link, link', hget, hf, rfl⟩ := Kernel.alter_eq_ok hcall
  exact ⟨hok link link' _ hget hf (get?_put_self ..) hkept, hkept.dies⟩

theorem modify_bind_spec {β : Type} {g : Unit → Op β} {R : β → Host → Prop} (hk : Kept owner space id h₀ paid h)
    (hsound : (h.record id).Sound owner → (f (h.record id)).Sound owner)
    (hstake : ∀ email, stake owner (f (h.record id)) (h.link space id) email ≤ stake owner (h.record id) (h.link space id) email)
    (hg : Kept owner space id h₀ paid { h with devices := h.devices.put id (f (h.record id)) } →
      Spec (g ()) { h with devices := h.devices.put id (f (h.record id)) } R Dies) : Spec (modifyRecord id f >>= g) h R Dies := by
  rw [modifyRecord, spec_update_bind]
  exact hg (hk.modify hsound hstake)

theorem configure_eq_ok {link' : Link} {delta : DeviceDelta} {cfgs : List PeerConfig}
    (hf : (if cfgs.any fun cfg => cfg.allowedIPs.any fun n => n.ip.is4In6 then .error .invalid else .ok (link.configure delta cfgs)) =
      (.ok link' : Except KernelError Link)) : link' = link.configure delta cfgs := by
  split at hf
  · cases hf
  · cases hf
    rfl

theorem configure_keeps (id : Int) {link' : Link} {delta : DeviceDelta} {cfgs : List PeerConfig} (hsound : h.Sound owner)
    (hlink : link' = link.configure delta cfgs) :
    (link.Distinct → link'.Distinct) ∧ ∀ email, due owner (h.record id) link' email ≤ due owner (h.record id) link email := by
  subst hlink
  exact ⟨fun hd => nodup_foldl_setPeer hd cfgs, due_configure_le (hsound.record id).counted delta cfgs⟩

theorem addRoutes_spec (hk : Kept owner space id h₀ paid h) (routes : List Prefix) :
    Spec (each (addRoute (nameIn space id)) routes) h (fun _ => Kept owner space id h₀ paid) Dies :=
  each_spec (fun p _ t ht => attemptOne_spec ((Kept.syncKeeps h₀ paid).addRoute p t · ht) (fun _ ht => ht.dies) ht) hk

theorem delRoutes_spec (hk : Kept owner space id h₀ paid h) (routes : List Prefix) :
    Spec (each (delRoute (nameIn space id)) routes) h (fun _ => Kept owner space id h₀ paid) Dies :=
  each_spec (fun p _ t ht => attemptOne_spec ((Kept.syncKeeps h₀ paid).delRoute p t · ht) (fun _ ht => ht.dies) ht) hk

theorem ensureDevice_spec {key : Key} (hk : Kept owner space id h₀ paid h) :
    Spec (ensureDevice (nameIn space id) inst key) h
      (fun r t => Kept owner space id h₀ paid t ∧ ∀ link created, r = .ok (link, created) →
        ∃ cur, t.link space id = some cur ∧ cur.peers = link.peers ∧ cur.index = link.index ∧ (created = true → link.peers = []))
      Dies := by
  have herror : ∀ (e : Failure) (t : Host), Kept owner space id h₀ paid t →
      Spec (pure (.error e) : Op (Except Failure (Link × Bool))) t
        (fun r t => Kept owner space id h₀ paid t ∧ ∀ link created, r = .ok (link, created) →
          ∃ cur, t.link space id = some cur ∧ cur.peers = link.peers ∧ cur.index = link.index ∧ (created = true → link.peers = []))
        Dies := by
    intro e t ht
    exact (spec_pure _).mpr ⟨ht, fun _ _ heq => nomatch heq⟩
  unfold ensureDevice
  refine call_bind_spec (fun e => herror _ _ hk) (fun created k hcall => ?_) hk.dies
  -- a link that is made has no peers, and one that was there keeps them
  have hensured : Kept owner space id h₀ paid { h with kernel := k } ∧
      ∃ cur, k.links.get? (nameIn space id) = some cur ∧ (created = true → cur.peers = []) := by
    unfold Kernel.ensureLink at hcall
    cases hget : h.kernel.links.get? (nameIn space id) with
    | none =>
      rw [hget] at hcall
      cases hcall
      refine ⟨hk.kernel (get?_put_self ..) (fun name hne => get?_put_of_ne hne _ _) (Nat.le_succ _) (fun l hl => ?_) fun email => ?_, _, get?_put_self .., fun _ => rfl⟩
      · cases hl
        exact nodup_nil
      · have hcur : h.link space id = none := hget
        rw [hcur]
        exact add_le_add_right (due_of_nil rfl _ email).le _
    | some link =>
      rw [hget] at hcall
      cases hcall
      refine ⟨hk.kernel (get?_put_self ..) (fun name hne => get?_put_of_ne hne _ _) le_rfl (fun l hl => ?_) fun email => ?_, _, get?_put_self .., nofun⟩
      · cases hl
        exact hk.sound.links _ link hget
      · have hcur : h.link space id = some link := hget
        rw [hcur]
        exact add_le_add_right (due_congr rfl rfl rfl rfl email).le _
  obtain ⟨hkept, cur, hcur, hnew⟩ := hensured
  refine ⟨snapshot_bind_spec hkept (fun e => herror _ _ hkept) ?_, hkept.dies⟩
  have hread : ({ h with kernel := k } : Host).kernel.links.get? (nameIn space id) = some cur := hcur
  rw [hread]
  dsimp only
  split
  · refine (spec_pure _).mpr ⟨hkept, fun link created' heq => ?_⟩
    cases heq
    exact ⟨cur, hcur, rfl, rfl, hnew⟩
  · refine alter_bind_spec hkept (fun _ _ _ hf => configure_keeps _ hkept.sound (configure_eq_ok hf)) (fun e => herror _ _ hkept) ?_
    intro link link' k' hlink hf hget hkept'
    refine (spec_pure _).mpr ⟨hkept', fun link'' created' heq => ?_⟩
    cases heq
    have hsame : link = cur := Option.some.inj (hlink.symm.trans hcur)
    obtain rfl := configure_eq_ok hf
    subst hsame
    exact ⟨_, hget, rfl, rfl, hnew⟩

theorem pushPeers_spec {current : List KernelPeer} {desired : List PeerConfig} {full : Bool} (hdesired : ∀ c ∈ desired, c.remove = false)
    (hk : Kept owner space id h₀ paid h) :
    Spec (pushPeers (nameIn space id) id (diffPeers current desired full)) h (fun _ => Kept owner space id h₀ paid) Dies := by
  unfold pushPeers
  split
  · exact (spec_pure _).mpr hk
  · refine alter_bind_spec hk (fun _ _ _ hf => configure_keeps _ hk.sound (configure_eq_ok hf)) (fun e => (spec_pure _).mpr hk) ?_
    intro link link' k hlink hf hget hkept
    obtain rfl := configure_eq_ok hf
    dsimp only
    rw [modifyRecord, spec_update_bind]
    refine (spec_pure _).mpr (hkept.modify (fun hs => hs.forgetRemoved _) fun email => ?_)
    have hcur : ({ h with kernel := k } : Host).link space id = some (link.configure {} (diffPeers current desired full)) := hget
    rw [hcur]
    unfold stake
    rw [pending_forgetRemoved, elim_some, elim_some,
      due_forgetRemoved fun c hc hremove => not_mem_diffPeers current desired hdesired full link.peers hc hremove]

theorem stake_congr {rec' : Managed} (hcounter : rec'.counter = rec.counter) (hgeneration : rec'.generation = rec.generation)
    (hpending : rec'.pending = rec.pending) (link : Option Link) (email : String) : stake owner rec' link email = stake owner rec link email := by
  unfold stake
  rw [hpending]
  cases link with
  | none => rfl
  | some link => exact congrArg (banked rec.pending email + ·) (due_congr hcounter hgeneration rfl rfl email)

theorem remove_of_desiredPeer {p : Peer} {cfg : PeerConfig} (h : desiredPeer p = .ok cfg) : cfg.remove = false := by
  unfold desiredPeer at h
  simp only [bind, Except.bind, pure, Except.pure] at h
  repeat' split at h
  all_goals first | cases h; rfl | cases h

theorem remove_desiredPeers {peers : List Peer} {c : PeerConfig} (hc : c ∈ (desiredPeers peers).1) : c.remove = false := by
  obtain ⟨s, hs, rfl⟩ := mem_map.mp hc
  exact remove_of_desiredPeer (mem_servedClients hs).2

theorem ensure_spec (hinst : inst.Owned owner) (hh : h.Sound owner) :
    Spec (ensure space inst) h (fun _ => Kept owner space inst.id h 0) Dies := by
  have hstart : Kept owner space inst.id h 0 h := .refl hh
  unfold ensure
  dsimp only
  split
  · exact (spec_pure _).mpr hstart
  · exact (spec_pure _).mpr hstart
  · next addrs _ _ =>
    refine Spec.bind (ensureDevice_spec hstart) fun r t hr => ?_
    obtain ⟨hk, hdevice⟩ := hr
    cases r with
    | error e => exact (spec_pure _).mpr hk
    | ok r =>
      obtain ⟨link, created⟩ := r
      obtain ⟨cur, hcur, hpeers, hindex, hnew⟩ := hdevice link created rfl
      dsimp only
      have hread : ∀ devices, ({ t with devices := devices } : Host).link space inst.id = some cur := fun _ => hcur
      refine modify_bind_spec hk (fun hs => ⟨hs.counted, hs.owned, hs.named, hs.credit⟩) (fun email => ?_) fun hk => ?_
      · -- a new link has a new generation, and nothing is due on it
        rw [hcur]
        cases created with
        | false => exact (stake_congr rfl rfl rfl _ email).le
        | true =>
          have hnone : cur.peers = [] := hpeers.trans (hnew rfl)
          unfold stake
          rw [elim_some, elim_some, due_of_nil hnone, due_of_nil hnone]
          rfl
      refine modify_bind_spec hk (fun hs => ?_) (fun email => ?_) fun hk => ?_
      · split
        · exact hs.drain link
        · exact hs
      · rw [hread]
        split
        · have hsame : ∀ rec : Managed, rec.drain link = rec.drain cur := by
            intro rec
            unfold Managed.drain
            rw [observe_congr hpeers hindex]
          rw [hsame]
          exact stake_drain_le (hk.sound.record inst.id) (hk.sound.links _ cur hcur) email
        · exact le_rfl
      refine Spec.bind (pushPeers_spec (fun c hc => remove_desiredPeers hc) hk) fun refused t₁ hk₁ => ?_
      refine modify_bind_spec hk₁ (fun hs => hs.reindex hinst _) (fun email => (stake_congr rfl rfl rfl _ email).le) fun hindexed => ?_
      refine Spec.bind ((Kept.syncKeeps h _).syncAddrs (fun _ ht => ht.dies) hindexed _ _) fun r t₂ hk₂ => ?_
      refine Spec.bind ((Kept.syncKeeps h _).syncRoutes (fun _ ht => ht.dies) hk₂ _ _ _ _) fun _ t₃ hk₃ => ?_
      exact (spec_pure _).mpr hk₃

theorem drainDevice_spec (hk : Kept owner space id h₀ paid h) :
    Spec (drainDevice (nameIn space id) id) h (fun _ => Kept owner space id h₀ paid) Dies := by
  unfold drainDevice
  refine snapshot_bind_spec hk (fun e => (spec_pure _).mpr hk) ?_
  cases hget : h.kernel.links.get? (nameIn space id) with
  | none => exact (spec_pure _).mpr hk
  | some link =>
    dsimp only
    rw [modifyRecord, spec_update]
    refine hk.modify (fun hs => hs.drain link) fun email => ?_
    have hcur : h.link space id = some link := hget
    rw [hcur]
    exact stake_drain_le (hk.sound.record id) (hk.sound.links _ link hget) email

theorem Kept.dropRecord (hk : Kept owner space id h₀ paid h) (hlink : h.link space id = none) (hpending : (h.record id).pending.entries = []) :
    Kept owner space id h₀ paid { h with devices := h.devices.drop id } := by
  refine ⟨⟨forall_drop hk.sound.records id, hk.sound.links⟩, fun id' hne => ?_, hk.links, hk.next, fun email => ?_⟩
  · exact (get?_drop_of_ne hne _).trans (hk.records id' hne)
  · refine le_trans (add_le_add_left (le_of_eq ?_) _) (hk.stake email)
    have hgone : ({ h with devices := h.devices.drop id } : Host).record id = {} := by
      rw [Host.record, get?_drop_self]
      rfl
    have hlink' : ({ h with devices := h.devices.drop id } : Host).link space id = none := hlink
    unfold Host.stake WireGuard.stake
    rw [hgone, hlink', hlink, banked_of_entries_nil hpending]
    rfl

theorem remove_spec (hh : h.Sound owner) (id : Int) : Spec (remove space id) h (fun _ => Kept owner space id h 0) Dies := by
  have hstart : Kept owner space id h 0 h := .refl hh
  unfold remove
  dsimp only
  rw [spec_read_bind]
  refine Spec.bind (Q := fun _ => Kept owner space id h 0) ?_ fun _ t hk => ?_
  · split
    · exact drainDevice_spec hstart
    · exact (spec_pure _).mpr hstart
  · refine call_bind_spec (fun e => (spec_pure _).mpr hk) (fun _ k hcall => ?_) hk.dies
    cases hcall
    have hdeleted : Kept owner space id h 0 { t with kernel := { t.kernel with links := t.kernel.links.drop (nameIn space id) } } := by
      refine hk.kernel (get?_drop_self ..) (fun name hne => get?_drop_of_ne hne _) le_rfl (fun _ hl => absurd hl (Option.some_ne_none _).symm) fun email => ?_
      exact add_le_add_right (elim_due_nonneg owner _ _ email) _
    refine ⟨?_, hdeleted.dies⟩
    dsimp only
    rw [spec_update_bind]
    refine (spec_pure _).mpr ?_
    dsimp only
    split
    · exact hdeleted
    · next rec hrec =>
      split
      · exact hdeleted
      · next hempty =>
        refine hdeleted.dropRecord ?_ ?_
        · exact get?_drop_self ..
        · have hrecord : t.record id = rec := by rw [Host.record, hrec, getD_some]
          exact hrecord ▸ not_not.mp hempty

theorem addPeerTo_spec {p : Peer} {want : PeerConfig} (hp : owner want.publicKey = p.email)
    (hk : Kept owner space inst.id h₀ paid h) :
    Spec (addPeerTo (nameIn space inst.id) inst p want link) h (fun _ => Kept owner space inst.id h₀ paid) Dies := by
  unfold addPeerTo
  refine modify_bind_spec hk (fun hs => ?_) (fun email => ?_) fun hk => ?_
  · exact (hs.retag inst.tag).track hp
  · refine (stake_congr ?_ ?_ ?_ _ email).le
    all_goals
      unfold Managed.track
      split <;> rfl
  · split
    · exact (spec_pure _).mpr hk
    · refine alter_bind_spec hk (fun _ _ _ hf => configure_keeps _ hk.sound (configure_eq_ok hf)) (fun e => (spec_pure _).mpr hk) ?_
      intro _ _ _ _ _ _ hk
      dsimp only
      split
      · exact (spec_pure _).mpr hk
      · exact addRoutes_spec hk _

theorem addPeer_spec {p : Peer} (hp : p.Owned owner) (hh : h.Sound owner) :
    Spec (addPeer space inst p) h (fun _ => Kept owner space inst.id h 0) Dies := by
  have hstart : Kept owner space inst.id h 0 h := .refl hh
  unfold addPeer
  dsimp only
  split
  · exact (spec_pure _).mpr hstart
  · next want hwant =>
    obtain ⟨hkey, hzero⟩ := publicKey_of_desiredPeer hwant
    refine modify_bind_spec hstart id (fun _ => le_rfl) fun hk => ?_
    rw [spec_read_bind]
    have hedit : Spec (addPeer.edit inst p (nameIn space inst.id) want) { h with devices := h.devices.put inst.id (h.record inst.id) }
        (fun _ => Kept owner space inst.id h 0) Dies := by
      unfold addPeer.edit
      refine snapshot_bind_spec hk (fun e => (spec_pure _).mpr hk) ?_
      dsimp only
      split
      · next heq => cases heq
      · exact (spec_pure _).mpr hk
      · exact addPeerTo_spec (hp _ hkey hzero) hk
    split
    · split
      · exact (spec_pure _).mpr hk
      · exact hedit
    · exact hedit

theorem removePeerFrom_spec {email : String} {key : Key} (hlink : h.link space inst.id = some link)
    (hk : Kept owner space inst.id h₀ paid h) :
    Spec (removePeerFrom (nameIn space inst.id) inst email key link) h (fun _ => Kept owner space inst.id h₀ paid) Dies := by
  have hdistinct : link.Distinct := hk.sound.links _ link hlink
  unfold removePeerFrom
  refine modify_bind_spec hk (fun hs => ?_) (fun e => ?_) fun hk => ?_
  · exact (hs.retag inst.tag).drain link
  · have hs := hk.sound.record inst.id
    rw [hlink]
    refine (stake_drain_le (hs.retag inst.tag) hdistinct e).trans ?_
    exact (stake_congr rfl rfl rfl _ e).le
  · refine alter_bind_spec hk (fun _ _ _ hf => configure_keeps _ hk.sound (configure_eq_ok hf)) (fun e => (spec_pure _).mpr hk) ?_
    intro link₁ link₂ k hlink₁ hf hget hk'
    obtain rfl := configure_eq_ok hf
    dsimp only
    refine modify_bind_spec hk' (fun hs => hs.forget email key) (fun e => ?_) fun hk'' => ?_
    · -- the peer is gone, so that its readings can be forgotten
      have hgone : key ∉ (link₁.configure {} [{ publicKey := key, remove := true }]).peers.map KernelPeer.publicKey := by
        refine not_mem_foldl_removals (fun c hc => ?_) (.inl mem_cons_self)
        rw [mem_singleton.mp hc]
      have hcur : ∀ devices, ({ devices := devices, kernel := k } : Host).link space inst.id =
          some (link₁.configure {} [{ publicKey := key, remove := true }]) := fun _ => hget
      rw [hcur]
      refine le_of_eq ?_
      unfold stake
      rw [elim_some, elim_some]
      refine congrArg₂ (· + ·) rfl ?_
      refine Eq.trans ?_ (due_forgetKey hgone e)
      exact due_congr rfl rfl rfl rfl e
    · split
      · exact (spec_pure _).mpr hk''
      · split
        · exact (spec_pure _).mpr hk''
        · exact delRoutes_spec hk'' _

theorem removePeer_spec (hh : h.Sound owner) (inst : Instance) (email : String) (fallbackKey : KeyText) :
    Spec (removePeer space inst email fallbackKey) h (fun _ => Kept owner space inst.id h 0) Dies := by
  have hstart : Kept owner space inst.id h 0 h := .refl hh
  unfold removePeer
  dsimp only
  rw [spec_read_bind]
  split
  · exact (spec_pure _).mpr hstart
  · next key _ =>
    refine modify_bind_spec hstart id (fun _ => le_rfl) fun hk => ?_
    refine snapshot_bind_spec hk (fun e => (spec_pure _).mpr hk) ?_
    dsimp only
    cases hget : h.kernel.links.get? (nameIn space inst.id) with
    | some link => exact removePeerFrom_spec hget hk
    | none =>
      refine modify_bind_spec hk (fun hs => hs.forget email key) (fun e => ?_) fun hk' => (spec_pure _).mpr hk'
      have hcur : ∀ devices, ({ h with devices := devices } : Host).link space inst.id = none := fun _ => hget
      have hpending : ∀ rec : Managed, (rec.forget email key).pending = rec.pending := fun _ => rfl
      rw [hcur, stake, stake, hpending, elim_none, elim_none]

def handedTo (out : List Traffic) (email : String) : Int := ((out.filter fun t => t.email = email).map Traffic.bytes).sum

theorem handedTo_flatten {billed : Table String Traffic} (h : Named billed) (email : String) :
    handedTo (Managed.flatten billed) email = banked billed email := by
  have htotal : handedTo (Managed.flatten billed) email = billed.total fun _ t => if t.email = email then t.bytes else 0 := by
    unfold handedTo Managed.flatten total
    generalize billed.entries = entries
    induction entries with
    | nil => rfl
    | cons e entries ih =>
      rw [map_cons, filter_cons, map_cons, sum_cons, ← ih]
      dsimp only
      split
      · next heq =>
        rw [map_cons, sum_cons, if_pos (of_decide_eq_true heq)]
      · next hne =>
        rw [if_neg fun heq => hne (decide_eq_true heq), zero_add]
  have hothers : ((billed.drop email).total fun _ t => if t.email = email then t.bytes else 0) = 0 := by
    refine total_eq_zero fun k t ht => if_neg fun heq => ?_
    obtain ⟨hne, ht⟩ := get?_drop_eq_some.mp ht
    exact hne ((h k t ht).symm.trans heq)
  rw [htotal, total_eq_add_drop _ email, hothers, add_zero, banked]
  cases hget : billed.get? email with
  | none => rfl
  | some t =>
    simp only [elim_some, map_some, getD_some]
    rw [if_pos (h email t hget)]

theorem stake_takePending (rec : Managed) (link : Option Link) (email : String) :
    stake owner rec.takePending link email + banked rec.pending email = stake owner rec link email := by
  have hbanked : banked rec.takePending.pending email = 0 := rfl
  unfold stake
  rw [hbanked]
  cases link with
  | none => simp
  | some link =>
    have hdue : due owner rec.takePending link email = due owner rec link email := due_congr rfl rfl rfl rfl email
    simp only [elim_some]
    omega

theorem Managed.Sound.takePending (h : rec.Sound owner) : rec.takePending.Sound owner := by
  refine ⟨h.counted, h.owned, fun email t ht => ?_, fun email => le_rfl⟩
  have hnone : (∅ : Table String Traffic).get? email = some t := ht
  simp at hnone

theorem scrapeDevice_spec (hh : h.Sound owner) (id : Int) :
    Spec (scrapeDevice space id) h (fun out t => Kept owner space id h (handedTo out) t) Dies := by
  have hstart : Kept owner space id h 0 h := .refl hh
  unfold scrapeDevice
  rw [spec_read_bind]
  cases hget : h.devices.get? id with
  | none => exact (spec_pure _).mpr hstart
  | some rec =>
    have hrecord : h.record id = rec := by rw [Host.record, hget, getD_some]
    have hsound : rec.Sound owner := hrecord ▸ hh.record id
    dsimp only
    rw [modifyRecord, spec_update_bind]
    -- what was banked is taken, whatever becomes of the read
    have htaken : Kept owner space id h (handedTo (Managed.flatten rec.pending))
        { h with devices := h.devices.put id (h.record id).takePending } := by
      refine hstart.modifyPaid (f := Managed.takePending) Managed.Sound.takePending fun email => ?_
      rw [handedTo_flatten hsound.named, hrecord, stake_takePending, Pi.zero_apply, add_zero]
    refine snapshot_bind_spec htaken (fun e => (spec_pure _).mpr htaken) ?_
    dsimp only
    cases hlink : h.kernel.links.get? (nameIn space id) with
    | none => exact (spec_pure _).mpr htaken
    | some link =>
      dsimp only
      rw [modifyRecord, spec_update_bind]
      refine (spec_pure _).mpr ?_
      have hobserved := hsound.observe link
      refine htaken.modifyPaid (f := fun _ => (rec.observe link).takePending) (fun _ => hobserved.takePending) fun email => ?_
      have hcur : ∀ devices, ({ h with devices := devices } : Host).link space id = some link := fun _ => hlink
      have hafter : ∀ r, ({ h with devices := h.devices.put id r } : Host).record id = r := by
        intro r
        rw [Host.record, get?_put_self, getD_some]
      rw [handedTo_flatten hobserved.named, handedTo_flatten hsound.named, hcur, hafter, hrecord, stake_takePending, stake_takePending]
      exact stake_observe_le hsound (hh.links _ link hlink) email

structure Settled (owner : Key → String) (space : String) (h t : Host) : Prop where
  sound : t.Sound owner
  stake : ∀ id email, t.stake owner space id email ≤ h.stake owner space id email

theorem Kept.stake_of_ne (hk : Kept owner space id h paid t) {id' : Int} (hne : id' ≠ id) (email : String) :
    t.stake owner space id' email = h.stake owner space id' email := by
  have hlink : t.link space id' = h.link space id' := hk.links _ fun heq => hne (nameIn_inj heq)
  unfold Host.stake
  rw [hlink, Host.record, hk.records id' hne]
  rfl

theorem Kept.settled (hk : Kept owner space id h 0 t) : Settled owner space h t := by
  refine ⟨hk.sound, fun id' email => ?_⟩
  by_cases heq : id' = id
  · subst heq
    simpa using hk.stake email
  · exact (hk.stake_of_ne heq email).le

theorem Settled.trans {u : Host} (h₁ : Settled owner space h t) (h₂ : Settled owner space t u) : Settled owner space h u :=
  ⟨h₂.sound, fun id email => (h₂.stake id email).trans (h₁.stake id email)⟩

theorem reconcile_spec (hh : h.Sound owner) {desired : List Instance} (hdesired : ∀ inst ∈ desired, inst.Owned owner) (retain : List Int) :
    Spec (reconcile space desired retain) h (fun _ => Settled owner space h) Dies := by
  have hstart : Settled owner space h h := ⟨hh, fun _ _ => le_rfl⟩
  unfold reconcile
  dsimp only
  rw [spec_read_bind]
  refine Spec.bind (Q := fun _ => Settled owner space h) ?_ fun names t ht => ?_
  · refine call_bind_spec (fun e => (spec_pure _).mpr hstart) (fun names k hcall => ?_) ⟨rfl, hh.links⟩
    cases hcall
    exact ⟨(spec_pure _).mpr hstart, rfl, hh.links⟩
  · refine Spec.bind (each_spec (fun id _ t ht => ?_) ht) fun _ t ht => ?_
    · exact (remove_spec ht.sound id).mono (fun _ u hu => ht.trans hu.settled) fun _ _ hu => hu
    refine Spec.bind (each_spec (fun inst hinst t ht => ?_) ht) fun _ t ht => (spec_pure _).mpr ht
    exact (ensure_spec (hdesired inst hinst) ht.sound).mono (fun _ u hu => ht.trans hu.settled) fun _ _ hu => hu

end Operations

def Host.relink (space : String) (id : Int) (link : Link) (h : Host) : Host :=
  { h with kernel := { h.kernel with links := h.kernel.links.put (nameIn space id) link } }

theorem Host.link_relink_self (h : Host) (id : Int) (link : Link) : (h.relink space id link).link space id = some link :=
  get?_put_self ..

theorem Host.link_relink_of_ne (h : Host) {id id' : Int} (hne : id' ≠ id) (link : Link) :
    (h.relink space id link).link space id' = h.link space id' :=
  get?_put_of_ne (fun hname => hne (nameIn_inj hname)) _ _

theorem Host.record_relink (h : Host) (id id' : Int) (link : Link) : (h.relink space id link).record id' = h.record id' := rfl

def KernelPeer.bump (p : KernelPeer) (up down : Nat) : KernelPeer :=
  { p with receiveBytes := p.receiveBytes + up, transmitBytes := p.transmitBytes + down }

def Link.carry (key : Key) (up down : Nat) (link : Link) : Link :=
  { link with peers := link.peers.map fun p => if p.publicKey = key then p.bump up down else p }

inductive Event where
  | ensure (inst : Instance) (fates : List Fate)
  | addPeer (inst : Instance) (p : Peer) (fates : List Fate)
  | removePeer (inst : Instance) (email : String) (fallbackKey : KeyText) (fates : List Fate)
  | remove (id : Int) (fates : List Fate)
  | reconcile (desired : List Instance) (retain : List Int) (fates : List Fate)
  | scrape (id : Int) (fates : List Fate)
  | traffic (id : Int) (key : Key) (up down : Nat)
  | configured (name : String) (cfgs : List PeerConfig)
  | deleted (name : String)
  | created (name : String) (mtu : Int)
  | restarted

def Event.Owned (owner : Key → String) : Event → Prop
  | .ensure inst _ => inst.Owned owner
  | .addPeer _ p _ => p.Owned owner
  | .reconcile desired _ _ => ∀ inst ∈ desired, inst.Owned owner
  | _ => True

/-- A host, what was handed out for each email, and what its peers moved. -/
structure Books where
  host : Host
  handed : Int → String → Int := fun _ _ => 0
  moved : Int → String → Int := fun _ _ => 0

namespace Books

def run {α : Type} (b : Books) (x : Op α) (fates : List Fate) (out : α → Int → String → Int) : Books :=
  x.settle b.host fates (fun a t => { b with host := t, handed := fun id email => b.handed id email + out a id email })
    fun _ t => { b with host := { kernel := t.kernel } }

/-- A peer moves bytes, which count once there is a baseline. -/
def carry (owner : Key → String) (space : String) (b : Books) (id : Int) (key : Key) (up down : Nat) : Books :=
  match b.host.link space id with
  | none => b
  | some link =>
    if key ∈ link.peers.map KernelPeer.publicKey then
      { b with
        host := b.host.relink space id (link.carry key up down)
        moved := fun id' email => b.moved id' email +
          if id' = id ∧ email = owner key ∧ (b.host.record id).counter.primed = true then (up + down : Int) else 0 }
    else b

def step (owner : Key → String) (space : String) (b : Books) : Event → Books
  | .ensure inst fates => b.run (WireGuard.ensure space inst) fates fun _ _ _ => 0
  | .addPeer inst p fates => b.run (WireGuard.addPeer space inst p) fates fun _ _ _ => 0
  | .removePeer inst email fallbackKey fates => b.run (WireGuard.removePeer space inst email fallbackKey) fates fun _ _ _ => 0
  | .remove id fates => b.run (WireGuard.remove space id) fates fun _ _ _ => 0
  | .reconcile desired retain fates => b.run (WireGuard.reconcile space desired retain) fates fun _ _ _ => 0
  | .scrape id fates => b.run (scrapeDevice space id) fates fun out id' email => if id' = id then handedTo out email else 0
  | .traffic id key up down => b.carry owner space id key up down
  | .configured name cfgs =>
    match b.host.kernel.links.get? name with
    | none => b
    | some link => { b with host.kernel.links := b.host.kernel.links.put name (link.configure {} cfgs) }
  | .deleted name => { b with host.kernel.links := b.host.kernel.links.drop name }
  | .created name mtu => { b with host.kernel := b.host.kernel.create name mtu }
  | .restarted => { b with host.devices := ∅ }

/-- What was and can be billed is no more than what was moved. -/
structure Fair (owner : Key → String) (space : String) (b : Books) : Prop where
  sound : b.host.Sound owner
  billed : ∀ id email, b.handed id email + b.host.stake owner space id email ≤ b.moved id email

theorem stake_nonneg (space : String) {h : Host} (hh : h.Sound owner) (id : Int) (email : String) : 0 ≤ h.stake owner space id email := by
  exact add_nonneg ((hh.record id).credit email) (elim_due_nonneg owner _ _ email)

theorem stake_start (kernel : Kernel) (id : Int) (email : String) : ({ kernel := kernel } : Host).stake owner space id email = 0 := by
  have hrecord : ({ kernel := kernel } : Host).record id = {} := rfl
  have hdue : ∀ link : Link, due owner {} link email = 0 := by
    intro link
    refine sum_eq_zero fun x hx => ?_
    obtain ⟨p, -, rfl⟩ := mem_map.mp hx
    have hcharge : peerCharge {} link p = 0 := rfl
    rw [hcharge]
    exact ite_self 0
  have hbanked : banked ({} : Managed).pending email = 0 := rfl
  unfold Host.stake stake
  rw [hrecord, hbanked]
  cases ({ kernel := kernel } : Host).link space id with
  | none => rfl
  | some link => rw [elim_some, hdue, add_zero]

theorem sound_start {kernel : Kernel} (h : kernel.Distinct) : ({ kernel := kernel } : Host).Sound owner :=
  ⟨fun id rec hrec => by simp at hrec, h⟩

namespace Fair

variable {b : Books}

theorem settle (h : b.Fair owner space) (ht : Settled owner space b.host t) : ({ b with host := t } : Books).Fair owner space :=
  ⟨ht.sound, fun id email => (add_le_add_right (ht.stake id email) _).trans (h.billed id email)⟩

theorem restart (h : b.Fair owner space) {kernel : Kernel} (hk : kernel.Distinct) : ({ b with host := { kernel := kernel } } : Books).Fair owner space := by
  refine ⟨sound_start hk, fun id email => ?_⟩
  have hle := h.billed id email
  have hnonneg := stake_nonneg space h.sound id email
  dsimp only
  rw [stake_start]
  omega

theorem run {α : Type} (h : b.Fair owner space) {x : Op α} {out : α → Int → String → Int} (fates : List Fate)
    (hx : Spec x b.host (fun a t => t.Sound owner ∧ ∀ id email, t.stake owner space id email + out a id email ≤ b.host.stake owner space id email)
      Dies) : (b.run x fates out).Fair owner space := by
  refine Spec.settle hx (fun a t ht => ⟨ht.1, fun id email => ?_⟩) (fun _ t ht => h.restart ht.2) fates
  have hle := h.billed id email
  have hstake := ht.2 id email
  dsimp only
  omega

theorem runSettled {α : Type} (h : b.Fair owner space) {x : Op α} (fates : List Fate)
    (hx : Spec x b.host (fun _ t => Settled owner space b.host t) Dies) : (b.run x fates fun _ _ _ => 0).Fair owner space :=
  h.run fates (hx.mono (fun _ _ ht => ⟨ht.sound, fun id email => by simpa using ht.stake id email⟩) fun _ _ ht => ht)

/-- The link of one name is changed from outside, and no inbound gains by it. -/
theorem relink (h : b.Fair owner space) {k : Kernel} {name : String} {link : Option Link} (hself : k.links.get? name = link)
    (hother : ∀ name', name' ≠ name → k.links.get? name' = b.host.kernel.links.get? name') (hdistinct : ∀ l, link = some l → l.Distinct)
    (hdue : ∀ id email, link.elim 0 (due owner (b.host.record id) · email) ≤
      (b.host.kernel.links.get? name).elim 0 (due owner (b.host.record id) · email)) :
    ({ b with host.kernel := k } : Books).Fair owner space := by
  refine h.settle ⟨⟨h.sound.records, fun name' l hl => ?_⟩, fun id email => ?_⟩
  · by_cases hname : name' = name
    · subst hname
      exact hdistinct l (hself.symm.trans hl)
    · exact h.sound.links name' l ((hother name' hname).symm.trans hl)
  · refine add_le_add_right ?_ _
    by_cases hname : nameIn space id = name
    · subst hname
      have hnew : ({ b.host with kernel := k } : Host).link space id = link := hself
      rw [hnew]
      exact hdue id email
    · have hsame : ({ b.host with kernel := k } : Host).link space id = b.host.link space id := hother _ hname
      rw [hsame]
      exact le_rfl

end Fair

theorem keys_carry (link : Link) (key : Key) (up down : Nat) :
    (link.carry key up down).peers.map KernelPeer.publicKey = link.peers.map KernelPeer.publicKey := by
  unfold Link.carry
  rw [List.map_map]
  refine List.map_congr_left fun p _ => ?_
  dsimp only [Function.comp_apply]
  split <;> rfl

theorem peerCharge_carry_le (h : Nonneg rec.counter) (link : Link) (p : KernelPeer) (up down : Nat) :
    peerCharge rec link (p.bump up down) ≤ peerCharge rec link p + if rec.counter.primed then (up + down : Int) else 0 := by
  have hcharge : ∀ (key : String) (value : Int) (more : Nat), charge rec.counter (epochOf link rec.generation) key (value + more) ≤
      charge rec.counter (epochOf link rec.generation) key value + if rec.counter.primed then (more : Int) else 0 :=
    fun key value more => charge_add_le h more
  have hup := hcharge (subject p.publicKey true) (p.count true) up
  have hdown := hcharge (subject p.publicKey false) (p.count false) down
  unfold peerCharge
  simp only [KernelPeer.bump, KernelPeer.count, if_true, Bool.false_eq_true, if_false, Nat.cast_add] at hup hdown ⊢
  split at hup
  · next hprimed =>
    rw [if_pos hprimed] at hdown ⊢
    omega
  · next hprimed =>
    rw [if_neg hprimed] at hdown ⊢
    omega

theorem sum_map_of_key {peers : List KernelPeer} (hnodup : (peers.map KernelPeer.publicKey).Nodup) {p : KernelPeer} (hp : p ∈ peers)
    (f g : KernelPeer → Int) :
    (peers.map fun q => if q.publicKey = p.publicKey then g q else f q).sum = (peers.map f).sum + (g p - f p) := by
  induction peers with
  | nil => cases hp
  | cons q peers ih =>
    rw [map_cons, nodup_cons] at hnodup
    rw [map_cons, map_cons, sum_cons, sum_cons]
    rcases mem_cons.mp hp with rfl | hp
    · have hrest : (peers.map fun q => if q.publicKey = p.publicKey then g q else f q) = peers.map f := by
        refine map_congr_left fun q hq => if_neg fun heq => ?_
        exact hnodup.1 (heq ▸ mem_map_of_mem hq)
      rw [hrest, if_pos rfl]
      omega
    · have hne : q.publicKey ≠ p.publicKey := fun heq => hnodup.1 (heq ▸ mem_map_of_mem hp)
      rw [ih hnodup.2 hp, if_neg hne]
      omega

theorem due_carry (owner : Key → String) (rec : Managed) (hlink : link.Distinct) {p : KernelPeer} (hp : p ∈ link.peers)
    (up down : Nat) (email : String) :
    due owner rec (link.carry p.publicKey up down) email =
      due owner rec link email + if owner p.publicKey = email then peerCharge rec link (p.bump up down) - peerCharge rec link p else 0 := by
  have hsum := sum_map_of_key hlink hp (fun q => if owner q.publicKey = email then peerCharge rec link q else 0)
    fun q => if owner q.publicKey = email then peerCharge rec link (q.bump up down) else 0
  have hdue : due owner rec (link.carry p.publicKey up down) email = (link.peers.map fun q => if q.publicKey = p.publicKey then
      (if owner q.publicKey = email then peerCharge rec link (q.bump up down) else 0)
      else if owner q.publicKey = email then peerCharge rec link q else 0).sum := by
    unfold due Link.carry
    rw [List.map_map]
    refine congrArg List.sum (map_congr_left fun q _ => ?_)
    dsimp only [Function.comp_apply]
    split <;> rfl
  rw [hdue, hsum, due]
  refine congrArg₂ (· + ·) rfl ?_
  split
  · rfl
  · exact sub_zero 0

theorem due_carry_le (owner : Key → String) (h : Nonneg rec.counter) (hlink : link.Distinct) {key : Key}
    (hkey : key ∈ link.peers.map KernelPeer.publicKey) (up down : Nat) (email : String) :
    due owner rec (link.carry key up down) email ≤
      due owner rec link email + if email = owner key ∧ rec.counter.primed = true then (up + down : Int) else 0 := by
  obtain ⟨p, hp, rfl⟩ := mem_map.mp hkey
  have hcharge := peerCharge_carry_le h link p up down
  rw [due_carry owner rec hlink hp]
  refine add_le_add_right ?_ _
  by_cases howner : owner p.publicKey = email
  · have hcond : (email = owner p.publicKey ∧ rec.counter.primed = true) ↔ rec.counter.primed = true := and_iff_right howner.symm
    rw [if_pos howner, if_congr hcond rfl rfl]
    exact sub_left_le_of_le_add hcharge
  · rw [if_neg howner, if_neg fun h => howner h.1.symm]

theorem carry_fair {b : Books} (h : b.Fair owner space) (id : Int) (key : Key) (up down : Nat) :
    (b.carry owner space id key up down).Fair owner space := by
  unfold carry
  cases hlink : b.host.link space id with
  | none => exact h
  | some link =>
    dsimp only
    split
    · next hkey =>
      have hdistinct : link.Distinct := h.sound.links _ link hlink
      refine ⟨⟨h.sound.records, forall_put ?_ h.sound.links⟩, fun id' email => ?_⟩
      · unfold Link.Distinct
        rwa [keys_carry]
      · have hle := h.billed id' email
        dsimp only
        unfold Host.stake at hle ⊢
        rw [Host.record_relink]
        by_cases heq : id' = id
        · subst heq
          have hdue := due_carry_le owner (h.sound.record id').counted hdistinct hkey up down email
          rw [hlink] at hle
          rw [Host.link_relink_self]
          unfold stake at hle ⊢
          rw [elim_some] at hle ⊢
          simp only [true_and]
          omega
        · rw [Host.link_relink_of_ne _ heq, if_neg fun hand => heq hand.1, add_zero]
          exact hle
    · exact h

theorem step_fair {b : Books} {e : Event} (he : e.Owned owner) (h : b.Fair owner space) : (b.step owner space e).Fair owner space := by
  have hsettled : ∀ {id : Int} {α : Type} {x : Op α}, Spec x b.host (fun _ t => Kept owner space id b.host 0 t) Dies →
      Spec x b.host (fun _ t => Settled owner space b.host t) Dies := fun hx => hx.mono (fun _ _ ht => ht.settled) fun _ _ ht => ht
  cases e with
  | ensure inst fates => exact h.runSettled fates (hsettled (ensure_spec he h.sound))
  | addPeer inst p fates => exact h.runSettled fates (hsettled (addPeer_spec he h.sound))
  | removePeer inst email fallbackKey fates => exact h.runSettled fates (hsettled (removePeer_spec h.sound inst email fallbackKey))
  | remove id fates => exact h.runSettled fates (hsettled (remove_spec h.sound id))
  | reconcile desired retain fates => exact h.runSettled fates (reconcile_spec h.sound he retain)
  | scrape id fates =>
    refine h.run fates ((scrapeDevice_spec h.sound id).mono (fun out t ht => ⟨ht.sound, fun id' email => ?_⟩) fun _ _ ht => ht)
    split
    · next heq =>
      subst heq
      exact ht.stake email
    · next hne => rw [ht.stake_of_ne hne, add_zero]
  | traffic id key up down => exact carry_fair h id key up down
  | configured name cfgs =>
    simp only [step]
    cases hget : b.host.kernel.links.get? name with
    | none => exact h
    | some link =>
      refine h.relink (get?_put_self ..) (fun _ hne => get?_put_of_ne hne _ _) (fun l hl => ?_) fun id email => ?_
      · cases hl
        exact nodup_foldl_setPeer (h.sound.links name link hget) cfgs
      · rw [hget]
        exact due_configure_le (h.sound.record id).counted {} cfgs email
  | deleted name =>
    refine h.relink (get?_drop_self ..) (fun _ hne => get?_drop_of_ne hne _) (fun _ hl => absurd hl (Option.some_ne_none _).symm) fun id email => ?_
    exact elim_due_nonneg owner _ _ email
  | created name mtu =>
    refine h.relink (get?_put_self ..) (fun _ hne => get?_put_of_ne hne _ _) (fun l hl => ?_) fun id email => ?_
    · cases hl
      exact nodup_nil
    · rw [elim_some, due_of_nil rfl]
      exact elim_due_nonneg owner _ _ email
  | restarted => exact h.restart h.sound.links

end Books

/-- Whatever happens to a host, what its inbounds hand out for an email is at most what the peers of the email moved since the
counters have their baselines. -/
theorem billed_at_most_carried (owner : Key → String) (space : String) (kernel : Kernel) (hkernel : kernel.Distinct) (events : List Event)
    (hevents : ∀ e ∈ events, e.Owned owner) (inbounds : Finset Int) (email : String) :
    ∑ id ∈ inbounds, (Run.after (Books.step owner space) { host := { kernel := kernel } } events).handed id email ≤
      ∑ id ∈ inbounds, (Run.after (Books.step owner space) { host := { kernel := kernel } } events).moved id email := by
  have hstart : Books.Fair owner space { host := { kernel := kernel } } := by
    refine ⟨Books.sound_start hkernel, fun id email => ?_⟩
    rw [Books.stake_start]
    exact le_rfl
  have hfair : Books.Fair owner space (Run.after (Books.step owner space) { host := { kernel := kernel } } events) :=
    Run.inv_after_of_mem (I := Books.Fair owner space) (fun b e he hb => Books.step_fair (hevents e he) hb) hstart
  refine Finset.sum_le_sum fun id _ => ?_
  have hle := hfair.billed id email
  have hnonneg := Books.stake_nonneg space hfair.sound id email
  omega

def Sample.ownerOf (key : Key) : String := if key = Sample.keyA then "a" else "b"

theorem Sample.owned_two : Sample.two.Owned Sample.ownerOf := by
  intro p hp key hkey _
  simp only [Sample.two, Sample.inbound, mem_cons, not_mem_nil, or_false] at hp
  rcases hp with rfl | rfl
  all_goals
    cases hkey
    decide +kernel

/-- An inbound that is scraped, carries traffic and is scraped again: what it hands out is within what was moved. -/
theorem billed_at_most_carried_two :
    let events : List Event := [.ensure Sample.two [], .scrape 1 [], .traffic 1 Sample.keyA 5 7, .traffic 1 Sample.keyB 1 1, .scrape 1 []]
    let books := Run.after (Books.step Sample.ownerOf "pwg") { host := { kernel := {} } } events
    books.handed 1 "a" = 12 ∧ ∑ id ∈ {1}, books.handed id "a" ≤ ∑ id ∈ {1}, books.moved id "a" := by
  intro events books
  have hevents : ∀ e ∈ events, e.Owned Sample.ownerOf := by
    intro e he
    simp only [events, mem_cons, not_mem_nil, or_false] at he
    rcases he with rfl | rfl | rfl | rfl | rfl
    · exact Sample.owned_two
    all_goals trivial
  exact ⟨by decide +kernel, billed_at_most_carried Sample.ownerOf "pwg" {} (fun name link hlink => by simp at hlink) events hevents {1} "a"⟩

end WireGuard

end Pui
