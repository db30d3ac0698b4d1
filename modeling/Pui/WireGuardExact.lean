import Pui.WireGuardBilling

/-!
# What a WireGuard inbound bills exactly

A record fits the device of its inbound when no reading is above the count of a peer (`Seated`).
-/

namespace Pui

open Table Crash Crash.Prog List Option

namespace WireGuard

variable {owner : Key → String} {keyOf : String → Key} {peers : List KernelPeer} {rec : Managed} {link : Link} {p : KernelPeer}
  {cfg : PeerConfig} {email : String} {key : Key} {acc : Table String Key × Table Key String} {owners : Table Key String}

def epochAt (index generation : Nat) : String := toString index ++ ":" ++ toString generation

theorem epochOf_eq (link : Link) (generation : Nat) : epochOf link generation = epochAt link.index generation := rfl

theorem toList_epochAt (index generation : Nat) : (epochAt index generation).toList = Nat.toDigits 10 index ++ ':' :: Nat.toDigits 10 generation := by
  simp [epochAt, String.toList_append]

theorem epochAt_inj {index index' generation generation' : Nat} (h : epochAt index generation = epochAt index' generation') :
    index = index' := by
  have hcut : ∀ i g, (epochAt i g).toList.takeWhile (fun c => decide (c ≠ ':')) = Nat.toDigits 10 i := by
    intro i g
    have hdigits : ∀ c ∈ Nat.toDigits 10 i, decide (c ≠ ':') = true := by
      intro c hc
      have hdigit := Nat.isDigit_of_mem_toDigits (b := 10) (by decide) (by decide) hc
      rw [decide_eq_true_eq]
      rintro rfl
      cases hdigit
    rw [toList_epochAt, takeWhile_append_of_pos hdigits]
    simp
  have hdigits : Nat.toDigits 10 index = Nat.toDigits 10 index' := by rw [← hcut index generation, h, hcut]
  have hnum := congrArg (fun ds => Nat.ofDigitChars 10 ds 0) hdigits
  simpa using hnum

theorem epochAt_ne_empty (index generation : Nat) : epochAt index generation ≠ "" := by
  intro h
  have hlist := congrArg String.toList h
  rw [toList_epochAt] at hlist
  simp at hlist

theorem last_enter (epoch : String) (c : Counter) : (c.enter epoch).last = if c.restarted epoch then ∅ else c.last := by
  unfold Counter.enter
  dsimp only
  split <;> split <;> rfl

structure Dated (c : Counter) (bound : Nat) : Prop where
  fresh : c.primed = false → ∀ k, c.last.get? k = none
  told : c.primed = true → ∃ index generation, index < bound ∧ c.epoch = epochAt index generation

namespace Dated

variable {c : Counter} {bound : Nat}

theorem mono {bound' : Nat} (h : Dated c bound) (hle : bound ≤ bound') : Dated c bound' := by
  refine ⟨h.fresh, fun hprimed => ?_⟩
  obtain ⟨index, generation, hlt, heq⟩ := h.told hprimed
  exact ⟨index, generation, hlt.trans_le hle, heq⟩

theorem enter (h : Dated c bound) {index : Nat} (hindex : bound ≤ index) (generation : Nat) (k : String) :
    (c.enter (epochAt index generation)).last.get? k = none := by
  rw [last_enter]
  cases hprimed : c.primed with
  | false =>
    split
    · simp
    · exact h.fresh hprimed k
  | true =>
    obtain ⟨old, g, hlt, heq⟩ := h.told hprimed
    have hne : epochAt index generation ≠ epochAt old g := fun hsame => by
      have := epochAt_inj hsame
      omega
    have hrestarted : c.restarted (epochAt index generation) = true := by
      simp [Counter.restarted, hprimed, heq, epochAt_ne_empty, hne]
    rw [if_pos hrestarted]
    simp

theorem observe (hindex : link.index < bound) (generation : Nat) (readings : Table String Int) :
    Dated (c.observe (epochOf link generation) readings).2 bound := by
  have hobserved := Counter.observed (epochOf link generation) readings c
  refine ⟨fun hprimed => ?_, fun _ => ⟨link.index, generation, hindex, ?_⟩⟩
  · rw [hobserved.primed] at hprimed
    cases hprimed
  · rw [hobserved.epoch, Counter.enter_epoch]
    exact if_pos (epochAt_ne_empty _ _)

theorem forget (h : Dated c bound) (key : String) : Dated (c.forget key) bound := by
  refine ⟨fun hprimed k => ?_, h.told⟩
  have hdrop : (c.forget key).last.get? k = if k = key then none else c.last.get? k := get?_drop ..
  rw [hdrop, h.fresh hprimed k]
  exact ite_self _

end Dated

def Behind (c : Counter) (epoch : String) (peers : List KernelPeer) : Prop :=
  ∀ key up v, (c.enter epoch).last.get? (subject key up) = some v → ∃ p ∈ peers, p.publicKey = key ∧ v ≤ p.count up

theorem Behind.observe {c : Counter} {epoch : String} (h : Behind c epoch peers)
    (hnodup : (peers.map KernelPeer.publicKey).Nodup) : Behind (c.observe epoch (peers.foldl readPeer ∅)).2 epoch peers := by
  intro key up v hv
  rw [(Counter.same_enter_observe epoch _ c).last, (Counter.observed epoch _ c).last] at hv
  split at hv
  · cases hv
  · rcases or_eq_some_iff.mp hv with hread | ⟨-, hold⟩
    · obtain ⟨hread, -⟩ := filter_eq_some_iff.mp hread
      by_cases hmem : key ∈ peers.map KernelPeer.publicKey
      · obtain ⟨p, hp, rfl⟩ := mem_map.mp hmem
        rw [get?_readings_of_mem hnodup hp] at hread
        cases hread
        exact ⟨p, hp, rfl, le_rfl⟩
      · rw [get?_foldl_readPeer_of_not_mem hmem] at hread
        simp at hread
    · exact h key up v hold

theorem charge_add {c : Counter} {epoch key : String} {value : Int} (hlast : ∀ v, (c.enter epoch).last.get? key = some v → v ≤ value)
    (hprimed : c.primed = true) (more : Nat) : charge c epoch key (value + more) = charge c epoch key value + more := by
  have hbase : Counter.baseline (c.enter epoch).last key (value + more) = Counter.baseline (c.enter epoch).last key value := by
    unfold Counter.baseline
    cases hget : (c.enter epoch).last.get? key with
    | none => rfl
    | some v =>
      have hle := hlast v hget
      dsimp only
      rw [if_neg (by omega), if_neg (by omega)]
  unfold charge
  rw [if_pos hprimed, if_pos hprimed, hbase]
  omega

theorem peerCharge_of_unprimed (h : rec.counter.primed = false) (link : Link) (p : KernelPeer) : peerCharge rec link p = 0 := by
  simp [peerCharge, charge, h]

theorem due_of_unprimed (h : rec.counter.primed = false) (link : Link) (email : String) : due owner rec link email = 0 := by
  refine sum_eq_zero fun x hx => ?_
  obtain ⟨p, -, rfl⟩ := mem_map.mp hx
  rw [peerCharge_of_unprimed h]
  exact ite_self 0

theorem peerCharge_bump (hprimed : rec.counter.primed = true) (hp : p ∈ link.peers)
    (hnodup : link.Distinct) (h : Behind rec.counter (epochOf link rec.generation) link.peers) (up down : Nat) :
    peerCharge rec link (p.bump up down) = peerCharge rec link p + (up + down) := by
  have hlast : ∀ dir v, (rec.counter.enter (epochOf link rec.generation)).last.get? (subject p.publicKey dir) = some v → v ≤ p.count dir := by
    intro dir v hv
    obtain ⟨q, hq, hkey, hle⟩ := h p.publicKey dir v hv
    rwa [← inj_on_of_nodup_map hnodup hq hp hkey]
  have hup := charge_add (hlast true) hprimed up
  have hdown := charge_add (hlast false) hprimed down
  unfold peerCharge
  simp only [KernelPeer.bump, KernelPeer.count, if_true, Bool.false_eq_true, if_false, Nat.cast_add] at hup hdown ⊢
  omega

theorem mem_setPeer (hp : p ∈ setPeer peers cfg) : (∃ q ∈ peers, p.Alike q) ∨ p.Alike (.fresh cfg.publicKey) := by
  have hwritten : p ∈ peers.map (KernelPeer.write cfg) → ∃ q ∈ peers, p.Alike q := by
    intro hmem
    obtain ⟨q, hq, rfl⟩ := mem_map.mp hmem
    exact ⟨q, hq, q.alike_write cfg⟩
  unfold setPeer at hp
  split at hp
  · exact .inl ⟨p, (mem_filter.mp hp).1, rfl, rfl, rfl⟩
  · dsimp only at hp
    split at hp
    · exact .inl (hwritten hp)
    · rcases mem_append.mp hp with hp | hp
      · exact .inl (hwritten hp)
      · rw [mem_singleton.mp hp]
        exact .inr ⟨rfl, rfl, rfl⟩

theorem exists_mem_setPeer (hp : p ∈ peers)
    (hkey : cfg.remove = true → p.publicKey ≠ cfg.publicKey) : ∃ q ∈ setPeer peers cfg, q.Alike p := by
  unfold setPeer
  split
  · next hremove => exact ⟨p, mem_filter.mpr ⟨hp, decide_eq_true (hkey hremove)⟩, rfl, rfl, rfl⟩
  · have hwritten := mem_map_of_mem (f := KernelPeer.write cfg) hp
    refine ⟨p.write cfg, ?_, p.alike_write cfg⟩
    dsimp only
    split
    · exact hwritten
    · exact mem_append_left _ hwritten

theorem exists_mem_foldl_setPeer {cfgs : List PeerConfig} (hp : p ∈ peers)
    (hkey : ∀ c ∈ cfgs, c.remove = true → p.publicKey ≠ c.publicKey) : ∃ q ∈ cfgs.foldl setPeer peers, q.Alike p := by
  induction cfgs generalizing peers p with
  | nil => exact ⟨p, hp, rfl, rfl, rfl⟩
  | cons c cfgs ih =>
    obtain ⟨q, hq, halike⟩ := exists_mem_setPeer hp (hkey c mem_cons_self)
    obtain ⟨q', hq', halike'⟩ := ih hq fun c' hc' hremove => halike.1 ▸ hkey c' (mem_cons_of_mem c hc') hremove
    exact ⟨q', hq', halike'.trans halike⟩

theorem sum_setPeer {f : KernelPeer → Int} (hcounts : OfCounts f) (hfresh : ∀ key, f (KernelPeer.fresh key) = 0) (hgone : cfg.remove = true → ∀ p ∈ peers, p.publicKey = cfg.publicKey → f p = 0) :
    ((setPeer peers cfg).map f).sum = (peers.map f).sum := by
  unfold setPeer
  split
  · next hremove =>
    have hzero := hgone hremove
    clear hgone
    induction peers with
    | nil => rfl
    | cons p peers ih =>
      have hrest := ih fun q hq => hzero q (mem_cons_of_mem p hq)
      rw [filter_cons, map_cons, sum_cons]
      split
      · rw [map_cons, sum_cons, hrest]
      · next hkey =>
        rw [hrest, hzero p mem_cons_self (by simpa using hkey), zero_add]
  · dsimp only
    split
    · rw [hcounts.map_written]
    · rw [map_append, hcounts.map_written, map_singleton, sum_append, sum_singleton, hcounts.update, hfresh, add_zero]

theorem due_configure (h : Nonneg rec.counter) (delta : DeviceDelta) {cfgs : List PeerConfig}
    (hgone : ∀ c ∈ cfgs, c.remove = true → ∀ p ∈ link.peers, p.publicKey = c.publicKey → peerCharge rec link p = 0) (email : String) :
    due owner rec (link.configure delta cfgs) email = due owner rec link email := by
  have hcounts := ofCounts_owed owner rec link email
  have hfresh : ∀ key, owed owner rec link email (.fresh key) = 0 := fun key => owed_fresh h key
  have hremoved : ∀ c ∈ cfgs, c.remove = true → ∀ p ∈ link.peers, p.publicKey = c.publicKey → owed owner rec link email p = 0 := by
    intro c hc hremove p hp hkey
    simp [owed, hgone c hc hremove p hp hkey]
  clear hgone
  generalize hf : owed owner rec link email = f at hcounts hfresh hremoved
  have hfold : ∀ (cfgs : List PeerConfig) (peers : List KernelPeer),
      (∀ c ∈ cfgs, c.remove = true → ∀ p ∈ peers, p.publicKey = c.publicKey → f p = 0) →
      ((cfgs.foldl setPeer peers).map f).sum = (peers.map f).sum := by
    intro cfgs
    induction cfgs with
    | nil => exact fun _ _ => rfl
    | cons c cfgs ih =>
      intro peers hzero
      refine (ih (setPeer peers c) fun c' hc' hremove p hp hkey => ?_).trans
        (sum_setPeer hcounts hfresh fun hremove => hzero c mem_cons_self hremove)
      -- a peer that was there keeps its counts, and one that is new has none
      rcases mem_setPeer hp with ⟨q, hq, halike⟩ | halike
      · rw [hcounts p q halike]
        exact hzero c' (mem_cons_of_mem c hc') hremove q hq (halike.1.symm.trans hkey)
      · rw [hcounts p _ halike]
        exact hfresh _
  subst hf
  exact hfold cfgs link.peers hremoved

theorem get?_enter_forgetKey (rec : Managed) (epoch : String) (key k : Key) (up : Bool) :
    ((rec.forgetKey key).counter.enter epoch).last.get? (subject k up) =
      if k = key then none else (rec.counter.enter epoch).last.get? (subject k up) := by
  unfold Managed.forgetKey
  dsimp only
  rw [enter_forget, enter_forget]
  dsimp only
  split
  · next heq =>
    rw [(subject_inj heq).1, if_pos rfl]
  · next hfalse =>
    by_cases hk : k = key
    · cases up with
      | false => exact absurd (hk ▸ rfl) hfalse
      | true => rw [hk, if_pos rfl, if_pos rfl]
    · rw [if_neg hk, if_neg fun heq => hk (subject_inj heq).1]

/-- The readings of the keys that go are forgotten. -/
structure Forgotten (changes : List PeerConfig) (rec rec' : Managed) : Prop where
  generation : rec'.generation = rec.generation
  byEmail : rec'.byEmail = rec.byEmail
  byKey : rec'.byKey = rec.byKey
  primed : rec'.counter.primed = rec.counter.primed
  last : ∀ epoch key up v, (rec'.counter.enter epoch).last.get? (subject key up) = some v →
    (rec.counter.enter epoch).last.get? (subject key up) = some v ∧ ∀ c ∈ changes, c.remove = true → c.publicKey ≠ key

theorem forgotten_forgetRemoved (changes : List PeerConfig) (rec : Managed) : Forgotten changes rec (rec.forgetRemoved changes) := by
  have hframe : (rec.forgetRemoved changes).generation = rec.generation ∧ (rec.forgetRemoved changes).byEmail = rec.byEmail ∧
      (rec.forgetRemoved changes).byKey = rec.byKey ∧ (rec.forgetRemoved changes).counter.primed = rec.counter.primed :=
    foldlRecOn (motive := fun r : Managed => r.generation = rec.generation ∧ r.byEmail = rec.byEmail ∧ r.byKey = rec.byKey ∧
      r.counter.primed = rec.counter.primed) _ _ ⟨rfl, rfl, rfl, rfl⟩ fun _ h _ _ => h
  refine ⟨hframe.1, hframe.2.1, hframe.2.2.1, hframe.2.2.2, fun epoch key up v hv => ?_⟩
  have hlast : ∀ (removed : List PeerConfig) (rec : Managed),
      ((removed.foldl (fun rec c => rec.forgetKey c.publicKey) rec).counter.enter epoch).last.get? (subject key up) = some v →
      (rec.counter.enter epoch).last.get? (subject key up) = some v ∧ ∀ c ∈ removed, c.publicKey ≠ key := by
    intro removed
    induction removed with
    | nil => exact fun rec hv => ⟨hv, fun c hc => absurd hc not_mem_nil⟩
    | cons c removed ih =>
      intro rec hv
      obtain ⟨hv, hothers⟩ := ih _ hv
      rw [get?_enter_forgetKey] at hv
      split at hv
      · cases hv
      · next hne => exact ⟨hv, forall_mem_cons.mpr ⟨Ne.symm hne, hothers⟩⟩
  obtain ⟨hv, hne⟩ := hlast _ rec hv
  exact ⟨hv, fun c hc hremove => hne c (mem_filter.mpr ⟨hc, hremove⟩)⟩

structure Fits (rec : Managed) (link : Link) (next : Nat) : Prop where
  distinct : link.Distinct
  index : link.index < next
  behind : Behind rec.counter (epochOf link rec.generation) link.peers

def Managed.Keeps (keyOf : String → Key) (rec : Managed) : Prop := Indexed (fun email key => key = keyOf email) (rec.byEmail, rec.byKey)

structure Seated (owner : Key → String) (keyOf : String → Key) (rec : Managed) (link : Option Link) (next : Nat) : Prop where
  sound : rec.Sound owner
  keeps : rec.Keeps keyOf
  dated : Dated rec.counter next
  device : ∀ l, link = some l → Fits rec l next

theorem seated_new (owner : Key → String) (keyOf : String → Key) {link : Option Link} {next : Nat}
    (hlink : ∀ l, link = some l → l.Distinct ∧ l.index < next) : Seated owner keyOf {} link next := by
  refine ⟨sound_new owner, indexed_empty _, ⟨fun _ k => get?_empty k, fun hp => (by cases hp)⟩, fun l hl =>
    ⟨(hlink l hl).1, (hlink l hl).2, fun key up v hv => ?_⟩⟩
  have hnone : (Counter.enter (epochOf l 0) {}).last.get? (subject key up) = none := by
    rw [last_enter]
    simp [Counter.restarted]
  cases hnone.symm.trans hv

namespace Seated

variable {rec : Managed} {link : Option Link} {l : Link} {next : Nat}

theorem mono {next' : Nat} (h : Seated owner keyOf rec link next) (hle : next ≤ next') : Seated owner keyOf rec link next' := by
  refine ⟨h.sound, h.keeps, h.dated.mono hle, fun l hl => ?_⟩
  have hfits := h.device l hl
  exact ⟨hfits.distinct, hfits.index.trans_le hle, hfits.behind⟩

theorem gone (h : Seated owner keyOf rec link next) : Seated owner keyOf rec none next :=
  ⟨h.sound, h.keeps, h.dated, fun _ hl => nomatch hl⟩

theorem indexed (h : Seated owner keyOf rec link next) {rec' : Managed} (hcounter : rec'.counter = rec.counter)
    (hgeneration : rec'.generation = rec.generation) (hsound : rec'.Sound owner) (hkeeps : rec'.Keeps keyOf) :
    Seated owner keyOf rec' link next := by
  refine ⟨hsound, hkeeps, hcounter ▸ h.dated, fun l hl => ?_⟩
  have hfits := h.device l hl
  refine ⟨hfits.distinct, hfits.index, ?_⟩
  rw [hcounter, hgeneration]
  exact hfits.behind

theorem same (h : Seated owner keyOf rec (some l) next) {l' : Link} (hpeers : l'.peers = l.peers) (hindex : l'.index = l.index) :
    Seated owner keyOf rec (some l') next := by
  refine ⟨h.sound, h.keeps, h.dated, fun l'' hl => ?_⟩
  cases hl
  have hfits := h.device l rfl
  refine ⟨?_, hindex ▸ hfits.index, ?_⟩
  · unfold Link.Distinct
    rw [hpeers]
    exact hfits.distinct
  · rw [epochOf_eq, hindex, hpeers]
    exact hfits.behind

theorem created (h : Seated owner keyOf rec link next) (hpeers : l.peers = []) (hindex : l.index = next) (tag : String) :
    Seated owner keyOf (rec.renew tag true) (some l) (next + 1) := by
  refine ⟨⟨h.sound.counted, h.sound.owned, h.sound.named, h.sound.credit⟩, h.keeps, h.dated.mono (Nat.le_succ _),
    fun l' hl => ?_⟩
  cases hl
  refine ⟨?_, by omega, fun key up v hv => ?_⟩
  · rw [Link.Distinct, hpeers]
    exact nodup_nil
  · have hnone := h.dated.enter hindex.ge (rec.renew tag true).generation (subject key up)
    rw [epochOf_eq] at hv
    exact absurd (hnone.symm.trans hv) nofun

theorem observe (h : Seated owner keyOf rec (some l) next) : Seated owner keyOf (rec.observe l) (some l) next := by
  have hfits := h.device l rfl
  refine ⟨h.sound.observe l, h.keeps, Dated.observe hfits.index rec.generation _, fun l' hl => ?_⟩
  cases hl
  exact ⟨hfits.distinct, hfits.index, hfits.behind.observe hfits.distinct⟩

theorem drain (h : Seated owner keyOf rec (some l) next) : Seated owner keyOf (rec.drain l) (some l) next := by
  unfold Managed.drain
  split
  · exact h.observe
  · exact h

theorem push (h : Seated owner keyOf rec (some l) next) (delta : DeviceDelta) (changes : List PeerConfig) :
    Seated owner keyOf (rec.forgetRemoved changes) (some (l.configure delta changes)) next := by
  have hforgotten := forgotten_forgetRemoved changes rec
  have hfits := h.device l rfl
  have hdated : Dated (rec.forgetRemoved changes).counter next :=
    foldlRecOn (motive := fun r : Managed => Dated r.counter next) _ _ h.dated fun _ h _ _ => (h.forget _).forget _
  refine ⟨h.sound.forgetRemoved changes, ?_, hdated, fun l' hl => ?_⟩
  · unfold Managed.Keeps
    rw [hforgotten.byEmail, hforgotten.byKey]
    exact h.keeps
  · cases hl
    refine ⟨nodup_foldl_setPeer hfits.distinct changes, hfits.index, fun key up v hv => ?_⟩
    have hepoch : epochOf (l.configure delta changes) (rec.forgetRemoved changes).generation = epochOf l rec.generation := by
      rw [hforgotten.generation]
      rfl
    rw [hepoch] at hv
    obtain ⟨hv, hne⟩ := hforgotten.last _ key up v hv
    obtain ⟨p, hp, rfl, hle⟩ := hfits.behind key up v hv
    obtain ⟨q, hq, hqkey, hrx, htx⟩ := exists_mem_foldl_setPeer hp fun c hc hremove heq => hne c hc hremove heq.symm
    refine ⟨q, hq, hqkey, ?_⟩
    unfold KernelPeer.count at hle ⊢
    rwa [hrx, htx]

theorem carry (h : Seated owner keyOf rec (some l) next) (key : Key) (up down : Nat) :
    Seated owner keyOf rec (some (l.carry key up down)) next := by
  refine ⟨h.sound, h.keeps, h.dated, fun l' hl => ?_⟩
  cases hl
  have hfits := h.device l rfl
  refine ⟨?_, hfits.index, fun key' dir v hv => ?_⟩
  · unfold Link.Distinct
    rw [Books.keys_carry]
    exact hfits.distinct
  · obtain ⟨p, hp, rfl, hle⟩ := hfits.behind key' dir v hv
    refine ⟨_, mem_map_of_mem hp, ?_⟩
    split
    · refine ⟨rfl, hle.trans ?_⟩
      cases dir
      · exact Int.ofNat_le.mpr (Nat.le_add_right _ _)
      · exact Int.ofNat_le.mpr (Nat.le_add_right _ _)
    · exact ⟨rfl, hle⟩

end Seated

def Complete (owner : Key → String) (rec : Managed) (peers : List KernelPeer) : Prop :=
  ∀ p ∈ peers, owner p.publicKey ≠ "" → rec.byKey.get? p.publicKey = some (owner p.publicKey)

theorem due_observe (owner : Key → String) (hlink : link.Distinct) (email : String) :
    due owner (rec.observe link) link email = 0 := by
  refine sum_eq_zero fun x hx => ?_
  obtain ⟨p, hp, rfl⟩ := mem_map.mp hx
  rw [peerCharge_observe hlink rec hp]
  exact ite_self 0

theorem stake_observe (h : rec.Sound owner) (hlink : link.Distinct)
    (hcomplete : rec.counter.primed = true → Complete owner rec link.peers) (hemail : email ≠ "") :
    stake owner (rec.observe link) (some link) email = stake owner rec (some link) email := by
  have hpaid : (link.peers.map fun p => if rec.byKey.get? p.publicKey = some email then peerCharge rec link p else 0).sum =
      due owner rec link email := by
    refine congrArg List.sum (map_congr_left fun p hp => ?_)
    cases hprimed : rec.counter.primed with
    | false => rw [peerCharge_of_unprimed hprimed, ite_self, ite_self]
    | true =>
      refine if_congr ⟨h.owned.2 _ _, fun howner => ?_⟩ rfl rfl
      rw [hcomplete hprimed p hp (howner ▸ hemail), howner]
  simp only [stake, elim_some]
  rw [due_observe owner hlink, banked_observe hlink, hpaid, add_zero]

theorem stake_drain (h : rec.Sound owner) (hlink : link.Distinct)
    (hcomplete : rec.counter.primed = true → Complete owner rec link.peers) (hemail : email ≠ "") :
    stake owner (rec.drain link) (some link) email = stake owner rec (some link) email := by
  unfold Managed.drain
  split
  · exact stake_observe h hlink hcomplete hemail
  · rfl

theorem peerCharge_drain (hlink : link.Distinct) (hp : p ∈ link.peers) :
    peerCharge (rec.drain link) link p = 0 := by
  unfold Managed.drain
  split
  · exact peerCharge_observe hlink rec hp
  · next hprimed => exact peerCharge_of_unprimed (by simpa using hprimed) link p

theorem due_drain (owner : Key → String) (hlink : link.Distinct) (email : String) :
    due owner (rec.drain link) link email = 0 := by
  refine sum_eq_zero fun x hx => ?_
  obtain ⟨p, hp, rfl⟩ := mem_map.mp hx
  rw [peerCharge_drain hlink hp]
  exact ite_self 0

theorem stake_push (h : Nonneg rec.counter) (delta : DeviceDelta) {changes : List PeerConfig}
    (hcharge : ∀ c ∈ changes, c.remove = true → ∀ p ∈ link.peers, p.publicKey = c.publicKey → peerCharge rec link p = 0)
    (hgone : ∀ c ∈ changes, c.remove = true → c.publicKey ∉ (changes.foldl setPeer link.peers).map KernelPeer.publicKey) (email : String) :
    stake owner (rec.forgetRemoved changes) (some (link.configure delta changes)) email = stake owner rec (some link) email := by
  simp only [stake, elim_some]
  have hforget : due owner (rec.forgetRemoved changes) (link.configure delta changes) email = due owner rec (link.configure delta changes) email :=
    due_forgetRemoved hgone email
  rw [pending_forgetRemoved, hforget, due_configure h delta hcharge]

theorem stake_carry (owner : Key → String) {next : Nat} (h : Fits rec link next) (hp : p ∈ link.peers) (up down : Nat) (email : String) :
    stake owner rec (some (link.carry p.publicKey up down)) email =
      stake owner rec (some link) email + if email = owner p.publicKey ∧ rec.counter.primed = true then (up + down : Int) else 0 := by
  simp only [stake, elim_some]
  rw [Books.due_carry owner rec h.distinct hp, add_assoc]
  cases hprimed : rec.counter.primed with
  | true =>
    -- a charge grows by what was moved, once there is a baseline
    rw [peerCharge_bump hprimed hp h.distinct h.behind, add_sub_cancel_left]
    simp [eq_comm]
  | false => simp [peerCharge_of_unprimed hprimed]

def Peer.Keeps (keyOf : String → Key) (p : Peer) : Prop :=
  ∀ key, parseKey p.publicKey = some key → key ≠ .zero → p.email ≠ "" → key = keyOf p.email

theorem mem_keys_diffPeers (current : List KernelPeer) (desired : List PeerConfig) (hdesired : ∀ c ∈ desired, c.remove = false) (full : Bool) (hkey : key ∈ ((diffPeers current desired full).foldl setPeer current).map KernelPeer.publicKey) :
    key ∈ desired.map PeerConfig.publicKey := by
  by_contra hnot
  have hupserts : ∀ (cfgs : List PeerConfig) (peers : List KernelPeer), (∀ c ∈ cfgs, c ∈ desired) →
      key ∈ (cfgs.foldl setPeer peers).map KernelPeer.publicKey → key ∈ peers.map KernelPeer.publicKey := by
    intro cfgs
    induction cfgs with
    | nil => exact fun _ _ h => h
    | cons c cfgs ih =>
      intro peers hc hmem
      have hset := (mem_keys_setPeer peers c key).mp (ih _ (fun c' hc' => hc c' (mem_cons_of_mem c hc')) hmem)
      rw [hdesired c (hc c mem_cons_self), if_neg Bool.false_ne_true] at hset
      exact hset.resolve_right fun heq => hnot (heq ▸ mem_map_of_mem (hc c mem_cons_self))
  unfold diffPeers at hkey
  dsimp only at hkey
  rw [foldl_append] at hkey
  refine not_mem_foldl_removals (fun c hc => ?_) ?_ hkey
  · obtain ⟨p, -, rfl⟩ := mem_map.mp hc
    rfl
  · by_cases hcur : key ∈ current.map KernelPeer.publicKey
    · obtain ⟨p, hp, rfl⟩ := mem_map.mp hcur
      refine .inl ?_
      rw [List.map_map]
      exact mem_map.mpr ⟨p, mem_filter.mpr ⟨hp, decide_eq_true hnot⟩, rfl⟩
    · exact .inr fun hmem => hcur (hupserts _ _ (fun c hc => (mem_filter.mp hc).1) hmem)

theorem complete_reindex (h : rec.Sound owner) {peers : List Peer} (hpeers : ∀ p ∈ peers, p.Owned owner) {held device : List KernelPeer}
    (hdevice : ∀ key ∈ device.map KernelPeer.publicKey, key ∈ (desiredPeers peers).1.map PeerConfig.publicKey ∨
      (rec.byKey.get? key).isSome = true ∧ key ∈ held.map KernelPeer.publicKey) : Complete owner (rec.reindex peers held) device := by
  intro p hp hnamed
  have hsome : ((rec.reindex peers held).byKey.get? p.publicKey).isSome = true := by
    unfold Managed.reindex
    rw [get?_foldl_hold, isSome_or, Bool.or_eq_true]
    rcases hdevice _ (mem_map_of_mem hp) with hwanted | ⟨howner, hheld⟩
    · refine .inl ?_
      obtain ⟨cfg, hcfg, hkey⟩ := mem_map.mp hwanted
      obtain ⟨c, hc, rfl⟩ := mem_map.mp hcfg
      obtain ⟨hmem, hok⟩ := mem_servedClients hc
      obtain ⟨hparse, hzero⟩ := publicKey_of_desiredPeer hok
      have hemail : c.1.email ≠ "" := fun hempty => hnamed (by rw [← hkey, hpeers c.1 hmem _ hparse hzero, hempty])
      rw [get?_foldl_index peers _ (hkey ▸ hzero), isSome_or, Bool.or_eq_true]
      refine .inr ((isSome_map ..).trans (find?_isSome.mpr ⟨c.1, hmem, ?_⟩))
      rw [← hkey]
      exact decide_eq_true ⟨hparse, hemail⟩
    · rw [if_pos hheld]
      exact .inr howner
  obtain ⟨email, hemail⟩ := isSome_iff_exists.mp hsome
  rw [hemail, (h.reindex hpeers held).owned.2 _ _ hemail]

theorem Managed.Keeps.byKey_track (h : rec.Keeps keyOf) (hne : email ≠ "") (hkey : key = keyOf email) :
    (rec.track email key).byKey = rec.byKey.put key email := by
  unfold Managed.track
  rw [if_neg hne]
  dsimp only
  split
  · next old hget =>
    -- a client that keeps its key loses no other
    rw [if_neg (not_not.mpr ((h.1 email old hget).trans hkey.symm))]
  · rfl

end WireGuard

end Pui
