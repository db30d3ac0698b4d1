import Pui.WireGuardCalm

/-!
# WireGuard bills across removals

What the peers of a client move after a scrape is billed by a later one, over any number of removals.
-/

namespace Pui

open Table Crash Crash.Prog List

namespace WireGuard

variable {owner : Key → String} {keyOf : String → Key} {space : String} {id : Int}

def Event.Keeps (keyOf : String → Key) (id : Int) : Event → Prop
  | .ensure inst _ => inst.id = id → ∀ p ∈ inst.peers, p.Keeps keyOf
  | .addPeer inst p _ => inst.id = id → p.Keeps keyOf
  | .reconcile desired _ _ => ∀ inst ∈ desired, inst.id = id → ∀ p ∈ inst.peers, p.Keeps keyOf
  | _ => True

def Event.Quiet : Event → Prop
  | .ensure _ fates | .addPeer _ _ fates | .removePeer _ _ _ fates | .remove _ fates | .reconcile _ _ fates | .scrape _ fates => fates = []
  | .traffic .. => True
  | .configured .. | .deleted .. | .created .. | .restarted => False

def Event.Removes (id : Int) : Event → Prop
  | .remove id' _ => id' = id
  | .reconcile desired retain _ => id ∉ desired.map Instance.id ++ retain
  | _ => False

/-- No call fails, the clients keep their keys, and no removal finds all bytes handed out. -/
structure Calm (owner : Key → String) (keyOf : String → Key) (space : String) (id : Int) (b : Books) (e : Event) : Prop where
  quiet : e.Quiet
  owned : e.Owned owner
  keeps : e.Keeps keyOf id
  known : e = .scrape id [] → (b.host.record id).counter.primed = false → ∀ link, b.host.link space id = some link →
    Complete owner (b.host.record id) link.peers
  banks : e.Removes id → (b.host.record id).counter.primed = true → ∃ email, email ≠ "" ∧ b.handed id email < b.moved id email

namespace Books

def carried (owner : Key → String) (space : String) (id : Int) (email : String) (b : Books) : Event → Int
  | .traffic id' key up down =>
    if id' = id ∧ owner key = email ∧ ((b.host.link space id).any fun link => key ∈ link.peers.map KernelPeer.publicKey) then (up + down : Int) else 0
  | _ => 0

structure Level (owner : Key → String) (keyOf : String → Key) (space : String) (id : Int) (b : Books) : Prop where
  fair : b.Fair owner space
  ready : (b.host.seat space id).Ready owner keyOf
  level : ∀ email, email ≠ "" → b.handed id email + b.host.stake owner space id email = b.moved id email

structure Steps (owner : Key → String) (keyOf : String → Key) (space : String) (id : Int) (b : Books) (e : Event) (b' : Books) : Prop where
  ready : (b'.host.seat space id).Ready owner keyOf
  level : ∀ email, email ≠ "" → b'.handed id email + b'.host.stake owner space id email = b'.moved id email
  primed : (b.host.record id).counter.primed = true → (b'.host.record id).counter.primed = true
  moved : (b.host.record id).counter.primed = true → ∀ email, b'.moved id email = b.moved id email + b.carried owner space id email e

variable {b : Books}

theorem Steps.of_fair {e : Event} {b' : Books} (h : Steps owner keyOf space id b e b') (hfair : b'.Fair owner space) : b'.Level owner keyOf space id :=
  ⟨hfair, h.ready, h.level⟩

theorem moved_run {α : Type} (x : Op α) (fates : List Fate) (out : α → Int → String → Int) : (b.run x fates out).moved = b.moved := by
  unfold run Prog.settle
  split <;> rfl

theorem Level.banks (hb : b.Level owner keyOf space id)
    (h : (b.host.record id).counter.primed = true → ∃ email, email ≠ "" ∧ b.handed id email < b.moved id email) :
    (b.host.seat space id).Banks owner := by
  intro hprimed
  obtain ⟨email, hemail, hlt⟩ := h hprimed
  have hlevel := hb.level email hemail
  refine ⟨email, hemail, ?_⟩
  have hstake : 0 < b.host.stake owner space id email := by omega
  exact hstake

theorem Level.run {α : Type} {x : Op α} {out : α → Int → String → Int} {e : Event} (hb : b.Level owner keyOf space id)
    (he : ∀ email, b.carried owner space id email e = 0)
    (hx : Returns x b.host fun a t => Exact owner keyOf (b.host.seat space id) (out a id) (t.seat space id)) :
    Steps owner keyOf space id b e (b.run x [] out) := by
  have hstep : ((b.run x [] out).host.seat space id).Ready owner keyOf ∧
      (∀ email, email ≠ "" → (b.run x [] out).handed id email + (b.run x [] out).host.stake owner space id email = b.moved id email) ∧
      ((b.host.record id).counter.primed = true → ((b.run x [] out).host.record id).counter.primed = true) := by
    refine hx.settle (P := fun b' : Books => (b'.host.seat space id).Ready owner keyOf ∧
      (∀ email, email ≠ "" → b'.handed id email + b'.host.stake owner space id email = b.moved id email) ∧
      ((b.host.record id).counter.primed = true → (b'.host.record id).counter.primed = true)) fun a t ht => ?_
    refine ⟨ht.ready, fun email hemail => ?_, ht.primed⟩
    have hstake : t.stake owner space id email + out a id email = b.host.stake owner space id email := ht.stake email hemail
    have hlevel := hb.level email hemail
    dsimp only
    omega
  refine ⟨hstep.1, fun email hemail => ?_, hstep.2.2, fun _ email => ?_⟩
  · rw [moved_run]
    exact hstep.2.1 email hemail
  · rw [moved_run, he, add_zero]

theorem Level.same {b' : Books} {e : Event} (hb : b.Level owner keyOf space id) (hseat : b'.host.seat space id = b.host.seat space id)
    (hhanded : b'.handed = b.handed) (hmoved : ∀ email, b'.moved id email = b.moved id email)
    (hcarried : ∀ email, b.carried owner space id email e = 0) : Steps owner keyOf space id b e b' := by
  refine ⟨hseat ▸ hb.ready, fun email hemail => ?_, fun hp => ?_, fun _ email => ?_⟩
  · have hstake : b'.host.stake owner space id email = b.host.stake owner space id email := congrArg (Seat.stake owner · email) hseat
    rw [hhanded, hstake, hmoved]
    exact hb.level email hemail
  · have hrecord : b'.host.record id = b.host.record id := congrArg Seat.record hseat
    rwa [hrecord]
  · rw [hmoved, hcarried, add_zero]

theorem Level.carry (hb : b.Level owner keyOf space id) (id' : Int) (key : Key) (up down : Nat) :
    Steps owner keyOf space id b (.traffic id' key up down) (b.carry owner space id' key up down) := by
  unfold Books.carry
  cases hlink : b.host.link space id' with
  | none =>
    refine hb.same rfl rfl (fun _ => rfl) fun email => if_neg ?_
    rintro ⟨rfl, -, hany⟩
    rw [hlink] at hany
    cases hany
  | some link =>
    dsimp only
    split
    · next hkey =>
      by_cases heq : id' = id
      · subst heq
        have hcarried : ∀ email, b.carried owner space id' email (.traffic id' key up down) =
            if owner key = email then (up + down : Int) else 0 := by
          intro email
          refine if_congr ⟨fun hand => hand.2.1, fun howner => ⟨rfl, howner, ?_⟩⟩ rfl rfl
          rw [hlink]
          exact decide_eq_true hkey
        obtain ⟨p, hp, rfl⟩ := mem_map.mp hkey
        refine ⟨?_, fun email hemail => ?_, fun hp => hp, fun hprimed email => ?_⟩
        · dsimp only
          rw [Host.seat_relink_self]
          exact hb.ready.carry hlink p.publicKey up down
        · have hlevel := hb.level email hemail
          have hstake := stake_carry owner (hb.ready.seated.device link hlink) hp up down email
          unfold Host.stake at hlevel ⊢
          rw [hlink] at hlevel
          dsimp only
          rw [Host.record_relink, Host.link_relink_self]
          simp only [true_and]
          exact (congrArg (b.handed id' email + ·) hstake).trans (by rw [← add_assoc]; exact congrArg (· + _) hlevel)
        · rw [hcarried]
          exact congrArg (b.moved id' email + ·) (if_congr ⟨fun hand => hand.2.1.symm, fun howner => ⟨rfl, howner.symm, hprimed⟩⟩ rfl rfl)
      · refine hb.same ?_ rfl (fun email => ?_) fun email => if_neg fun hand => heq hand.1
        · dsimp only
          rw [Host.seat, Host.link_relink_of_ne _ (Ne.symm heq)]
          rfl
        · dsimp only
          rw [if_neg fun hand => heq hand.1.symm, add_zero]
    · next hkey =>
      refine hb.same rfl rfl (fun _ => rfl) fun email => if_neg fun hand => hkey ?_
      obtain ⟨rfl, -, hany⟩ := hand
      rw [hlink] at hany
      exact of_decide_eq_true hany

theorem step_level {e : Event} (hb : b.Level owner keyOf space id) (he : Calm owner keyOf space id b e) :
    Steps owner keyOf space id b e (b.step owner space e) := by
  have hother : ∀ {α : Type} {x : Op α} (out : α → Int → String → Int) {paid : α → String → Int} {id' : Int}, id ≠ id' →
      Spec x b.host (fun a t => Kept owner space id' b.host (paid a) t) Dies → (∀ a email, out a id email = 0) →
      Returns x b.host fun a t => Exact owner keyOf (b.host.seat space id) (out a id) (t.seat space id) := by
    intro α x out paid id' hne hspec hout
    refine (returns_of_dies hspec).mono fun a t ht => ?_
    have hzero : out a id = 0 := funext (hout a)
    rw [hzero]
    exact .other hb.ready hne ht
  -- an operation on a device changes the seat of its own inbound only
  have hdevice : ∀ {α : Type} {x : Op α} {id' : Int}, (∀ email, b.carried owner space id email e = 0) →
      (id = id' → Returns x b.host fun _ t => Exact owner keyOf (b.host.seat space id) 0 (t.seat space id)) →
      Spec x b.host (fun _ => Kept owner space id' b.host 0) Dies → Steps owner keyOf space id b e (b.run x [] fun _ _ _ => 0) := by
    intro α x id' hcarried hexact hspec
    refine hb.run hcarried ?_
    by_cases heq : id = id'
    · exact hexact heq
    · exact hother (fun _ _ _ => 0) heq hspec fun _ _ => rfl
  have hsound := hb.fair.sound
  cases e with
  | ensure inst fates =>
    obtain rfl : fates = [] := he.quiet
    refine hdevice (fun _ => rfl) (fun heq => ?_) (ensure_spec he.owned hsound)
    subst heq
    exact ensure_exact he.owned (he.keeps rfl) rfl hb.ready
  | addPeer inst p fates =>
    obtain rfl : fates = [] := he.quiet
    refine hdevice (fun _ => rfl) (fun heq => ?_) (addPeer_spec he.owned hsound)
    subst heq
    exact addPeer_exact he.owned (he.keeps rfl) rfl hb.ready
  | removePeer inst email fallbackKey fates =>
    obtain rfl : fates = [] := he.quiet
    refine hdevice (fun _ => rfl) (fun heq => ?_) (removePeer_spec hsound inst email fallbackKey)
    subst heq
    exact removePeer_exact inst email fallbackKey rfl hb.ready
  | remove id' fates =>
    obtain rfl : fates = [] := he.quiet
    refine hdevice (fun _ => rfl) (fun heq => ?_) (remove_spec hsound id')
    subst heq
    exact (remove_exact rfl hb.ready (hb.banks (he.banks rfl))).mono fun _ _ ht => ht.1
  | reconcile desired retain fates =>
    obtain rfl : fates = [] := he.quiet
    exact hb.run (fun _ => rfl) (reconcile_exact hsound he.owned he.keeps rfl hb.ready fun hremoves => hb.banks (he.banks hremoves))
  | scrape id' fates =>
    obtain rfl : fates = [] := he.quiet
    refine hb.run (fun _ => rfl) ?_
    by_cases heq : id = id'
    · subst heq
      refine (scrapeDevice_exact rfl hb.ready (he.known rfl)).mono fun out t ht => ?_
      have hout : (fun email => if id = id then handedTo out email else 0) = handedTo out := funext fun email => if_pos rfl
      rw [hout]
      exact ht.1
    · exact hother (fun out id'' email => if id'' = id' then handedTo out email else 0) heq (scrapeDevice_spec hsound id') fun out email => if_neg heq
  | traffic id' key up down => exact hb.carry id' key up down
  | configured name cfgs => exact he.quiet.elim
  | deleted name => exact he.quiet.elim
  | created name mtu => exact he.quiet.elim
  | restarted => exact he.quiet.elim

theorem Level.scraped (hb : b.Level owner keyOf space id) (he : Calm owner keyOf space id b (.scrape id []))
    (hread : (b.host.record id).counter.primed = true ∨ (b.host.devices.get? id).isSome = true ∧ (b.host.link space id).isSome = true) :
    ((b.step owner space (.scrape id [])).host.record id).counter.primed = true ∧
      ∀ email, (b.step owner space (.scrape id [])).host.stake owner space id email = 0 :=
  (scrapeDevice_exact rfl hb.ready (he.known rfl)).settle
    (P := fun b' : Books => (b'.host.record id).counter.primed = true ∧ ∀ email, b'.host.stake owner space id email = 0) fun _ _ ht => ht.2 hread

theorem level_start {kernel : Kernel} (hkernel : kernel.Distinct) (hindex : ∀ name link, kernel.links.get? name = some link → link.index < kernel.nextIndex) :
    Level owner keyOf space id { host := { kernel := kernel } } := by
  refine ⟨⟨sound_start hkernel, fun id email => ?_⟩, ⟨?_, fun hp => ?_⟩, fun email _ => ?_⟩
  · rw [stake_start]
    exact le_rfl
  · exact seated_new owner keyOf fun l hl => ⟨hkernel _ l hl, hindex _ l hl⟩
  · cases hp
  · rw [stake_start]
    rfl

theorem level_after {kernel : Kernel} (hkernel : kernel.Distinct)
    (hindex : ∀ name link, kernel.links.get? name = some link → link.index < kernel.nextIndex) {events : List Event}
    (hrun : Run.Along (step owner space) (Calm owner keyOf space id) { host := { kernel := kernel } } events) :
    Level owner keyOf space id (Run.after (step owner space) { host := { kernel := kernel } } events) :=
  Run.inv_after_along (I := Level owner keyOf space id) (fun _ _ he hb => (step_level hb he).of_fair (step_fair he.owned hb.fair)) (level_start hkernel hindex) hrun

end Books

/-- Over a run without a failing call, every byte that a peer of a client moves between two scrapes of the device is
billed once, however often the device is removed and made again, if each removal finds bytes that were not handed out.
-/
theorem billed_across_removals (owner : Key → String) (keyOf : String → Key) (space : String) (id : Int) (kernel : Kernel)
    (hkernel : kernel.Distinct) (hindex : ∀ name link, kernel.links.get? name = some link → link.index < kernel.nextIndex)
    (before middle : List Event)
    (hrun : Run.Along (Books.step owner space) (Calm owner keyOf space id) { host := { kernel := kernel } } (before ++ .scrape id [] :: middle))
    (htracked : ((Run.after (Books.step owner space) { host := { kernel := kernel } } before).host.devices.get? id).isSome = true)
    (hdevice : ((Run.after (Books.step owner space) { host := { kernel := kernel } } before).host.link space id).isSome = true)
    (email : String) (hemail : email ≠ "") :
    let first := Run.after (Books.step owner space) { host := { kernel := kernel } } (before ++ [.scrape id []])
    (Run.after (Books.step owner space) first (middle ++ [.scrape id []])).handed id email =
      first.handed id email + Run.total (Books.step owner space) (Books.carried owner space id email) first middle := by
  intro first
  obtain ⟨hbefore, hscrape, hmiddle⟩ := Run.along_append.mp hrun
  have hfirst : first = (Run.after (Books.step owner space) { host := { kernel := kernel } } before).step owner space (.scrape id []) :=
    Run.after_concat _ _ _
  have hlevel := Books.level_after hkernel hindex hbefore
  obtain ⟨hprimed, hpaid⟩ := hlevel.scraped hscrape (.inr ⟨htracked, hdevice⟩)
  have hlevel := (Books.step_level hlevel hscrape).of_fair (Books.step_fair hscrape.owned hlevel.fair)
  rw [← hfirst] at hprimed hpaid hlevel hmiddle
  -- from the first scrape on, what is moved is what is carried
  have hkeep : ∀ b e, Calm owner keyOf space id b e → Books.Level owner keyOf space id b ∧ (b.host.record id).counter.primed = true →
      Books.Level owner keyOf space id (b.step owner space e) ∧ ((b.step owner space e).host.record id).counter.primed = true := by
    intro b e he hb
    have hsteps := Books.step_level hb.1 he
    exact ⟨hsteps.of_fair (Books.step_fair he.owned hb.1.fair), hsteps.primed hb.2⟩
  have hmoved := Run.add_total_along (g := fun b : Books => b.moved id email) (f := Books.carried owner space id email) hkeep
    (fun _ _ he hb => (Books.step_level hb.1 he).moved hb.2 email) ⟨hlevel, hprimed⟩ hmiddle
  obtain ⟨hlevel', hprimed'⟩ := Run.inv_after_along hkeep ⟨hlevel, hprimed⟩ hmiddle
  -- the last scrape hands out what is left
  have hlast : Calm owner keyOf space id (Run.after (Books.step owner space) first middle) (.scrape id []) :=
    ⟨rfl, trivial, trivial, fun _ hunprimed => absurd (hprimed'.symm.trans hunprimed) nofun, fun hremoves => hremoves.elim⟩
  obtain ⟨-, hpaid'⟩ := hlevel'.scraped hlast (.inl hprimed')
  have hsteps := Books.step_level hlevel' hlast
  have hend := hsteps.level email hemail
  have hstart := hlevel.level email hemail
  rw [hpaid', hsteps.moved hprimed'] at hend
  rw [hpaid] at hstart
  rw [Run.after_concat]
  have hscraped : Books.carried owner space id email (Run.after (Books.step owner space) first middle) (.scrape id []) = 0 := rfl
  omega

def Sample.ownKey (email : String) : Key := if email = "a" then Sample.keyA else Sample.keyB

theorem Sample.keeps_two : ∀ p ∈ Sample.two.peers, p.Keeps Sample.ownKey := by
  intro p hp key hkey _ _
  simp only [Sample.two, Sample.inbound, mem_cons, not_mem_nil, or_false] at hp
  rcases hp with rfl | rfl
  all_goals
    cases hkey
    decide +kernel

def Sample.ensured : Books := Books.step Sample.ownerOf "pwg" { host := { kernel := {} } } (.ensure Sample.two [])

def Sample.scraped : Books := Sample.ensured.step Sample.ownerOf "pwg" (.scrape 1 [])

/-- A device that is removed after a client moved bytes and is made again bills all of them. -/
theorem billed_across_removals_two :
    let first := Run.after (Books.step Sample.ownerOf "pwg") { host := { kernel := {} } } ([.ensure Sample.two []] ++ [.scrape 1 []])
    let middle : List Event := [.traffic 1 Sample.keyA 5 7, .remove 1 [], .ensure Sample.two [], .traffic 1 Sample.keyA 1 1]
    Run.total (Books.step Sample.ownerOf "pwg") (Books.carried Sample.ownerOf "pwg" 1 "a") first middle = 14 ∧
    (Run.after (Books.step Sample.ownerOf "pwg") first (middle ++ [.scrape 1 []])).handed 1 "a" =
      first.handed 1 "a" + Run.total (Books.step Sample.ownerOf "pwg") (Books.carried Sample.ownerOf "pwg" 1 "a") first middle := by
  have hensure : ∀ b, Calm Sample.ownerOf Sample.ownKey "pwg" 1 b (.ensure Sample.two []) := fun b =>
    ⟨rfl, Sample.owned_two, fun _ => Sample.keeps_two, (fun h => nomatch h), fun h => False.elim h⟩
  have htraffic : ∀ b up down, Calm Sample.ownerOf Sample.ownKey "pwg" 1 b (.traffic 1 Sample.keyA up down) := fun b up down =>
    ⟨trivial, trivial, trivial, (fun h => nomatch h), fun h => False.elim h⟩
  -- the first pass indexed both peers
  have hscrape : Calm Sample.ownerOf Sample.ownKey "pwg" 1 Sample.ensured (.scrape 1 []) := by
    refine ⟨rfl, trivial, trivial, fun _ _ link hlink p hp _ => ?_, fun h => False.elim h⟩
    have hall : (Sample.ensured.host.link "pwg" 1).all (fun link =>
        link.peers.all fun p => (Sample.ensured.host.record 1).byKey.get? p.publicKey = some (Sample.ownerOf p.publicKey)) = true := by decide +kernel
    rw [hlink] at hall
    exact of_decide_eq_true (all_eq_true.mp hall p hp)
  have hremove : Calm Sample.ownerOf Sample.ownKey "pwg" 1 (Sample.scraped.step Sample.ownerOf "pwg" (.traffic 1 Sample.keyA 5 7)) (.remove 1 []) :=
    ⟨rfl, trivial, trivial, (fun h => nomatch h), fun _ _ => ⟨"a", by decide, by decide +kernel⟩⟩
  have hrun : Run.Along (Books.step Sample.ownerOf "pwg") (Calm Sample.ownerOf Sample.ownKey "pwg" 1) { host := { kernel := {} } }
      ([.ensure Sample.two []] ++ .scrape 1 [] :: [.traffic 1 Sample.keyA 5 7, .remove 1 [], .ensure Sample.two [], .traffic 1 Sample.keyA 1 1]) := by
    simp only [singleton_append, Run.Along, and_true]
    exact ⟨hensure _, hscrape, htraffic _ _ _, hremove, hensure _, htraffic _ _ _⟩
  have hempty : ∀ name link, ({} : Kernel).links.get? name ≠ some link := fun name link hlink => by simp at hlink
  refine ⟨by decide +kernel, ?_⟩
  exact billed_across_removals Sample.ownerOf Sample.ownKey "pwg" 1 {} (fun name link hlink => absurd hlink (hempty name link))
    (fun name link hlink => absurd hlink (hempty name link)) [.ensure Sample.two []] _ hrun (by decide +kernel) (by decide +kernel) "a" (by decide)

/-- A device that is removed before anything moved loses its baseline: what the next device moves before its first scrape is not billed. -/
theorem idle_removal_loses_bytes :
    let first := Run.after (Books.step Sample.ownerOf "pwg") { host := { kernel := {} } } [.ensure Sample.two [], .scrape 1 []]
    let middle : List Event := [.remove 1 [], .ensure Sample.two [], .traffic 1 Sample.keyA 5 7]
    Run.total (Books.step Sample.ownerOf "pwg") (Books.carried Sample.ownerOf "pwg" 1 "a") first middle = 12 ∧
    (Run.after (Books.step Sample.ownerOf "pwg") first (middle ++ [.scrape 1 []])).handed 1 "a" = first.handed 1 "a" := by
  decide +kernel

end WireGuard

end Pui
