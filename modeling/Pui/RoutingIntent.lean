import Pui.RoutingCompile

/-!
# The compile keeps the operator's intent

Each flow gets the destination of the first rule of its own subject that compiles and matches it.
-/

namespace Pui

open Table List

namespace Routing

variable {key : String} {diag : Diag} {o : Option Outbound} {exit : ResolvedExit} {body : Body}

/-- The keys a criterion may have in the panel. -/
def criterionVocabulary : List String :=
  ["ip", "port", "sourcePort", "network", "source", "user", "domain", "protocol", "attrs"]

/-- The criteria of the rule are ones that the panel knows. -/
def Rule.InVocabulary (rule : Rule) : Prop := ∀ key ∈ rule.criteria.keys, key ∈ criterionVocabulary

/-- The name of a network. -/
def Network.name : Network → String
  | .tcp => "tcp"
  | .udp => "udp"

/-- Xray reads the networks in a string as the panel does, case and surrounding blanks ignored. -/
def Xray.Agrees {Flow : Type} (x : Xray Flow) (s : String) : Prop :=
  ∀ n, x.namesOne s n = (networkParts s).contains n.name

section

variable {Flow : Type} (x : Xray Flow)

/-- Where the rule means a flow of the subject to go, if it compiles for the subject and matches the flow. -/
def Rule.intended (input : Input) (subject : Subject) (flow : Flow) (rule : Rule) : Option Destination :=
  if rule.allowed subject && x.hits rule.criteria flow then rule.sends input (x.network flow) else none

/-- Where the operator means a flow of the subject to go. -/
def intent (input : Input) (subject : Subject) (flow : Flow) : Option Destination :=
  if subject.guarded && !(namedRules input subject).isEmpty && x.privateDest flow then some (blackholeDest input)
  else (namedRules input subject).findSome? (Rule.intended x input subject flow)

/-- The destination that an emitted rule names. -/
def destination (outbound : String → Destination) (body : Body) : Option Destination :=
  match body.get? "outboundTag" with
  | some (.string tag) => some (outbound tag)
  | _ =>
    match body.get? "balancerTag" with
    | some (.string tag) => some (.balancer tag)
    | _ => none

/-- Where the first rule that matches a flow sends it. -/
def route (outbound : String → Destination) (bodies : List Body) (flow : Flow) : Option Destination :=
  (bodies.find? fun body => x.hits body flow).bind (destination outbound)

end

section

variable {Flow : Type} {x : Xray Flow} {flow : Flow} {rule : Rule} {tag : String}

theorem Rule.InVocabulary.absent (h : rule.InVocabulary) (hkey : key ∉ criterionVocabulary) :
    rule.criteria.get? key = none := by
  rw [← Option.not_isSome_iff_eq_none, ← mem_keys_iff]
  exact fun hmem => hkey (h key hmem)

theorem get?_baseBody (h : rule.InVocabulary) (hkey : key ∉ criterionVocabulary) (htype : key ≠ "type")
    (htag : key ≠ "inboundTag") : (baseBody rule tag).get? key = none := by
  rw [baseBody, get?_put_of_ne htag, get?_put_of_ne htype, h.absent hkey]

theorem entry_inboundTag : x.entry flow "inboundTag" (.strings [tag]) = decide (x.inboundTag flow = tag) := by
  simp [Xray.entry, Json.strings]

theorem entry_of_tag (hkey : key ∈ ["type", "outboundTag", "balancerTag"]) (v : Json) : x.entry flow key v = true := by
  rw [mem_cons, mem_cons, mem_singleton] at hkey
  rcases hkey with rfl | rfl | rfl <;> simp [Xray.entry]

theorem meets_baseBody (h : rule.InVocabulary) {skip : List String} (hskip : ∀ key ∈ skip, key ∈ ["network", "outboundTag", "balancerTag"]) :
    x.Meets flow skip (baseBody rule tag) ↔
      x.inboundTag flow = tag ∧ x.Meets flow (if "network" ∈ skip then ["network"] else []) rule.criteria := by
  have htag : "inboundTag" ∉ skip := fun hmem => absurd (hskip _ hmem) (by decide)
  have htype : "type" ∉ "inboundTag" :: skip := fun hmem => by
    rcases mem_cons.mp hmem with heq | hmem
    · exact absurd heq (by decide)
    · exact absurd (hskip _ hmem) (by decide)
  rw [baseBody, Xray.meets_put htag, Xray.meets_put htype, entry_inboundTag, decide_eq_true_eq]
  refine and_congr_right fun _ => ?_
  rw [and_iff_right (entry_of_tag (by decide) _)]
  refine Xray.meets_of_absent (fun key hkey hnot => ?_) (fun key hkey => ?_)
  · rcases mem_cons.mp hkey with rfl | hkey
    · exact h.absent (by decide)
    · rcases mem_cons.mp hkey with rfl | hkey
      · exact h.absent (by decide)
      · have hmem := hskip key hkey
        rw [mem_cons, mem_cons, mem_singleton] at hmem
        rcases hmem with rfl | rfl | rfl
        · exact absurd (by rw [if_pos hkey]; exact mem_singleton_self _) hnot
        · exact h.absent (by decide)
        · exact h.absent (by decide)
  · split at hkey
    · next hnetwork =>
      rw [mem_singleton] at hkey
      exact hkey ▸ mem_cons_of_mem _ (mem_cons_of_mem _ hnetwork)
    · cases hkey

theorem hits_destined (h : rule.InVocabulary) (hkey : key ∈ ["outboundTag", "balancerTag"]) (v : Json) :
    x.hits ((baseBody rule tag).put key v) flow = true ↔ x.inboundTag flow = tag ∧ x.hits rule.criteria flow = true := by
  have htag : key ∈ ["type", "outboundTag", "balancerTag"] := mem_cons_of_mem _ hkey
  have hnetwork : "network" ∉ [key] := by
    rw [mem_singleton]
    rintro rfl
    exact absurd hkey (by decide)
  rw [Xray.hits_iff, Xray.hits_iff, Xray.meets_put (by simp), and_iff_right (entry_of_tag htag _), meets_baseBody h, if_neg hnetwork]
  intro key' hmem
  rw [mem_singleton] at hmem
  exact mem_cons_of_mem _ (hmem ▸ hkey)

theorem hits_narrowed (h : rule.InVocabulary) (s : String) (v : Json) :
    x.hits (((baseBody rule tag).put "network" (.string s)).put "outboundTag" v) flow = true ↔
      x.namesOne s (x.network flow) = true ∧ x.inboundTag flow = tag ∧ x.hits (rule.criteria.drop "network") flow = true := by
  rw [Xray.hits_iff, Xray.hits_iff, Xray.meets_drop, Xray.meets_put (by simp), Xray.meets_put (by decide), and_iff_right (entry_of_tag (by decide) _), meets_baseBody h,
    if_pos (by decide)]
  · simp [Xray.entry]
  · intro key hmem
    rw [mem_cons, mem_singleton] at hmem
    rcases hmem with rfl | rfl <;> decide

theorem hits_companion (h : rule.InVocabulary) (s : String) (v : Json) (blackhole : String) :
    x.hits (udpCompanion (((baseBody rule tag).put "network" (.string s)).put "outboundTag" v) blackhole) flow = true ↔
      x.network flow = .udp ∧ x.inboundTag flow = tag ∧ x.hits (rule.criteria.drop "network") flow = true := by
  have hudp : x.entry flow "network" (.string "udp") = decide (x.network flow = .udp) := by simp [Xray.entry]
  rw [udpCompanion, Xray.hits_iff, Xray.hits_iff, Xray.meets_drop, Xray.meets_put (by simp), Xray.meets_put (by decide), and_iff_right (entry_of_tag (by decide) _),
    Xray.meets_put_of_mem (by decide), Xray.meets_put_of_mem (by decide), meets_baseBody h, if_pos (by decide), hudp, decide_eq_true_eq]
  intro key hmem
  rw [mem_cons, mem_singleton] at hmem
  rcases hmem with rfl | rfl <;> decide

variable {outbound : String → Destination}

theorem route_cons (body : Body) (bodies : List Body) : route x outbound (body :: bodies) flow =
    if x.hits body flow = true then destination outbound body else route x outbound bodies flow := by
  unfold route
  by_cases hhits : x.hits body flow = true
  · rw [List.find?_cons_of_pos (by simpa using hhits), if_pos hhits]
    rfl
  · rw [List.find?_cons_of_neg (by simpa using hhits), if_neg hhits]

theorem route_nil : route x outbound [] flow = none := rfl

theorem destination_outboundTag (body : Body) (name : String) :
    destination outbound (body.put "outboundTag" (.string name)) = some (outbound name) := by
  rw [destination, get?_put_self]

theorem route_outboundTag (h : rule.InVocabulary) (name : String) :
    route x outbound [(baseBody rule tag).put "outboundTag" (.string name)] flow =
      if x.inboundTag flow = tag ∧ x.hits rule.criteria flow = true then some (outbound name) else none := by
  rw [route_cons, route_nil, destination_outboundTag]
  simp only [hits_destined h (show "outboundTag" ∈ ["outboundTag", "balancerTag"] by decide)]

theorem route_balancerTag (h : rule.InVocabulary) (name : String) :
    route x outbound [(baseBody rule tag).put "balancerTag" (.string name)] flow =
      if x.inboundTag flow = tag ∧ x.hits rule.criteria flow = true then some (.balancer name) else none := by
  have hdest : destination outbound ((baseBody rule tag).put "balancerTag" (.string name)) = some (.balancer name) := by
    rw [destination, get?_put_of_ne (by decide), get?_baseBody h (by decide) (by decide) (by decide), get?_put_self]
  rw [route_cons, route_nil, hdest]
  simp only [hits_destined h (show "balancerTag" ∈ ["outboundTag", "balancerTag"] by decide)]

theorem route_narrowed (h : rule.InVocabulary) (name blackhole : String) :
    route x outbound [((baseBody rule tag).put "network" (.string "tcp")).put "outboundTag" (.string name),
        udpCompanion (((baseBody rule tag).put "network" (.string "tcp")).put "outboundTag" (.string name)) blackhole] flow =
      if x.inboundTag flow = tag ∧ x.hits (rule.criteria.drop "network") flow = true then
        some (outbound (if x.network flow = .udp then blackhole else name)) else none := by
  rw [route_cons, route_cons, route_nil, destination_outboundTag, udpCompanion, destination_outboundTag, ← udpCompanion]
  simp only [hits_narrowed h, hits_companion h, Xray.namesOne_tcp, decide_eq_true_eq]
  cases hnetwork : x.network flow with
  | tcp => simp
  | udp => simp

theorem hits_drop (body : Body) (key : String) : x.hits body flow = true ↔
    (∀ v, body.get? key = some v → x.entry flow key v = true) ∧ x.hits (body.drop key) flow = true := by
  rw [Xray.hits_iff, Xray.hits_iff, Xray.meets_drop]
  constructor
  · exact fun h => ⟨fun v hv => h key v (by simp) hv, fun k v _ hv => h k v (by simp) hv⟩
  · rintro ⟨hkey, hrest⟩ k v _ hv
    by_cases hk : k = key
    · subst hk
      exact hkey v hv
    · exact hrest k v (by simpa using hk) hv

theorem hits_network (criteria : Body) : x.hits criteria flow = true ↔
    (∀ v, criteria.get? "network" = some v → x.reads v flow = true) ∧ x.hits (criteria.drop "network") flow = true := by
  have hentry : ∀ v, x.entry flow "network" v = x.reads v flow := fun v => by simp [Xray.entry]
  rw [hits_drop criteria "network"]
  simp only [hentry]

variable {input : Input} {subject : Subject} {exit : ResolvedExit}

theorem TCPOnlyRule.route_warned (h : TCPOnlyRule input subject rule exit) (hvocabulary : rule.InVocabulary)
    (hwarned : narrowing (rule.criteria.get? "network") = .warned) :
    route x outbound (ruleBodies input subject tag rule) flow =
      if x.inboundTag flow = tag ∧ x.hits (rule.criteria.drop "network") flow = true then
        some (outbound (if x.network flow = .udp then blackholeName input else exitOutboundTag exit.id)) else none := by
  rw [(h.compile tag).1, hwarned]
  exact route_narrowed hvocabulary _ _

theorem TCPOnlyRule.route_silent (h : TCPOnlyRule input subject rule exit) (hvocabulary : rule.InVocabulary)
    (hsilent : narrowing (rule.criteria.get? "network") = .silent) :
    route x outbound (ruleBodies input subject tag rule) flow =
      if x.inboundTag flow = tag ∧ x.hits rule.criteria flow = true then some (outbound (exitOutboundTag exit.id)) else none := by
  rw [(h.compile tag).1, hsilent]
  exact route_outboundTag hvocabulary _

/-- The rules send the TCP that the criteria of the rule match to the exit and the UDP to the blackhole, and match no
other flow. -/
def SendsExactly (x : Xray Flow) (input : Input) (tag : String) (rule : Rule) (exit : ResolvedExit) (emitted : List Body) :
    Prop :=
  ∀ outbound flow, route x outbound emitted flow =
    if x.inboundTag flow = tag ∧ x.hits rule.criteria flow = true then
      some (outbound (if x.network flow = .udp then blackholeName input else exitOutboundTag exit.id)) else none

private theorem TCPOnlyRule.exact_warned (h : TCPOnlyRule input subject rule exit) (hvocabulary : rule.InVocabulary)
    (hwarned : narrowing (rule.criteria.get? "network") = .warned) :
    SendsExactly x input tag rule exit (ruleBodies input subject tag rule) ↔
      ∀ flow, x.inboundTag flow = tag → x.hits (rule.criteria.drop "network") flow = true →
        ∀ v, rule.criteria.get? "network" = some v → x.reads v flow = true := by
  unfold SendsExactly
  simp only [h.route_warned hvocabulary hwarned]
  constructor
  · intro hexact flow htag hrest
    by_contra hnot
    have hmissed : ¬(x.inboundTag flow = tag ∧ x.hits rule.criteria flow = true) :=
      fun hhits => hnot ((hits_network _).mp hhits.2).1
    have hsent := hexact .operator flow
    rw [if_pos ⟨htag, hrest⟩, if_neg hmissed] at hsent
    cases hsent
  · intro hread outbound flow
    have hboth : x.inboundTag flow = tag ∧ x.hits (rule.criteria.drop "network") flow = true ↔
        x.inboundTag flow = tag ∧ x.hits rule.criteria flow = true := by
      rw [hits_network rule.criteria]
      exact and_congr_right fun htag => ⟨fun hrest => ⟨hread flow htag hrest, hrest⟩, And.right⟩
    simp only [hboth]

private theorem TCPOnlyRule.exact_silent (h : TCPOnlyRule input subject rule exit) (hvocabulary : rule.InVocabulary)
    (hblackhole : input.blackhole ≠ exitOutboundTag exit.id)
    (hsilent : narrowing (rule.criteria.get? "network") = .silent) :
    SendsExactly x input tag rule exit (ruleBodies input subject tag rule) ↔
      ∀ flow, x.inboundTag flow = tag → x.hits rule.criteria flow = true → x.network flow ≠ .udp := by
  unfold SendsExactly
  simp only [h.route_silent hvocabulary hsilent]
  constructor
  · intro hexact flow htag hhits hudp
    have hsent := hexact .operator flow
    rw [if_pos ⟨htag, hhits⟩, if_pos ⟨htag, hhits⟩, if_pos hudp, Option.some.injEq, Destination.operator.injEq,
      blackholeName] at hsent
    split at hsent
    · exact hblackhole hsent.symm
    · exact exitOutboundTag_ne_block _ hsent
  · intro hnot outbound flow
    split
    · next hhits => rw [if_neg (hnot flow hhits.1 hhits.2)]
    · rfl

/-- Xray reads the network of a rule for a TCP-only exit, on a flow that the other criteria match, so that narrowing the
rule changes nothing: a string in which the panel finds TCP and UDP, and whatever is no string, lets the flow through; a
string with UDP alone lets no TCP through, and one without UDP no UDP. -/
def NarrowsAsRead (x : Xray Flow) (network : Option Json) (flow : Flow) : Prop :=
  match network with
  | none => True
  | some (.string s) =>
    if (networkParts s).contains "udp" then
      if (networkParts s).contains "tcp" then x.namesOne s (x.network flow) = true
      else x.network flow = .tcp → x.namesOne s .tcp = false
    else x.network flow = .udp → x.namesOne s .udp = false
  | some .null => x.network flow ≠ .udp
  | some v => x.reads v flow = true

/-- A rule for a TCP-only exit is refused because it matches no TCP, or what is emitted for it is exact. -/
def NarrowingHolds (x : Xray Flow) (input : Input) (subject : Subject) (tag : String) (rule : Rule) (exit : ResolvedExit) :
    Prop :=
  (ruleBodies input subject tag rule = [] ∧
    (compileRule input rule subject tag subject.pattern).2.1.messageKey = keyExitTCPOnly ∧
    ∀ flow, x.inboundTag flow = tag → x.hits rule.criteria flow = true → x.network flow ≠ .tcp) ∨
  SendsExactly x input tag rule exit (ruleBodies input subject tag rule)

private theorem TCPOnlyRule.holds_of_not_refused (h : TCPOnlyRule input subject rule exit)
    (hnarrowing : narrowing (rule.criteria.get? "network") ≠ .refused) :
    NarrowingHolds x input subject tag rule exit ↔
      SendsExactly x input tag rule exit (ruleBodies input subject tag rule) := by
  refine or_iff_right fun hrefused => ?_
  have hbodies := hrefused.1
  rw [(h.compile tag).1] at hbodies
  split at hbodies
  · next hrefuses => exact hnarrowing hrefuses
  · cases hbodies
  · cases hbodies

private theorem TCPOnlyRule.holds_of_refused (h : TCPOnlyRule input subject rule exit)
    (hrefused : narrowing (rule.criteria.get? "network") = .refused) :
    NarrowingHolds x input subject tag rule exit ↔
      ∀ flow, x.inboundTag flow = tag → x.hits rule.criteria flow = true → x.network flow ≠ .tcp := by
  obtain ⟨hbodies, -, -, hkey⟩ := h.compile tag
  rw [hrefused] at hbodies hkey
  constructor
  · rintro (⟨-, -, hnone⟩ | hexact) flow htag hhits
    · exact hnone flow htag hhits
    · have hsent := hexact .operator flow
      rw [hbodies, route_nil, if_pos ⟨htag, hhits⟩] at hsent
      cases hsent
  · exact fun hnone => .inl ⟨hbodies, hkey, hnone⟩

/-- The flows of a network that a string lets through. -/
private theorem hits_string {s : String} (hget : rule.criteria.get? "network" = some (.string s)) (n : Network) :
    (∀ flow, x.inboundTag flow = tag → x.hits rule.criteria flow = true → x.network flow ≠ n) ↔
      ∀ flow, x.inboundTag flow = tag → x.hits (rule.criteria.drop "network") flow = true →
        x.network flow = n → x.namesOne s n = false := by
  refine forall₂_congr fun flow htag => ?_
  rw [hits_network, hget]
  constructor
  · intro hnot hrest hn
    rw [← Bool.not_eq_true]
    refine fun hnames => hnot ⟨?_, hrest⟩ hn
    rintro _ ⟨⟩
    rw [Xray.reads_string, hn, hnames]
  · rintro hnot ⟨hreads, hrest⟩ rfl
    exact Bool.false_ne_true ((hnot hrest rfl).symm.trans (hreads _ rfl))

/-- Narrowing a rule holds exactly where Xray reads its network accordingly. -/
theorem TCPOnlyRule.holds_iff (h : TCPOnlyRule input subject rule exit) (hvocabulary : rule.InVocabulary)
    (hblackhole : input.blackhole ≠ exitOutboundTag exit.id) :
    NarrowingHolds x input subject tag rule exit ↔
      ∀ flow, x.inboundTag flow = tag → x.hits (rule.criteria.drop "network") flow = true →
        NarrowsAsRead x (rule.criteria.get? "network") flow := by
  -- a network that is narrowed with a warning has to let every flow through
  have hwarned : narrowing (rule.criteria.get? "network") = .warned → (NarrowingHolds x input subject tag rule exit ↔
      ∀ flow, x.inboundTag flow = tag → x.hits (rule.criteria.drop "network") flow = true →
        ∀ v, rule.criteria.get? "network" = some v → x.reads v flow = true) :=
    fun hwarned => (h.holds_of_not_refused (by simp [hwarned])).trans (h.exact_warned hvocabulary hwarned)
  have hsilent : narrowing (rule.criteria.get? "network") = .silent → (NarrowingHolds x input subject tag rule exit ↔
      ∀ flow, x.inboundTag flow = tag → x.hits rule.criteria flow = true → x.network flow ≠ .udp) :=
    fun hsilent => (h.holds_of_not_refused (by simp [hsilent])).trans (h.exact_silent hvocabulary hblackhole hsilent)
  cases hget : rule.criteria.get? "network" with
  | none =>
    rw [hwarned (by rw [hget]; rfl), hget]
    simp [NarrowsAsRead]
  | some v =>
    cases v with
    | null =>
      rw [hsilent (by rw [hget]; rfl)]
      refine forall₂_congr fun flow _ => ?_
      rw [hits_network, hget]
      simp [NarrowsAsRead, Xray.reads]
    | string s =>
      dsimp only [NarrowsAsRead]
      cases hudp : (networkParts s).contains "udp" with
      | false =>
        simp only [Bool.false_eq_true, if_false]
        exact (hsilent (by rw [hget, narrowing, hudp]; rfl)).trans (hits_string hget .udp)
      | true =>
        cases htcp : (networkParts s).contains "tcp" with
        | false =>
          simp only [Bool.false_eq_true, if_true, if_false]
          exact (h.holds_of_refused (by rw [hget, narrowing, hudp, htcp]; rfl)).trans (hits_string hget .tcp)
        | true =>
          rw [hwarned (by rw [hget, narrowing, hudp, htcp]; rfl), hget]
          simp only [Xray.reads_string, Option.some.injEq, forall_eq', if_true]
    | bool | number | array | object =>
      rw [hwarned (by rw [hget]; rfl), hget]
      simp [NarrowsAsRead]

/-- The rules that a plan emits for a rule of a subject stand together. -/
theorem plan_emits (hsubject : subject ∈ input.subjects) (hrouted : subject.routed input = some tag)
    (hrule : rule ∈ groupedRules input subject) :
    ∃ before after, (plan input).xrayRules = before ++ ruleBodies input subject tag rule ++ after := by
  obtain ⟨subjects, subjects', hsubjects⟩ := append_of_mem (mem_sortSubjects.mpr hsubject)
  obtain ⟨rules, rules', hrules⟩ := append_of_mem hrule
  rw [xrayRules_plan, hsubjects, flatMap_append, flatMap_cons, subjectBodies, hrouted]
  dsimp only
  rw [if_neg (ne_nil_of_mem hrule), hrules, flatMap_append, flatMap_cons]
  exact ⟨_ ++ (_ ++ _), _ ++ _, by simp only [append_assoc]; rfl⟩

end

namespace Sample

def xray : Xray (String × Network × Bool) where
  inboundTag flow := flow.1
  network flow := flow.2.1
  names part n := part = n.name
  criterion key _ flow := key != "ip" || flow.2.2
  names_tcp n := by cases n <;> decide
  names_udp n := by cases n <;> decide

def sshExit : ResolvedExit := { id := 7, label := "ssh", kind := .socksPort, handle := { socksPort := 41007, tcpOnly := true } }

def inbound : Subject := { inboundID := 1, tag := "a", handle := { tag := "a-in" }, bridged := true }

def toExit (network : Json) : Rule :=
  { id := 1, sortIndex := 0, enable := true, scope := .all, dest := { kind := .exit, exitID := 7 },
    criteria := (∅ : Body).put "network" network }

def input (rules : List Rule) : Input :=
  { rules := rules, subjects := [inbound], exits := [sshExit], blackhole := "blocked", direct := "direct", frontIDFor := fun _ => none }

end Sample

section

variable {Flow : Type} {x : Xray Flow} {flow : Flow} {rule : Rule} {tag : String} {outbound : String → Destination} {input : Input}
  {subject : Subject}

theorem blackholeDest_of_needs (hinput : input.OperatorTags) (hoperator : ∀ name, OperatorTag name → outbound name = .operator name)
    (hneeds : ∀ o ∈ blackholeNeeds input, outbound o.tag = .synthesized o) : outbound (blackholeName input) = blackholeDest input := by
  unfold blackholeName blackholeDest
  unfold blackholeNeeds at hneeds
  split
  · exact hoperator _ hinput.blackhole
  · next hempty =>
    rw [if_neg hempty] at hneeds
    exact hneeds _ (mem_singleton_self _)

/-- A rule for a TCP-only exit, whose network is absent or a string that Xray reads as the panel does, sends each flow
where it means it to go. -/
theorem TCPOnlyRule.route_intended (h : TCPOnlyRule input subject rule exit) (hinput : input.OperatorTags)
    (hvocabulary : rule.InVocabulary)
    (hnetwork : ∀ v, rule.criteria.get? "network" = some v → ∃ s, v = .string s ∧ x.Agrees s)
    (hflow : x.inboundTag flow = tag) (hoperator : ∀ name, OperatorTag name → outbound name = .operator name)
    (hneeds : ∀ o ∈ ruleNeeds input subject tag rule, outbound o.tag = .synthesized o) :
    route x outbound (ruleBodies input subject tag rule) flow =
      if x.hits rule.criteria flow = true then exitSends input exit rule.criteria (x.network flow) else none := by
  rw [(h.compile tag).2.1] at hneeds
  unfold exitSends
  simp only [h.kind, h.tcpOnly, if_true]
  -- a rule that is narrowed lets both networks through
  have hwarned : narrowing (rule.criteria.get? "network") = .warned →
      (∀ v, rule.criteria.get? "network" = some v → x.reads v flow = true) →
      route x outbound (ruleBodies input subject tag rule) flow = if x.hits rule.criteria flow = true then
        some (if x.network flow = .udp then blackholeDest input else .synthesized (exitOutbound exit)) else none := by
    intro hwarned hreads
    rw [hwarned] at hneeds
    have hown : outbound (exitOutboundTag exit.id) = .synthesized (exitOutbound exit) := by
      rw [← exitOutbound_tag, hneeds _ (by simp)]
    have hblack : outbound (blackholeName input) = blackholeDest input :=
      blackholeDest_of_needs hinput hoperator fun o ho => hneeds o (mem_append_left _ ho)
    rw [h.route_warned hvocabulary hwarned, apply_ite outbound, hblack, hown]
    simp only [hits_network rule.criteria, hflow, true_and, and_iff_right hreads]
  cases hget : rule.criteria.get? "network" with
  | none => exact hwarned (by rw [hget]; rfl) (by simp [hget])
  | some v =>
    obtain ⟨s, rfl, hagrees⟩ := hnetwork v hget
    have hreads : x.reads (.string s) flow = (networkParts s).contains (x.network flow).name := hagrees _
    cases hudp : (networkParts s).contains "udp" with
    | false =>
      -- no UDP is listed, so none is matched
      have hsilent : narrowing (rule.criteria.get? "network") = .silent := by
        rw [hget, narrowing, hudp]
        rfl
      rw [hsilent] at hneeds
      rw [h.route_silent hvocabulary hsilent, ← exitOutbound_tag, hneeds _ (by simp)]
      simp only [hflow, true_and, hudp, Bool.false_and, Bool.false_eq_true, if_false]
      split
      · next hhits =>
        have hlisted := hreads.symm.trans (((hits_network _).mp hhits).1 _ hget)
        cases hnetwork : x.network flow with
        | tcp => rfl
        | udp =>
          rw [hnetwork] at hlisted
          exact absurd (hlisted.symm.trans hudp) (by decide)
      · rfl
    | true =>
      cases htcp : (networkParts s).contains "tcp" with
      | false =>
        have hrefused : narrowing (rule.criteria.get? "network") = .refused := by
          rw [hget, narrowing, hudp, htcp]
          rfl
        rw [(h.compile tag).1, hrefused, route_nil]
        simp only [hudp, htcp, Bool.not_false, Bool.and_self, if_true, ite_self]
      | true =>
        rw [hwarned (by rw [hget, narrowing, hudp, htcp]; rfl)]
        · simp only [hudp, htcp, Bool.not_true, Bool.and_false, Bool.false_eq_true, if_false]
        · intro v hv
          rw [hget, Option.some.injEq] at hv
          rw [← hv, hreads]
          cases x.network flow with
          | tcp => exact htcp
          | udp => exact hudp

theorem route_ruleBodies (hinput : input.OperatorTags) (hrule : rule ∈ input.rules) (hvocabulary : rule.InVocabulary)
    (hnetwork : rule.tcpOnly input = true →
      ∀ v, rule.criteria.get? "network" = some v → ∃ s, v = .string s ∧ x.Agrees s) (hflow : x.inboundTag flow = tag)
    (hoperator : ∀ name, OperatorTag name → outbound name = .operator name)
    (hneeds : ∀ o ∈ ruleNeeds input subject tag rule, outbound o.tag = .synthesized o) :
    route x outbound (ruleBodies input subject tag rule) flow = rule.intended x input subject flow := by
  have htcpOnly : ∀ exit, TCPOnlyRule input subject rule exit →
      route x outbound (ruleBodies input subject tag rule) flow = rule.intended x input subject flow := by
    intro exit h
    have hthrough : rule.tcpOnly input = true := by simp [Rule.tcpOnly, h.dest, h.found, h.kind, h.tcpOnly]
    rw [h.route_intended hinput hvocabulary (hnetwork hthrough) hflow hoperator hneeds]
    simp only [Rule.intended, h.allowed, Bool.true_and, Rule.sends, h.dest, h.found, Option.bind_some]
  have hsent : ∀ name, route x outbound [destined rule tag name] flow =
      if x.hits rule.criteria flow = true then some (outbound name) else none := by
    intro name
    rw [route_outboundTag hvocabulary]
    simp only [hflow, true_and]
  obtain ⟨c, bodies, needs, h, -, hbodies, hneeded⟩ := exists_compiles input subject rule tag
  rw [hneeded] at hneeds
  cases h with
  | refused h =>
    rw [hbodies, route_nil, Rule.intended]
    split
    · next hmatches =>
      rw [Bool.and_eq_true] at hmatches
      rw [h hmatches.1]
    · rfl
  | operator name hallowed hname h =>
    rw [hbodies, hsent, hoperator name (hname.operatorTag hinput hrule), Rule.intended, h, hallowed, Bool.true_and]
  | balancer hallowed h =>
    rw [hbodies, route_balancerTag hvocabulary, Rule.intended, h, hallowed, Bool.true_and]
    simp only [hflow, true_and]
  | block hallowed h =>
    rw [hbodies, hsent, blackholeDest_of_needs hinput hoperator hneeds, Rule.intended, h, hallowed, Bool.true_and]
  | exit exit hallowed hfound h =>
    rcases h with ⟨htcp, -⟩ | h
    · exact htcpOnly exit htcp
    · rw [hbodies, hsent, ← exitOutbound_tag, hneeds _ (mem_singleton_self _), Rule.intended, h, hallowed, Bool.true_and]
  | narrowed exit h => exact htcpOnly exit h

structure Emitted (tag : String) (body : Body) : Prop where
  inbound : body.get? "inboundTag" = some (.strings [tag])
  destined : (∃ name, body.get? "outboundTag" = some (.string name)) ∨ ∃ name, body.get? "balancerTag" = some (.string name)

theorem Emitted.outboundTag (h : body.get? "inboundTag" = some (.strings [tag])) (name : String) :
    Emitted tag (body.put "outboundTag" (.string name)) :=
  ⟨by rw [get?_put_of_ne (by decide), h], .inl ⟨name, get?_put_self _ _ _⟩⟩

theorem emitted_ruleBodies (h : body ∈ ruleBodies input subject tag rule) : Emitted tag body := by
  have hbase : (baseBody rule tag).get? "inboundTag" = some (.strings [tag]) := get?_put_self _ _ _
  obtain ⟨c, bodies, needs, hcompiles, -, hbodies, -⟩ := exists_compiles input subject rule tag
  rw [hbodies] at h
  cases hcompiles with
  | refused => cases h
  | operator | block | exit =>
    rw [mem_singleton.mp h]
    exact .outboundTag hbase _
  | balancer =>
    rw [mem_singleton.mp h]
    exact ⟨by rw [get?_put_of_ne (by decide), hbase], .inr ⟨_, get?_put_self _ _ _⟩⟩
  | narrowed =>
    have hnetwork : ∀ v, ((baseBody rule tag).put "network" v).get? "inboundTag" = some (.strings [tag]) :=
      fun v => by rw [get?_put_of_ne (by decide), hbase]
    rw [mem_cons, mem_singleton] at h
    rcases h with rfl | rfl
    · exact .outboundTag (hnetwork _) _
    · refine .outboundTag ?_ _
      rw [get?_put_of_ne (by decide), get?_put_of_ne (by decide), hnetwork]

theorem emitted_subjectBodies (h : body ∈ subjectBodies input subject) :
    ∃ tag, subject.routed input = some tag ∧ Emitted tag body := by
  unfold subjectBodies at h
  split at h
  · cases h
  · next tag hrouted =>
    refine ⟨tag, hrouted, ?_⟩
    split at h
    · cases h
    · rcases mem_append.mp h with h | h
      · split at h
        · rw [mem_singleton] at h
          rw [h, guardRule]
          exact Emitted.outboundTag (by rw [get?_put_of_ne (by decide), get?_put_self]) _
        · cases h
      · obtain ⟨rule, -, h⟩ := mem_flatMap.mp h
        exact emitted_ruleBodies h

theorem Emitted.inboundTag_of_hits (h : Emitted tag body) (hhits : x.hits body flow = true) : x.inboundTag flow = tag := by
  have hentry := Xray.hits_iff.mp hhits _ _ (by simp) h.inbound
  rwa [entry_inboundTag, decide_eq_true_eq] at hentry

theorem Emitted.isSome_destination (h : Emitted tag body) : (destination outbound body).isSome = true := by
  unfold destination
  split
  · rfl
  · next hnot =>
    rcases h.destined with ⟨name, hname⟩ | ⟨name, hname⟩
    · exact absurd hname (hnot name)
    · rw [hname]
      rfl

theorem route_append {bodies bodies' : List Body} (h : ∀ body ∈ bodies, (destination outbound body).isSome = true) :
    route x outbound (bodies ++ bodies') flow = (route x outbound bodies flow).or (route x outbound bodies' flow) := by
  induction bodies with
  | nil => rfl
  | cons body bodies ih =>
    obtain ⟨hbody, hbodies⟩ := forall_mem_cons.mp h
    rw [cons_append, route_cons, route_cons, ih hbodies]
    split
    · obtain ⟨d, hd⟩ := Option.isSome_iff_exists.mp hbody
      rw [hd]
      rfl
    · rfl

theorem route_flatMap {α : Type} {l : List α} {f : α → List Body} (h : ∀ a ∈ l, ∀ body ∈ f a, (destination outbound body).isSome = true) :
    route x outbound (l.flatMap f) flow = l.findSome? fun a => route x outbound (f a) flow := by
  induction l with
  | nil => rfl
  | cons a l ih =>
    obtain ⟨ha, hl⟩ := forall_mem_cons.mp h
    rw [flatMap_cons, route_append ha, ih hl, List.findSome?_cons]
    cases route x outbound (f a) flow <;> rfl

theorem route_eq_none {bodies : List Body} (h : ∀ body ∈ bodies, x.hits body flow = false) : route x outbound bodies flow = none := by
  have hnone : (bodies.find? fun body => x.hits body flow) = none := List.find?_eq_none.mpr fun body hbody => by simp [h body hbody]
  rw [route, hnone]
  rfl

theorem findSome?_of_mem {α β : Type} {l : List α} {f : α → Option β} {a : α} (ha : a ∈ l) (hother : ∀ b ∈ l, b ≠ a → f b = none) :
    l.findSome? f = f a := by
  induction l with
  | nil => cases ha
  | cons b l ih =>
    obtain ⟨hb, hl⟩ := forall_mem_cons.mp hother
    rw [List.findSome?_cons]
    cases hfb : f b with
    | some v =>
      by_cases heq : b = a
      · rw [← heq, hfb]
      · rw [hb heq] at hfb
        cases hfb
    | none =>
      rcases mem_cons.mp ha with heq | ha
      · rw [heq, hfb]
        refine List.findSome?_eq_none_iff.mpr fun c hc => ?_
        by_cases hca : c = b
        · rw [hca, hfb]
        · exact hl c hc (heq ▸ hca)
      · exact ih ha hl

theorem findSome?_congr_left {α β : Type} {l : List α} {f g : α → Option β} (h : ∀ a ∈ l, f a = g a) : l.findSome? f = l.findSome? g := by
  induction l with
  | nil => rfl
  | cons a l ih =>
    obtain ⟨ha, hl⟩ := forall_mem_cons.mp h
    rw [List.findSome?_cons, List.findSome?_cons, ha, ih hl]

theorem route_guardRule (hflow : x.inboundTag flow = tag) (blackhole : String) :
    route x outbound [guardRule tag blackhole] flow = if x.privateDest flow = true then some (outbound blackhole) else none := by
  have hip : x.entry flow "ip" (.strings ["geoip:private"]) = x.privateDest flow := by simp [Xray.entry, Xray.privateDest]
  have hhits : x.hits (guardRule tag blackhole) flow = true ↔ x.privateDest flow = true := by
    rw [guardRule, Xray.hits_iff, Xray.meets_put (by simp), Xray.meets_put (by decide), Xray.meets_put (by decide),
      Xray.meets_put (by decide), hip, entry_inboundTag, and_iff_right (entry_of_tag (by decide) _), decide_eq_true_eq,
      and_iff_right hflow, and_iff_right (entry_of_tag (by decide) _)]
    exact and_iff_left fun k v _ hv => by simp at hv
  rw [route_cons, route_nil]
  simp only [hhits]
  rw [guardRule, destination_outboundTag]

theorem route_subjectBodies (hinput : input.OperatorTags) (hvocabulary : ∀ rule ∈ input.rules, rule.InVocabulary)
    (hnetwork : ∀ rule ∈ input.rules, rule.tcpOnly input = true →
      ∀ v, rule.criteria.get? "network" = some v → ∃ s, v = .string s ∧ x.Agrees s)
    (hsubject : subject ∈ input.subjects) (hrouted : subject.routed input = some tag) (hflow : x.inboundTag flow = tag) :
    route x (plan input).outbound (subjectBodies input subject) flow = intent x input subject flow := by
  have hoperator : ∀ name, OperatorTag name → (plan input).outbound name = .operator name := fun name h => outbound_of_operator h
  have hneeds : ∀ o ∈ subjectNeeds input subject, (plan input).outbound o.tag = .synthesized o :=
    fun o ho => outbound_of_need hsubject ho
  unfold subjectNeeds at hneeds
  unfold subjectBodies intent
  rw [hrouted] at hneeds ⊢
  dsimp only at hneeds ⊢
  by_cases hnone : namedRules input subject = []
  · rw [if_pos (groupedRules_eq_nil.mpr hnone), route_nil, hnone]
    simp
  · rw [if_neg (mt groupedRules_eq_nil.mp hnone)] at hneeds ⊢
    have hempty : (namedRules input subject).isEmpty = false := by simpa using hnone
    -- each rule sends the flow where it means it to go
    have hrules : route x (plan input).outbound ((groupedRules input subject).flatMap (ruleBodies input subject tag)) flow =
        (namedRules input subject).findSome? (Rule.intended x input subject flow) := by
      rw [route_flatMap fun rule _ body hbody => (emitted_ruleBodies hbody).isSome_destination, ← findSome?_groupedRules]
      refine findSome?_congr_left fun rule hrule => ?_
      have hmem := (mem_groupedRules.mp hrule).1
      refine route_ruleBodies hinput hmem (hvocabulary rule hmem) (hnetwork rule hmem) hflow hoperator fun o ho => hneeds o ?_
      exact mem_append_right _ (mem_flatMap.mpr ⟨rule, hrule, ho⟩)
    cases hguarded : subject.guarded with
    | false =>
      rw [if_neg Bool.false_ne_true, nil_append, hrules]
      simp
    | true =>
      have hblack : (plan input).outbound (blackholeName input) = blackholeDest input := by
        refine blackholeDest_of_needs hinput hoperator fun o ho => hneeds o (mem_append_left _ ?_)
        rw [hguarded]
        exact ho
      have hdestined : ∀ body ∈ [guardRule tag (blackholeName input)], (destination (plan input).outbound body).isSome = true := by
        intro body hbody
        rw [mem_singleton] at hbody
        rw [hbody, guardRule, destination_outboundTag]
        rfl
      rw [if_pos rfl, route_append hdestined, route_guardRule hflow, hblack, hrules, hempty]
      cases x.privateDest flow with
      | true => rfl
      | false => simp

end

/-- The compile keeps first-match intent, where the subjects have different inbound tags and Xray reads the criteria
as the panel does: every flow of a subject goes where the operator's rules for that subject mean it to go, and no rule
of another subject matches it. -/
theorem compile_keeps_intent {Flow : Type} (x : Xray Flow) (input : Input)
    (htags : ∀ s ∈ input.subjects, ∀ s' ∈ input.subjects, ∀ tag, s.routed input = some tag → s'.routed input = some tag → s = s')
    (hinput : input.OperatorTags) (hvocabulary : ∀ rule ∈ input.rules, rule.InVocabulary)
    (hnetwork : ∀ rule ∈ input.rules, rule.tcpOnly input = true →
      ∀ v, rule.criteria.get? "network" = some v → ∃ s, v = .string s ∧ x.Agrees s) :
    (plan input).xrayRules = (sortSubjects input.subjects).flatMap (subjectBodies input) ∧
    ∀ subject ∈ input.subjects, ∀ tag, subject.routed input = some tag → ∀ flow, x.inboundTag flow = tag →
      route x (plan input).outbound (plan input).xrayRules flow = intent x input subject flow ∧
      ∀ other ∈ input.subjects, other ≠ subject → ∀ body ∈ subjectBodies input other, x.hits body flow = false := by
  refine ⟨xrayRules_plan input, fun subject hsubject tag hrouted flow hflow => ?_⟩
  have hothers : ∀ other ∈ input.subjects, other ≠ subject → ∀ body ∈ subjectBodies input other, x.hits body flow = false := by
    intro other hother hne body hbody
    rw [← Bool.not_eq_true]
    intro hhits
    obtain ⟨tag', hrouted', hemitted⟩ := emitted_subjectBodies hbody
    have htag : tag = tag' := hflow.symm.trans (hemitted.inboundTag_of_hits hhits)
    exact hne (htags other hother subject hsubject tag (htag ▸ hrouted') hrouted)
  refine ⟨?_, hothers⟩
  have hdestined : ∀ s ∈ sortSubjects input.subjects, ∀ body ∈ subjectBodies input s,
      (destination (plan input).outbound body).isSome = true := by
    intro s _ body hbody
    obtain ⟨_, -, hemitted⟩ := emitted_subjectBodies hbody
    exact hemitted.isSome_destination
  rw [xrayRules_plan, route_flatMap hdestined, findSome?_of_mem (mem_sortSubjects.mpr hsubject)]
  · exact route_subjectBodies hinput hvocabulary hnetwork hsubject hrouted hflow
  · exact fun other hother hne => route_eq_none (hothers other (mem_sortSubjects.mp hother) hne)

theorem compile_keeps_intent_narrowed :
    route Sample.xray (plan (Sample.input [Sample.toExit (.string "tcp,udp")])).outbound
        (plan (Sample.input [Sample.toExit (.string "tcp,udp")])).xrayRules ("a-in", .udp, false) = some (.operator "blocked") := by
  have hrules : ∀ rule ∈ (Sample.input [Sample.toExit (.string "tcp,udp")]).rules, rule = Sample.toExit (.string "tcp,udp") :=
    fun rule hrule => mem_singleton.mp hrule
  have htags : (Sample.input [Sample.toExit (.string "tcp,udp")]).OperatorTags := by
    refine ⟨?_, ?_, fun rule hrule hkind => ?_, fun exit hexit => ?_⟩
    · unfold OperatorTag
      decide
    · unfold OperatorTag
      decide
    · rw [hrules rule hrule] at hkind
      cases hkind
    · rw [mem_singleton.mp hexit]
      unfold OperatorTag
      decide
  have hvocabulary : ∀ rule ∈ (Sample.input [Sample.toExit (.string "tcp,udp")]).rules, rule.InVocabulary := by
    intro rule hrule
    rw [hrules rule hrule]
    unfold Rule.InVocabulary
    decide
  have hnetwork : ∀ rule ∈ (Sample.input [Sample.toExit (.string "tcp,udp")]).rules, ∀ v,
      rule.criteria.get? "network" = some v → ∃ s, v = .string s ∧ Sample.xray.Agrees s := by
    intro rule hrule v hv
    rw [hrules rule hrule] at hv
    cases hv
    exact ⟨_, rfl, fun n => by cases n <;> decide⟩
  have hkeeps := compile_keeps_intent Sample.xray (Sample.input [Sample.toExit (.string "tcp,udp")])
    (fun s hs s' hs' _ _ _ => (mem_singleton.mp hs).trans (mem_singleton.mp hs').symm) htags hvocabulary
    fun rule hrule _ => hnetwork rule hrule
  refine ((hkeeps.2 Sample.inbound (mem_singleton_self _) "a-in" rfl ("a-in", .udp, false) rfl).1).trans ?_
  decide +kernel

/-- A guarded subject that no rule names has no guard. -/
theorem intent_is_not_kept :
    Sample.inbound.guarded = true ∧ Sample.xray.privateDest ("a-in", .tcp, true) = true ∧
      route Sample.xray (plan (Sample.input [])).outbound (plan (Sample.input [])).xrayRules ("a-in", .tcp, true) =
        none := by
  decide +kernel

end Routing

end Pui
