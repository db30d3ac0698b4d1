import Pui.RoutingFlows

/-!
# What a rule compiles to

The compile of a rule beside where the operator means its flows to go (`Compiles`).
-/

namespace Pui

open Table List Option

namespace Routing

variable {input : Input} {subject : Subject} {rule : Rule} {tag : String} {exit : ResolvedExit} {o : Outbound}

/-! ### Synthesized outbounds -/

def exitOutbound (exit : ResolvedExit) : Outbound :=
  match exit.kind with
  | .socksPort => socksOutbound (exitOutboundTag exit.id) exit.handle.socksPort
  | _ => markedOutbound (exitOutboundTag exit.id) (egressMark exit.id)

inductive Synthesized (input : Input) : Outbound → Prop
  | block : Synthesized input (blackholeOutbound synthBlockTag)
  | exit (id : Int) (exit : ResolvedExit) (h : findExit input.exits id = some exit) : Synthesized input (exitOutbound exit)

theorem exitOutbound_tag (exit : ResolvedExit) : (exitOutbound exit).tag = exitOutboundTag exit.id := by
  unfold exitOutbound
  split <;> rfl

theorem exitOutboundTag_inj {id id' : Int} (h : exitOutboundTag id = exitOutboundTag id') : id = id' := by
  unfold exitOutboundTag at h
  rwa [String.append_right_inj, Int.toString_eq_repr, Int.toString_eq_repr, Int.repr_inj] at h

theorem exitOutboundTag_ne_block (id : Int) : exitOutboundTag id ≠ synthBlockTag := by
  intro h
  have hid : toString id = "block" := (String.append_right_inj "pex").mp h
  rw [Int.toString_eq_repr, Int.repr_eq_if] at hid
  split at hid
  · rw [Nat.repr_eq_ofList_toDigits] at hid
    have hchars := congrArg String.toList hid
    rw [String.toList_ofList] at hchars
    have hdigit : 'b'.isDigit = true := Nat.isDigit_of_mem_toDigits (b := 10) (by decide) (by decide) (by rw [hchars]; decide)
    exact absurd hdigit (by decide)
  · have hchars := congrArg String.toList hid
    rw [String.toList_append] at hchars
    exact absurd (List.cons.inj hchars).1 (by decide)

theorem findExit_id {exits : List ResolvedExit} {id : Int} {exit : ResolvedExit} (h : findExit exits id = some exit) : exit.id = id := by
  simpa using List.find?_some h

theorem Synthesized.eq_of_tag {o' : Outbound} (h : Synthesized input o) (h' : Synthesized input o')
    (htag : o.tag = o'.tag) : o = o' := by
  cases h with
  | block =>
    cases h' with
    | block => rfl
    | exit id exit hexit =>
      rw [exitOutbound_tag] at htag
      exact absurd htag.symm (exitOutboundTag_ne_block _)
  | exit id exit hexit =>
    cases h' with
    | block =>
      rw [exitOutbound_tag] at htag
      exact absurd htag (exitOutboundTag_ne_block _)
    | exit id' exit' hexit' =>
      rw [exitOutbound_tag, exitOutbound_tag] at htag
      have hid := exitOutboundTag_inj htag
      rw [findExit_id hexit, findExit_id hexit'] at hid
      rw [hid, hexit', Option.some.injEq] at hexit
      rw [hexit]

def OperatorTag (tag : String) : Prop := ¬"pex".toList <+: tag.toList

theorem Synthesized.not_operator (h : Synthesized input o) : ¬OperatorTag o.tag := by
  rw [OperatorTag, not_not]
  cases h with
  | block => exact ⟨"block".toList, by decide⟩
  | exit id exit _ =>
    rw [exitOutbound_tag, exitOutboundTag, String.toList_append]
    exact prefix_append _ _

/-! ### Where the operator means a flow to go -/

inductive Destination where
  | operator (tag : String)
  | balancer (tag : String)
  | synthesized (outbound : Outbound)
  deriving DecidableEq

def Compiled.outbound (c : Compiled) (tag : String) : Destination :=
  match c.outbounds.find? fun o => o.tag = tag with
  | some o => .synthesized o
  | none => .operator tag

/-- Where blocked traffic goes. -/
def blackholeDest (input : Input) : Destination :=
  if input.blackhole ≠ "" then .operator input.blackhole else .synthesized (blackholeOutbound synthBlockTag)

/-- The subject can honour all criteria of the rule. -/
def Rule.allowed (rule : Rule) (subject : Subject) : Bool :=
  match subject.criteriaMask with
  | none => true
  | some mask => rule.criteria.keys.all mask.contains

/-- The rule is bound for a SOCKS exit that carries TCP only. -/
def Rule.tcpOnly (input : Input) (rule : Rule) : Bool :=
  rule.dest.kind = .exit &&
    (findExit input.exits rule.dest.exitID).any fun exit => exit.kind = .socksPort && exit.handle.tcpOnly

/-- Where a rule for the exit means a flow to go: to the exit; to the blackhole if the exit is contained; to the blackhole
for UDP if the exit carries TCP only and no network or a string of networks was given. None if the rule does not compile. -/
def exitSends (input : Input) (exit : ResolvedExit) (criteria : Body) (network : Network) : Option Destination :=
  match exit.kind with
  | .xrayOutbound => some (.operator exit.handle.xrayTag)
  | .socksPort =>
    if exit.handle.tcpOnly then
      match criteria.get? "network" with
      | none => some (if network = .udp then blackholeDest input else .synthesized (exitOutbound exit))
      | some (.string s) =>
        if (networkParts s).contains "udp" && !(networkParts s).contains "tcp" then none
        else some (if network = .udp then blackholeDest input else .synthesized (exitOutbound exit))
      | some _ => some (.synthesized (exitOutbound exit))
    else some (.synthesized (exitOutbound exit))
  | .device =>
    if exit.handle.source = .panel ∨ exit.handle.device = "" then none
    else if exit.contained then some (blackholeDest input)
    else some (.synthesized (exitOutbound exit))
  | _ => none

/-- Where the rule means a flow to go; none if it does not compile. -/
def Rule.sends (input : Input) (rule : Rule) (network : Network) : Option Destination :=
  match rule.dest.kind with
  | .outbound => some (.operator rule.dest.tag)
  | .balancer => some (.balancer rule.dest.tag)
  | .direct => if input.direct = "" then none else some (.operator input.direct)
  | .block => some (blackholeDest input)
  | .exit => (findExit input.exits rule.dest.exitID).bind fun exit => exitSends input exit rule.criteria network
  | .other _ => none

/-- The destination of the rule can be reached. -/
def Rule.resolves (input : Input) (rule : Rule) : Bool := (rule.sends input .tcp).isSome

/-! ### The compile of a rule -/

/-- The body of a rule before its destination is added. -/
def baseBody (rule : Rule) (tag : String) : Body := (rule.criteria.put "type" (.string "field")).put "inboundTag" (.strings [tag])

theorem get?_baseBody_network : (baseBody rule tag).get? "network" = rule.criteria.get? "network" := by
  rw [baseBody, get?_put_of_ne (by decide), get?_put_of_ne (by decide)]

/-- What narrowing makes of a network. -/
def narrowing : Option Json → NarrowResult
  | some (.string s) =>
    if (networkParts s).contains "udp" && !(networkParts s).contains "tcp" then .refused
    else if (networkParts s).contains "udp" then .warned
    else .silent
  | some .null => .silent
  | _ => .warned

theorem narrowToTCP_eq (body : Body) : narrowToTCP body =
    (narrowing (body.get? "network"), if narrowing (body.get? "network") = .warned then body.put "network" (.string "tcp") else body) := by
  unfold narrowToTCP
  dsimp only
  cases body.get? "network" with
  | none => rfl
  | some v =>
    cases v with
    | string s =>
      unfold narrowing
      dsimp only
      split
      · rfl
      · split <;> rfl
    | _ => rfl

theorem blockDest_eq (body : Body) :
    blockDest input body = (body.put "outboundTag" (.string (blackholeName input)), (blackholeNeeds input).head?) := by
  unfold blockDest blackholeName blackholeNeeds
  split <;> rfl

theorem toList_head?_blackholeNeeds : (blackholeNeeds input).head?.toList = blackholeNeeds input := by
  unfold blackholeNeeds
  split <;> rfl

theorem forbiddenCriterion_eq_none : forbiddenCriterion rule subject = none ↔ rule.allowed subject = true := by
  unfold forbiddenCriterion Rule.allowed
  cases subject.criteriaMask with
  | none => simp
  | some mask => simp [List.find?_eq_none]

structure TCPOnlyRule (input : Input) (subject : Subject) (rule : Rule) (exit : ResolvedExit) : Prop where
  allowed : rule.allowed subject = true
  dest : rule.dest.kind = .exit
  found : findExit input.exits rule.dest.exitID = some exit
  kind : exit.kind = .socksPort
  tcpOnly : exit.handle.tcpOnly = true

theorem TCPOnlyRule.compile (h : TCPOnlyRule input subject rule exit) (tag : String) :
    ruleBodies input subject tag rule =
      (match narrowing (rule.criteria.get? "network") with
      | .refused => []
      | .warned => [((baseBody rule tag).put "network" (.string "tcp")).put "outboundTag" (.string (exitOutboundTag exit.id)),
          udpCompanion (((baseBody rule tag).put "network" (.string "tcp")).put "outboundTag" (.string (exitOutboundTag exit.id)))
            (blackholeName input)]
      | .silent => [(baseBody rule tag).put "outboundTag" (.string (exitOutboundTag exit.id))]) ∧
    ruleNeeds input subject tag rule =
      (match narrowing (rule.criteria.get? "network") with
      | .refused => []
      | .warned => blackholeNeeds input ++ [exitOutbound exit]
      | .silent => [exitOutbound exit]) ∧
    (compileRule input rule subject tag subject.pattern).1 = (ruleBodies input subject tag rule).head? ∧
    (compileRule input rule subject tag subject.pattern).2.1.messageKey =
      match narrowing (rule.criteria.get? "network") with
      | .refused => keyExitTCPOnly
      | .warned => keyExitTCPNarrowed
      | .silent => "" := by
  have hforbidden := forbiddenCriterion_eq_none.mpr h.allowed
  have hown : exitOutbound exit = socksOutbound (exitOutboundTag exit.id) exit.handle.socksPort := by rw [exitOutbound, h.kind]
  have hcompile : compileRule input rule subject tag subject.pattern = compileExit exit input (baseBody rule tag)
      { ruleID := rule.id, subjectTag := subject.tag, pattern := subject.pattern, severity := .ok } := by
    unfold compileRule
    simp only [hforbidden, h.dest, h.found]
    rfl
  unfold ruleBodies ruleNeeds
  rw [hcompile, compileExit, h.kind]
  simp only [h.tcpOnly, if_true, narrowToTCP_eq, get?_baseBody_network, hown]
  cases narrowing (rule.criteria.get? "network") with
  | refused => exact ⟨rfl, rfl, rfl, rfl⟩
  | warned => exact ⟨rfl, rfl, rfl, rfl⟩
  | silent => exact ⟨rfl, rfl, rfl, rfl⟩

structure Input.OperatorTags (input : Input) : Prop where
  blackhole : OperatorTag input.blackhole
  direct : OperatorTag input.direct
  rules : ∀ rule ∈ input.rules, rule.dest.kind = .outbound → OperatorTag rule.dest.tag
  exits : ∀ exit ∈ input.exits, OperatorTag exit.handle.xrayTag

/-- A tag that the operator gave: to the rule, to the direct outbound or to an exit. -/
def Given (input : Input) (rule : Rule) (name : String) : Prop :=
  rule.dest.kind = .outbound ∧ name = rule.dest.tag ∨ name = input.direct ∨ ∃ exit ∈ input.exits, name = exit.handle.xrayTag

theorem Given.operatorTag {name : String} (h : Given input rule name) (hinput : input.OperatorTags) (hrule : rule ∈ input.rules) :
    OperatorTag name := by
  rcases h with ⟨hkind, rfl⟩ | rfl | ⟨exit, hexit, rfl⟩
  · exact hinput.rules rule hrule hkind
  · exact hinput.direct
  · exact hinput.exits exit hexit

/-- The body of a rule that names an outbound. -/
abbrev destined (rule : Rule) (tag name : String) : Body := (baseBody rule tag).put "outboundTag" (.string name)

/-- The body of a rule for a TCP-only exit after its network was narrowed. -/
abbrev narrowed (rule : Rule) (tag name : String) : Body :=
  ((baseBody rule tag).put "network" (.string "tcp")).put "outboundTag" (.string name)

/-- What is emitted for a rule, all that is emitted with it and the outbounds that this needs, beside what the rule means. -/
inductive Compiles (input : Input) (subject : Subject) (rule : Rule) (tag : String) :
    Option Body → List Body → List Outbound → Prop
  | refused (h : rule.allowed subject = true → ∀ n, rule.sends input n = none) : Compiles input subject rule tag none [] []
  | operator (name : String) (hallowed : rule.allowed subject = true) (hname : Given input rule name)
    (h : ∀ n, rule.sends input n = some (.operator name)) :
    Compiles input subject rule tag (some (destined rule tag name)) [destined rule tag name] []
  | balancer (hallowed : rule.allowed subject = true) (h : ∀ n, rule.sends input n = some (.balancer rule.dest.tag)) :
    Compiles input subject rule tag (some ((baseBody rule tag).put "balancerTag" (.string rule.dest.tag)))
      [(baseBody rule tag).put "balancerTag" (.string rule.dest.tag)] []
  | block (hallowed : rule.allowed subject = true) (h : ∀ n, rule.sends input n = some (blackholeDest input)) :
    Compiles input subject rule tag (some (destined rule tag (blackholeName input))) [destined rule tag (blackholeName input)]
      (blackholeNeeds input)
  | exit (exit : ResolvedExit) (hallowed : rule.allowed subject = true)
    (hfound : findExit input.exits rule.dest.exitID = some exit)
    (h : TCPOnlyRule input subject rule exit ∧ narrowing (rule.criteria.get? "network") = .silent ∨
      ∀ n, rule.sends input n = some (.synthesized (exitOutbound exit))) :
    Compiles input subject rule tag (some (destined rule tag (exitOutboundTag exit.id))) [destined rule tag (exitOutboundTag exit.id)]
      [exitOutbound exit]
  | narrowed (exit : ResolvedExit) (h : TCPOnlyRule input subject rule exit)
    (hwarned : narrowing (rule.criteria.get? "network") = .warned) :
    Compiles input subject rule tag (some (narrowed rule tag (exitOutboundTag exit.id)))
      [narrowed rule tag (exitOutboundTag exit.id), udpCompanion (narrowed rule tag (exitOutboundTag exit.id)) (blackholeName input)]
      (blackholeNeeds input ++ [exitOutbound exit])

theorem Compiles.plain {c : Option Body} {diag : Diag} {o : Option Outbound} (hkey : diag.messageKey ≠ keyExitTCPNarrowed)
    (hcompile : compileRule input rule subject tag subject.pattern = (c, diag, o))
    (h : Compiles input subject rule tag c c.toList o.toList) :
    Compiles input subject rule tag (compileRule input rule subject tag subject.pattern).1 (ruleBodies input subject tag rule)
      (ruleNeeds input subject tag rule) := by
  unfold ruleBodies ruleNeeds
  rw [hcompile]
  simp only [if_neg hkey, append_nil, nil_append]
  exact h

theorem TCPOnlyRule.isSome_sends (h : TCPOnlyRule input subject rule exit) (n : Network) :
    (rule.sends input n).isSome = (narrowing (rule.criteria.get? "network") != .refused) := by
  unfold Rule.sends exitSends
  simp only [h.dest, h.found, bind_some, h.kind, h.tcpOnly, if_true]
  cases rule.criteria.get? "network" with
  | none => rfl
  | some v =>
    cases v with
    | string s =>
      dsimp only [narrowing]
      split
      · rfl
      · cases (networkParts s).contains "udp" <;> rfl
    | _ => rfl

theorem TCPOnlyRule.compiles (h : TCPOnlyRule input subject rule exit) (tag : String) :
    Compiles input subject rule tag (compileRule input rule subject tag subject.pattern).1 (ruleBodies input subject tag rule)
      (ruleNeeds input subject tag rule) := by
  obtain ⟨hbodies, hneeds, hfirst, -⟩ := h.compile tag
  rw [hfirst, hbodies, hneeds]
  cases hnarrowing : narrowing (rule.criteria.get? "network") with
  | refused =>
    refine .refused fun _ n => isNone_iff_eq_none.mp ?_
    rw [← not_isSome, h.isSome_sends, hnarrowing]
    rfl
  | warned => exact .narrowed exit h hnarrowing
  | silent => exact .exit exit h.allowed h.found (.inl ⟨h, hnarrowing⟩)

theorem compiles_exit (hallowed : rule.allowed subject = true) (hkind : rule.dest.kind = .exit)
    (hfound : findExit input.exits rule.dest.exitID = some exit) (tag : String) :
    Compiles input subject rule tag (compileRule input rule subject tag subject.pattern).1 (ruleBodies input subject tag rule)
      (ruleNeeds input subject tag rule) := by
  by_cases htcpOnly : exit.kind = .socksPort ∧ exit.handle.tcpOnly = true
  · exact TCPOnlyRule.compiles ⟨hallowed, hkind, hfound, htcpOnly.1, htcpOnly.2⟩ tag
  have hplain : ("" : String) ≠ keyExitTCPNarrowed := by decide
  have hsends : ∀ n, rule.sends input n = exitSends input exit rule.criteria n := by
    intro n
    rw [Rule.sends, hkind]
    dsimp only
    rw [hfound, bind_some]
  have hcompile := compileRule.eq_1 input rule subject tag subject.pattern
  simp only [forbiddenCriterion_eq_none.mpr hallowed, hkind, hfound] at hcompile
  rw [← baseBody, compileExit] at hcompile
  unfold exitSends at hsends
  cases hexit : exit.kind with
  | none | other kind =>
    simp only [hexit] at hcompile hsends
    exact .plain (show keyExitMissing ≠ keyExitTCPNarrowed by decide) hcompile (.refused fun _ => hsends)
  | xrayOutbound =>
    simp only [hexit] at hcompile hsends
    exact .plain hplain hcompile (.operator _ hallowed (.inr (.inr ⟨exit, mem_of_find?_eq_some hfound, rfl⟩)) hsends)
  | socksPort =>
    have hnot : exit.handle.tcpOnly = false := by simpa [hexit] using htcpOnly
    have hown : exitOutbound exit = socksOutbound (exitOutboundTag exit.id) exit.handle.socksPort := by rw [exitOutbound, hexit]
    simp only [hexit, hnot, Bool.false_eq_true, if_false, ← hown] at hcompile hsends
    exact .plain hplain hcompile (.exit exit hallowed hfound (.inr hsends))
  | device =>
    have hown : exitOutbound exit = markedOutbound (exitOutboundTag exit.id) (egressMark exit.id) := by rw [exitOutbound, hexit]
    simp only [hexit, ← hown, blockDest_eq] at hcompile hsends
    split at hcompile
    · next hrefused =>
      simp only [if_pos hrefused] at hsends
      refine .plain ?_ hcompile (.refused fun _ => hsends)
      show (if exit.handle.device = "" then keyNoExitDriver else keyNoSnat) ≠ keyExitTCPNarrowed
      split <;> decide
    · next hkept =>
      simp only [if_neg hkept] at hsends
      split at hcompile
      · next hcontained =>
        simp only [if_pos hcontained] at hsends
        refine .plain (show keyExitContained ≠ keyExitTCPNarrowed by decide) hcompile ?_
        rw [toList_head?_blackholeNeeds]
        exact .block hallowed hsends
      · next hfree =>
        simp only [if_neg hfree] at hsends
        exact .plain hplain hcompile (.exit exit hallowed hfound (.inr hsends))

/-- Every rule compiles. -/
theorem compiles (input : Input) (subject : Subject) (rule : Rule) (tag : String) :
    Compiles input subject rule tag (compileRule input rule subject tag subject.pattern).1 (ruleBodies input subject tag rule)
      (ruleNeeds input subject tag rule) := by
  have hcompile := compileRule.eq_1 input rule subject tag subject.pattern
  have hplain : ("" : String) ≠ keyExitTCPNarrowed := by decide
  have hmissing : keyExitMissing ≠ keyExitTCPNarrowed := by decide
  by_cases hallowed : rule.allowed subject = true
  · simp only [forbiddenCriterion_eq_none.mpr hallowed] at hcompile
    cases hkind : rule.dest.kind with
    | outbound =>
      simp only [hkind] at hcompile
      exact .plain hplain hcompile (.operator _ hallowed (.inl ⟨hkind, rfl⟩) fun n => by rw [Rule.sends, hkind])
    | balancer =>
      simp only [hkind] at hcompile
      exact .plain hplain hcompile (.balancer hallowed fun n => by rw [Rule.sends, hkind])
    | direct =>
      simp only [hkind] at hcompile
      split at hcompile
      · next hnone =>
        exact .plain (show keyNoDefaultOutbound ≠ keyExitTCPNarrowed by decide) hcompile
          (.refused fun _ n => by simp only [Rule.sends, hkind, if_pos hnone])
      · next hsome =>
        exact .plain hplain hcompile
          (.operator _ hallowed (.inr (.inl rfl)) fun n => by simp only [Rule.sends, hkind, if_neg hsome])
    | block =>
      simp only [hkind, blockDest_eq] at hcompile
      refine .plain hplain hcompile ?_
      rw [toList_head?_blackholeNeeds]
      exact .block hallowed fun n => by rw [Rule.sends, hkind]
    | other kind =>
      simp only [hkind] at hcompile
      exact .plain hmissing hcompile (.refused fun _ n => by rw [Rule.sends, hkind])
    | exit =>
      cases hfound : findExit input.exits rule.dest.exitID with
      | none =>
        simp only [hkind, hfound] at hcompile
        exact .plain hmissing hcompile (.refused fun _ n => by simp only [Rule.sends, hkind, hfound, bind_none])
      | some exit => exact compiles_exit hallowed hkind hfound tag
  · obtain ⟨bad, hbad⟩ := ne_none_iff_exists'.mp (mt forbiddenCriterion_eq_none.mp hallowed)
    simp only [hbad] at hcompile
    exact .plain (show keyCriterionUnsupported ≠ keyExitTCPNarrowed by decide) hcompile (.refused fun h => absurd h hallowed)

theorem exists_compiles (input : Input) (subject : Subject) (rule : Rule) (tag : String) :
    ∃ c bodies needs, Compiles input subject rule tag c bodies needs ∧
      (compileRule input rule subject tag subject.pattern).1 = c ∧ ruleBodies input subject tag rule = bodies ∧
      ruleNeeds input subject tag rule = needs := ⟨_, _, _, compiles input subject rule tag, rfl, rfl, rfl⟩

/-- A rule is emitted for a subject that can honour its criteria, if its destination can be reached. -/
theorem isSome_compileRule (input : Input) (rule : Rule) (subject : Subject) (tag : String) :
    (compileRule input rule subject tag subject.pattern).1.isSome = true ↔
      rule.allowed subject = true ∧ rule.resolves input = true := by
  unfold Rule.resolves
  obtain ⟨c, bodies, needs, h, hc, -, -⟩ := exists_compiles input subject rule tag
  rw [hc]
  cases h with
  | refused h =>
    refine iff_of_false (by simp) fun hallowed => ?_
    simp [h hallowed.1] at hallowed
  | operator _ hallowed _ h | balancer hallowed h | block hallowed h => exact iff_of_true rfl ⟨hallowed, by rw [h]; rfl⟩
  | exit exit hallowed _ h =>
    refine iff_of_true rfl ⟨hallowed, ?_⟩
    rcases h with ⟨htcp, hsilent⟩ | h
    · rw [htcp.isSome_sends, hsilent]
      rfl
    · rw [h]
      rfl
  | narrowed exit htcp hwarned => exact iff_of_true rfl ⟨htcp.allowed, by rw [htcp.isSome_sends, hwarned]; rfl⟩

/-! ### What the outbounds of a plan stand for -/

theorem synthesized_needs : ∀ o ∈ subjectNeeds input subject, Synthesized input o := by
  have hblack : ∀ o ∈ blackholeNeeds input, Synthesized input o := by
    intro o ho
    unfold blackholeNeeds at ho
    split at ho
    · cases ho
    · rw [mem_singleton] at ho
      exact ho ▸ .block
  have hrule : ∀ rule tag, ∀ o ∈ ruleNeeds input subject tag rule, Synthesized input o := by
    intro rule tag
    obtain ⟨c, bodies, needs, h, -, -, hneeds⟩ := exists_compiles input subject rule tag
    rw [hneeds]
    cases h with
    | refused | operator | balancer => simp
    | block => exact hblack
    | exit exit _ hfound => exact forall_mem_singleton.mpr (.exit _ exit hfound)
    | narrowed exit h => exact forall_mem_append.mpr ⟨hblack, forall_mem_singleton.mpr (.exit _ exit h.found)⟩
  intro o ho
  unfold subjectNeeds at ho
  split at ho
  · cases ho
  · next tag _ =>
    split at ho
    · cases ho
    · rcases mem_append.mp ho with ho | ho
      · split at ho
        · exact hblack o ho
        · cases ho
      · obtain ⟨rule, -, ho⟩ := mem_flatMap.mp ho
        exact hrule rule tag o ho

theorem outbound_of_operator {tag : String} (h : OperatorTag tag) : (plan input).outbound tag = .operator tag := by
  have hnone : ((plan input).outbounds.find? fun o => o.tag = tag) = none := by
    rw [List.find?_eq_none]
    intro o ho htag
    rw [decide_eq_true_eq] at htag
    rw [outbounds_plan] at ho
    rcases (foldl_emitOnce _ (by simp)).1 o ho with hnil | hneed
    · cases hnil
    · obtain ⟨subject, -, hneed⟩ := mem_flatMap.mp hneed
      exact (synthesized_needs o hneed).not_operator (htag ▸ h)
  rw [Compiled.outbound, hnone]

theorem outbound_of_need (hsubject : subject ∈ input.subjects)
    (ho : o ∈ subjectNeeds input subject) : (plan input).outbound o.tag = .synthesized o := by
  have hneed : o ∈ (sortSubjects input.subjects).flatMap (subjectNeeds input) :=
    mem_flatMap.mpr ⟨subject, mem_sortSubjects.mpr hsubject, ho⟩
  obtain ⟨hfrom, -, hneeds⟩ := foldl_emitOnce ((sortSubjects input.subjects).flatMap (subjectNeeds input)) (s := ([], [])) (by simp)
  rw [← outbounds_plan] at hfrom hneeds
  obtain ⟨o', ho', htag⟩ := hneeds o hneed
  cases hfound : (plan input).outbounds.find? fun p => p.tag = o.tag with
  | none => exact absurd htag (by simpa using List.find?_eq_none.mp hfound o' ho')
  | some p =>
    have hp : p.tag = o.tag := by simpa using List.find?_some hfound
    rcases hfrom p (mem_of_find?_eq_some hfound) with hnil | hmem
    · cases hnil
    · obtain ⟨other, -, hmem⟩ := mem_flatMap.mp hmem
      rw [Compiled.outbound, hfound, (synthesized_needs p hmem).eq_of_tag (synthesized_needs o ho) hp]

end Routing

end Pui
