import Mathlib
import Pui.Routing

/-!
# Flows through the compiled rules

How Xray reads a rule that the compile emits (`Xray.hits`), and the rules of the compile subject by subject.
-/

namespace Pui

open Table List Option

namespace Routing

variable {subject : Subject} {input : Input} {o : Outbound}

/-- The networks of a flow. -/
inductive Network where
  | tcp
  | udp
  deriving DecidableEq

/-- What the router of Xray makes of a criterion. Xray is not part of the panel: its flows, the names it reads as a network
and the meaning of each criterion are arbitrary, apart from `"tcp"` and `"udp"` themselves. -/
structure Xray (Flow : Type) where
  inboundTag : Flow → String
  network : Flow → Network
  names : String → Network → Bool
  criterion : String → Json → Flow → Bool
  names_tcp : ∀ n, names "tcp" n = decide (n = .tcp)
  names_udp : ∀ n, names "udp" n = decide (n = .udp)

namespace Xray

variable {Flow : Type} (x : Xray Flow)

/-- A string lists networks, separated by commas. -/
def namesOne (s : String) (n : Network) : Bool := (s.toList.splitOn ',').any fun part => x.names (String.ofList part) n

/-- A network criterion lets a flow through. -/
def reads (value : Json) (flow : Flow) : Bool :=
  match value with
  | .null => true
  | .string s => x.namesOne s (x.network flow)
  | .array items => items.any fun item =>
    match item with
    | .string part => x.names part (x.network flow)
    | _ => x.criterion "network" value flow
  | _ => x.criterion "network" value flow

/-- One entry of a rule lets a flow through; the entries that name the destination do not restrict it. -/
def entry (flow : Flow) (key : String) (value : Json) : Bool :=
  if key = "inboundTag" then
    match value with
    | .array tags => tags.contains (.string (x.inboundTag flow))
    | _ => x.criterion key value flow
  else if key = "network" then x.reads value flow
  else ["type", "outboundTag", "balancerTag"].contains key || x.criterion key value flow

/-- A rule matches a flow that all its entries let through. -/
def hits (body : Body) (flow : Flow) : Bool := body.entries.all fun e => x.entry flow e.1 e.2

/-- The destination of the flow is private. -/
def privateDest (flow : Flow) : Bool := x.criterion "ip" (.strings ["geoip:private"]) flow

/-- The entries of the body outside `skip` let the flow through. -/
def Meets (flow : Flow) (skip : List String) (body : Body) : Prop :=
  ∀ k v, k ∉ skip → body.get? k = some v → x.entry flow k v = true

variable {x} {flow : Flow} {skip : List String} {body : Body} {k : String} {v : Json}

@[simp] theorem reads_string (s : String) : x.reads (.string s) flow = x.namesOne s (x.network flow) := rfl

@[simp] theorem namesOne_tcp (n : Network) : x.namesOne "tcp" n = decide (n = .tcp) := by
  have hparts : x.namesOne "tcp" n = (x.names "tcp" n || false) := rfl
  rw [hparts, Bool.or_false, x.names_tcp]

@[simp] theorem namesOne_udp (n : Network) : x.namesOne "udp" n = decide (n = .udp) := by
  have hparts : x.namesOne "udp" n = (x.names "udp" n || false) := rfl
  rw [hparts, Bool.or_false, x.names_udp]

theorem hits_iff : x.hits body flow = true ↔ x.Meets flow [] body := by
  unfold hits Meets
  rw [List.all_eq_true]
  constructor
  · intro h k v _ hv
    exact h ⟨k, v⟩ (mem_entries.mpr hv)
  · rintro h ⟨k, v⟩ he
    exact h k v (by simp) (mem_entries.mp he)

theorem meets_put (hk : k ∉ skip) : x.Meets flow skip (body.put k v) ↔ x.entry flow k v = true ∧ x.Meets flow (k :: skip) body := by
  constructor
  · intro h
    refine ⟨h k v hk (get?_put_self _ _ _), fun k' v' hk' hv' => ?_⟩
    rw [mem_cons, not_or] at hk'
    exact h k' v' hk'.2 (by rw [get?_put_of_ne hk'.1, hv'])
  · rintro ⟨hentry, h⟩ k' v' hk' hv'
    by_cases heq : k' = k
    · subst heq
      rw [get?_put_self, Option.some.injEq] at hv'
      rw [← hv']
      exact hentry
    · rw [get?_put_of_ne heq] at hv'
      exact h k' v' (by simp [heq, hk']) hv'

theorem meets_put_of_mem (hk : k ∈ skip) : x.Meets flow skip (body.put k v) ↔ x.Meets flow skip body := by
  refine forall₂_congr fun k' v' => imp_congr_right fun hk' => ?_
  have hne : k' ≠ k := fun h => hk' (h ▸ hk)
  rw [get?_put_of_ne hne]

theorem meets_of_absent {skip' : List String} (habsent : ∀ k ∈ skip, k ∉ skip' → body.get? k = none) (hsub : ∀ k ∈ skip', k ∈ skip) :
    x.Meets flow skip body ↔ x.Meets flow skip' body := by
  constructor
  · intro h k v hk hv
    refine h k v (fun hmem => ?_) hv
    rw [habsent k hmem hk] at hv
    cases hv
  · intro h k v hk hv
    exact h k v (fun hmem => hk (hsub k hmem)) hv

theorem meets_drop : x.Meets flow [] (body.drop k) ↔ x.Meets flow [k] body := by
  constructor
  · intro h k' v' hk' hv'
    rw [mem_singleton] at hk'
    exact h k' v' (by simp) (by rw [get?_drop, if_neg hk', hv'])
  · intro h k' v' _ hv'
    rw [get?_drop] at hv'
    split at hv'
    · cases hv'
    · next hk' => exact h k' v' (by simpa using hk') hv'

end Xray

def Subject.resolvedTag (input : Input) (subject : Subject) : Option String :=
  if subject.handle.tag = "" then ((input.frontIDFor subject.inboundID).filter validEgressID).map egressDevice
  else some subject.handle.tag

def Subject.routed (input : Input) (subject : Subject) : Option String :=
  if subject.handle.blockedKey ≠ "" then none else subject.resolvedTag input

def Subject.guarded (subject : Subject) : Bool := subject.handle.tag = "" || subject.bridged

def Subject.pattern (subject : Subject) : Pattern := if subject.handle.tag = "" then .inspected else .proxy

def blackholeName (input : Input) : String := if input.blackhole ≠ "" then input.blackhole else synthBlockTag

def blackholeNeeds (input : Input) : List Outbound := if input.blackhole ≠ "" then [] else [blackholeOutbound synthBlockTag]

def ruleBodies (input : Input) (subject : Subject) (tag : String) (rule : Rule) : List Body :=
  let r := compileRule input rule subject tag subject.pattern
  r.1.toList ++ if r.2.1.messageKey = keyExitTCPNarrowed then [udpCompanion (r.1.getD ∅) (blackholeName input)] else []

def ruleNeeds (input : Input) (subject : Subject) (tag : String) (rule : Rule) : List Outbound :=
  let r := compileRule input rule subject tag subject.pattern
  (if r.2.1.messageKey = keyExitTCPNarrowed then blackholeNeeds input else []) ++ r.2.2.toList

def groupedRules (input : Input) (subject : Subject) : List Rule := ((groupRules input).get? subject.inboundID).getD []

def subjectBodies (input : Input) (subject : Subject) : List Body :=
  match subject.routed input with
  | none => []
  | some tag =>
    if groupedRules input subject = [] then []
    else (if subject.guarded then [guardRule tag (blackholeName input)] else []) ++
      (groupedRules input subject).flatMap (ruleBodies input subject tag)

def subjectNeeds (input : Input) (subject : Subject) : List Outbound :=
  match subject.routed input with
  | none => []
  | some tag =>
    if groupedRules input subject = [] then []
    else (if subject.guarded then blackholeNeeds input else []) ++ (groupedRules input subject).flatMap (ruleNeeds input subject tag)

def emitOnce (s : List Outbound × List String) (outbound : Outbound) : List Outbound × List String :=
  if outbound.tag ∈ s.2 then s else (s.1 ++ [outbound], outbound.tag :: s.2)

def subjectTags (input : Input) (subject : Subject) : List String :=
  if subject.handle.blockedKey = "" ∧ subject.handle.tag ≠ "" ∧ inspectedBy (groupedRules input subject) subject then [subject.handle.tag]
  else []

def subjectFronts (input : Input) (subject : Subject) : List FrontSpec :=
  if groupedRules input subject = [] ∨ subject.handle.blockedKey ≠ "" ∨ subject.handle.tag ≠ "" then []
  else ((input.frontIDFor subject.inboundID).filter validEgressID).toList.map fun id =>
    ⟨id, inspectedBy (groupedRules input subject) subject⟩

/-- A part of the compile emits rules, needs outbounds and asks for inspection. -/
structure Grows (c : Compiling) (bodies : List Body) (needs : List Outbound) (tags : List String) (fronts : List FrontSpec)
    (c' : Compiling) : Prop where
  rules : c'.out.xrayRules = c.out.xrayRules ++ bodies
  outbounds : (c'.out.outbounds, c'.emitted) = needs.foldl emitOnce (c.out.outbounds, c.emitted)
  tags : c'.out.inspectTags = c.out.inspectTags ++ tags
  fronts : c'.out.fronts = c.out.fronts ++ fronts

namespace Grows

variable {c c' c'' : Compiling} {bodies bodies' : List Body} {needs needs' : List Outbound} {tags tags' : List String}
  {fronts fronts' : List FrontSpec}

theorem refl (c : Compiling) : Grows c [] [] [] [] c :=
  ⟨(append_nil _).symm, rfl, (append_nil _).symm, (append_nil _).symm⟩

theorem trans (h : Grows c bodies needs tags fronts c') (h' : Grows c' bodies' needs' tags' fronts' c'') :
    Grows c (bodies ++ bodies') (needs ++ needs') (tags ++ tags') (fronts ++ fronts') c'' := by
  refine ⟨?_, ?_, ?_, ?_⟩
  · rw [h'.rules, h.rules, append_assoc]
  · rw [h'.outbounds, h.outbounds, foldl_append]
  · rw [h'.tags, h.tags, append_assoc]
  · rw [h'.fronts, h.fronts, append_assoc]

theorem foldl {α : Type} {f : Compiling → α → Compiling} {bodiesOf : α → List Body} {needsOf : α → List Outbound}
    {tagsOf : α → List String} {frontsOf : α → List FrontSpec} {l : List α}
    (hstep : ∀ c, ∀ a ∈ l, Grows c (bodiesOf a) (needsOf a) (tagsOf a) (frontsOf a) (f c a)) (c : Compiling) :
    Grows c (l.flatMap bodiesOf) (l.flatMap needsOf) (l.flatMap tagsOf) (l.flatMap frontsOf) (l.foldl f c) := by
  induction l generalizing c with
  | nil => exact refl c
  | cons a l ih =>
    exact (hstep c a mem_cons_self).trans (ih (fun c b hb => hstep c b (mem_cons_of_mem a hb)) _)

theorem emit (c : Compiling) (outbound : Outbound) : Grows c [] [outbound] [] [] (c.emit outbound) := by
  unfold Compiling.emit
  by_cases hmem : outbound.tag ∈ c.emitted
  · rw [if_pos hmem]
    exact ⟨(append_nil _).symm, (if_pos hmem).symm, (append_nil _).symm, (append_nil _).symm⟩
  · rw [if_neg hmem]
    exact ⟨(append_nil _).symm, (if_neg hmem).symm, (append_nil _).symm, (append_nil _).symm⟩

theorem addRule (c : Compiling) (body : Body) : Grows c [body] [] [] [] (c.addRule body) :=
  ⟨rfl, rfl, (append_nil _).symm, (append_nil _).symm⟩

theorem addDiag (c : Compiling) (diag : Diag) : Grows c [] [] [] [] (c.addDiag diag) := { refl c with }

theorem blackholeTag (input : Input) (c : Compiling) : (c.blackholeTag input).1 = blackholeName input ∧
    Grows c [] (blackholeNeeds input) [] [] (c.blackholeTag input).2 := by
  unfold Compiling.blackholeTag blackholeName blackholeNeeds
  split
  · exact ⟨rfl, refl c⟩
  · exact ⟨rfl, emit c _⟩

theorem addBlackhole (input : Input) (rule : String → Body) (c : Compiling) :
    Grows c [rule (blackholeName input)] (blackholeNeeds input) [] []
      ((c.blackholeTag input).2.addRule (rule (c.blackholeTag input).1)) := by
  obtain ⟨hname, hgrows⟩ := blackholeTag input c
  have hrule := hgrows.trans (addRule (c.blackholeTag input).2 (rule (blackholeName input)))
  rw [append_nil] at hrule
  rw [hname]
  exact hrule

theorem planRule (input : Input) (subject : Subject) (tag : String) (c : Compiling) (rule : Rule) :
    Grows c (ruleBodies input subject tag rule) (ruleNeeds input subject tag rule) [] []
      (Compiling.planRule input subject tag subject.pattern c rule) := by
  unfold ruleBodies ruleNeeds Compiling.planRule
  rcases compileRule input rule subject tag subject.pattern with ⟨xrayRule, diag, outbound⟩
  dsimp only
  have hrule : Grows c xrayRule.toList [] [] [] (xrayRule.elim (c.addDiag diag) (c.addDiag diag).addRule) := by
    cases xrayRule with
    | none => exact addDiag c diag
    | some body => exact (addDiag c diag).trans (addRule _ body)
  generalize xrayRule.elim (c.addDiag diag) (c.addDiag diag).addRule = c₁ at hrule ⊢
  have hcompanion : Grows c₁ (if diag.messageKey = keyExitTCPNarrowed then [udpCompanion (xrayRule.getD ∅) (blackholeName input)] else [])
      (if diag.messageKey = keyExitTCPNarrowed then blackholeNeeds input else []) [] []
      (if diag.messageKey = keyExitTCPNarrowed then
        (c₁.blackholeTag input).2.addRule (udpCompanion (xrayRule.getD ∅) (c₁.blackholeTag input).1) else c₁) := by
    split
    · exact addBlackhole input (udpCompanion (xrayRule.getD ∅)) c₁
    · exact refl c₁
  have hboth := hrule.trans hcompanion
  rw [nil_append] at hboth
  cases outbound with
  | none =>
    rw [toList_none, append_nil]
    exact hboth
  | some outbound =>
    have hall := hboth.trans (emit _ outbound)
    rw [append_nil] at hall
    exact hall

theorem planRules (input : Input) (subject : Subject) (tag : String) (c : Compiling) (guarded : Bool) :
    Grows c ((if guarded then [guardRule tag (blackholeName input)] else []) ++
        (groupedRules input subject).flatMap (ruleBodies input subject tag))
      ((if guarded then blackholeNeeds input else []) ++ (groupedRules input subject).flatMap (ruleNeeds input subject tag)) [] []
      ((groupedRules input subject).foldl (Compiling.planRule input subject tag subject.pattern)
        (if guarded then c.addGuard input tag else c)) := by
  have hguard : Grows c (if guarded then [guardRule tag (blackholeName input)] else []) (if guarded then blackholeNeeds input else [])
      [] [] (if guarded then c.addGuard input tag else c) := by
    split
    · exact addBlackhole input (guardRule tag) c
    · exact refl c
  have hall := hguard.trans (foldl (l := groupedRules input subject) (fun c rule _ => planRule input subject tag c rule) _)
  have hnone {β : Type} : ((groupedRules input subject).flatMap fun _ => ([] : List β)) = [] :=
    flatMap_eq_nil_iff.mpr fun _ _ => rfl
  simpa only [nil_append, hnone] using hall

theorem diags {f : Rule → Diag} (rules : List Rule) (c : Compiling) :
    Grows c [] [] [] [] (rules.foldl (fun c rule => c.addDiag (f rule)) c) := by
  induction rules generalizing c with
  | nil => exact refl c
  | cons rule rules ih => exact (addDiag c (f rule)).trans (ih _)

theorem planSubject (input : Input) (c : Compiling) (subject : Subject) :
    Grows c (subjectBodies input subject) (subjectNeeds input subject) (subjectTags input subject) (subjectFronts input subject)
      (Compiling.planSubject input (groupRules input) c subject) := by
  unfold subjectBodies subjectNeeds subjectTags subjectFronts Compiling.planSubject Subject.routed Subject.resolvedTag
  change Grows c _ _ _ _ (if groupedRules input subject = [] then c else _)
  by_cases hrules : groupedRules input subject = []
  · simp only [hrules, inspectedBy, any_nil, Bool.false_eq_true, and_false, if_false, true_or, if_true]
    split <;> exact refl c
  by_cases hblocked : subject.handle.blockedKey = ""
  · by_cases htag : subject.handle.tag = ""
    · simp only [hrules, hblocked, htag, ne_eq, not_true_eq_false, false_and, and_false, if_false, or_false, if_true]
      cases hfront : (input.frontIDFor subject.inboundID).filter validEgressID with
      | none => exact diags _ c
      | some frontID =>
        have hpattern : subject.pattern = .inspected := if_pos htag
        have hguarded : subject.guarded = true := by simp [Subject.guarded, htag]
        have hfronted : Grows c [] [] [] [⟨frontID, inspectedBy (groupedRules input subject) subject⟩]
            (c.addFront ⟨frontID, inspectedBy (groupedRules input subject) subject⟩) := { refl c with fronts := rfl }
        have hall := hfronted.trans (planRules input subject (egressDevice frontID) _ subject.guarded)
        rw [hpattern] at hall
        simp only [hguarded, if_true] at hall ⊢
        exact hall
    · simp only [hrules, hblocked, htag, ne_eq, not_true_eq_false, not_false_eq_true, true_and, if_false, or_true, if_true]
      have hpattern : subject.pattern = .proxy := if_neg htag
      have hguarded : subject.guarded = subject.bridged := by simp [Subject.guarded, htag]
      have hinspect : Grows c [] [] (if inspectedBy (groupedRules input subject) subject = true then [subject.handle.tag] else []) []
          (if inspectedBy (groupedRules input subject) subject = true then c.addInspectTag subject.handle.tag else c) := by
        split
        · exact { refl c with tags := rfl }
        · exact refl c
      have hall := hinspect.trans (planRules input subject subject.handle.tag _ subject.guarded)
      rw [hpattern, append_nil] at hall
      rw [← hguarded]
      exact hall
  · simp only [hrules, hblocked, ne_eq, not_false_eq_true, false_and, if_false, if_true, true_or, or_true]
    exact diags _ c

end Grows

theorem grows_plan (input : Input) :
    Grows {} ((sortSubjects input.subjects).flatMap (subjectBodies input)) ((sortSubjects input.subjects).flatMap (subjectNeeds input))
      ((sortSubjects input.subjects).flatMap (subjectTags input)) ((sortSubjects input.subjects).flatMap (subjectFronts input))
      ((sortSubjects input.subjects).foldl (Compiling.planSubject input (groupRules input)) {}) :=
  Grows.foldl (fun c subject _ => Grows.planSubject input c subject) {}

theorem xrayRules_plan (input : Input) :
    (plan input).xrayRules = (sortSubjects input.subjects).flatMap (subjectBodies input) := (grows_plan input).rules

theorem outbounds_plan (input : Input) :
    (plan input).outbounds = (((sortSubjects input.subjects).flatMap (subjectNeeds input)).foldl emitOnce ([], [])).1 :=
  congrArg Prod.fst (grows_plan input).outbounds

theorem inspectTags_plan (input : Input) :
    (plan input).inspectTags = (sortSubjects input.subjects).flatMap (subjectTags input) := (grows_plan input).tags

theorem fronts_plan (input : Input) :
    (plan input).fronts = (sortSubjects input.subjects).flatMap (subjectFronts input) := (grows_plan input).fronts

theorem mem_sortSubjects {subjects : List Subject} : subject ∈ sortSubjects subjects ↔ subject ∈ subjects :=
  mem_mergeSort

theorem foldl_emitOnce (needs : List Outbound) {s : List Outbound × List String} (hs : ∀ tag ∈ s.2, ∃ o ∈ s.1, o.tag = tag) :
    (∀ o ∈ (needs.foldl emitOnce s).1, o ∈ s.1 ∨ o ∈ needs) ∧ (∀ o ∈ s.1, o ∈ (needs.foldl emitOnce s).1) ∧
      ∀ o ∈ needs, ∃ o' ∈ (needs.foldl emitOnce s).1, o'.tag = o.tag := by
  induction needs generalizing s with
  | nil => exact ⟨fun o ho => .inl ho, fun o ho => ho, fun o ho => (nomatch ho)⟩
  | cons need needs ih =>
    rw [foldl_cons]
    by_cases hmem : need.tag ∈ s.2
    · have hstep : emitOnce s need = s := if_pos hmem
      obtain ⟨hfrom, hkept, hneeds⟩ := ih hs
      rw [hstep]
      refine ⟨fun o ho => (hfrom o ho).imp id (mem_cons_of_mem _), hkept, forall_mem_cons.mpr ⟨?_, hneeds⟩⟩
      obtain ⟨o, ho, htag⟩ := hs need.tag hmem
      exact ⟨o, hkept o ho, htag⟩
    · have hstep : emitOnce s need = (s.1 ++ [need], need.tag :: s.2) := if_neg hmem
      have hs' : ∀ tag ∈ need.tag :: s.2, ∃ o ∈ s.1 ++ [need], o.tag = tag := by
        refine forall_mem_cons.mpr ⟨⟨need, by simp, rfl⟩, fun tag htag => ?_⟩
        obtain ⟨o, ho, heq⟩ := hs tag htag
        exact ⟨o, mem_append_left _ ho, heq⟩
      obtain ⟨hfrom, hkept, hneeds⟩ := ih (s := (s.1 ++ [need], need.tag :: s.2)) hs'
      rw [hstep]
      refine ⟨fun o ho => ?_, fun o ho => hkept o (mem_append_left _ ho), forall_mem_cons.mpr ⟨?_, hneeds⟩⟩
      · rcases hfrom o ho with h | h
        · rcases mem_append.mp h with h | h
          · exact .inl h
          · rw [mem_singleton] at h
            exact .inr (h ▸ mem_cons_self)
        · exact .inr (mem_cons_of_mem _ h)
      · exact ⟨need, hkept need (by simp), rfl⟩

def sortRules (rules : List Rule) : List Rule := rules.mergeSort fun a b => decide (a.sortIndex ≤ b.sortIndex)

def Rule.ids (input : Input) (rule : Rule) : List Int :=
  if rule.scope = .all then input.subjects.map Subject.inboundID else rule.ingressIDs

def namedRules (input : Input) (subject : Subject) : List Rule :=
  (sortRules input.rules).filter fun rule => rule.enable && (rule.ids input).contains subject.inboundID

theorem get?_append_ids (ids : List Int) (rule : Rule) (out : Table Int (List Rule)) (id : Int) :
    ((ids.foldl (fun out id => out.put id ((out.get? id).getD [] ++ [rule])) out).get? id).getD [] =
      (out.get? id).getD [] ++ List.replicate (ids.count id) rule := by
  induction ids generalizing out with
  | nil => simp
  | cons id' ids ih =>
    rw [foldl_cons, ih]
    by_cases hid : id = id'
    · subst hid
      rw [get?_put_self, getD_some, count_cons_self, Nat.add_comm, replicate_add, append_assoc]
      rfl
    · rw [get?_put_of_ne hid, count_cons_of_ne (Ne.symm hid)]

theorem groupedRules_eq (input : Input) (subject : Subject) : groupedRules input subject =
    (sortRules input.rules).flatMap fun rule =>
      List.replicate (if rule.enable then (rule.ids input).count subject.inboundID else 0) rule := by
  have hfold : ∀ (rules : List Rule) (out : Table Int (List Rule)),
      ((rules.foldl (fun out rule => if !rule.enable then out else
        (rule.ids input).foldl (fun out id => out.put id ((out.get? id).getD [] ++ [rule])) out) out).get? subject.inboundID).getD [] =
      (out.get? subject.inboundID).getD [] ++ rules.flatMap fun rule =>
        List.replicate (if rule.enable then (rule.ids input).count subject.inboundID else 0) rule := by
    intro rules
    induction rules with
    | nil => exact fun out => by simp
    | cons rule rules ih =>
      intro out
      rw [foldl_cons, ih, flatMap_cons]
      cases henable : rule.enable with
      | false => simp
      | true =>
        simp only [Bool.not_true, Bool.false_eq_true, if_false, if_true]
        rw [get?_append_ids, append_assoc]
  exact (hfold (sortRules input.rules) ∅).trans (by simp)

/-- An enabled rule of the input names the subject. -/
def Rule.Names (input : Input) (subject : Subject) (rule : Rule) : Prop :=
  rule ∈ input.rules ∧ rule.enable = true ∧ subject.inboundID ∈ rule.ids input

theorem mem_groupedRules {rule : Rule} : rule ∈ groupedRules input subject ↔ rule.Names input subject := by
  rw [groupedRules_eq, mem_flatMap]
  constructor
  · rintro ⟨rule', hrule', hmem⟩
    obtain ⟨hcount, rfl⟩ := mem_replicate.mp hmem
    refine ⟨mem_mergeSort.mp hrule', ?_⟩
    split at hcount
    · next henable =>
      exact ⟨henable, count_pos_iff.mp (Nat.pos_of_ne_zero hcount)⟩
    · exact absurd rfl hcount
  · rintro ⟨hrule, henable, hid⟩
    refine ⟨rule, mem_mergeSort.mpr hrule, mem_replicate.mpr ⟨?_, rfl⟩⟩
    rw [if_pos henable]
    exact (count_pos_iff.mpr hid).ne'

theorem findSome?_groupedRules {β : Type} (input : Input) (subject : Subject) (f : Rule → Option β) :
    (groupedRules input subject).findSome? f = (namedRules input subject).findSome? f := by
  rw [groupedRules_eq, namedRules]
  induction sortRules input.rules with
  | nil => rfl
  | cons rule rules ih =>
    rw [flatMap_cons, List.findSome?_append, ih, List.findSome?_replicate]
    cases henable : rule.enable with
    | false => simp [henable]
    | true =>
      by_cases hmem : subject.inboundID ∈ rule.ids input
      · have hcount : (rule.ids input).count subject.inboundID ≠ 0 := by
          rw [Ne, count_eq_zero, not_not]
          exact hmem
        rw [if_pos rfl, if_neg hcount, filter_cons_of_pos (by simp [henable, hmem]), List.findSome?_cons]
        cases f rule <;> rfl
      · have hcount : (rule.ids input).count subject.inboundID = 0 := count_eq_zero.mpr hmem
        rw [if_pos rfl, if_pos hcount, filter_cons_of_neg (by simp [hmem])]
        rfl

theorem groupedRules_eq_nil : groupedRules input subject = [] ↔ namedRules input subject = [] := by
  have hfirst := findSome?_groupedRules input subject some
  constructor
  · intro h
    rw [h] at hfirst
    cases hnamed : namedRules input subject with
    | nil => rfl
    | cons rule rules =>
      rw [hnamed] at hfirst
      cases hfirst
  · intro h
    rw [h] at hfirst
    cases hgrouped : groupedRules input subject with
    | nil => rfl
    | cons rule rules =>
      rw [hgrouped] at hfirst
      cases hfirst

end Routing

end Pui
