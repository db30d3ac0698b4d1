import Pui.RoutingIntent

/-!
# What a compile asks for besides rules

The outbounds that a compile synthesizes have different tags, are named by its rules, and are all used.
-/

namespace Pui

open Table List

namespace Routing

variable {input : Input} {subject : Subject} {rule : Rule} {tag : String}

/-- The tags that the operator gives are outside the names of the compile. -/
structure Input.OwnTags (input : Input) : Prop extends input.OperatorTags where
  criteria : ∀ rule ∈ input.rules, ∀ name, rule.criteria.get? "outboundTag" = some (.string name) → OperatorTag name

structure Closed (bodies : List Body) (needs : List Outbound) : Prop where
  used : ∀ o ∈ needs, ∃ body ∈ bodies, body.get? "outboundTag" = some (.string o.tag)
  named : ∀ body ∈ bodies, ∀ name, body.get? "outboundTag" = some (.string name) → OperatorTag name ∨ ∃ o ∈ needs, o.tag = name

namespace Closed

theorem nil : Closed [] [] := ⟨fun _ h => (nomatch h), fun _ h => nomatch h⟩

theorem append {bodies bodies' : List Body} {needs needs' : List Outbound} (h : Closed bodies needs) (h' : Closed bodies' needs') :
    Closed (bodies ++ bodies') (needs ++ needs') := by
  refine ⟨fun o ho => ?_, fun body hbody name hname => ?_⟩
  · rcases mem_append.mp ho with ho | ho
    · obtain ⟨body, hbody, heq⟩ := h.used o ho
      exact ⟨body, mem_append_left _ hbody, heq⟩
    · obtain ⟨body, hbody, heq⟩ := h'.used o ho
      exact ⟨body, mem_append_right _ hbody, heq⟩
  · rcases mem_append.mp hbody with hbody | hbody
    · refine (h.named body hbody name hname).imp id ?_
      rintro ⟨o, ho, heq⟩
      exact ⟨o, mem_append_left _ ho, heq⟩
    · refine (h'.named body hbody name hname).imp id ?_
      rintro ⟨o, ho, heq⟩
      exact ⟨o, mem_append_right _ ho, heq⟩

theorem swap {bodies bodies' : List Body} {needs : List Outbound} (h : Closed (bodies ++ bodies') needs) :
    Closed (bodies' ++ bodies) needs :=
  ⟨fun o ho => (h.used o ho).imp fun _ hb => ⟨mem_append.mpr (mem_append.mp hb.1).symm, hb.2⟩,
    fun b hb => h.named b (mem_append.mpr (mem_append.mp hb).symm)⟩

theorem flatMap {α : Type} {l : List α} {bodies : α → List Body} {needs : α → List Outbound}
    (h : ∀ a ∈ l, Closed (bodies a) (needs a)) : Closed (l.flatMap bodies) (l.flatMap needs) := by
  induction l with
  | nil => exact nil
  | cons a l ih =>
    rw [flatMap_cons, flatMap_cons]
    exact (h a mem_cons_self).append (ih fun b hb => h b (mem_cons_of_mem a hb))

theorem blackhole (hinput : input.OwnTags) {body : Body} (hbody : body.get? "outboundTag" = some (.string (blackholeName input))) :
    Closed [body] (blackholeNeeds input) := by
  unfold blackholeName at hbody
  unfold blackholeNeeds
  split at hbody
  · next hown =>
    rw [if_pos hown]
    refine ⟨fun o ho => (by cases ho), fun body' hbody' name hname => ?_⟩
    rw [mem_singleton.mp hbody', hbody, Option.some.injEq, Json.string.injEq] at hname
    exact .inl (hname ▸ hinput.blackhole)
  · next hnone =>
    rw [if_neg hnone]
    refine ⟨fun o ho => ⟨body, mem_singleton_self _, ?_⟩, fun body' hbody' name hname => ?_⟩
    · rw [mem_singleton.mp ho]
      exact hbody
    · rw [mem_singleton.mp hbody', hbody, Option.some.injEq, Json.string.injEq] at hname
      exact .inr ⟨_, mem_singleton_self _, hname⟩

theorem operator {body : Body} (h : ∀ name, body.get? "outboundTag" = some (.string name) → OperatorTag name) : Closed [body] [] :=
  ⟨fun _ ho => absurd ho not_mem_nil, forall_mem_singleton.mpr fun name hname => .inl (h name hname)⟩

theorem own {body : Body} {o : Outbound} (h : body.get? "outboundTag" = some (.string o.tag)) : Closed [body] [o] := by
  refine ⟨forall_mem_singleton.mpr ⟨body, mem_singleton_self _, h⟩, forall_mem_singleton.mpr fun name hname => ?_⟩
  rw [h, Option.some.injEq, Json.string.injEq] at hname
  exact .inr ⟨o, mem_singleton_self _, hname⟩

theorem ofRule (hinput : input.OwnTags) (hrule : rule ∈ input.rules) (subject : Subject) (tag : String) :
    Closed (ruleBodies input subject tag rule) (ruleNeeds input subject tag rule) := by
  have hexit : ∀ (body : Body) (exit : ResolvedExit),
      Closed [body.put "outboundTag" (.string (exitOutboundTag exit.id))] [exitOutbound exit] := by
    intro body exit
    refine own ?_
    rw [get?_put_self, exitOutbound_tag]
  obtain ⟨c, bodies, needs, h, -, hbodies, hneeds⟩ := exists_compiles input subject rule tag
  rw [hbodies, hneeds]
  cases h with
  | refused => exact nil
  | operator name _ hname =>
    refine operator fun name' hname' => ?_
    rw [get?_put_self, Option.some.injEq, Json.string.injEq] at hname'
    exact hname' ▸ hname.operatorTag hinput.toOperatorTags hrule
  | balancer =>
    -- a balancer leaves whatever tag the criteria carry
    refine operator fun name hname => ?_
    rw [baseBody, get?_put_of_ne (by decide), get?_put_of_ne (by decide), get?_put_of_ne (by decide)] at hname
    exact hinput.criteria rule hrule name hname
  | block => exact blackhole hinput (get?_put_self _ _ _)
  | exit exit => exact hexit _ exit
  | narrowed exit =>
    -- the outbound of the companion comes before that of the rule
    show Closed ([_] ++ [_]) _
    exact ((blackhole hinput (get?_put_self _ _ _)).append (hexit _ exit)).swap

theorem ofSubject (hinput : input.OwnTags) (subject : Subject) : Closed (subjectBodies input subject) (subjectNeeds input subject) := by
  unfold subjectBodies subjectNeeds
  split
  · exact nil
  · next tag _ =>
    split
    · exact nil
    · refine append ?_ (flatMap fun rule hrule => Closed.ofRule hinput (mem_groupedRules.mp hrule).1 subject tag)
      split
      · exact blackhole hinput (get?_put_self _ _ _)
      · exact nil

end Closed

theorem nodup_emitOnce (needs : List Outbound) {s : List Outbound × List String} (hseen : ∀ o ∈ s.1, o.tag ∈ s.2)
    (hnodup : (s.1.map Outbound.tag).Nodup) : ((needs.foldl emitOnce s).1.map Outbound.tag).Nodup := by
  induction needs generalizing s with
  | nil => exact hnodup
  | cons need needs ih =>
    rw [foldl_cons]
    by_cases hmem : need.tag ∈ s.2
    · rw [show emitOnce s need = s from if_pos hmem]
      exact ih hseen hnodup
    · rw [show emitOnce s need = (s.1 ++ [need], need.tag :: s.2) from if_neg hmem]
      apply ih
      · intro o ho
        rcases mem_append.mp ho with ho | ho
        · exact mem_cons_of_mem _ (hseen o ho)
        · rw [mem_singleton.mp ho]
          exact mem_cons_self
      · rw [map_append, nodup_append]
        refine ⟨hnodup, nodup_singleton _, ?_⟩
        rintro _ ha _ hb rfl
        obtain ⟨o, ho, heq⟩ := mem_map.mp ha
        rw [map_singleton, mem_singleton] at hb
        exact hmem (hb ▸ heq ▸ hseen o ho)

/-- The synthesized outbounds are unique, closed and used. -/
theorem outbounds_are_closed (input : Input) (hinput : input.OwnTags) :
    ((plan input).outbounds.map Outbound.tag).Nodup ∧
      (∀ body ∈ (plan input).xrayRules, ∀ name, body.get? "outboundTag" = some (.string name) →
        (name = synthBlockTag ∨ ∃ id, name = exitOutboundTag id) → ((plan input).outbounds.map Outbound.tag).count name = 1) ∧
      ∀ o ∈ (plan input).outbounds, ∃ body ∈ (plan input).xrayRules, body.get? "outboundTag" = some (.string o.tag) := by
  have hnodup : ((plan input).outbounds.map Outbound.tag).Nodup := by
    rw [outbounds_plan]
    exact nodup_emitOnce _ (fun o ho => nomatch ho) nodup_nil
  have hclosed := Closed.flatMap (l := sortSubjects input.subjects) fun s _ => Closed.ofSubject hinput s
  obtain ⟨hfrom, -, hneeds⟩ := foldl_emitOnce ((sortSubjects input.subjects).flatMap (subjectNeeds input)) (s := ([], [])) (by simp)
  rw [← outbounds_plan] at hfrom hneeds
  rw [← xrayRules_plan] at hclosed
  refine ⟨hnodup, fun body hbody name hname hsynth => ?_, fun o ho => ?_⟩
  · have hnot : ¬OperatorTag name := by
      rw [OperatorTag, not_not]
      rcases hsynth with rfl | ⟨id, rfl⟩
      · exact ⟨"block".toList, by decide⟩
      · rw [exitOutboundTag, String.toList_append]
        exact prefix_append _ _
    obtain ⟨o, ho, htag⟩ := (hclosed.named body hbody name hname).resolve_left hnot
    obtain ⟨o', ho', heq⟩ := hneeds o ho
    exact count_eq_one_of_mem hnodup (mem_map.mpr ⟨o', ho', heq.trans htag⟩)
  · rcases hfrom o ho with hnil | hneed
    · cases hnil
    · exact hclosed.used o hneed

theorem outbounds_are_closed_narrowed :
    (plan { Sample.input [Sample.toExit (.string "tcp,udp")] with blackhole := "" }).outbounds.map Outbound.tag = ["pexblock", "pex7"] ∧
      ∀ o ∈ (plan { Sample.input [Sample.toExit (.string "tcp,udp")] with blackhole := "" }).outbounds,
        ∃ body ∈ (plan { Sample.input [Sample.toExit (.string "tcp,udp")] with blackhole := "" }).xrayRules,
          body.get? "outboundTag" = some (.string o.tag) := by
  have hrules : ∀ rule ∈ [Sample.toExit (.string "tcp,udp")], rule = Sample.toExit (.string "tcp,udp") :=
    fun rule hrule => mem_singleton.mp hrule
  refine ⟨by decide +kernel, (outbounds_are_closed { Sample.input [Sample.toExit (.string "tcp,udp")] with blackhole := "" } ?_).2.2⟩
  refine ⟨⟨?_, ?_, fun rule hrule hkind => ?_, fun exit hexit => ?_⟩, fun rule hrule name hname => ?_⟩
  · unfold OperatorTag
    decide
  · unfold OperatorTag
    decide
  · rw [hrules rule hrule] at hkind
    cases hkind
  · rw [mem_singleton.mp hexit]
    unfold OperatorTag
    decide
  · rw [hrules rule hrule] at hname
    cases hname

/-- Inspection is asked for the subject: on its front, or on the inbound with its tag. -/
def Inspected (input : Input) (subject : Subject) : Prop :=
  if subject.handle.tag = "" then
    ∃ id, input.frontIDFor subject.inboundID = some id ∧ ⟨id, true⟩ ∈ (plan input).fronts
  else subject.handle.tag ∈ (plan input).inspectTags

/-- The plan emits a rule for the subject from an enabled rule that needs inspection. -/
def InspectionUsed (input : Input) (subject : Subject) : Prop :=
  ∃ rule, rule.Names input subject ∧ rule.needsInspection = true ∧ ∃ tag body, subject.routed input = some tag ∧
    (compileRule input rule subject tag subject.pattern).1 = some body ∧ body ∈ (plan input).xrayRules

/-- A rule that names the subject needs inspection, and the subject can honour its criteria. -/
def Wants (input : Input) (subject : Subject) (rule : Rule) : Prop :=
  rule.Names input subject ∧ rule.needsInspection = true ∧ rule.allowed subject = true

theorem inspectedBy_iff : inspectedBy (groupedRules input subject) subject = true ↔ ∃ rule, Wants input subject rule := by
  unfold inspectedBy Wants
  simp only [any_eq_true, mem_groupedRules, ← forbiddenCriterion_eq_none, Bool.and_eq_true, Option.isNone_iff_eq_none]
  constructor
  · rintro ⟨rule, hnames, ⟨-, hneeds⟩, hforbidden⟩
    exact ⟨rule, hnames, hneeds, hforbidden⟩
  · rintro ⟨rule, hnames, hneeds, hforbidden⟩
    exact ⟨rule, hnames, ⟨hnames.2.1, hneeds⟩, hforbidden⟩

/-- Inspection is used by the subject exactly if a rule that wants it can be reached. -/
theorem inspectionUsed_iff (hsubject : subject ∈ input.subjects) : InspectionUsed input subject ↔
    (subject.routed input).isSome = true ∧ ∃ rule, Wants input subject rule ∧ rule.resolves input = true := by
  constructor
  · rintro ⟨rule, hnames, hneeds, tag, body, hrouted, hcompile, -⟩
    obtain ⟨hallowed, hresolves⟩ := (isSome_compileRule input rule subject tag).mp (by rw [hcompile]; rfl)
    exact ⟨by rw [hrouted]; rfl, rule, ⟨hnames, hneeds, hallowed⟩, hresolves⟩
  · rintro ⟨hrouted, rule, ⟨hnames, hneeds, hallowed⟩, hresolves⟩
    obtain ⟨tag, hrouted⟩ := Option.isSome_iff_exists.mp hrouted
    obtain ⟨body, hbody⟩ := Option.isSome_iff_exists.mp ((isSome_compileRule input rule subject tag).mpr ⟨hallowed, hresolves⟩)
    refine ⟨rule, hnames, hneeds, tag, body, hrouted, hbody, ?_⟩
    obtain ⟨before, after, hplan⟩ := plan_emits hsubject hrouted (mem_groupedRules.mpr hnames)
    rw [hplan, ruleBodies, hbody]
    simp

theorem egressDevice_inj {id id' : Int} (h : egressDevice id = egressDevice id') : id = id' := by
  unfold egressDevice at h
  rwa [String.append_right_inj, Int.toString_eq_repr, Int.toString_eq_repr, Int.repr_inj] at h

/-- Xray knows the two subjects under one tag: both are fronted, or both are inbounds of its own. -/
def SameTag (input : Input) (subject subject' : Subject) : Prop :=
  (subject.handle.tag = "" ↔ subject'.handle.tag = "") ∧
    ∃ tag, subject.resolvedTag input = some tag ∧ subject'.resolvedTag input = some tag

theorem resolvedTag_front {id : Int} : subject.handle.tag = "" → (subject.resolvedTag input = some (egressDevice id) ↔
    (input.frontIDFor subject.inboundID).filter validEgressID = some id) := by
  intro htag
  rw [Subject.resolvedTag, if_pos htag, Option.map_eq_some_iff]
  exact ⟨fun ⟨id', hid', heq⟩ => egressDevice_inj heq ▸ hid', fun hid => ⟨id, hid, rfl⟩⟩

/-- Inspection is asked for a subject exactly if one under its tag that is not blocked wants it. -/
theorem inspected_iff (subject : Subject) : Inspected input subject ↔
    ∃ s ∈ input.subjects, SameTag input s subject ∧ s.handle.blockedKey = "" ∧ ∃ rule, Wants input s rule := by
  simp only [← inspectedBy_iff]
  unfold Inspected
  rw [inspectTags_plan, fronts_plan]
  by_cases htag : subject.handle.tag = ""
  · rw [if_pos htag]
    simp only [mem_flatMap, mem_sortSubjects, subjectFronts]
    constructor
    · rintro ⟨id, hid, s, hs, hfront⟩
      split at hfront
      · cases hfront
      · next hnot =>
        simp only [not_or, not_not, ne_eq] at hnot
        obtain ⟨id', hid', heq⟩ := mem_map.mp hfront
        rw [FrontSpec.mk.injEq] at heq
        obtain ⟨rfl, hinspected⟩ := heq
        rw [Option.mem_toList] at hid'
        refine ⟨s, hs, ⟨iff_of_true hnot.2.2 htag, _, (resolvedTag_front hnot.2.2).mpr hid', ?_⟩, hnot.2.1, hinspected⟩
        rw [resolvedTag_front htag, hid, Option.filter_some_pos (Option.filter_eq_some_iff.mp hid').2]
    · rintro ⟨s, hs, ⟨hfronted, tag, hstag, hsubjecttag⟩, hblocked, hinspected⟩
      have hs' : s.handle.tag = "" := hfronted.mpr htag
      rw [Subject.resolvedTag, if_pos hs', Option.map_eq_some_iff] at hstag
      obtain ⟨id, hid, rfl⟩ := hstag
      have hid' := (resolvedTag_front htag).mp hsubjecttag
      refine ⟨id, (Option.filter_eq_some_iff.mp hid').1, s, hs, ?_⟩
      have hrules : groupedRules input s ≠ [] := by
        rintro hnil
        rw [hnil] at hinspected
        cases hinspected
      rw [if_neg (by simp [hrules, hs', hblocked]), hid, hinspected]
      exact mem_singleton_self _
  · rw [if_neg htag]
    have hresolved : ∀ s : Subject, s.handle.tag ≠ "" → s.resolvedTag input = some s.handle.tag := fun s hs => if_neg hs
    simp only [mem_flatMap, mem_sortSubjects, subjectTags]
    constructor
    · rintro ⟨s, hs, hmem⟩
      split at hmem
      · next hasks =>
        rw [mem_singleton] at hmem
        exact ⟨s, hs, ⟨iff_of_false hasks.2.1 htag, _, hresolved s hasks.2.1, hmem ▸ hresolved subject htag⟩, hasks.1,
          hasks.2.2⟩
      · cases hmem
    · rintro ⟨s, hs, ⟨hfronted, tag, hstag, hsubjecttag⟩, hblocked, hinspected⟩
      have hs' : s.handle.tag ≠ "" := fun h => htag (hfronted.mp h)
      rw [hresolved s hs', Option.some.injEq] at hstag
      rw [hresolved subject htag, Option.some.injEq] at hsubjecttag
      refine ⟨s, hs, ?_⟩
      rw [if_pos ⟨hblocked, hs', hinspected⟩, hstag, hsubjecttag]
      exact mem_singleton_self _

/-- For a subject, inspection is asked for exactly when it is used, if and only if: where some subject under its tag that is
not blocked is named by a rule that needs inspection and that it can honour, the subject itself is routed and one of the
rules of its own that need inspection has a destination that can be reached. -/
theorem inspection_is_used (input : Input) (subject : Subject) (hsubject : subject ∈ input.subjects) :
    (Inspected input subject ↔ InspectionUsed input subject) ↔
      ((∃ s ∈ input.subjects, SameTag input s subject ∧ s.handle.blockedKey = "" ∧ ∃ rule, Wants input s rule) →
        (subject.routed input).isSome = true ∧ ∃ rule, Wants input subject rule ∧ rule.resolves input = true) := by
  rw [inspected_iff, inspectionUsed_iff hsubject]
  refine ⟨Iff.mp, fun h => ⟨h, ?_⟩⟩
  rintro ⟨hrouted, rule, hwants, -⟩
  unfold Subject.routed at hrouted
  split at hrouted
  · cases hrouted
  · next hblocked =>
    obtain ⟨tag, htag⟩ := Option.isSome_iff_exists.mp hrouted
    exact ⟨subject, hsubject, ⟨Iff.rfl, tag, htag, htag⟩, not_not.mp hblocked, rule, hwants⟩

namespace Sample

def byDomain (exitID : Int) : Rule :=
  { id := 2, sortIndex := 0, enable := true, scope := .all, dest := { kind := .exit, exitID := exitID },
    criteria := (∅ : Body).put "domain" (.strings ["example.org"]) }

end Sample

/-- A rule by domain to an exit that is there makes its subject sniff, and is emitted. -/
theorem inspection_is_used_by_domain :
    Inspected (Sample.input [Sample.byDomain 7]) Sample.inbound ∧
      InspectionUsed (Sample.input [Sample.byDomain 7]) Sample.inbound := by
  have hiff := (inspection_is_used (Sample.input [Sample.byDomain 7]) Sample.inbound (mem_singleton_self _)).mpr fun _ =>
    ⟨rfl, Sample.byDomain 7, ⟨⟨mem_singleton_self _, rfl, by decide⟩, by decide, rfl⟩, by decide +kernel⟩
  have hinspected : Inspected (Sample.input [Sample.byDomain 7]) Sample.inbound := by
    rw [Inspected, if_neg (by decide)]
    decide +kernel
  exact ⟨hinspected, hiff.mp hinspected⟩

/-- A rule to an exit that is not there makes its subject sniff, and is not emitted. -/
theorem inspection_without_rule :
    Inspected (Sample.input [Sample.byDomain 8]) Sample.inbound ∧
      ¬InspectionUsed (Sample.input [Sample.byDomain 8]) Sample.inbound := by
  refine ⟨?_, ?_⟩
  · rw [Inspected, if_neg (by decide)]
    decide +kernel
  · rw [inspectionUsed_iff (mem_singleton_self _)]
    rintro ⟨-, rule, hwants, hresolves⟩
    rw [mem_singleton.mp hwants.1.1] at hresolves
    exact absurd hresolves (by decide +kernel)

end Routing

end Pui
