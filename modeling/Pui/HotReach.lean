import Pui.HotApply
import Pui.Keyed

/-!
# A hot apply reaches the new configuration

What becomes of one inbound is decided by the changes of its own tag (`HotDiff.inbounds_applied`), and those are the
ones found for it (`InboundParts.row_of_old`).
-/

namespace Pui

open Table Crash Crash.Prog List Option Bool

namespace Hot

variable {newInbounds : List InboundConfig} {ib : InboundConfig} {d : HotDiff} {old new : Config} {part : InboundConfig → HotDiff}
  {entries : List OutboundEntry} {clients : Table String Json}

def HotDiff.inboundChanges (d : HotDiff) : List (String × (Option Handler → Option Handler)) :=
  d.removedUsers.map (fun u => (u.tag, Option.map (Handler.setUser u.email none))) ++
    d.removedInboundTags.map (fun tag => (tag, fun _ => none)) ++
    d.addedInbounds.map (fun ib => (ib.tag, fun _ => some ib.handler)) ++
    d.addedUsers.map fun u => (u.tag, Option.map (Handler.setUser u.email (some (u.user.getD .null))))

theorem foldl_alter_eq {α : Type} (tag : α → String) (f : α → Option Handler → Option Handler) (l : List α) (c : Core) :
    l.foldl (fun c a => c.alter (tag a) (f a)) c =
      { c with inbounds := l.foldl (fun m a => Function.update m (tag a) (f a (m (tag a)))) c.inbounds } := by
  induction l generalizing c with
  | nil => rfl
  | cons a l ih =>
    rw [foldl_cons, ih]
    rfl

theorem foldl_outbounds_eq {α : Type} {f : Core → α → Core} {g : List OutboundEntry → α → List OutboundEntry}
    (h : ∀ c a, f c a = { c with outbounds := g c.outbounds a }) (l : List α) (c : Core) :
    l.foldl f c = { c with outbounds := l.foldl g c.outbounds } := by
  induction l generalizing c with
  | nil => rfl
  | cons a l ih =>
    rw [foldl_cons, ih, h]
    rfl

theorem HotDiff.applied_eq (d : HotDiff) (c : Core) : d.applied c = {
    outbounds := d.addedOutbounds.foldl (fun os e => os.filter (fun o => o.tag ≠ e.tag) ++ [e])
      (d.removedOutboundTags.foldl (fun os tag => os.filter fun o => o.tag ≠ tag) c.outbounds)
    inbounds := d.inboundChanges.foldl (fun m a => Function.update m a.1 (a.2 (m a.1))) c.inbounds
    routing := (d.routingConfig.elim c fun raw => c.setRouting raw).routing
    static := c.static } := by
  unfold applied
  rw [show (fun (c : Core) (u : UserOp) => c.dropUser u.tag u.email) =
    fun c u => c.alter u.tag (Option.map (Handler.setUser u.email none)) from rfl]
  rw [show (fun (c : Core) (tag : String) => c.dropInbound tag) = fun c tag => c.alter tag fun _ => none from rfl]
  rw [show (fun (c : Core) (ib : InboundConfig) => c.putInbound ib) = fun c ib => c.alter ib.tag fun _ => some ib.handler from rfl]
  rw [show (fun (c : Core) (u : UserOp) => c.putUser u.tag u.email (u.user.getD .null)) =
    fun c u => c.alter u.tag (Option.map (Handler.setUser u.email (some (u.user.getD .null)))) from rfl]
  simp only [foldl_alter_eq (fun u : UserOp => u.tag), foldl_alter_eq (fun tag : String => tag),
    foldl_alter_eq (fun ib : InboundConfig => ib.tag),
    foldl_outbounds_eq (f := fun c tag => Core.dropOutbound tag c) (g := fun os tag => os.filter fun o => o.tag ≠ tag) (fun _ _ => rfl),
    foldl_outbounds_eq (f := fun c e => Core.putOutbound e c) (g := fun os e => os.filter (fun o => o.tag ≠ e.tag) ++ [e]) (fun _ _ => rfl),
    inboundChanges, foldl_append, foldl_map]
  cases d.routingConfig <;> rfl

theorem HotDiff.inbounds_applied (d : HotDiff) (c : Core) (tag : String) :
    (d.applied c).inbounds tag = (d.inboundChanges.filter fun a => a.1 = tag).foldl (fun row a => a.2 row) (c.inbounds tag) := by
  rw [applied_eq]
  exact Keyed.foldl_alter Prod.fst Prod.snd _ _ _

theorem OldInbound.tags {p : HotDiff} (h : OldInbound newInbounds ib p) :
    (∀ tag ∈ p.removedInboundTags, tag = ib.tag) ∧ (∀ ib' ∈ p.addedInbounds, ib'.tag = ib.tag) ∧
      (∀ u ∈ p.removedUsers, u.tag = ib.tag) ∧ ∀ u ∈ p.addedUsers, u.tag = ib.tag := by
  cases h with
  | same _ _ _ => exact ⟨forall_mem_nil _, forall_mem_nil _, forall_mem_nil _, forall_mem_nil _⟩
  | users newIb users _ husers =>
    obtain ⟨_, _, hdiffer⟩ := diffInboundUsers_eq_some husers
    rw [hdiffer.untouched.1, hdiffer.untouched.2]
    exact ⟨forall_mem_nil _, forall_mem_nil _, fun u hu => ((hdiffer.removed u).mp hu).1,
      fun u hu => ((hdiffer.added u).mp hu).1⟩
  | replaced newIb hnew =>
    refine ⟨fun tag htag => mem_singleton.mp htag, fun ib' hib' => ?_, forall_mem_nil _, forall_mem_nil _⟩
    rw [mem_singleton.mp hib']
    exact (inboundByTag_eq_some hnew).2
  | removed _ => exact ⟨fun tag htag => mem_singleton.mp htag, forall_mem_nil _,
      forall_mem_nil _, forall_mem_nil _⟩

theorem inboundsTagged_nodup {inbounds : List InboundConfig} (h : inboundsTagged inbounds = true) :
    (inbounds.map InboundConfig.tag).Nodup := by
  simp only [inboundsTagged, and_eq_true, decide_eq_true_eq] at h
  exact h.2

theorem HotDiff.filter_inboundChanges (d : HotDiff) (tag : String) :
    (d.inboundChanges.filter fun a => a.1 = tag) = HotDiff.inboundChanges {
      removedUsers := d.removedUsers.filter fun u => u.tag = tag
      removedInboundTags := d.removedInboundTags.filter fun t => t = tag
      addedInbounds := d.addedInbounds.filter fun ib => ib.tag = tag
      addedUsers := d.addedUsers.filter fun u => u.tag = tag } := by
  simp only [inboundChanges, List.filter_append, List.filter_map]
  rfl

namespace InboundParts

variable {old new : Config} {d : HotDiff} {part : InboundConfig → HotDiff}

theorem row_of_old (h : InboundParts old new d part) (hib : ib ∈ old.inbounds) (c : Core) :
    (d.applied c).inbounds ib.tag = (part ib).inboundChanges.foldl (fun row a => a.2 row) (c.inbounds ib.tag) := by
  have hkeys := inboundsTagged_nodup h.oldTagged
  have hadded : ((new.inbounds.flatMap fun ib => if inboundByTag old.inbounds ib.tag = none then [ib] else []).filter
      fun ib' => ib'.tag = ib.tag) = [] := by
    rw [filter_eq_nil_iff]
    intro ib' hib'
    obtain ⟨newIb, -, hmem⟩ := mem_flatMap.mp hib'
    split at hmem
    · next hnone =>
      rw [mem_singleton.mp hmem, decide_eq_true_eq]
      intro htag
      rw [htag, inboundByTag_of_mem h.oldTagged hib] at hnone
      cases hnone
    · cases hmem
  rw [HotDiff.inbounds_applied, HotDiff.filter_inboundChanges, h.removedUsers, h.removedInboundTags, h.addedInbounds, h.addedUsers,
    filter_append, hadded, append_nil,
    Keyed.filter_flatMap_of_mem hkeys (fun a ha => (h.rounds a ha).tags.1) hib,
    Keyed.filter_flatMap_of_mem hkeys (fun a ha => (h.rounds a ha).tags.2.1) hib,
    Keyed.filter_flatMap_of_mem hkeys (fun a ha => (h.rounds a ha).tags.2.2.1) hib,
    Keyed.filter_flatMap_of_mem hkeys (fun a ha => (h.rounds a ha).tags.2.2.2) hib]
  rfl

theorem row_of_new (h : InboundParts old new d part) {tag : String} (htag : inboundByTag old.inbounds tag = none) {c : Core}
    (hc : c.inbounds tag = none) :
    (d.applied c).inbounds tag = (inboundByTag new.inbounds tag).map InboundConfig.handler := by
  have hkey : tag ∉ old.inbounds.map InboundConfig.tag := by
    rintro hmem
    obtain ⟨ib, hib, rfl⟩ := mem_map.mp hmem
    rw [inboundByTag_of_mem h.oldTagged hib] at htag
    cases htag
  have hself : ∀ a ∈ new.inbounds, ∀ b ∈ (if inboundByTag old.inbounds a.tag = none then [a] else []), b.tag = a.tag := by
    intro a _ b hb
    split at hb
    · rw [mem_singleton.mp hb]
    · cases hb
  rw [HotDiff.inbounds_applied, HotDiff.filter_inboundChanges, h.removedUsers, h.removedInboundTags, h.addedInbounds, h.addedUsers,
    filter_append,
    Keyed.filter_flatMap_of_not_mem (fun a ha => (h.rounds a ha).tags.1) hkey,
    Keyed.filter_flatMap_of_not_mem (fun a ha => (h.rounds a ha).tags.2.1) hkey,
    Keyed.filter_flatMap_of_not_mem (fun a ha => (h.rounds a ha).tags.2.2.1) hkey,
    Keyed.filter_flatMap_of_not_mem (fun a ha => (h.rounds a ha).tags.2.2.2) hkey, nil_append]
  cases hnew : inboundByTag new.inbounds tag with
  | some newIb =>
    obtain ⟨hmem, rfl⟩ := inboundByTag_eq_some hnew
    rw [Keyed.filter_flatMap_of_mem (inboundsTagged_nodup h.newTagged) hself hmem, if_pos htag]
    rfl
  | none =>
    have habsent : tag ∉ new.inbounds.map InboundConfig.tag := by
      rintro hmem
      obtain ⟨ib, hib, rfl⟩ := mem_map.mp hmem
      rw [inboundByTag_of_mem h.newTagged hib] at hnew
      cases hnew
    rw [Keyed.filter_flatMap_of_not_mem hself habsent, hc]
    rfl

end InboundParts

theorem RawMessage.handlerSettings_congr {a b : RawMessage} (h : a.content = b.content) : a.handlerSettings = b.handlerSettings := by
  exact congr_of_content _ (fun _ _ => rfl) (fun _ value _ => by cases value <;> rfl) h

theorem InboundConfig.handler_congr {a b : InboundConfig} (h : inboundEqualNormalized a b = true) : a.handler = b.handler := by
  obtain ⟨hport, hprotocol, -, hlisten, hsettings, hstream, hsniffing⟩ := content_of_inboundEqualNormalized h
  rw [handler, handler, hport, hprotocol, hlisten, RawMessage.handlerSettings_congr hsettings, hstream, hsniffing]

theorem foldl_setUser {α : Type} (email : α → String) (user : α → Option Json) (l : List α) {h : Handler} {rest : Json}
    {byEmail : String → Option Json} (hsettings : h.settings = .users rest byEmail) :
    l.foldl (fun row a => Option.map (Handler.setUser (email a) (user a)) row) (some h) =
      some { h with settings := .users rest (l.foldl (fun m a => Function.update m (email a) (user a)) byEmail) } := by
  induction l generalizing h byEmail with
  | nil =>
    rw [foldl_nil, foldl_nil, ← hsettings]
  | cons a l ih =>
    have hset : h.setUser (email a) (user a) = { h with settings := .users rest (Function.update byEmail (email a) (user a)) } := by
      rw [Handler.setUser, hsettings]
    rw [foldl_cons, map_some, hset, ih rfl, foldl_cons]

theorem UsersDiffer.byEmail {oldIb newIb : InboundConfig} {oldClients newClients : Table String Json}
    (h : UsersDiffer oldIb newIb d oldClients newClients) :
    d.addedUsers.foldl (fun (m : String → Option Json) u => Function.update m u.email (some (u.user.getD .null)))
      (d.removedUsers.foldl (fun m u => Function.update m u.email none) oldClients.get?) = newClients.get? := by
  funext email
  have hadded : ∀ u ∈ d.addedUsers, some (u.user.getD .null) = newClients.get? u.email := by
    intro u hu
    obtain ⟨-, -, c, huser, hget, -⟩ := (h.added u).mp hu
    rw [huser, hget, getD_some]
  rw [Keyed.foldl_assign UserOp.email newClients.get? hadded, Keyed.foldl_assign UserOp.email (fun _ => none) fun _ _ => rfl]
  by_cases hin : email ∈ d.addedUsers.map UserOp.email
  · rw [if_pos hin]
  rw [if_neg hin]
  -- an email that is not added has its client already or is no longer there
  have hkept : ∀ c, newClients.get? email = some c → oldClients.get? email = some c := by
    intro c hc
    by_contra hne
    exact hin (mem_map.mpr ⟨⟨oldIb.tag, oldIb.protocol, email, some c⟩, (h.added _).mpr ⟨rfl, rfl, c, rfl, hc, hne⟩, rfl⟩)
  by_cases hout : email ∈ d.removedUsers.map UserOp.email
  · rw [if_pos hout]
    obtain ⟨u, hu, rfl⟩ := mem_map.mp hout
    obtain ⟨-, -, -, c, hold, hne⟩ := (h.removed u).mp hu
    cases hnew : newClients.get? u.email with
    | none => rfl
    | some c' =>
      rw [hkept c' hnew, Option.some.injEq] at hold
      exact absurd (hold ▸ hnew) hne
  · rw [if_neg hout]
    cases hold : oldClients.get? email with
    | some c =>
      by_contra hne
      exact hout (mem_map.mpr
        ⟨⟨oldIb.tag, oldIb.protocol, email, none⟩, (h.removed _).mpr ⟨rfl, rfl, rfl, c, hold, Ne.symm hne⟩, rfl⟩)
    | none =>
      cases hnew : newClients.get? email with
      | none => rfl
      | some c => rw [← hold, hkept c hnew]

theorem OldInbound.row {p : HotDiff} (h : OldInbound newInbounds ib p) :
    p.inboundChanges.foldl (fun row a => a.2 row) (some ib.handler) = (inboundByTag newInbounds ib.tag).map InboundConfig.handler := by
  cases h with
  | same newIb hnew hequal =>
    rw [hnew, map_some, ← InboundConfig.handler_congr hequal]
    rfl
  | users newIb users hnew husers =>
    obtain ⟨oldClients, newClients, hdiffer⟩ := diffInboundUsers_eq_some husers
    obtain ⟨rest, hold, hnewSplit⟩ := hdiffer.settings
    have hsettings : ib.handler.settings = .users rest oldClients.get? := by
      simp only [InboundConfig.handler, RawMessage.handlerSettings, hold]
    have hnewSettings : newIb.handler.settings = .users rest newClients.get? := by
      simp only [InboundConfig.handler, RawMessage.handlerSettings, hnewSplit]
    rw [hnew, map_some]
    simp only [HotDiff.inboundChanges, hdiffer.untouched.1, hdiffer.untouched.2, map_nil, append_nil, foldl_append,
      foldl_map]
    rw [foldl_setUser UserOp.email (fun _ => none) _ hsettings,
      foldl_setUser UserOp.email (fun u => some (u.user.getD .null)) _ rfl, hdiffer.byEmail, ← hnewSettings]
    simp only [InboundConfig.handler, hdiffer.port, hdiffer.protocol, hdiffer.listen, hdiffer.streamSettings, hdiffer.sniffing]
  | replaced newIb hnew =>
    rw [hnew]
    rfl
  | removed hnew =>
    rw [hnew]
    rfl

theorem InboundParts.inbounds_eq (h : InboundParts old new d part)
    {c : Core} (hc : c.inbounds = fun tag => (inboundByTag old.inbounds tag).map InboundConfig.handler) :
    (d.applied c).inbounds = fun tag => (inboundByTag new.inbounds tag).map InboundConfig.handler := by
  funext tag
  cases hold : inboundByTag old.inbounds tag with
  | none =>
    refine h.row_of_new hold ?_
    rw [hc]
    simp only [hold, map_none]
  | some ib =>
    obtain ⟨hib, rfl⟩ := inboundByTag_eq_some hold
    rw [h.row_of_old hib, hc]
    simp only [hold, map_some]
    exact (h.rounds ib hib).row

theorem parseOutbounds_nodup {raw : RawMessage} (h : parseOutbounds raw = some entries) :
    (entries.map OutboundEntry.tag).Nodup := by
  have hnil : ∀ {l : List OutboundEntry}, some [] = some l → (l.map OutboundEntry.tag).Nodup := by
    rintro _ ⟨⟩
    exact nodup_nil
  unfold parseOutbounds at h
  split at h
  · exact hnil h
  · split at h
    · exact hnil h
    · simp only [bind_eq_bind, bind_eq_some_iff, guard_eq_some'] at h
      obtain ⟨read, -, ⟨⟩, hnodup, heq⟩ := h
      cases heq
      exact hnodup.2
    · cases h

theorem outboundByTag_eq_some {tag : String} {e : OutboundEntry}
    (h : outboundByTag entries tag = some e) : e ∈ entries ∧ e.tag = tag := by
  refine ⟨mem_of_find?_eq_some h, ?_⟩
  simpa using List.find?_some h

theorem outboundByTag_of_mem (hnodup : (entries.map OutboundEntry.tag).Nodup) {e : OutboundEntry}
    (he : e ∈ entries) : outboundByTag entries e.tag = some e := by
  cases hfound : outboundByTag entries e.tag with
  | none => exact absurd (decide_eq_true rfl) (List.find?_eq_none.mp hfound e he)
  | some other =>
    obtain ⟨hother, htag⟩ := outboundByTag_eq_some hfound
    rw [inj_on_of_nodup_map hnodup hother he htag]

theorem foldl_dropOutbound (tags : List String) (entries : List OutboundEntry) :
    tags.foldl (fun os tag => os.filter fun o => o.tag ≠ tag) entries = entries.filter fun o => o.tag ∉ tags := by
  induction tags generalizing entries with
  | nil => simp
  | cons tag tags ih =>
    rw [List.foldl_cons, ih, List.filter_filter]
    refine List.filter_congr fun o _ => ?_
    simp [Bool.and_comm]

theorem foldl_putOutbound {added : List OutboundEntry} (hnodup : ((entries ++ added).map OutboundEntry.tag).Nodup) :
    added.foldl (fun os e => (os.filter fun o => o.tag ≠ e.tag) ++ [e]) entries = entries ++ added := by
  induction added generalizing entries with
  | nil => simp
  | cons e added ih =>
    have hnew : (entries.filter fun o => o.tag ≠ e.tag) = entries := by
      rw [filter_eq_self]
      intro o ho
      rw [decide_eq_true_eq]
      intro htag
      rw [map_append, nodup_append] at hnodup
      exact hnodup.2.2 o.tag (mem_map_of_mem ho) e.tag (mem_map_of_mem mem_cons_self) htag
    rw [foldl_cons, hnew, ih (by rwa [append_assoc]), append_assoc]
    rfl

section Outbounds

variable {oldOut newOut : List OutboundEntry} (hold : (oldOut.map OutboundEntry.tag).Nodup) (hnew : (newOut.map OutboundEntry.tag).Nodup)

def keptOutbounds (oldOut newOut : List OutboundEntry) : List OutboundEntry :=
  oldOut.filter fun e => outboundByTag newOut e.tag = some e

def addedOutbounds (oldOut newOut : List OutboundEntry) : List OutboundEntry :=
  (oldOut.filter fun e => outboundByTag newOut e.tag ≠ some e).filterMap (fun e => outboundByTag newOut e.tag) ++
    newOut.filter fun e => (outboundByTag oldOut e.tag).isNone

include hnew in
theorem mem_kept_append_added (e : OutboundEntry) : e ∈ keptOutbounds oldOut newOut ++ addedOutbounds oldOut newOut ↔ e ∈ newOut := by
  simp only [keptOutbounds, addedOutbounds, mem_append, mem_filter, mem_filterMap, decide_eq_true_eq]
  constructor
  · rintro (⟨-, hkept⟩ | ⟨_, -, hchanged⟩ | ⟨hmem, -⟩)
    · exact (outboundByTag_eq_some hkept).1
    · exact (outboundByTag_eq_some hchanged).1
    · exact hmem
  · intro he
    have hfound := outboundByTag_of_mem hnew he
    cases hbefore : outboundByTag oldOut e.tag with
    | none => exact .inr (.inr ⟨he, rfl⟩)
    | some e' =>
      obtain ⟨he', htag⟩ := outboundByTag_eq_some hbefore
      by_cases heq : e' = e
      · subst heq
        exact .inl ⟨he', hfound⟩
      · refine .inr (.inl ⟨e', ⟨he', ?_⟩, by rw [htag, hfound]⟩)
        rw [htag, hfound, ne_eq, Option.some.injEq]
        exact fun h => heq h.symm

omit hold hnew in
theorem map_tag_filterMap_sublist (entries l : List OutboundEntry) :
    ((l.filterMap fun e => outboundByTag entries e.tag).map OutboundEntry.tag).Sublist (l.map OutboundEntry.tag) := by
  induction l with
  | nil => exact List.Sublist.refl _
  | cons e l ih =>
    cases hfound : outboundByTag entries e.tag with
    | none =>
      simp only [filterMap_cons, hfound]
      exact ih.cons _
    | some e' =>
      simp only [filterMap_cons, hfound, map_cons, (outboundByTag_eq_some hfound).2]
      exact ih.cons_cons _

include hold hnew in
theorem nodup_kept_append_added : ((keptOutbounds oldOut newOut ++ addedOutbounds oldOut newOut).map OutboundEntry.tag).Nodup := by
  -- the tags of what stays and of what changes are tags of the old outbounds, and no outbound does both
  have holdTags : ∀ {l : List OutboundEntry} {tag}, tag ∈ (l.filter fun e => (outboundByTag oldOut e.tag).isNone).map OutboundEntry.tag →
      tag ∉ oldOut.map OutboundEntry.tag := by
    intro l tag htag hmem
    obtain ⟨e, he, rfl⟩ := mem_map.mp htag
    obtain ⟨o, ho, heq⟩ := mem_map.mp hmem
    have hnone := (mem_filter.mp he).2
    rw [← heq, outboundByTag_of_mem hold ho] at hnone
    cases hnone
  have hchanged := map_tag_filterMap_sublist newOut (oldOut.filter fun e => outboundByTag newOut e.tag ≠ some e)
  have hsub : ∀ {p : OutboundEntry → Bool}, ((oldOut.filter p).map OutboundEntry.tag).Sublist (oldOut.map OutboundEntry.tag) :=
    filter_sublist.map _
  rw [addedOutbounds, map_append, map_append, nodup_append, nodup_append]
  refine ⟨hold.sublist hsub, ⟨hold.sublist (hchanged.trans hsub), hnew.sublist (filter_sublist.map _), ?_⟩, ?_⟩
  · rintro tag htag _ hfresh rfl
    exact holdTags hfresh (hsub.subset (hchanged.subset htag))
  · rintro tag htag _ hadded rfl
    rcases mem_append.mp hadded with hchange | hfresh
    · obtain ⟨e, he, rfl⟩ := mem_map.mp htag
      obtain ⟨o, ho, heq⟩ := mem_map.mp (hchanged.subset hchange)
      obtain ⟨he, hkept⟩ := mem_filter.mp he
      obtain ⟨ho, hdiffers⟩ := mem_filter.mp ho
      rw [inj_on_of_nodup_map hold ho he heq] at hdiffers
      exact absurd (of_decide_eq_true hkept) (of_decide_eq_true hdiffers)
    · exact holdTags hfresh (hsub.subset htag)

include hold hnew in
theorem kept_append_added_perm : (keptOutbounds oldOut newOut ++ addedOutbounds oldOut newOut).Perm newOut :=
  (perm_ext_iff_of_nodup (nodup_kept_append_added hold hnew).of_map hnew.of_map).mpr (mem_kept_append_added hnew)

include hold in
theorem filter_removed_eq : (oldOut.filter fun o => o.tag ∉ (oldOut.filter fun e => outboundByTag newOut e.tag ≠ some e).map OutboundEntry.tag) =
    keptOutbounds oldOut newOut := by
  refine filter_congr fun o ho => decide_eq_decide.mpr ?_
  constructor
  · intro hnot
    by_contra hne
    exact hnot (mem_map.mpr ⟨o, mem_filter.mpr ⟨ho, decide_eq_true hne⟩, rfl⟩)
  · rintro hkept hmem
    obtain ⟨e, he, htag⟩ := mem_map.mp hmem
    obtain ⟨he, hne⟩ := mem_filter.mp he
    rw [inj_on_of_nodup_map hold he ho htag] at hne
    exact of_decide_eq_true hne hkept

end Outbounds

theorem outbounds_applied {diff : HotDiff} (h : diffOutbounds old new = some diff)
    (hremoved : d.removedOutboundTags = diff.removedOutboundTags) (hadded : d.addedOutbounds = diff.addedOutbounds) :
    ∃ oldOut newOut, parseOutbounds old.outbounds = some oldOut ∧ parseOutbounds new.outbounds = some newOut ∧
      ∀ c : Core, c.outbounds.head? = oldOut.head? → c.outbounds.Perm oldOut →
        (d.applied c).outbounds.head? = newOut.head? ∧ (d.applied c).outbounds.Perm newOut := by
  obtain ⟨oldOut, newOut, hold, hnew, hfirst, rfl⟩ := diffOutbounds_eq_some h
  refine ⟨oldOut, newOut, hold, hnew, fun c hhead hperm => ?_⟩
  have hnodup := parseOutbounds_nodup hold
  have hnodup' := parseOutbounds_nodup hnew
  -- what is left of the core's outbounds before anything is added
  set left := c.outbounds.filter fun o =>
    o.tag ∉ (oldOut.filter fun e => outboundByTag newOut e.tag ≠ some e).map OutboundEntry.tag with hleft
  have hkept : left.Perm (keptOutbounds oldOut newOut) := by
    rw [← filter_removed_eq hnodup]
    exact hperm.filter _
  have hboth : (left ++ addedOutbounds oldOut newOut).Perm newOut :=
    (hkept.append_right _).trans (kept_append_added_perm hnodup hnodup')
  have houtbounds : (d.applied c).outbounds = left ++ addedOutbounds oldOut newOut := by
    rw [HotDiff.applied_eq]
    rw [hremoved, hadded, foldl_dropOutbound]
    exact foldl_putOutbound ((hboth.map _).nodup_iff.mpr hnodup')
  rw [houtbounds]
  refine ⟨?_, hboth⟩
  cases hc : c.outbounds with
  | nil =>
    rw [hc] at hhead
    have hempty : newOut = [] := List.head?_eq_none_iff.mp (hfirst ▸ hhead.symm)
    rw [hempty] at hboth ⊢
    rw [hboth.eq_nil]
  | cons e rest =>
    rw [hc] at hhead
    have hmem : e ∈ oldOut := mem_of_mem_head? (by rw [← hhead]; rfl)
    have hmem' : outboundByTag newOut e.tag = some e :=
      outboundByTag_of_mem hnodup' (mem_of_mem_head? (by rw [← hfirst, ← hhead]; rfl))
    have hstays : e ∈ keptOutbounds oldOut newOut := mem_filter.mpr ⟨hmem, decide_eq_true hmem'⟩
    rw [← filter_removed_eq hnodup] at hstays
    rw [hleft, hc, filter_cons, if_pos (mem_filter.mp hstays).2, ← hfirst, ← hhead]
    rfl

theorem routing_applied {diff : HotDiff} (h : diffRouting old new = some diff)
    (hconfig : d.routingConfig = diff.routingConfig) {c : Core} (hc : c.routing = old.routing.routingState) :
    (d.applied c).routing = new.routing.routingState := by
  rw [HotDiff.applied_eq]
  rcases diffRouting_eq_some h with ⟨hsame, rfl⟩ | ⟨rest, ⟨hold, hnew⟩, holdRest, hnewRest, rfl⟩
  · rw [hconfig, ← hsame, ← hc]
    rfl
  · have hrest : ∀ raw : RawMessage, raw ≠ .empty → routingWithoutReloadable raw = some rest →
        raw.routingState.rest = .ok (if rest = .null then none else some rest) := by
      intro raw hne hread
      unfold routingWithoutReloadable at hread
      split at hread
      · exact absurd rfl hne
      · cases hread
        rfl
      · cases hread
        rfl
      · cases hread
    rw [hconfig]
    change (⟨c.routing.rest, new.routing.routingState.rules, new.routing.routingState.balancers⟩ : RoutingState) = _
    rw [hc, hrest old.routing hold holdRest, ← hrest new.routing hnew hnewRest]

theorem static_eq (h : ∀ s ∈ old.static.zip new.static, s.1.content = s.2.content) :
    old.static.map RawMessage.content = new.static.map RawMessage.content := by
  refine ext_getElem rfl fun i hi hi' => ?_
  rw [length_map] at hi hi'
  rw [getElem_map, getElem_map]
  exact h (old.static[i], new.static[i]) (mem_iff_getElem.mpr ⟨i, by rw [length_zip]; omega, getElem_zip⟩)

theorem itemEmail_of_clientsByEmail {items : List Json} {indexed : Table String Json}
    (h : clientsByEmail items clients = some indexed) (hclients : ∀ email c, clients.get? email = some c → itemEmail c = some email) :
    ∀ email c, indexed.get? email = some c → itemEmail c = some email := by
  induction items generalizing clients with
  | nil =>
    cases h
    exact hclients
  | cons item items ih =>
    rw [clientsByEmail_cons, bind_eq_some_iff] at h
    obtain ⟨email', hitem, h⟩ := h
    split at h
    · cases h
    · refine ih h fun email c hget => ?_
      by_cases heq : email = email'
      · subst heq
        rw [get?_put_self, Option.some.injEq] at hget
        exact hget ▸ hitem
      · rw [get?_put_of_ne heq] at hget
        exact hclients email c hget

theorem itemEmail_of_splitSettingsClients {raw : RawMessage} {rest : Json}
    (h : splitSettingsClients raw = some (clients, rest)) {email : String} {c : Json} (hget : clients.get? email = some c) :
    itemEmail c = some email := by
  unfold splitSettingsClients at h
  split at h
  · split at h
    · obtain ⟨indexed, hindexed, heq⟩ := map_eq_some_iff.mp h
      rw [Prod.mk.injEq] at heq
      rw [← heq.1] at hget
      exact itemEmail_of_clientsByEmail hindexed (by simp) email c hget
    · cases h
  · cases h

theorem InboundParts.wellNamed (h : InboundParts old new d part) :
    d.WellNamed := by
  intro u hu
  rw [h.addedUsers, mem_flatMap] at hu
  obtain ⟨ib, hib, hu⟩ := hu
  have hround := h.rounds ib hib
  generalize part ib = p at hround hu
  cases hround with
  | same _ _ _ => cases hu
  | users newIb users _ husers =>
    obtain ⟨oldClients, newClients, hdiffer⟩ := diffInboundUsers_eq_some husers
    obtain ⟨rest, -, hsplit⟩ := hdiffer.settings
    obtain ⟨-, -, c, huser, hget, -⟩ := (hdiffer.added u).mp hu
    rw [huser, getD_some]
    exact itemEmail_of_splitSettingsClients hsplit hget
  | replaced _ _ => cases hu
  | removed _ => cases hu

theorem HotDiff.applied_of_empty (h : d.empty = true) (c : Core) : d.applied c = c := by
  simp only [HotDiff.empty, and_eq_true, decide_eq_true_eq, length_eq_zero_iff, isNone_iff_eq_none] at h
  obtain ⟨⟨⟨⟨⟨⟨h₁, h₂⟩, h₃⟩, h₄⟩, h₅⟩, h₆⟩, h₇⟩ := h
  simp only [HotDiff.applied, h₁, h₂, h₃, h₄, h₅, h₆, h₇, foldl_nil]

theorem applied_same (h : computeHotDiff old new = some d) :
    ∃ oldCore newCore, old.core = some oldCore ∧ new.core = some newCore ∧
      ∀ c : Core, c.Same oldCore → (d.applied c).Same newCore := by
  obtain ⟨hstatic, ⟨part, hparts⟩, ⟨_, houtbounds, hremoved, hadded⟩, _, hrouting, hconfig⟩ := fields_of_computeHotDiff h
  obtain ⟨oldOut, newOut, hold, hnew, hout⟩ := outbounds_applied houtbounds hremoved hadded
  refine ⟨_, _, by rw [Config.core, hold]; rfl, by rw [Config.core, hnew]; rfl, fun c hsame => ?_⟩
  obtain ⟨hfirst, hperm⟩ := hout c hsame.first hsame.outbounds
  refine ⟨hfirst, hperm, hparts.inbounds_eq hsame.inbounds, routing_applied hrouting hconfig hsame.routing, ?_⟩
  rw [HotDiff.applied_eq]
  exact hsame.static.trans (static_eq hstatic)

end Hot

end Pui
