import Pui.HotDiff

/-!
# Dropped credentials

A diff tells whether it drops a user: whether some inbound loses an email that it does not get back.
-/

namespace Pui

open Table List Option

namespace Hot

/-- The email of an entry of a client list. -/
def itemEmail : Json → Option String
  | .object fields =>
    match lookup "email" fields with
    | some (.string email) => some email
    | _ => none
  | _ => none

/-- The client emails in the settings of an inbound; a client list that is missing or null is empty. -/
def clientEmails : RawMessage → List String
  | .json _ (.object fields) _ =>
    match lookup "clients" fields with
    | some (.array items) => items.filterMap itemEmail
    | _ => []
  | _ => []

theorem clientsByEmail_cons (item : Json) (items : List Json) (clients : Table String Json) :
    clientsByEmail (item :: items) clients = (itemEmail item).bind fun email =>
      if email = "" ∨ (clients.get? email).isSome then none else clientsByEmail items (clients.put email item) := by
  cases item with
  | object fields =>
    simp only [clientsByEmail, itemEmail]
    rcases lookup "email" fields with - | value
    · rfl
    · cases value <;> rfl
  | null => rfl
  | bool _ => rfl
  | number _ => rfl
  | string _ => rfl
  | array _ => rfl

/-- A client list can be indexed by email exactly if every entry has an email of its own. -/
private theorem isSome_clientsByEmail (items : List Json) (clients : Table String Json) :
    (clientsByEmail items clients).isSome = true ↔ (∀ item ∈ items, ∃ email, itemEmail item = some email ∧ email ≠ "") ∧
      (items.filterMap itemEmail).Nodup ∧ ∀ email ∈ items.filterMap itemEmail, clients.get? email = none := by
  induction items generalizing clients with
  | nil => simp [clientsByEmail]
  | cons item items ih =>
    rw [clientsByEmail_cons, forall_mem_cons]
    cases hitem : itemEmail item with
    | none => simp
    | some email =>
      rw [bind_some, filterMap_cons_some hitem, nodup_cons, forall_mem_cons]
      by_cases hrefused : email = "" ∨ (clients.get? email).isSome = true
      · rw [if_pos hrefused]
        rcases hrefused with rfl | hsome
        · simp
        · obtain ⟨c, hc⟩ := isSome_iff_exists.mp hsome
          simp [hc]
      · rw [if_neg hrefused, ih]
        have hne : email ≠ "" := fun heq => hrefused (.inl heq)
        have hnone : clients.get? email = none := not_isSome_iff_eq_none.mp fun hsome => hrefused (.inr hsome)
        have hput : (∀ e ∈ items.filterMap itemEmail, (clients.put email item).get? e = none) ↔
            email ∉ items.filterMap itemEmail ∧ ∀ e ∈ items.filterMap itemEmail, clients.get? e = none := by
          constructor
          · intro h
            refine ⟨fun hmem => ?_, fun e he => ?_⟩
            · have hnone := h email hmem
              rw [get?_put_self] at hnone
              cases hnone
            · have hnone := h e he
              rw [get?_put] at hnone
              split at hnone
              · cases hnone
              · exact hnone
          · rintro ⟨hnot, h⟩ e he
            have hother : e ≠ email := fun heq => hnot (heq ▸ he)
            rw [get?_put_of_ne hother, h e he]
        rw [hput]
        simp only [Option.some.injEq, exists_eq_left', ne_eq, hne, not_false_eq_true, hnone, true_and]
        tauto

theorem clientsByEmail_eq_some {items : List Json} {clients indexed : Table String Json}
    (h : clientsByEmail items clients = some indexed) (email : String) :
    (indexed.get? email).isSome = true ↔ (clients.get? email).isSome = true ∨ email ∈ items.filterMap itemEmail := by
  induction items generalizing clients with
  | nil =>
    cases h
    simp
  | cons item items ih =>
    rw [clientsByEmail_cons, bind_eq_some_iff] at h
    obtain ⟨email', hitem, h⟩ := h
    split at h
    · cases h
    · rw [ih h, filterMap_cons_some hitem, mem_cons]
      by_cases heq : email = email'
      · subst heq
        simp
      · rw [get?_put_of_ne heq]
        simp [heq]

/-- Some inbound that stays loses a client email. -/
def LosesEmail (old new : Config) : Prop :=
  ∃ oldIb ∈ old.inbounds, ∃ newIb ∈ new.inbounds, oldIb.tag = newIb.tag ∧
    ∃ email ∈ clientEmails oldIb.settings, email ∉ clientEmails newIb.settings

/-- The settings have a list of clients, each with an email of its own. -/
def Indexable (raw : RawMessage) : Prop :=
  ∃ text fields whole items, raw = .json text (.object fields) whole ∧ lookup "clients" fields = some (.array items) ∧
    (∀ item ∈ items, ∃ email, itemEmail item = some email ∧ email ≠ "") ∧ (items.filterMap itemEmail).Nodup

theorem isSome_splitSettingsClients {raw : RawMessage} :
    (splitSettingsClients raw).isSome = true ↔ Indexable raw := by
  unfold splitSettingsClients
  constructor
  · intro h
    split at h
    · next text fields whole =>
      split at h
      · next items hclients =>
        rw [isSome_map, isSome_clientsByEmail] at h
        exact ⟨text, fields, whole, items, rfl, hclients, h.1, h.2.1⟩
      · cases h
    · cases h
  · rintro ⟨text, fields, whole, items, rfl, hclients, hemails, hnodup⟩
    simp only [hclients, isSome_map, isSome_clientsByEmail]
    exact ⟨hemails, hnodup, fun _ _ => rfl⟩

theorem mem_clientEmails {raw : RawMessage} {clients : Table String Json} {rest : Json}
    (h : splitSettingsClients raw = some (clients, rest)) (email : String) :
    email ∈ clientEmails raw ↔ (clients.get? email).isSome = true := by
  unfold splitSettingsClients at h
  split at h
  · next fields _ =>
    split at h
    · next items hclients =>
      obtain ⟨indexed, hindexed, heq⟩ := map_eq_some_iff.mp h
      rw [Prod.mk.injEq] at heq
      rw [← heq.1, clientsByEmail_eq_some hindexed email]
      simp [clientEmails, hclients]
    · cases h
  · cases h

theorem clientEmails_congr {a b : RawMessage} (h : a.content = b.content) : clientEmails a = clientEmails b := by
  exact RawMessage.congr_of_content _ (fun _ _ => rfl) (fun _ value _ => by cases value <;> rfl) h

theorem content_of_inboundEqualNormalized {a b : InboundConfig} (h : inboundEqualNormalized a b = true) :
    a.port = b.port ∧ a.protocol = b.protocol ∧ a.tag = b.tag ∧ a.listen.content = b.listen.content ∧
      a.settings.content = b.settings.content ∧ a.streamSettings.content = b.streamSettings.content ∧
      a.sniffing.content = b.sniffing.content := by
  simp only [inboundEqualNormalized, Bool.and_eq_true, decide_eq_true_eq, RawMessage.equalNormalized_iff] at h
  obtain ⟨⟨⟨⟨⟨⟨hport, hprotocol⟩, htag⟩, hlisten⟩, hsettings⟩, hstream⟩, hsniffing⟩ := h
  exact ⟨hport, hprotocol, htag, hlisten, hsettings, hstream, hsniffing⟩

theorem mem_droppedClients {oldIb newIb : InboundConfig} {u : UserOp} (h : u ∈ droppedClients oldIb newIb) :
    u.email ∈ clientEmails oldIb.settings ∧ u.email ∉ clientEmails newIb.settings := by
  unfold droppedClients at h
  split at h
  · next oldClients _ newClients _ hold hnew =>
    obtain ⟨email, hmem, rfl⟩ := mem_map.mp h
    rw [mem_filter, mem_keys_iff] at hmem
    rw [mem_clientEmails hold, mem_clientEmails hnew]
    exact ⟨hmem.1, by simpa using hmem.2⟩
  · cases h

theorem indexable_of_droppedClients {oldIb newIb : InboundConfig} {u : UserOp} (h : u ∈ droppedClients oldIb newIb) :
    Indexable oldIb.settings ∧ Indexable newIb.settings := by
  unfold droppedClients at h
  split at h
  · next hold hnew =>
    exact ⟨isSome_splitSettingsClients.mp (hold ▸ rfl), isSome_splitSettingsClients.mp (hnew ▸ rfl)⟩
  · cases h

theorem droppedClients_ne_nil {oldIb newIb : InboundConfig} (hold : (splitSettingsClients oldIb.settings).isSome = true)
    (hnew : (splitSettingsClients newIb.settings).isSome = true) {email : String} (hin : email ∈ clientEmails oldIb.settings)
    (hout : email ∉ clientEmails newIb.settings) : droppedClients oldIb newIb ≠ [] := by
  obtain ⟨⟨oldClients, oldRest⟩, hold⟩ := isSome_iff_exists.mp hold
  obtain ⟨⟨newClients, newRest⟩, hnew⟩ := isSome_iff_exists.mp hnew
  rw [mem_clientEmails hold] at hin
  rw [mem_clientEmails hnew] at hout
  refine ne_nil_of_mem (a := ⟨newIb.tag, newIb.protocol, email, none⟩) ?_
  simp only [droppedClients, hold, hnew]
  refine mem_map.mpr ⟨email, ?_, rfl⟩
  rw [mem_filter, mem_keys_iff]
  exact ⟨hin, by simpa using hout⟩

/-- Some inbound that stays loses a client email, and its clients can be indexed before and after. -/
def LosesIndexedEmail (old new : Config) : Prop :=
  ∃ oldIb ∈ old.inbounds, ∃ newIb ∈ new.inbounds, oldIb.tag = newIb.tag ∧ Indexable oldIb.settings ∧
    Indexable newIb.settings ∧ ∃ email ∈ clientEmails oldIb.settings, email ∉ clientEmails newIb.settings

theorem losesIndexedEmail_of_dropsUsers {old new : Config} {d : HotDiff} (h : computeHotDiff old new = some d)
    (hdrops : d.dropsUsers = true) : LosesIndexedEmail old new := by
  obtain ⟨-, ⟨part, hparts⟩, -⟩ := fields_of_computeHotDiff h
  have hdropped : ∀ oldIb ∈ old.inbounds, ∀ newIb, inboundByTag new.inbounds oldIb.tag = some newIb →
      ∀ u ∈ droppedClients oldIb newIb, LosesIndexedEmail old new := by
    intro oldIb hold newIb hnew u hu
    obtain ⟨hmem, htag⟩ := inboundByTag_eq_some hnew
    exact ⟨oldIb, hold, newIb, hmem, htag.symm, indexable_of_droppedClients hu |>.1, indexable_of_droppedClients hu |>.2,
      u.email, mem_droppedClients hu⟩
  simp only [HotDiff.dropsUsers, Bool.or_eq_true, decide_eq_true_eq] at hdrops
  rcases hdrops with hlength | hany
  · obtain ⟨u, hu⟩ := exists_mem_of_length_pos hlength
    rw [hparts.droppedClients, mem_flatMap] at hu
    obtain ⟨oldIb, hold, hu⟩ := hu
    have hpart := hparts.rounds oldIb hold
    generalize part oldIb = p at hpart hu
    cases hpart with
    | same _ _ _ => cases hu
    | users newIb _ hnew _ => exact hdropped oldIb hold newIb hnew u hu
    | replaced newIb hnew => exact hdropped oldIb hold newIb hnew u hu
    | removed _ => cases hu
  · obtain ⟨u, hu, hnot⟩ := any_eq_true.mp hany
    simp only [Bool.not_eq_true', contains_eq_mem, decide_eq_false_iff_not] at hnot
    rw [hparts.removedUsers, mem_flatMap] at hu
    obtain ⟨oldIb, hold, hu⟩ := hu
    have hadded' : ∀ v ∈ (part oldIb).addedUsers, v ∈ d.addedUsers := by
      intro v hv
      rw [hparts.addedUsers]
      exact mem_flatMap.mpr ⟨oldIb, hold, hv⟩
    have hpart := hparts.rounds oldIb hold
    generalize part oldIb = p at hpart hu hadded'
    cases hpart with
    | same _ _ _ => cases hu
    | replaced _ _ => cases hu
    | removed _ => cases hu
    | users newIb users hnew husers =>
      obtain ⟨oldClients, newClients, hdiffer⟩ := diffInboundUsers_eq_some husers
      obtain ⟨rest, hsplit, hsplit'⟩ := hdiffer.settings
      obtain ⟨htag, hprotocol, -, c, hc, hchanged⟩ := (hdiffer.removed u).mp hu
      obtain ⟨hmem, hsame⟩ := inboundByTag_eq_some hnew
      refine ⟨oldIb, hold, newIb, hmem, hsame.symm, isSome_splitSettingsClients.mp (hsplit ▸ rfl),
        isSome_splitSettingsClients.mp (hsplit' ▸ rfl), u.email, ?_, ?_⟩
      · rw [mem_clientEmails hsplit, hc]
        rfl
      · rw [mem_clientEmails hsplit']
        intro hsome
        -- an email that both have is added again, under the key that its removal is looked up by
        obtain ⟨c', hc'⟩ := isSome_iff_exists.mp hsome
        have hreadded : (⟨u.tag, u.protocol, u.email, some c'⟩ : UserOp) ∈ d.addedUsers := by
          refine hadded' _ ((hdiffer.added _).mpr ⟨htag, hprotocol, c', rfl, hc', ?_⟩)
          rw [hc]
          rintro ⟨⟩
          exact hchanged hc'
        exact hnot (mem_map.mpr ⟨_, hreadded, rfl⟩)

theorem dropsUsers_of_losesIndexedEmail {old new : Config} {d : HotDiff} (h : computeHotDiff old new = some d)
    (hloses : LosesIndexedEmail old new) : d.dropsUsers = true := by
  obtain ⟨oldIb, hold, newIb, hnew, htag, hindexed, hindexed', email, hin, hout⟩ := hloses
  obtain ⟨-, ⟨part, hparts⟩, -⟩ := fields_of_computeHotDiff h
  have hbytag : inboundByTag new.inbounds oldIb.tag = some newIb := by
    rw [htag]
    exact inboundByTag_of_mem hparts.newTagged hnew
  have hdiffer : ¬inboundEqualNormalized oldIb newIb = true := by
    intro hequal
    rw [clientEmails_congr (content_of_inboundEqualNormalized hequal).2.2.2.2.1] at hin
    exact hout hin
  have hne := droppedClients_ne_nil (isSome_splitSettingsClients.mpr hindexed) (isSome_splitSettingsClients.mpr hindexed')
    hin hout
  have hpart : (part oldIb).droppedClients ≠ [] := by
    have hcase := hparts.rounds oldIb hold
    generalize part oldIb = p at hcase
    cases hcase with
    | same newIb' hnew' hequal =>
      rw [hbytag, Option.some.injEq] at hnew'
      exact absurd (hnew' ▸ hequal) hdiffer
    | users newIb' _ hnew' _ =>
      rw [hbytag, Option.some.injEq] at hnew'
      exact hnew' ▸ hne
    | replaced newIb' hnew' =>
      rw [hbytag, Option.some.injEq] at hnew'
      exact hnew' ▸ hne
    | removed hnone =>
      rw [hbytag] at hnone
      cases hnone
  obtain ⟨u, hu⟩ := exists_mem_of_ne_nil _ hpart
  have hmem : u ∈ d.droppedClients := by
    rw [hparts.droppedClients]
    exact mem_flatMap.mpr ⟨oldIb, hold, hu⟩
  simp only [HotDiff.dropsUsers, Bool.or_eq_true, decide_eq_true_eq]
  exact .inl (length_pos_of_mem hmem)

/-- A diff drops a user exactly when an inbound loses an email, if and only if: when some inbound loses an email, one does
whose client lists can be indexed before and after. -/
theorem dropsUsers_iff_losesEmail (old new : Config) (d : HotDiff) (h : computeHotDiff old new = some d) :
    (d.dropsUsers = true ↔ LosesEmail old new) ↔ (LosesEmail old new → LosesIndexedEmail old new) := by
  have hdrops : d.dropsUsers = true ↔ LosesIndexedEmail old new :=
    ⟨losesIndexedEmail_of_dropsUsers h, dropsUsers_of_losesIndexedEmail h⟩
  rw [hdrops]
  refine ⟨Iff.mpr, fun hindexed => ⟨?_, hindexed⟩⟩
  rintro ⟨oldIb, hold, newIb, hnew, htag, -, -, hemail⟩
  exact ⟨oldIb, hold, newIb, hnew, htag, hemail⟩

namespace Sample

def vless (settings : RawMessage) : InboundConfig where
  listen := .empty
  port := 443
  protocol := "vless"
  settings := settings
  streamSettings := .empty
  tag := "in-443"
  sniffing := .empty

def config (settings : RawMessage) : Config where
  log := .empty
  routing := .empty
  dns := .empty
  inbounds := [vless settings]
  outbounds := .empty
  transport := .empty
  policy := .empty
  api := .empty
  stats := .empty
  reverse := .empty
  fakedns := .empty
  observatory := .empty
  burstObservatory := .empty
  metrics := .empty
  geodata := .empty
  env := .empty

def client (email : String) : Json := .object [("email", .string email), ("id", .string "2f")]

def clients (emails : List String) : RawMessage := .json "" (.object [("clients", .array (emails.map client))]) true

def noClients : RawMessage := .json "" (.object [("decryption", .string "none")]) true

end Sample

theorem dropsUsers_iff_losesEmail_one :
    ∃ d, computeHotDiff (Sample.config (Sample.clients ["a", "b"])) (Sample.config (Sample.clients ["b"])) = some d ∧
      d.dropsUsers = true ∧ LosesEmail (Sample.config (Sample.clients ["a", "b"])) (Sample.config (Sample.clients ["b"])) := by
  cases h : computeHotDiff (Sample.config (Sample.clients ["a", "b"])) (Sample.config (Sample.clients ["b"])) with
  | none => exact absurd h (by decide +kernel)
  | some d =>
    have hiff := (dropsUsers_iff_losesEmail _ _ d h).mpr fun _ =>
      ⟨Sample.vless (Sample.clients ["a", "b"]), mem_singleton_self _, Sample.vless (Sample.clients ["b"]),
        mem_singleton_self _, rfl, isSome_splitSettingsClients.mp (by decide +kernel),
        isSome_splitSettingsClients.mp (by decide +kernel), "a", by decide +kernel, by decide +kernel⟩
    have hdrops : (computeHotDiff (Sample.config (Sample.clients ["a", "b"])) (Sample.config (Sample.clients ["b"]))).all
        HotDiff.dropsUsers = true := by decide +kernel
    rw [h] at hdrops
    exact ⟨d, rfl, hdrops, hiff.mp hdrops⟩

/-- When the last client goes and the client list with it, the inbound is replaced and nobody is told to be dropped. -/
theorem last_client_is_not_seen :
    (computeHotDiff (Sample.config (Sample.clients ["a"])) (Sample.config Sample.noClients)).any (fun d => !d.dropsUsers) = true ∧
      LosesEmail (Sample.config (Sample.clients ["a"])) (Sample.config Sample.noClients) := by
  refine ⟨by decide +kernel, Sample.vless (Sample.clients ["a"]), mem_singleton_self _, Sample.vless Sample.noClients,
    mem_singleton_self _, rfl, "a", by decide +kernel, by decide +kernel⟩

end Hot

end Pui
