import LocalEmu.Core.Lambda.SqsPoller

/-!
# Finished Messages

A message is finished if the filters discard it, if the processor succeeded with
its batch, or if it reported others of the batch only. In a FIFO queue the first
group that raises ends the loop over the groups, so that what the filters would
discard in the groups after it stays in the queue.

Between the filters and the processor a body is JSON, so that it gets there as it
was if the encoder writes it in the same way.
-/

namespace LocalEmu.Lambda.SqsPoller

open List Option

variable {F : Type} (p : SqsPoller F)

/-! ### Reports -/

variable (messages group : List Message) (events : List (Event Text)) (message : Message)
  (validItemIds : List Text) (v : JsonValue F)

def Item (id : Text) : Prop :=
  ∃ members, v = .obj members ∧ members.lookup "itemIdentifier".toList = some (.str id) ∧ id ≠ []

/-- A document that names failed items. -/
inductive Document : JsonValue F → List Text → Prop
  | blank (v : JsonValue F) : p.truthy v = false → Document v []
  | absent (members : List (Text × JsonValue F)) :
      members.lookup "batchItemFailures".toList = none → Document (.obj members) []
  | empty (members : List (Text × JsonValue F)) (v : JsonValue F) :
      members.lookup "batchItemFailures".toList = some v → p.truthy v = false →
      Document (.obj members) []
  | items (members : List (Text × JsonValue F)) (items : List (JsonValue F)) (ids : List Text) :
      members.lookup "batchItemFailures".toList = some (.arr items) →
      List.Forall₂ Item items ids → Document (.obj members) ids

/-- A well-formed payload: nothing, a document, or the text of one. -/
inductive Report : JsonValue F → List Text → Prop
  | blank (v : JsonValue F) : p.truthy v = false → Report v []
  | object (members : List (Text × JsonValue F)) (ids : List Text) :
      p.Document (.obj members) ids → Report (.obj members) ids
  | text (t : Text) (v : JsonValue F) (ids : List Text) :
      t ≠ [] → p.library.loads t = .value v → p.Document v ids → Report (.str t) ids

theorem mapM_eq_some_iff {α β : Type} (f : α → Option β) (R : α → β → Prop) (P : β → Prop)
    (hf : ∀ a b, f a = some b ↔ R a b ∧ P b) (l : List α) (r : List β) :
    l.mapM f = some r ↔ List.Forall₂ R l r ∧ ∀ b ∈ r, P b := by
  induction l generalizing r with
  | nil => cases r <;> simp
  | cons a l ih =>
    cases r with
    | nil => simp [mapM_cons, bind_eq_some_iff]
    | cons =>
      simp [mapM_cons, bind_eq_some_iff, ih, hf]
      tauto

theorem itemIdentifier_iff (id : Text) :
    itemIdentifier validItemIds v = some id ↔ Item v id ∧ id ∈ validItemIds := by
  cases v with
  | obj =>
    rw [itemIdentifier]
    split
    · next s hs =>
        simp [Item]
        grind
    · next h =>
        simp only [reduceCtorEq, Item, false_iff]
        rintro ⟨⟨_, heq, hs, -⟩, -⟩
        cases heq
        exact h _ hs
  | null | bool | int | float | str | arr => simp [itemIdentifier, Item]

variable (ids : List Text)

theorem batchItemFailures_iff : p.batchItemFailures validItemIds v = some ids ↔
      p.Document v ids ∧ ∀ id ∈ ids, id ∈ validItemIds := by
  have hitems := fun items => mapM_eq_some_iff (itemIdentifier (F := F) validItemIds) _ _
    (itemIdentifier_iff _) items ids
  constructor
  · intro h
    unfold batchItemFailures at h
    split at h
    · split at h
      · next members _ =>
          split at h
          · next hl =>
              cases h
              exact ⟨.absent members hl, by simp⟩
          · next items hl =>
              have hids := (hitems _).mp h
              exact ⟨.items members items ids hl hids.1, hids.2⟩
          · next w _ hl =>
              split at h
              · cases h
              · next ht =>
                  cases h
                  exact ⟨.empty members w hl (by simpa using ht), by simp⟩
      · cases h
    · next ht =>
        cases h
        exact ⟨.blank v (by simpa using ht), by simp⟩
  · rintro ⟨h, hids⟩
    cases h with
    | blank _ ht => exact if_neg (by simp [ht])
    | absent members hl =>
      unfold batchItemFailures
      split <;> simp only [hl]
    | empty members w hl ht =>
      unfold batchItemFailures
      split
      · cases w with
        | arr items =>
          cases items with
          | nil => simp only [hl]; rfl
          | cons => cases ht
        | _ => simp only [hl, ht]; rfl
      · rfl
    | items members items _ hl hitem =>
      cases members with
      | nil => cases hl
      | cons _ _ =>
        have hm := (hitems _).mpr ⟨hitem, hids⟩
        exact (if_pos rfl).trans (by simpa only [hl] using hm)

/-- The payloads that are accepted. -/
theorem parseBatchItemFailures_iff : p.parseBatchItemFailures validItemIds v = some ids ↔
      p.Report v ids ∧ ∀ id ∈ ids, id ∈ validItemIds := by
  constructor
  · intro h
    unfold parseBatchItemFailures at h
    split at h
    · next ht =>
        split at h
        · next members =>
            have hids := (p.batchItemFailures_iff validItemIds _ ids).mp h
            exact ⟨.object members ids hids.1, hids.2⟩
        · next t =>
            split at h
            · next w hl =>
                have hids := (p.batchItemFailures_iff validItemIds w ids).mp h
                exact ⟨.text t w ids (by simpa [truthy] using ht) hl hids.1, hids.2⟩
            · cases h
        · cases h
    · next ht =>
        cases h
        exact ⟨.blank v (by simpa using ht), by simp⟩
  · rintro ⟨h, hids⟩
    cases h with
    | blank _ ht => exact if_neg (by simp [ht])
    | object members _ hd =>
      have hparse := (p.batchItemFailures_iff validItemIds _ ids).mpr ⟨hd, hids⟩
      cases members with
      | nil | cons => exact hparse
    | text t w _ hne hl hd =>
      have hparse := (p.batchItemFailures_iff validItemIds w ids).mpr ⟨hd, hids⟩
      cases t with
      | nil => exact absurd rfl hne
      | cons => exact (if_pos rfl).trans (by simpa only [hl] using hparse)

/-! ### Calls -/

def Discards : Prop := p.inspect message = some none

/-- The processor names failed messages of its batch. -/
def Reports : Prop :=
  ∃ payload, p.processor events = .partialBatchFailure payload ∧ p.Report payload ids ∧
    ∀ id ∈ ids, id ∈ events.map fun event => event.message.messageId

/-- The processor succeeds, or names others only. -/
def Succeeds : Prop :=
  p.processor events = .success ∨ ∃ ids, p.Reports events ids ∧ message.messageId ∉ ids

def Completes : Prop :=
  ∃ events, p.matchingEvents group = some events ∧
    (events = [] ∨ p.processor events = .success ∨ ∃ ids, p.Reports events ids)

theorem not_raised_iff : (p.handleMessages group).raised = false ↔ p.Completes group := by
  simp only [handleMessages, Completes, Reports, ← p.parseBatchItemFailures_iff]
  cases p.matchingEvents group with
  | none => simp
  | some events =>
    cases events with
    | nil => simp
    | cons =>
      simp only [isEmpty_cons, Bool.false_eq_true, if_false, some.injEq,
        exists_eq_left', reduceCtorEq, false_or]
      split
      · simp [*]
      · simp [*]
      · split <;> simp_all

theorem call_eq_iff : (p.handleMessages group).call = some events ↔
      p.matchingEvents group = some events ∧ events ≠ [] := by
  unfold handleMessages
  cases p.matchingEvents group with
  | none => simp
  | some found =>
    cases found with
    | nil => simp
    | cons event found =>
      have hfound : some (event :: found) = some events ↔
          some (event :: found) = some events ∧ events ≠ [] :=
        (and_iff_left_of_imp fun h => some.inj h ▸ cons_ne_nil _ _).symm
      simp only [isEmpty_cons, Bool.false_eq_true, if_false]
      split
      · exact hfound
      · exact hfound
      · split
        · exact hfound
        · exact hfound

theorem inspect_cases (event : Event Text) (h : p.inspect message = some (some event)) :
    ∃ v, event = p.writeBody ⟨message, v⟩ ∧
      (p.library.loads (transformIntoEvent message).body = .value v ∨
        p.library.loads (transformIntoEvent message).body = .decodeError ∧
          v = .str (transformIntoEvent message).body) := by
  simp only [inspect, bind_eq_some_iff, map_eq_some_iff] at h
  obtain ⟨read, hread, b, -, hb⟩ := h
  cases b with
  | false => cases hb
  | true =>
    cases hb
    unfold readBody at hread
    split at hread
    · next v hl =>
        cases hread
        exact ⟨v, rfl, .inl hl⟩
    · next hl =>
        cases hread
        exact ⟨_, rfl, .inr ⟨hl, rfl⟩⟩
    · cases hread

theorem inspect_message (event : Event Text)
    (h : p.inspect message = some (some event)) : event.message = message := by
  obtain ⟨v, rfl, -⟩ := p.inspect_cases message event h
  rw [writeBody]
  split <;> rfl

theorem matching_cases (h : p.matchingEvents group = some events) :
    (∀ event ∈ events, event.message ∈ group ∧ p.inspect event.message = some (some event)) ∧
      ∀ message ∈ group, p.Discards message ∨ ∃ event ∈ events, event.message = message := by
  obtain ⟨outs, houts, rfl⟩ := map_eq_some_iff.mp h
  have hall := ((mapM_eq_some_iff _ (fun a b => p.inspect a = some b) (fun _ => True)
    (by simp) _ _).mp houts).1
  clear h houts
  induction hall with
  | nil => simp
  | @cons message out _ _ hout _ ih =>
    cases out with
    | none =>
      refine ⟨fun event hevent => ?_, forall_mem_cons.mpr ⟨.inl hout, ih.2⟩⟩
      exact (ih.1 event hevent).imp_left (mem_cons_of_mem _)
    | some event =>
      have hmessage := p.inspect_message message event hout
      constructor
      · refine forall_mem_cons.mpr ⟨⟨?_, ?_⟩, fun event' hevent => ?_⟩
        · exact hmessage ▸ mem_cons_self
        · exact hmessage.symm ▸ hout
        · exact (ih.1 event' hevent).imp_left (mem_cons_of_mem _)
      · refine forall_mem_cons.mpr ⟨.inr ⟨event, mem_cons_self, hmessage⟩, fun m hm => ?_⟩
        refine (ih.2 m hm).imp_right fun hfound => ?_
        rcases hfound with ⟨event', hevent, heq⟩
        exact ⟨event', mem_cons_of_mem _ hevent, heq⟩

theorem mem_deleteMessages (ids : List Text) (m : Message) :
    m ∈ deleteMessages group ids ↔ m ∈ group ∧ m.messageId ∈ ids := by
  rw [deleteMessages, mem_filter, decide_eq_true_iff]

section Deleted

variable (hids : ∀ a ∈ group, ∀ b ∈ group, a.messageId = b.messageId → a = b)
  (hmatch : p.matchingEvents group = some events) (m : Message)

include hids hmatch

theorem mem_matchingIds_iff (hm : m ∈ group) :
    m.messageId ∈ events.map (fun event => event.message.messageId) ↔
      ∃ event ∈ events, event.message = m := by
  rw [List.mem_map]
  refine exists_congr fun event => and_congr_right fun hevent => ?_
  have hgroup := ((p.matching_cases group events hmatch).1 event hevent).1
  exact ⟨hids _ hgroup _ hm, congrArg _⟩

/-- A message is discarded if there is no event of it. -/
theorem mem_discarded_iff :
    m ∈ deleteMessages group ((group.map Message.messageId).filter fun id =>
      decide (id ∉ events.map fun event => event.message.messageId)) ↔
    m ∈ group ∧ p.Discards m := by
  rw [mem_deleteMessages]
  refine and_congr_right fun hm => ?_
  rw [mem_filter, decide_eq_true_iff, p.mem_matchingIds_iff group events hids hmatch m hm]
  obtain ⟨hevents, hgroup⟩ := p.matching_cases group events hmatch
  constructor
  · intro h
    exact (hgroup m hm).resolve_right h.2
  · intro hd
    refine ⟨mem_map_of_mem hm, ?_⟩
    rintro ⟨event, hevent, rfl⟩
    have hkept := (hevents event hevent).2
    rw [hd] at hkept
    cases hkept

end Deleted

/-- What is deleted for the messages of one call. -/
theorem mem_deleted_iff (hids : ∀ a ∈ group, ∀ b ∈ group, a.messageId = b.messageId → a = b)
    (m : Message) :
    m ∈ (p.handleMessages group).deleted ↔
      (m ∈ group ∧ p.Discards m ∧ (p.matchingEvents group).isSome) ∨
      ∃ events, (p.handleMessages group).call = some events ∧
        (∃ event ∈ events, event.message = m) ∧ p.Succeeds events m := by
  cases hmatch : p.matchingEvents group with
  | none => simp [handleMessages, hmatch]
  | some events =>
    obtain ⟨hevents, hgroup⟩ := p.matching_cases group events hmatch
    have hdiscarded := p.mem_discarded_iff group events hids hmatch m
    have hofEvent : (∃ event ∈ events, event.message = m) → m ∈ group := by
      rintro ⟨event, hevent, rfl⟩
      exact (hevents event hevent).1
    simp only [call_eq_iff, hmatch, isSome_some, and_true, some.injEq, and_assoc, exists_eq_left']
    unfold handleMessages
    rw [hmatch]
    cases events with
    | nil => simpa using hdiscarded
    | cons event events =>
      simp only [isEmpty_cons, Bool.false_eq_true, if_false, ne_eq, reduceCtorEq,
        not_false_eq_true, true_and]
      cases hresult : p.processor (event :: events) with
      | success =>
        -- Every message of the group is deleted: it is discarded or there is an event of it.
        rw [mem_append, hdiscarded, mem_deleteMessages]
        refine or_congr_right' fun hnot => ⟨fun hm => ?_, fun h => ?_⟩
        · exact ⟨(hgroup m hm.1).resolve_left fun hd => hnot ⟨hm.1, hd⟩, .inl hresult⟩
        · exact ⟨hofEvent h.1, mem_map_of_mem (hofEvent h.1)⟩
      | exception =>
        rw [hdiscarded]
        refine (or_iff_left fun h => ?_).symm
        rcases h.2 with h | ⟨_, ⟨_, h, -⟩, -⟩
        · exact absurd (hresult.symm.trans h) (by simp)
        · exact absurd (hresult.symm.trans h) (by simp)
      | partialBatchFailure payload =>
        have hsucceeds : p.Succeeds (event :: events) m ↔ ∃ failed,
            p.parseBatchItemFailures ((event :: events).map fun event => event.message.messageId)
              payload = some failed ∧ m.messageId ∉ failed := by
          simp [Succeeds, Reports, hresult, p.parseBatchItemFailures_iff]
        rw [hsucceeds]
        dsimp only
        cases p.parseBatchItemFailures _ payload with
        | none => simpa using hdiscarded
        | some failed =>
          simp only [some.injEq, exists_eq_left']
          rw [mem_append, hdiscarded, mem_deleteMessages, mem_filter, decide_eq_true_iff]
          refine or_congr_right ⟨fun h => ?_, fun h => ?_⟩
          · exact ⟨(p.mem_matchingIds_iff group _ hids hmatch m h.1).mp h.2.1, h.2.2⟩
          · have hm := hofEvent h.1
            exact ⟨hm, (p.mem_matchingIds_iff group _ hids hmatch m hm).mpr h.1, h.2⟩

/-! ### Polls -/

def Deletes (m : Message) : Prop :=
  ∃ handled ∈ p.pollEvents messages, m ∈ handled.deleted

/-- The filters discard the message, or a call with it ends well for it. -/
def Finished (m : Message) : Prop :=
  p.Discards m ∨ ∃ handled ∈ p.pollEvents messages, ∃ events, handled.call = some events ∧
    (∃ event ∈ events, event.message = m) ∧ p.Succeeds events m

/-- No group of the same batch before the group raises. -/
def Reaches : Prop :=
  ∃ batch ∈ batched 2500 messages, ∃ before after,
    p.groupsOf batch = before ++ group :: after ∧ ∀ g ∈ before, p.Completes g

theorem mem_handleGroups_iff (groups : List (List Message)) (handled : Handled) :
    handled ∈ p.handleGroups groups ↔ ∃ before group after,
      groups = before ++ group :: after ∧ (∀ g ∈ before, p.Completes g) ∧
        handled = p.handleMessages group := by
  induction groups with
  | nil => simp [handleGroups]
  | cons g groups ih =>
    have hcons : handled ∈ p.handleGroups (g :: groups) ↔ handled = p.handleMessages g ∨
        p.Completes g ∧ handled ∈ p.handleGroups groups := by
      rw [handleGroups, ← not_raised_iff]
      cases (p.handleMessages g).raised <;> simp
    rw [hcons, ih]
    constructor
    · rintro (rfl | ⟨hg, before, group, after, rfl, hbefore, rfl⟩)
      · exact ⟨[], g, groups, rfl, by simp, rfl⟩
      · exact ⟨g :: before, group, after, rfl, by simpa using ⟨hg, hbefore⟩, rfl⟩
    · rintro ⟨before, group, after, heq, hbefore, rfl⟩
      cases before with
      | nil =>
        cases heq
        exact .inl rfl
      | cons g before =>
        cases heq
        exact .inr ⟨hbefore _ (by simp), before, group, after, rfl,
          fun g hg => hbefore g (by simp [hg]), rfl⟩

theorem mem_pollEvents_iff (handled : Handled) : handled ∈ p.pollEvents messages ↔
      ∃ group, p.Reaches messages group ∧ handled = p.handleMessages group := by
  simp only [pollEvents, mem_flatMap, mem_handleGroups_iff, Reaches]
  grind

theorem mem_of_reaches (h : p.Reaches messages group) : ∀ m ∈ group, m ∈ messages := by
  rintro m hm
  obtain ⟨batch, hbatch, before, after, heq, -⟩ := h
  have hgroup : group ∈ p.groupsOf batch := by simp [heq]
  obtain ⟨i, -, rfl⟩ := mem_map.mp hbatch
  have hbatch : m ∈ (messages.drop (2500 * i)).take 2500 → m ∈ messages := fun h =>
    mem_of_mem_drop (mem_of_mem_take h)
  apply hbatch
  unfold groupsOf at hgroup
  split at hgroup
  · obtain ⟨⟨k, g⟩, hk, rfl⟩ := mem_map.mp hgroup
    have hget := (Dict.get?_eq_some_iff _ _ _).mpr hk
    rw [Dict.get?_group] at hget
    grind
  · simp_all

/-- The finished messages are deleted, and no others, if and only if what the filters
    discard is in a group that is reached and read. -/
theorem deletes_finished_iff (hids : (messages.map Message.messageId).Nodup) :
    (∀ m ∈ messages, p.Deletes messages m ↔ p.Finished messages m) ↔
      ∀ m ∈ messages, p.Discards m →
        ∃ group, p.Reaches messages group ∧ m ∈ group ∧ (p.matchingEvents group).isSome := by
  have hdeletes : ∀ m, p.Deletes messages m ↔
      (p.Discards m ∧ ∃ group, p.Reaches messages group ∧ m ∈ group ∧
        (p.matchingEvents group).isSome) ∨
      ∃ handled ∈ p.pollEvents messages, ∃ events, handled.call = some events ∧
        (∃ event ∈ events, event.message = m) ∧ p.Succeeds events m := by
    intro m
    have hgroup := fun group h => p.mem_deleted_iff group (fun a ha b hb =>
      inj_on_of_nodup_map hids (p.mem_of_reaches messages group h a ha)
        (p.mem_of_reaches messages group h b hb)) m
    simp only [Deletes, mem_pollEvents_iff]
    grind
  -- A message in a call is in a group that is read.
  have hcall : ∀ m, (∃ handled ∈ p.pollEvents messages, ∃ events, handled.call = some events ∧
      (∃ event ∈ events, event.message = m) ∧ p.Succeeds events m) →
      ∃ group, p.Reaches messages group ∧ m ∈ group ∧ (p.matchingEvents group).isSome := by
    rintro m ⟨handled, hhandled, events, hcall, ⟨event, hevent, rfl⟩, -⟩
    obtain ⟨group, hreach, rfl⟩ := (p.mem_pollEvents_iff messages handled).mp hhandled
    obtain ⟨hmatch, -⟩ := (p.call_eq_iff group events).mp hcall
    exact ⟨group, hreach,
      ((p.matching_cases group events hmatch).1 event hevent).1, by simp [hmatch]⟩
  simp only [hdeletes, Finished]
  refine forall₂_congr fun m _ => ?_
  constructor
  · intro h hd
    rcases h.mpr (.inl hd) with hgroup | hc
    · exact hgroup.2
    · exact hcall m hc
  · intro h
    exact or_congr_left ⟨And.left, fun hd => ⟨hd, h hd⟩⟩

/-! ### Bodies -/

/-- What is loaded is dumped to a text that loads to it again, unless it is a string, and
    strings are shorter than their texts. -/
structure Lawful (library : Library F) : Prop where
  loads_dumps : ∀ t v, library.loads t = .value v → (∀ s, v ≠ .str s) →
    library.loads (library.dumps v) = .value v
  length_lt : ∀ t s, library.loads t = .value (.str s) → s.length < t.length

/-- The text is not JSON, or it is as the encoder writes a value that is not a string. -/
def Canonical (t : Text) : Prop :=
  p.library.loads t = .decodeError ∨ ∃ t' v, p.library.loads t' = .value v ∧ (∀ s, v ≠ .str s) ∧
    t = p.library.dumps v

/-- When a body gets to the processor unchanged. Its digest is then the one of the event. -/
theorem body_iff (hlib : Lawful p.library) (group : List Message) (events : List (Event Text))
    (hcall : (p.handleMessages group).call = some events) (event : Event Text)
    (hevent : event ∈ events) :
    (event.body = (transformIntoEvent event.message).body ↔
      p.Canonical (transformIntoEvent event.message).body) ∧
    ∀ md5 : Text → Text, p.Canonical (transformIntoEvent event.message).body →
      event.message.md5OfBody = md5 (transformIntoEvent event.message).body →
        event.message.md5OfBody = md5 event.body := by
  suffices hiff : event.body = (transformIntoEvent event.message).body ↔
      p.Canonical (transformIntoEvent event.message).body from
    ⟨hiff, fun md5 hcanonical hmd5 => by rw [hiff.mpr hcanonical, hmd5]⟩
  obtain ⟨hmatch, -⟩ := (p.call_eq_iff group events).mp hcall
  obtain ⟨v, hwrite, hread⟩ :=
    p.inspect_cases _ _ ((p.matching_cases group events hmatch).1 event hevent).2
  generalize (transformIntoEvent event.message).body = t at hread ⊢
  rw [hwrite]
  rcases hread with hl | ⟨hl, rfl⟩
  · have hcanonical : p.Canonical t ↔ (∀ s, v ≠ .str s) ∧ t = p.library.dumps v := by
      constructor
      · rintro (h | ⟨t', v', hl', hv, rfl⟩)
        · rw [hl] at h
          cases h
        · rw [hlib.loads_dumps t' v' hl' hv] at hl
          cases hl
          exact ⟨hv, rfl⟩
      · exact fun h => .inr ⟨t, v, hl, h⟩
    rw [hcanonical]
    cases v with
    | str s =>
      have := hlib.length_lt t s hl
      simp only [writeBody, ne_eq, JsonValue.str.injEq, forall_eq', false_and, iff_false]
      rintro rfl
      omega
    | _ => simp [writeBody, eq_comm]
  · exact iff_of_true rfl (.inl hl)

/-! ### A queue with two groups -/

def first : Message := ⟨['1'], ['r'], some ['7'], ['a'], []⟩

def second : Message := ⟨['2'], ['s'], some [' ', '7'], ['b'], []⟩

/-- The first message matches, and the processor raises. -/
def raising : SqsPoller Empty where
  library := ⟨fun t => if t = ['7'] ∨ t = [' ', '7'] then .value (.int 7) else .decodeError,
    fun _ => ['7'], Empty.elim⟩
  isFifoQueue := true
  matchesEvent event := some (event.message == first)
  processor _ := .exception

theorem deletes_finished_of_first :
    (raising.Deletes [second, first] first ↔ raising.Finished [second, first] first) ∧
      (raising.Deletes [second, first] second ↔ raising.Finished [second, first] second) := by
  have hall := (raising.deletes_finished_iff [second, first] (by decide)).mpr (by
    intro m hm hd
    rcases mem_cons.mp hm with rfl | hm
    · exact ⟨[second], ⟨_, mem_cons_self, [], [[first]], rfl, by simp⟩, mem_cons_self, rfl⟩
    · cases mem_singleton.mp hm
      cases hd)
  exact ⟨hall _ (by simp), hall _ mem_cons_self⟩

theorem second_stays : raising.Discards second ∧ ¬raising.Deletes [first, second] second :=
  ⟨rfl, by unfold Deletes; decide⟩

theorem raising_lawful : Lawful raising.library where
  loads_dumps t v h _ := by
    simp only [raising] at h
    split at h <;> cases h
    rfl
  length_lt t s h := by
    simp only [raising] at h
    split at h <;> cases h

theorem canonical_of_first : raising.Canonical ['7'] :=
  (raising.body_iff raising_lawful [first] _ rfl ⟨first, ['7']⟩ (by decide)).1.mp rfl

theorem space_is_lost :
    ({ raising with matchesEvent := fun _ => some true }.handleMessages [second]).call =
      some [⟨second, ['7']⟩] := by decide

end LocalEmu.Lambda.SqsPoller
