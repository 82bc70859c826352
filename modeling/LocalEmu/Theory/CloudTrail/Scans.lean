import LocalEmu.Base.Paging
import LocalEmu.Base.Run
import LocalEmu.Core.CloudTrail.EventStore

/-!
# Scans of the Store

A scan is a sequence of queries with one filter, each with the token of the page before.
Between them events are recorded. These come before the event of the token, and what else
happens to the events is that some of them go. So what comes after that event in the store
is what is left of the rest of the scan, and a page takes the first part of it.
-/

namespace LocalEmu.CloudTrail

open List Option

variable {δ : Type} [DecidableEq δ]

/-! ### Filters -/

def isOfCategory (category : Option Text) (event : CloudTrailEvent δ) : Bool :=
  match category with
  | some category =>
    decide (category = []) ||
      decide ((if event.eventCategory = [] then "Management".toList else event.eventCategory) =
        category)
  | none => true

def isOfTimes (startTime endTime : Option Int) (event : CloudTrailEvent δ) : Bool :=
  (startTime.all fun start => decide (start ≤ event.eventTime)) &&
    endTime.all fun stop => decide (event.eventTime ≤ stop)

def hasAttributes (attributes : List (Text × Text)) (event : CloudTrailEvent δ) : Bool :=
  attributes.all fun lookup =>
    (attributeFilter lookup.1 lookup.2).all fun filter => filter event

/-- A filter lets an event through. -/
def Filter.passes (filter : Filter) (event : CloudTrailEvent δ) : Bool :=
  isOfCategory filter.eventCategory event && isOfTimes filter.startTime filter.endTime event &&
    hasAttributes filter.lookupAttributes event

/-- A filter with at most one attribute and with a category that there is. -/
def Filter.Valid (filter : Filter) : Prop :=
  filter.lookupAttributes.length ≤ 1 ∧
    ∀ category ∈ filter.eventCategory, category ∈ validEventCategories

instance (filter : Filter) : Decidable filter.Valid := inferInstanceAs (Decidable (_ ∧ _))

omit [DecidableEq δ] in
theorem ofCategory_eq (category : Option Text) (events : List (CloudTrailEvent δ)) :
    ofCategory category events = events.filter (isOfCategory category) := by
  unfold ofCategory
  cases category with
  | none => exact (filter_eq_self.mpr fun _ _ => rfl).symm
  | some category =>
    dsimp only
    by_cases hempty : category = []
    · rw [if_pos hempty]
      refine (filter_eq_self.mpr fun _ _ => ?_).symm
      rw [isOfCategory, decide_eq_true hempty, Bool.true_or]
    · rw [if_neg hempty]
      refine filter_congr fun event _ => ?_
      rw [isOfCategory, decide_eq_false hempty, Bool.false_or]

omit [DecidableEq δ] in
theorem ofTimes_eq (startTime endTime : Option Int) (events : List (CloudTrailEvent δ)) :
    ofTimes startTime endTime events = events.filter (isOfTimes startTime endTime) := by
  unfold ofTimes
  cases startTime with
  | none =>
    cases endTime with
    | none => exact (filter_eq_self.mpr fun _ _ => rfl).symm
    | some => rfl
  | some =>
    cases endTime with
    | none =>
      refine filter_congr fun event _ => ?_
      simp [isOfTimes]
    | some =>
      dsimp only
      rw [List.filter_filter]
      refine filter_congr fun event _ => ?_
      simp [isOfTimes, Bool.and_comm]

omit [DecidableEq δ] in
theorem ofAttributes_eq (attributes : List (Text × Text)) (events : List (CloudTrailEvent δ)) :
    ofAttributes attributes events = events.filter (hasAttributes attributes) := by
  unfold ofAttributes
  induction attributes generalizing events with
  | nil => exact (filter_eq_self.mpr fun _ _ => rfl).symm
  | cons lookup attributes ih =>
    rw [foldl_cons, ih]
    cases hfilter : (attributeFilter lookup.1 lookup.2 : Option (CloudTrailEvent δ → Bool)) with
    | none =>
      refine filter_congr fun event _ => ?_
      simp [hasAttributes, hfilter]
    | some =>
      dsimp only
      rw [List.filter_filter]
      refine filter_congr fun event _ => ?_
      simp [hasAttributes, hfilter, Bool.and_comm]

omit [DecidableEq δ] in
theorem apply_eq (filter : Filter) (events : List (CloudTrailEvent δ)) :
    filter.apply events = events.filter filter.passes := by
  rw [Filter.apply, ofCategory_eq, ofTimes_eq, ofAttributes_eq, List.filter_filter,
    List.filter_filter]
  refine filter_congr fun event _ => ?_
  simp [Filter.passes, Bool.and_comm, Bool.and_left_comm]

/-! ### Queries -/

/-- A page of some events, with its token. -/
def pageOf (events : List (CloudTrailEvent δ)) (size : Nat) :
    List (CloudTrailEvent δ) × Option EventId :=
  (events.take size,
    if size < events.length then (events.take size).getLast?.map CloudTrailEvent.eventId else none)

theorem clampMaxResults_bounds (maxResults : Option Int) :
    0 < clampMaxResults maxResults ∧ clampMaxResults maxResults ≤ 50 := by
  unfold clampMaxResults
  omega

omit [DecidableEq δ] in
theorem offsetAfter_eq_none {token : Text} {events : List (CloudTrailEvent δ)}
    (h : ∀ event ∈ events, event.eventId.1 ≠ token) : offsetAfter token events = none := by
  induction events with
  | nil => rfl
  | cons event events ih =>
    rw [forall_mem_cons] at h
    rw [offsetAfter, if_neg h.1, ih h.2, map_none]

omit [DecidableEq δ] in
theorem offsetAfter_append {token : Text} {before after : List (CloudTrailEvent δ)}
    {event : CloudTrailEvent δ} (h : ∀ other ∈ before, other.eventId.1 ≠ token)
    (hevent : event.eventId.1 = token) :
    offsetAfter token (before ++ event :: after) = some (before.length + 1) := by
  induction before with
  | nil => rw [nil_append, offsetAfter, if_pos hevent, length_nil]
  | cons other before ih =>
    rw [forall_mem_cons] at h
    rw [cons_append, offsetAfter, if_neg h.1, ih h.2, map_some, length_cons]

variable {filter : Filter} {store : CloudTrailEventStore δ}

omit [DecidableEq δ] in
theorem query_eq (hvalid : filter.Valid)
    (maxResults : Option Int) {nextToken : Option Text} {offset : Nat}
    (hoffset : cursorOffset nextToken (store.events.filter filter.passes) = some offset) :
    store.query filter maxResults nextToken =
      .ok (pageOf ((store.events.filter filter.passes).drop offset)
        (clampMaxResults maxResults)) := by
  have hcategory : ¬∃ category ∈ filter.eventCategory, category ∉ validEventCategories :=
    fun ⟨category, hmem, hnot⟩ => hnot (hvalid.2 category hmem)
  have hpos := (clampMaxResults_bounds maxResults).1
  unfold CloudTrailEventStore.query
  rw [if_neg (Nat.not_lt.mpr hvalid.1), if_neg hcategory, apply_eq]
  dsimp only
  rw [hoffset]
  dsimp only
  rw [pageOf, length_drop]
  congr 2
  by_cases hmore : offset + clampMaxResults maxResults < (store.events.filter filter.passes).length
  · rw [if_pos hmore, if_pos (by omega)]
  · rw [if_neg hmore, if_neg (by omega)]

omit [DecidableEq δ] in
/-- The results of queries. -/
theorem query_start (store : CloudTrailEventStore δ) (hvalid : filter.Valid)
    (maxResults : Option Int) :
    store.query filter maxResults none =
      .ok (pageOf (store.events.filter filter.passes) (clampMaxResults maxResults)) := by
  have hoffset : cursorOffset none (store.events.filter filter.passes) = some 0 := rfl
  rw [query_eq hvalid maxResults hoffset, drop_zero]

omit [DecidableEq δ] in
theorem query_lost (hvalid : filter.Valid)
    (maxResults : Option Int) (token : EventId)
    (h : ∀ event ∈ store.events.filter filter.passes, event.eventId.1 ≠ token.1) :
    store.query filter maxResults (some token.1) = .error .invalidNextToken := by
  have hcategory : ¬∃ category ∈ filter.eventCategory, category ∉ validEventCategories :=
    fun ⟨category, hmem, hnot⟩ => hnot (hvalid.2 category hmem)
  unfold CloudTrailEventStore.query
  rw [if_neg (Nat.not_lt.mpr hvalid.1), if_neg hcategory, apply_eq]
  dsimp only
  rw [cursorOffset, if_neg token.2, offsetAfter_eq_none h]

/-! ### Scans -/

/-- How a scan goes on. -/
inductive Cursor
  | start
  | token (id : EventId)
  | done
  | failed

/-- The token of the next query, if there is one. -/
def Cursor.nextToken? : Cursor → Option (Option Text)
  | start => some none
  | token id => some (some id.1)
  | done => none
  | failed => none

def Cursor.after : Option EventId → Cursor
  | some id => .token id
  | none => .done

/-- A scan between two queries. -/
structure Scan (δ : Type) where
  store : CloudTrailEventStore δ
  cursor : Cursor

/-- What happens during a scan. -/
inductive ScanLabel (δ : Type)
  | recorded (event : CloudTrailEvent δ)
  | page (events : List (CloudTrailEvent δ)) (newToken : Option EventId)
  | failed (error : QueryError)

/-- An event is recorded, or a page is queried, of any length. -/
inductive ScanStep (filter : Filter) : Scan δ → ScanLabel δ → Scan δ → Prop
  | recorded (s : Scan δ) (event : CloudTrailEvent δ) :
      ScanStep filter s (.recorded event) { s with store := (s.store.record event).2 }
  | page (s : Scan δ) (nextToken : Option Text) (maxResults : Option Int)
      (events : List (CloudTrailEvent δ)) (newToken : Option EventId)
      (hcursor : s.cursor.nextToken? = some nextToken)
      (hquery : s.store.query filter maxResults nextToken = .ok (events, newToken)) :
      ScanStep filter s (.page events newToken) { s with cursor := .after newToken }
  | failed (s : Scan δ) (nextToken : Option Text) (maxResults : Option Int) (error : QueryError)
      (hcursor : s.cursor.nextToken? = some nextToken)
      (hquery : s.store.query filter maxResults nextToken = .error error) :
      ScanStep filter s (.failed error) { s with cursor := .failed }

def ScanLabel.events : ScanLabel δ → List (CloudTrailEvent δ)
  | recorded _ => []
  | page events _ => events
  | failed _ => []

def ScanLabel.recorded? : ScanLabel δ → Option (CloudTrailEvent δ)
  | recorded event => some event
  | _ => none

/-- The events of the pages. -/
def delivered (labels : List (ScanLabel δ)) : List (CloudTrailEvent δ) :=
  labels.flatMap ScanLabel.events

/-- The events that were recorded meanwhile, the newest first. -/
def recorded (labels : List (ScanLabel δ)) : List (CloudTrailEvent δ) :=
  (labels.filterMap ScanLabel.recorded?).reverse

omit [DecidableEq δ] in
theorem delivered_concat (labels : List (ScanLabel δ)) (label : ScanLabel δ) :
    delivered (labels ++ [label]) = delivered labels ++ label.events := by
  rw [delivered, flatMap_append, flatMap_singleton, delivered]

omit [DecidableEq δ] in
theorem recorded_concat (labels : List (ScanLabel δ)) (label : ScanLabel δ) :
    recorded (labels ++ [label]) = label.recorded?.toList ++ recorded labels := by
  cases label with
  | recorded | page | failed => simp [recorded, ScanLabel.recorded?]

/-! ### What is left -/

theorem take_filter_eq {α : Type} (p : α → Bool) (l : List α) {n : Nat} (hpos : 0 < n)
    (hlength : n ≤ (l.filter p).length) : ∃ before a after, l = before ++ a :: after ∧
      p a = true ∧ (l.filter p).take n = before.filter p ++ [a] := by
  rcases eq_nil_or_concat ((l.filter p).take n) with hnil | ⟨init, a, hconcat⟩
  · have hlength' := congrArg length hnil
    rw [length_take, length_nil] at hlength'
    omega
  · rw [concat_eq_append] at hconcat
    have hsplit : l.filter p = init ++ (a :: (l.filter p).drop n) := by
      rw [← singleton_append, ← append_assoc, ← hconcat, take_append_drop]
    rcases filter_eq_append_iff.mp hsplit with ⟨first, rest, rfl, hfirst, hrest⟩
    rcases filter_eq_cons_iff.mp hrest with ⟨skipped, after, rfl, hskipped, ha, -⟩
    refine ⟨first ++ skipped, a, after, by rw [append_assoc], ha, ?_⟩
    have hnone : skipped.filter p = [] := filter_eq_nil_iff.mpr hskipped
    rw [hconcat, filter_append, hfirst, hnone, append_nil]

/-- A store still has an event that a filter lets through. -/
def Available (filter : Filter) (store : CloudTrailEventStore δ) (event : CloudTrailEvent δ) :
    Prop :=
  event ∈ store.events ∧ filter.passes event = true

instance (filter : Filter) (store : CloudTrailEventStore δ) (event : CloudTrailEvent δ) :
    Decidable (Available filter store event) := inferInstanceAs (Decidable (_ ∧ _))

/-- The events of the first snapshot are cut in two. What is available of the first part was
    delivered, and nothing else was. -/
def Delivered (filter : Filter) (store : CloudTrailEventStore δ)
    (out first : List (CloudTrailEvent δ)) : Prop :=
  out.Sublist first ∧ ∀ event ∈ first, Available filter store event → event ∈ out

/-- How far a scan is in the events that the store had at its first page. -/
def Following (filter : Filter) (base out : List (CloudTrailEvent δ)) (s : Scan δ) : Prop :=
  match s.cursor with
  | .start => False
  | .token id => ∃ first event rest, base = first ++ event :: rest ∧ event.eventId = id ∧
      filter.passes event = true ∧ Delivered filter s.store out (first ++ [event])
  | .done => Delivered filter s.store out base
  | .failed => out.Sublist base

/-- A page takes the first part of what is left. -/
theorem page_following {base out first rest : List (CloudTrailEvent δ)} {maxResults : Option Int}
    {page : List (CloudTrailEvent δ) × Option EventId} (hbase : base = first ++ rest)
    (hout : Delivered filter store out first)
    (hpage : page = pageOf (rest.filter fun event => decide (Available filter store event))
      (clampMaxResults maxResults)) :
    Following filter base (out ++ page.1) ⟨store, .after page.2⟩ := by
  subst hpage
  have hpos := (clampMaxResults_bounds maxResults).1
  unfold pageOf
  by_cases hmore : clampMaxResults maxResults <
      (rest.filter fun event => decide (Available filter store event)).length
  · rcases take_filter_eq _ _ hpos (Nat.le_of_lt hmore) with
      ⟨before, event, after, hrest, hevent, htake⟩
    rw [if_pos hmore, htake, getLast?_concat]
    refine ⟨first ++ before, event, after, ?_, rfl, (of_decide_eq_true hevent).2, ?_, ?_⟩
    · rw [hbase, hrest, append_assoc]
    · rw [append_assoc]
      exact hout.1.append (filter_sublist.append_right _)
    · intro other hother havailable
      rw [append_assoc, mem_append] at hother
      rcases hother with hother | hother
      · exact mem_append.mpr (.inl (hout.2 _ hother havailable))
      · refine mem_append.mpr (.inr ?_)
        rw [mem_append] at hother ⊢
        refine hother.imp_left fun hmem => ?_
        exact mem_filter.mpr ⟨hmem, decide_eq_true havailable⟩
  · rw [if_neg hmore, take_of_length_le (Nat.le_of_not_lt hmore)]
    refine ⟨?_, fun other hother havailable => ?_⟩
    · rw [hbase]
      exact hout.1.append filter_sublist
    · rw [hbase, mem_append] at hother
      rcases hother with hother | hother
      · exact mem_append.mpr (.inl (hout.2 _ hother havailable))
      · exact mem_append.mpr (.inr (mem_filter.mpr ⟨hother, decide_eq_true havailable⟩))

/-! ### Steps -/

omit [DecidableEq δ] in
theorem page_of_query {maxResults : Option Int}
    {nextToken : Option Text} {page : List (CloudTrailEvent δ) × Option EventId}
    (h : store.query filter maxResults nextToken = .ok page) :
    filter.Valid ∧ page.1.length ≤ 50 ∧ (page.2 ≠ none → page.1 ≠ []) ∧
      ∀ event ∈ page.1, filter.passes event = true := by
  have hbounds := clampMaxResults_bounds maxResults
  unfold CloudTrailEventStore.query at h
  by_cases hattributes : 1 < filter.lookupAttributes.length
  · rw [if_pos hattributes] at h
    cases h
  · rw [if_neg hattributes] at h
    by_cases hcategory : ∃ category ∈ filter.eventCategory, category ∉ validEventCategories
    · rw [if_pos hcategory] at h
      cases h
    · rw [if_neg hcategory] at h
      dsimp only at h
      cases hoffset : cursorOffset nextToken (filter.apply store.events) with
      | none =>
        rw [hoffset] at h
        cases h
      | some =>
        rw [hoffset] at h
        cases h
        refine ⟨⟨Nat.not_lt.mp hattributes, fun category hmem => ?_⟩, ?_, fun htoken hnil => ?_,
          fun event hevent => ?_⟩
        · by_contra hnot
          exact hcategory ⟨category, hmem, hnot⟩
        · exact (length_take_le _ _).trans hbounds.2
        · dsimp only at htoken hnil
          split at htoken
          · rw [hnil] at htoken
            exact htoken rfl
          · exact htoken rfl
        · have hmem := mem_of_mem_drop (mem_of_mem_take hevent)
          rw [apply_eq] at hmem
          exact (mem_filter.mp hmem).2

theorem record_sublist (store : CloudTrailEventStore δ) (event : CloudTrailEvent δ) :
    (store.record event).2.events.Sublist (event :: store.events) := by
  have hstale : (store.unindexOldest.removeStale event).events.Sublist store.events := by
    have hsame : store.unindexOldest.events = store.events := by
      unfold CloudTrailEventStore.unindexOldest
      split
      · split
        · rfl
        · rfl
      · rfl
    unfold CloudTrailEventStore.removeStale
    split
    · rw [hsame]
    · split
      · dsimp only
        rw [hsame]
        exact erase_sublist
      · rw [hsame]
  have hevents : (store.record event).2.events = CloudTrailEventStore.appendleft
      (store.unindexOldest.removeStale event).maxEvents event
      (store.unindexOldest.removeStale event).events := by
    unfold CloudTrailEventStore.record
    dsimp only
    split
    · rfl
    · rfl
  rw [hevents]
  exact (take_sublist _ _).trans (hstale.cons_cons _)

omit [DecidableEq δ] in
theorem Delivered.mono {store store' : CloudTrailEventStore δ}
    {out first : List (CloudTrailEvent δ)} (h : Delivered filter store out first)
    (hstore : ∀ event ∈ first, event ∈ store'.events → event ∈ store.events) :
    Delivered filter store' out first :=
  ⟨h.1, fun event hevent havailable =>
    h.2 event hevent ⟨hstore event hevent havailable.1, havailable.2⟩⟩

omit [DecidableEq δ] in
theorem Following.mono {base out : List (CloudTrailEvent δ)}
    {store store' : CloudTrailEventStore δ} {cursor : Cursor}
    (h : Following filter base out ⟨store, cursor⟩)
    (hstore : ∀ event ∈ base, event ∈ store'.events → event ∈ store.events) :
    Following filter base out ⟨store', cursor⟩ := by
  cases cursor with
  | start | failed => exact h
  | token =>
    rcases h with ⟨first, event, rest, hbase, hid, hpasses, hout⟩
    refine ⟨first, event, rest, hbase, hid, hpasses, hout.mono fun other hother => ?_⟩
    refine hstore other ?_
    rw [hbase, ← singleton_append, ← append_assoc]
    exact mem_append.mpr (.inl hother)
  | done => exact Delivered.mono h hstore

theorem query_following (hvalid : filter.Valid) {base out recs : List (CloudTrailEvent δ)}
    {id : EventId}
    (hids : ((recs ++ base).map CloudTrailEvent.eventId).Nodup)
    (hstored : store.events.Sublist (recs ++ base))
    (h : Following filter base out ⟨store, .token id⟩) (maxResults : Option Int) :
    ((∀ event ∈ store.events, event.eventId ≠ id) →
      store.query filter maxResults (some id.1) = .error .invalidNextToken) ∧
    ((∃ event ∈ store.events, event.eventId = id) → ∃ first rest, base = first ++ rest ∧
      Delivered filter store out first ∧ store.query filter maxResults (some id.1) =
        .ok (pageOf (rest.filter fun event => decide (Available filter store event))
          (clampMaxResults maxResults))) := by
  rcases h with ⟨first, event, rest, hbase, rfl, hpasses, hout⟩
  have hmem : event ∈ recs ++ base := by
    rw [hbase]
    exact mem_append.mpr (.inr (mem_append.mpr (.inr mem_cons_self)))
  constructor
  · intro hlost
    refine query_lost hvalid _ _ fun other hother hsame => ?_
    exact hlost _ (mem_filter.mp hother).1 (Subtype.ext hsame)
  · rintro ⟨found, hfound, hsame⟩
    have hstill : event ∈ store.events := by
      rw [← inj_on_of_nodup_map hids (hstored.subset hfound) hmem hsame]
      exact hfound
    refine ⟨first ++ [event], rest, by rw [hbase, append_assoc, singleton_append], hout, ?_⟩
    have hsnapshot : store.events.filter filter.passes =
        (recs ++ first).filter (fun other => decide (Available filter store other)) ++
          event :: rest.filter fun other => decide (Available filter store other) := by
      have hevents := Paging.eq_filter_of_sublist hstored hids.of_map
      have hcut : recs ++ base = (recs ++ first) ++ event :: rest := by rw [hbase, append_assoc]
      have havailable : ((recs ++ first) ++ event :: rest).filter
          (fun other => decide (Available filter store other)) =
          store.events.filter filter.passes := by
        have hboth : (recs ++ base).filter (fun other => decide (Available filter store other)) =
            ((recs ++ base).filter fun other => decide (other ∈ store.events)).filter
              filter.passes := by
          rw [List.filter_filter]
          refine filter_congr fun other _ => ?_
          rw [Bool.eq_iff_iff, decide_eq_true_eq, Bool.and_eq_true, decide_eq_true_eq]
          exact and_comm
        rw [← hcut, hboth, ← hevents]
      rw [← havailable, filter_append, filter_cons_of_pos]
      exact decide_eq_true ⟨hstill, hpasses⟩
    have hoffset : cursorOffset (some event.eventId.1) (store.events.filter filter.passes) =
        some (((recs ++ first).filter fun other =>
          decide (Available filter store other)).length + 1) := by
      rw [cursorOffset, if_neg event.eventId.2, hsnapshot]
      refine offsetAfter_append (fun other hother heq => ?_) rfl
      rw [hbase, ← append_assoc, map_append, nodup_append] at hids
      exact hids.2.2 other.eventId (mem_map_of_mem (mem_of_mem_filter hother)) event.eventId
        (mem_map_of_mem mem_cons_self) (Subtype.ext heq)
    rw [query_eq hvalid maxResults hoffset, hsnapshot, ← drop_drop, drop_left, drop_one, tail_cons]

theorem following_start {s : Scan δ} {label : ScanLabel δ}
    (hstep : ScanStep filter ⟨store, .start⟩ label s)
    (hlabel : label.recorded? = none) :
    Following filter store.events label.events s ∧ s.store = store := by
  cases hstep with
  | recorded => cases hlabel
  | page nextToken maxResults events newToken hcursor hquery =>
    cases some.inj hcursor
    have hvalid := (page_of_query hquery).1
    rw [query_start _ hvalid, Except.ok.injEq] at hquery
    have hsnapshot : store.events.filter filter.passes =
        store.events.filter fun event => decide (Available filter store event) := by
      refine filter_congr fun event hevent => ?_
      simp [Available, hevent]
    rw [hsnapshot] at hquery
    exact ⟨page_following (nil_append _).symm ⟨List.Sublist.refl _, nofun⟩ hquery.symm, rfl⟩
  | failed => exact ⟨nil_sublist _, rfl⟩

theorem following_step {base out recs : List (CloudTrailEvent δ)} {s t : Scan δ}
    {label : ScanLabel δ}
    (hids : ((label.recorded?.toList ++ recs ++ base).map CloudTrailEvent.eventId).Nodup)
    (hstored : s.store.events.Sublist (recs ++ base)) (h : Following filter base out s)
    (hstep : ScanStep filter s label t) :
    Following filter base (out ++ label.events) t ∧
      t.store.events.Sublist (label.recorded?.toList ++ recs ++ base) := by
  rcases s with ⟨store, cursor⟩
  cases hstep with
  | recorded event =>
    have hsub := (record_sublist _ event).trans (hstored.cons_cons _)
    refine ⟨?_, hsub⟩
    rw [ScanLabel.events, append_nil]
    refine h.mono fun other hother hmem => ?_
    rcases mem_cons.mp ((record_sublist _ _).subset hmem) with rfl | hold
    · -- What is recorded is none of the events that were there.
      rw [ScanLabel.recorded?, toList_some, singleton_append, cons_append,
        map_cons, nodup_cons] at hids
      exact absurd (mem_map_of_mem (mem_append.mpr (.inr hother))) hids.1
    · exact hold
  | page nextToken maxResults events newToken hcursor hquery =>
    refine ⟨?_, hstored⟩
    cases cursor with
    | start => exact absurd h not_false
    | done | failed => cases hcursor
    | token id =>
      cases some.inj hcursor
      rcases query_following (page_of_query hquery).1 hids hstored h _ with ⟨hlost, hfound⟩
      by_cases hstill : ∃ event ∈ store.events, event.eventId = id
      · rcases hfound hstill with ⟨first, rest, hbase, hout, hpage⟩
        rw [hpage, Except.ok.injEq] at hquery
        exact page_following hbase hout hquery.symm
      · rw [hlost fun event hevent hid => hstill ⟨event, hevent, hid⟩] at hquery
        cases hquery
  | failed nextToken maxResults error hcursor =>
    refine ⟨?_, hstored⟩
    rw [ScanLabel.events, append_nil]
    cases cursor with
    | start => exact absurd h not_false
    | done | failed => cases hcursor
    | token =>
      rcases h with ⟨first, event, rest, hbase, -, -, hout⟩
      rw [← singleton_append, ← append_assoc] at hbase
      rw [hbase]
      exact hout.1.trans (sublist_append_left _ _)

/-! ### Runs -/

/-- How far a scan is after some steps, of which the first one is a query. -/
theorem following_of_runs {labels : List (ScanLabel δ)} {s : Scan δ}
    (hrun : Runs (ScanStep filter) ⟨store, .start⟩ labels s)
    (hfirst : ∀ label ∈ labels.head?, label.recorded? = none)
    (hids : ((recorded labels ++ store.events).map CloudTrailEvent.eventId).Nodup)
    (hne : labels ≠ []) :
    Following filter store.events (delivered labels) s ∧
      s.store.events.Sublist (recorded labels ++ store.events) := by
  induction labels using reverseRecOn generalizing s with
  | nil => exact absurd rfl hne
  | append_singleton labels label ih =>
    rcases hrun.split with ⟨t, hbefore, hlast⟩
    cases hlast with
    | cons _ u _ _ _ hstep hnil =>
      cases hnil
      rw [delivered_concat, recorded_concat]
      rw [recorded_concat] at hids
      rcases eq_nil_or_concat labels with rfl | ⟨init, last, hlabels⟩
      · cases hbefore
        have hlabel := hfirst _ rfl
        rcases following_start hstep hlabel with ⟨hfollowing, hstore⟩
        refine ⟨hfollowing, ?_⟩
        rw [hlabel, hstore]
        exact List.Sublist.refl _
      · have hne' : labels ≠ [] := by
          rw [hlabels, concat_eq_append]
          exact append_ne_nil_of_right_ne_nil _ (cons_ne_nil _ _)
        have hfirst' : ∀ label ∈ labels.head?, label.recorded? = none := by
          intro other hother
          refine hfirst _ ?_
          rw [head?_append_of_ne_nil _ hne']
          exact hother
        have hids' : ((recorded labels ++ store.events).map
            CloudTrailEvent.eventId).Nodup := by
          rw [append_assoc] at hids
          exact hids.sublist ((sublist_append_right _ _).map _)
        rcases ih hbefore hfirst' hids' hne' with ⟨hfollowing, hstored⟩
        exact following_step hids hstored hfollowing hstep

variable {labels : List (ScanLabel δ)} {s : Scan δ}

omit [DecidableEq δ] in
theorem Following.sublist {filter : Filter} {base out : List (CloudTrailEvent δ)}
    (h : Following filter base out s) : out.Sublist base := by
  rcases s with ⟨store, cursor⟩
  cases cursor with
  | start => exact absurd h not_false
  | token =>
    rcases h with ⟨first, event, rest, hbase, -, -, hout⟩
    rw [← singleton_append, ← append_assoc] at hbase
    rw [hbase]
    exact hout.1.trans (sublist_append_left _ _)
  | done => exact h.1
  | failed => exact h

theorem length_le_of_runs {filter : Filter} (hrun : Runs (ScanStep filter) ⟨store, .start⟩ labels s)
    (hnone : recorded labels = []) :
    s.store = store ∧ labels.length ≤ (delivered labels).length + 1 ∧
      (s.cursor.nextToken? ≠ none → labels.length ≤ (delivered labels).length) := by
  induction labels using reverseRecOn generalizing s with
  | nil =>
    cases hrun
    exact ⟨rfl, Nat.zero_le _, fun _ => Nat.le_refl _⟩
  | append_singleton labels label ih =>
    rcases hrun.split with ⟨t, hbefore, hlast⟩
    rw [recorded_concat, append_eq_nil_iff] at hnone
    rcases ih hbefore hnone.2 with ⟨hstore, -, hless⟩
    rw [delivered_concat, length_append, length_append, length_singleton]
    cases hlast with
    | cons _ u _ _ _ hstep hnil =>
      cases hnil
      cases hstep with
      | recorded => cases hnone.1
      | page nextToken maxResults events newToken hcursor hquery =>
        have hlength := hless (hcursor ▸ some_ne_none _)
        refine ⟨hstore, by omega, fun hnext => ?_⟩
        have hevents : events ≠ [] := by
          refine (page_of_query hquery).2.2.1 fun htoken => hnext ?_
          dsimp only at htoken ⊢
          rw [htoken]
          rfl
        have hpos := length_pos_of_ne_nil hevents
        rw [ScanLabel.events]
        omega
      | failed nextToken maxResults error hcursor =>
        have hlength := hless (hcursor ▸ some_ne_none _)
        exact ⟨hstore, by omega, fun hnext => absurd rfl hnext⟩

theorem finishes {filter : Filter} (hvalid : filter.Valid)
    (hids : (store.events.map CloudTrailEvent.eventId).Nodup) (maxResults : Option Int)
    (hrun : Runs (ScanStep filter) ⟨store, .start⟩ labels s) (hnone : recorded labels = [])
    (hnext : s.cursor.nextToken? ≠ none) :
    ∃ more t, Runs (ScanStep filter) s more t ∧ recorded more = [] ∧ t.cursor = .done := by
  generalize hleft : store.events.length + 1 - labels.length = left
  induction left using Nat.strong_induction_on generalizing labels s with
  | _ left ih =>
    rcases length_le_of_runs hrun hnone with ⟨hstore, -, hlength⟩
    have hlength' := hlength hnext
    have hids' : ((recorded labels ++ store.events).map CloudTrailEvent.eventId).Nodup := by
      rw [hnone]
      exact hids
    have hfirst : ∀ label ∈ labels.head?, label.recorded? = none := by
      intro label hlabel
      cases hrecorded : label.recorded? with
      | none => rfl
      | some event =>
        have hmem : event ∈ recorded labels := mem_reverse.mpr (mem_filterMap.mpr
          ⟨label, mem_of_head? hlabel, hrecorded⟩)
        rw [hnone] at hmem
        cases hmem
    -- The next query returns a page.
    have hpage : ∃ nextToken page, s.cursor.nextToken? = some nextToken ∧
        s.store.query filter maxResults nextToken = .ok page ∧
        labels.length ≤ store.events.length := by
      rcases s with ⟨store', cursor⟩
      subst hstore
      by_cases hnil : labels = []
      · subst hnil
        cases hrun
        exact ⟨none, _, rfl, query_start _ hvalid maxResults, Nat.zero_le _⟩
      · rcases following_of_runs hrun hfirst hids' hnil with ⟨hfollowing, hstored⟩
        have hsub := hfollowing.sublist.length_le
        cases cursor with
        | start => exact absurd hfollowing not_false
        | done | failed => exact absurd rfl hnext
        | token id =>
          have hquery := query_following hvalid hids' hstored hfollowing maxResults
          rcases hfollowing with ⟨first, event, rest, hbase, hid, -, -⟩
          have hstill : ∃ event ∈ store'.events, event.eventId = id :=
            ⟨event, by rw [hbase]; exact mem_append.mpr (.inr mem_cons_self), hid⟩
          rcases hquery.2 hstill with ⟨first', rest', -, -, hok⟩
          exact ⟨some id.1, _, rfl, hok, by omega⟩
    rcases hpage with ⟨nextToken, ⟨events, newToken⟩, hcursor, hquery, hbound⟩
    have hstep := ScanStep.page s nextToken maxResults events newToken hcursor hquery
    have hrun' := hrun.append (.cons _ _ _ _ _ hstep (.nil _))
    have hnone' : recorded (labels ++ [.page events newToken]) = [] := by
      rw [recorded_concat, hnone]
      rfl
    cases newToken with
    | none =>
      refine ⟨[.page events none], _, .cons _ _ _ _ _ hstep (.nil _), rfl, rfl⟩
    | some id =>
      have hless : store.events.length + 1 - (labels ++ [ScanLabel.page events (some id)]).length <
          left := by
        rw [length_append, length_singleton]
        omega
      rcases ih _ hless hrun' hnone' (some_ne_none _) rfl with ⟨more, t, hmore, hrecorded, hdone⟩
      refine ⟨.page events (some id) :: more, t, .cons _ _ _ _ _ hstep hmore, ?_, hdone⟩
      exact hrecorded

theorem valid_of_runs {filter : Filter} (hrun : Runs (ScanStep filter) ⟨store, .start⟩ labels s) :
    ∀ id, s.cursor = .token id → filter.Valid := by
  refine Runs.invariant (P := fun s => ∀ id, s.cursor = .token id → filter.Valid)
    (fun s label t hs hstep => ?_) hrun nofun
  cases hstep with
  | recorded => exact hs
  | page nextToken maxResults events newToken hcursor hquery =>
    exact fun _ _ => (page_of_query hquery).1
  | failed => exact nofun

/-- A scan delivers events of the store that its first page saw, in the order of the store and each
    of them once. When it is done, it has delivered those that pass the filter and are still
    there. A page has at most fifty events, all of which pass the filter, and if there is a next
    one, at least one. A token that is not found is an error, and it is found if and only if its
    event is still there. Without records in between, there are at most as many pages as events,
    and one more, and the scan can go on until it is done. -/
theorem scan_complete (filter : Filter) (store : CloudTrailEventStore δ)
    (labels : List (ScanLabel δ)) (s : Scan δ)
    (hrun : Runs (ScanStep filter) ⟨store, .start⟩ labels s)
    (hfirst : ∀ label ∈ labels.head?, label.recorded? = none)
    (hids : ((recorded labels ++ store.events).map CloudTrailEvent.eventId).Nodup) :
    ((delivered labels).Sublist store.events ∧ (delivered labels).Nodup) ∧
    (s.cursor = .done → ∀ event ∈ store.events, event ∈ s.store.events →
      filter.passes event = true → (delivered labels).count event = 1) ∧
    (∀ events newToken, .page events newToken ∈ labels →
      events.length ≤ 50 ∧ (newToken ≠ none → events ≠ []) ∧
        ∀ event ∈ events, filter.passes event = true) ∧
    (∀ id, s.cursor = .token id → ∀ maxResults,
      ((∀ event ∈ s.store.events, event.eventId ≠ id) →
        s.store.query filter maxResults (some id.1) = .error .invalidNextToken) ∧
      ((∃ event ∈ s.store.events, event.eventId = id) →
        ∃ page, s.store.query filter maxResults (some id.1) = .ok page)) ∧
    (recorded labels = [] → labels.length ≤ store.events.length + 1 ∧
      (filter.Valid → s.cursor.nextToken? ≠ none → ∃ more t,
        Runs (ScanStep filter) s more t ∧ recorded more = [] ∧ t.cursor = .done)) := by
  have hevents : store.events.Nodup := by
    rw [map_append, nodup_append] at hids
    exact hids.2.1.of_map
  have hpages : ∀ events newToken, .page events newToken ∈ labels →
      events.length ≤ 50 ∧ (newToken ≠ none → events ≠ []) ∧
        ∀ event ∈ events, filter.passes event = true := by
    intro events newToken hmem
    rcases append_of_mem hmem with ⟨before, after, rfl⟩
    rcases hrun.split with ⟨t, -, hrest⟩
    cases hrest with
    | cons _ u _ _ _ hstep _ =>
      cases hstep with
      | page nextToken maxResults _ _ hcursor hquery => exact (page_of_query hquery).2
  by_cases hnil : labels = []
  · subst hnil
    cases hrun
    refine ⟨⟨nil_sublist _, nodup_nil⟩, nofun, hpages, nofun, fun hnone => ?_⟩
    exact ⟨Nat.zero_le _, fun hvalid hnext => finishes hvalid hids none (.nil _) hnone hnext⟩
  · rcases following_of_runs hrun hfirst hids hnil with ⟨hfollowing, hstored⟩
    have hsub := hfollowing.sublist
    refine ⟨⟨hsub, hevents.sublist hsub⟩, fun hdone event hevent hstill hpasses => ?_, hpages,
      fun id hcursor maxResults => ?_, fun hnone => ?_⟩
    · have hdelivered : Delivered filter s.store (delivered labels) store.events := by
        rcases s with ⟨store', cursor⟩
        subst hdone
        exact hfollowing
      exact count_eq_one_of_mem (hevents.sublist hsub) (hdelivered.2 _ hevent ⟨hstill, hpasses⟩)
    · have hvalid := valid_of_runs hrun id hcursor
      rcases s with ⟨store', cursor⟩
      subst hcursor
      have hquery := query_following hvalid hids hstored hfollowing maxResults
      refine ⟨hquery.1, fun hstill => ?_⟩
      rcases hquery.2 hstill with ⟨first, rest, -, -, hok⟩
      exact ⟨_, hok⟩
    · rcases length_le_of_runs hrun hnone with ⟨-, hlength, -⟩
      refine ⟨hlength.trans (Nat.succ_le_succ hsub.length_le), fun hvalid hnext => ?_⟩
      refine finishes hvalid ?_ none hrun hnone hnext
      rw [hnone] at hids
      exact hids

/-! ### Examples -/

def exampleScanned (id : Char) : CloudTrailEvent Unit :=
  ⟨⟨[id], nofun⟩, 0, [], [], false, [], [], [], [id], "Management".toList, ()⟩

def exampleStore : CloudTrailEventStore Unit :=
  (((CloudTrailEventStore.new 3).record (exampleScanned 'a')).2.record
    (exampleScanned 'b')).2.record
    (exampleScanned 'c') |>.2

def exampleFilter : Filter := ⟨none, none, [], none⟩

def exampleScan : List (ScanLabel Unit) :=
  [.page [exampleScanned 'c'] (some ⟨['c'], List.cons_ne_nil _ _⟩), .recorded (exampleScanned 'd'),
    .page [exampleScanned 'b'] none]

theorem runs_exampleScan : ∃ s, Runs (ScanStep exampleFilter) ⟨exampleStore, .start⟩ exampleScan s ∧
    s.cursor = .done ∧ s.store.events = [exampleScanned 'd', exampleScanned 'c',
      exampleScanned 'b'] := by
  refine ⟨_, .cons _ _ _ _ _ (.page _ none (some 1) _ _ rfl (by decide +kernel))
    (.cons _ _ _ _ _ (.recorded _ (exampleScanned 'd'))
      (.cons _ _ _ _ _ (.page _ (some ['c']) none _ _ rfl (by decide +kernel)) (.nil _))), rfl, ?_⟩
  decide +kernel

theorem scan_complete_of_exampleScan :
    (delivered exampleScan).count (exampleScanned 'b') = 1 := by
  rcases runs_exampleScan with ⟨s, hrun, hdone, hevents⟩
  refine (scan_complete _ _ _ s hrun ?_ ?_).2.1 hdone (exampleScanned 'b') ?_ ?_ ?_
  · exact fun label hlabel => some.inj hlabel ▸ rfl
  · decide +kernel
  · decide +kernel
  · rw [hevents]
    decide +kernel
  · decide +kernel

end LocalEmu.CloudTrail
