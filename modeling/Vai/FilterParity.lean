import Vai.LocalStream
/-!
# FilterParity — one subscription filter in the two modes

With Postgres a filter is part of the query `query_since_id_filtered`, which compares the ids of workspaces and looks for
entities and paths with `LIKE` in `payload::text`.  In memory `filter_matches` compares the texts of the ids and looks in
the text of the broadcast.  Both pass an event that every dimension of the filter passes, an empty dimension being none.

`filters_agree_iff` says when they agree on an event.  `payload::text`, the text of the broadcast and the texts of ids are
parameters.
-/
namespace Vai
namespace Broadcast

open Ws

/-- How an event is broadcast: `Uuid::to_string`, `Value::to_string` of its kind, and its timestamp. -/
structure Shown where
  uuidText : Uuid → Text
  dataText : EventKind → Text
  timestamp : Event → Text

def eventToBroadcast (out : Shown) (event : Event) : BroadcastEvent where
  eventType := event.kind.eventType
  eventId := event.id
  workspaceId := event.kind.workspaceId.map out.uuidText
  timestamp := out.timestamp event
  data := out.dataText event.kind

def isEmpty (f : EventFilter) : Bool :=
  f.eventTypes.isEmpty && f.workspaceIds.isEmpty && f.entityIds.isEmpty && f.paths.isEmpty

/-- The events of a repository, in the order of their ids. -/
def querySinceId (rows : List Event) (lastId : Int) : List Event := rows.filter fun e => lastId < e.id

def querySinceIdFiltered (texts : Texts) (rows : List Event) (lastId : Int) (filter : EventFilter) : List Event :=
  if isEmpty filter then querySinceId rows lastId
  else rows.filter fun e => lastId < e.id && filter.selects texts e

/-! ## The dimensions -/

section Dimensions

variable (texts : Texts) (out : Shown) (sub : SubscriptionFilter) (e : Event)

def Asked : Prop := sub.eventTypes = [] ∨ e.kind.eventType ∈ sub.eventTypes

/-- The workspace of the event is among those listed, as its id is written. -/
def Listed : Prop := ∃ id, e.kind.workspaceId = some id ∧ out.uuidText id ∈ sub.workspaces

/-- … in some spelling. -/
def Meant : Prop := ∃ id, e.kind.workspaceId = some id ∧ ∃ w ∈ sub.workspaces, texts.parseUuid w = some id

/-- None of the workspaces listed has an id. -/
def Dropped : Prop := ∀ w ∈ sub.workspaces, texts.parseUuid w = none

/-- The query finds one of these. -/
def Hit (needles : List Text) : Prop := ∃ x ∈ needles, like ('%' :: x ++ ['%']) (texts.payloadText e.kind) = true

/-- One of these is in the text of the broadcast. -/
def Occurs (needles : List Text) : Prop := ∃ x ∈ needles, x <:+: out.dataText e.kind

/-- A dimension stops the event in both modes. -/
def Stopped : Prop := ¬ Asked sub e ∨ (sub.workspaces ≠ [] ∧ ¬ Dropped texts sub ∧ ¬ Meant texts sub e) ∨
  ∃ needles ∈ [sub.entities, sub.paths], needles ≠ [] ∧ ¬ Hit texts e needles ∧ ¬ Occurs out e needles

/-- A dimension passes the event in the query and stops it in memory: the workspaces listed are none or are spelled
otherwise, or a pattern matches what no text is. -/
def OnlyQuery : Prop := (sub.workspaces ≠ [] ∧ ¬ Listed out sub e ∧ (Dropped texts sub ∨ Meant texts sub e)) ∨
  ∃ needles ∈ [sub.entities, sub.paths], Hit texts e needles ∧ ¬ Occurs out e needles

/-- A dimension passes the event in memory and stops it in the query. -/
def OnlyMemory : Prop := ∃ needles ∈ [sub.entities, sub.paths], Occurs out e needles ∧ ¬ Hit texts e needles

/-- The two modes take the event alike. -/
def Alike : Prop := Stopped texts out sub e ∨ (OnlyQuery texts out sub e ↔ OnlyMemory texts out sub e)

end Dimensions

section Agree

variable {texts : Texts} {out : Shown} {sub : SubscriptionFilter} {e : Event}

theorem needles_query (needles : List Text) :
    (needles.isEmpty || needles.any fun x => like ('%' :: x ++ ['%']) (texts.payloadText e.kind)) = true ↔
      needles = [] ∨ Hit texts e needles := by
  unfold Hit
  rw [Bool.or_eq_true, List.isEmpty_iff, List.any_eq_true]

theorem needles_memory (needles : List Text) : (needles.isEmpty || needles.any (· <:+: out.dataText e.kind)) = true ↔
    needles = [] ∨ Occurs out e needles := by
  unfold Occurs
  rw [Bool.or_eq_true, List.isEmpty_iff, List.any_eq_true]
  simp only [decide_eq_true_iff]

theorem selects_iff : (subscriptionToEventFilter texts sub).selects texts e = true ↔ Asked sub e ∧
    (Dropped texts sub ∨ Meant texts sub e) ∧ (sub.entities = [] ∨ Hit texts e sub.entities) ∧
      (sub.paths = [] ∨ Hit texts e sub.paths) := by
  have hworkspace : ((sub.workspaces.filterMap texts.parseUuid).isEmpty ||
      e.kind.workspaceId.any (· ∈ sub.workspaces.filterMap texts.parseUuid)) = true ↔ Dropped texts sub ∨ Meant texts sub e := by
    unfold Dropped Meant
    rw [Bool.or_eq_true, List.isEmpty_iff, List.filterMap_eq_nil_iff, Option.any_eq_true]
    simp only [decide_eq_true_iff, List.mem_filterMap]
  unfold EventFilter.selects subscriptionToEventFilter Asked
  dsimp only
  rw [Bool.and_eq_true, Bool.and_eq_true, Bool.and_eq_true, needles_query, needles_query, hworkspace, Bool.or_eq_true,
    List.isEmpty_iff, decide_eq_true_iff, and_assoc, and_assoc]

theorem filterMatches_iff : filterMatches sub (eventToBroadcast out e) = true ↔ Asked sub e ∧
    (sub.workspaces = [] ∨ Listed out sub e) ∧ (sub.entities = [] ∨ Occurs out e sub.entities) ∧
      (sub.paths = [] ∨ Occurs out e sub.paths) := by
  have hworkspace : (sub.workspaces.isEmpty || (e.kind.workspaceId.map out.uuidText).any (· ∈ sub.workspaces)) = true ↔
      sub.workspaces = [] ∨ Listed out sub e := by
    unfold Listed
    rw [Bool.or_eq_true, List.isEmpty_iff, Option.any_map, Option.any_eq_true]
    simp only [decide_eq_true_iff]
  unfold filterMatches eventToBroadcast Asked
  dsimp only
  rw [Bool.and_eq_true, Bool.and_eq_true, Bool.and_eq_true, needles_memory, needles_memory, hworkspace, Bool.or_eq_true,
    List.isEmpty_iff, decide_eq_true_iff, and_assoc, and_assoc]

theorem mem_querySinceIdFiltered {rows : List Event} (hrow : e ∈ rows) {lastId : Int} (hafter : lastId < e.id) :
    e ∈ querySinceIdFiltered texts rows lastId (subscriptionToEventFilter texts sub) ↔
      (subscriptionToEventFilter texts sub).selects texts e = true := by
  unfold querySinceIdFiltered
  split
  · rename_i hempty
    unfold isEmpty at hempty
    rw [Bool.and_eq_true, Bool.and_eq_true, Bool.and_eq_true] at hempty
    unfold querySinceId EventFilter.selects
    rw [List.mem_filter, decide_eq_true_iff, hempty.1.1.1, hempty.1.1.2, hempty.1.2, hempty.2]
    simp [hrow, hafter]
  · rw [List.mem_filter, Bool.and_eq_true, decide_eq_true_iff]
    exact ⟨fun h => h.2.2, fun h => ⟨hrow, hafter, h⟩⟩

/-- Two conjunctions over the same dimensions: one that fails in both, or none that fails in one only, or some each way. -/
theorem and_iff_and {a q₁ q₂ q₃ m₁ m₂ m₃ : Prop} : ((a ∧ q₁ ∧ q₂ ∧ q₃) ↔ (a ∧ m₁ ∧ m₂ ∧ m₃)) ↔
    (¬ a ∨ (¬ q₁ ∧ ¬ m₁) ∨ (¬ q₂ ∧ ¬ m₂) ∨ (¬ q₃ ∧ ¬ m₃)) ∨
      ((q₁ ∧ ¬ m₁ ∨ q₂ ∧ ¬ m₂ ∨ q₃ ∧ ¬ m₃) ↔ (m₁ ∧ ¬ q₁ ∨ m₂ ∧ ¬ q₂ ∨ m₃ ∧ ¬ q₃)) := by
  by_cases ha : a
  · by_cases h₁ : q₁ <;> by_cases h₂ : q₂ <;> by_cases h₃ : q₃ <;> simp [ha, h₁, h₂, h₃] <;> tauto
  · simp [ha]

theorem needles_cases (needles : List Text) :
    (¬ (needles = [] ∨ Hit texts e needles) ∧ ¬ (needles = [] ∨ Occurs out e needles) ↔
      needles ≠ [] ∧ ¬ Hit texts e needles ∧ ¬ Occurs out e needles) ∧
    ((needles = [] ∨ Hit texts e needles) ∧ ¬ (needles = [] ∨ Occurs out e needles) ↔
      Hit texts e needles ∧ ¬ Occurs out e needles) ∧
    ((needles = [] ∨ Occurs out e needles) ∧ ¬ (needles = [] ∨ Hit texts e needles) ↔
      Occurs out e needles ∧ ¬ Hit texts e needles) := by
  have hhit : needles = [] → ¬ Hit texts e needles := by
    rintro rfl ⟨x, hx, -⟩
    exact absurd hx List.not_mem_nil
  have hoccurs : needles = [] → ¬ Occurs out e needles := by
    rintro rfl ⟨x, hx, -⟩
    exact absurd hx List.not_mem_nil
  refine ⟨by tauto, by tauto, by tauto⟩

/-- **When a filter means the same in both modes** for an event: a dimension stops it in both, or none passes it only in the
query and none only in memory, or some do so each way. -/
theorem filters_agree_iff (hwritten : ∀ id, e.kind.workspaceId = some id → texts.parseUuid (out.uuidText id) = some id)
    {rows : List Event} (hrow : e ∈ rows) {lastId : Int} (hafter : lastId < e.id) :
    (e ∈ querySinceIdFiltered texts rows lastId (subscriptionToEventFilter texts sub) ↔
      filterMatches sub (eventToBroadcast out e) = true) ↔ Alike texts out sub e := by
  have hmeant : Listed out sub e → Meant texts sub e := by
    rintro ⟨id, hid, hlisted⟩
    exact ⟨id, hid, _, hlisted, hwritten id hid⟩
  have hnone : sub.workspaces = [] → Dropped texts sub := by
    intro hnil w hw
    rw [hnil] at hw
    exact absurd hw List.not_mem_nil
  have hstopped : ¬ (Dropped texts sub ∨ Meant texts sub e) ∧ ¬ (sub.workspaces = [] ∨ Listed out sub e) ↔
      sub.workspaces ≠ [] ∧ ¬ Dropped texts sub ∧ ¬ Meant texts sub e := by
    rw [not_or, not_or]
    constructor
    · rintro ⟨⟨hdropped, hmeans⟩, hsome, -⟩
      exact ⟨hsome, hdropped, hmeans⟩
    · rintro ⟨hsome, hdropped, hmeans⟩
      exact ⟨⟨hdropped, hmeans⟩, hsome, fun hlisted => hmeans (hmeant hlisted)⟩
  have hquery : (Dropped texts sub ∨ Meant texts sub e) ∧ ¬ (sub.workspaces = [] ∨ Listed out sub e) ↔
      sub.workspaces ≠ [] ∧ ¬ Listed out sub e ∧ (Dropped texts sub ∨ Meant texts sub e) := by
    rw [not_or, and_comm, and_assoc]
  have hmemory : ¬ ((sub.workspaces = [] ∨ Listed out sub e) ∧ ¬ (Dropped texts sub ∨ Meant texts sub e)) := by
    rintro ⟨hall, hno⟩
    exact hno (hall.imp hnone hmeant)
  obtain ⟨hstopped₁, hquery₁, hmemory₁⟩ := @needles_cases texts out e sub.entities
  obtain ⟨hstopped₂, hquery₂, hmemory₂⟩ := @needles_cases texts out e sub.paths
  rw [mem_querySinceIdFiltered hrow hafter, selects_iff, filterMatches_iff, and_iff_and, hstopped, hstopped₁, hstopped₂, hquery,
    hquery₁, hquery₂, hmemory₁, hmemory₂, iff_false_intro hmemory, false_or]
  unfold Alike Stopped OnlyQuery OnlyMemory
  simp only [List.mem_cons, List.not_mem_nil, or_false, exists_eq_or_imp, exists_eq_left]

end Agree

/-! ## A discarded workspace -/

def uuidStart : Text := "00000000-0000-0000-0000-00000000000".toList

/-- Ids of one digit. -/
def digitTexts : Texts where
  parseUuid s := (Text.stripPrefix uuidStart s).bind Text.parseNat
  payloadText _ := ("\x7b\"payload\": \x7b\"reason\": \"\", \"workspace_id\": \"00000000-0000-0000-0000-000000000007\"\x7d, " ++
    "\"event_type\": \"WorkspaceDiscarded\"\x7d").toList

def digitShown : Shown where
  uuidText id := uuidStart ++ Text.ofNat id
  dataText _ := ("\x7b\"event_type\":\"WorkspaceDiscarded\",\"payload\":\x7b\"reason\":\"\"," ++
    "\"workspace_id\":\"00000000-0000-0000-0000-000000000007\"\x7d\x7d").toList
  timestamp _ := epochText

theorem parse_digit (id : Uuid) : digitTexts.parseUuid (digitShown.uuidText id) = some id := by
  have hparse : digitTexts.parseUuid (digitShown.uuidText id) =
      (Text.stripPrefix uuidStart (uuidStart ++ Text.ofNat id)).bind Text.parseNat := rfl
  rw [hparse, Text.stripPrefix_append, Option.bind_some, Text.parseNat_ofNat]

def discardedSeven : Event := ⟨1, .workspaceDiscarded 7 []⟩

/-- The workspace of the event, and a path that is not in it. -/
def ofSeven : SubscriptionFilter := ⟨[], ["src".toList], [], [digitShown.uuidText 7]⟩

/-- Both modes stop an event without the path. -/
theorem filters_agree_iff_seven :
    discardedSeven ∈ querySinceIdFiltered digitTexts [discardedSeven] 0 (subscriptionToEventFilter digitTexts ofSeven) ↔
      filterMatches ofSeven (eventToBroadcast digitShown discardedSeven) = true := by
  refine (filters_agree_iff (fun id _ => parse_digit id) (List.mem_singleton.2 rfl) (by decide)).2 ?_
  refine .inl (.inr (.inr ⟨["src".toList], by decide +kernel, by decide, ?_, ?_⟩))
  · rintro ⟨x, hx, hlike⟩
    rw [List.mem_singleton.1 hx] at hlike
    revert hlike
    decide +kernel
  · rintro ⟨x, hx, hinfix⟩
    rw [List.mem_singleton.1 hx] at hinfix
    revert hinfix
    decide +kernel

/-- A filter on a workspace that has no id lets every event through from Postgres, and none from memory. -/
theorem unknown_workspace_matches_all :
    (∀ w ∈ (⟨[], [], [], ["main".toList]⟩ : SubscriptionFilter).workspaces, digitTexts.parseUuid w = none) ∧
    discardedSeven ∈ querySinceIdFiltered digitTexts [discardedSeven] 0
      (subscriptionToEventFilter digitTexts ⟨[], [], [], ["main".toList]⟩) ∧
    filterMatches ⟨[], [], [], ["main".toList]⟩ (eventToBroadcast digitShown discardedSeven) = false := by
  refine ⟨?_, ?_, ?_⟩
  · decide +kernel
  · decide +kernel
  · decide +kernel

end Broadcast
end Vai
