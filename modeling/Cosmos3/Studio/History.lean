import Cosmos3.Basis.Recent
import Cosmos3.Basis.Stringify
import Cosmos3.Studio.JobState

namespace Cosmos3.Studio

open Basis

section Model

structure HistoryEntry where
  id : Text
  mode : Text
  summary : Text
  createdAt : Text
deriving DecidableEq

inductive HistoryField where
  | id
  | mode
  | summary
  | createdAt
deriving DecidableEq

def HistoryField.key : HistoryField → Text
  | .id => ascii "id"
  | .mode => ascii "mode"
  | .summary => ascii "summary"
  | .createdAt => ascii "createdAt"

def HistoryEntry.get (entry : HistoryEntry) : HistoryField → Text
  | .id => entry.id
  | .mode => entry.mode
  | .summary => entry.summary
  | .createdAt => entry.createdAt

-- An entry keeps its properties in the order in which it got them.
structure PropertyOrder where
  fields : List HistoryField
  nodup : fields.Nodup
  complete : ∀ field, field ∈ fields

def PropertyOrder.toJson (order : PropertyOrder) (entry : HistoryEntry) : Json :=
  .object (order.fields.map fun field => (field.key, .string (entry.get field)))

def CAP : ℕ := 50

variable (numbers : Json.NumberText)

-- A member of anything but an object is `undefined`.
def coerce (value : Json) : Option HistoryEntry :=
  match Json.member value (ascii "id"), Json.member value (ascii "mode"),
      Json.member value (ascii "createdAt") with
  | some (.string id), some (.string mode), some (.string createdAt) =>
      some ⟨id, mode, textOr [] (Json.member value (ascii "summary")), createdAt⟩
  | _, _, _ => none

def decodeHistory (raw : Option Text) : List HistoryEntry :=
  match raw with
  | none => []
  | some text =>
    if text = [] then []
    else
      match Json.parse numbers text with
      | some (.array items) => items.filterMap coerce
      | _ => []

def encodeHistory (order : HistoryEntry → PropertyOrder) (entries : List HistoryEntry) : Text :=
  Json.stringify numbers (.array ((entries.take CAP).map fun entry => (order entry).toJson entry))

def addEntry (entries : List HistoryEntry) (entry : HistoryEntry) (cap : ℕ) : List HistoryEntry :=
  (entry :: entries.filter (·.id ≠ entry.id)).take cap

inductive HistoryAction where
  | add (entry : HistoryEntry)
  | reload (order : HistoryEntry → PropertyOrder)

def HistoryAction.apply (entries : List HistoryEntry) : HistoryAction → List HistoryEntry
  | .add entry => addEntry entries entry CAP
  | .reload order => decodeHistory numbers (some (encodeHistory numbers order entries))

-- The list after these calls, from the empty one.
def historyAfter (actions : List HistoryAction) : List HistoryEntry :=
  actions.foldl (HistoryAction.apply numbers) []

def HistoryAction.added? : HistoryAction → Option HistoryEntry
  | .add entry => some entry
  | .reload _ => none

end Model

section Specification

variable (numbers : Json.NumberText) (actions : List HistoryAction)

-- The entries added under the most recent ids, as many as the list holds.
def recentEntries : List HistoryEntry :=
  (recent HistoryEntry.id (actions.filterMap HistoryAction.added?)).take CAP

structure RecentSet : Prop where
  entries : historyAfter numbers actions = recentEntries actions
  unique : ((historyAfter numbers actions).map (·.id)).Nodup
  reloads : ∀ order, decodeHistory numbers (some (encodeHistory numbers order (historyAfter numbers actions))) =
    historyAfter numbers actions
  -- An id that is added again, or that there is room for, pushes no other entry out.
  moves : ∀ entry, entry.id ∈ (historyAfter numbers actions).map (·.id) ∨
      (historyAfter numbers actions).length < CAP →
    addEntry (historyAfter numbers actions) entry CAP =
      entry :: (historyAfter numbers actions).filter (·.id ≠ entry.id)
  -- Beyond the cap the oldest one goes.
  drops : ∀ entry, entry.id ∉ (historyAfter numbers actions).map (·.id) →
    (historyAfter numbers actions).length = CAP →
    addEntry (historyAfter numbers actions) entry CAP = entry :: (historyAfter numbers actions).dropLast

end Specification

section Reload

variable {numbers : Json.NumberText}

theorem key_injective : Function.Injective HistoryField.key := by
  intro field other h
  cases field <;> cases other <;> first | rfl | exact absurd h (by decide)

-- A property is read wherever it stands.
theorem member_toJson (order : PropertyOrder) (entry : HistoryEntry) (field : HistoryField) :
    Json.member (order.toJson entry) field.key = some (.string (entry.get field)) := by
  have hfind : ∀ fields : List HistoryField, field ∈ fields →
      (fields.map fun other => (other.key, Json.string (entry.get other))).find?
        (fun pair => pair.1 = field.key) = some (field.key, .string (entry.get field)) := by
    intro fields hmem
    induction fields with
    | nil => cases hmem
    | cons other fields ih =>
        rw [List.map_cons]
        by_cases hother : other = field
        · rw [List.find?_cons_of_pos (by simp [hother]), hother]
        · have hkey : other.key ≠ field.key := fun hkey => hother (key_injective hkey)
          rw [List.find?_cons_of_neg (by simp [hkey])]
          exact ih ((List.mem_cons.mp hmem).resolve_left (Ne.symm hother))
  have hmem : field ∈ order.fields.reverse := List.mem_reverse.mpr (order.complete field)
  rw [PropertyOrder.toJson, Json.member, ← List.map_reverse, hfind _ hmem]
  rfl

theorem coerce_toJson (order : PropertyOrder) (entry : HistoryEntry) :
    coerce (order.toJson entry) = some entry := by
  have hid : Json.member (order.toJson entry) (ascii "id") = some (.string entry.id) :=
    member_toJson order entry .id
  have hmode : Json.member (order.toJson entry) (ascii "mode") = some (.string entry.mode) :=
    member_toJson order entry .mode
  have hsummary : Json.member (order.toJson entry) (ascii "summary") = some (.string entry.summary) :=
    member_toJson order entry .summary
  have hcreatedAt : Json.member (order.toJson entry) (ascii "createdAt") = some (.string entry.createdAt) :=
    member_toJson order entry .createdAt
  rw [coerce, hid, hmode, hcreatedAt, hsummary]
  rfl

theorem readable_toJson (order : PropertyOrder) (entry : HistoryEntry) :
    Json.Readable numbers (order.toJson entry) := by
  have hfields : ∀ fields : List HistoryField, Json.ReadableFields numbers
      (fields.map fun field => (field.key, .string (entry.get field))) := by
    intro fields
    induction fields with
    | nil => trivial
    | cons field fields ih => exact ⟨trivial, ih⟩
  exact hfields order.fields

theorem decode_encodeHistory (order : HistoryEntry → PropertyOrder) (entries : List HistoryEntry) :
    decodeHistory numbers (some (encodeHistory numbers order entries)) = entries.take CAP := by
  have hreadable : ∀ entries : List HistoryEntry, Json.ReadableItems numbers
      (entries.map fun entry => (order entry).toJson entry) := by
    intro entries
    induction entries with
    | nil => trivial
    | cons entry entries ih => exact ⟨readable_toJson (order entry) entry, ih⟩
  have hcoerce : ∀ entries : List HistoryEntry,
      (entries.map fun entry => (order entry).toJson entry).filterMap coerce = entries := by
    intro entries
    induction entries with
    | nil => rfl
    | cons entry entries ih => rw [List.map_cons, List.filterMap_cons_some (coerce_toJson _ _), ih]
  have hparse := @Json.parse_stringify numbers (.array _) (hreadable (entries.take CAP))
  have hne : encodeHistory numbers order entries ≠ [] := by
    rw [encodeHistory, Json.stringify, Json.toTree, Json.Tree.write]
    exact List.cons_ne_nil _ _
  rw [decodeHistory, if_neg hne, encodeHistory, hparse]
  exact hcoerce (entries.take CAP)

end Reload

section History

variable {numbers : Json.NumberText}

theorem addEntry_eq_touch (entries : List HistoryEntry) (entry : HistoryEntry) (cap : ℕ) :
    addEntry entries entry cap = touch HistoryEntry.id cap entries entry := rfl

-- One call keeps the list what it is said to be.
theorem apply_recentEntries (actions : List HistoryAction) (action : HistoryAction) :
    action.apply numbers (recentEntries actions) = recentEntries (actions ++ [action]) := by
  cases action with
  | add entry =>
      rw [HistoryAction.apply, addEntry_eq_touch, recentEntries, touch_recent, recentEntries,
        List.filterMap_append]
      rfl
  | reload order =>
      rw [HistoryAction.apply, decode_encodeHistory, recentEntries, List.take_take, Nat.min_self, recentEntries,
        List.filterMap_append]
      exact congrArg (fun entries => (recent HistoryEntry.id entries).take CAP) (List.append_nil _).symm

theorem historyAfter_eq (actions : List HistoryAction) :
    historyAfter numbers actions = recentEntries actions := by
  induction actions using List.reverseRecOn with
  | nil => rfl
  | append_singleton actions action ih =>
      rw [← apply_recentEntries, ← ih, historyAfter, historyAfter, List.foldl_append]
      rfl

theorem length_historyAfter (actions : List HistoryAction) :
    (historyAfter numbers actions).length ≤ CAP := by
  rw [historyAfter_eq]
  exact List.length_take_le _ _

theorem nodup_historyAfter (actions : List HistoryAction) :
    ((historyAfter numbers actions).map (·.id)).Nodup := by
  rw [historyAfter_eq, recentEntries, List.map_take]
  exact (nodup_recent _).sublist (List.take_sublist _ _)

theorem addEntry_of_room {entries : List HistoryEntry} {entry : HistoryEntry} {cap : ℕ}
    (h : (entries.filter (·.id ≠ entry.id)).length < cap) :
    addEntry entries entry cap = entry :: entries.filter (·.id ≠ entry.id) :=
  List.take_of_length_le h

theorem history_recentSet (numbers : Json.NumberText) (actions : List HistoryAction) :
    RecentSet numbers actions := by
  have hlength := @length_historyAfter numbers actions
  constructor
  · exact historyAfter_eq actions
  · exact nodup_historyAfter actions
  · intro order
    rw [decode_encodeHistory, List.take_of_length_le hlength]
  · rintro entry (hagain | hroom)
    · obtain ⟨old, hold, hid⟩ := List.mem_map.mp hagain
      refine addEntry_of_room (Nat.lt_of_lt_of_le ?_ hlength)
      exact List.length_filter_lt_length_iff_exists.mpr ⟨old, hold, by simp [hid]⟩
    · exact addEntry_of_room (Nat.lt_of_le_of_lt (List.length_filter_le _ _) hroom)
  · intro entry hnew hfull
    have hother : ∀ other ∈ historyAfter numbers actions, decide (other.id ≠ entry.id) = true :=
      fun other hmem => decide_eq_true fun hid => hnew (List.mem_map.mpr ⟨other, hmem, hid⟩)
    have hcap : CAP = (historyAfter numbers actions).length - 1 + 1 := by
      rw [hfull]
      rfl
    rw [addEntry, List.filter_eq_self.mpr hother, hcap, List.take_succ_cons, List.dropLast_eq_take]

end History

end Cosmos3.Studio
