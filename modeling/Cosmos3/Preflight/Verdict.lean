import Cosmos3.Basis.Checks
import Cosmos3.Basis.Python
import Cosmos3.Basis.Table
import Mathlib.Data.List.Infix

namespace Cosmos3.Preflight

open Basis Basis.Python

section Names

def KEEP : List String :=
  ["layers.", "embed_tokens.", "norm.", "lm_head.", "blocks.", "merger.", "patch_embed.", "pos_embed.",
    "deepstack_merger_list."]

def DROP_SUBSTR : List String :=
  ["_moe_gen", ".add_q_proj.", ".add_k_proj.", ".add_v_proj.", ".to_add_out.", ".norm_added_q.",
    ".norm_added_k."]

def DROP_PREFIX : List String :=
  ["proj_in.", "proj_out.", "time_embedder.", "audio_proj_in.", "audio_proj_out.", "action_proj_in.",
    "action_proj_out.", "audio_modality_embed", "action_modality_embed"]

def QUANT_WEIGHT_DTYPES : List Text :=
  ["F8_E4M3", "F8_E4M3FN", "F8_E5M2", "I8", "INT8"].map ascii

def QUANT_SIDECAR_SUFFIX : List String :=
  ["weight_packed", "weight_block_scale", "weight_global_scale", "weight_quantizer._amax",
    "weight_quantizer._scale"]

variable (name : Text)

def startsWith (front : String) : Bool := (ascii front).isPrefixOf name

def endsWith (back : String) : Bool := (ascii back).isSuffixOf name

def isDropped : Bool :=
  (DROP_SUBSTR.any fun s => decide (ascii s <:+: name)) || DROP_PREFIX.any (startsWith name)

def isKept : Bool := KEEP.any (startsWith name) && !isDropped name

def isSidecar : Bool := QUANT_SIDECAR_SUFFIX.any (endsWith name)

def isWeight : Bool := endsWith name ".weight"

end Names

section Upper

-- The characters outside ASCII that become ASCII letters.
def foreignUppers : List (UInt16 × String) :=
  [(0xDF, "SS"), (0x131, "I"), (0x17F, "S"), (0xFB00, "FF"), (0xFB01, "FI"), (0xFB02, "FL"),
    (0xFB03, "FFI"), (0xFB04, "FFL"), (0xFB05, "ST"), (0xFB06, "ST")]

def upperUnit (u : UInt16) : Text :=
  if 97 ≤ u ∧ u ≤ 122 then [u - 32]
  else match foreignUppers.find? fun entry => entry.1 = u with
    | some entry => ascii entry.2
    | none => [u]

-- `str.upper()`, as far as its result can be ASCII.
def upper (t : Text) : Text := t.flatMap upperUnit

end Upper

section Verdict

inductive RejectionCode where
  | quantizedWeight
  | quantSidecar
  | emptyUnderstandingTower
  | noTransformerWeights
  | malformedHeader
deriving DecidableEq

structure Rejection where
  code : RejectionCode
  message : Text
  tensor : Option Text := none
  dtype : Option Text := none

variable (shown : Shown)

-- `str(meta.get("dtype", "")).upper()`
def dtypeOf (entry : Dict) : Text :=
  upper (strOf shown ((Dict.get entry (ascii "dtype")).getD (.str [])))

def sidecarRejection (name : Text) : Rejection where
  code := .quantSidecar
  message := ascii "reasoner-kept blockwise-quant sidecar present: " ++ name
  tensor := some name

def weightRejection (name dtype : Text) : Rejection where
  code := .quantizedWeight
  message := ascii "reasoner-kept weight " ++ name ++ ascii " has quantized dtype " ++ dtype
  tensor := some name
  dtype := some dtype

def emptyRejection : Rejection where
  code := .emptyUnderstandingTower
  message := ascii "no reasoner-kept understanding-tower weight tensors found in transformer headers"

-- The walk of `reasoner_source_verdict` over the items, with `kept_weight_seen`.
def verdict : Bool → List (Text × Value) → Except Exn (Option Rejection)
  | seen, [] => .ok (if seen then none else some emptyRejection)
  | seen, (name, entry) :: items =>
    if ¬isKept name then verdict seen items
    else if isSidecar name then .ok (some (sidecarRejection name))
    else if isWeight name then
      match entry with
      | .dict fields =>
        if dtypeOf shown fields ∈ QUANT_WEIGHT_DTYPES then
          .ok (some (weightRejection name (dtypeOf shown fields)))
        else verdict true items
      | _ => .error .attributeError
    else verdict seen items

def reasonerSourceVerdict (headers : Table Text Value) : Except Exn (Option Rejection) :=
  verdict shown false headers.fields

end Verdict

section Items

variable {shown : Shown}

-- A quantized weight, as one of the headers has it.
def IsQuantized (shown : Shown) : Value → Prop
  | .dict fields => dtypeOf shown fields ∈ QUANT_WEIGHT_DTYPES
  | _ => False

-- An entry that is an object, and not that of a quantized weight.
def IsPlainEntry (shown : Shown) : Value → Prop
  | .dict fields => dtypeOf shown fields ∉ QUANT_WEIGHT_DTYPES
  | _ => False

def IsKeptWeight (name : Text) : Prop := isKept name = true ∧ isSidecar name = false ∧ isWeight name = true

instance (name : Text) : Decidable (IsKeptWeight name) := inferInstanceAs (Decidable (_ ∧ _))

-- What one item does to the walk.
inductive ItemKind where
  | other
  | weight
  | rejected (rejection : Rejection)
  | broken

def kindOf (shown : Shown) (item : Text × Value) : ItemKind :=
  if ¬isKept item.1 then .other
  else if isSidecar item.1 then .rejected (sidecarRejection item.1)
  else if isWeight item.1 then
    match item.2 with
    | .dict fields =>
      if dtypeOf shown fields ∈ QUANT_WEIGHT_DTYPES then
        .rejected (weightRejection item.1 (dtypeOf shown fields))
      else .weight
    | _ => .broken
  else .other

theorem verdict_cons (seen : Bool) (item : Text × Value) (items : List (Text × Value)) :
    verdict shown seen (item :: items) =
      match kindOf shown item with
      | .other => verdict shown seen items
      | .weight => verdict shown true items
      | .rejected rejection => .ok (some rejection)
      | .broken => .error .attributeError := by
  obtain ⟨name, entry⟩ := item
  cases entry with
  | dict fields =>
      simp only [verdict, kindOf]
      split_ifs <;> rfl
  | none | bool value | int value | float value | str value | list values =>
      simp only [verdict, kindOf]
      split_ifs <;> rfl

variable {item : Text × Value} {items : List (Text × Value)}

-- An item that lets the walk go on.
def Passes (shown : Shown) (item : Text × Value) : Prop :=
  kindOf shown item = .other ∨ kindOf shown item = .weight

theorem kindOf_sidecar (hkept : isKept item.1 = true) (hsidecar : isSidecar item.1 = true) :
    kindOf shown item = .rejected (sidecarRejection item.1) := by
  rw [kindOf, if_neg (not_not.mpr hkept), if_pos hsidecar]

theorem kindOf_weight (h : IsKeptWeight item.1) :
    kindOf shown item = match item.2 with
      | .dict fields =>
        if dtypeOf shown fields ∈ QUANT_WEIGHT_DTYPES then
          .rejected (weightRejection item.1 (dtypeOf shown fields))
        else .weight
      | _ => .broken := by
  rw [kindOf, if_neg (not_not.mpr h.1), if_neg (by rw [h.2.1]; simp), if_pos h.2.2]

theorem kindOf_eq_weight_iff : kindOf shown item = .weight ↔ IsKeptWeight item.1 ∧ IsPlainEntry shown item.2 := by
  obtain ⟨name, entry⟩ := item
  by_cases h : IsKeptWeight name
  · rw [kindOf_weight h]
    cases entry with
    | dict fields =>
        simp only [IsPlainEntry, h, true_and]
        split_ifs with hquantized
        · simp [hquantized]
        · simp [hquantized]
    | none | bool value | int value | float value | str value | list values => simp [IsPlainEntry]
  · refine iff_of_false (fun hkind => h ?_) fun hboth => h hboth.1
    unfold kindOf at hkind
    split_ifs at hkind with hkept hsidecar hweight
    exact ⟨hkept, by simpa using hsidecar, hweight⟩

theorem kindOf_eq_broken_iff :
    kindOf shown item = .broken ↔ IsKeptWeight item.1 ∧ ∀ fields, item.2 ≠ .dict fields := by
  obtain ⟨name, entry⟩ := item
  by_cases h : IsKeptWeight name
  · rw [kindOf_weight h]
    cases entry with
    | dict fields =>
        dsimp only
        split_ifs
        · simp
        · simp
    | none | bool value | int value | float value | str value | list values => simp [h]
  · refine iff_of_false (fun hkind => h ?_) fun hboth => h hboth.1
    unfold kindOf at hkind
    split_ifs at hkind with hkept hsidecar hweight
    exact ⟨hkept, by simpa using hsidecar, hweight⟩

theorem kindOf_eq_other_iff : kindOf shown item = .other ↔
    ¬(isKept item.1 = true ∧ (isSidecar item.1 = true ∨ isWeight item.1 = true)) := by
  unfold kindOf
  split_ifs with hkept hsidecar hweight
  · simp [hkept, hsidecar]
  · refine iff_of_false ?_ (by simp [hkept, hweight])
    split
    · split_ifs
      all_goals simp
    · simp
  · simp [hsidecar, hweight]
  · simp [hkept]

theorem passes_iff : Passes shown item ↔
    (isKept item.1 = true → isSidecar item.1 = false ∧ (isWeight item.1 = true → IsPlainEntry shown item.2)) := by
  rw [Passes, kindOf_eq_other_iff, kindOf_eq_weight_iff, IsKeptWeight]
  cases isKept item.1
  all_goals
    cases isSidecar item.1
    all_goals
      cases isWeight item.1
      all_goals simp

-- What makes the walk end with a rejection.
def IsRejected (shown : Shown) (item : Text × Value) : Prop :=
  isKept item.1 = true ∧ isSidecar item.1 = true ∨ IsKeptWeight item.1 ∧ IsQuantized shown item.2

theorem kindOf_rejected_iff : (∃ r, kindOf shown item = .rejected r) ↔ IsRejected shown item := by
  obtain ⟨name, entry⟩ := item
  by_cases hsidecar : isKept name = true ∧ isSidecar name = true
  · exact iff_of_true ⟨_, kindOf_sidecar hsidecar.1 hsidecar.2⟩ (.inl hsidecar)
  by_cases h : IsKeptWeight name
  · rw [kindOf_weight h]
    cases entry with
    | dict fields =>
        simp only [IsRejected, IsQuantized, h, hsidecar, true_and, false_or]
        split_ifs with hquantized
        · simp [hquantized]
        · simp [hquantized]
    | none | bool value | int value | float value | str value | list values =>
        simp [IsRejected, IsQuantized, hsidecar]
  · refine iff_of_false ?_ fun hboth => hboth.elim hsidecar fun hweight => h hweight.1
    rintro ⟨r, hkind⟩
    unfold kindOf at hkind
    split_ifs at hkind with hkept hside hweight
    · exact hsidecar ⟨hkept, hside⟩
    · exact h ⟨hkept, by simpa using hside, hweight⟩

theorem passes_or (shown : Shown) (item : Text × Value) : Passes shown item ∨ IsRejected shown item ∨ kindOf shown item = .broken := by
  rw [← kindOf_rejected_iff]
  cases hkind : kindOf shown item with
  | other => exact .inl (.inl hkind)
  | weight => exact .inl (.inr hkind)
  | rejected r => exact .inr (.inl ⟨r, rfl⟩)
  | broken => exact .inr (.inr rfl)

theorem not_rejected_of_passes (h : Passes shown item) : ¬IsRejected shown item := by
  rw [← kindOf_rejected_iff]
  rintro ⟨r, hkind⟩
  rcases h with h | h
  · rw [h] at hkind
    cases hkind
  · rw [h] at hkind
    cases hkind

theorem verdict_append {front : List (Text × Value)} (hfront : ∀ item ∈ front, Passes shown item) (seen : Bool)
    (items : List (Text × Value)) : ∃ seen', verdict shown seen (front ++ items) = verdict shown seen' items ∧
      (seen' = true ↔ seen = true ∨ ∃ item ∈ front, kindOf shown item = .weight) := by
  induction front generalizing seen with
  | nil => exact ⟨seen, rfl, by simp⟩
  | cons item front ih =>
      obtain ⟨hitem, hfront⟩ := List.forall_mem_cons.mp hfront
      rw [List.cons_append, verdict_cons]
      rcases hitem with hkind | hkind
      · obtain ⟨seen', hverdict, hseen⟩ := ih hfront seen
        rw [hkind]
        exact ⟨seen', hverdict, by simp [hseen, hkind]⟩
      · obtain ⟨seen', hverdict, hseen⟩ := ih hfront true
        rw [hkind]
        exact ⟨seen', hverdict, by simp [hseen, hkind]⟩

theorem verdict_of_first {front : List (Text × Value)} (hfront : ∀ other ∈ front, Passes shown other)
    (seen : Bool) (item : Text × Value) (back : List (Text × Value)) : (kindOf shown item = .broken →
        verdict shown seen (front ++ item :: back) = .error .attributeError) ∧
      ∀ r, kindOf shown item = .rejected r → verdict shown seen (front ++ item :: back) = .ok (some r) := by
  obtain ⟨seen', hverdict, -⟩ := verdict_append hfront seen (item :: back)
  rw [hverdict, verdict_cons]
  constructor
  · intro hkind
    rw [hkind]
  · intro r hkind
    rw [hkind]

theorem verdict_eq_none_iff : verdict shown false items = .ok none ↔
    (∀ item ∈ items, Passes shown item) ∧ ∃ item ∈ items, kindOf shown item = .weight := by
  rcases forall_or_first (Passes shown) items with hall | ⟨front, item, back, rfl, hfront, hitem⟩
  · obtain ⟨seen', hverdict, hseen⟩ := verdict_append hall false []
    rw [List.append_nil] at hverdict
    rw [hverdict, verdict]
    simp only [Bool.false_eq_true, false_or] at hseen
    cases seen' with
    | true => exact iff_of_true rfl ⟨hall, hseen.mp rfl⟩
    | false => exact iff_of_false (by simp) fun h => by simpa using hseen.mpr h.2
  · refine iff_of_false (fun hnone => ?_) fun h => hitem (h.1 item (by simp))
    obtain ⟨hbroken, hrejected⟩ := verdict_of_first hfront false item back
    rcases passes_or shown item with hpasses | hr | hkind
    · exact hitem hpasses
    · obtain ⟨r, hkind⟩ := kindOf_rejected_iff.mpr hr
      rw [hrejected r hkind] at hnone
      cases hnone
    · rw [hbroken hkind] at hnone
      cases hnone

-- The walk breaks at an entry that is no object, unless a rejection comes first.
theorem verdict_error_iff : (∃ exn, verdict shown false items = .error exn) ↔
    ∃ front item back, items = front ++ item :: back ∧ kindOf shown item = .broken ∧
      ∀ other ∈ front, ¬IsRejected shown other := by
  constructor
  · rintro ⟨exn, herror⟩
    rcases forall_or_first (Passes shown) items with hall | ⟨front, item, back, rfl, hfront, hitem⟩
    · obtain ⟨seen', hverdict, -⟩ := verdict_append hall false []
      rw [List.append_nil, herror, verdict] at hverdict
      cases hverdict
    · obtain ⟨-, hrejected⟩ := verdict_of_first hfront false item back
      rcases passes_or shown item with hpasses | hr | hkind
      · exact absurd hpasses hitem
      · obtain ⟨r, hkind⟩ := kindOf_rejected_iff.mpr hr
        rw [hrejected r hkind] at herror
        cases herror
      · exact ⟨front, item, back, rfl, hkind, fun other hother => not_rejected_of_passes (hfront other hother)⟩
  · rintro ⟨front, item, back, rfl, hkind, hfront⟩
    rcases forall_or_first (Passes shown) front with hall | ⟨first, other, rest, rfl, hfirst, hother⟩
    · exact ⟨_, (verdict_of_first hall false item back).1 hkind⟩
    · rcases passes_or shown other with hpasses | hr | hbroken
      · exact absurd hpasses hother
      · exact absurd hr (hfront other (by simp))
      · rw [List.append_assoc, List.cons_append]
        exact ⟨_, (verdict_of_first hfirst false other (rest ++ item :: back)).1 hbroken⟩

end Items

end Cosmos3.Preflight
