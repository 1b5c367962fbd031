import Cosmos3.Basis.Encode
import Cosmos3.Basis.Loads
import Mathlib.Data.List.Lex
import Mathlib.Data.List.Nodup
import Mathlib.Data.List.Perm.Basic

namespace Basis.Python

section Order

-- Python orders texts by their code points.
def keyLe (first second : Text × Value) : Bool := codePoints first.1 ≤ codePoints second.1

def sortFields (fields : List (Text × Value)) : List (Text × Value) := fields.mergeSort keyLe

theorem sortFields_perm (fields : List (Text × Value)) : (sortFields fields).Perm fields :=
  List.mergeSort_perm fields keyLe

-- Without a key twice there is one way to sort.
theorem sortFields_eq {first second : List (Text × Value)} (hperm : first.Perm second)
    (hnodup : (first.map (·.1)).Nodup) : sortFields first = sortFields second := by
  have hsorted : ∀ fields : List (Text × Value),
      (sortFields fields).Pairwise fun a b => keyLe a b = true := by
    refine fun fields => List.pairwise_mergeSort (fun a b c hab hbc => ?_) (fun a b => ?_) fields
    · simp only [keyLe, decide_eq_true_eq] at hab hbc ⊢
      exact le_trans hab hbc
    · simpa [keyLe] using le_total (codePoints a.1) (codePoints b.1)
  have hsame : (sortFields first).Perm (sortFields second) :=
    (sortFields_perm first).trans (hperm.trans (sortFields_perm second).symm)
  refine hsame.eq_of_pairwise (fun a b ha hb hab hba => ?_) (hsorted first) (hsorted second)
  simp only [keyLe, decide_eq_true_eq] at hab hba
  have hkey : a.1 = b.1 := codePoints_injective (le_antisymm hab hba)
  have hafirst := (sortFields_perm first).mem_iff.mp ha
  have hbfirst := hperm.mem_iff.mpr ((sortFields_perm second).mem_iff.mp hb)
  exact List.inj_on_of_nodup_map hnodup hafirst hbfirst hkey

end Order

section Canon

-- `sort_keys=True`, at every depth.
mutual

def canon : Value → Value
  | .list items => .list (canonItems items)
  | .dict fields => .dict (sortFields (canonFields fields))
  | .none => .none
  | .bool b => .bool b
  | .int n => .int n
  | .float x => .float x
  | .str s => .str s

def canonItems : List Value → List Value
  | [] => []
  | item :: items => canon item :: canonItems items

def canonFields : List (Text × Value) → List (Text × Value)
  | [] => []
  | (key, item) :: fields => (key, canon item) :: canonFields fields

end

-- Equal up to the order of the keys.
mutual

def Same : Value → Value → Prop
  | .list items, .list items' => SameItems items items'
  | .dict fields, .dict fields' => ∃ reordered, reordered.Perm fields' ∧ SameFields fields reordered
  | .none, .none => True
  | .bool b, .bool b' => b = b'
  | .int n, .int n' => n = n'
  | .float x, .float x' => x = x'
  | .str s, .str s' => s = s'
  | _, _ => False

def SameItems : List Value → List Value → Prop
  | [], [] => True
  | item :: items, item' :: items' => Same item item' ∧ SameItems items items'
  | _, _ => False

def SameFields : List (Text × Value) → List (Text × Value) → Prop
  | [], [] => True
  | (key, item) :: fields, (key', item') :: fields' =>
      key = key' ∧ Same item item' ∧ SameFields fields fields'
  | _, _ => False

end

theorem canonFields_eq_map (fields : List (Text × Value)) :
    canonFields fields = fields.map fun field => (field.1, canon field.2) := by
  induction fields with
  | nil => rfl
  | cons field fields ih => rw [canonFields, ih, List.map_cons]

theorem map_canonFields (fields : List (Text × Value)) :
    (canonFields fields).map (·.1) = fields.map (·.1) := by
  rw [canonFields_eq_map, List.map_map]
  rfl

variable {floats : FloatReader}

mutual

theorem canon_of_same : {v w : Value} → Readable floats w → Same v w → canon v = canon w
  | .list items, .list items', hw, h => by rw [canon, canon, canonItems_of_same hw h]
  | .dict fields, .dict fields', hw, h => by
      obtain ⟨reordered, hperm, hsame⟩ := h
      have hreadable : ReadableFields floats reordered :=
        readableFields_iff.mpr fun field hfield =>
          readableFields_iff.mp hw.2 field (hperm.mem_iff.mp hfield)
      have hkeys : ((canonFields reordered).map (·.1)).Nodup := by
        rw [map_canonFields]
        exact (hperm.map _).nodup_iff.mpr hw.1
      have hcanon : (canonFields reordered).Perm (canonFields fields') := by
        rw [canonFields_eq_map, canonFields_eq_map]
        exact hperm.map _
      rw [canon, canon, canonFields_of_same hreadable hsame, sortFields_eq hcanon hkeys]
  | .none, .none, _, _ => rfl
  | .bool b, .bool b', _, h => by rw [show b = b' from h]
  | .int n, .int n', _, h => by rw [show n = n' from h]
  | .float x, .float x', _, h => by rw [show x = x' from h]
  | .str s, .str s', _, h => by rw [show s = s' from h]

theorem canonItems_of_same : {items items' : List Value} → ReadableItems floats items' →
    SameItems items items' → canonItems items = canonItems items'
  | [], [], _, _ => rfl
  | item :: items, item' :: items', hw, h => by
      rw [canonItems, canonItems, canon_of_same hw.1 h.1, canonItems_of_same hw.2 h.2]

theorem canonFields_of_same : {fields fields' : List (Text × Value)} → ReadableFields floats fields' →
    SameFields fields fields' → canonFields fields = canonFields fields'
  | [], [], _, _ => rfl
  | (key, item) :: fields, (key', item') :: fields', hw, h => by
      rw [canonFields, canonFields, h.1, canon_of_same hw.1 h.2.1, canonFields_of_same hw.2 h.2.2]

end

mutual

theorem same_of_canon : (v w : Value) → canon v = canon w → Same v w
  | .list items, w, h => by
      cases w <;> simp only [canon, Value.list.injEq, reduceCtorEq] at h
      exact sameItems_of_canon items _ h
  | .dict fields, w, h => by
      cases w <;> simp only [canon, Value.dict.injEq, reduceCtorEq] at h
      rename_i fields'
      have hperm : (canonFields fields).Perm (canonFields fields') :=
        (sortFields_perm _).symm.trans (h ▸ sortFields_perm _)
      -- The permutation of the canonical fields is one of the fields themselves.
      rw [canonFields_eq_map fields'] at hperm
      obtain ⟨reordered, hforall, hreordered⟩ := List.perm_comp_forall₂ hperm
        (show List.Forall₂ (fun a b : Text × Value => a = (b.1, canon b.2)) _ fields' from
          List.forall₂_map_left_iff.mpr (List.forall₂_same.mpr fun _ _ => rfl))
      refine ⟨reordered, hreordered, sameFields_of_canon fields reordered ?_⟩
      rw [canonFields_eq_map reordered]
      clear h hperm hreordered
      generalize canonFields fields = left at hforall
      induction hforall with
      | nil => rfl
      | cons hhead _ ih => rw [hhead, ih, List.map_cons]
  | .none, w, h => by
      cases w <;> simp only [canon, reduceCtorEq] at h
      exact trivial
  | .bool b, w, h => by
      cases w <;> simp only [canon, Value.bool.injEq, reduceCtorEq] at h
      exact h
  | .int n, w, h => by
      cases w <;> simp only [canon, Value.int.injEq, reduceCtorEq] at h
      exact h
  | .float x, w, h => by
      cases w <;> simp only [canon, Value.float.injEq, reduceCtorEq] at h
      exact h
  | .str s, w, h => by
      cases w <;> simp only [canon, Value.str.injEq, reduceCtorEq] at h
      exact h

theorem sameItems_of_canon : (items items' : List Value) → canonItems items = canonItems items' →
    SameItems items items'
  | [], [], _ => trivial
  | [], item' :: items', h => by simp [canonItems] at h
  | item :: items, [], h => by simp [canonItems] at h
  | item :: items, item' :: items', h => by
      obtain ⟨hhead, htail⟩ := List.cons.inj h
      exact ⟨same_of_canon item item' hhead, sameItems_of_canon items items' htail⟩

theorem sameFields_of_canon : (fields fields' : List (Text × Value)) →
    canonFields fields = canonFields fields' → SameFields fields fields'
  | [], [], _ => trivial
  | [], field' :: fields', h => by simp [canonFields] at h
  | field :: fields, [], h => by simp [canonFields] at h
  | (key, item) :: fields, (key', item') :: fields', h => by
      obtain ⟨hhead, htail⟩ := List.cons.inj h
      obtain ⟨hkey, hitem⟩ := Prod.mk.inj hhead
      exact ⟨hkey, same_of_canon item item' hitem, sameFields_of_canon fields fields' htail⟩

end

theorem canon_eq_iff {v w : Value} (hw : Readable floats w) : canon v = canon w ↔ Same v w :=
  ⟨same_of_canon v w, canon_of_same hw⟩

mutual

theorem readable_canon : (v : Value) → Readable floats v → Readable floats (canon v)
  | .list items, h => readable_canonItems items h
  | .dict fields, h => by
      have hfields := readable_canonFields fields h.2
      refine ⟨?_, readableFields_iff.mpr fun field hfield => ?_⟩
      · rw [((sortFields_perm _).map _).nodup_iff, map_canonFields]
        exact h.1
      · exact readableFields_iff.mp hfields field ((sortFields_perm _).mem_iff.mp hfield)
  | .none, _ => trivial
  | .bool _, _ => trivial
  | .int _, _ => trivial
  | .float _, h => h
  | .str _, _ => trivial

theorem readable_canonItems : (items : List Value) → ReadableItems floats items →
    ReadableItems floats (canonItems items)
  | [], _ => trivial
  | item :: items, h => ⟨readable_canon item h.1, readable_canonItems items h.2⟩

theorem readable_canonFields : (fields : List (Text × Value)) → ReadableFields floats fields →
    ReadableFields floats (canonFields fields)
  | [], _ => trivial
  | (_, item) :: fields, h => ⟨readable_canon item h.1, readable_canonFields fields h.2⟩

end

-- Two values have one canonical text when they are equal up to the order of the keys.
theorem dumps_canon_iff {v w : Value} (hv : Readable floats v) (hw : Readable floats w) :
    dumps floats.toFloatText (canon v) = dumps floats.toFloatText (canon w) ↔ Same v w := by
  rw [← canon_eq_iff hw, ← dumpsStyled_spaced floats.toFloatText 0, ← dumpsStyled_spaced floats.toFloatText 0]
  exact ⟨dumpsStyled_injective (readable_canon v hv) (readable_canon w hw), congrArg _⟩

end Canon

end Basis.Python
