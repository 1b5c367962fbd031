import Cosmos3.Basis.Loads
import Mathlib.Data.List.Forall2

namespace Basis.Python

section Conversion

variable (numbers : Json.NumberText) (floats : FloatText)

-- What `JSON.parse` reads of a value that `json.dumps` has printed. A number is what the
-- reader makes of its text, and one that is not finite has a text that is no JSON.
mutual

def toJson : Value → Option Json
  | .none => some .null
  | .bool value => some (.bool value)
  | .int n => some (.number (numbers.value (intText n)))
  | .float (.finite q) => some (.number (numbers.value (floats.literal q)))
  | .float .nan | .float .infinity | .float .negInfinity => none
  | .str s => some (.string s)
  | .list items => (toJsonItems items).map .array
  | .dict fields => (toJsonFields fields).map .object

def toJsonItems : List Value → Option (List Json)
  | [] => some []
  | item :: items => (toJson item).bind fun value => (toJsonItems items).map (value :: ·)

def toJsonFields : List (Text × Value) → Option (List (Text × Json))
  | [] => some []
  | (key, item) :: fields =>
      (toJson item).bind fun value => (toJsonFields fields).map ((key, value) :: ·)

end

theorem toJsonItems_eq_some {items : List Value} {values : List Json} :
    toJsonItems numbers floats items = some values ↔
      List.Forall₂ (fun item value => toJson numbers floats item = some value) items values := by
  induction items generalizing values with
  | nil =>
      rw [toJsonItems, List.forall₂_nil_left_iff, Option.some.injEq]
      exact eq_comm
  | cons item items ih =>
      rw [toJsonItems, List.forall₂_cons_left_iff]
      simp only [Option.bind_eq_some_iff, Option.map_eq_some_iff]
      constructor
      · rintro ⟨value, hvalue, rest, hrest, rfl⟩
        exact ⟨value, rest, hvalue, ih.mp hrest, rfl⟩
      · rintro ⟨value, rest, hvalue, hrest, rfl⟩
        exact ⟨value, hvalue, rest, ih.mpr hrest, rfl⟩

end Conversion

section Fractions

theorem isFraction_point (d : Nat) : Json.isFraction (46 :: decimal d) = true := by
  have hdigits : ∀ v ∈ decimal d, isDecimalDigit v = true := fun v hv => isDecimalDigit_of_mem hv
  rw [Json.isFraction, if_pos rfl, List.takeWhile_eq_self_iff.mpr hdigits, List.dropWhile_eq_nil_iff.mpr hdigits]
  simp [decimal_ne_nil, Json.isExponent]

theorem isLiteral_ofFractions (q : ℚ) : Json.isLiteral (FloatText.ofFractions.literal q) = true :=
  isLiteral_intText_append q.num (isFraction_point q.den) rfl

end Fractions

section Reparse

variable {numbers : Json.NumberText} {floats : FloatText}

-- The texts of the floats that are not finite are no JSON.
theorem leaf_nonfinite {word : Text} (hword : word ∈ [ascii "NaN", ascii "Infinity", ascii "-Infinity"]) :
    (Json.builder numbers).Leaf word ∧ (Json.builder numbers).leaf word = none := by
  simp only [List.mem_cons, List.not_mem_nil, or_false] at hword
  rcases hword with rfl | rfl | rfl
  all_goals exact (Json.builder numbers).leaf_of_scalar ⟨_, _, rfl, by decide⟩ fun rest _ => rfl

mutual

theorem reparses_toTree (hliteral : ∀ q, Json.isLiteral (floats.literal q) = true) : (v : Value) →
    (toTree floats v).Each (Json.builder numbers).Leaf ∧
      (toTree floats v).build (Json.builder numbers) = toJson numbers floats v
  | .none => by
      rw [toTree, toJson, Json.Tree.Each, Json.Tree.build]
      exact Json.leaf_keyword (by simp)
  | .bool true => by
      rw [toTree, toJson, Json.Tree.Each, Json.Tree.build]
      exact Json.leaf_keyword (by simp)
  | .bool false => by
      rw [toTree, toJson, Json.Tree.Each, Json.Tree.build]
      exact Json.leaf_keyword (by simp)
  | .int n => by
      rw [toTree, toJson, Json.Tree.Each, Json.Tree.build]
      exact Json.leaf_literal (isLiteral_intText n) (isNumberUnit_intText n)
  | .float (.finite q) => by
      rw [toTree, toJson, Json.Tree.Each, Json.Tree.build]
      exact Json.leaf_literal (hliteral q) (floats.literal_units q)
  | .float .nan => by
      rw [toTree, toJson, Json.Tree.Each, Json.Tree.build]
      exact leaf_nonfinite (by simp)
  | .float .infinity => by
      rw [toTree, toJson, Json.Tree.Each, Json.Tree.build]
      exact leaf_nonfinite (by simp)
  | .float .negInfinity => by
      rw [toTree, toJson, Json.Tree.Each, Json.Tree.build]
      exact leaf_nonfinite (by simp)
  | .str s => by
      rw [toTree, toJson, Json.Tree.Each, Json.Tree.build]
      exact ⟨trivial, rfl⟩
  | .list items => by
      obtain ⟨heach, hbuild⟩ := reparses_toTrees hliteral items
      rw [toTree, toJson, Json.Tree.Each, Json.Tree.build, hbuild]
      exact ⟨heach, rfl⟩
  | .dict fields => by
      obtain ⟨heach, hbuild⟩ := reparses_toTreeFields hliteral fields
      rw [toTree, toJson, Json.Tree.Each, Json.Tree.build, hbuild]
      exact ⟨heach, rfl⟩

theorem reparses_toTrees (hliteral : ∀ q, Json.isLiteral (floats.literal q) = true) :
    (items : List Value) → Json.EachItem (Json.builder numbers).Leaf (toTrees floats items) ∧
      Json.buildItems (Json.builder numbers) (toTrees floats items) = toJsonItems numbers floats items
  | [] => by
      rw [toTrees, toJsonItems, Json.EachItem, Json.buildItems]
      exact ⟨trivial, rfl⟩
  | item :: items => by
      obtain ⟨hleaf, hitem⟩ := reparses_toTree hliteral item
      obtain ⟨heach, hbuild⟩ := reparses_toTrees hliteral items
      rw [toTrees, toJsonItems, Json.EachItem, Json.buildItems, hitem, hbuild]
      exact ⟨⟨hleaf, heach⟩, rfl⟩

theorem reparses_toTreeFields (hliteral : ∀ q, Json.isLiteral (floats.literal q) = true) :
    (fields : List (Text × Value)) →
    Json.EachField (Json.builder numbers).Leaf (toTreeFields floats fields) ∧
      Json.buildFields (Json.builder numbers) (toTreeFields floats fields) =
        toJsonFields numbers floats fields
  | [] => by
      rw [toTreeFields, toJsonFields, Json.EachField, Json.buildFields]
      exact ⟨trivial, rfl⟩
  | (key, item) :: fields => by
      obtain ⟨hleaf, hitem⟩ := reparses_toTree hliteral item
      obtain ⟨heach, hbuild⟩ := reparses_toTreeFields hliteral fields
      rw [toTreeFields, toJsonFields, Json.EachField, Json.buildFields, hitem, hbuild]
      exact ⟨⟨hleaf, heach⟩, rfl⟩

end

-- What was printed is read as what it stands for.
theorem parse_dumps (hliteral : ∀ q, Json.isLiteral (floats.literal q) = true) (v : Value) :
    Json.parse numbers (dumps floats v) = toJson numbers floats v := by
  obtain ⟨heach, hbuild⟩ := @reparses_toTree numbers floats hliteral v
  have hread := @Json.read_write _ _ Json.Style.spaced.layout _ heach 0 [] Json.Style.nothing_space
  rwa [List.append_nil, hbuild, ← dumpsStyled_eq_write, dumpsStyled_spaced] at hread

theorem isAscii_dumps (v : Value) : IsAscii (dumps floats v) := by
  rw [← dumpsStyled_spaced floats 0 v]
  exact isAscii_dumpsStyled floats .spaced 0 v

end Reparse

end Basis.Python
