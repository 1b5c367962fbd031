import Cosmos3.Basis.Reader
import Mathlib.Data.Rat.Defs

namespace Basis

-- What a number of a JSON value can be in memory.
inductive Number where
  | finite (value : ℚ)
  | nan
  | infinity
  | negInfinity
deriving DecidableEq

inductive Json where
  | null
  | bool (value : Bool)
  | number (value : Number)
  | string (value : Text)
  | array (items : List Json)
  | object (fields : List (Text × Json))

namespace Json

-- How finite numbers are printed, and what number a literal names.
structure NumberText where
  literal : ℚ → Text
  value : Text → Number
  literal_units : ∀ q, ∀ u ∈ literal q, isNumberUnit u = true

section Writer

variable (numbers : NumberText)

def dumpsNumber : Number → Text
  | .finite q => numbers.literal q
  | .nan => ascii "NaN"
  | .infinity => ascii "Infinity"
  | .negInfinity => ascii "-Infinity"

-- `json.dumps` with its defaults: ASCII only, ", " and ": " as separators.
mutual

def dumps : Json → Text
  | .null => ascii "null"
  | .bool true => ascii "true"
  | .bool false => ascii "false"
  | .number x => dumpsNumber numbers x
  | .string s => dumpsString s
  | .array items => openBracket :: (dumpsItems items ++ [closeBracket])
  | .object fields => openBrace :: (dumpsFields fields ++ [closeBrace])

def dumpsItems : List Json → Text
  | [] => []
  | [item] => dumps item
  | item :: next :: items => dumps item ++ comma :: 32 :: dumpsItems (next :: items)

def dumpsFields : List (Text × Json) → Text
  | [] => []
  | [(key, item)] => dumpsString key ++ colon :: 32 :: dumps item
  | (key, item) :: next :: fields =>
      dumpsString key ++ colon :: 32 :: (dumps item ++ comma :: 32 :: dumpsFields (next :: fields))

end

end Writer

section Parse

variable (numbers : NumberText)

-- A number or a keyword.
def scalar : Text → Option (Json × Text)
  | [] => none
  | u :: t =>
    if u = 45 ∨ isDecimalDigit u then
      if isLiteral ((u :: t).takeWhile isNumberUnit) then
        some (.number (numbers.value ((u :: t).takeWhile isNumberUnit)),
          (u :: t).dropWhile isNumberUnit)
      else none
    else if u = 110 then keyword (ascii "null") .null (u :: t)
    else if u = 116 then keyword (ascii "true") (.bool true) (u :: t)
    else if u = 102 then keyword (ascii "false") (.bool false) (u :: t)
    else none

def builder : Builder Json where
  string := .string
  array := .array
  object := .object
  scalar := scalar numbers

-- `JSON.parse`
def parse (t : Text) : Option Json := (builder numbers).read t

-- A property of an object; of repeated keys the last one counts.
def member (value : Json) (key : Text) : Option Json :=
  match value with
  | .object fields => (fields.reverse.find? fun field => field.1 = key).map (·.2)
  | _ => none

end Parse

section RoundTrip

variable (numbers : NumberText)

-- The values whose numbers are finite and survive being printed and read.
mutual

def Readable : Json → Prop
  | .number (.finite q) =>
      isLiteral (numbers.literal q) = true ∧ numbers.value (numbers.literal q) = .finite q
  | .number _ => False
  | .array items => ReadableItems items
  | .object fields => ReadableFields fields
  | _ => True

def ReadableItems : List Json → Prop
  | [] => True
  | item :: items => Readable item ∧ ReadableItems items

def ReadableFields : List (Text × Json) → Prop
  | [] => True
  | (_, item) :: fields => Readable item ∧ ReadableFields fields

end

variable {numbers}

-- A number is read up to the first unit that no literal has.
theorem leaf_literal {t : Text} (hliteral : isLiteral t = true) (hunits : ∀ u ∈ t, isNumberUnit u = true) :
    (builder numbers).Leaf t ∧ (builder numbers).leaf t = some (.number (numbers.value t)) := by
  obtain ⟨u, t', rfl, hu⟩ := isLiteral_head hliteral
  refine (builder numbers).leaf_of_scalar ⟨u, t', rfl, beginsScalar_number hu⟩ fun rest hrest => ?_
  obtain ⟨htake, hdrop⟩ := takeWhile_number hunits hrest
  rw [List.cons_append] at htake hdrop ⊢
  have hread : scalar numbers (u :: (t' ++ rest)) = some (.number (numbers.value (u :: t')), rest) := by
    rw [scalar, if_pos hu, htake, hdrop, if_pos hliteral]
  exact hread

theorem leaf_keyword {word : Text} {value : Json}
    (hkey : (word, value) ∈ [(ascii "null", .null), (ascii "true", .bool true), (ascii "false", .bool false)]) :
    (builder numbers).Leaf word ∧ (builder numbers).leaf word = some value := by
  simp only [List.mem_cons, List.not_mem_nil, or_false, Prod.mk.injEq] at hkey
  rcases hkey with ⟨rfl, rfl⟩ | ⟨rfl, rfl⟩ | ⟨rfl, rfl⟩
  · exact (builder numbers).leaf_of_scalar ⟨_, _, rfl, by decide⟩ fun rest _ =>
      keyword_append (ascii "null") Json.null rest
  · exact (builder numbers).leaf_of_scalar ⟨_, _, rfl, by decide⟩ fun rest _ =>
      keyword_append (ascii "true") (Json.bool true) rest
  · exact (builder numbers).leaf_of_scalar ⟨_, _, rfl, by decide⟩ fun rest _ =>
      keyword_append (ascii "false") (Json.bool false) rest

section Trees

variable (numbers) (other : Number → Text)

-- A value as it is printed. `other` stands for the numbers that are not finite.
mutual

def toTree : Json → Tree
  | .null => .scalar (ascii "null")
  | .bool true => .scalar (ascii "true")
  | .bool false => .scalar (ascii "false")
  | .number (.finite q) => .scalar (numbers.literal q)
  | .number x => .scalar (other x)
  | .string s => .string s
  | .array items => .array (toTrees items)
  | .object fields => .object (toTreeFields fields)

def toTrees : List Json → List Tree
  | [] => []
  | item :: items => toTree item :: toTrees items

def toTreeFields : List (Text × Json) → List (Text × Tree)
  | [] => []
  | (key, item) :: fields => (key, toTree item) :: toTreeFields fields

end

end Trees

variable {other : Number → Text}

mutual

theorem reads_toTree : (v : Json) → Readable numbers v → (toTree numbers other v).Each (builder numbers).Leaf ∧
    (toTree numbers other v).build (builder numbers) = some v
  | .null, _ => by
      rw [toTree, Tree.Each, Tree.build]
      exact leaf_keyword (by simp)
  | .bool true, _ => by
      rw [toTree, Tree.Each, Tree.build]
      exact leaf_keyword (by simp)
  | .bool false, _ => by
      rw [toTree, Tree.Each, Tree.build]
      exact leaf_keyword (by simp)
  | .number (.finite q), h => by
      rw [toTree, Tree.Each, Tree.build, ← h.2]
      exact leaf_literal h.1 (numbers.literal_units q)
  | .string s, _ => by
      rw [toTree, Tree.Each, Tree.build]
      exact ⟨trivial, rfl⟩
  | .array items, h => by
      obtain ⟨heach, hbuild⟩ := reads_toTrees items h
      rw [toTree, Tree.Each, Tree.build, hbuild]
      exact ⟨heach, rfl⟩
  | .object fields, h => by
      obtain ⟨heach, hbuild⟩ := reads_toTreeFields fields h
      rw [toTree, Tree.Each, Tree.build, hbuild]
      exact ⟨heach, rfl⟩

theorem reads_toTrees : (items : List Json) → ReadableItems numbers items →
    EachItem (builder numbers).Leaf (toTrees numbers other items) ∧
      buildItems (builder numbers) (toTrees numbers other items) = some items
  | [], _ => by
      rw [toTrees, EachItem, buildItems]
      exact ⟨trivial, rfl⟩
  | item :: items, h => by
      obtain ⟨hleaf, hitem⟩ := reads_toTree item h.1
      obtain ⟨heach, hbuild⟩ := reads_toTrees items h.2
      rw [toTrees, EachItem, buildItems, hitem, hbuild]
      exact ⟨⟨hleaf, heach⟩, rfl⟩

theorem reads_toTreeFields : (fields : List (Text × Json)) → ReadableFields numbers fields →
    EachField (builder numbers).Leaf (toTreeFields numbers other fields) ∧
      buildFields (builder numbers) (toTreeFields numbers other fields) = some fields
  | [], _ => by
      rw [toTreeFields, EachField, buildFields]
      exact ⟨trivial, rfl⟩
  | (key, item) :: fields, h => by
      obtain ⟨hleaf, hitem⟩ := reads_toTree item h.1
      obtain ⟨heach, hbuild⟩ := reads_toTreeFields fields h.2
      rw [toTreeFields, EachField, buildFields, hitem, hbuild]
      exact ⟨⟨hleaf, heach⟩, rfl⟩

end

theorem parse_write (layout : Layout) (level : Nat) {v : Json} (hv : Readable numbers v) :
    parse numbers ((toTree numbers other v).write layout level) = some v := by
  obtain ⟨heach, hbuild⟩ := @reads_toTree numbers other v hv
  have hread := @read_write Json (builder numbers) layout (toTree numbers other v) heach level [] Style.nothing_space
  rwa [List.append_nil, hbuild] at hread

mutual

theorem dumps_eq_write (level : Nat) : (v : Json) →
    dumps numbers v = (toTree numbers (dumpsNumber numbers) v).write Style.spaced.layout level
  | .null => by rw [dumps, toTree, Tree.write]
  | .bool true => by rw [dumps, toTree, Tree.write]
  | .bool false => by rw [dumps, toTree, Tree.write]
  | .number (.finite q) => by rw [dumps, toTree, Tree.write, dumpsNumber]
  | .number .nan => by simp [dumps, toTree, Tree.write]
  | .number .infinity => by simp [dumps, toTree, Tree.write]
  | .number .negInfinity => by simp [dumps, toTree, Tree.write]
  | .string s => by
      rw [dumps, toTree, Tree.write]
      rfl
  | .array items => by
      rw [dumps, toTree, Tree.write, dumpsItems_eq_write (level + 1) items]
      simp [Style.wrap, Style.layout, Style.spaced]
  | .object fields => by
      rw [dumps, toTree, Tree.write, dumpsFields_eq_write (level + 1) fields]
      simp [Style.wrap, Style.layout, Style.spaced]

theorem dumpsItems_eq_write (level : Nat) : (items : List Json) →
    dumpsItems numbers items =
      writeItems Style.spaced.layout level (toTrees numbers (dumpsNumber numbers) items)
  | [] => by rw [dumpsItems, toTrees, writeItems]
  | [item] => by rw [dumpsItems, toTrees, toTrees, writeItems, dumps_eq_write level item]
  | item :: next :: items => by
      rw [dumpsItems, toTrees, toTrees, writeItems, dumps_eq_write level item,
        dumpsItems_eq_write level (next :: items), toTrees]
      rfl

theorem dumpsFields_eq_write (level : Nat) : (fields : List (Text × Json)) →
    dumpsFields numbers fields =
      writeFields Style.spaced.layout level (toTreeFields numbers (dumpsNumber numbers) fields)
  | [] => by rw [dumpsFields, toTreeFields, writeFields]
  | [(key, item)] => by
      rw [dumpsFields, toTreeFields, toTreeFields, writeFields, dumps_eq_write level item]
      rfl
  | (key, item) :: next :: fields => by
      rw [dumpsFields, toTreeFields, toTreeFields, writeFields, dumps_eq_write level item,
        dumpsFields_eq_write level (next :: fields), toTreeFields]
      rfl

end

theorem parse_dumps {v : Json} (hv : Readable numbers v) :
    parse numbers (dumps numbers v) = some v := by
  rw [dumps_eq_write 0]
  exact parse_write Style.spaced.layout 0 hv

end RoundTrip

section Plain

-- The printed text is ASCII without control characters, so it is one line.
def isPlain (u : UInt16) : Bool := 32 ≤ u && u ≤ 126

theorem isPlain_hexDigit : ∀ d < 16, isPlain (hexDigit d) = true := by decide

theorem isPlain_escape (u : UInt16) : (escape u).all isPlain = true := by
  unfold escape
  split_ifs with h₁ h₂ h₃ h₄ h₅ h₆ h₇ h₈
  any_goals decide
  · simpa [isPlain] using h₈
  · have hu := u.toNat_lt
    have hword : (ascii "\\u").all isPlain = true := by decide
    rw [List.all_append, hword]
    simp only [hex4, List.all_cons, List.all_nil,
      isPlain_hexDigit _ (show u.toNat / 4096 < 16 by omega),
      isPlain_hexDigit _ (show u.toNat / 256 % 16 < 16 by omega),
      isPlain_hexDigit _ (show u.toNat / 16 % 16 < 16 by omega),
      isPlain_hexDigit _ (show u.toNat % 16 < 16 by omega), Bool.and_true]

theorem isPlain_dumpsString (s : Text) : (dumpsString s).all isPlain = true := by
  have hescaped : (s.flatMap escape).all isPlain = true := by
    induction s with
    | nil => rfl
    | cons u s ih => rw [List.flatMap_cons, List.all_append, isPlain_escape, ih]; rfl
  rw [dumpsString, List.all_cons, List.all_append, hescaped]
  decide

theorem isPlain_of_isNumberUnit {u : UInt16} (h : isNumberUnit u = true) : isPlain u = true := by
  simp only [isNumberUnit, isDecimalDigit, Bool.or_eq_true, Bool.and_eq_true,
    decide_eq_true_eq] at h
  rcases h with ((((⟨h, h'⟩ | rfl) | rfl) | rfl) | rfl) | rfl
  · rw [isPlain, Bool.and_eq_true, decide_eq_true_eq, decide_eq_true_eq]
    exact ⟨UInt16.le_trans (by decide) h, UInt16.le_trans h' (by decide)⟩
  all_goals decide

theorem isPlain_dumpsNumber {numbers : NumberText} (x : Number) : (dumpsNumber numbers x).all isPlain = true := by
  cases x with
  | finite q =>
      exact List.all_eq_true.mpr fun u hu => isPlain_of_isNumberUnit (numbers.literal_units q u hu)
  | nan => rw [dumpsNumber]; decide
  | infinity => rw [dumpsNumber]; decide
  | negInfinity => rw [dumpsNumber]; decide

variable {numbers : NumberText}

mutual

theorem each_isPlain : (v : Json) →
    (toTree numbers (dumpsNumber numbers) v).Each (∀ u ∈ ·, isPlain u = true)
  | .null => by rw [toTree, Tree.Each]; exact List.all_eq_true.mp (by decide)
  | .bool true => by rw [toTree, Tree.Each]; exact List.all_eq_true.mp (by decide)
  | .bool false => by rw [toTree, Tree.Each]; exact List.all_eq_true.mp (by decide)
  | .number x => by
      have hx : ∀ u ∈ dumpsNumber numbers x, isPlain u = true := List.all_eq_true.mp (isPlain_dumpsNumber x)
      cases x <;> simpa [toTree, Tree.Each, dumpsNumber] using hx
  | .string s => by rw [toTree, Tree.Each]; trivial
  | .array items => by rw [toTree, Tree.Each]; exact eachItem_isPlain items
  | .object fields => by rw [toTree, Tree.Each]; exact eachField_isPlain fields

theorem eachItem_isPlain : (items : List Json) →
    EachItem (∀ u ∈ ·, isPlain u = true) (toTrees numbers (dumpsNumber numbers) items)
  | [] => by rw [toTrees, EachItem]; trivial
  | item :: items => by
      rw [toTrees, EachItem]
      exact ⟨each_isPlain item, eachItem_isPlain items⟩

theorem eachField_isPlain : (fields : List (Text × Json)) →
    EachField (∀ u ∈ ·, isPlain u = true) (toTreeFields numbers (dumpsNumber numbers) fields)
  | [] => by rw [toTreeFields, EachField]; trivial
  | (_, item) :: fields => by
      rw [toTreeFields, EachField]
      exact ⟨each_isPlain item, eachField_isPlain fields⟩

end

theorem prints_isPlain : Style.spaced.layout.Prints (isPlain · = true) where
  signs := List.all_eq_true.mp (by decide)
  gaps _ := List.forall_mem_nil _
  commas _ := by simp [Style.layout, Style.spaced, isPlain]
  colons := by simp [Style.layout, Style.spaced, isPlain]
  strings s := List.all_eq_true.mp (isPlain_dumpsString s)

theorem isPlain_dumps (v : Json) : (dumps numbers v).all isPlain = true := by
  rw [dumps_eq_write 0, List.all_eq_true]
  exact forall_write prints_isPlain 0 _ (each_isPlain v)

end Plain

end Json

end Basis
