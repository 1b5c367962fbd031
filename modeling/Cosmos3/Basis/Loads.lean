import Cosmos3.Basis.Dumps
import Cosmos3.Basis.Utf8

namespace Basis.Python

open Json (Style)

-- `json.loads` beside `repr`: what number a literal with a point or an exponent names.
-- A float that was read is shown by such a literal, which names it again.
def isIntText (t : Text) : Bool := t.all fun u => isDecimalDigit u || u = 45

structure FloatReader extends FloatText where
  value : Text → Number
  value_literal : ∀ t q, value t = .finite q →
    Json.isLiteral (literal q) = true ∧ isIntText (literal q) = false ∧ value (literal q) = .finite q

-- A reader that takes no text for a float has nothing to read back.
theorem nan_literal (literal : ℚ → Text) (_t : Text) (q : ℚ) (h : Number.nan = .finite q) :
    Json.isLiteral (literal q) = true ∧ isIntText (literal q) = false ∧ Number.nan = .finite q := by
  cases h

def FloatText.unread (floats : FloatText) : FloatReader := ⟨floats, fun _ => .nan, nan_literal floats.literal⟩

section Writer

variable (floats : FloatText) (style : Style)

mutual

def dumpsStyled : Nat → Value → Text
  | _, .none => ascii "null"
  | _, .bool true => ascii "true"
  | _, .bool false => ascii "false"
  | _, .int n => intText n
  | _, .float (.finite q) => floats.literal q
  | _, .float .nan => ascii "NaN"
  | _, .float .infinity => ascii "Infinity"
  | _, .float .negInfinity => ascii "-Infinity"
  | _, .str s => Json.dumpsString s
  | level, .list items =>
      Json.openBracket :: (style.wrap level (dumpsStyledItems (level + 1) items) ++ [Json.closeBracket])
  | level, .dict fields =>
      Json.openBrace :: (style.wrap level (dumpsStyledFields (level + 1) fields) ++ [Json.closeBrace])

def dumpsStyledItems : Nat → List Value → Text
  | _, [] => []
  | level, [item] => dumpsStyled level item
  | level, item :: next :: items =>
      dumpsStyled level item ++ Json.comma :: (style.comma level ++ dumpsStyledItems level (next :: items))

def dumpsStyledFields : Nat → List (Text × Value) → Text
  | _, [] => []
  | level, [(key, item)] =>
      Json.dumpsString key ++ Json.colon :: (style.colon ++ dumpsStyled level item)
  | level, (key, item) :: next :: fields =>
      Json.dumpsString key ++ Json.colon :: (style.colon ++ (dumpsStyled level item ++
        Json.comma :: (style.comma level ++ dumpsStyledFields level (next :: fields))))

end

end Writer

section Trees

variable (floats : FloatText)

-- A value as it is printed.
mutual

def toTree : Value → Json.Tree
  | .none => .scalar (ascii "null")
  | .bool true => .scalar (ascii "true")
  | .bool false => .scalar (ascii "false")
  | .int n => .scalar (intText n)
  | .float (.finite q) => .scalar (floats.literal q)
  | .float .nan => .scalar (ascii "NaN")
  | .float .infinity => .scalar (ascii "Infinity")
  | .float .negInfinity => .scalar (ascii "-Infinity")
  | .str s => .string s
  | .list items => .array (toTrees items)
  | .dict fields => .object (toTreeFields fields)

def toTrees : List Value → List Json.Tree
  | [] => []
  | item :: items => toTree item :: toTrees items

def toTreeFields : List (Text × Value) → List (Text × Json.Tree)
  | [] => []
  | (key, item) :: fields => (key, toTree item) :: toTreeFields fields

end

mutual

theorem dumpsStyled_eq_write (style : Style) (level : Nat) : (v : Value) →
    dumpsStyled floats style level v = (toTree floats v).write style.layout level
  | .none => by rw [dumpsStyled, toTree, Json.Tree.write]
  | .bool true => by rw [dumpsStyled, toTree, Json.Tree.write]
  | .bool false => by rw [dumpsStyled, toTree, Json.Tree.write]
  | .int n => by rw [dumpsStyled, toTree, Json.Tree.write]
  | .float (.finite q) => by rw [dumpsStyled, toTree, Json.Tree.write]
  | .float .nan => by rw [dumpsStyled, toTree, Json.Tree.write]
  | .float .infinity => by rw [dumpsStyled, toTree, Json.Tree.write]
  | .float .negInfinity => by rw [dumpsStyled, toTree, Json.Tree.write]
  | .str s => by
      rw [dumpsStyled, toTree, Json.Tree.write]
      rfl
  | .list items => by
      rw [dumpsStyled, toTree, Json.Tree.write, dumpsStyledItems_eq_write style (level + 1) items]
      rfl
  | .dict fields => by
      rw [dumpsStyled, toTree, Json.Tree.write, dumpsStyledFields_eq_write style (level + 1) fields]
      rfl

theorem dumpsStyledItems_eq_write (style : Style) (level : Nat) : (items : List Value) →
    dumpsStyledItems floats style level items = Json.writeItems style.layout level (toTrees floats items)
  | [] => by rw [dumpsStyledItems, toTrees, Json.writeItems]
  | [item] => by
      rw [dumpsStyledItems, toTrees, toTrees, Json.writeItems, dumpsStyled_eq_write style level item]
  | item :: next :: items => by
      rw [dumpsStyledItems, toTrees, toTrees, Json.writeItems, dumpsStyled_eq_write style level item,
        dumpsStyledItems_eq_write style level (next :: items), toTrees]
      rfl

theorem dumpsStyledFields_eq_write (style : Style) (level : Nat) : (fields : List (Text × Value)) →
    dumpsStyledFields floats style level fields =
      Json.writeFields style.layout level (toTreeFields floats fields)
  | [] => by rw [dumpsStyledFields, toTreeFields, Json.writeFields]
  | [(key, item)] => by
      rw [dumpsStyledFields, toTreeFields, toTreeFields, Json.writeFields,
        dumpsStyled_eq_write style level item]
      rfl
  | (key, item) :: next :: fields => by
      rw [dumpsStyledFields, toTreeFields, toTreeFields, Json.writeFields,
        dumpsStyled_eq_write style level item, dumpsStyledFields_eq_write style level (next :: fields),
        toTreeFields]
      rfl

end

mutual

theorem dumpsStyled_spaced (level : Nat) : (v : Value) →
    dumpsStyled floats .spaced level v = dumps floats v
  | .none => by rw [dumpsStyled, dumps]
  | .bool true => by rw [dumpsStyled, dumps]
  | .bool false => by rw [dumpsStyled, dumps]
  | .int n => by rw [dumpsStyled, dumps]
  | .float (.finite q) => by rw [dumpsStyled, dumps]
  | .float .nan => by rw [dumpsStyled, dumps]
  | .float .infinity => by rw [dumpsStyled, dumps]
  | .float .negInfinity => by rw [dumpsStyled, dumps]
  | .str s => by rw [dumpsStyled, dumps]
  | .list items => by
      rw [dumpsStyled, dumps, dumpsStyledItems_spaced (level + 1) items]
      simp [Style.wrap, Style.spaced]
  | .dict fields => by
      rw [dumpsStyled, dumps, dumpsStyledFields_spaced (level + 1) fields]
      simp [Style.wrap, Style.spaced]

theorem dumpsStyledItems_spaced (level : Nat) : (items : List Value) →
    dumpsStyledItems floats .spaced level items = dumpsItems floats items
  | [] => by rw [dumpsStyledItems, dumpsItems]
  | [item] => by rw [dumpsStyledItems, dumpsItems, dumpsStyled_spaced level item]
  | item :: next :: items => by
      rw [dumpsStyledItems, dumpsItems, dumpsStyled_spaced level item,
        dumpsStyledItems_spaced level (next :: items)]
      rfl

theorem dumpsStyledFields_spaced (level : Nat) : (fields : List (Text × Value)) →
    dumpsStyledFields floats .spaced level fields = dumpsFields floats fields
  | [] => by rw [dumpsStyledFields, dumpsFields]
  | [(key, item)] => by
      rw [dumpsStyledFields, dumpsFields, dumpsStyled_spaced level item]
      rfl
  | (key, item) :: next :: fields => by
      rw [dumpsStyledFields, dumpsFields, dumpsStyled_spaced level item,
        dumpsStyledFields_spaced level (next :: fields)]
      rfl

end

end Trees

section Reader

-- `-0` is the integer 0.
def intOfText : Text → ℤ
  | [] => 0
  | u :: t => if u = 45 then -(ofDecimal t : ℤ) else ofDecimal (u :: t)

-- A dictionary of the pairs as they were read: of repeated keys the last one counts.
def Dict.ofPairs (pairs : List (Text × Value)) : Dict :=
  pairs.foldl (fun d field => d.set field.1 field.2) []

variable (floats : FloatReader)

def parseNumber (t : Text) : Option (Value × Text) :=
  let literal := t.takeWhile Json.isNumberUnit
  if Json.isLiteral literal then
    some (if isIntText literal then .int (intOfText literal) else .float (floats.value literal),
      t.dropWhile Json.isNumberUnit)
  else none

-- A number or a keyword.
def scalar : Text → Option (Value × Text)
  | [] => none
  | u :: t =>
    if u = 110 then Json.keyword (ascii "null") .none (u :: t)
    else if u = 116 then Json.keyword (ascii "true") (.bool true) (u :: t)
    else if u = 102 then Json.keyword (ascii "false") (.bool false) (u :: t)
    else if u = 78 then Json.keyword (ascii "NaN") (.float .nan) (u :: t)
    else if u = 73 then Json.keyword (ascii "Infinity") (.float .infinity) (u :: t)
    else if (ascii "-Infinity").isPrefixOf (u :: t) then
      some (.float .negInfinity, (u :: t).drop (ascii "-Infinity").length)
    else parseNumber floats (u :: t)

def builder : Json.Builder Value where
  string := .str
  array := .list
  object pairs := .dict (Dict.ofPairs pairs)
  scalar := scalar floats

-- `json.loads`
def loads (t : Text) : Option Value := (builder floats).read t

end Reader

section Numbers

-- A decimal does not begin with a zero, unless it is one.
theorem decimal_head {n : Nat} (hn : 0 < n) : ∃ u t, decimal n = u :: t ∧ u ≠ 48 := by
  have hdigit : ∀ d < 10, 0 < d → (48 + d).toUInt16 ≠ 48 := by decide
  induction n using Nat.strongRecOn with
  | _ n ih =>
      rw [decimal_eq]
      by_cases hsmall : n < 10
      · rw [if_pos hsmall]
        exact ⟨_, [], rfl, hdigit n hsmall hn⟩
      · obtain ⟨u, t, hut, hu⟩ := ih (n / 10) (by omega) (by omega)
        rw [if_neg hsmall, hut]
        exact ⟨u, _, rfl, hu⟩

-- A decimal with what may follow it in a literal: nothing, a point or an exponent.
theorem isUnsigned_decimal_append (n : Nat) {t : Text} (ht : Json.isFraction t = true)
    (hstop : t.dropWhile isDecimalDigit = t) : Json.isUnsigned (decimal n ++ t) = true := by
  rcases Nat.eq_zero_or_pos n with rfl | hn
  · exact ht
  · obtain ⟨u, digits, hut, hu⟩ := decimal_head hn
    have hdigits : ∀ v ∈ u :: digits, isDecimalDigit v = true :=
      fun v hv => isDecimalDigit_of_mem (hut ▸ hv)
    have hrest : (digits ++ t).dropWhile isDecimalDigit = t := by
      rw [List.dropWhile_append_of_pos fun v hv => hdigits v (List.mem_cons_of_mem u hv), hstop]
    rw [hut, List.cons_append, Json.isUnsigned, if_neg hu, hdigits u List.mem_cons_self, hrest, ht]
    rfl

theorem isLiteral_intText_append (n : ℤ) {t : Text} (ht : Json.isFraction t = true)
    (hstop : t.dropWhile isDecimalDigit = t) : Json.isLiteral (intText n ++ t) = true := by
  have hunsigned := isUnsigned_decimal_append n.natAbs ht hstop
  unfold intText
  by_cases hn : n < 0
  · rw [if_pos hn, List.cons_append, Json.isLiteral, if_pos rfl, hunsigned]
  · rw [if_neg hn]
    obtain ⟨u, digits, hut⟩ := List.exists_cons_of_ne_nil (decimal_ne_nil n.natAbs)
    have hu : u ≠ 45 := Json.isDecimalDigit_ne (isDecimalDigit_of_mem (hut ▸ List.mem_cons_self)) rfl
    rw [hut, List.cons_append] at hunsigned ⊢
    rw [Json.isLiteral, if_neg hu, hunsigned]

theorem isLiteral_intText (n : ℤ) : Json.isLiteral (intText n) = true := by
  simpa using @isLiteral_intText_append n [] rfl rfl

theorem isIntText_intText (n : ℤ) : isIntText (intText n) = true := by
  have hdecimal : ∀ m, isIntText (decimal m) = true := by
    intro m
    exact List.all_eq_true.mpr fun u hu => by simp [isDecimalDigit_of_mem hu]
  unfold intText
  split
  · rw [isIntText, List.all_cons]
    exact hdecimal _
  · exact hdecimal _

theorem intOfText_intText (n : ℤ) : intOfText (intText n) = n := by
  unfold intText
  by_cases hn : n < 0
  · rw [if_pos hn, intOfText, if_pos rfl, ofDecimal_decimal]
    omega
  · rw [if_neg hn]
    have hvalue := ofDecimal_decimal n.natAbs
    obtain ⟨u, t, hut⟩ := List.exists_cons_of_ne_nil (decimal_ne_nil n.natAbs)
    have hu : u ≠ 45 := Json.isDecimalDigit_ne (isDecimalDigit_of_mem (hut ▸ List.mem_cons_self)) rfl
    rw [hut] at hvalue ⊢
    rw [intOfText, if_neg hu, hvalue]
    omega

end Numbers

section Readable

variable (floats : FloatReader)

-- A float that a literal names.
def ReadableFloat (q : ℚ) : Prop :=
  Json.isLiteral (floats.literal q) = true ∧ isIntText (floats.literal q) = false ∧
    floats.value (floats.literal q) = .finite q

-- The values that a JSON text names: such floats, and no key twice.
mutual

def Readable : Value → Prop
  | .float (.finite q) => ReadableFloat floats q
  | .list items => ReadableItems items
  | .dict fields => (fields.map (·.1)).Nodup ∧ ReadableFields fields
  | _ => True

def ReadableItems : List Value → Prop
  | [] => True
  | item :: items => Readable item ∧ ReadableItems items

def ReadableFields : List (Text × Value) → Prop
  | [] => True
  | (_, item) :: fields => Readable item ∧ ReadableFields fields

end

variable {floats}

theorem readableItems_iff {items : List Value} :
    ReadableItems floats items ↔ ∀ item ∈ items, Readable floats item := by
  induction items with
  | nil => simp [ReadableItems]
  | cons item items ih => simp [ReadableItems, ih]

theorem readableFields_iff {fields : List (Text × Value)} :
    ReadableFields floats fields ↔ ∀ field ∈ fields, Readable floats field.2 := by
  induction fields with
  | nil => simp [ReadableFields]
  | cons field fields ih => simp [ReadableFields, ih]

end Readable

section RoundTrip

variable {floats : FloatReader} {style : Style}

theorem parseNumber_append {t rest : Text} (hliteral : Json.isLiteral t = true)
    (ht : ∀ u ∈ t, Json.isNumberUnit u = true)
    (hrest : ∀ u ∈ rest.head?, Json.isNumberUnit u = false) :
    parseNumber floats (t ++ rest) =
      some (if isIntText t then .int (intOfText t) else .float (floats.value t), rest) := by
  obtain ⟨htake, hdrop⟩ := Json.takeWhile_number ht hrest
  rw [parseNumber, htake, hdrop, if_pos hliteral]

-- No other value begins like a number.
theorem scalar_number {t rest : Text} (hliteral : Json.isLiteral t = true)
    (ht : ∀ u ∈ t, Json.isNumberUnit u = true) : scalar floats (t ++ rest) = parseNumber floats (t ++ rest) := by
  obtain ⟨u, t', hut, hu⟩ := Json.isLiteral_head hliteral
  have hunits : u ≠ 110 ∧ u ≠ 116 ∧ u ≠ 102 ∧ u ≠ 78 ∧ u ≠ 73 := by
    rcases hu with rfl | hu
    · decide
    · have hne : ∀ v : UInt16, isDecimalDigit v = false → u ≠ v := fun v hv => Json.isDecimalDigit_ne hu hv
      exact ⟨hne _ rfl, hne _ rfl, hne _ rfl, hne _ rfl, hne _ rfl⟩
  have hinfinity : (ascii "-Infinity").isPrefixOf (t ++ rest) = false := by
    have hword : ascii "-Infinity" = 45 :: 73 :: ascii "nfinity" := by decide
    rw [hword, hut]
    cases t' with
    | nil =>
        have hminus : (45 : UInt16) ≠ u := by
          rintro rfl
          rw [hut] at hliteral
          exact absurd hliteral (by decide)
        simp [List.isPrefixOf, hminus]
    | cons v t' =>
        have hv : Json.isNumberUnit v = true := ht v (by simp [hut])
        have hne : (73 : UInt16) ≠ v := by
          rintro rfl
          simp [Json.isNumberUnit, isDecimalDigit] at hv
        simp [List.isPrefixOf, hne]
  obtain ⟨hn, ht', hf, hN, hI⟩ := hunits
  rw [hut, List.cons_append] at hinfinity ⊢
  rw [scalar, if_neg hn, if_neg ht', if_neg hf, if_neg hN, if_neg hI, hinfinity]
  rfl

theorem leaf_literal {t : Text} (hliteral : Json.isLiteral t = true)
    (ht : ∀ u ∈ t, Json.isNumberUnit u = true) :
    (builder floats).Leaf t ∧ (builder floats).leaf t =
      some (if isIntText t then .int (intOfText t) else .float (floats.value t)) := by
  obtain ⟨u, t', hut, hu⟩ := Json.isLiteral_head hliteral
  exact (builder floats).leaf_of_scalar ⟨u, t', hut, Json.beginsScalar_number hu⟩ fun rest hrest =>
    (scalar_number hliteral ht).trans (parseNumber_append hliteral ht hrest)

theorem leaf_int (n : ℤ) :
    (builder floats).Leaf (intText n) ∧ (builder floats).leaf (intText n) = some (.int n) := by
  have h := @leaf_literal floats _ (isLiteral_intText n) (isNumberUnit_intText n)
  rwa [if_pos (isIntText_intText n), intOfText_intText] at h

theorem leaf_float {q : ℚ} (h : ReadableFloat floats q) : (builder floats).Leaf (floats.literal q) ∧
    (builder floats).leaf (floats.literal q) = some (.float (.finite q)) := by
  obtain ⟨hliteral, hint, hvalue⟩ := h
  have h := @leaf_literal floats _ hliteral (floats.literal_units q)
  rwa [if_neg (by simp [hint]), hvalue] at h

theorem leaf_keyword {word : Text} {value : Value} (hkey : (word, value) ∈ [(ascii "null", .none),
    (ascii "true", .bool true), (ascii "false", .bool false), (ascii "NaN", .float .nan),
    (ascii "Infinity", .float .infinity), (ascii "-Infinity", .float .negInfinity)]) :
    (builder floats).Leaf word ∧ (builder floats).leaf word = some value := by
  simp only [List.mem_cons, List.not_mem_nil, or_false, Prod.mk.injEq] at hkey
  rcases hkey with ⟨rfl, rfl⟩ | ⟨rfl, rfl⟩ | ⟨rfl, rfl⟩ | ⟨rfl, rfl⟩ | ⟨rfl, rfl⟩ | ⟨rfl, rfl⟩
  · exact (builder floats).leaf_of_scalar ⟨_, _, rfl, by decide⟩ fun rest _ =>
      Json.keyword_append (ascii "null") Value.none rest
  · exact (builder floats).leaf_of_scalar ⟨_, _, rfl, by decide⟩ fun rest _ =>
      Json.keyword_append (ascii "true") (Value.bool true) rest
  · exact (builder floats).leaf_of_scalar ⟨_, _, rfl, by decide⟩ fun rest _ =>
      Json.keyword_append (ascii "false") (Value.bool false) rest
  · exact (builder floats).leaf_of_scalar ⟨_, _, rfl, by decide⟩ fun rest _ =>
      Json.keyword_append (ascii "NaN") (Value.float .nan) rest
  · exact (builder floats).leaf_of_scalar ⟨_, _, rfl, by decide⟩ fun rest _ =>
      Json.keyword_append (ascii "Infinity") (Value.float .infinity) rest
  · exact (builder floats).leaf_of_scalar ⟨_, _, rfl, by decide⟩ fun rest _ =>
      Json.keyword_append (ascii "-Infinity") (Value.float .negInfinity) rest

theorem Dict.set_of_notMem {d : Dict} {key : Text} (h : key ∉ d.map (·.1)) (value : Value) :
    d.set key value = d ++ [(key, value)] := by
  induction d with
  | nil => rfl
  | cons field d ih =>
      rw [List.map_cons, List.mem_cons, not_or] at h
      rw [Dict.set, if_neg (Ne.symm h.1), ih h.2, List.cons_append]

theorem ofPairs_append (first : Dict) (pairs : List (Text × Value))
    (h : ((first ++ pairs).map (·.1)).Nodup) :
    pairs.foldl (fun d field => Dict.set d field.1 field.2) first = first ++ pairs := by
  induction pairs generalizing first with
  | nil => simp
  | cons field pairs ih =>
      have hnew : field.1 ∉ first.map (·.1) := by
        rw [List.map_append, List.map_cons, List.nodup_append] at h
        intro hmem
        exact h.2.2 _ hmem _ List.mem_cons_self rfl
      rw [List.foldl_cons, Dict.set_of_notMem hnew, ih _ (by simpa using h)]
      simp

theorem ofPairs_of_nodup {pairs : List (Text × Value)} (h : (pairs.map (·.1)).Nodup) :
    Dict.ofPairs pairs = pairs :=
  ofPairs_append [] pairs h

mutual

theorem reads_toTree : (v : Value) → Readable floats v →
    (toTree floats.toFloatText v).Each (builder floats).Leaf ∧
      (toTree floats.toFloatText v).build (builder floats) = some v
  | .none, _ => by
      rw [toTree, Json.Tree.Each, Json.Tree.build]
      exact leaf_keyword (by simp)
  | .bool true, _ => by
      rw [toTree, Json.Tree.Each, Json.Tree.build]
      exact leaf_keyword (by simp)
  | .bool false, _ => by
      rw [toTree, Json.Tree.Each, Json.Tree.build]
      exact leaf_keyword (by simp)
  | .int n, _ => by
      rw [toTree, Json.Tree.Each, Json.Tree.build]
      exact leaf_int n
  | .float (.finite q), h => by
      rw [toTree, Json.Tree.Each, Json.Tree.build]
      exact leaf_float h
  | .float .nan, _ => by
      rw [toTree, Json.Tree.Each, Json.Tree.build]
      exact leaf_keyword (by simp)
  | .float .infinity, _ => by
      rw [toTree, Json.Tree.Each, Json.Tree.build]
      exact leaf_keyword (by simp)
  | .float .negInfinity, _ => by
      rw [toTree, Json.Tree.Each, Json.Tree.build]
      exact leaf_keyword (by simp)
  | .str s, _ => by
      rw [toTree, Json.Tree.Each, Json.Tree.build]
      exact ⟨trivial, rfl⟩
  | .list items, h => by
      obtain ⟨heach, hbuild⟩ := reads_toTrees items h
      rw [toTree, Json.Tree.Each, Json.Tree.build, hbuild]
      exact ⟨heach, rfl⟩
  | .dict fields, h => by
      obtain ⟨heach, hbuild⟩ := reads_toTreeFields fields h.2
      have hfields : (builder floats).object fields = .dict fields := congrArg Value.dict (ofPairs_of_nodup h.1)
      rw [toTree, Json.Tree.Each, Json.Tree.build, hbuild, Option.map_some, hfields]
      exact ⟨heach, rfl⟩

theorem reads_toTrees : (items : List Value) → ReadableItems floats items →
    Json.EachItem (builder floats).Leaf (toTrees floats.toFloatText items) ∧
      Json.buildItems (builder floats) (toTrees floats.toFloatText items) = some items
  | [], _ => by
      rw [toTrees, Json.EachItem, Json.buildItems]
      exact ⟨trivial, rfl⟩
  | item :: items, h => by
      obtain ⟨hleaf, hitem⟩ := reads_toTree item h.1
      obtain ⟨heach, hbuild⟩ := reads_toTrees items h.2
      rw [toTrees, Json.EachItem, Json.buildItems, hitem, hbuild]
      exact ⟨⟨hleaf, heach⟩, rfl⟩

theorem reads_toTreeFields : (fields : List (Text × Value)) → ReadableFields floats fields →
    Json.EachField (builder floats).Leaf (toTreeFields floats.toFloatText fields) ∧
      Json.buildFields (builder floats) (toTreeFields floats.toFloatText fields) = some fields
  | [], _ => by
      rw [toTreeFields, Json.EachField, Json.buildFields]
      exact ⟨trivial, rfl⟩
  | (key, item) :: fields, h => by
      obtain ⟨hleaf, hitem⟩ := reads_toTree item h.1
      obtain ⟨heach, hbuild⟩ := reads_toTreeFields fields h.2
      rw [toTreeFields, Json.EachField, Json.buildFields, hitem, hbuild]
      exact ⟨⟨hleaf, heach⟩, rfl⟩

end

-- White space behind the value does no harm.
theorem loads_dumpsStyled {v : Value} (hv : Readable floats v) (level : Nat) {spaces : Text}
    (hspaces : ∀ u ∈ spaces, Json.isSpace u = true) :
    loads floats (dumpsStyled floats.toFloatText style level v ++ spaces) = some v := by
  obtain ⟨heach, hbuild⟩ := reads_toTree v hv
  rw [dumpsStyled_eq_write, loads, Json.read_write heach level hspaces, hbuild]

theorem dumpsStyled_injective {v w : Value} (hv : Readable floats v) (hw : Readable floats w)
    {level : Nat} (h : dumpsStyled floats.toFloatText style level v =
      dumpsStyled floats.toFloatText style level w) : v = w := by
  have hread := @loads_dumpsStyled floats style v hv level [] (by simp)
  rw [h, loads_dumpsStyled hw level (by simp)] at hread
  exact (Option.some.inj hread).symm

end RoundTrip

section Loaded

variable {floats : FloatReader}

theorem Dict.map_set (d : Dict) (key : Text) (value : Value) :
    (d.set key value).map (·.1) =
      if key ∈ d.map (·.1) then d.map (·.1) else d.map (·.1) ++ [key] := by
  induction d with
  | nil => rfl
  | cons field d ih =>
      rw [Dict.set]
      by_cases hkey : field.1 = key
      · simp [hkey]
      · rw [if_neg hkey, List.map_cons, ih, List.map_cons]
        by_cases hmem : key ∈ d.map (·.1)
        · rw [if_pos hmem, if_pos (List.mem_cons_of_mem _ hmem)]
        · rw [if_neg hmem, if_neg (by simpa [Ne.symm hkey] using hmem), List.cons_append]

theorem Dict.nodup_set {d : Dict} (h : (d.map (·.1)).Nodup) (key : Text) (value : Value) :
    ((d.set key value).map (·.1)).Nodup := by
  rw [Dict.map_set]
  by_cases hmem : key ∈ d.map (·.1)
  · rwa [if_pos hmem]
  · rw [if_neg hmem]
    exact List.nodup_append.mpr ⟨h, List.pairwise_singleton _ key, fun k hk k' hk' => by
      rintro rfl
      exact hmem (List.mem_singleton.mp hk' ▸ hk)⟩

theorem Dict.mem_set {d : Dict} {key : Text} {value : Value} {field : Text × Value}
    (h : field ∈ d.set key value) : field = (key, value) ∨ field ∈ d := by
  induction d with
  | nil => exact .inl (List.mem_singleton.mp h)
  | cons first d ih =>
      rw [Dict.set] at h
      split at h
      · exact (List.mem_cons.mp h).imp_right (List.mem_cons_of_mem first)
      · rcases List.mem_cons.mp h with rfl | h
        · exact .inr List.mem_cons_self
        · exact (ih h).imp_right (List.mem_cons_of_mem first)

theorem readable_set {d : Dict} (h : Readable floats (.dict d)) (key : Text) {value : Value}
    (hvalue : Readable floats value) : Readable floats (.dict (d.set key value)) := by
  refine ⟨Dict.nodup_set h.1 key value, readableFields_iff.mpr fun field hfield => ?_⟩
  rcases Dict.mem_set hfield with rfl | hmem
  · exact hvalue
  · exact readableFields_iff.mp h.2 field hmem

theorem readable_get {d : Dict} (h : Readable floats (.dict d)) {key : Text} {value : Value}
    (hget : Dict.get d key = some value) : Readable floats value := by
  obtain ⟨field, hfield, rfl⟩ := Option.map_eq_some_iff.mp hget
  exact readableFields_iff.mp h.2 field (List.mem_of_find?_eq_some hfield)

theorem readable_ofPairs {pairs : List (Text × Value)} (h : ReadableFields floats pairs) :
    Readable floats (.dict (Dict.ofPairs pairs)) := by
  suffices hfold : ∀ first, Readable floats (.dict first) → Readable floats
      (.dict (pairs.foldl (fun d field => Dict.set d field.1 field.2) first)) from
    hfold [] ⟨List.nodup_nil, trivial⟩
  induction pairs with
  | nil => exact fun first hfirst => hfirst
  | cons field pairs ih => exact fun first hfirst => ih h.2 _ (readable_set hfirst field.1 h.1)

theorem readable_parseNumber {t rest : Text} {v : Value} (h : parseNumber floats t = some (v, rest)) :
    Readable floats v := by
  unfold parseNumber at h
  dsimp only at h
  split at h
  · obtain ⟨rfl, -⟩ := Prod.mk.inj (Option.some.inj h)
    split
    · trivial
    · generalize t.takeWhile Json.isNumberUnit = literal
      cases hvalue : floats.value literal with
      | finite q => exact floats.value_literal literal q hvalue
      | _ => trivial
  · cases h

-- What is read is readable.
theorem makes_readable (floats : FloatReader) : (builder floats).Makes (Readable floats) where
  string _ := trivial
  array _ hitems := readableItems_iff.mpr hitems
  object _ hfields := readable_ofPairs (readableFields_iff.mpr hfields)
  scalar t value rest h := by
    cases t with
    | nil => cases h
    | cons u t =>
        have hread : scalar floats (u :: t) = some (value, rest) := h
        rw [scalar] at hread
        split_ifs at hread
        · exact Json.forall_keyword hread trivial
        · exact Json.forall_keyword hread trivial
        · exact Json.forall_keyword hread trivial
        · exact Json.forall_keyword hread trivial
        · exact Json.forall_keyword hread trivial
        · obtain ⟨rfl, -⟩ := Prod.mk.inj (Option.some.inj hread)
          trivial
        · exact readable_parseNumber hread

theorem readable_loads {t : Text} {v : Value} (h : loads floats t = some v) : Readable floats v :=
  Json.read_makes (makes_readable floats) h

end Loaded

section Bytes

theorem isAscii_of_plain {t : Text} (h : t.all Json.isPlain = true) : IsAscii t := by
  intro u hu
  have hplain := List.all_eq_true.mp h u hu
  simp only [Json.isPlain, Bool.and_eq_true, decide_eq_true_eq] at hplain
  exact UInt16.lt_of_le_of_lt hplain.2 (by decide)

theorem isAscii_of_spaces {t : Text} (h : ∀ u ∈ t, Json.isSpace u = true) : IsAscii t := by
  intro u hu
  have hspace := h u hu
  simp only [Json.isSpace, Bool.or_eq_true, decide_eq_true_eq] at hspace
  rcases hspace with ((rfl | rfl) | rfl) | rfl <;> decide

theorem isAscii_numbers {t : Text} (h : ∀ u ∈ t, Json.isNumberUnit u = true) : IsAscii t :=
  isAscii_of_plain (List.all_eq_true.mpr fun u hu => Json.isPlain_of_isNumberUnit (h u hu))

variable (floats : FloatText) (style : Style)

theorem prints_ascii : style.layout.Prints (· < 0x80) where
  signs := isAscii_of_plain (by decide)
  gaps level := isAscii_of_spaces (style.gap_space level)
  commas level := isAscii_of_spaces (style.comma_space level)
  colons := isAscii_of_spaces style.colon_space
  strings s := isAscii_of_plain (Json.isPlain_dumpsString s)

mutual

theorem each_isAscii : (v : Value) → (toTree floats v).Each IsAscii
  | .none => by rw [toTree, Json.Tree.Each]; decide
  | .bool true => by rw [toTree, Json.Tree.Each]; decide
  | .bool false => by rw [toTree, Json.Tree.Each]; decide
  | .int n => by rw [toTree, Json.Tree.Each]; exact isAscii_numbers (isNumberUnit_intText n)
  | .float (.finite q) => by rw [toTree, Json.Tree.Each]; exact isAscii_numbers (floats.literal_units q)
  | .float .nan => by rw [toTree, Json.Tree.Each]; decide
  | .float .infinity => by rw [toTree, Json.Tree.Each]; decide
  | .float .negInfinity => by rw [toTree, Json.Tree.Each]; decide
  | .str s => by rw [toTree, Json.Tree.Each]; trivial
  | .list items => by rw [toTree, Json.Tree.Each]; exact eachItem_isAscii items
  | .dict fields => by rw [toTree, Json.Tree.Each]; exact eachField_isAscii fields

theorem eachItem_isAscii : (items : List Value) → Json.EachItem IsAscii (toTrees floats items)
  | [] => by rw [toTrees, Json.EachItem]; trivial
  | item :: items => by
      rw [toTrees, Json.EachItem]
      exact ⟨each_isAscii item, eachItem_isAscii items⟩

theorem eachField_isAscii : (fields : List (Text × Value)) →
    Json.EachField IsAscii (toTreeFields floats fields)
  | [] => by rw [toTreeFields, Json.EachField]; trivial
  | (_, item) :: fields => by
      rw [toTreeFields, Json.EachField]
      exact ⟨each_isAscii item, eachField_isAscii fields⟩

end

theorem isAscii_dumpsStyled (level : Nat) (v : Value) : IsAscii (dumpsStyled floats style level v) := by
  rw [dumpsStyled_eq_write]
  exact Json.forall_write (prints_ascii style) level _ (each_isAscii floats v)

-- A JSON file: the text of its bytes, which have to be UTF-8.
def loadsBytes (floats : FloatReader) (bytes : List UInt8) : Option Value :=
  (Utf8.strict .start bytes).bind (loads floats)

theorem loadsBytes_dumpsStyled {floats : FloatReader} {v : Value} (hv : Readable floats v) (level : Nat)
    {spaces : Text} (hspaces : ∀ u ∈ spaces, Json.isSpace u = true) :
    loadsBytes floats (asciiBytes (dumpsStyled floats.toFloatText style level v ++ spaces)) = some v := by
  have hascii := (isAscii_dumpsStyled floats.toFloatText style level v).append (isAscii_of_spaces hspaces)
  rw [loadsBytes, strict_ascii hascii, Option.bind_some, loads_dumpsStyled hv level hspaces]

theorem readable_loadsBytes {floats : FloatReader} {bytes : List UInt8} {v : Value}
    (h : loadsBytes floats bytes = some v) : Readable floats v := by
  obtain ⟨t, -, hread⟩ := Option.bind_eq_some_iff.mp h
  exact readable_loads hread

end Bytes

end Basis.Python
