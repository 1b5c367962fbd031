import Cosmos3.Basis.Text
import Mathlib.Data.List.TakeWhile

namespace Basis.Json

section Units

def quote : UInt16 := 34

def backslash : UInt16 := 92

def comma : UInt16 := 44

def colon : UInt16 := 58

def openBracket : UInt16 := 91

def closeBracket : UInt16 := 93

def openBrace : UInt16 := 123

def closeBrace : UInt16 := 125

def isNumberUnit (u : UInt16) : Bool :=
  isDecimalDigit u || u = 43 || u = 45 || u = 46 || u = 69 || u = 101

end Units

section Strings

def hexDigit (n : Nat) : UInt16 := if n < 10 then (48 + n).toUInt16 else (87 + n).toUInt16

def hex4 (u : UInt16) : Text :=
  [hexDigit (u.toNat / 4096), hexDigit (u.toNat / 256 % 16), hexDigit (u.toNat / 16 % 16),
    hexDigit (u.toNat % 16)]

def escape (u : UInt16) : Text :=
  if u = quote then [backslash, quote]
  else if u = backslash then [backslash, backslash]
  else if u = 10 then ascii "\\n"
  else if u = 13 then ascii "\\r"
  else if u = 9 then ascii "\\t"
  else if u = 12 then ascii "\\f"
  else if u = 8 then ascii "\\b"
  else if 32 ≤ u ∧ u ≤ 126 then [u]
  else ascii "\\u" ++ hex4 u

def dumpsString (s : Text) : Text := quote :: (s.flatMap escape ++ [quote])

def hexValue (u : UInt16) : Option Nat :=
  if 48 ≤ u ∧ u ≤ 57 then some (u.toNat - 48)
  else if 97 ≤ u ∧ u ≤ 102 then some (u.toNat - 87)
  else if 65 ≤ u ∧ u ≤ 70 then some (u.toNat - 55)
  else none

def unescape (u : UInt16) : Option UInt16 :=
  if u = quote ∨ u = backslash ∨ u = 47 then some u
  else if u = 98 then some 8
  else if u = 102 then some 12
  else if u = 110 then some 10
  else if u = 114 then some 13
  else if u = 116 then some 9
  else none

-- The rest of a string, after its opening quotation mark.
def parseUnits : Text → Option (Text × Text)
  | [] => none
  | u :: t =>
    if u = quote then some ([], t)
    else if u = backslash then
      match t with
      | [] => none
      | e :: t =>
        if e = 117 then
          match t with
          | a :: b :: c :: d :: t =>
            match hexValue a, hexValue b, hexValue c, hexValue d with
            | some a, some b, some c, some d =>
                (parseUnits t).map fun (s, t) =>
                  ((((a * 16 + b) * 16 + c) * 16 + d).toUInt16 :: s, t)
            | _, _, _, _ => none
          | _ => none
        else
          match unescape e with
          | some v => (parseUnits t).map fun (s, t) => (v :: s, t)
          | none => none
    else if u < 32 then none
    else (parseUnits t).map fun (s, t) => (u :: s, t)

theorem hexValue_hexDigit : ∀ d < 16, hexValue (hexDigit d) = some d := by decide

theorem hex4_value (u : UInt16) :
    (((u.toNat / 4096 * 16 + u.toNat / 256 % 16) * 16 + u.toNat / 16 % 16) * 16 +
      u.toNat % 16).toUInt16 = u := by
  have h : ((u.toNat / 4096 * 16 + u.toNat / 256 % 16) * 16 + u.toNat / 16 % 16) * 16 +
      u.toNat % 16 = u.toNat := by
    omega
  rw [h]
  exact UInt16.ofNat_toNat

theorem parseUnits_hex4 (u : UInt16) (t : Text) :
    parseUnits (ascii "\\u" ++ hex4 u ++ t) = (parseUnits t).map fun (s, t) => (u :: s, t) := by
  have hu := u.toNat_lt
  have hword : ascii "\\u" = [backslash, 117] := by decide
  rw [hword, hex4]
  simp only [List.cons_append, List.nil_append]
  rw [parseUnits.eq_def]
  simp only [if_neg (show backslash ≠ quote by decide), if_true,
    hexValue_hexDigit _ (show u.toNat / 4096 < 16 by omega),
    hexValue_hexDigit _ (show u.toNat / 256 % 16 < 16 by omega),
    hexValue_hexDigit _ (show u.toNat / 16 % 16 < 16 by omega),
    hexValue_hexDigit _ (show u.toNat % 16 < 16 by omega), hex4_value]

theorem parseUnits_unescape {e v : UInt16} (he : e ≠ 117) (hv : unescape e = some v) (t : Text) :
    parseUnits ([backslash, e] ++ t) = (parseUnits t).map fun (s, t) => (v :: s, t) := by
  rw [List.cons_append, List.singleton_append, parseUnits.eq_def]
  simp only [if_neg (show backslash ≠ quote by decide), if_true, if_neg he, hv]

theorem parseUnits_escape (u : UInt16) (t : Text) :
    parseUnits (escape u ++ t) = (parseUnits t).map fun (s, t) => (u :: s, t) := by
  have hletter : ∀ e v : UInt16, e ≠ 117 ∧ unescape e = some v → u = v →
      parseUnits ([backslash, e] ++ t) = (parseUnits t).map fun (s, t) => (u :: s, t) := by
    rintro e v ⟨he, hv⟩ rfl
    exact parseUnits_unescape he hv t
  unfold escape
  split_ifs with h₁ h₂ h₃ h₄ h₅ h₆ h₇ h₈
  · exact hletter quote quote (by decide) h₁
  · exact hletter backslash backslash (by decide) h₂
  · exact hletter 110 10 (by decide) h₃
  · exact hletter 114 13 (by decide) h₄
  · exact hletter 116 9 (by decide) h₅
  · exact hletter 102 12 (by decide) h₆
  · exact hletter 98 8 (by decide) h₇
  · rw [List.singleton_append, parseUnits.eq_def]
    simp only [if_neg h₁, if_neg h₂, if_neg (UInt16.not_lt.mpr h₈.1)]
  · exact parseUnits_hex4 u t

theorem parseUnits_flatMap (s rest : Text) :
    parseUnits (s.flatMap escape ++ quote :: rest) = some (s, rest) := by
  induction s with
  | nil =>
      rw [List.flatMap_nil, List.nil_append, parseUnits.eq_def]
      simp only [if_true]
  | cons u s ih => rw [List.flatMap_cons, List.append_assoc, parseUnits_escape, ih]; rfl

end Strings

section Spaces

def isSpace (u : UInt16) : Bool := u = 32 || u = 9 || u = 10 || u = 13

def skipSpace (t : Text) : Text := t.dropWhile isSpace

theorem skipSpace_cons {u : UInt16} (h : isSpace u = false) (t : Text) :
    skipSpace (u :: t) = u :: t := by
  simp [skipSpace, h]

theorem skipSpace_append {gap : Text} (h : ∀ u ∈ gap, isSpace u = true) (t : Text) :
    skipSpace (gap ++ t) = skipSpace t := List.dropWhile_append_of_pos h

end Spaces

section Numbers

def exponentDigits : Text → Bool
  | [] => false
  | u :: t => if u = 43 ∨ u = 45 then t ≠ [] && t.all isDecimalDigit
      else isDecimalDigit u && t.all isDecimalDigit

-- The exponent, if there is one, and nothing after it.
def isExponent : Text → Bool
  | [] => true
  | u :: t => (u = 69 || u = 101) && exponentDigits t

def isFraction : Text → Bool
  | [] => true
  | u :: t =>
    if u = 46 then t.takeWhile isDecimalDigit ≠ [] && isExponent (t.dropWhile isDecimalDigit)
    else isExponent (u :: t)

-- A number literal of the grammar: no leading zero, digits around the point.
def isUnsigned : Text → Bool
  | [] => false
  | u :: t =>
    if u = 48 then isFraction t
    else isDecimalDigit u && isFraction (t.dropWhile isDecimalDigit)

def isLiteral : Text → Bool
  | [] => false
  | u :: t => if u = 45 then isUnsigned t else isUnsigned (u :: t)

theorem isLiteral_head {t : Text} (h : isLiteral t = true) :
    ∃ u rest, t = u :: rest ∧ (u = 45 ∨ isDecimalDigit u = true) := by
  cases t with
  | nil => simp [isLiteral] at h
  | cons u rest =>
      refine ⟨u, rest, rfl, ?_⟩
      by_cases hu : u = 45
      · exact .inl hu
      · right
        rw [isLiteral, if_neg hu, isUnsigned] at h
        by_cases hzero : u = 48
        · rw [hzero]; decide
        · rw [if_neg hzero, Bool.and_eq_true] at h
          exact h.1

theorem isDecimalDigit_ne {u : UInt16} (h : isDecimalDigit u = true) {v : UInt16}
    (hv : isDecimalDigit v = false) : u ≠ v := by
  rintro rfl
  simp [h] at hv

theorem isNumberUnit_space {u : UInt16} (h : isSpace u = true) : isNumberUnit u = false := by
  simp only [isSpace, Bool.or_eq_true, decide_eq_true_eq] at h
  rcases h with ((rfl | rfl) | rfl) | rfl
  all_goals decide

-- White space and then a unit that no number has end a number.
theorem isNumberUnit_head {spaces : Text} (h : ∀ u ∈ spaces, isSpace u = true) {u : UInt16}
    (hu : isNumberUnit u = false) (t : Text) :
    ∀ v ∈ (spaces ++ u :: t).head?, isNumberUnit v = false := by
  cases spaces with
  | nil => simpa using hu
  | cons v spaces => simpa using isNumberUnit_space (h v List.mem_cons_self)

theorem takeWhile_number {t rest : Text} (ht : ∀ u ∈ t, isNumberUnit u = true)
    (hrest : ∀ u ∈ rest.head?, isNumberUnit u = false) :
    (t ++ rest).takeWhile isNumberUnit = t ∧ (t ++ rest).dropWhile isNumberUnit = rest := by
  rw [List.takeWhile_append_of_pos ht, List.dropWhile_append_of_pos ht]
  cases rest with
  | nil => simp
  | cons v rest => simp [hrest v rfl]

end Numbers

section Reader

-- What a reader makes of the parts of a text. `scalar` reads a number or a keyword.
structure Builder (V : Type) where
  string : Text → V
  array : List V → V
  object : List (Text × V) → V
  scalar : Text → Option (V × Text)

variable {V : Type}

def keyword (word : Text) (value : V) (t : Text) : Option (V × Text) :=
  if word.isPrefixOf t then some (value, t.drop word.length) else none

theorem keyword_append (word : Text) (value : V) (rest : Text) :
    keyword word value (word ++ rest) = some (value, rest) := by
  simp [keyword]

variable (builder : Builder V)

mutual

def parseValue : Nat → Text → Option (V × Text)
  | 0, _ => none
  | fuel + 1, t =>
    match skipSpace t with
    | [] => none
    | u :: t =>
      if u = quote then (parseUnits t).map fun (s, t) => (builder.string s, t)
      else if u = openBracket then
        match skipSpace t with
        | [] => none
        | v :: t =>
          if v = closeBracket then some (builder.array [], t)
          else (parseItems fuel (v :: t)).map fun (items, t) => (builder.array items, t)
      else if u = openBrace then
        match skipSpace t with
        | [] => none
        | v :: t =>
          if v = closeBrace then some (builder.object [], t)
          else (parseFields fuel (v :: t)).map fun (fields, t) => (builder.object fields, t)
      else builder.scalar (u :: t)

def parseItems : Nat → Text → Option (List V × Text)
  | 0, _ => none
  | fuel + 1, t =>
    match parseValue fuel t with
    | none => none
    | some (item, t) =>
      match skipSpace t with
      | [] => none
      | u :: t =>
        if u = closeBracket then some ([item], t)
        else if u = comma then (parseItems fuel t).map fun (items, t) => (item :: items, t)
        else none

def parseFields : Nat → Text → Option (List (Text × V) × Text)
  | 0, _ => none
  | fuel + 1, t =>
    match skipSpace t with
    | [] => none
    | u :: t =>
      if u = quote then
        match parseUnits t with
        | none => none
        | some (key, t) =>
          match skipSpace t with
          | [] => none
          | v :: t =>
            if v = colon then
              match parseValue fuel t with
              | none => none
              | some (item, t) =>
                match skipSpace t with
                | [] => none
                | w :: t =>
                  if w = closeBrace then some ([(key, item)], t)
                  else if w = comma then
                    (parseFields fuel t).map fun (fields, t) => ((key, item) :: fields, t)
                  else none
            else none
      else none

end

-- One value and nothing behind it. Each nested call reads at least one unit, so the fuel
-- suffices.
def Builder.read (t : Text) : Option V :=
  match parseValue builder (2 * t.length + 1) t with
  | some (value, rest) => if skipSpace rest = [] then some value else none
  | none => none

end Reader

section Printing

-- A printed value: numbers and keywords by their texts, and what they are the parts of.
inductive Tree where
  | scalar (t : Text)
  | string (s : Text)
  | array (items : List Tree)
  | object (fields : List (Text × Tree))

-- The white space between the parts of a value, by how deep they are: inside a bracket or a
-- brace, after a comma and after a colon.
structure Style where
  gap : Nat → Text
  comma : Nat → Text
  colon : Text
  gap_space : ∀ level, ∀ u ∈ gap level, isSpace u = true
  comma_space : ∀ level, ∀ u ∈ comma level, isSpace u = true
  colon_space : ∀ u ∈ colon, isSpace u = true

namespace Style

theorem nothing_space : ∀ u ∈ ([] : Text), isSpace u = true := fun _ hu => absurd hu List.not_mem_nil

-- The default of `json.dumps`, `separators=(",", ":")`, and `indent=2`.
def spaced : Style where
  gap _ := []
  comma _ := [32]
  colon := [32]
  gap_space _ := nothing_space
  comma_space _ := by simp [isSpace]
  colon_space := by simp [isSpace]

def compact : Style where
  gap _ := []
  comma _ := []
  colon := []
  gap_space _ := nothing_space
  comma_space _ := nothing_space
  colon_space := nothing_space

theorem newline_space (level : Nat) : ∀ u ∈ lf :: List.replicate (2 * level) 32, isSpace u = true := by
  intro u hu
  rcases List.mem_cons.mp hu with rfl | hu
  · decide
  · obtain rfl := List.eq_of_mem_replicate hu
    decide

def indented : Style where
  gap level := lf :: List.replicate (2 * level) 32
  comma level := lf :: List.replicate (2 * level) 32
  colon := [32]
  gap_space := newline_space
  comma_space := newline_space
  colon_space := by simp [isSpace]

-- What is between two brackets: nothing, or a body on lines of its own.
def wrap (style : Style) (level : Nat) (body : Text) : Text :=
  if body = [] then [] else style.gap (level + 1) ++ (body ++ style.gap level)

end Style

-- A way to print: such white space, and strings that are read back.
structure Layout extends Style where
  string : Text → Text
  reads : ∀ s, ∃ body, string s = quote :: body ∧ ∀ rest, parseUnits (body ++ rest) = some (s, rest)

-- Strings as `json.dumps` prints them.
def Style.layout (style : Style) : Layout where
  toStyle := style
  string := dumpsString
  reads s := ⟨s.flatMap escape ++ [quote], rfl, fun rest => by
    rw [List.append_assoc, List.singleton_append, parseUnits_flatMap]⟩

variable (layout : Layout)

mutual

def Tree.write : Nat → Tree → Text
  | _, .scalar t => t
  | _, .string s => layout.string s
  | level, .array items =>
      openBracket :: (layout.wrap level (writeItems (level + 1) items) ++ [closeBracket])
  | level, .object fields =>
      openBrace :: (layout.wrap level (writeFields (level + 1) fields) ++ [closeBrace])

def writeItems : Nat → List Tree → Text
  | _, [] => []
  | level, [item] => item.write level
  | level, item :: next :: items =>
      item.write level ++ comma :: (layout.comma level ++ writeItems level (next :: items))

def writeFields : Nat → List (Text × Tree) → Text
  | _, [] => []
  | level, [(key, item)] => layout.string key ++ colon :: (layout.colon ++ item.write level)
  | level, (key, item) :: next :: fields =>
      layout.string key ++ colon :: (layout.colon ++ (item.write level ++
        comma :: (layout.comma level ++ writeFields level (next :: fields))))

end

end Printing

section Meaning

variable {V : Type} (builder : Builder V)

-- Where a text begins that is neither a string nor an array nor an object, nor the end of one.
def beginsScalar (u : UInt16) : Bool :=
  !isSpace u && u ≠ quote && u ≠ openBracket && u ≠ openBrace && u ≠ closeBracket

-- What the reader makes of a number or a keyword that is all of a text.
def Builder.leaf (t : Text) : Option V := (builder.scalar t).map (·.1)

-- The text of a number or a keyword, or one that is neither for this reader: what follows does
-- not matter.
structure Builder.Leaf (t : Text) : Prop where
  begins : ∃ u rest, t = u :: rest ∧ beginsScalar u = true
  reads : ∀ rest, (∀ u ∈ rest.head?, isNumberUnit u = false) →
    builder.scalar (t ++ rest) = (builder.leaf t).map (·, rest)

theorem Builder.leaf_of_scalar {t : Text} {value : Option V}
    (hbegins : ∃ u rest, t = u :: rest ∧ beginsScalar u = true)
    (hreads : ∀ rest, (∀ u ∈ rest.head?, isNumberUnit u = false) →
      builder.scalar (t ++ rest) = value.map (·, rest)) : builder.Leaf t ∧ builder.leaf t = value := by
  have hleaf : builder.leaf t = value := by
    have hread := hreads [] (by simp)
    rw [List.append_nil] at hread
    rw [Builder.leaf, hread, Option.map_map]
    exact congrFun Option.map_id value
  exact ⟨⟨hbegins, hleaf ▸ hreads⟩, hleaf⟩

mutual

def Tree.Each (P : Text → Prop) : Tree → Prop
  | .scalar t => P t
  | .string _ => True
  | .array items => EachItem P items
  | .object fields => EachField P fields

def EachItem (P : Text → Prop) : List Tree → Prop
  | [] => True
  | item :: items => item.Each P ∧ EachItem P items

def EachField (P : Text → Prop) : List (Text × Tree) → Prop
  | [] => True
  | (_, item) :: fields => item.Each P ∧ EachField P fields

end

-- What the reader makes of a tree, if it reads every part of it.
mutual

def Tree.build : Tree → Option V
  | .scalar t => builder.leaf t
  | .string s => some (builder.string s)
  | .array items => (buildItems items).map builder.array
  | .object fields => (buildFields fields).map builder.object

def buildItems : List Tree → Option (List V)
  | [] => some []
  | item :: items => item.build.bind fun value => (buildItems items).map (value :: ·)

def buildFields : List (Text × Tree) → Option (List (Text × V))
  | [] => some []
  | (key, item) :: fields => item.build.bind fun value => (buildFields fields).map ((key, value) :: ·)

end

end Meaning

-- A number begins so.
theorem beginsScalar_number {u : UInt16} (h : u = 45 ∨ isDecimalDigit u = true) : beginsScalar u = true := by
  rcases h with rfl | h
  · decide
  · have hne : ∀ v : UInt16, isDecimalDigit v = false → u ≠ v := fun v hv => isDecimalDigit_ne h hv
    simp [beginsScalar, isSpace, hne 32 rfl, hne 9 rfl, hne 10 rfl, hne 13 rfl, hne quote rfl,
      hne openBracket rfl, hne openBrace rfl, hne closeBracket rfl]

section ReadBack

variable {V : Type} {builder : Builder V} {layout : Layout}

theorem parseValue_spaces {spaces : Text} (h : ∀ u ∈ spaces, isSpace u = true) (fuel : Nat) (t : Text) :
    parseValue builder fuel (spaces ++ t) = parseValue builder fuel t := by
  cases fuel with
  | zero => rw [parseValue, parseValue]
  | succ fuel => rw [parseValue, parseValue, skipSpace_append h]

theorem parseItems_spaces {spaces : Text} (h : ∀ u ∈ spaces, isSpace u = true) (fuel : Nat) (t : Text) :
    parseItems builder fuel (spaces ++ t) = parseItems builder fuel t := by
  cases fuel with
  | zero => rw [parseItems, parseItems]
  | succ fuel => rw [parseItems, parseItems, parseValue_spaces h]

theorem parseFields_spaces {spaces : Text} (h : ∀ u ∈ spaces, isSpace u = true) (fuel : Nat) (t : Text) :
    parseFields builder fuel (spaces ++ t) = parseFields builder fuel t := by
  cases fuel with
  | zero => rw [parseFields, parseFields]
  | succ fuel => rw [parseFields, parseFields, skipSpace_append h]

theorem parseValue_scalar {u : UInt16} (h : beginsScalar u = true) (fuel : Nat) (t : Text) :
    parseValue builder (fuel + 1) (u :: t) = builder.scalar (u :: t) := by
  simp only [beginsScalar, Bool.and_eq_true, Bool.not_eq_true', decide_eq_true_eq] at h
  obtain ⟨⟨⟨⟨hspace, hquote⟩, hbracket⟩, hbrace⟩, -⟩ := h
  rw [parseValue, skipSpace_cons hspace]
  simp only [if_neg hquote, if_neg hbracket, if_neg hbrace]

theorem parseValue_array {fuel : Nat} {u : UInt16} {t : Text} {spaces : Text}
    (hspaces : ∀ u ∈ spaces, isSpace u = true) (hspace : isSpace u = false) (hclose : u ≠ closeBracket) :
    parseValue builder (fuel + 1) (openBracket :: (spaces ++ u :: t)) =
      (parseItems builder fuel (u :: t)).map fun (items, rest) => (builder.array items, rest) := by
  rw [parseValue, skipSpace_cons (by decide)]
  simp only [if_neg (show openBracket ≠ quote by decide), if_true, skipSpace_append hspaces,
    skipSpace_cons hspace, if_neg hclose]

theorem parseValue_object {fuel : Nat} {u : UInt16} {t : Text} {spaces : Text}
    (hspaces : ∀ u ∈ spaces, isSpace u = true) (hspace : isSpace u = false) (hclose : u ≠ closeBrace) :
    parseValue builder (fuel + 1) (openBrace :: (spaces ++ u :: t)) =
      (parseFields builder fuel (u :: t)).map fun (fields, rest) => (builder.object fields, rest) := by
  rw [parseValue, skipSpace_cons (by decide)]
  simp only [if_neg (show openBrace ≠ quote by decide), if_neg (show openBrace ≠ openBracket by decide),
    if_true, skipSpace_append hspaces, skipSpace_cons hspace, if_neg hclose]

-- Every printed value begins with a unit that is no space and closes nothing.
theorem write_head {tree : Tree} (h : tree.Each builder.Leaf) (level : Nat) :
    ∃ u t, tree.write layout level = u :: t ∧ isSpace u = false ∧ u ≠ closeBracket := by
  match tree with
  | .scalar t =>
      obtain ⟨u, rest, rfl, hu⟩ := Builder.Leaf.begins h
      simp only [beginsScalar, Bool.and_eq_true, Bool.not_eq_true', decide_eq_true_eq] at hu
      exact ⟨u, rest, by rw [Tree.write], hu.1.1.1.1, hu.2⟩
  | .string s =>
      obtain ⟨body, hbody, -⟩ := layout.reads s
      exact ⟨_, _, by rw [Tree.write, hbody], by decide, by decide⟩
  | .array items => exact ⟨_, _, by rw [Tree.write], by decide, by decide⟩
  | .object fields => exact ⟨_, _, by rw [Tree.write], by decide, by decide⟩

theorem writeItems_head {item : Tree} {level : Nat} {u : UInt16} {t : Text} (items : List Tree)
    (hitem : item.write layout level = u :: t) :
    ∃ t', writeItems layout level (item :: items) = u :: t' := by
  cases items with
  | nil => exact ⟨t, by rw [writeItems, hitem]⟩
  | cons next items => exact ⟨_, by rw [writeItems, hitem, List.cons_append]⟩

theorem writeFields_head (level : Nat) (key : Text) (item : Tree) (fields : List (Text × Tree)) :
    ∃ t, writeFields layout level ((key, item) :: fields) = quote :: t := by
  obtain ⟨body, hbody, -⟩ := layout.reads key
  cases fields with
  | nil => exact ⟨_, by rw [writeFields, hbody, List.cons_append]⟩
  | cons next fields => exact ⟨_, by rw [writeFields, hbody, List.cons_append]⟩

theorem wrap_cons (level : Nat) (u : UInt16) (t : Text) :
    layout.wrap level (u :: t) = layout.gap (level + 1) ++ u :: (t ++ layout.gap level) := by
  rw [Style.wrap, if_neg (List.cons_ne_nil u t), List.cons_append]

variable (builder layout) in
-- What was printed is read as what it stands for, with any fuel that covers its length.
def ReadsValue (fuel : Nat) : Prop :=
  ∀ (level : Nat) (tree : Tree) (rest : Text), tree.Each builder.Leaf →
    2 * (tree.write layout level).length ≤ fuel + 1 → (∀ u ∈ rest.head?, isNumberUnit u = false) →
    parseValue builder fuel (tree.write layout level ++ rest) = (tree.build builder).map (·, rest)

variable (builder layout) in
def ReadsItems (fuel : Nat) : Prop :=
  ∀ (level : Nat) (item : Tree) (items : List Tree) (spaces rest : Text),
    EachItem builder.Leaf (item :: items) → (∀ u ∈ spaces, isSpace u = true) →
    2 * (writeItems layout level (item :: items)).length ≤ fuel →
    parseItems builder fuel (writeItems layout level (item :: items) ++ (spaces ++ closeBracket :: rest)) =
      (buildItems builder (item :: items)).map (·, rest)

variable (builder layout) in
def ReadsFields (fuel : Nat) : Prop :=
  ∀ (level : Nat) (key : Text) (item : Tree) (fields : List (Text × Tree)) (spaces rest : Text),
    EachField builder.Leaf ((key, item) :: fields) → (∀ u ∈ spaces, isSpace u = true) →
    2 * (writeFields layout level ((key, item) :: fields)).length ≤ fuel →
    parseFields builder fuel (writeFields layout level ((key, item) :: fields) ++
      (spaces ++ closeBrace :: rest)) = (buildFields builder ((key, item) :: fields)).map (·, rest)

theorem ReadsValue.succ {fuel : Nat} (hitems : ReadsItems builder layout fuel)
    (hfields : ReadsFields builder layout fuel) : ReadsValue builder layout (fuel + 1) := by
  intro level tree rest h hfuel hrest
  match tree with
  | .scalar t =>
      obtain ⟨⟨u, t', rfl, hu⟩, hreads⟩ := h
      rw [Tree.write, Tree.build, ← hreads rest hrest, List.cons_append, parseValue_scalar hu]
  | .string s =>
      obtain ⟨body, hbody, hread⟩ := layout.reads s
      rw [Tree.write, Tree.build, hbody, List.cons_append, parseValue, skipSpace_cons (by decide)]
      simp only [if_true, hread, Option.map_some]
  | .array [] =>
      rw [Tree.write, writeItems, Style.wrap, if_pos rfl, List.nil_append, Tree.build, buildItems, parseValue]
      simp only [List.cons_append, List.nil_append, skipSpace_cons (show isSpace openBracket = false by decide),
        if_neg (show openBracket ≠ quote by decide), if_true,
        skipSpace_cons (show isSpace closeBracket = false by decide), Option.map_some]
  | .array (item :: items) =>
      obtain ⟨u, t, hut, hspace, hclose⟩ := @write_head V builder layout item h.1 (level + 1)
      obtain ⟨t', ht'⟩ := writeItems_head items hut
      rw [Tree.write, ht', wrap_cons] at hfuel ⊢
      have hread := hitems (level + 1) item items (layout.gap level) rest h (layout.gap_space level) (by
        simp only [ht', List.length_cons, List.length_append, List.length_nil] at hfuel ⊢
        omega)
      rw [ht', List.cons_append] at hread
      simp only [List.cons_append, List.append_assoc, List.nil_append]
      rw [parseValue_array (layout.gap_space (level + 1)) hspace hclose, hread, Tree.build, Option.map_map,
        Option.map_map]
      rfl
  | .object [] =>
      rw [Tree.write, writeFields, Style.wrap, if_pos rfl, List.nil_append, Tree.build, buildFields, parseValue]
      simp only [List.cons_append, List.nil_append, skipSpace_cons (show isSpace openBrace = false by decide),
        if_neg (show openBrace ≠ quote by decide), if_neg (show openBrace ≠ openBracket by decide), if_true,
        skipSpace_cons (show isSpace closeBrace = false by decide), Option.map_some]
  | .object ((key, item) :: fields) =>
      obtain ⟨t', ht'⟩ := @writeFields_head layout (level + 1) key item fields
      rw [Tree.write, ht', wrap_cons] at hfuel ⊢
      have hread := hfields (level + 1) key item fields (layout.gap level) rest h (layout.gap_space level) (by
        simp only [ht', List.length_cons, List.length_append, List.length_nil] at hfuel ⊢
        omega)
      rw [ht', List.cons_append] at hread
      simp only [List.cons_append, List.append_assoc, List.nil_append]
      rw [parseValue_object (layout.gap_space (level + 1)) (by decide) (by decide), hread, Tree.build,
        Option.map_map, Option.map_map]
      rfl

theorem ReadsItems.succ {fuel : Nat} (hvalue : ReadsValue builder layout fuel)
    (hitems : ReadsItems builder layout fuel) : ReadsItems builder layout (fuel + 1) := by
  intro level item items spaces rest h hspaces hfuel
  cases items with
  | nil =>
      rw [writeItems] at hfuel ⊢
      rw [parseItems, hvalue level item (spaces ++ closeBracket :: rest) h.1 (by omega)
        (isNumberUnit_head hspaces (by decide) rest), buildItems, buildItems]
      cases item.build builder with
      | none => rfl
      | some value =>
          simp only [Option.map_some, Option.bind_some, skipSpace_append hspaces,
            skipSpace_cons (show isSpace closeBracket = false by decide), if_true]
  | cons next items =>
      rw [writeItems, List.length_append, List.length_cons, List.length_append] at hfuel
      rw [writeItems, List.append_assoc, List.cons_append, List.append_assoc, parseItems,
        hvalue level item _ h.1 (by omega) (by simp; decide), buildItems]
      cases item.build builder with
      | none => rfl
      | some value =>
          simp only [Option.map_some, Option.bind_some, skipSpace_cons (show isSpace comma = false by decide),
            if_neg (show comma ≠ closeBracket by decide), if_true, parseItems_spaces (layout.comma_space level),
            hitems level next items spaces rest h.2 hspaces (by omega), Option.map_map]
          rfl

theorem ReadsFields.succ {fuel : Nat} (hvalue : ReadsValue builder layout fuel)
    (hfields : ReadsFields builder layout fuel) : ReadsFields builder layout (fuel + 1) := by
  intro level key item fields spaces rest h hspaces hfuel
  obtain ⟨body, hbody, hread⟩ := layout.reads key
  cases fields with
  | nil =>
      rw [writeFields, List.length_append, List.length_cons, List.length_append] at hfuel
      rw [writeFields, List.append_assoc, hbody, List.cons_append, parseFields, skipSpace_cons (by decide)]
      simp only [if_true, hread, List.cons_append, List.append_assoc,
        skipSpace_cons (show isSpace colon = false by decide), parseValue_spaces layout.colon_space,
        hvalue level item (spaces ++ closeBrace :: rest) h.1 (by omega)
          (isNumberUnit_head hspaces (by decide) rest), buildFields]
      cases item.build builder with
      | none => rfl
      | some value =>
          simp only [Option.map_some, Option.bind_some, skipSpace_append hspaces,
            skipSpace_cons (show isSpace closeBrace = false by decide), if_true]
  | cons next fields =>
      obtain ⟨next, after⟩ := next
      rw [writeFields, List.length_append, List.length_cons, List.length_append, List.length_append,
        List.length_cons, List.length_append] at hfuel
      rw [writeFields, List.append_assoc, hbody, List.cons_append, parseFields, skipSpace_cons (by decide)]
      have hcomma : ∀ u ∈ (comma :: (layout.comma level ++ (writeFields layout level ((next, after) :: fields) ++
          (spaces ++ closeBrace :: rest)))).head?, isNumberUnit u = false := by
        simp
        decide
      simp only [if_true, hread, List.cons_append, List.append_assoc,
        skipSpace_cons (show isSpace colon = false by decide), parseValue_spaces layout.colon_space,
        hvalue level item _ h.1 (by omega) hcomma]
      rw [buildFields]
      cases item.build builder with
      | none => rfl
      | some value =>
          simp only [Option.map_some, Option.bind_some, skipSpace_cons (show isSpace comma = false by decide),
            if_neg (show comma ≠ closeBrace by decide), if_true, parseFields_spaces (layout.comma_space level),
            hfields level next after fields spaces rest h.2 hspaces (by omega), Option.map_map]
          rfl

-- Each nested call has one unit of fuel less and at least one unit of text less.
theorem reads (builder : Builder V) (layout : Layout) (fuel : Nat) :
    ReadsValue builder layout fuel ∧ ReadsItems builder layout fuel ∧ ReadsFields builder layout fuel := by
  have hpos : ∀ level (tree : Tree), tree.Each builder.Leaf → 0 < (tree.write layout level).length := by
    intro level tree h
    obtain ⟨u, t, hut, -⟩ := @write_head V builder layout tree h level
    simp [hut]
  induction fuel with
  | zero =>
      refine ⟨fun level tree rest h hfuel => ?_, fun level item items spaces rest h _ hfuel => ?_,
        fun level key item fields spaces rest _ _ hfuel => ?_⟩
      · have := hpos level tree h
        omega
      · have := hpos level item h.1
        cases items with
        | nil => rw [writeItems] at hfuel; omega
        | cons next items => rw [writeItems, List.length_append] at hfuel; omega
      · obtain ⟨t, ht⟩ := @writeFields_head layout level key item fields
        simp [ht] at hfuel
  | succ fuel ih =>
      obtain ⟨hvalue, hitems, hfields⟩ := ih
      exact ⟨.succ hitems hfields, .succ hvalue hitems, .succ hvalue hfields⟩

-- White space behind the value does no harm.
theorem read_write {tree : Tree} (h : tree.Each builder.Leaf) (level : Nat) {spaces : Text}
    (hspaces : ∀ u ∈ spaces, isSpace u = true) :
    builder.read (tree.write layout level ++ spaces) = tree.build builder := by
  have hhead : ∀ u ∈ spaces.head?, isNumberUnit u = false :=
    fun u hu => isNumberUnit_space (hspaces u (List.mem_of_mem_head? hu))
  have hread := (reads builder layout (2 * (tree.write layout level ++ spaces).length + 1)).1 level tree
    spaces h (by rw [List.length_append]; omega) hhead
  have hrest : skipSpace spaces = [] := by simpa [skipSpace] using skipSpace_append hspaces []
  rw [Builder.read, hread]
  cases tree.build builder with
  | none => rfl
  | some value => simp only [Option.map_some, hrest, if_true]

end ReadBack

section Printed

variable {layout : Layout} {P : UInt16 → Prop}

-- What holds of every unit that is printed beside the scalars.
structure Layout.Prints (layout : Layout) (P : UInt16 → Prop) : Prop where
  signs : ∀ u ∈ [openBracket, closeBracket, openBrace, closeBrace, Json.comma, Json.colon], P u
  gaps : ∀ level, ∀ u ∈ layout.gap level, P u
  commas : ∀ level, ∀ u ∈ layout.comma level, P u
  colons : ∀ u ∈ layout.colon, P u
  strings : ∀ s, ∀ u ∈ layout.string s, P u

theorem Layout.Prints.wrap (h : layout.Prints P) (level : Nat) {body : Text} (hbody : ∀ u ∈ body, P u) :
    ∀ u ∈ layout.wrap level body, P u := by
  unfold Style.wrap
  split
  · exact List.forall_mem_nil P
  · simp only [List.forall_mem_append]
    exact ⟨h.gaps (level + 1), hbody, h.gaps level⟩

theorem forall_enclosed {first last : UInt16} (hfirst : P first) {body : Text} (hbody : ∀ u ∈ body, P u)
    (hlast : P last) : ∀ u ∈ first :: (body ++ [last]), P u :=
  List.forall_mem_cons.mpr ⟨hfirst, List.forall_mem_append.mpr ⟨hbody, List.forall_mem_singleton.mpr hlast⟩⟩

mutual

theorem forall_write (h : layout.Prints P) (level : Nat) : (tree : Tree) → tree.Each (∀ u ∈ ·, P u) →
    ∀ u ∈ tree.write layout level, P u
  | .scalar t, ht => by
      rw [Tree.write]
      exact ht
  | .string s, _ => by
      rw [Tree.write]
      exact h.strings s
  | .array items, hitems => by
      rw [Tree.write]
      have hbody := h.wrap level (forall_writeItems h (level + 1) items hitems)
      exact forall_enclosed (h.signs openBracket (by simp)) hbody (h.signs closeBracket (by simp))
  | .object fields, hfields => by
      rw [Tree.write]
      have hbody := h.wrap level (forall_writeFields h (level + 1) fields hfields)
      exact forall_enclosed (h.signs openBrace (by simp)) hbody (h.signs closeBrace (by simp))

theorem forall_writeItems (h : layout.Prints P) (level : Nat) : (items : List Tree) →
    EachItem (∀ u ∈ ·, P u) items → ∀ u ∈ writeItems layout level items, P u
  | [], _ => by
      rw [writeItems]
      exact List.forall_mem_nil P
  | [item], hitems => by
      rw [writeItems]
      exact forall_write h level item hitems.1
  | item :: next :: items, hitems => by
      rw [writeItems]
      simp only [List.forall_mem_cons, List.forall_mem_append]
      exact ⟨forall_write h level item hitems.1, h.signs Json.comma (by simp), h.commas level,
        forall_writeItems h level (next :: items) hitems.2⟩

theorem forall_writeFields (h : layout.Prints P) (level : Nat) : (fields : List (Text × Tree)) →
    EachField (∀ u ∈ ·, P u) fields → ∀ u ∈ writeFields layout level fields, P u
  | [], _ => by
      rw [writeFields]
      exact List.forall_mem_nil P
  | [(key, item)], hfields => by
      rw [writeFields]
      simp only [List.forall_mem_cons, List.forall_mem_append]
      exact ⟨h.strings key, h.signs Json.colon (by simp), h.colons, forall_write h level item hfields.1⟩
  | (key, item) :: next :: fields, hfields => by
      rw [writeFields]
      simp only [List.forall_mem_cons, List.forall_mem_append]
      exact ⟨h.strings key, h.signs Json.colon (by simp), h.colons, forall_write h level item hfields.1,
        h.signs Json.comma (by simp), h.commas level, forall_writeFields h level (next :: fields) hfields.2⟩

end

end Printed

section Invariant

variable {V : Type} {builder : Builder V} {P : V → Prop}

-- What a reader makes of anything is of this kind, if it is so of every kind of value.
structure Builder.Makes (builder : Builder V) (P : V → Prop) : Prop where
  string : ∀ s, P (builder.string s)
  array : ∀ items, (∀ item ∈ items, P item) → P (builder.array items)
  object : ∀ fields, (∀ field ∈ fields, P field.2) → P (builder.object fields)
  scalar : ∀ t value rest, builder.scalar t = some (value, rest) → P value

theorem forall_keyword {word t rest : Text} {value v : V} (h : keyword word value t = some (v, rest))
    (hvalue : P value) : P v := by
  unfold keyword at h
  split at h
  · obtain ⟨rfl, -⟩ := Prod.mk.inj (Option.some.inj h)
    exact hvalue
  · cases h

theorem parse_makes (h : builder.Makes P) (fuel : Nat) :
    (∀ t v rest, parseValue builder fuel t = some (v, rest) → P v) ∧
      (∀ t items rest, parseItems builder fuel t = some (items, rest) → ∀ item ∈ items, P item) ∧
      ∀ t fields rest, parseFields builder fuel t = some (fields, rest) → ∀ field ∈ fields, P field.2 := by
  induction fuel with
  | zero => simp [parseValue, parseItems, parseFields]
  | succ fuel ih =>
      obtain ⟨hvalue, hitems, hfields⟩ := ih
      refine ⟨fun t v rest hread => ?_, fun t items rest hread => ?_, fun t fields rest hread => ?_⟩
      · rw [parseValue] at hread
        split at hread
        · cases hread
        · rename_i u t _
          split_ifs at hread with hquote hbracket hbrace
          · obtain ⟨⟨s, t'⟩, -, hv⟩ := Option.map_eq_some_iff.mp hread
            obtain ⟨rfl, -⟩ := Prod.mk.inj hv
            exact h.string s
          · split at hread
            · cases hread
            · split_ifs at hread with hclose
              · obtain ⟨rfl, -⟩ := Prod.mk.inj (Option.some.inj hread)
                exact h.array [] (List.forall_mem_nil P)
              · obtain ⟨⟨items, t'⟩, hinner, hv⟩ := Option.map_eq_some_iff.mp hread
                obtain ⟨rfl, -⟩ := Prod.mk.inj hv
                exact h.array items (hitems _ items _ hinner)
          · split at hread
            · cases hread
            · split_ifs at hread with hclose
              · obtain ⟨rfl, -⟩ := Prod.mk.inj (Option.some.inj hread)
                exact h.object [] nofun
              · obtain ⟨⟨fields, t'⟩, hinner, hv⟩ := Option.map_eq_some_iff.mp hread
                obtain ⟨rfl, -⟩ := Prod.mk.inj hv
                exact h.object fields (hfields _ fields _ hinner)
          · exact h.scalar _ v rest hread
      · rw [parseItems] at hread
        split at hread
        · cases hread
        · rename_i item t' hitem
          split at hread
          · cases hread
          · split_ifs at hread with hclose hcomma
            · obtain ⟨rfl, -⟩ := Prod.mk.inj (Option.some.inj hread)
              exact List.forall_mem_singleton.mpr (hvalue _ item _ hitem)
            · obtain ⟨⟨rest', t''⟩, hinner, hv⟩ := Option.map_eq_some_iff.mp hread
              obtain ⟨rfl, -⟩ := Prod.mk.inj hv
              exact List.forall_mem_cons.mpr ⟨hvalue _ item _ hitem, hitems _ rest' _ hinner⟩
      · rw [parseFields] at hread
        split at hread
        · cases hread
        · split_ifs at hread with hquote
          split at hread
          · cases hread
          · rename_i key t₁ _
            split at hread
            · cases hread
            · split_ifs at hread with hcolon
              split at hread
              · cases hread
              · rename_i item t₂ hitem
                split at hread
                · cases hread
                · split_ifs at hread with hclose hcomma
                  · obtain ⟨rfl, -⟩ := Prod.mk.inj (Option.some.inj hread)
                    exact List.forall_mem_singleton.mpr (hvalue _ item _ hitem)
                  · obtain ⟨⟨rest', t₃⟩, hinner, hv⟩ := Option.map_eq_some_iff.mp hread
                    obtain ⟨rfl, -⟩ := Prod.mk.inj hv
                    exact List.forall_mem_cons.mpr ⟨hvalue _ item _ hitem, hfields _ rest' _ hinner⟩

theorem read_makes (h : builder.Makes P) {t : Text} {v : V} (hread : builder.read t = some v) : P v := by
  unfold Builder.read at hread
  split at hread
  · rename_i value rest hparse
    split_ifs at hread
    obtain rfl := Option.some.inj hread
    exact (parse_makes h _).1 _ value rest hparse
  · cases hread

end Invariant

end Basis.Json
