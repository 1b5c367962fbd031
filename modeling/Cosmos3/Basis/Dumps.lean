import Cosmos3.Basis.Python

namespace Basis.Python

section IntText

theorem notMem_intText {u : UInt16} (hdigit : isDecimalDigit u = false) (hsign : u ≠ 45) (n : ℤ) :
    u ∉ intText n := by
  unfold intText
  split
  · rw [List.mem_cons, not_or]
    exact ⟨hsign, notMem_decimal hdigit _⟩
  · exact notMem_decimal hdigit _

theorem decimal_injective : Function.Injective decimal := fun m n h => by
  rw [← ofDecimal_decimal m, h, ofDecimal_decimal]

theorem intText_injective : Function.Injective intText := by
  have hsign : ∀ m n : Nat, 45 :: decimal m ≠ decimal n := by
    intro m n h
    exact @notMem_decimal 45 rfl n (h ▸ List.mem_cons_self)
  intro m n h
  unfold intText at h
  by_cases hm : m < 0 <;> by_cases hn : n < 0
  · rw [if_pos hm, if_pos hn] at h
    have := decimal_injective (List.cons.inj h).2
    omega
  · rw [if_pos hm, if_neg hn] at h
    exact absurd h (hsign _ _)
  · rw [if_neg hm, if_pos hn] at h
    exact absurd h.symm (hsign _ _)
  · rw [if_neg hm, if_neg hn] at h
    have := decimal_injective h
    omega

theorem isNumberUnit_intText (n : ℤ) : ∀ u ∈ intText n, Json.isNumberUnit u = true := by
  have hdecimal : ∀ m, ∀ u ∈ decimal m, Json.isNumberUnit u = true := by
    intro m u hu
    simp [Json.isNumberUnit, isDecimalDigit_of_mem hu]
  unfold intText
  split
  · intro u hu
    rcases List.mem_cons.mp hu with rfl | hu
    · rfl
    · exact hdecimal _ u hu
  · exact hdecimal _

-- A part without the separator, the separator, and the rest.
theorem append_cons_inj {α : Type*} {a b c d : List α} {sep : α} (ha : sep ∉ a) (hc : sep ∉ c)
    (h : a ++ sep :: b = c ++ sep :: d) : a = c ∧ b = d := by
  induction a generalizing c with
  | nil =>
      cases c with
      | nil => exact ⟨rfl, (List.cons.inj h).2⟩
      | cons x c =>
          obtain ⟨rfl, -⟩ := List.cons.inj h
          exact absurd List.mem_cons_self hc
  | cons x a ih =>
      cases c with
      | nil =>
          obtain ⟨rfl, -⟩ := List.cons.inj h
          exact absurd List.mem_cons_self ha
      | cons y c =>
          obtain ⟨rfl, hrest⟩ := List.cons.inj h
          rw [List.mem_cons, not_or] at ha hc
          obtain ⟨rfl, hbd⟩ := ih ha.2 hc.2 hrest
          exact ⟨rfl, hbd⟩

-- A float shown as the two parts of its fraction.
def FloatText.ofFractions : FloatText where
  literal q := intText q.num ++ 46 :: decimal q.den
  literal_units q u hu := by
    rw [List.mem_append, List.mem_cons] at hu
    rcases hu with hu | rfl | hu
    · exact isNumberUnit_intText _ u hu
    · rfl
    · simp [Json.isNumberUnit, isDecimalDigit_of_mem hu]
  literal_injective := by
    intro p q h
    obtain ⟨hnum, hden⟩ := append_cons_inj (notMem_intText rfl (by decide) _)
      (notMem_intText rfl (by decide) _) h
    exact Rat.ext (intText_injective hnum) (decimal_injective hden)
  literal_ne_intText q n h := by
    have hmem : (46 : UInt16) ∈ intText n := h ▸ by simp
    exact notMem_intText rfl (by decide) n hmem

-- Texts between single quotes, as those that need no escape are shown.
def Shown.quoted : Shown := { FloatText.ofFractions with text := fun s => 39 :: (s ++ [39]) }

end IntText

section Writer

variable (floats : FloatText)

mutual

-- `json.dumps` with its default separators.
def dumps : Value → Text
  | .none => ascii "null"
  | .bool true => ascii "true"
  | .bool false => ascii "false"
  | .int n => intText n
  | .float (.finite q) => floats.literal q
  | .float .nan => ascii "NaN"
  | .float .infinity => ascii "Infinity"
  | .float .negInfinity => ascii "-Infinity"
  | .str s => Json.dumpsString s
  | .list items => Json.openBracket :: (dumpsItems items ++ [Json.closeBracket])
  | .dict fields => Json.openBrace :: (dumpsFields fields ++ [Json.closeBrace])

def dumpsItems : List Value → Text
  | [] => []
  | [item] => dumps item
  | item :: next :: items => dumps item ++ Json.comma :: 32 :: dumpsItems (next :: items)

def dumpsFields : List (Text × Value) → Text
  | [] => []
  | [(key, item)] => Json.dumpsString key ++ Json.colon :: 32 :: dumps item
  | (key, item) :: next :: fields =>
      Json.dumpsString key ++
        Json.colon :: 32 :: (dumps item ++ Json.comma :: 32 :: dumpsFields (next :: fields))

end

end Writer

end Basis.Python
