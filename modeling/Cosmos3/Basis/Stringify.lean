import Cosmos3.Basis.Json

namespace Basis.Json

section Stringify

-- Unlike `json.dumps`, `JSON.stringify` prints what is beyond ASCII as it is, except for
-- half of a surrogate pair.
def stringifyUnit (u : UInt16) : Text :=
  if 126 < u ∧ ¬(0xD800 ≤ u ∧ u < 0xE000) then [u] else escape u

def stringifyUnits : Text → Text
  | [] => []
  | [u] => stringifyUnit u
  | u :: v :: t =>
    if 0xD800 ≤ u ∧ u < 0xDC00 ∧ 0xDC00 ≤ v ∧ v < 0xE000 then u :: v :: stringifyUnits t
    else stringifyUnit u ++ stringifyUnits (v :: t)

def stringifyString (s : Text) : Text := quote :: (stringifyUnits s ++ [quote])

end Stringify

section ReadBack

theorem parseUnits_plain {u : UInt16} (h : 126 < u) (t : Text) :
    parseUnits (u :: t) = (parseUnits t).map fun (s, t) => (u :: s, t) := by
  have hne : ∀ w : UInt16, w ≤ 126 → u ≠ w := by
    rintro w hw rfl
    exact UInt16.not_lt.mpr hw h
  have hcontrol : ¬u < 32 := UInt16.not_lt.mpr (UInt16.le_of_lt (UInt16.lt_of_le_of_lt (by decide) h))
  rw [parseUnits.eq_def]
  simp only [if_neg (hne quote (by decide)), if_neg (hne backslash (by decide)), if_neg hcontrol]

theorem parseUnits_stringifyUnit (u : UInt16) (t : Text) :
    parseUnits (stringifyUnit u ++ t) = (parseUnits t).map fun (s, t) => (u :: s, t) := by
  unfold stringifyUnit
  split_ifs with h
  · exact parseUnits_plain h.1 t
  · exact parseUnits_escape u t

theorem parseUnits_stringifyUnits (s rest : Text) :
    parseUnits (stringifyUnits s ++ quote :: rest) = some (s, rest) := by
  induction s using stringifyUnits.induct with
  | case1 =>
      rw [stringifyUnits, List.nil_append, parseUnits.eq_def]
      simp only [if_true]
  | case2 u =>
      have hclose : parseUnits (quote :: rest) = some ([], rest) := by
        rw [parseUnits.eq_def]
        simp only [if_true]
      rw [stringifyUnits, parseUnits_stringifyUnit, hclose]
      rfl
  | case3 u v t hpair ih =>
      obtain ⟨hlead, -, htrail, -⟩ := id hpair
      have hu : 126 < u := UInt16.lt_of_lt_of_le (by decide) hlead
      have hv : 126 < v := UInt16.lt_of_lt_of_le (by decide) htrail
      rw [stringifyUnits, if_pos hpair, List.cons_append, List.cons_append, parseUnits_plain hu,
        parseUnits_plain hv, ih]
      rfl
  | case4 u v t hpair ih =>
      rw [stringifyUnits, if_neg hpair, List.append_assoc, parseUnits_stringifyUnit, ih]
      rfl

def compactLayout : Layout where
  toStyle := .compact
  string := stringifyString
  reads s := ⟨stringifyUnits s ++ [quote], rfl, fun rest => by
    rw [List.append_assoc, List.singleton_append, parseUnits_stringifyUnits]⟩

-- `JSON.stringify`
def stringify (numbers : NumberText) (v : Json) : Text :=
  (toTree numbers (fun _ => ascii "null") v).write compactLayout 0

theorem parse_stringify {numbers : NumberText} {v : Json} (hv : Readable numbers v) :
    parse numbers (stringify numbers v) = some v := parse_write compactLayout 0 hv

end ReadBack

end Basis.Json
