import Cosmos3.Basis.Encode

namespace Basis.Percent

def percent : UInt16 := 37

def hexDigit (n : ℕ) : UInt16 := if n < 10 then (48 + n).toUInt16 else (55 + n).toUInt16

def hexValue (u : UInt16) : Option ℕ :=
  if 48 ≤ u ∧ u ≤ 57 then some (u.toNat - 48)
  else if 65 ≤ u ∧ u ≤ 70 then some (u.toNat - 55)
  else if 97 ≤ u ∧ u ≤ 102 then some (u.toNat - 87)
  else none

-- Letters, digits and `-_.!~*'()`.
def isUnreserved (byte : UInt8) : Bool :=
  (48 ≤ byte && byte ≤ 57) || (65 ≤ byte && byte ≤ 90) || (97 ≤ byte && byte ≤ 122) ||
    byte ∈ [45, 95, 46, 33, 126, 42, 39, 40, 41]

def escape (byte : UInt8) : Text :=
  if isUnreserved byte then [byte.toUInt16]
  else [percent, hexDigit (byte.toNat / 16), hexDigit (byte.toNat % 16)]

-- `encodeURIComponent`, which throws at half of a character.
def encodeURIComponent (t : Text) : Option Text := (Utf8.encode t).map (·.flatMap escape)

-- The bytes of a component: those of its ASCII units, and those that are written out.
def bytes : Text → Option (List UInt8)
  | [] => some []
  | u :: rest =>
    if u = percent then
      match rest with
      | high :: low :: rest =>
        match hexValue high, hexValue low with
        | some x, some y => (bytes rest).map ((16 * x + y).toUInt8 :: ·)
        | _, _ => none
      | _ => none
    else if u < 0x80 then (bytes rest).map (u.toUInt8 :: ·)
    else none

-- `decodeURIComponent` of what a request line can hold.
def decode (t : Text) : Option Text := (bytes t).bind (Utf8.strict .start)

theorem hexValue_hexDigit : ∀ n < 16, hexValue (hexDigit n) = some n := by decide

-- What a component is made of.
def isEscapeUnit (u : UInt16) : Bool :=
  u = percent || (48 ≤ u && u ≤ 57) || (65 ≤ u && u ≤ 90) || (97 ≤ u && u ≤ 122) ||
    u ∈ [45, 95, 46, 33, 126, 42, 39, 40, 41]

theorem isEscapeUnit_hexDigit : ∀ n < 16, isEscapeUnit (hexDigit n) = true := by decide

theorem isUnreserved_nat : ∀ n < 256, isUnreserved n.toUInt8 = true →
    isEscapeUnit n.toUInt8.toUInt16 = true ∧ n.toUInt8.toUInt16 ≠ percent ∧ n.toUInt8.toUInt16 < 0x80 := by
  decide +kernel

theorem isUnreserved_toUInt16 {byte : UInt8} (h : isUnreserved byte = true) :
    isEscapeUnit byte.toUInt16 = true ∧ byte.toUInt16 ≠ percent ∧ byte.toUInt16 < 0x80 := by
  have hbyte : byte.toNat.toUInt8 = byte := UInt8.ofNat_toNat
  rw [← hbyte] at h ⊢
  exact isUnreserved_nat byte.toNat byte.toNat_lt h

theorem isEscapeUnit_escape (byte : UInt8) : ∀ u ∈ escape byte, isEscapeUnit u = true := by
  have hhigh : byte.toNat / 16 < 16 := by
    have := byte.toNat_lt
    omega
  have hlow : byte.toNat % 16 < 16 := Nat.mod_lt _ (by omega)
  intro u hu
  unfold escape at hu
  split_ifs at hu with hbyte
  · rw [List.mem_singleton.mp hu]
    exact (isUnreserved_toUInt16 hbyte).1
  · simp only [List.mem_cons, List.not_mem_nil, or_false] at hu
    rcases hu with rfl | rfl | rfl
    · rfl
    · exact isEscapeUnit_hexDigit _ hhigh
    · exact isEscapeUnit_hexDigit _ hlow

theorem bytes_plain {u : UInt16} (hne : u ≠ percent) (hascii : u < 0x80) (rest : Text) :
    bytes (u :: rest) = (bytes rest).map (u.toUInt8 :: ·) := by
  rcases rest with _ | ⟨high, _ | ⟨low, rest⟩⟩ <;> simp [bytes, hne, hascii]

theorem bytes_escape (byte : UInt8) (rest : Text) :
    bytes (escape byte ++ rest) = (bytes rest).map (byte :: ·) := by
  have hlt := byte.toNat_lt
  unfold escape
  split_ifs with hbyte
  · obtain ⟨-, hne, hascii⟩ := isUnreserved_toUInt16 hbyte
    rw [List.singleton_append, bytes_plain hne hascii, UInt8.toUInt8_toUInt16]
  · have hhigh := hexValue_hexDigit (byte.toNat / 16) (by omega)
    have hlow := hexValue_hexDigit (byte.toNat % 16) (by omega)
    have hbyte : (16 * (byte.toNat / 16) + byte.toNat % 16).toUInt8 = byte := by
      rw [Nat.div_add_mod]
      exact UInt8.ofNat_toNat
    rw [List.cons_append, List.cons_append, List.cons_append, List.nil_append, bytes, if_pos rfl]
    simp only [hhigh, hlow, hbyte]

theorem bytes_flatMap_escape (data : List UInt8) : bytes (data.flatMap escape) = some data := by
  induction data with
  | nil => rfl
  | cons byte data ih => rw [List.flatMap_cons, bytes_escape, ih, Option.map_some]

theorem encodeURIComponent_eq {t : Text} (h : Utf8.Encodable t) :
    encodeURIComponent t = some ((Utf8.sequences t).flatMap escape) := by
  rw [encodeURIComponent, Utf8.encode, if_pos h]
  rfl

theorem encodeURIComponent_isSome_iff {t : Text} : (encodeURIComponent t).isSome ↔ Utf8.Encodable t := by
  unfold encodeURIComponent Utf8.encode
  split_ifs with h <;> simp [h]

-- A component reads back as the text that it stands for.
theorem decode_encodeURIComponent {t encoded : Text} (h : encodeURIComponent t = some encoded) :
    decode encoded = some t := by
  have ht := encodeURIComponent_isSome_iff.mp (Option.isSome_of_eq_some h)
  rw [encodeURIComponent_eq ht, Option.some.injEq] at h
  subst h
  rw [decode, bytes_flatMap_escape, Option.bind_some, Utf8.strict_sequences ht]

-- And no unit of it has a meaning of its own in a path.
theorem isEscapeUnit_encodeURIComponent {t encoded : Text} (h : encodeURIComponent t = some encoded) :
    ∀ u ∈ encoded, isEscapeUnit u = true := by
  have ht := encodeURIComponent_isSome_iff.mp (Option.isSome_of_eq_some h)
  rw [encodeURIComponent_eq ht, Option.some.injEq] at h
  subst h
  intro u hu
  obtain ⟨byte, -, hu⟩ := List.mem_flatMap.mp hu
  exact isEscapeUnit_escape byte u hu

end Basis.Percent
