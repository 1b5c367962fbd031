import Cosmos3.Basis.Python
import Cosmos3.Basis.Utf8

namespace Basis.Utf8

theorem units_toNat (u : UInt16) : units u.toNat = [u] := by
  have hlt : u.toNat < 65536 := u.toNat_lt
  rw [units, if_pos hlt]
  simp

theorem units_pair {u v : UInt16} (h : 0xD800 ≤ u ∧ u < 0xDC00 ∧ 0xDC00 ≤ v ∧ v < 0xE000) :
    units (0x10000 + (u.toNat - 0xD800) * 0x400 + (v.toNat - 0xDC00)) = [u, v] := by
  have hlow : 55296 ≤ u.toNat := UInt16.le_iff_toNat_le.mp h.1
  have hhigh : u.toNat < 56320 := UInt16.lt_iff_toNat_lt.mp h.2.1
  have hlow' : 56320 ≤ v.toNat := UInt16.le_iff_toNat_le.mp h.2.2.1
  have hhigh' : v.toNat < 57344 := UInt16.lt_iff_toNat_lt.mp h.2.2.2
  have hfirst : 0xD800 + (0x10000 + (u.toNat - 0xD800) * 0x400 + (v.toNat - 0xDC00) - 0x10000) / 0x400 =
      u.toNat := by omega
  have hsecond : 0xDC00 + (0x10000 + (u.toNat - 0xD800) * 0x400 + (v.toNat - 0xDC00) - 0x10000) % 0x400 =
      v.toNat := by omega
  rw [units, if_neg (by omega), hfirst, hsecond]
  simp

end Basis.Utf8

namespace Basis.Python

section Unicode

-- Its characters say what a text is.
theorem codePoints_units (t : Text) : (codePoints t).flatMap Utf8.units = t := by
  induction t using codePoints.induct with
  | case1 => rfl
  | case2 u => rw [codePoints, List.flatMap_singleton, Utf8.units_toNat]
  | case3 u v t hpair ih =>
      rw [codePoints, if_pos hpair, List.flatMap_cons, ih, Utf8.units_pair hpair]
      rfl
  | case4 u v t hpair ih =>
      rw [codePoints, if_neg hpair, List.flatMap_cons, ih, Utf8.units_toNat]
      rfl

theorem codePoints_injective : Function.Injective codePoints :=
  fun s t h => by rw [← codePoints_units s, h, codePoints_units]

theorem codePoints_cons {u : UInt16} (hu : u < 0xD800) (back : Text) :
    codePoints (u :: back) = u.toNat :: codePoints back := by
  cases back with
  | nil => rfl
  | cons v back => rw [codePoints, if_neg fun h => absurd hu (UInt16.not_lt.mpr h.1)]

-- Such a unit is no half of a character, so that the texts around it are read as they are.
theorem codePoints_append {u : UInt16} (hu : u < 0xD800) (front back : Text) :
    codePoints (front ++ u :: back) = codePoints front ++ u.toNat :: codePoints back := by
  induction front using codePoints.induct with
  | case1 => exact codePoints_cons hu back
  | case2 v =>
      have hpair : ¬(0xD800 ≤ v ∧ v < 0xDC00 ∧ 0xDC00 ≤ u ∧ u < 0xE000) := by
        rintro ⟨-, -, h, -⟩
        exact absurd (UInt16.lt_of_lt_of_le hu (by decide)) (UInt16.not_lt.mpr h)
      have hlone : codePoints [v] = [v.toNat] := rfl
      rw [List.singleton_append, hlone, codePoints, if_neg hpair, codePoints_cons hu]
      rfl
  | case3 u v t hpair ih =>
      rw [List.cons_append, List.cons_append, codePoints, if_pos hpair, ih, codePoints, if_pos hpair]
      rfl
  | case4 u v t hpair ih =>
      rw [List.cons_append, List.cons_append, codePoints, if_neg hpair]
      rw [List.cons_append] at ih
      rw [ih, codePoints, if_neg hpair]
      rfl

end Unicode

end Basis.Python

namespace Basis.Utf8

-- The bytes of one character.
def sequence (c : ℕ) : List UInt8 :=
  if c < 0x80 then [c.toUInt8]
  else if c < 0x800 then [(0xC0 + c / 64).toUInt8, (0x80 + c % 64).toUInt8]
  else if c < 0x10000 then
    [(0xE0 + c / 4096).toUInt8, (0x80 + c / 64 % 64).toUInt8, (0x80 + c % 64).toUInt8]
  else
    [(0xF0 + c / 262144).toUInt8, (0x80 + c / 4096 % 64).toUInt8, (0x80 + c / 64 % 64).toUInt8,
      (0x80 + c % 64).toUInt8]

def isScalar (c : ℕ) : Bool := c < 0xD800 || (0xDFFF < c && c < 0x110000)

def sequences (t : Text) : List UInt8 := (Python.codePoints t).flatMap sequence

-- A text with no half of a character.
def Encodable (t : Text) : Prop := (Python.codePoints t).all isScalar = true

instance (t : Text) : Decidable (Encodable t) := inferInstanceAs (Decidable (_ = true))

-- `str.encode()`
def encode (t : Text) : Option (List UInt8) := if Encodable t then some (sequences t) else none

section Sequence

theorem toNat_toUInt8_of_lt {n : ℕ} (h : n < 256) : n.toUInt8.toNat = n := by
  rw [Nat.toUInt8, UInt8.toNat_ofNat']
  omega

theorem toNat_low : (0x80 : UInt8).toNat = 128 := rfl

theorem toNat_high : (0xBF : UInt8).toNat = 191 := rfl

theorem toNat_choice {n : ℕ} {byte bound low high : UInt8} (hbyte : byte.toNat = n) :
    (if byte = bound then low else high).toNat =
      if n = bound.toNat then low.toNat else high.toNat := by
  rw [apply_ite UInt8.toNat, ← hbyte]
  simp only [UInt8.toNat_inj]

-- The first byte says how many are to come, and what the next of them can be.
theorem strict_first {byte : UInt8} {d : Utf8} {bytes : List UInt8} (hd : first byte = (d, []))
    (h : 0xC2 ≤ byte.toNat ∧ byte.toNat ≤ 0xF4) : strict start (byte :: bytes) = strict d bytes := by
  have haccepts : accepts start byte = true := by
    have hlow : (0xC2 : UInt8) ≤ byte := UInt8.le_iff_toNat_le.mpr h.1
    have hhigh : byte ≤ 0xF4 := UInt8.le_iff_toNat_le.mpr h.2
    simp [accepts, start, hlow, hhigh]
  have hzero : start.needed = 0 := rfl
  have hnext : start.next byte = (d, []) := by rw [next, if_pos hzero, hd]
  rw [strict, if_pos haccepts, hnext]
  simp

theorem strict_next {d : Utf8} {byte : UInt8} {bytes : List UInt8} {c : ℕ} (hneeded : 1 < d.needed)
    (h : d.lower.toNat ≤ byte.toNat ∧ byte.toNat ≤ d.upper.toNat)
    (hc : d.codePoint * 64 + byte.toNat % 64 = c) :
    strict d (byte :: bytes) = strict ⟨c, d.needed - 1, 0x80, 0xBF⟩ bytes := by
  subst hc
  have hrange : d.lower ≤ byte ∧ byte ≤ d.upper :=
    ⟨UInt8.le_iff_toNat_le.mpr h.1, UInt8.le_iff_toNat_le.mpr h.2⟩
  have hzero : d.needed ≠ 0 := by omega
  have hone : d.needed ≠ 1 := by omega
  have haccepts : d.accepts byte = true := by
    rw [accepts, if_neg hzero]
    simp [hrange]
  have hnext : d.next byte = (⟨d.codePoint * 64 + byte.toNat % 64, d.needed - 1, 0x80, 0xBF⟩, []) := by
    rw [next, if_neg hzero, if_pos hrange]
    simp only [if_neg hone]
  rw [strict, if_pos haccepts, hnext]
  simp

theorem strict_last {d : Utf8} {byte : UInt8} {bytes : List UInt8} {c : ℕ} (hneeded : d.needed = 1)
    (h : d.lower.toNat ≤ byte.toNat ∧ byte.toNat ≤ d.upper.toNat)
    (hc : d.codePoint * 64 + byte.toNat % 64 = c) :
    strict d (byte :: bytes) = (strict start bytes).map fun t => units c ++ t := by
  subst hc
  have hrange : d.lower ≤ byte ∧ byte ≤ d.upper :=
    ⟨UInt8.le_iff_toNat_le.mpr h.1, UInt8.le_iff_toNat_le.mpr h.2⟩
  have hzero : d.needed ≠ 0 := by omega
  have haccepts : d.accepts byte = true := by
    rw [accepts, if_neg hzero]
    simp [hrange]
  have hnext : d.next byte = (start, [d.codePoint * 64 + byte.toNat % 64]) := by
    rw [next, if_neg hzero, if_pos hrange]
    simp only [if_pos hneeded]
  rw [strict, if_pos haccepts, hnext]
  simp

theorem first_two {byte : UInt8} (h : 0xC2 ≤ byte.toNat ∧ byte.toNat ≤ 0xDF) :
    first byte = (⟨byte.toNat % 32, 1, 0x80, 0xBF⟩, []) := by
  have hascii : ¬byte < 0x80 := by
    rw [UInt8.lt_iff_toNat_lt]
    exact Nat.not_lt.mpr (le_trans (by decide) h.1)
  have htwo : 0xC2 ≤ byte ∧ byte ≤ 0xDF :=
    ⟨UInt8.le_iff_toNat_le.mpr h.1, UInt8.le_iff_toNat_le.mpr h.2⟩
  rw [first, if_neg hascii, if_pos htwo]

theorem first_three {byte : UInt8} (h : 0xE0 ≤ byte.toNat ∧ byte.toNat ≤ 0xEF) :
    first byte = (⟨byte.toNat % 16, 2, if byte = 0xE0 then 0xA0 else 0x80,
      if byte = 0xED then 0x9F else 0xBF⟩, []) := by
  have hascii : ¬byte < 0x80 := by
    rw [UInt8.lt_iff_toNat_lt]
    exact Nat.not_lt.mpr (le_trans (by decide) h.1)
  have htwo : ¬(0xC2 ≤ byte ∧ byte ≤ 0xDF) := fun htwo =>
    absurd (UInt8.le_iff_toNat_le.mp htwo.2) (Nat.not_le.mpr (lt_of_lt_of_le (by decide) h.1))
  have hthree : 0xE0 ≤ byte ∧ byte ≤ 0xEF :=
    ⟨UInt8.le_iff_toNat_le.mpr h.1, UInt8.le_iff_toNat_le.mpr h.2⟩
  rw [first, if_neg hascii, if_neg htwo, if_pos hthree]

theorem first_four {byte : UInt8} (h : 0xF0 ≤ byte.toNat ∧ byte.toNat ≤ 0xF4) :
    first byte = (⟨byte.toNat % 8, 3, if byte = 0xF0 then 0x90 else 0x80,
      if byte = 0xF4 then 0x8F else 0xBF⟩, []) := by
  have hascii : ¬byte < 0x80 := by
    rw [UInt8.lt_iff_toNat_lt]
    exact Nat.not_lt.mpr (le_trans (by decide) h.1)
  have htwo : ¬(0xC2 ≤ byte ∧ byte ≤ 0xDF) := fun htwo =>
    absurd (UInt8.le_iff_toNat_le.mp htwo.2) (Nat.not_le.mpr (lt_of_lt_of_le (by decide) h.1))
  have hthree : ¬(0xE0 ≤ byte ∧ byte ≤ 0xEF) := fun hthree =>
    absurd (UInt8.le_iff_toNat_le.mp hthree.2) (Nat.not_le.mpr (lt_of_lt_of_le (by decide) h.1))
  have hfour : 0xF0 ≤ byte ∧ byte ≤ 0xF4 :=
    ⟨UInt8.le_iff_toNat_le.mpr h.1, UInt8.le_iff_toNat_le.mpr h.2⟩
  rw [first, if_neg hascii, if_neg htwo, if_neg hthree, if_pos hfour]

theorem strict_sequence {c : ℕ} (hc : isScalar c = true) (bytes : List UInt8) :
    strict start (sequence c ++ bytes) = (strict start bytes).map fun t => units c ++ t := by
  have hscalar : c < 0xD800 ∨ 0xDFFF < c ∧ c < 0x110000 := by simpa [isScalar] using hc
  unfold sequence
  split_ifs with hone htwo hthree
  · have hbyte : c.toUInt8.toNat = c := toNat_toUInt8_of_lt (by omega)
    have hlt : c.toUInt8 < 0x80 := by
      rw [UInt8.lt_iff_toNat_lt, hbyte]
      exact hone
    have hzero : start.needed = 0 := rfl
    have haccepts : accepts start c.toUInt8 = true := by
      rw [accepts, if_pos hzero, decide_eq_true hlt, Bool.true_or]
    have hnext : start.next c.toUInt8 = (start, [c]) := by
      rw [next, if_pos hzero, first, if_pos hlt, hbyte]
    rw [List.singleton_append, strict, if_pos haccepts, hnext, List.flatMap_singleton]
  · have hlead : (0xC0 + c / 64).toUInt8.toNat = 0xC0 + c / 64 := toNat_toUInt8_of_lt (by omega)
    have htail : (0x80 + c % 64).toUInt8.toNat = 0x80 + c % 64 := toNat_toUInt8_of_lt (by omega)
    rw [List.cons_append, List.singleton_append, strict_first (first_two (by omega)) (by omega), hlead]
    refine strict_last rfl ?_ ?_
    · rw [htail, toNat_low, toNat_high]
      omega
    · rw [htail]
      dsimp only
      omega
  · have hlead : (0xE0 + c / 4096).toUInt8.toNat = 0xE0 + c / 4096 := toNat_toUInt8_of_lt (by omega)
    have hmiddle : (0x80 + c / 64 % 64).toUInt8.toNat = 0x80 + c / 64 % 64 :=
      toNat_toUInt8_of_lt (by omega)
    have htail : (0x80 + c % 64).toUInt8.toNat = 0x80 + c % 64 := toNat_toUInt8_of_lt (by omega)
    rw [List.cons_append, List.cons_append, List.singleton_append,
      strict_first (first_three (by omega)) (by omega), hlead]
    refine (strict_next (c := c / 64) (Nat.lt_succ_self 1) ?_ ?_).trans (strict_last rfl ?_ ?_)
    · rw [hmiddle, toNat_choice hlead, toNat_choice hlead]
      simp only [UInt8.reduceToNat]
      constructor
      all_goals
        split_ifs
        all_goals omega
    · rw [hmiddle]
      dsimp only
      omega
    · rw [htail, toNat_low, toNat_high]
      omega
    · rw [htail]
      dsimp only
      omega
  · have hlead : (0xF0 + c / 262144).toUInt8.toNat = 0xF0 + c / 262144 :=
      toNat_toUInt8_of_lt (by omega)
    have hsecond : (0x80 + c / 4096 % 64).toUInt8.toNat = 0x80 + c / 4096 % 64 :=
      toNat_toUInt8_of_lt (by omega)
    have hthird : (0x80 + c / 64 % 64).toUInt8.toNat = 0x80 + c / 64 % 64 :=
      toNat_toUInt8_of_lt (by omega)
    have htail : (0x80 + c % 64).toUInt8.toNat = 0x80 + c % 64 := toNat_toUInt8_of_lt (by omega)
    rw [List.cons_append, List.cons_append, List.cons_append, List.singleton_append,
      strict_first (first_four (by omega)) (by omega), hlead]
    refine (strict_next (c := c / 4096) (Nat.lt_add_left 1 (Nat.lt_succ_self 1)) ?_ ?_).trans
      ((strict_next (c := c / 64) (Nat.lt_succ_self 1) ?_ ?_).trans (strict_last rfl ?_ ?_))
    · rw [hsecond, toNat_choice hlead, toNat_choice hlead]
      simp only [UInt8.reduceToNat]
      constructor
      all_goals
        split_ifs
        all_goals omega
    · rw [hsecond]
      dsimp only
      omega
    · rw [hthird, toNat_low, toNat_high]
      omega
    · rw [hthird]
      dsimp only
      omega
    · rw [htail, toNat_low, toNat_high]
      omega
    · rw [htail]
      dsimp only
      omega

end Sequence

section Encode

theorem strict_flatMap {cs : List ℕ} (h : cs.all isScalar = true) :
    strict start (cs.flatMap sequence) = some (cs.flatMap units) := by
  induction cs with
  | nil => rfl
  | cons c cs ih =>
      rw [List.all_cons, Bool.and_eq_true] at h
      rw [List.flatMap_cons, List.flatMap_cons, strict_sequence h.1, ih h.2, Option.map_some]

theorem strict_sequences {t : Text} (h : Encodable t) : strict start (sequences t) = some t := by
  rw [sequences, strict_flatMap h, Python.codePoints_units]

theorem sequence_ascii {u : UInt16} (hu : u < 0x80) : sequence u.toNat = [u.toUInt8] := by
  have hlt : u.toNat < 0x80 := UInt16.lt_iff_toNat_lt.mp hu
  have hbyte : u.toNat.toUInt8 = u.toUInt8 := by
    apply UInt8.toNat_inj.mp
    rw [toNat_toUInt8_of_lt (by omega), toNat_toUInt8 hu]
  rw [sequence, if_pos hlt, hbyte]

theorem isScalar_ascii {u : UInt16} (hu : u < 0x80) : isScalar u.toNat = true := by
  have hlt : u.toNat < 0x80 := UInt16.lt_iff_toNat_lt.mp hu
  have hscalar : u.toNat < 0xD800 := by omega
  simp [isScalar, hscalar]

-- An ASCII unit is a byte of its own between the texts around it.
theorem sequences_append_cons {u : UInt16} (hu : u < 0x80) (front back : Text) :
    sequences (front ++ u :: back) = sequences front ++ u.toUInt8 :: sequences back := by
  rw [sequences, Python.codePoints_append (UInt16.lt_trans hu (by decide)), List.flatMap_append,
    List.flatMap_cons, sequence_ascii hu]
  rfl

theorem encodable_append_cons {u : UInt16} (hu : u < 0x80) {front back : Text} :
    Encodable (front ++ u :: back) ↔ Encodable front ∧ Encodable back := by
  rw [Encodable, Python.codePoints_append (UInt16.lt_trans hu (by decide)), List.all_append, List.all_cons,
    isScalar_ascii hu, Bool.true_and, Bool.and_eq_true]
  rfl

theorem sequences_ascii_append {front : Text} (hfront : IsAscii front) (back : Text) :
    sequences (front ++ back) = asciiBytes front ++ sequences back := by
  induction front with
  | nil => rfl
  | cons u front ih =>
      have hu := hfront u List.mem_cons_self
      rw [List.cons_append, ← List.nil_append (u :: (front ++ back)), sequences_append_cons hu,
        ih fun v hv => hfront v (List.mem_cons_of_mem u hv)]
      rfl

theorem encodable_ascii_append {front back : Text} (hfront : IsAscii front) :
    Encodable (front ++ back) ↔ Encodable back := by
  induction front with
  | nil => rfl
  | cons u front ih =>
      have hu := hfront u List.mem_cons_self
      rw [List.cons_append, ← List.nil_append (u :: (front ++ back)), encodable_append_cons hu,
        ih fun v hv => hfront v (List.mem_cons_of_mem u hv)]
      exact and_iff_right rfl

theorem sequences_append_ascii {back : Text} (hback : IsAscii back) (front : Text) :
    sequences (front ++ back) = sequences front ++ asciiBytes back := by
  cases back with
  | nil => simp [asciiBytes]
  | cons u back =>
      have hrest := sequences_ascii_append (fun v hv => hback v (List.mem_cons_of_mem u hv)) []
      rw [List.append_nil] at hrest
      rw [sequences_append_cons (hback u List.mem_cons_self), hrest]
      simp [sequences, Python.codePoints, asciiBytes]

theorem sequences_append_ascii_append {middle : Text} (hmiddle : IsAscii middle) (hne : middle ≠ [])
    (front back : Text) :
    sequences (front ++ (middle ++ back)) = sequences front ++ (asciiBytes middle ++ sequences back) := by
  cases middle with
  | nil => exact absurd rfl hne
  | cons u middle =>
      rw [List.cons_append, sequences_append_cons (hmiddle u List.mem_cons_self),
        sequences_ascii_append fun v hv => hmiddle v (List.mem_cons_of_mem u hv)]
      rfl

theorem encodable_append_ascii_append {middle : Text} (hmiddle : IsAscii middle) (hne : middle ≠ [])
    {front back : Text} : Encodable (front ++ (middle ++ back)) ↔ Encodable front ∧ Encodable back := by
  cases middle with
  | nil => exact absurd rfl hne
  | cons u middle =>
      rw [List.cons_append, encodable_append_cons (hmiddle u List.mem_cons_self),
        encodable_ascii_append fun v hv => hmiddle v (List.mem_cons_of_mem u hv)]

-- The bytes below 0x80 are the units of the text.
theorem mem_of_mem_sequences {t : Text} {u : UInt16} (ht : Encodable t) (hu : u < 0x80)
    (h : u.toUInt8 ∈ sequences t) : u ∈ t := by
  have hlt : u.toNat < 0x80 := UInt16.lt_iff_toNat_lt.mp hu
  obtain ⟨c, hc, hbyte⟩ := List.mem_flatMap.mp h
  have hscalar : isScalar c = true := List.all_eq_true.mp ht c hc
  have hbound : c < 0x110000 := by
    simp only [isScalar, Bool.or_eq_true, Bool.and_eq_true, decide_eq_true_eq] at hscalar
    omega
  have hnat : c = u.toNat := by
    unfold sequence at hbyte
    split_ifs at hbyte with hone htwo hthree
    all_goals
      simp only [List.mem_cons, List.not_mem_nil, or_false, ← UInt8.toNat_inj, toNat_toUInt8 hu,
        Nat.toUInt8, UInt8.toNat_ofNat'] at hbyte
      omega
  have hunit : u ∈ (Python.codePoints t).flatMap units :=
    List.mem_flatMap.mpr ⟨c, hc, by rw [hnat, units_toNat]; exact List.mem_singleton_self u⟩
  rwa [Python.codePoints_units] at hunit

end Encode

end Basis.Utf8
