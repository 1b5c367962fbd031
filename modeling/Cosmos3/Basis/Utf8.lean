import Cosmos3.Basis.Text

namespace Basis

-- A streaming UTF-8 decoder. Inside a sequence `needed` bytes are to come, the
-- next of them between `lower` and `upper`.
structure Utf8 where
  codePoint : Nat
  needed : Nat
  lower : UInt8
  upper : UInt8

namespace Utf8

def start : Utf8 := ⟨0, 0, 0x80, 0xBF⟩

def replacement : Nat := 0xFFFD

def byteOrderMark : Nat := 0xFEFF

def first (byte : UInt8) : Utf8 × List Nat :=
  if byte < 0x80 then (start, [byte.toNat])
  else if 0xC2 ≤ byte ∧ byte ≤ 0xDF then (⟨byte.toNat % 32, 1, 0x80, 0xBF⟩, [])
  else if 0xE0 ≤ byte ∧ byte ≤ 0xEF then
    (⟨byte.toNat % 16, 2, if byte = 0xE0 then 0xA0 else 0x80,
      if byte = 0xED then 0x9F else 0xBF⟩, [])
  else if 0xF0 ≤ byte ∧ byte ≤ 0xF4 then
    (⟨byte.toNat % 8, 3, if byte = 0xF0 then 0x90 else 0x80,
      if byte = 0xF4 then 0x8F else 0xBF⟩, [])
  else (start, [replacement])

-- A byte that cannot go on the sequence ends it and is read again as a first one.
def next (d : Utf8) (byte : UInt8) : Utf8 × List Nat :=
  if d.needed = 0 then first byte
  else if d.lower ≤ byte ∧ byte ≤ d.upper then
    let codePoint := d.codePoint * 64 + byte.toNat % 64
    if d.needed = 1 then (start, [codePoint]) else (⟨codePoint, d.needed - 1, 0x80, 0xBF⟩, [])
  else ((first byte).1, replacement :: (first byte).2)

def codePoints (d : Utf8) : List UInt8 → Utf8 × List Nat
  | [] => (d, [])
  | byte :: bytes =>
    let here := next d byte
    let rest := codePoints here.1 bytes
    (rest.1, here.2 ++ rest.2)

def units (codePoint : Nat) : Text :=
  if codePoint < 0x10000 then [codePoint.toUInt16]
  else [(0xD800 + (codePoint - 0x10000) / 0x400).toUInt16,
    (0xDC00 + (codePoint - 0x10000) % 0x400).toUInt16]

-- Whether a byte can come next, where an error is an exception.
def accepts (d : Utf8) (byte : UInt8) : Bool :=
  if d.needed = 0 then byte < 0x80 || (0xC2 ≤ byte && byte ≤ 0xF4)
  else d.lower ≤ byte && byte ≤ d.upper

-- `bytes.decode()`, which takes no byte sequence that is not UTF-8.
def strict (d : Utf8) : List UInt8 → Option Text
  | [] => if d.needed = 0 then some [] else none
  | byte :: bytes =>
    if d.accepts byte then
      (strict (d.next byte).1 bytes).map fun t => (d.next byte).2.flatMap units ++ t
    else none

section Settled

-- Between two characters nothing is in hand.
def Settled (d : Utf8) : Prop := d.needed = 0 → d = start

theorem settled_first (byte : UInt8) : Settled (first byte).1 := by
  unfold first Settled
  split_ifs
  all_goals simp [start]

theorem settled_next (d : Utf8) (byte : UInt8) : Settled (d.next byte).1 := by
  unfold next
  by_cases hstart : d.needed = 0
  · rw [if_pos hstart]
    exact settled_first byte
  · rw [if_neg hstart]
    by_cases hrange : d.lower ≤ byte ∧ byte ≤ d.upper
    · rw [if_pos hrange]
      by_cases hlast : d.needed = 1
      · rw [if_pos hlast]
        exact fun _ => rfl
      · rw [if_neg hlast]
        intro hzero
        have hzero : d.needed - 1 = 0 := hzero
        omega
    · rw [if_neg hrange]
      exact settled_first byte

theorem settled_codePoints {d : Utf8} (hd : d.Settled) (bytes : List UInt8) :
    Settled (d.codePoints bytes).1 := by
  induction bytes generalizing d with
  | nil => exact hd
  | cons byte bytes ih => exact ih (settled_next d byte)

end Settled

end Utf8

-- `TextDecoder`: a byte order mark that comes first is left out.
structure TextDecoder where
  utf8 : Utf8
  markSeen : Bool

namespace TextDecoder

def new : TextDecoder := ⟨.start, false⟩

def withoutMark (decoder : TextDecoder) (codePoints : List Nat) : List Nat :=
  if decoder.markSeen then codePoints
  else match codePoints with
    | [] => []
    | codePoint :: rest =>
      if codePoint = Utf8.byteOrderMark then rest else codePoint :: rest

-- `decode(bytes, { stream: true })`.
def decode (decoder : TextDecoder) (bytes : List UInt8) : TextDecoder × Text :=
  let read := decoder.utf8.codePoints bytes
  (⟨read.1, decoder.markSeen || !read.2.isEmpty⟩,
    (decoder.withoutMark read.2).flatMap Utf8.units)

end TextDecoder

def IsAscii (t : Text) : Prop := ∀ u ∈ t, u < 0x80

instance (t : Text) : Decidable (IsAscii t) := List.decidableBAll (· < 0x80) t

-- The bytes of an ASCII text.
def asciiBytes (t : Text) : List UInt8 := t.map UInt16.toUInt8

theorem IsAscii.append {first second : Text} (h₁ : IsAscii first) (h₂ : IsAscii second) :
    IsAscii (first ++ second) := by
  intro u hu
  rcases List.mem_append.mp hu with hu | hu
  · exact h₁ u hu
  · exact h₂ u hu

section Ascii

theorem toNat_toUInt8 {u : UInt16} (h : u < 0x80) : u.toUInt8.toNat = u.toNat := by
  have hlt : u.toNat < 128 := UInt16.lt_iff_toNat_lt.mp h
  rw [UInt16.toNat_toUInt8]
  omega

theorem codePoints_ascii {d : Utf8} (hd : d.needed = 0) {t : Text} (h : IsAscii t) :
    (d.codePoints (asciiBytes t)).1.needed = 0 ∧
      (d.codePoints (asciiBytes t)).2 = t.map UInt16.toNat := by
  induction t generalizing d with
  | nil => exact ⟨hd, rfl⟩
  | cons u t ih =>
      have hu : u < 0x80 := h u List.mem_cons_self
      have hnat := toNat_toUInt8 hu
      have hbyte : u.toUInt8 < 0x80 := by
        rw [UInt8.lt_iff_toNat_lt, hnat]
        exact UInt16.lt_iff_toNat_lt.mp hu
      have hnext : d.next u.toUInt8 = (Utf8.start, [u.toNat]) := by
        rw [Utf8.next, if_pos hd, Utf8.first, if_pos hbyte, hnat]
      have hrest := ih (d := Utf8.start) rfl fun v hv => h v (List.mem_cons_of_mem u hv)
      simp only [asciiBytes, List.map_cons, Utf8.codePoints] at hrest ⊢
      rw [hnext]
      exact ⟨hrest.1, by rw [hrest.2]; rfl⟩

theorem next_ascii {d : Utf8} (hd : d.needed = 0) {u : UInt16} (hu : u < 0x80) :
    d.accepts u.toUInt8 = true ∧ d.next u.toUInt8 = (Utf8.start, [u.toNat]) ∧ Utf8.units u.toNat = [u] := by
  have hnat := toNat_toUInt8 hu
  have hbyte : u.toUInt8 < 0x80 := by
    rw [UInt8.lt_iff_toNat_lt, hnat]
    exact UInt16.lt_iff_toNat_lt.mp hu
  have hlt : u.toNat < 65536 := u.toNat_lt
  refine ⟨?_, ?_, ?_⟩
  · rw [Utf8.accepts, if_pos hd, decide_eq_true hbyte, Bool.true_or]
  · rw [Utf8.next, if_pos hd, Utf8.first, if_pos hbyte, hnat]
  · rw [Utf8.units, if_pos hlt]
    simp

theorem strict_ascii {t : Text} (h : IsAscii t) : Utf8.strict .start (asciiBytes t) = some t := by
  induction t with
  | nil => rfl
  | cons u t ih =>
      obtain ⟨haccepts, hnext, hunits⟩ := next_ascii (d := Utf8.start) rfl (h u List.mem_cons_self)
      have hrest := ih fun v hv => h v (List.mem_cons_of_mem u hv)
      rw [asciiBytes] at hrest
      rw [asciiBytes, List.map_cons, Utf8.strict, if_pos haccepts, hnext, hrest, Option.map_some,
        List.flatMap_singleton, hunits]
      rfl

theorem asciiBytes_inj {s t : Text} (hs : IsAscii s) (ht : IsAscii t) :
    asciiBytes s = asciiBytes t ↔ s = t := by
  refine ⟨fun h => ?_, congrArg asciiBytes⟩
  have hread := strict_ascii hs
  rw [h, strict_ascii ht] at hread
  exact (Option.some.inj hread).symm

theorem flatMap_units {t : Text} (h : IsAscii t) : (t.map UInt16.toNat).flatMap Utf8.units = t := by
  induction t with
  | nil => rfl
  | cons u t ih =>
      have hlt : u.toNat < 65536 := u.toNat_lt
      have hunit : Utf8.units u.toNat = [u] := by
        rw [Utf8.units, if_pos hlt]
        simp
      rw [List.map_cons, List.flatMap_cons, hunit, ih fun v hv => h v (List.mem_cons_of_mem u hv)]
      rfl

-- ASCII bytes are decoded to themselves, whatever the cuts between the calls.
theorem decode_ascii {decoder : TextDecoder} (hd : decoder.utf8.needed = 0) {t : Text}
    (h : IsAscii t) :
    (decoder.decode (asciiBytes t)).1.utf8.needed = 0 ∧ (decoder.decode (asciiBytes t)).2 = t := by
  obtain ⟨hneeded, hpoints⟩ := codePoints_ascii hd h
  refine ⟨hneeded, ?_⟩
  have hmark : decoder.withoutMark (t.map UInt16.toNat) = t.map UInt16.toNat := by
    unfold TextDecoder.withoutMark
    split
    · rfl
    · cases t with
      | nil => rfl
      | cons u t =>
          have hu : u.toNat < 128 := UInt16.lt_iff_toNat_lt.mp (h u List.mem_cons_self)
          simp only [List.map_cons]
          rw [if_neg (by unfold Utf8.byteOrderMark; omega)]
  simp only [TextDecoder.decode]
  rw [hpoints, hmark, flatMap_units h]

end Ascii

end Basis
