import Cosmos3.Basis.Python

namespace Basis.Base64

-- Why a text is not base64 in the strict mode of the decoder. The first is the
-- error of a text that is not ASCII, before anything is decoded.
inductive DecodeError where
  | notAscii
  | leadingPadding
  | excessData
  | badCharacter
  | discontinuousPadding
  | oneCharacter (dataCharacters : Nat)
  | incorrectPadding
deriving DecidableEq, Repr

def DecodeError.message : DecodeError → Text
  | .notAscii => ascii "string argument should contain only ASCII characters"
  | .leadingPadding => ascii "Leading padding not allowed"
  | .excessData => ascii "Excess data after padding"
  | .badCharacter => ascii "Only base64 data is allowed"
  | .discontinuousPadding => ascii "Discontinuous padding not allowed"
  | .oneCharacter dataCharacters =>
      ascii "Invalid base64-encoded string: number of data characters (" ++
        decimal dataCharacters ++ ascii ") cannot be 1 more than a multiple of 4"
  | .incorrectPadding => ascii "Incorrect padding"

def pad : UInt16 := 61

def sextet (u : UInt16) : Option Nat :=
  if 65 ≤ u ∧ u ≤ 90 then some (u.toNat - 65)
  else if 97 ≤ u ∧ u ≤ 122 then some (u.toNat - 71)
  else if 48 ≤ u ∧ u ≤ 57 then some (u.toNat + 4)
  else if u = 43 then some 62
  else if u = 47 then some 63
  else none

-- The decoder between two characters: what is written, where it stands in a
-- group of four, the bits left over, and the paddings seen.
structure Decoder where
  written : List UInt8
  quadPos : Nat
  leftchar : Nat
  pads : Nat
  paddingStarted : Bool

def Decoder.start : Decoder := ⟨[], 0, 0, 0, false⟩

def Decoder.push (d : Decoder) (value : Nat) : Decoder :=
  match d.quadPos with
  | 0 => { d with quadPos := 1, leftchar := value, pads := 0 }
  | 1 => { d with
      quadPos := 2, leftchar := value % 16, pads := 0
      written := d.written ++ [(d.leftchar * 4 + value / 16).toUInt8] }
  | 2 => { d with
      quadPos := 3, leftchar := value % 4, pads := 0
      written := d.written ++ [(d.leftchar * 16 + value / 4).toUInt8] }
  | _ => { d with
      quadPos := 0, leftchar := 0, pads := 0
      written := d.written ++ [(d.leftchar * 64 + value).toUInt8] }

-- At the end of the text a group must be whole.
def Decoder.finish (d : Decoder) : Except DecodeError (List UInt8) :=
  if d.quadPos = 0 then .ok d.written
  else if d.quadPos = 1 then .error (.oneCharacter (d.written.length / 3 * 4 + 1))
  else .error .incorrectPadding

def Decoder.run (d : Decoder) : Text → Except DecodeError (List UInt8)
  | [] => d.finish
  | u :: t =>
    if u = pad then
      let d := { d with paddingStarted := true }
      if 2 ≤ d.quadPos ∧ 4 ≤ d.quadPos + d.pads + 1 then
        -- A pad sequence ends the text.
        if t = [] then .ok d.written else .error .excessData
      else run { d with pads := if 2 ≤ d.quadPos then d.pads + 1 else d.pads } t
    else
      match sextet u with
      | none => .error .badCharacter
      | some value =>
        if d.paddingStarted then .error .discontinuousPadding else run (d.push value) t

-- `base64.b64decode(text, validate=True)`
def b64decode (text : Text) : Except DecodeError (List UInt8) :=
  if text.all (· < 128) then
    if text.head? = some pad then .error .leadingPadding else Decoder.start.run text
  else .error .notAscii

section Encode

-- The character of a sextet.
def symbol (n : ℕ) : UInt16 :=
  if n < 26 then (n + 65).toUInt16
  else if n < 52 then (n + 71).toUInt16
  else if n < 62 then (n - 4).toUInt16
  else if n = 62 then 43
  else 47

-- `base64.b64encode`
def b64encode : List UInt8 → Text
  | [] => []
  | [a] => [symbol (a.toNat / 4), symbol (a.toNat % 4 * 16), pad, pad]
  | [a, b] =>
      [symbol (a.toNat / 4), symbol (a.toNat % 4 * 16 + b.toNat / 16), symbol (b.toNat % 16 * 4), pad]
  | a :: b :: c :: bytes =>
      symbol (a.toNat / 4) :: symbol (a.toNat % 4 * 16 + b.toNat / 16) ::
        symbol (b.toNat % 16 * 4 + c.toNat / 64) :: symbol (c.toNat % 64) :: b64encode bytes

theorem symbol_spec : ∀ n : Fin 64,
    sextet (symbol n) = some n.val ∧ symbol n ≠ pad ∧ symbol n < 128 := by
  decide

theorem symbol_lt_of_lt {n : ℕ} (h : n < 64) : symbol n < 128 := (symbol_spec ⟨n, h⟩).2.2

section Group

variable {n : ℕ} (hn : n < 64) (written : List UInt8) (leftchar pads : ℕ) (t : Text)

include hn

theorem run_symbol (d : Decoder) (hd : d.paddingStarted = false) :
    d.run (symbol n :: t) = (d.push n).run t := by
  obtain ⟨hsextet, hpad, -⟩ := symbol_spec ⟨n, hn⟩
  rw [Decoder.run, if_neg hpad, hsextet]
  dsimp only
  rw [hd]
  rfl

theorem run_first : Decoder.run ⟨written, 0, leftchar, pads, false⟩ (symbol n :: t) =
    Decoder.run ⟨written, 1, n, 0, false⟩ t := run_symbol hn t _ rfl

variable {a : UInt8}

omit hn in
theorem toUInt8_eq (h : n = a.toNat) : n.toUInt8 = a := by
  rw [h]
  exact UInt8.ofNat_toNat

theorem run_second (h : leftchar * 4 + n / 16 = a.toNat) :
    Decoder.run ⟨written, 1, leftchar, pads, false⟩ (symbol n :: t) =
      Decoder.run ⟨written ++ [a], 2, n % 16, 0, false⟩ t := by
  rw [← toUInt8_eq h]
  exact run_symbol hn t _ rfl

theorem run_third (h : leftchar * 16 + n / 4 = a.toNat) :
    Decoder.run ⟨written, 2, leftchar, pads, false⟩ (symbol n :: t) =
      Decoder.run ⟨written ++ [a], 3, n % 4, 0, false⟩ t := by
  rw [← toUInt8_eq h]
  exact run_symbol hn t _ rfl

theorem run_fourth (h : leftchar * 64 + n = a.toNat) :
    Decoder.run ⟨written, 3, leftchar, pads, false⟩ (symbol n :: t) =
      Decoder.run ⟨written ++ [a], 0, 0, 0, false⟩ t := by
  rw [← toUInt8_eq h]
  exact run_symbol hn t _ rfl

end Group

-- A group of four characters gives back its three bytes, and a last group, with its
-- padding, the one or two that were left.
theorem run_b64encode (bytes : List UInt8) : ∀ (written : List UInt8) (leftchar pads : ℕ),
    Decoder.run ⟨written, 0, leftchar, pads, false⟩ (b64encode bytes) = .ok (written ++ bytes) := by
  induction bytes using b64encode.induct with
  | case1 =>
      intro written leftchar pads
      rw [b64encode, List.append_nil]
      rfl
  | case2 a =>
      intro written leftchar pads
      have ha : a.toNat < 256 := a.toNat_lt
      have h1 : a.toNat / 4 < 64 := by omega
      have h2 : a.toNat % 4 * 16 < 64 := by omega
      rw [b64encode, run_first h1, run_second h2 (a := a) _ _ _ _ (by omega)]
      rfl
  | case3 a b =>
      intro written leftchar pads
      have ha : a.toNat < 256 := a.toNat_lt
      have hb : b.toNat < 256 := b.toNat_lt
      have h1 : a.toNat / 4 < 64 := by omega
      have h2 : a.toNat % 4 * 16 + b.toNat / 16 < 64 := by omega
      have h3 : b.toNat % 16 * 4 < 64 := by omega
      rw [b64encode, run_first h1, run_second h2 (a := a) _ _ _ _ (by omega),
        run_third h3 (a := b) _ _ _ _ (by omega), List.append_assoc]
      rfl
  | case4 a b c bytes ih =>
      intro written leftchar pads
      have ha : a.toNat < 256 := a.toNat_lt
      have hb : b.toNat < 256 := b.toNat_lt
      have hc : c.toNat < 256 := c.toNat_lt
      have h1 : a.toNat / 4 < 64 := by omega
      have h2 : a.toNat % 4 * 16 + b.toNat / 16 < 64 := by omega
      have h3 : b.toNat % 16 * 4 + c.toNat / 64 < 64 := by omega
      have h4 : c.toNat % 64 < 64 := by omega
      rw [b64encode, run_first h1, run_second h2 (a := a) _ _ _ _ (by omega),
        run_third h3 (a := b) _ _ _ _ (by omega), run_fourth h4 (a := c) _ _ _ _ (by omega), ih,
        List.append_assoc, List.append_assoc, List.append_assoc]
      rfl

theorem b64encode_lt (bytes : List UInt8) : ∀ u ∈ b64encode bytes, u < 128 := by
  have hpad : pad < 128 := by decide
  induction bytes using b64encode.induct with
  | case1 => simp [b64encode]
  | case2 a =>
      have ha := a.toNat_lt
      simp only [b64encode, List.forall_mem_cons]
      exact ⟨symbol_lt_of_lt (by omega), symbol_lt_of_lt (by omega), hpad, hpad, by simp⟩
  | case3 a b =>
      have ha := a.toNat_lt
      have hb := b.toNat_lt
      simp only [b64encode, List.forall_mem_cons]
      exact ⟨symbol_lt_of_lt (by omega), symbol_lt_of_lt (by omega), symbol_lt_of_lt (by omega), hpad, by simp⟩
  | case4 a b c bytes ih =>
      have ha := a.toNat_lt
      have hb := b.toNat_lt
      have hc := c.toNat_lt
      simp only [b64encode, List.forall_mem_cons]
      exact ⟨symbol_lt_of_lt (by omega), symbol_lt_of_lt (by omega), symbol_lt_of_lt (by omega),
        symbol_lt_of_lt (by omega), ih⟩

theorem head?_b64encode (bytes : List UInt8) : (b64encode bytes).head? ≠ some pad := by
  have hne : ∀ n, n < 64 → some (symbol n) ≠ some pad := fun n hn h =>
    (symbol_spec ⟨n, hn⟩).2.1 (Option.some.inj h)
  induction bytes using b64encode.induct with
  | case1 => simp [b64encode]
  | case2 a | case3 a | case4 a =>
      have ha := a.toNat_lt
      rw [b64encode, List.head?_cons]
      exact hne _ (by omega)

theorem b64decode_b64encode (bytes : List UInt8) : b64decode (b64encode bytes) = .ok bytes := by
  have hascii : (b64encode bytes).all (· < 128) = true := by
    simpa using b64encode_lt bytes
  rw [b64decode, if_pos hascii, if_neg (head?_b64encode bytes)]
  exact run_b64encode bytes [] 0 0

end Encode

end Basis.Base64
