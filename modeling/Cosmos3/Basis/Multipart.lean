import Cosmos3.Basis.Encode

namespace Basis

section Cut

variable {α : Type} [DecidableEq α]

def dropFront (front l : List α) : Option (List α) :=
  if front.isPrefixOf l then some (l.drop front.length) else none

-- What is before and after the first `d`.
def cut (d : List α) : List α → Option (List α × List α)
  | [] => none
  | x :: l =>
    if d.isPrefixOf (x :: l) then some ([], (x :: l).drop d.length)
    else (cut d l).map fun r => (x :: r.1, r.2)

theorem dropFront_append (front l : List α) : dropFront front (front ++ l) = some l := by
  rw [dropFront, if_pos (List.isPrefixOf_iff_prefix.mpr (List.prefix_append front l)), List.drop_left]

-- Without its first element again in it, `d` does not begin inside another `d`.
theorem cut_append {h : α} {t c : List α} (hh : h ∉ t) (hc : ¬(h :: t) <:+: c) (rest : List α) :
    cut (h :: t) (c ++ (h :: t) ++ rest) = some (c, rest) := by
  induction c with
  | nil =>
      have hfront : (h :: t).isPrefixOf (h :: (t ++ rest)) = true :=
        List.isPrefixOf_iff_prefix.mpr ⟨rest, rfl⟩
      rw [List.nil_append, List.cons_append, cut, if_pos hfront, ← List.cons_append, List.drop_left]
  | cons x c ih =>
      have hnot : ¬(h :: t).isPrefixOf (x :: (c ++ (h :: t) ++ rest)) = true := by
        rw [List.isPrefixOf_iff_prefix]
        rintro ⟨back, hback⟩
        rw [List.append_assoc, ← List.cons_append] at hback
        rcases List.append_eq_append_iff.mp hback with ⟨more, hmore, -⟩ | ⟨more, hmore, hrest⟩
        · exact hc ⟨[], more, by rw [List.nil_append, hmore]⟩
        · cases more with
          | nil => exact hc ⟨[], [], by simp [hmore]⟩
          | cons y more =>
              obtain ⟨rfl, -⟩ := List.cons.inj hrest
              obtain ⟨-, rfl⟩ := List.cons.inj hmore
              exact hh (by simp)
      have hrest := ih fun hinfix => hc (List.infix_cons_iff.mpr (.inr hinfix))
      rw [List.cons_append, List.cons_append, cut, if_neg hnot, hrest]
      rfl

omit [DecidableEq α] in
theorem infix_append_cons {d front back : List α} {a : α} (ha : a ∉ d) (h : d <:+: front ++ a :: back) :
    d <:+: front ∨ d <:+: back := by
  induction front with
  | nil =>
      rcases List.infix_cons_iff.mp h with hfirst | hback
      · cases d with
        | nil => exact .inr (List.nil_infix)
        | cons x d =>
            obtain ⟨rfl, -⟩ := List.cons_prefix_cons.mp hfirst
            exact absurd List.mem_cons_self ha
      · exact .inr hback
  | cons x front ih =>
      rcases List.infix_cons_iff.mp h with hfirst | hrest
      · refine .inl (List.IsPrefix.isInfix ?_)
        obtain ⟨rest, hrest⟩ := hfirst
        have hrest : d ++ rest = (x :: front) ++ a :: back := hrest
        rcases List.append_eq_append_iff.mp hrest with ⟨more, hmore, -⟩ | ⟨more, hmore, hback⟩
        · exact ⟨more, hmore.symm⟩
        · cases more with
          | nil => exact ⟨[], by simpa using hmore⟩
          | cons y more =>
              obtain ⟨rfl, -⟩ := List.cons.inj hback
              exact absurd (hmore ▸ List.mem_append_right (x :: front) List.mem_cons_self) ha
      · rcases ih hrest with hfront | hback
        · exact .inl (List.infix_cons_iff.mpr (.inr hfront))
        · exact .inr hback

end Cut

-- Bodies of type multipart/form-data, as RFC 2046 splits them and RFC 7578 names their parts.
namespace Multipart

structure Part where
  name : Text
  filename : Option Text
  contentType : Option Text
  content : List UInt8
deriving DecidableEq

def crlf : List UInt8 := [13, 10]

def dashes : List UInt8 := [45, 45]

def delimiter (boundary : List UInt8) : List UInt8 := crlf ++ (dashes ++ boundary)

-- A space or a tab.
def isPadding (byte : UInt8) : Bool := byte = 32 || byte = 9

-- The parts that follow a delimiter, up to the one that closes the body.
def bodyParts (boundary : List UInt8) : ℕ → List UInt8 → Option (List (List UInt8))
  | 0, _ => none
  | fuel + 1, rest =>
    if dashes.isPrefixOf rest then some []
    else do
      let rest ← dropFront crlf (rest.dropWhile isPadding)
      let (part, rest) ← cut (delimiter boundary) rest
      let parts ← bodyParts boundary fuel rest
      some (part :: parts)

-- The first delimiter has no line before it when there is no preamble.
def multipartBody (boundary body : List UInt8) : Option (List (List UInt8)) := do
  let (_, rest) ← cut (delimiter boundary) (crlf ++ body)
  bodyParts boundary (body.length + 1) rest

-- The header lines of a part and what follows the empty line.
def headerLines : ℕ → List UInt8 → Option (List (List UInt8) × List UInt8)
  | 0, _ => none
  | fuel + 1, rest => do
    let (line, rest) ← cut crlf rest
    if line = [] then some ([], rest)
    else do
      let (lines, content) ← headerLines fuel rest
      some (line :: lines, content)

def lowerByte (byte : UInt8) : UInt8 := if 65 ≤ byte ∧ byte ≤ 90 then byte + 32 else byte

def fieldName (line : List UInt8) : List UInt8 := (line.takeWhile (· ≠ 58)).map lowerByte

def fieldBody (line : List UInt8) : List UInt8 :=
  match (line.dropWhile (· ≠ 58)).drop 1 with
  | 32 :: body => body
  | body => body

def header (lines : List (List UInt8)) (name : String) : Option (List UInt8) :=
  (lines.find? fun line => fieldName line = asciiBytes (ascii name)).map fieldBody

-- The parameters of a header, each a quoted text.
def parameters : ℕ → List UInt8 → Option (List (List UInt8 × List UInt8))
  | 0, _ => none
  | fuel + 1, rest =>
    if rest = [] then some []
    else do
      let rest ← dropFront [59] rest
      let (key, rest) ← cut [61, 34] (rest.dropWhile isPadding)
      let (value, rest) ← cut [34] rest
      let more ← parameters fuel rest
      some ((key, value) :: more)

def parameter (params : List (List UInt8 × List UInt8)) (key : String) : Option (List UInt8) :=
  (params.find? fun entry => entry.1 = asciiBytes (ascii key)).map (·.2)

-- The text of an optional value, which has to be UTF-8 when it is there.
def textOf : Option (List UInt8) → Option (Option Text)
  | none => some none
  | some bytes => (Utf8.strict .start bytes).map some

def formPart (part : List UInt8) : Option Part := do
  let (lines, content) ← headerLines (part.length + 1) part
  let disposition ← header lines "content-disposition"
  let rest ← dropFront (asciiBytes (ascii "form-data")) disposition
  let params ← parameters (rest.length + 1) rest
  let name ← (parameter params "name").bind (Utf8.strict .start)
  let filename ← textOf (parameter params "filename")
  let contentType ← textOf (header lines "content-type")
  some { name := name, filename := filename, contentType := contentType, content := content }

-- The boundary that a content type announces.
def boundaryOf (contentType : Text) : Option (List UInt8) :=
  (dropFront (ascii "multipart/form-data; boundary=") contentType).bind Utf8.encode

def decode (contentType : Text) (body : List UInt8) : Option (List Part) := do
  let boundary ← boundaryOf contentType
  let parts ← multipartBody boundary body
  parts.mapM formPart

section Rules

variable {boundary part rest line content : List UInt8} {fuel : ℕ}

theorem cr_notMem_dashes (hb : 13 ∉ boundary) : 13 ∉ dashes ++ boundary := by
  simp [dashes, hb]

theorem cut_delimiter (hb : 13 ∉ boundary) (hpart : ¬delimiter boundary <:+: part) :
    cut (delimiter boundary) (part ++ delimiter boundary ++ rest) = some (part, rest) :=
  cut_append (by simpa using cr_notMem_dashes hb) hpart rest

theorem cut_crlf (hline : 13 ∉ line) : cut crlf (line ++ crlf ++ rest) = some (line, rest) :=
  cut_append (by decide) (fun h => hline (h.subset List.mem_cons_self)) rest

theorem bodyParts_close : bodyParts boundary (fuel + 1) (dashes ++ rest) = some [] := by
  rw [bodyParts, if_pos (List.isPrefixOf_iff_prefix.mpr (List.prefix_append dashes rest))]

theorem bodyParts_part (hb : 13 ∉ boundary) (hpart : ¬delimiter boundary <:+: part) :
    bodyParts boundary (fuel + 1) (crlf ++ part ++ delimiter boundary ++ rest) =
      (bodyParts boundary fuel rest).map (part :: ·) := by
  have hdashes : ¬dashes.isPrefixOf (crlf ++ part ++ delimiter boundary ++ rest) = true := by
    simp [dashes, crlf, List.isPrefixOf]
  have hpadding : (crlf ++ part ++ delimiter boundary ++ rest).dropWhile isPadding =
      crlf ++ (part ++ delimiter boundary ++ rest) := by
    simp [crlf, isPadding]
  rw [bodyParts, if_neg hdashes, hpadding, dropFront_append]
  simp only [Option.bind_eq_bind, Option.bind_some, cut_delimiter hb hpart]
  cases bodyParts boundary fuel rest <;> rfl

-- A body of these parts, without a preamble.
def assemble (boundary : List UInt8) (parts : List (List UInt8)) : List UInt8 :=
  dashes ++ boundary ++ (parts.flatMap fun part => crlf ++ part ++ delimiter boundary) ++ dashes ++ crlf

theorem bodyParts_assemble {parts : List (List UInt8)} (hb : 13 ∉ boundary)
    (hparts : ∀ part ∈ parts, ¬delimiter boundary <:+: part) (hfuel : parts.length < fuel) :
    bodyParts boundary fuel
      ((parts.flatMap fun part => crlf ++ part ++ delimiter boundary) ++ (dashes ++ crlf)) =
        some parts := by
  induction parts generalizing fuel with
  | nil =>
      obtain ⟨fuel, rfl⟩ := Nat.exists_eq_succ_of_ne_zero (Nat.ne_of_gt hfuel)
      exact bodyParts_close
  | cons part parts ih =>
      obtain ⟨fuel, rfl⟩ := Nat.exists_eq_succ_of_ne_zero (Nat.ne_of_gt (Nat.zero_lt_of_lt hfuel))
      obtain ⟨hpart, hparts⟩ := List.forall_mem_cons.mp hparts
      rw [List.flatMap_cons, List.append_assoc, bodyParts_part hb hpart,
        ih hparts (Nat.lt_of_succ_lt_succ hfuel)]
      rfl

theorem length_le_flatMap {α β : Type} {f : α → List β} (hf : ∀ a, f a ≠ []) (l : List α) :
    l.length ≤ (l.flatMap f).length := by
  induction l with
  | nil => exact Nat.le_refl 0
  | cons a l ih =>
      have hpos := List.length_pos_of_ne_nil (hf a)
      rw [List.flatMap_cons, List.length_append, List.length_cons]
      omega

-- Splitting a body finds its parts, whatever line ends they hold.
theorem multipartBody_assemble {parts : List (List UInt8)} (hb : 13 ∉ boundary)
    (hparts : ∀ part ∈ parts, ¬delimiter boundary <:+: part) :
    multipartBody boundary (assemble boundary parts) = some parts := by
  have hbody : crlf ++ assemble boundary parts = [] ++ delimiter boundary ++
      ((parts.flatMap fun part => crlf ++ part ++ delimiter boundary) ++ (dashes ++ crlf)) := by
    simp [assemble, delimiter]
  have hempty : ¬delimiter boundary <:+: [] := by simp [delimiter, crlf]
  have hlength : parts.length < (assemble boundary parts).length + 1 := by
    have hle := length_le_flatMap (f := fun part => crlf ++ part ++ delimiter boundary)
      (by simp [crlf]) parts
    simp only [assemble, List.length_append]
    omega
  rw [multipartBody, hbody, cut_delimiter hb hempty]
  exact bodyParts_assemble hb hparts hlength

-- A boundary line begins with none of a line end, so that it is on one side of it.
theorem infix_append_crlf {front back : List UInt8} (hb : 13 ∉ boundary)
    (h : (dashes ++ boundary) <:+: front ++ (crlf ++ back)) :
    (dashes ++ boundary) <:+: front ∨ (dashes ++ boundary) <:+: back := by
  rcases infix_append_cons (cr_notMem_dashes hb) h with hfront | hback
  · exact .inl hfront
  · rcases List.infix_cons_iff.mp hback with hfirst | hback
    · obtain ⟨hbyte, -⟩ := List.cons_prefix_cons.mp hfirst
      exact absurd hbyte (by decide)
    · exact .inr hback

def partBytes (lines : List (List UInt8)) (content : List UInt8) : List UInt8 :=
  (lines.flatMap fun line => line ++ crlf) ++ (crlf ++ content)

theorem infix_partBytes {lines : List (List UInt8)} (hb : 13 ∉ boundary)
    (h : (dashes ++ boundary) <:+: partBytes lines content) :
    (∃ line ∈ lines, (dashes ++ boundary) <:+: line) ∨ (dashes ++ boundary) <:+: content := by
  induction lines with
  | nil =>
      have h : (dashes ++ boundary) <:+: [] ++ (crlf ++ content) := h
      rcases infix_append_crlf hb h with hempty | hcontent
      · exact absurd (List.infix_nil.mp hempty) (by simp [dashes])
      · exact .inr hcontent
  | cons line lines ih =>
      rw [partBytes, List.flatMap_cons, List.append_assoc, List.append_assoc] at h
      rcases infix_append_crlf hb h with hline | hrest
      · exact .inl ⟨line, List.mem_cons_self, hline⟩
      · rcases ih hrest with ⟨other, hother, hinfix⟩ | hcontent
        · exact .inl ⟨other, List.mem_cons_of_mem line hother, hinfix⟩
        · exact .inr hcontent

theorem delimiter_notInfix {lines : List (List UInt8)} (hb : 13 ∉ boundary)
    (hlines : ∀ line ∈ lines, ¬(dashes ++ boundary) <:+: line)
    (hcontent : ¬(dashes ++ boundary) <:+: content) :
    ¬delimiter boundary <:+: partBytes lines content := by
  intro h
  have hdashes : (dashes ++ boundary) <:+: delimiter boundary := (List.suffix_append crlf _).isInfix
  rcases infix_partBytes hb (hdashes.trans h) with ⟨line, hline, hinfix⟩ | hinfix
  · exact hlines line hline hinfix
  · exact hcontent hinfix

theorem flatMap_rotate {α β : Type} (d : List β) (g : α → List β) (l : List α) :
    (l.flatMap fun a => d ++ g a) ++ d = d ++ l.flatMap fun a => g a ++ d := by
  induction l with
  | nil => simp
  | cons a l ih => rw [List.flatMap_cons, List.append_assoc, ih, List.flatMap_cons]; simp

theorem append_intercalate {α : Type} (d : List α) (first : List α) (l : List (List α)) :
    d ++ d.intercalate (first :: l) = (first :: l).flatMap (d ++ ·) := by
  induction l generalizing first with
  | nil => simp
  | cons second l ih => rw [List.intercalate_cons_cons, List.flatMap_cons, ← ih]; simp

-- The lines of a form, joined: each field has its boundary line, its header lines, an empty
-- line and its content.
theorem intercalate_eq_assemble (boundary : List UInt8) (fields : List (List (List UInt8) × List UInt8)) :
    crlf.intercalate
      ((fields.flatMap fun field => (dashes ++ boundary) :: field.1 ++ [[], field.2]) ++
        [dashes ++ boundary ++ dashes, []]) =
      assemble boundary (fields.map fun field => partBytes field.1 field.2) := by
  have hfield : ∀ field : List (List UInt8) × List UInt8,
      ((dashes ++ boundary) :: field.1 ++ [[], field.2]).flatMap (crlf ++ ·) =
        delimiter boundary ++ (crlf ++ partBytes field.1 field.2) := by
    intro field
    have hrotate := flatMap_rotate crlf id field.1
    simp only [id] at hrotate
    simp only [partBytes, delimiter, List.cons_append, List.flatMap_cons, List.flatMap_append,
      List.flatMap_nil, List.append_nil, List.append_assoc]
    rw [← List.append_assoc (List.flatMap _ _) crlf, hrotate]
    simp
  have hlines : crlf ++ crlf.intercalate
      ((fields.flatMap fun field => (dashes ++ boundary) :: field.1 ++ [[], field.2]) ++
        [dashes ++ boundary ++ dashes, []]) =
      ((fields.flatMap fun field => (dashes ++ boundary) :: field.1 ++ [[], field.2]) ++
        [dashes ++ boundary ++ dashes, []]).flatMap (crlf ++ ·) := by
    cases fields with
    | nil => exact append_intercalate crlf _ _
    | cons field fields => exact append_intercalate crlf _ _
  have hlast : [dashes ++ boundary ++ dashes, []].flatMap (crlf ++ ·) =
      delimiter boundary ++ (dashes ++ crlf) := by simp [delimiter]
  have hassemble : crlf ++ assemble boundary (fields.map fun field => partBytes field.1 field.2) =
      (delimiter boundary ++ fields.flatMap fun field =>
        (crlf ++ partBytes field.1 field.2) ++ delimiter boundary) ++ (dashes ++ crlf) := by
    simp [assemble, delimiter, List.flatMap_map]
  refine List.append_cancel_left (?_ : crlf ++ _ = crlf ++ _)
  rw [hlines, List.flatMap_append, List.flatMap_assoc, hlast, hassemble]
  simp only [hfield]
  rw [← List.append_assoc, flatMap_rotate]

theorem headerLines_assemble {lines : List (List UInt8)} (hlines : ∀ line ∈ lines, line ≠ [] ∧ 13 ∉ line)
    (hfuel : lines.length < fuel) :
    headerLines fuel ((lines.flatMap fun line => line ++ crlf) ++ (crlf ++ content)) =
      some (lines, content) := by
  induction lines generalizing fuel with
  | nil =>
      obtain ⟨fuel, rfl⟩ := Nat.exists_eq_succ_of_ne_zero (Nat.ne_of_gt hfuel)
      have hcut : cut crlf ([] ++ crlf ++ content) = some ([], content) := cut_crlf (by simp)
      rw [List.flatMap_nil, headerLines, ← List.append_assoc, hcut]
      rfl
  | cons line lines ih =>
      obtain ⟨fuel, rfl⟩ := Nat.exists_eq_succ_of_ne_zero (Nat.ne_of_gt (Nat.zero_lt_of_lt hfuel))
      obtain ⟨⟨hne, hline⟩, hlines⟩ := List.forall_mem_cons.mp hlines
      rw [List.flatMap_cons, List.append_assoc, headerLines, cut_crlf hline]
      simp only [Option.bind_eq_bind, Option.bind_some, if_neg hne,
        ih hlines (Nat.lt_of_succ_lt_succ hfuel)]

def paramBytes (entry : List UInt8 × List UInt8) : List UInt8 :=
  [59, 32] ++ entry.1 ++ [61, 34] ++ entry.2 ++ [34]

theorem parameters_param {key value : List UInt8} (hkey : ∀ byte ∈ key, isPadding byte = false ∧ byte ≠ 61)
    (hvalue : 34 ∉ value) :
    parameters (fuel + 1) (paramBytes (key, value) ++ rest) =
      (parameters fuel rest).map ((key, value) :: ·) := by
  have hne : ¬paramBytes (key, value) ++ rest = [] := by simp [paramBytes]
  have hfront : paramBytes (key, value) ++ rest =
      [59] ++ (32 :: (key ++ [61, 34] ++ (value ++ [34] ++ rest))) := by simp [paramBytes]
  have hpadding : (32 :: (key ++ [61, 34] ++ (value ++ [34] ++ rest))).dropWhile isPadding =
      key ++ [61, 34] ++ (value ++ [34] ++ rest) := by
    have hspace : isPadding 32 = true := by decide
    rw [List.dropWhile_cons_of_pos hspace]
    cases key with
    | nil => rfl
    | cons byte key =>
        have hbyte := (hkey byte List.mem_cons_self).1
        rw [List.cons_append, List.cons_append, List.dropWhile_cons_of_neg (by simp [hbyte])]
  have hcutKey : cut [61, 34] (key ++ [61, 34] ++ (value ++ [34] ++ rest)) =
      some (key, value ++ [34] ++ rest) :=
    cut_append (by decide) (fun h => (hkey 61 (h.subset List.mem_cons_self)).2 rfl) _
  have hcutValue : cut [34] (value ++ [34] ++ rest) = some (value, rest) :=
    cut_append (by decide) (fun h => hvalue (h.subset List.mem_cons_self)) _
  rw [parameters, if_neg hne, hfront, dropFront_append]
  simp only [Option.bind_eq_bind, Option.bind_some, hpadding, hcutKey, hcutValue]
  cases parameters fuel rest <;> rfl

theorem parameters_assemble {params : List (List UInt8 × List UInt8)}
    (hparams : ∀ entry ∈ params, (∀ byte ∈ entry.1, isPadding byte = false ∧ byte ≠ 61) ∧ 34 ∉ entry.2)
    (hfuel : params.length < fuel) : parameters fuel (params.flatMap paramBytes) = some params := by
  induction params generalizing fuel with
  | nil =>
      obtain ⟨fuel, rfl⟩ := Nat.exists_eq_succ_of_ne_zero (Nat.ne_of_gt hfuel)
      rfl
  | cons entry params ih =>
      obtain ⟨fuel, rfl⟩ := Nat.exists_eq_succ_of_ne_zero (Nat.ne_of_gt (Nat.zero_lt_of_lt hfuel))
      obtain ⟨⟨hkey, hvalue⟩, hparams⟩ := List.forall_mem_cons.mp hparams
      rw [List.flatMap_cons, parameters_param hkey hvalue, ih hparams (Nat.lt_of_succ_lt_succ hfuel)]
      rfl

theorem mapM_eq_some_map {α β : Type} {f : α → Option β} {g : α → β} {l : List α}
    (h : ∀ a ∈ l, f a = some (g a)) : l.mapM f = some (l.map g) := by
  induction l with
  | nil => rfl
  | cons a l ih =>
      obtain ⟨ha, hl⟩ := List.forall_mem_cons.mp h
      rw [List.mapM_cons, ha, ih hl]
      rfl

theorem fieldName_append {name body : List UInt8} (hname : 58 ∉ name) :
    fieldName (name ++ 58 :: 32 :: body) = name.map lowerByte := by
  have hall : ∀ byte ∈ name, decide (byte ≠ 58) = true := fun byte hbyte => by
    rw [decide_eq_true_eq]
    rintro rfl
    exact hname hbyte
  rw [fieldName, List.takeWhile_append_of_pos hall, List.takeWhile_cons_of_neg (by decide), List.append_nil]

theorem fieldBody_append {name body : List UInt8} (hname : 58 ∉ name) :
    fieldBody (name ++ 58 :: 32 :: body) = body := by
  have hall : ∀ byte ∈ name, decide (byte ≠ 58) = true := fun byte hbyte => by
    rw [decide_eq_true_eq]
    rintro rfl
    exact hname hbyte
  rw [fieldBody, List.dropWhile_append_of_pos hall, List.dropWhile_cons_of_neg (by decide)]
  rfl

end Rules

end Multipart

end Basis
