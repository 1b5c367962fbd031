import Cosmos3.Basis.Multipart
import Cosmos3.Worker.Generation

namespace Cosmos3.Worker

open Basis Basis.Python Basis.Multipart Edge

section Encoder

def encodeText (t : Text) : Except Exn Bytes :=
  match Utf8.encode t with
  | some bytes => .ok bytes
  | none => .error .unicodeEncodeError

def dashBoundary (boundary : Text) : Text := ascii "--" ++ boundary

-- The header lines of a field.
def headersOf : Text × FormValue → List Text
  | (key, .file part) =>
    [ascii "Content-Disposition: form-data; name=\"" ++ key ++ ascii "\"; filename=\"" ++ part.filename ++
      ascii "\"", ascii "Content-Type: " ++ part.contentType]
  | (key, .text _) => [ascii "Content-Disposition: form-data; name=\"" ++ key ++ ascii "\""]

def contentOf : FormValue → Except Exn Bytes
  | .file part => .ok part.data
  | .text value => encodeText value

def fieldParts (boundary : Text) (field : Text × FormValue) : Except Exn (List Bytes) := do
  let dash ← encodeText (dashBoundary boundary)
  let headers ← (headersOf field).mapM encodeText
  let content ← contentOf field.2
  .ok (dash :: headers ++ [[], content])

-- `boundary or ("----cosmos3omni" + uuid.uuid4().hex)`
def usedBoundary (boundary : Option Text) (hex : Text) : Text :=
  (boundary.filter (· ≠ [])).getD (ascii "----cosmos3omni" ++ hex)

def encodeMultipart (form : Form) (boundary : Option Text) (hex : Text) : Except Exn (Text × Bytes) := do
  let boundary := usedBoundary boundary hex
  let parts ← form.mapM (fieldParts boundary)
  let close ← encodeText (dashBoundary boundary ++ ascii "--")
  .ok (ascii "multipart/form-data; boundary=" ++ boundary, crlf.intercalate (parts.flatten ++ [close, []]))

end Encoder

section Specification

def IsPlain (t : Text) : Prop := cr ∉ t ∧ lf ∉ t ∧ Json.quote ∉ t

instance (t : Text) : Decidable (IsPlain t) := inferInstanceAs (Decidable (_ ∧ _))

-- The texts of a field that its header lines hold.
def headerTexts : Text × FormValue → List Text
  | (key, .file part) => [key, part.filename, part.contentType]
  | (key, .text _) => [key]

def contentBytes : FormValue → Bytes
  | .file part => part.data
  | .text value => Utf8.sequences value

def IsEncodable : FormValue → Prop
  | .file _ => True
  | .text value => Utf8.Encodable value

-- What a form and a boundary have to be for the body to be read back.
structure Splittable (boundary : Text) (form : Form) : Prop where
  unbroken : cr ∉ boundary
  announced : Utf8.Encodable boundary
  plain : ∀ field ∈ form, ∀ t ∈ headerTexts field, IsPlain t ∧ Utf8.Encodable t
  values : ∀ field ∈ form, IsEncodable field.2
  headers : ∀ field ∈ form, ∀ line ∈ headersOf field,
    ¬Utf8.sequences (dashBoundary boundary) <:+: Utf8.sequences line
  contents : ∀ field ∈ form, ¬Utf8.sequences (dashBoundary boundary) <:+: contentBytes field.2

-- The field as a reader of the body has it.
def partOf : Text × FormValue → Part
  | (key, .file part) => ⟨key, some part.filename, some part.contentType, part.data⟩
  | (key, .text value) => ⟨key, none, none, Utf8.sequences value⟩

end Specification

section RoundTrip

variable {boundary : Text} {form : Form}

theorem encodeText_of_encodable {t : Text} (h : Utf8.Encodable t) : encodeText t = .ok (Utf8.sequences t) := by
  rw [encodeText, Utf8.encode, if_pos h]

theorem sequences_dashBoundary : Utf8.sequences (dashBoundary boundary) =
    dashes ++ Utf8.sequences boundary := Utf8.sequences_ascii_append (by decide) boundary

def dispositionName : Bytes := asciiBytes (ascii "Content-Disposition")

def nameParam (key : Text) : Bytes × Bytes := (asciiBytes (ascii "name"), Utf8.sequences key)

def filenameParam (filename : Text) : Bytes × Bytes := (asciiBytes (ascii "filename"), Utf8.sequences filename)

-- The parameters of a field's disposition.
def paramsOf : Text × FormValue → List (Bytes × Bytes)
  | (key, .file part) => [nameParam key, filenameParam part.filename]
  | (key, .text _) => [nameParam key]

def dispositionLine (field : Text × FormValue) : Bytes :=
  dispositionName ++ 58 :: 32 :: (asciiBytes (ascii "form-data") ++ (paramsOf field).flatMap paramBytes)

def contentTypeLine (contentType : Text) : Bytes :=
  asciiBytes (ascii "Content-Type") ++ 58 :: 32 :: Utf8.sequences contentType

def headerBytes : Text × FormValue → List Bytes
  | (key, .file part) => [dispositionLine (key, .file part), contentTypeLine part.contentType]
  | (key, .text value) => [dispositionLine (key, .text value)]

def leadText : Text := ascii "Content-Disposition: form-data; name=\""

def betweenText : Text := ascii "\"; filename=\""

theorem leadText_bytes : asciiBytes leadText = dispositionName ++
    58 :: 32 :: (asciiBytes (ascii "form-data") ++ ([59, 32] ++ asciiBytes (ascii "name") ++ [61, 34])) := by
  decide

theorem betweenText_bytes :
    asciiBytes betweenText = [34] ++ ([59, 32] ++ asciiBytes (ascii "filename") ++ [61, 34]) := by decide

theorem headersOf_eq (field : Text × FormValue) :
    (headersOf field).map Utf8.sequences = headerBytes field := by
  have hquote : asciiBytes (ascii "\"") = [34] := by decide
  have htype : asciiBytes (ascii "Content-Type: ") = asciiBytes (ascii "Content-Type") ++ [58, 32] := by
    decide
  obtain ⟨key, value⟩ := field
  cases value with
  | file part =>
      have hline : Utf8.sequences (leadText ++ key ++ betweenText ++ part.filename ++ ascii "\"") =
          dispositionLine (key, .file part) := by
        rw [Utf8.sequences_append_ascii (by decide), List.append_assoc, List.append_assoc,
          Utf8.sequences_ascii_append (by decide), Utf8.sequences_append_ascii_append (by decide) (by decide),
          leadText_bytes, betweenText_bytes, hquote]
        simp [dispositionLine, paramsOf, nameParam, filenameParam, paramBytes]
      have htypeLine : Utf8.sequences (ascii "Content-Type: " ++ part.contentType) =
          contentTypeLine part.contentType := by
        rw [Utf8.sequences_ascii_append (by decide), htype]
        simp [contentTypeLine]
      simp only [headersOf, headerBytes, List.map_cons, List.map_nil, ← hline, ← htypeLine]
      rfl
  | text value =>
      have hline : Utf8.sequences (leadText ++ key ++ ascii "\"") = dispositionLine (key, .text value) := by
        rw [Utf8.sequences_append_ascii (by decide), Utf8.sequences_ascii_append (by decide), leadText_bytes,
          hquote]
        simp [dispositionLine, paramsOf, nameParam, paramBytes]
      simp only [headersOf, headerBytes, List.map_cons, List.map_nil, ← hline]
      rfl

theorem notMem_sequences {t : Text} {u : UInt16} (ht : Utf8.Encodable t) (hu : u < 0x80) (h : u ∉ t) :
    u.toUInt8 ∉ Utf8.sequences t := fun hmem => h (Utf8.mem_of_mem_sequences ht hu hmem)

-- What the form promises of one field.
structure PlainField (field : Text × FormValue) : Prop where
  texts : ∀ t ∈ headerTexts field, IsPlain t ∧ Utf8.Encodable t

theorem paramsOf_plain {field : Text × FormValue} (h : PlainField field) :
    ∀ entry ∈ paramsOf field, (∀ byte ∈ entry.1, isPadding byte = false ∧ byte ≠ 61) ∧
      34 ∉ entry.2 ∧ 13 ∉ entry.1 ∧ 13 ∉ entry.2 := by
  have hname : (asciiBytes (ascii "name")).all (fun byte => isPadding byte = false ∧ byte ≠ 61 ∧
      byte ≠ 13) = true := by decide
  have hfilename : (asciiBytes (ascii "filename")).all (fun byte => isPadding byte = false ∧
      byte ≠ 61 ∧ byte ≠ 13) = true := by decide
  have hparam : ∀ {name t : Text}, (asciiBytes name).all (fun byte => isPadding byte = false ∧
      byte ≠ 61 ∧ byte ≠ 13) = true → IsPlain t ∧ Utf8.Encodable t →
      (∀ byte ∈ asciiBytes name, isPadding byte = false ∧ byte ≠ 61) ∧ 34 ∉ Utf8.sequences t ∧
        13 ∉ asciiBytes name ∧ 13 ∉ Utf8.sequences t := by
    rintro name t hall ⟨⟨hcr, -, hquote⟩, hencodable⟩
    have hbyte : ∀ byte ∈ asciiBytes name, isPadding byte = false ∧ byte ≠ 61 ∧ byte ≠ 13 :=
      fun byte hmem => of_decide_eq_true (List.all_eq_true.mp hall byte hmem)
    exact ⟨fun byte hmem => ⟨(hbyte byte hmem).1, (hbyte byte hmem).2.1⟩,
      notMem_sequences hencodable (by decide) hquote, fun hmem => (hbyte 13 hmem).2.2 rfl,
      notMem_sequences hencodable (by decide) hcr⟩
  obtain ⟨key, value⟩ := field
  intro entry hentry
  cases value with
  | file part =>
      rcases List.mem_cons.mp hentry with rfl | hentry
      · exact hparam hname (h.texts key (by simp [headerTexts]))
      · rw [List.mem_singleton] at hentry
        subst hentry
        exact hparam hfilename (h.texts part.filename (by simp [headerTexts]))
  | text value =>
      rw [paramsOf, List.mem_singleton] at hentry
      subst hentry
      exact hparam hname (h.texts key (by simp [headerTexts]))

theorem cr_notMem_dispositionLine {field : Text × FormValue} (h : PlainField field) :
    13 ∉ dispositionLine field := by
  have hname : 13 ∉ dispositionName := by decide
  have hform : 13 ∉ asciiBytes (ascii "form-data") := by decide
  have hparams : 13 ∉ (paramsOf field).flatMap paramBytes := by
    rw [List.mem_flatMap]
    rintro ⟨entry, hentry, hmem⟩
    obtain ⟨-, -, hkey, hvalue⟩ := paramsOf_plain h entry hentry
    simp [paramBytes, hkey, hvalue] at hmem
  simp [dispositionLine, hname, hform, hparams]

theorem cr_notMem_contentTypeLine {contentType : Text} (hplain : IsPlain contentType)
    (hencodable : Utf8.Encodable contentType) : 13 ∉ contentTypeLine contentType := by
  have hname : 13 ∉ asciiBytes (ascii "Content-Type") := by decide
  have htype : 13 ∉ Utf8.sequences contentType := notMem_sequences hencodable (by decide) hplain.1
  simp [contentTypeLine, hname, htype]

theorem headerBytes_plain {field : Text × FormValue} (h : PlainField field) :
    ∀ line ∈ headerBytes field, line ≠ [] ∧ 13 ∉ line := by
  have hdisposition : dispositionLine field ≠ [] ∧ 13 ∉ dispositionLine field :=
    ⟨by simp [dispositionLine], cr_notMem_dispositionLine h⟩
  obtain ⟨key, value⟩ := field
  intro line hline
  cases value with
  | file part =>
      rcases List.mem_cons.mp hline with rfl | hline
      · exact hdisposition
      · rw [List.mem_singleton] at hline
        subst hline
        obtain ⟨hplain, hencodable⟩ := h.texts part.contentType (by simp [headerTexts])
        exact ⟨by simp [contentTypeLine], cr_notMem_contentTypeLine hplain hencodable⟩
  | text value =>
      rw [headerBytes, List.mem_singleton] at hline
      subst hline
      exact hdisposition

theorem headerLines_partBytes {field : Text × FormValue} {content : Bytes} (h : PlainField field) :
    headerLines ((Multipart.partBytes (headerBytes field) content).length + 1)
      (Multipart.partBytes (headerBytes field) content) = some (headerBytes field, content) := by
  refine headerLines_assemble (headerBytes_plain h) ?_
  have hle := length_le_flatMap (f := fun line : Bytes => line ++ crlf) (by simp [crlf]) (headerBytes field)
  exact Nat.lt_succ_of_le (hle.trans (List.sublist_append_left _ _).length_le)

theorem header_disposition (field : Text × FormValue) :
    header (headerBytes field) "content-disposition" =
      some (asciiBytes (ascii "form-data") ++ (paramsOf field).flatMap paramBytes) := by
  have hname : fieldName (dispositionLine field) = asciiBytes (ascii "content-disposition") := by
    rw [dispositionLine, fieldName_append (by decide)]
    decide
  have hbody : fieldBody (dispositionLine field) =
      asciiBytes (ascii "form-data") ++ (paramsOf field).flatMap paramBytes := by
    rw [dispositionLine, fieldBody_append (by decide)]
  obtain ⟨key, value⟩ := field
  cases value
  all_goals
    rw [header, headerBytes, List.find?_cons_of_pos (by rw [hname]; simp), Option.map_some, hbody]

-- The content type of a field that has one.
def contentTypeOf : FormValue → Option Bytes
  | .file part => some (Utf8.sequences part.contentType)
  | .text _ => none

theorem header_contentType (field : Text × FormValue) :
    header (headerBytes field) "content-type" = contentTypeOf field.2 := by
  have hname : fieldName (dispositionLine field) ≠ asciiBytes (ascii "content-type") := by
    rw [dispositionLine, fieldName_append (by decide)]
    decide
  obtain ⟨key, value⟩ := field
  cases value with
  | file part =>
      have htype : fieldName (contentTypeLine part.contentType) = asciiBytes (ascii "content-type") := by
        rw [contentTypeLine, fieldName_append (by decide)]
        decide
      have hbody : fieldBody (contentTypeLine part.contentType) = Utf8.sequences part.contentType := by
        rw [contentTypeLine, fieldBody_append (by decide)]
      rw [header, headerBytes, List.find?_cons_of_neg (by simpa using hname),
        List.find?_cons_of_pos (by rw [htype]; simp), Option.map_some, hbody]
      rfl
  | text value =>
      rw [header, headerBytes, List.find?_cons_of_neg (by simpa using hname)]
      rfl

theorem formPart_partBytes {field : Text × FormValue} (h : PlainField field) :
    formPart (Multipart.partBytes (headerBytes field) (contentBytes field.2)) = some (partOf field) := by
  have hparams : parameters (((paramsOf field).flatMap paramBytes).length + 1)
      ((paramsOf field).flatMap paramBytes) = some (paramsOf field) := by
    refine parameters_assemble (fun entry hentry => ?_) ?_
    · obtain ⟨hkey, hvalue, -⟩ := paramsOf_plain h entry hentry
      exact ⟨hkey, hvalue⟩
    · exact Nat.lt_succ_of_le (length_le_flatMap (by simp [paramBytes]) _)
  rw [formPart, headerLines_partBytes h]
  simp only [Option.bind_eq_bind, Option.bind_some, header_disposition, header_contentType,
    dropFront_append, hparams]
  obtain ⟨key, value⟩ := field
  have hkey := Utf8.strict_sequences (h.texts key (by cases value <;> simp [headerTexts])).2
  cases value with
  | file part =>
      have hfilename := Utf8.strict_sequences (h.texts part.filename (by simp [headerTexts])).2
      have htype := Utf8.strict_sequences (h.texts part.contentType (by simp [headerTexts])).2
      have hfirst : parameter (paramsOf (key, .file part)) "name" = some (Utf8.sequences key) := rfl
      have hsecond : parameter (paramsOf (key, .file part)) "filename" =
          some (Utf8.sequences part.filename) := rfl
      simp only [hfirst, hsecond, Option.bind_some, hkey, textOf, hfilename, contentTypeOf, htype,
        Option.map_some]
      rfl
  | text value =>
      have hfirst : parameter (paramsOf (key, .text value)) "name" = some (Utf8.sequences key) := rfl
      have hsecond : parameter (paramsOf (key, .text value)) "filename" = none := rfl
      simp only [hfirst, hsecond, Option.bind_some, hkey, textOf, contentTypeOf]
      rfl

theorem encodable_headersOf {field : Text × FormValue} (h : PlainField field) :
    ∀ line ∈ headersOf field, Utf8.Encodable line := by
  obtain ⟨key, value⟩ := field
  have hquote : Utf8.Encodable (ascii "\"") := by decide
  intro line hline
  cases value with
  | file part =>
      rcases List.mem_cons.mp hline with rfl | hline
      · have hkey := (h.texts key (by simp [headerTexts])).2
        have hfilename := (h.texts part.filename (by simp [headerTexts])).2
        have hlast : Utf8.Encodable (part.filename ++ (ascii "\"" ++ [])) :=
          (Utf8.encodable_append_ascii_append (by decide) (by decide)).mpr ⟨hfilename, rfl⟩
        have hmiddle : Utf8.Encodable (key ++ (betweenText ++ (part.filename ++ (ascii "\"" ++ [])))) :=
          (Utf8.encodable_append_ascii_append (by decide) (by decide)).mpr ⟨hkey, hlast⟩
        have hall : Utf8.Encodable
            (leadText ++ (key ++ (betweenText ++ (part.filename ++ (ascii "\"" ++ []))))) :=
          (Utf8.encodable_ascii_append (by decide)).mpr hmiddle
        simpa [leadText, betweenText] using hall
      · rw [List.mem_singleton] at hline
        subst hline
        exact (Utf8.encodable_ascii_append (by decide)).mpr (h.texts part.contentType (by simp [headerTexts])).2
  | text value =>
      rw [headersOf, List.mem_singleton] at hline
      subst hline
      have hkey := (h.texts key (by simp [headerTexts])).2
      have hlast : Utf8.Encodable (key ++ (ascii "\"" ++ [])) :=
        (Utf8.encodable_append_ascii_append (by decide) (by decide)).mpr ⟨hkey, rfl⟩
      have hall : Utf8.Encodable (leadText ++ (key ++ (ascii "\"" ++ []))) :=
        (Utf8.encodable_ascii_append (by decide)).mpr hlast
      simpa [leadText] using hall

theorem encodeText_dashBoundary (h : Utf8.Encodable boundary) :
    encodeText (dashBoundary boundary) = .ok (dashes ++ Utf8.sequences boundary) := by
  have hencodable : Utf8.Encodable (dashBoundary boundary) :=
    (Utf8.encodable_ascii_append (by decide)).mpr h
  rw [encodeText_of_encodable hencodable, sequences_dashBoundary]

theorem encodeText_close (h : Utf8.Encodable boundary) :
    encodeText (dashBoundary boundary ++ ascii "--") =
      .ok (dashes ++ Utf8.sequences boundary ++ dashes) := by
  have hencodable : Utf8.Encodable (dashBoundary boundary ++ (ascii "--" ++ [])) :=
    (Utf8.encodable_append_ascii_append (by decide) (by decide)).mpr
      ⟨(Utf8.encodable_ascii_append (by decide)).mpr h, rfl⟩
  rw [List.append_nil] at hencodable
  rw [encodeText_of_encodable hencodable, Utf8.sequences_append_ascii (by decide), sequences_dashBoundary]
  rfl

theorem fieldParts_eq {field : Text × FormValue} (hboundary : Utf8.Encodable boundary) (h : PlainField field)
    (hvalue : IsEncodable field.2) :
    fieldParts boundary field = .ok ((dashes ++ Utf8.sequences boundary) :: headerBytes field ++
      [[], contentBytes field.2]) := by
  have hheaders : (headersOf field).mapM encodeText = .ok (headerBytes field) := by
    rw [← headersOf_eq]
    exact mapM_eq_map fun line hline => encodeText_of_encodable (encodable_headersOf h line hline)
  have hcontent : contentOf field.2 = .ok (contentBytes field.2) := by
    obtain ⟨key, value⟩ := field
    cases value with
    | file part => rfl
    | text value => exact encodeText_of_encodable hvalue
  rw [fieldParts, encodeText_dashBoundary hboundary, hheaders, hcontent]
  rfl

variable {hex : Text}

-- The body of a form is that of its parts, joined as the format has it.
theorem encodeMultipart_eq (given : Option Text) (h : Splittable (usedBoundary given hex) form) :
    encodeMultipart form given hex =
      .ok (ascii "multipart/form-data; boundary=" ++ usedBoundary given hex,
        assemble (Utf8.sequences (usedBoundary given hex)) (form.map fun field =>
          Multipart.partBytes (headerBytes field) (contentBytes field.2))) := by
  have hparts := mapM_eq_map fun field hfield =>
    fieldParts_eq h.announced ⟨h.plain field hfield⟩ (h.values field hfield)
  have hassemble := intercalate_eq_assemble (Utf8.sequences (usedBoundary given hex))
    (form.map fun field => (headerBytes field, contentBytes field.2))
  rw [List.flatMap_map, List.map_map] at hassemble
  rw [encodeMultipart]
  simp only [hparts, encodeText_close h.announced]
  exact congrArg Except.ok (Prod.ext rfl hassemble)

theorem boundaryOf_announced (h : Utf8.Encodable boundary) :
    boundaryOf (ascii "multipart/form-data; boundary=" ++ boundary) = some (Utf8.sequences boundary) := by
  rw [boundaryOf, dropFront_append, Option.bind_some, Utf8.encode, if_pos h]

theorem decode_encodeMultipart {given : Option Text} (h : Splittable (usedBoundary given hex) form) :
    ∃ encoded, encodeMultipart form given hex = .ok encoded ∧
      decode encoded.1 encoded.2 = some (form.map partOf) := by
  refine ⟨_, encodeMultipart_eq given h, ?_⟩
  have hb : 13 ∉ Utf8.sequences (usedBoundary given hex) :=
    notMem_sequences h.announced (by decide) h.unbroken
  have hparts : multipartBody (Utf8.sequences (usedBoundary given hex))
      (assemble (Utf8.sequences (usedBoundary given hex)) (form.map fun field =>
        Multipart.partBytes (headerBytes field) (contentBytes field.2))) =
      some (form.map fun field => Multipart.partBytes (headerBytes field) (contentBytes field.2)) := by
    refine multipartBody_assemble hb fun part hpart => ?_
    obtain ⟨field, hfield, rfl⟩ := List.mem_map.mp hpart
    refine delimiter_notInfix hb (fun line hline => ?_) ?_
    · rw [← headersOf_eq, List.mem_map] at hline
      obtain ⟨text, htext, rfl⟩ := hline
      rw [← sequences_dashBoundary]
      exact h.headers field hfield text htext
    · rw [← sequences_dashBoundary]
      exact h.contents field hfield
  have hfields : (form.map fun field => Multipart.partBytes (headerBytes field) (contentBytes field.2)).mapM
      formPart = some (form.map partOf) := by
    rw [List.mapM_map]
    exact mapM_eq_some_map fun field hfield => formPart_partBytes ⟨h.plain field hfield⟩
  rw [decode, boundaryOf_announced h.announced]
  simp only [Option.bind_eq_bind, Option.bind_some, hparts, hfields]

end RoundTrip

section Sample

-- An empty value, and a file that ends in a line end of its own.
def uploadForm : Form :=
  [(ascii "prompt", .text []), (ascii "input_reference", .file ⟨ascii "a.png", ascii "image/png", [137, 13, 10]⟩)]

theorem splittable_uploadForm : Splittable (ascii "B") uploadForm where
  unbroken := by decide
  announced := by decide
  plain := by decide +kernel
  values := by
    intro field hfield
    rcases List.mem_pair.mp hfield with rfl | rfl
    · exact (by decide : Utf8.Encodable [])
    · trivial
  headers := by decide +kernel
  contents := by decide +kernel

theorem decode_encodeMultipart_uploadForm :
    ∃ encoded, encodeMultipart uploadForm (some (ascii "B")) [] = .ok encoded ∧
      decode encoded.1 encoded.2 = some (uploadForm.map partOf) :=
  decode_encodeMultipart splittable_uploadForm

end Sample

end Cosmos3.Worker
