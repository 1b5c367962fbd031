import Cosmos3.Edge.Total

namespace Cosmos3.Edge

open Basis Basis.Python Jobs Orchestrator

section Persist

-- `digest` gives the hexadecimal SHA-256 of some bytes.
variable (files : FileSystem) (digest : Bytes → Text) (directory : OsText)

def isSafeUnit (u : UInt16) : Bool := isAsciiLetter u || isDecimalDigit u || u = 95 || u = 45

-- Each code point that is not safe becomes an underscore.
def safeName (job : Text) : Text :=
  let name := (codePoints job).map fun c =>
    if c < 128 ∧ isSafeUnit c.toUInt16 then c.toUInt16 else 95
  if name = [] then ascii "artifact" else name

-- `os.path.join`
def joinPath (parent name : Text) : Text :=
  if parent = [] ∨ parent.getLast? = some 47 then parent ++ name else parent ++ ascii "/" ++ name

def artifactPathFor (job ext : Text) : Except PathError Text :=
  resolveWithin files (joinPath directory.text (safeName job ++ ascii "." ++ ext)) [directory]

def mediaExt (kind : Text) : Text :=
  match mediaKind? kind with
  | some .image => ascii "png"
  | some .video => ascii "mp4"
  | some .audio => ascii "wav"
  | none => ascii "bin"

-- Writing the file itself is not modelled, only the path that replaces the media.
def persistInlineMedia (media : InlineMedia) (params : Dict) : Except EdgeError Dict :=
  match Base64.b64decode media.dataBase64 with
  | .error _ => .error (.python .valueError)
  | .ok raw =>
    match artifactPathFor files directory (ascii "cond_" ++ (digest raw).take 16)
        (mediaExt media.kind) with
    | .error error => .error error.toEdge
    | .ok path => .ok (params.set (media.kind ++ ascii "_path") (.str path))

-- The params that the record of a submission carries.
def recordParams (submit : JobSubmit) : Except EdgeError Dict :=
  match submit.media with
  | none => .ok submit.params
  | some media => persistInlineMedia files digest directory media submit.params

end Persist

section Accepted

variable {shown : Shown} {files : FileSystem} {limits : MediaLimits} {allowlist : List OsText}
  {submit : JobSubmit} {plane : Plane}

theorem accepted_reads
    (h : validateSubmission shown files limits allowlist submit = .ok plane) :
    (submit.mode ∈ generationModes ∨ submit.mode ∈ actionModes) ∧ plane = .generation ∧
      ∀ read ∈ reads shown submit, verdict shown files limits allowlist read = .accepts := by
  rw [validateSubmission_eq] at h
  obtain ⟨plane', hplane, h⟩ := bind_eq_ok.mp h
  obtain ⟨⟨⟩, hreads, h⟩ := bind_eq_ok.mp h
  cases h
  unfold planeForMode at hplane
  by_cases hmode : submit.mode ∈ generationModes ∨ submit.mode ∈ actionModes
  · rw [if_pos hmode] at hplane
    cases hplane
    refine ⟨hmode, rfl, fun read hread => ?_⟩
    exact (judges_check read).ok_iff.mp ((runChecks_eq_ok _).mp hreads read hread)
  · rw [if_neg hmode] at hplane
    cases hplane

theorem numberVerdict_accepts {valid : ℤ → Bool} {value : Value}
    (h : numberVerdict valid value = .accepts) : ∃ n, intOf value = .ok n ∧ valid n = true := by
  unfold numberVerdict at h
  by_cases hinf : isInfinite value = true
  · rw [if_pos hinf] at h
    cases h
  · rw [if_neg hinf] at h
    cases hint : intOf value with
    | error exn =>
        rw [hint] at h
        cases h
    | ok n =>
        by_cases hvalid : valid n = true
        · exact ⟨n, rfl, hvalid⟩
        · rw [hint, if_neg (by simpa [Except.toOption] using hvalid)] at h
          cases h

theorem givenInt_eq_some {p : Dict} {field : ActionField} {n : ℤ} :
    givenInt p field = some n ↔ ∃ value, p.get field.key = some value ∧ intOf value = .ok n := by
  unfold givenInt given
  cases p.get field.key with
  | none => simp
  | some value =>
      cases hint : intOf value with
      | error exn => cases value <;> simp [hint, Except.toOption]
      | ok m =>
          cases value with
          | none => cases hint
          | _ => simp [hint, Except.toOption]

-- An output field that is there is an integer within its bounds.
theorem accepted_output
    (h : validateSubmission shown files limits allowlist submit = .ok plane) (field : OutputField)
    {value : Value} (hvalue : submit.params.get field.key = some value) :
    ∃ n, intOf value = .ok n ∧ field.valid limits n = true := by
  obtain ⟨hmode, -, hreads⟩ := accepted_reads h
  have hmem : Read.output field value ∈ outputRead submit.params field := by
    simp [outputRead, hvalue]
  refine numberVerdict_accepts (hreads (.output field value) ?_)
  rw [reads, if_pos hmode]
  cases field <;> simp [hmem]

theorem accepted_actionReads
    (h : validateSubmission shown files limits allowlist submit = .ok plane)
    (hmode : submit.mode ∈ actionModes) :
    ∀ read ∈ actionReads shown submit, verdict shown files limits allowlist read = .accepts := by
  obtain ⟨-, -, hreads⟩ := accepted_reads h
  intro read hread
  refine hreads read ?_
  rw [reads, if_pos (Or.inr hmode)]
  simp [hread]

-- The request that the action knobs make passes the schema.
theorem accepted_spec
    (h : validateSubmission shown files limits allowlist submit = .ok plane)
    {mode : ActionMode} (hm : actionModeOf submit.mode = .ok mode) :
    validateAction shown (specOf shown submit mode) = none := by
  have haccepts := accepted_actionReads h (mem_actionModes.mpr ⟨mode, hm⟩)
    (.spec (specOf shown submit mode)) (by
      rw [actionReads, hm]
      simp)
  cases herror : validateAction shown (specOf shown submit mode) with
  | none => rfl
  | some error =>
      rw [verdict, herror] at haccepts
      cases haccepts

-- An action knob that is given is an integer, and the request they make is valid.
theorem accepted_action
    (h : validateSubmission shown files limits allowlist submit = .ok plane)
    (hmode : submit.mode ∈ actionModes) :
    (∀ field value, given submit.params (ActionField.key field) = some value →
      ∃ n, intOf value = .ok n) ∧
    ∃ mode, actionModeOf submit.mode = .ok mode ∧ (specOf shown submit mode).Valid := by
  obtain ⟨mode, hm⟩ := mem_actionModes.mp hmode
  refine ⟨fun field value hgiven => ?_, mode, hm, valid_of_validateAction (accepted_spec h hm)⟩
  have hmem : Read.action field value ∈ actionRead submit.params field := by
    simp [actionRead, hgiven]
  have haccepts := accepted_actionReads h hmode (.action field value) (by
    rw [actionReads, hm]
    cases field <;> simp [hmem])
  obtain ⟨n, hn, -⟩ := numberVerdict_accepts haccepts
  exact ⟨n, hn⟩

-- Inline media replaces one of the conditioning paths and nothing else.
theorem get_recordParams {digest : Bytes → Text} {directory : OsText} {params : Dict}
    (h : validateSubmission shown files limits allowlist submit = .ok plane)
    (hparams : recordParams files digest directory submit = .ok params) {key : Text}
    (hkey : ∀ kind : MediaKind, key ≠ kind.value ++ ascii "_path") :
    params.get key = submit.params.get key := by
  unfold recordParams at hparams
  cases hmedia : submit.media with
  | none =>
      rw [hmedia] at hparams
      cases hparams
      rfl
  | some media =>
      rw [hmedia] at hparams
      obtain ⟨hmode, -, hreads⟩ := accepted_reads h
      have haccepts := hreads (.media media) (by
        rw [reads, if_pos hmode]
        simp [hmedia])
      have hkind : ∃ kind, mediaKind? media.kind = some kind := by
        cases hfound : mediaKind? media.kind with
        | some kind => exact ⟨kind, rfl⟩
        | none =>
            rw [verdict, mediaVerdict, hfound] at haccepts
            cases haccepts
      obtain ⟨kind, hkind⟩ := hkind
      have hvalue : kind.value = media.kind := by simpa using List.find?_some hkind
      dsimp only at hparams
      unfold persistInlineMedia at hparams
      split at hparams
      · cases hparams
      · split at hparams
        · cases hparams
        · cases hparams
          exact Dict.get_set_of_ne _ (hvalue ▸ hkey kind) _

end Accepted

end Cosmos3.Edge
