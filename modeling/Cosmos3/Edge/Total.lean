import Cosmos3.Basis.Dumps
import Cosmos3.Edge.Submission

namespace Cosmos3.Edge

open Basis Basis.Python Jobs Orchestrator

inductive OutputField where
  | resolution
  | height
  | width
  | numFrames

def OutputField.key : OutputField → Text
  | .resolution => ascii "resolution"
  | .height => ascii "height"
  | .width => ascii "width"
  | .numFrames => ascii "num_frames"

inductive ActionField where
  | chunkSize
  | rawActionWidth
  | resolutionTier

def ActionField.key : ActionField → Text
  | .chunkSize => ascii "chunk_size"
  | .rawActionWidth => ascii "raw_action_width"
  | .resolutionTier => ascii "resolution_tier"

-- What the validation looks at, one after the other.
inductive Read where
  | path (value : Value)
  | media (media : InlineMedia)
  | output (field : OutputField) (value : Value)
  | action (field : ActionField) (value : Value)
  | spec (spec : ActionSpec)

section Reads

variable (shown : Shown)

def pathRead (params : Dict) (key : Text) : List Read :=
  (((params.get key).filter truth).map .path).toList

def outputRead (params : Dict) (field : OutputField) : List Read :=
  ((params.get field.key).map (.output field)).toList

def given (params : Dict) (key : Text) : Option Value :=
  match params.get key with
  | none | some .none => none
  | some value => some value

def actionRead (params : Dict) (field : ActionField) : List Read :=
  ((given params field.key).map (.action field)).toList

def givenInt (params : Dict) (field : ActionField) : Option ℤ :=
  (given params field.key).bind fun value => (intOf value).toOption

-- The request that an action submission makes when its integers can be read.
def specOf (submit : JobSubmit) (mode : ActionMode) : ActionSpec where
  mode := mode
  domainName := domainName shown submit.params
  chunkSize := (givenInt submit.params .chunkSize).getD 0
  rawActionWidth := givenInt submit.params .rawActionWidth
  resolutionTier := (givenInt submit.params .resolutionTier).getD 480
  hasImage := present submit.params (ascii "image_path") || submit.hasInline .image
  hasVideo := present submit.params (ascii "video_path") || submit.hasInline .video

def actionReads (submit : JobSubmit) : List Read :=
  match actionModeOf submit.mode with
  | .error _ => []
  | .ok mode =>
      actionRead submit.params .chunkSize ++ actionRead submit.params .rawActionWidth ++
        actionRead submit.params .resolutionTier ++ [.spec (specOf shown submit mode)]

-- Nothing is read of a submission in an unknown mode.
def reads (submit : JobSubmit) : List Read :=
  if submit.mode ∈ generationModes ∨ submit.mode ∈ actionModes then
    pathRead submit.params (ascii "image_path") ++ pathRead submit.params (ascii "video_path") ++
      pathRead submit.params (ascii "audio_path") ++ (submit.media.map .media).toList ++
      outputRead submit.params .resolution ++ outputRead submit.params .height ++
      outputRead submit.params .width ++ outputRead submit.params .numFrames ++
      actionReads shown submit
  else []

end Reads

section Verdicts

variable (shown : Shown) (files : FileSystem) (limits : MediaLimits) (allowlist : List OsText)

def isInfinite : Value → Bool
  | .float .infinity | .float .negInfinity => true
  | _ => false

def numberVerdict (valid : ℤ → Bool) (value : Value) : Verdict :=
  if isInfinite value then .escapes
  else if (intOf value).toOption.any valid then .accepts
  else .refuses

def OutputField.valid (n : ℤ) : OutputField → Bool
  | .resolution => n ∈ limits.resolutions
  | .height | .width => n ∈ limits.validDimensions
  | .numFrames => 0 < n ∧ n ≤ limits.maxNumFrames

def pathVerdict (path : Text) : Verdict :=
  if isRemote path then .refuses
  else if encodable path = false then .escapes
  else if isTrusted files path allowlist then .accepts
  else .refuses

-- A chunk in front of the audio data reaches past the end of the file's own chunk.
def overruns (raw : Bytes) : Bool :=
  sniffMime raw = some .wav && Wave.openRead raw = .error .runtimeError

def contentError (raw : Bytes) : MediaKind → Option MediaValidationError
  | .image => validateImage shown (probeImage raw) limits
  | .video => validateVideo shown (probeVideo raw) limits
  | .audio => (probeAudio raw).toOption.bind fun probed => validateAudio shown probed limits

def contentVerdict (raw : Bytes) (kind : MediaKind) : Verdict :=
  if kind = .audio ∧ overruns raw then .escapes
  else if (contentError shown limits raw kind).isNone then .accepts
  else .refuses

def mediaVerdict (media : InlineMedia) : Verdict :=
  match mediaKind? media.kind with
  | none => .refuses
  | some kind =>
    if byteCap limits kind * 2 < (codePoints media.dataBase64).length then .refuses
    else
      match Base64.b64decode media.dataBase64 with
      | .error _ => .refuses
      | .ok raw => contentVerdict shown limits raw kind

def verdict : Read → Verdict
  | .path value => pathVerdict files allowlist (strOf shown value)
  | .media media => mediaVerdict shown limits media
  | .output field value => numberVerdict (fun n => field.valid limits n) value
  | .action _ value => numberVerdict (fun _ => true) value
  | .spec spec => if (validateAction shown spec).isNone then .accepts else .refuses

-- No part of a submission that the validation comes to is one that it lets escape.
def Guarded (submit : JobSubmit) : Prop :=
  ∀ before read after, reads shown submit = before ++ read :: after →
    (∀ b ∈ before, verdict shown files limits allowlist b = .accepts) →
    verdict shown files limits allowlist read ≠ .escapes

end Verdicts

section Checks

variable (shown : Shown) (files : FileSystem) (limits : MediaLimits) (allowlist : List OsText)

def OutputField.validate (n : ℤ) : OutputField → Option MediaValidationError
  | .resolution => validateResolution shown limits n
  | .height | .width => validateDimension shown limits n
  | .numFrames => validateNumFrames limits n

def checkPath (value : Value) : Except EdgeError Unit :=
  ((resolveWithin files (strOf shown value) allowlist).mapError PathError.toEdge).map fun _ => ()

def checkSpec (spec : ActionSpec) : Except EdgeError Unit :=
  match validateAction shown spec with
  | none => .ok ()
  | some error => .error (.action error)

def check : Read → Except EdgeError Unit
  | .path value => checkPath shown files allowlist value
  | .media media => validateInlineMedia shown limits media
  | .output field value =>
      coerceInt shown field.key value >>= fun n => raiseMedia (field.validate shown limits n)
  | .action field value => coerceInt shown field.key value >>= fun _ => .ok ()
  | .spec spec => checkSpec shown spec

variable {shown files limits allowlist}

theorem intOf_error {value : Value} {exn : Exn} (h : intOf value = .error exn) :
    exn = .typeError ∨ exn = .valueError ∨ (exn = .overflowError ∧ isInfinite value = true) := by
  rcases value with _ | _ | _ | x | s | _ | _
  · cases h
    exact .inl rfl
  · cases h
  · cases h
  · rcases x with q | _ | _ | _ <;> cases h
    · exact .inr (.inl rfl)
    · exact .inr (.inr ⟨rfl, rfl⟩)
    · exact .inr (.inr ⟨rfl, rfl⟩)
  · rw [intOf] at h
    cases hs : intLiteral s with
    | none =>
        rw [hs] at h
        cases h
        exact .inr (.inl rfl)
    | some n =>
        rw [hs] at h
        cases h
  · cases h
    exact .inl rfl
  · cases h
    exact .inl rfl

theorem intOf_of_isInfinite {value : Value} (h : isInfinite value = true) :
    intOf value = .error .overflowError := by
  unfold isInfinite at h
  split at h
  · rfl
  · rfl
  · cases h

theorem answered_media (error : MediaValidationError) : Answered shown (.media error) :=
  (answered_iff shown _).mpr (by simp)

theorem answered_action (error : ActionValidationError) : Answered shown (.action error) :=
  (answered_iff shown _).mpr (by simp)

theorem not_answered_python (exn : Exn) : ¬Answered shown (.python exn) := fun h =>
  (answered_iff shown _).mp h exn rfl

-- An integer, a refusal, or the overflow of an infinite number.
theorem coerceInt_eq (key : Text) (value : Value) :
    coerceInt shown key value =
      if isInfinite value then .error (.python .overflowError)
      else match (intOf value).toOption with
        | some n => .ok n
        | none => .error (failMedia .invalidParam (shown.text key ++ ascii " must be an integer")) := by
  unfold coerceInt
  by_cases hinf : isInfinite value = true
  · rw [if_pos hinf, intOf_of_isInfinite hinf]
  · rw [if_neg hinf]
    cases hint : intOf value with
    | ok n => rfl
    | error exn =>
        rcases intOf_error hint with rfl | rfl | ⟨-, h⟩
        · rfl
        · rfl
        · exact absurd h hinf

theorem judges_number (key : Text) (value : Value) (valid : ℤ → Bool)
    (validate : ℤ → Option MediaValidationError)
    (hvalid : ∀ n, validate n = none ↔ valid n = true) :
    (numberVerdict valid value).Judges (Answered shown)
      (coerceInt shown key value >>= fun n => raiseMedia (validate n)) := by
  rw [coerceInt_eq, numberVerdict]
  by_cases hinf : isInfinite value = true
  · rw [if_pos hinf, if_pos hinf]
    exact ⟨_, rfl, not_answered_python _⟩
  · rw [if_neg hinf, if_neg hinf]
    cases (intOf value).toOption with
    | none => exact ⟨_, rfl, answered_media _⟩
    | some n =>
        show (if valid n = true then Verdict.accepts else .refuses).Judges (Answered shown)
          (raiseMedia (validate n))
        cases herror : validate n with
        | none =>
            rw [if_pos ((hvalid n).mp herror)]
            rfl
        | some error =>
            rw [if_neg (by rw [← hvalid, herror]; simp)]
            exact ⟨_, rfl, answered_media error⟩

theorem judges_error (error : Option MediaValidationError) :
    (if error.isNone then Verdict.accepts else .refuses).Judges (Answered shown)
      (raiseMedia error) := by
  cases error with
  | none => rfl
  | some error => exact ⟨_, rfl, answered_media error⟩

theorem validateMember_eq_none (what : String) (n : ℤ) (members : List ℤ) :
    validateMember shown what n members = none ↔ n ∈ members := by
  simp [validateMember]

theorem validate_eq_none (field : OutputField) (n : ℤ) :
    field.validate shown limits n = none ↔ field.valid limits n = true := by
  cases field with
  | resolution => simp [OutputField.validate, OutputField.valid, validateResolution, validateMember_eq_none]
  | height => simp [OutputField.validate, OutputField.valid, validateDimension, validateMember_eq_none]
  | width => simp [OutputField.validate, OutputField.valid, validateDimension, validateMember_eq_none]
  | numFrames => simp [OutputField.validate, OutputField.valid, validateNumFrames]

theorem judges_path (value : Value) :
    (pathVerdict files allowlist (strOf shown value)).Judges (Answered shown)
      (checkPath shown files allowlist value) := by
  unfold checkPath pathVerdict
  rw [resolveWithin_eq]
  have hrefused : ∀ path, Answered shown (.untrustedPath path allowlist) := fun path =>
    (answered_iff shown _).mpr (by simp)
  split
  · exact ⟨_, rfl, hrefused _⟩
  · split
    · exact ⟨_, rfl, not_answered_python _⟩
    · split
      · rfl
      · exact ⟨_, rfl, hrefused _⟩

theorem probeAudio_eq (raw : Bytes) :
    (overruns raw = true ∧ probeAudio raw = .error .runtimeError) ∨
      (overruns raw = false ∧ ∃ probed, probeAudio raw = .ok probed) := by
  unfold overruns probeAudio
  by_cases hwav : sniffMime raw = some .wav
  · cases hwave : Wave.openRead raw with
    | ok header => exact .inr ⟨by simp, by simp [hwav]⟩
    | error stop =>
        cases stop with
        | runtimeError => exact .inl ⟨by simp [hwav], by simp [hwav]⟩
        | error => exact .inr ⟨by simp, by simp [hwav]⟩
        | endOfFile => exact .inr ⟨by simp, by simp [hwav]⟩
  · exact .inr ⟨by simp [hwav], by simp [hwav]⟩

theorem judges_content (raw : Bytes) (kind : MediaKind) :
    (contentVerdict shown limits raw kind).Judges (Answered shown)
      (probeAndValidate shown limits raw kind) := by
  unfold contentVerdict
  cases kind with
  | image => exact judges_error _
  | video => exact judges_error _
  | audio =>
      rcases probeAudio_eq raw with ⟨hover, hprobe⟩ | ⟨hover, probed, hprobe⟩
      · rw [if_pos ⟨rfl, hover⟩, probeAndValidate, hprobe]
        exact ⟨_, rfl, not_answered_python _⟩
      · rw [if_neg (by simp [hover]), probeAndValidate, contentError, hprobe]
        exact judges_error _

theorem judges_media (media : InlineMedia) :
    (mediaVerdict shown limits media).Judges (Answered shown)
      (validateInlineMedia shown limits media) := by
  unfold mediaVerdict validateInlineMedia
  cases mediaKind? media.kind with
  | none => exact ⟨_, rfl, answered_media _⟩
  | some kind =>
      dsimp only
      split
      · exact ⟨_, rfl, answered_media _⟩
      · cases Base64.b64decode media.dataBase64 with
        | error error => exact ⟨_, rfl, answered_media _⟩
        | ok raw => exact judges_content raw kind

theorem judges_spec (spec : ActionSpec) :
    (if (validateAction shown spec).isNone then Verdict.accepts else .refuses).Judges
      (Answered shown) (checkSpec shown spec) := by
  unfold checkSpec
  cases validateAction shown spec with
  | none => rfl
  | some error => exact ⟨_, rfl, answered_action error⟩

theorem judges_check (read : Read) :
    (verdict shown files limits allowlist read).Judges (Answered shown)
      (check shown files limits allowlist read) := by
  cases read with
  | path value => exact judges_path value
  | media media => exact judges_media media
  | output field value => exact judges_number _ _ _ _ fun n => validate_eq_none field n
  | action field value =>
      exact judges_number field.key value (fun _ => true) (fun _ => none) fun _ => by simp
  | spec spec => exact judges_spec spec

end Checks

section Order

variable (shown : Shown) (files : FileSystem) (limits : MediaLimits) (allowlist : List OsText)

theorem runChecks_toList {ρ ε : Type} (run : ρ → Except ε Unit) (read : Option ρ) :
    runChecks run read.toList = match read with
      | none => .ok ()
      | some r => run r := by
  cases read with
  | none => rfl
  | some r =>
      rw [Option.toList_some, runChecks]
      dsimp only
      cases run r <;> rfl

theorem validateConditioningPath_eq (params : Dict) (key : Text) :
    validateConditioningPath shown files allowlist params key =
      runChecks (check shown files limits allowlist) (pathRead params key) := by
  rw [pathRead, runChecks_toList, validateConditioningPath]
  cases params.get key with
  | none => rfl
  | some value =>
      dsimp only
      rw [Option.filter_some]
      by_cases htruth : truth value = true
      · rw [if_pos htruth, if_pos htruth]
        rfl
      · rw [if_neg htruth, if_neg htruth]
        rfl

theorem validateOutput_eq (params : Dict) (field : OutputField) :
    validateOutput shown params field.key (fun n => field.validate shown limits n) =
      runChecks (check shown files limits allowlist) (outputRead params field) := by
  rw [outputRead, runChecks_toList, validateOutput, requireInt]
  cases params.get field.key <;> rfl

variable {shown} in
theorem coerceInt_eq_ok {key : Text} {value : Value} {n : ℤ}
    (h : coerceInt shown key value = .ok n) : intOf value = .ok n := by
  unfold coerceInt at h
  cases hint : intOf value with
  | ok m =>
      rw [hint] at h
      cases h
      rfl
  | error exn =>
      rw [hint] at h
      cases exn <;> cases h

-- An action knob is read as a check and then as a value.
theorem optInt_eq (params : Dict) (field : ActionField) :
    optInt shown params field.key =
      runChecks (check shown files limits allowlist) (actionRead params field) >>= fun _ =>
        .ok (givenInt params field) := by
  rw [actionRead, runChecks_toList, optInt, givenInt, given]
  cases hget : params.get field.key with
  | none => rfl
  | some value =>
      have hsome : (requireInt shown params field.key).map some =
          check shown files limits allowlist (.action field value) >>= fun _ =>
            .ok (intOf value).toOption := by
        rw [requireInt, hget, check]
        dsimp only
        cases hint : coerceInt shown field.key value with
        | error exc => rfl
        | ok n =>
            rw [coerceInt_eq_ok hint]
            rfl
      cases value with
      | none => rfl
      | _ => exact hsome

theorem intOr_eq (params : Dict) (field : ActionField) (fallback : ℤ) :
    intOr shown params field.key fallback =
      runChecks (check shown files limits allowlist) (actionRead params field) >>= fun _ =>
        .ok ((givenInt params field).getD fallback) := by
  have hopt : intOr shown params field.key fallback =
      (optInt shown params field.key).map (Option.getD · fallback) := by
    unfold intOr optInt
    split
    · rfl
    · rfl
    · cases requireInt shown params field.key <;> rfl
  rw [hopt, optInt_eq shown files limits allowlist]
  cases runChecks (check shown files limits allowlist) (actionRead params field) <;> rfl

theorem mem_actionModes {mode : Text} : mode ∈ actionModes ↔ ∃ m, actionModeOf mode = .ok m := by
  unfold actionModeOf actionModes
  split
  · simp [*]
  · split
    · simp [*]
    · split
      · simp [*]
      · simp [*]

theorem validateAction?_eq (submit : JobSubmit) :
    validateAction? shown submit =
      runChecks (check shown files limits allowlist) (actionReads shown submit) := by
  unfold validateAction? actionReads
  by_cases hmode : submit.mode ∈ actionModes
  · obtain ⟨mode, hm⟩ := mem_actionModes.mp hmode
    have hchunk : intOr shown submit.params (ascii "chunk_size") 0 = _ :=
      intOr_eq shown files limits allowlist submit.params .chunkSize 0
    have hwidth : optInt shown submit.params (ascii "raw_action_width") = _ :=
      optInt_eq shown files limits allowlist submit.params .rawActionWidth
    have htier : intOr shown submit.params (ascii "resolution_tier") 480 = _ :=
      intOr_eq shown files limits allowlist submit.params .resolutionTier 480
    rw [if_pos hmode, validateActionParams, hm, hchunk, hwidth, htier]
    dsimp only
    rw [runChecks_append, runChecks_append, runChecks_append]
    cases runChecks (check shown files limits allowlist) (actionRead submit.params .chunkSize) with
    | error exc => rfl
    | ok _ =>
        cases runChecks (check shown files limits allowlist)
            (actionRead submit.params .rawActionWidth) with
        | error exc => rfl
        | ok _ =>
            cases runChecks (check shown files limits allowlist)
                (actionRead submit.params .resolutionTier) with
            | error exc => rfl
            | ok _ =>
                show checkSpec shown (specOf shown submit mode) =
                  runChecks (check shown files limits allowlist) [.spec (specOf shown submit mode)]
                exact (runChecks_toList (check shown files limits allowlist)
                  (some (.spec (specOf shown submit mode)))).symm
  · cases hm : actionModeOf submit.mode with
    | error exn => rw [if_neg hmode, runChecks]
    | ok mode => exact absurd (mem_actionModes.mpr ⟨mode, hm⟩) hmode

-- The validation is the checks of what it reads, in its order.
theorem validateSubmission_eq (submit : JobSubmit) :
    validateSubmission shown files limits allowlist submit =
      planeForMode shown submit.mode >>= fun plane =>
        runChecks (check shown files limits allowlist) (reads shown submit) >>= fun _ =>
          .ok plane := by
  unfold validateSubmission planeForMode reads
  by_cases hmode : submit.mode ∈ generationModes ∨ submit.mode ∈ actionModes
  · rw [if_pos hmode, if_pos hmode]
    have hmedia : validateMedia shown limits submit.media =
        runChecks (check shown files limits allowlist) (submit.media.map .media).toList := by
      rw [runChecks_toList]
      cases submit.media <;> rfl
    have hresolution := validateOutput_eq shown files limits allowlist submit.params .resolution
    have hheight := validateOutput_eq shown files limits allowlist submit.params .height
    have hwidth := validateOutput_eq shown files limits allowlist submit.params .width
    have hframes := validateOutput_eq shown files limits allowlist submit.params .numFrames
    simp only [runChecks_append, ← hresolution, ← hheight, ← hwidth, ← hframes, ← hmedia,
      ← validateConditioningPath_eq, ← validateAction?_eq]
    simp only [validateConditioningPaths, validateOutputParams, bind_assoc]
    rfl
  · rw [if_neg hmode, if_neg hmode]
    rfl

end Order

def infiniteResolution : JobSubmit where
  mode := ascii "t2i"
  params := [(ascii "resolution", .float .infinity)]

end Cosmos3.Edge
