import Cosmos3.Basis.Base64
import Cosmos3.Edge.ActionSchema
import Cosmos3.Edge.Media
import Cosmos3.Edge.Paths
import Cosmos3.Jobs.Store

namespace Cosmos3.Edge

open Basis Basis.Python Jobs Orchestrator

structure InlineMedia where
  kind : Text
  dataBase64 : Text

structure JobSubmit where
  mode : Text
  params : Dict
  media : Option InlineMedia := none

-- What a submission can end in: the typed errors, and any other exception.
inductive EdgeError where
  | media (error : MediaValidationError)
  | action (error : ActionValidationError)
  | untrustedPath (path : Text) (allowlist : List OsText)
  | store (error : StoreError)
  | python (exn : Exn)

structure ErrorBody extends ErrorModel where
  details : Option Dict := none

section Responses

variable (shown : Shown)

def mediaStatus : MediaErrorCode → Nat
  | .payloadTooLarge => 413
  | .unsupportedMediaType => 415
  | .invalidDimension => 422
  | .invalidParam => 422

def details (expected got : Option Value) : Option Dict :=
  let out := (expected.map (ascii "expected", ·)).toList ++ (got.map (ascii "got", ·)).toList
  if out.isEmpty then none else some out

def untrustedMessage (path : Text) (allowlist : List OsText) : Text :=
  ascii "path " ++ shown.text path ++ ascii " is outside the trusted allowlist " ++
    repr shown (.list (allowlist.map fun root => .str root.text))

def toErrorResponse : EdgeError → Nat × ErrorBody
  | .media err =>
      (mediaStatus err.code, { code := err.code.value, message := err.message,
                               details := details err.expected err.got })
  | .action err =>
      (422, { code := err.code.value, message := err.message,
              details := details (err.expected.map .int) (err.got.map .int) })
  | .untrustedPath path allowlist =>
      (422, { code := ascii "untrusted_path", message := untrustedMessage shown path allowlist })
  | .store (.idempotencyConflict key) =>
      (409, { code := ascii "idempotency_conflict"
              message := ascii "Idempotency-Key " ++ shown.text key ++
                ascii " reused with a different payload" })
  | .store (.transition err) => (409, { code := ascii "illegal_transition", message := err.message })
  | .store (.jobNotFound job) =>
      (404, { code := ascii "not_found"
              message := ascii "job " ++ shown.text job ++ ascii " not found" })
  | .python _ => (500, { code := ascii "internal_error", message := ascii "internal server error" })

-- The error is answered with a body of the 4xx range.
def Answered (exc : EdgeError) : Prop :=
  400 ≤ (toErrorResponse shown exc).1 ∧ (toErrorResponse shown exc).1 < 500

theorem answered_iff (exc : EdgeError) : Answered shown exc ↔ ∀ exn, exc ≠ .python exn := by
  unfold Answered
  rcases exc with err | err | _ | err | exn
  · rcases err with ⟨code, _, _, _⟩
    cases code <;> simp [toErrorResponse, mediaStatus]
  · simp [toErrorResponse]
  · simp [toErrorResponse]
  · cases err <;> simp [toErrorResponse]
  · simp [toErrorResponse]

end Responses

def generationModes : List Text := [ascii "t2i", ascii "t2v", ascii "i2v", ascii "t2v_audio"]

def actionModes : List Text :=
  [ActionMode.forwardDynamics.value, ActionMode.inverseDynamics.value, ActionMode.policy.value]

-- `ActionMode(mode)`
def actionModeOf (mode : Text) : Except Exn ActionMode :=
  if mode = ActionMode.forwardDynamics.value then .ok .forwardDynamics
  else if mode = ActionMode.inverseDynamics.value then .ok .inverseDynamics
  else if mode = ActionMode.policy.value then .ok .policy
  else .error .valueError

def failMedia (code : MediaErrorCode) (message : Text) : EdgeError :=
  .media { code := code, message := message }

-- A validator's verdict, raised when it is an error.
def raiseMedia : Option MediaValidationError → Except EdgeError Unit
  | none => .ok ()
  | some error => .error (.media error)

section Params

variable (shown : Shown) (params : Dict) (key : Text)

-- Only the two errors of a value that is no integer are caught.
def coerceInt (value : Value) : Except EdgeError ℤ :=
  match intOf value with
  | .ok n => .ok n
  | .error .typeError | .error .valueError =>
      .error (failMedia .invalidParam (shown.text key ++ ascii " must be an integer"))
  | .error exn => .error (.python exn)

def requireInt : Except EdgeError ℤ :=
  match params.get key with
  | none => .error (.python .keyError)
  | some value => coerceInt shown key value

def intOr (fallback : ℤ) : Except EdgeError ℤ :=
  match params.get key with
  | none | some .none => .ok fallback
  | some _ => requireInt shown params key

def optInt : Except EdgeError (Option ℤ) :=
  match params.get key with
  | none | some .none => .ok none
  | some _ => (requireInt shown params key).map some

end Params

section Validation

variable (shown : Shown) (files : FileSystem) (limits : MediaLimits) (allowlist : List OsText)

def planeForMode (mode : Text) : Except EdgeError Plane :=
  if mode ∈ generationModes ∨ mode ∈ actionModes then .ok .generation
  else .error (failMedia .invalidParam (ascii "unknown job mode " ++ shown.text mode))

def validateOutput (params : Dict) (key : Text) (validate : ℤ → Option MediaValidationError) :
    Except EdgeError Unit :=
  if (params.get key).isSome then do raiseMedia (validate (← requireInt shown params key))
  else .ok ()

def validateOutputParams (params : Dict) : Except EdgeError Unit := do
  validateOutput shown params (ascii "resolution") (validateResolution shown limits)
  validateOutput shown params (ascii "height") (validateDimension shown limits)
  validateOutput shown params (ascii "width") (validateDimension shown limits)
  validateOutput shown params (ascii "num_frames") (validateNumFrames limits)

-- `bool(params.get(key))`
def present (params : Dict) (key : Text) : Bool := ((params.get key).map truth).getD false

def domainName (params : Dict) : Text :=
  ((params.get (ascii "domain_name")).map (strOf shown)).getD []

def validateActionParams (mode : Text) (params : Dict) (hasInlineImage hasInlineVideo : Bool) :
    Except EdgeError Unit := do
  let mode ← (actionModeOf mode).mapError .python
  let chunkSize ← intOr shown params (ascii "chunk_size") 0
  let rawActionWidth ← optInt shown params (ascii "raw_action_width")
  let resolutionTier ← intOr shown params (ascii "resolution_tier") 480
  match validateAction shown {
      mode, chunkSize, rawActionWidth, resolutionTier
      domainName := domainName shown params
      hasImage := present params (ascii "image_path") || hasInlineImage
      hasVideo := present params (ascii "video_path") || hasInlineVideo } with
  | none => .ok ()
  | some error => .error (.action error)

inductive MediaKind where
  | image
  | video
  | audio
deriving DecidableEq, Repr

def MediaKind.value : MediaKind → Text
  | .image => ascii "image"
  | .video => ascii "video"
  | .audio => ascii "audio"

def mediaKind? (kind : Text) : Option MediaKind :=
  [MediaKind.image, .video, .audio].find? fun known => known.value = kind

def byteCap : MediaKind → ℤ
  | .image => limits.maxImageBytes
  | .video => limits.maxVideoBytes
  | .audio => limits.maxAudioBytes

def probeAndValidate (raw : Bytes) : MediaKind → Except EdgeError Unit
  | .image => raiseMedia (validateImage shown (probeImage raw) limits)
  | .video => raiseMedia (validateVideo shown (probeVideo raw) limits)
  | .audio =>
    match probeAudio raw with
    | .error exn => .error (.python exn)
    | .ok probed => raiseMedia (validateAudio shown probed limits)

def validateInlineMedia (media : InlineMedia) : Except EdgeError Unit :=
  match mediaKind? media.kind with
  | none =>
      .error (failMedia .unsupportedMediaType (ascii "unknown media kind " ++ shown.text media.kind))
  | some kind =>
    if byteCap limits kind * 2 < (codePoints media.dataBase64).length then
      .error (failMedia .payloadTooLarge (media.kind ++ ascii " payload exceeds the byte cap"))
    else
      match Base64.b64decode media.dataBase64 with
      | .error error =>
          .error (failMedia .invalidParam (ascii "invalid base64 media: " ++ error.message))
      | .ok raw => probeAndValidate shown limits raw kind

def PathError.toEdge : PathError → EdgeError
  | .untrusted path allowlist => .untrustedPath path allowlist
  | .python exn => .python exn

def validateConditioningPath (params : Dict) (key : Text) : Except EdgeError Unit :=
  match params.get key with
  | none => .ok ()
  | some value =>
    if truth value then
      ((resolveWithin files (strOf shown value) allowlist).mapError PathError.toEdge).map fun _ => ()
    else .ok ()

def validateConditioningPaths (params : Dict) : Except EdgeError Unit := do
  validateConditioningPath shown files allowlist params (ascii "image_path")
  validateConditioningPath shown files allowlist params (ascii "video_path")
  validateConditioningPath shown files allowlist params (ascii "audio_path")

def JobSubmit.hasInline (submit : JobSubmit) (kind : MediaKind) : Bool :=
  submit.media.any fun media => media.kind = kind.value

def validateMedia : Option InlineMedia → Except EdgeError Unit
  | none => .ok ()
  | some media => validateInlineMedia shown limits media

def validateAction? (submit : JobSubmit) : Except EdgeError Unit :=
  if submit.mode ∈ actionModes then
    validateActionParams shown submit.mode submit.params (submit.hasInline .image)
      (submit.hasInline .video)
  else .ok ()

def validateSubmission (submit : JobSubmit) : Except EdgeError Plane := do
  let plane ← planeForMode shown submit.mode
  validateConditioningPaths shown files allowlist submit.params
  validateMedia shown limits submit.media
  validateOutputParams shown limits submit.params
  validateAction? shown submit
  return plane

end Validation

end Cosmos3.Edge
