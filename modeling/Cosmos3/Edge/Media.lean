import Cosmos3.Basis.Wave
import Cosmos3.Edge.Limits

namespace Cosmos3.Edge

open Basis Basis.Python

abbrev Bytes := List UInt8

inductive Mime where
  | png
  | jpeg
  | webp
  | mp4
  | webm
  | wav
  | xWav
  | flac
deriving DecidableEq, Repr

def Mime.value : Mime → Text
  | .png => ascii "image/png"
  | .jpeg => ascii "image/jpeg"
  | .webp => ascii "image/webp"
  | .mp4 => ascii "video/mp4"
  | .webm => ascii "video/webm"
  | .wav => ascii "audio/wav"
  | .xWav => ascii "audio/x-wav"
  | .flac => ascii "audio/flac"

-- Each set in the order of its sorted members.
def imageMimes : List Mime := [.jpeg, .png, .webp]

def videoMimes : List Mime := [.mp4, .webm]

def audioMimes : List Mime := [.flac, .wav, .xWav]

inductive MediaErrorCode where
  | payloadTooLarge
  | unsupportedMediaType
  | invalidDimension
  | invalidParam
deriving DecidableEq, Repr

def MediaErrorCode.value : MediaErrorCode → Text
  | .payloadTooLarge => ascii "payload_too_large"
  | .unsupportedMediaType => ascii "unsupported_media_type"
  | .invalidDimension => ascii "invalid_dimension"
  | .invalidParam => ascii "invalid_param"

-- What a validator reads of the probed media; the duration is in seconds.
structure ProbedMedia where
  sizeBytes : ℤ
  mime : Option Mime := none
  width : Option ℤ := none
  height : Option ℤ := none
  frames : Option ℤ := none
  sampleRate : Option ℤ := none
  channels : Option ℤ := none
  duration : Option ℚ := none

structure MediaValidationError where
  code : MediaErrorCode
  message : Text
  expected : Option Value := none
  got : Option Value := none

section Validators

variable (shown : Shown) (info : ProbedMedia) (limits : MediaLimits)

def ints (values : List ℤ) : Text := repr shown (.list (values.map .int))

def mimeMessage (kind : String) (mimes : List Mime) : Text :=
  let mime := match info.mime with
    | none => .none
    | some mime => .str mime.value
  ascii kind ++ ascii " mime " ++ repr shown mime ++ ascii " not in " ++
    repr shown (.list (mimes.map fun mime => .str mime.value))

-- The two checks that the validators begin with.
def validateUpload (kind : String) (cap : ℤ) (mimes : List Mime) : Option MediaValidationError :=
  if cap < info.sizeBytes then
    some ⟨.payloadTooLarge, ascii kind ++ ascii " exceeds the byte cap", some (.int cap),
      some (.int info.sizeBytes)⟩
  else if info.mime.all (· ∉ mimes) then
    some { code := .unsupportedMediaType, message := mimeMessage shown info kind mimes }
  else none

def validateImage : Option MediaValidationError :=
  (validateUpload shown info "image" limits.maxImageBytes imageMimes).or <|
    match info.width, info.height with
    | some width, some height =>
      if min width height ≤ 0 ∨ limits.maxImageDimension < max width height then
        some ⟨.invalidDimension,
          ascii "image dimensions " ++ intText width ++ ascii "x" ++ intText height ++
            ascii " outside (0, " ++ intText limits.maxImageDimension ++ ascii "]",
          some (.int limits.maxImageDimension), some (.int (max width height))⟩
      else none
    | _, _ => none

def validateVideo : Option MediaValidationError :=
  (validateUpload shown info "video" limits.maxVideoBytes videoMimes).or <|
    (info.frames.bind fun frames =>
      if frames ≤ 0 ∨ limits.maxNumFrames < frames then
        some ⟨.invalidParam,
          ascii "video frames " ++ intText frames ++ ascii " outside (0, " ++
            intText limits.maxNumFrames ++ ascii "]",
          some (.int limits.maxNumFrames), some (.int frames)⟩
      else none).or <|
    let width := info.width.getD 0
    let height := info.height.getD 0
    if (width ≠ 0 ∨ height ≠ 0) ∧ limits.maxImageDimension < max width height then
      some ⟨.invalidDimension, ascii "video frame dimension exceeds the cap",
        some (.int limits.maxImageDimension), some (.int (max width height))⟩
    else none

-- `q > bound`
def exceeds (q : ℚ) : Number → Bool
  | .finite bound => bound < q
  | .negInfinity => true
  | .infinity | .nan => false

def validateAudio : Option MediaValidationError :=
  (validateUpload shown info "audio" limits.maxAudioBytes audioMimes).or <|
    (info.sampleRate.bind fun sampleRate =>
      if sampleRate ≠ limits.audioSampleRate then
        some ⟨.invalidParam,
          ascii "audio sample_rate must be " ++ intText limits.audioSampleRate ++ ascii " Hz",
          some (.int limits.audioSampleRate), some (.int sampleRate)⟩
      else none).or <|
    (info.channels.bind fun channels =>
      if channels ≠ limits.audioChannels then
        some ⟨.invalidParam,
          ascii "audio must have " ++ intText limits.audioChannels ++ ascii " channels",
          some (.int limits.audioChannels), some (.int channels)⟩
      else none).or <|
    info.duration.bind fun duration =>
      if exceeds duration limits.maxAudioSeconds then
        some {
          code := .invalidParam
          message := ascii "audio longer than " ++ strOf shown (.float limits.maxAudioSeconds) ++
            ascii "s" }
      else none

-- A requested output size must be one of a set.
def validateMember (what : String) (value : ℤ) (members : List ℤ) : Option MediaValidationError :=
  if value ∈ members then none
  else some ⟨.invalidDimension,
    ascii what ++ ascii " " ++ intText value ++ ascii " not in " ++ ints shown members,
    some (.str (ints shown members)), some (.int value)⟩

def validateResolution (value : ℤ) : Option MediaValidationError :=
  validateMember shown "resolution" value limits.resolutions

def validateDimension (value : ℤ) : Option MediaValidationError :=
  validateMember shown "dimension" value limits.validDimensions

def validateNumFrames (value : ℤ) : Option MediaValidationError :=
  if value ≤ 0 ∨ limits.maxNumFrames < value then
    some ⟨.invalidParam,
      ascii "num_frames " ++ intText value ++ ascii " outside (0, " ++
        intText limits.maxNumFrames ++ ascii "]",
      some (.int limits.maxNumFrames), some (.int value)⟩
  else none

end Validators

section Probes

variable (data : Bytes)

def sniffMime : Option Mime :=
  if data.take 8 = [0x89, 0x50, 0x4E, 0x47, 0x0D, 0x0A, 0x1A, 0x0A] then some .png
  else if data.take 3 = [0xFF, 0xD8, 0xFF] then some .jpeg
  else if data.take 4 = [0x52, 0x49, 0x46, 0x46] ∧ (data.drop 8).take 4 = [0x57, 0x45, 0x42, 0x50] then
    some .webp
  else if data.take 4 = [0x52, 0x49, 0x46, 0x46] ∧ (data.drop 8).take 4 = [0x57, 0x41, 0x56, 0x45] then
    some .wav
  else if data.take 4 = [0x66, 0x4C, 0x61, 0x43] then some .flac
  else if (data.drop 4).take 4 = [0x66, 0x74, 0x79, 0x70] then some .mp4
  else if data.take 4 = [0x1A, 0x45, 0xDF, 0xA3] then some .webm
  else none

-- A big-endian number.
def big (bytes : Bytes) : ℤ := bytes.foldl (fun n byte => 256 * n + byte.toNat) 0

def pngDims : Option (ℤ × ℤ) :=
  if 24 ≤ data.length ∧ (data.drop 12).take 4 = [0x49, 0x48, 0x44, 0x52] then
    some (big ((data.drop 16).take 4), big ((data.drop 20).take 4))
  else none

-- The markers of a frame start, which carry the dimensions.
def isFrameStart (marker : UInt8) : Bool :=
  0xC0 ≤ marker && marker ≤ 0xCF && marker ≠ 0xC4 && marker ≠ 0xC8 && marker ≠ 0xCC

-- `segments` is what is left of the file at the loop's index.
def jpegScan (segments : Bytes) : Option (ℤ × ℤ) :=
  match segments with
  | first :: marker :: high :: low :: rest =>
    if segments.length ≤ 9 then none
    else if first ≠ 0xFF then jpegScan (marker :: high :: low :: rest)
    else if marker = 0xD8 ∨ marker = 0xD9 ∨ (0xD0 ≤ marker ∧ marker ≤ 0xD7) then
      jpegScan (high :: low :: rest)
    else if isFrameStart marker then some (big ((rest.drop 3).take 2), big ((rest.drop 1).take 2))
    else jpegScan ((high :: low :: rest).drop (big [high, low]).toNat)
  | _ => none
termination_by segments.length
decreasing_by all_goals simp only [List.length_cons, List.length_drop]; omega

def jpegDims : Option (ℤ × ℤ) := jpegScan (data.drop 2)

def imageDims : Mime → Option (ℤ × ℤ)
  | .png => pngDims data
  | .jpeg => jpegDims data
  | _ => none

def probeImage : ProbedMedia :=
  let mime := sniffMime data
  let dims := (mime.filter (· ∈ imageMimes)).bind (imageDims data)
  { sizeBytes := data.length, mime := mime, width := dims.map (·.1), height := dims.map (·.2) }

def probeVideo : ProbedMedia := { sizeBytes := data.length, mime := sniffMime data }

-- An error of the reader itself or the end of the file leaves the facts unknown; the
-- error of a seek is not caught.
def probeAudio : Except Exn ProbedMedia :=
  let probed : ProbedMedia := { sizeBytes := data.length, mime := sniffMime data }
  if sniffMime data = some .wav then
    match Wave.openRead data with
    | .ok header => .ok { probed with
        sampleRate := some header.frameRate
        channels := some header.channels
        duration :=
          if header.frameRate = 0 then none else some (header.frames / header.frameRate : ℚ) }
    | .error .runtimeError => .error .runtimeError
    | .error _ => .ok probed
  else .ok probed

end Probes

end Cosmos3.Edge
