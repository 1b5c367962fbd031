import Cosmos3.Basis.Utf8
import Cosmos3.Worker.Client
import Cosmos3.Worker.Conditioning

namespace Cosmos3.Worker

open Basis Basis.Python Edge Jobs

-- What the worker finds around it: the settings of the deployment, the paths as they resolve,
-- and the files as they are when the job starts.
structure Surroundings where
  shown : Shown
  files : FileSystem
  volume : Files Text
  allowlist : List OsText
  directory : OsText
  limits : Except Exn MediaLimits
  guessType : Text → Option Text
  checkpoint : Text

structure WorkResult where
  artifactPath : Text
  info : Dict

def conditioningKeys : List String := ["image_path", "video_path", "audio_path"]

def actionPredictModes : List Text := [ActionMode.policy.value, ActionMode.inverseDynamics.value]

def supportedModes : List Text :=
  videoModes ++ actionPredictModes ++ [ascii "t2i", ActionMode.forwardDynamics.value]

-- `os.path.basename`
def baseName (path : Text) : Text := (path.reverse.takeWhile (· ≠ 47)).reverse

-- A carriage return, a line feed, a quote and a backslash.
def headerUnits : List UInt16 := [13, 10, 34, 92]

def sanitized (name : Text) : Text := name.map fun u => if u ∈ headerUnits then 95 else u

section Work

variable {K ε : Type} [Field K] [LinearOrder K]
variable (around : Surroundings) (transport : Transport ε) (report : K → Except ε Unit)
  (polling : Polling K) (record : JobRecord)

-- An `UntrustedPathError` that the worker turns into a typed failure.
def untrustedError : PathError → JobError ε
  | .untrusted path allowlist => fail "untrusted_path" (untrustedMessage around.shown path allowlist)
  | .python exn => .python exn

-- The conditioning paths of the record, each under its key.
def resolveConditioning : List String → Traced (Event K) (JobError ε) (List (String × Text))
  | [] => Traced.ret []
  | key :: keys =>
    match (record.params.get (ascii key)).filter truth with
    | none => resolveConditioning keys
    | some value => do
      let path ← Traced.call (.resolve (strOf around.shown value))
        ((resolveWithin around.files (strOf around.shown value) around.allowlist).mapError
          (untrustedError around))
      let rest ← resolveConditioning keys
      Traced.ret ((key, path) :: rest)

-- `conditioning.get(key)`, which is none of the empty paths.
def conditioningPath (conditioning : List (String × Text)) (key : String) : Option Text :=
  ((conditioning.find? fun entry => entry.1 = key).map (·.2)).filter (· ≠ [])

def capMessage (kind : String) (size : ℕ) (cap : ℤ) : Text :=
  ascii "conditioning " ++ ascii kind ++ ascii " is " ++ intText size ++ ascii " bytes, exceeds the " ++
    intText cap ++ ascii "-byte cap"

def readFilepart (path : Text) (kind : String) : Traced (Event K) (JobError ε) FilePart := do
  let limits ← Traced.ofExcept (around.limits.mapError .python)
  let cap := conditioningCap limits (ascii kind)
  let data ← Traced.call (.getsize path)
    (match around.volume.lookup path with
    | some bytes => .ok bytes
    | none => .error (.missing path))
  if cap < data.length then Traced.raise (fail "payload_too_large" (capMessage kind data.length cap))
  else Traced.ret {
    filename := sanitized (baseName path)
    contentType := (around.guessType path).getD (ascii "application/octet-stream")
    data := data }

-- The conditioning that a mode requires is read, or the job fails before anything is sent.
def requireFilepart (conditioning : List (String × Text)) (kind : String) (message : Text) :
    Traced (Event K) (JobError ε) FilePart :=
  match conditioningPath conditioning (kind ++ "_path") with
  | none => Traced.raise (fail "invalid_input" message)
  | some path => readFilepart around path kind

-- The first frame of a video that has one.
def videoReference (conditioning : List (String × Text)) :
    Traced (Event K) (JobError ε) (Option FilePart) :=
  if record.mode = ascii "i2v" then do
    let part ← requireFilepart around conditioning "image" (ascii "i2v requires a conditioning image")
    Traced.ret (some part)
  else Traced.ret none

-- A file of the job, under the artifact directory.
def artifactPath (ext : String) : Except PathError Text :=
  artifactPathFor around.files around.directory record.id (ascii ext)

def pathFailure : PathError → JobError ε
  | .untrusted path allowlist => .untrusted path allowlist
  | .python exn => .python exn

def writeArtifact (ext : String) (bytes : Bytes) : Traced (Event K) (JobError ε) Text := do
  let path ← Traced.ofExcept ((artifactPath around record ext).mapError pathFailure)
  Traced.call (.write path bytes) (.ok ())
  Traced.ret path

-- `json.dump` of a trajectory, which writes nothing but ASCII.
def trajectoryBytes (action : Dict) : Bytes :=
  asciiBytes (dumps around.shown.toFloatText (.list ((trajectoryOf action).getD [])))

-- The branch of each mode: the artifact, and the trajectory beside it if there is one.
def produce (fuel : ℕ) (conditioning : List (String × Text)) :
    Traced (Event K) (JobError ε) (Text × Option Text) :=
  if record.mode = ascii "t2i" then do
    let data ← runImageJob around.shown transport polling record
    let path ← writeArtifact around record "png" data
    Traced.ret (path, none)
  else if record.mode = ActionMode.forwardDynamics.value then do
    let reference ← requireFilepart around conditioning "image"
      (ascii "forward_dynamics requires a conditioning first-frame image")
    let data ← runForwardDynamicsJob around.shown transport report polling record reference
    let path ← writeArtifact around record "mp4" data
    Traced.ret (path, none)
  else if record.mode ∈ actionPredictModes then do
    let wantVideo := record.mode = ActionMode.policy.value
    let kind := if record.mode = ActionMode.inverseDynamics.value then "video" else "image"
    let reference ← requireFilepart around conditioning kind
      (record.mode ++ ascii " requires a conditioning " ++ ascii kind)
    let (action, video) ← runActionJob around.shown transport report polling record fuel reference wantVideo
    if wantVideo then
      match video.filter (· ≠ []) with
      | none => Traced.raise (fail "generation_failed"
          (record.mode ++ ascii ": server returned no rollout video"))
      | some video =>
        let path ← writeArtifact around record "mp4" video
        let trajectoryPath ← writeArtifact around record "json" (trajectoryBytes around action)
        Traced.ret (path, some trajectoryPath)
    else
      let path ← writeArtifact around record "json" (trajectoryBytes around action)
      Traced.ret (path, none)
  else do
    let reference ← videoReference around record conditioning
    let data ← runVideoJob around.shown transport report polling record fuel reference
    let path ← writeArtifact around record "mp4" data
    Traced.ret (path, none)

-- The parameters that the job is recorded with, from the same request that was sent.
def paramRecord : Except Exn Dict :=
  (workerRequest around.shown record).map fun
    | .generation params => [(ascii "seed", .int params.seed),
        (ascii "num_inference_steps", .int params.numInferenceSteps),
        (ascii "guidance_scale", .float params.guidanceScale),
        (ascii "flow_shift", .float params.flowShift), (ascii "width", .int params.width),
        (ascii "height", .int params.height), (ascii "num_frames", .int params.numFrames)]
    | .action params => [(ascii "seed", .int params.seed),
        (ascii "num_inference_steps", .int params.numInferenceSteps),
        (ascii "guidance_scale", .float params.guidanceScale),
        (ascii "flow_shift", .float params.flowShift), (ascii "width", .int params.width),
        (ascii "height", .int params.height), (ascii "num_frames", .int params.numFrames)]

def resultMeta (params : Dict) (trajectoryPath : Option Text) (conditioning : List (String × Text)) :
    Dict :=
  [(ascii "engine", .str (ascii "vllm_omni")), (ascii "precision", .str around.checkpoint)] ++ params ++
    (if record.mode ∈ actionPredictModes then
      (ascii "action_mode", .str record.mode) ::
        trajectoryPath.toList.map (ascii "trajectory_path", .str ·)
    else []) ++
    (if conditioning = [] then []
    else [(ascii "conditioning", .list ((["audio_path", "image_path", "video_path"].filter
      fun key => conditioning.any fun entry => entry.1 = key).map fun key => .str (ascii key)))])

def vllmOmniWork (fuel : ℕ) : Traced (Event K) (JobError ε) WorkResult := do
  let conditioning ← resolveConditioning around record conditioningKeys
  if record.mode ∉ supportedModes then
    Traced.raise (fail "unsupported_mode"
      (ascii "mode " ++ around.shown.text record.mode ++ ascii " is not served by the vllm-omni adapter"))
  else
    let (path, trajectoryPath) ← produce around transport report polling record fuel conditioning
    Traced.call (.report 1) ((report 1).mapError .sink)
    let params ← Traced.ofExcept ((paramRecord around record).mapError .python)
    Traced.ret { artifactPath := path, info := resultMeta around record params trajectoryPath conditioning }

end Work

end Cosmos3.Worker
