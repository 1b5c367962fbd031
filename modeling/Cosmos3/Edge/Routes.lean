import Cosmos3.Edge.Accepted

namespace Cosmos3.Edge

open Basis Basis.Python Jobs Orchestrator

-- What a request meets when it arrives: how the values are shown, the file system, the
-- limits and directories of the deployment, and its default negative prompt.
structure Host where
  shown : Shown
  files : FileSystem
  digest : Bytes → Text
  directory : OsText
  limits : MediaLimits
  allowlist : List OsText
  negativePrompt : Option Text := none

def sampleHost : Host where
  shown := .quoted
  files := ⟨id⟩
  digest := fun _ => []
  directory := ⟨ascii "/srv/artifacts", rfl⟩
  limits := .default
  allowlist := [⟨ascii "/srv/artifacts", rfl⟩]

section Checkpoints

variable (environ : Text → Option Text)

def knownCheckpoints : List Text := [ascii "fp8", ascii "nvfp4"]

def defaultCheckpoint : Text := ascii "fp8"

def deployedCheckpoint : Text :=
  let label := (environ (ascii "COSMOS3_CHECKPOINT_LABEL")).getD defaultCheckpoint
  if label ∈ knownCheckpoints then label else defaultCheckpoint

def resolveCheckpoint (shown : Shown) (checkpoint : Option Text) : Except EdgeError Text :=
  let deployed := deployedCheckpoint environ
  match checkpoint with
  | none => .ok deployed
  | some checkpoint =>
    if checkpoint = [] then .ok deployed
    else if checkpoint ∉ knownCheckpoints then
      .error (failMedia .invalidParam
        (ascii "unknown checkpoint " ++ shown.text checkpoint ++ ascii "; expected one of " ++
          repr shown (.list (knownCheckpoints.map .str))))
    else if checkpoint ≠ deployed then
      .error (failMedia .invalidParam
        (ascii "checkpoint " ++ shown.text checkpoint ++
          ascii " is not served by this deployment (serves " ++ shown.text deployed ++ ascii ")"))
    else .ok deployed

end Checkpoints

structure GenerationBody where
  prompt : Text
  negativePrompt : Option Text := none
  resolution : Option ℤ := none
  height : Option ℤ := none
  width : Option ℤ := none
  numFrames : Option ℤ := none
  numInferenceSteps : Option ℤ := none
  seed : ℤ := 123
  checkpoint : Option Text := none
  imagePath : Option Text := none
  image : Option InlineMedia := none

structure ActionBody where
  domainName : Text
  chunkSize : ℤ
  rawActions : Option (List Value) := none
  resolutionTier : ℤ := 480
  viewPoint : Text := ascii "ego_view"
  prompt : Option Text := none
  seed : ℤ := 123
  checkpoint : Option Text := none
  imagePath : Option Text := none
  videoPath : Option Text := none
  image : Option InlineMedia := none

inductive GenerationRoute where
  | t2i
  | t2v
  | i2v
  | t2vAudio
deriving DecidableEq, Repr

section Bodies

variable (environ : Text → Option Text) (host : Host)

-- An absent field is dropped.
def setSome (params : Dict) (key : String) (value : Option Value) : Dict :=
  match value with
  | none => params
  | some value => params.set (ascii key) value

theorem get_setSome {params : Dict} {key : String} {value : Option Value} {other : Text}
    (hne : other ≠ ascii key) : (setSome params key value).get other = params.get other := by
  cases value with
  | none => rfl
  | some value => exact Dict.get_set_of_ne params hne value

theorem get_setSome_self (params : Dict) (key : String) (value : Option Value) :
    (setSome params key value).get (ascii key) = value.or (params.get (ascii key)) := by
  cases value with
  | none => rfl
  | some value => exact Dict.get_set_self params (ascii key) value

def generationParams (body : GenerationBody) (numFrames : Option ℤ) (generateSound : Bool) :
    Except EdgeError Dict := do
  let checkpoint ← resolveCheckpoint environ host.shown body.checkpoint
  let params : Dict :=
    [(ascii "prompt", .str body.prompt), (ascii "seed", .int body.seed),
      (ascii "checkpoint", .str checkpoint)]
  let params := setSome params "negative_prompt" (body.negativePrompt.map .str)
  let params := setSome params "resolution" (body.resolution.map .int)
  let params := setSome params "height" (body.height.map .int)
  let params := setSome params "width" (body.width.map .int)
  let params := setSome params "num_inference_steps" (body.numInferenceSteps.map .int)
  let params := setSome params "image_path" (body.imagePath.map .str)
  let params :=
    if body.negativePrompt.isNone then
      setSome params "negative_prompt" (host.negativePrompt.map .str)
    else params
  let params := setSome params "num_frames" ((numFrames.or body.numFrames).map .int)
  .ok (if generateSound then params.set (ascii "generate_sound") (.bool true) else params)

-- The length of the first row of the raw actions, or `None`.
def rawActionWidth (rawActions : List Value) : Value :=
  match rawActions.head? with
  | some (.list items) => .int items.length
  | _ => .none

def actionBodyParams (body : ActionBody) : Except EdgeError Dict := do
  let checkpoint ← resolveCheckpoint environ host.shown body.checkpoint
  let params : Dict :=
    [(ascii "domain_name", .str body.domainName), (ascii "chunk_size", .int body.chunkSize),
      (ascii "resolution_tier", .int body.resolutionTier), (ascii "view_point", .str body.viewPoint),
      (ascii "seed", .int body.seed), (ascii "checkpoint", .str checkpoint)]
  let params := setSome params "prompt" (body.prompt.map .str)
  let params := setSome params "image_path" (body.imagePath.map .str)
  let params := setSome params "video_path" (body.videoPath.map .str)
  let params := setSome params "raw_actions" (body.rawActions.map .list)
  .ok (setSome params "raw_action_width" (body.rawActions.map rawActionWidth))

def GenerationRoute.mode : GenerationRoute → Text
  | .t2i => ascii "t2i"
  | .t2v => ascii "t2v"
  | .i2v => ascii "i2v"
  | .t2vAudio => ascii "t2v_audio"

-- The route fixes the mode and what goes with it.
def GenerationRoute.submit (route : GenerationRoute) (body : GenerationBody) :
    Except EdgeError JobSubmit :=
  let numFrames := if route = .t2i then some 1 else none
  if route = .i2v ∧ body.image.isNone ∧ body.imagePath.getD [] = [] then
    .error (failMedia .invalidParam
      (ascii "i2v requires a conditioning image ('image' or 'image_path')"))
  else do
    let params ← generationParams environ host body numFrames (route = .t2vAudio)
    .ok ⟨route.mode, params, body.image⟩

def actionSubmit (mode : ActionMode) (body : ActionBody) : Except EdgeError JobSubmit := do
  let params ← actionBodyParams environ host body
  .ok ⟨mode.value, params, body.image⟩

-- A request of one of the job routes.
inductive Request where
  | jobs (submit : JobSubmit)
  | generation (route : GenerationRoute) (body : GenerationBody)
  | action (mode : ActionMode) (body : ActionBody)

def Request.submit : Request → Except EdgeError JobSubmit
  | .jobs submit => .ok submit
  | .generation route body => route.submit environ host body
  | .action mode body => actionSubmit environ host mode body

-- What `submit_and_enqueue` hands to the store.
def prepare (submit : JobSubmit) : Except EdgeError (Plane × Dict) := do
  let plane ← validateSubmission host.shown host.files host.limits host.allowlist submit
  let params ← recordParams host.files host.digest host.directory submit
  .ok (plane, params)

def Request.prepare (request : Request) : Except EdgeError (Text × Plane × Dict) := do
  let submit ← request.submit environ host
  let (plane, params) ← Edge.prepare host submit
  .ok (submit.mode, plane, params)

end Bodies

end Cosmos3.Edge
