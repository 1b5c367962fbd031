import Cosmos3.Basis.Loads
import Cosmos3.Worker.Framing
import Cosmos3.Worker.Generation

namespace Cosmos3.Worker

open Basis Basis.Python Edge Jobs

section Requests

structure GenerationRequest where
  mode : Text
  caseId : Value
  prompt : Value
  negativePrompt : Value
  imagePath : Value
  generateSound : Bool
  seed : ℤ
  numFrames : ℤ
  height : ℤ
  width : ℤ
  numInferenceSteps : ℤ
  flowShift : Number := .finite 10
  guidanceScale : Number := .finite 6

-- `rawActions` is a tensor.
structure ActionRequest (τ : Type) where
  mode : ActionMode
  domainName : Text
  chunkSize : ℤ
  rawActions : Option τ
  imagePath : Value
  videoPath : Value
  resolutionTier : ℤ
  seed : ℤ
  viewPoint : Text
  prompt : Value
  caseId : Value

-- `request[key]`
def subscript (request : Dict) (key : String) : Except Exn Value :=
  (request.get (ascii key)).elim (.error .keyError) .ok

-- `request.get("params", {})`, of which `get` is called.
def paramsDict (request : Dict) : Except Exn Dict :=
  match (request.get (ascii "params")).getD (.dict []) with
  | .dict params => .ok params
  | _ => .error .attributeError

-- `_to_generation_request`
def toGenerationRequest (request : Dict) (mode : Text) : Except Exn GenerationRequest := do
  let params ← paramsDict request
  let resolution ← resolutionOf params
  let dims := defaultDimensions mode resolution
  let seed ← intKnob params "seed" 123
  let numFrames ← intKnob params "num_frames" 1
  let height ← intKnob params "height" dims.2
  let width ← intKnob params "width" dims.1
  let numInferenceSteps ← intKnob params "num_inference_steps" 8
  .ok {
    mode, seed, numFrames, height, width, numInferenceSteps
    caseId := (request.get (ascii "job_id")).getD (.str [])
    prompt := item params "prompt"
    negativePrompt := item params "negative_prompt"
    imagePath := item request "image_path"
    generateSound := present params (ascii "generate_sound") }

variable (shown : Shown)

-- `str(params.get(key, default))`
def textKnob (params : Dict) (key : String) (fallback : Text) : Text :=
  strOf shown ((params.get (ascii key)).getD (.str fallback))

-- `ActionMode(request["mode"])`
def actionModeOfValue : Value → Except Exn ActionMode
  | .str mode => actionModeOf mode
  | _ => .error .valueError

-- `_to_action_request`
def toActionRequest {τ : Type} (tensor : Value → Except Exn τ) (request : Dict) (mode : Value) :
    Except Exn (ActionRequest τ) := do
  let params ← paramsDict request
  let rawActions ← match item params "raw_actions" with
    | .none => .ok none
    | raw => (tensor raw).map some
  let mode ← actionModeOfValue mode
  let chunkSize ← intKnob params "chunk_size" 0
  let resolutionTier ← intKnob params "resolution_tier" 480
  let seed ← intKnob params "seed" 123
  .ok {
    mode, chunkSize, rawActions, resolutionTier, seed
    domainName := textKnob shown params "domain_name" []
    imagePath := item request "image_path"
    videoPath := item request "video_path"
    viewPoint := textKnob shown params "view_point" (ascii "ego_view")
    prompt := item params "prompt"
    caseId := (request.get (ascii "job_id")).getD (.str []) }

end Requests

section Replies

-- What an engine says of itself, and what it has made.
structure EngineInfo where
  engine : Text
  precision : Option Text

structure GenerationResult (φ : Type) where
  content : φ
  hasLatents : Bool
  vramPeakBytes : ℤ
  info : Option EngineInfo

structure ActionResult (φ : Type) where
  content : φ
  hasTrajectory : Bool
  vramPeakBytes : ℤ
  info : Option EngineInfo

-- What became of the sound: no sound, in the video, or in a file beside it.
inductive Audio where
  | none
  | muxed
  | sidecar (path : Text)

def Audio.info : Audio → Dict
  | .none => [(ascii "audio", .str (ascii "none"))]
  | .muxed => [(ascii "audio", .str (ascii "muxed"))]
  | .sidecar path => [(ascii "audio", .str (ascii "sidecar")), (ascii "audio_path", .str path)]

-- The encoders: each writes a file of the job and returns its path, or raises.
structure Artifacts (φ : Type) where
  imagePng : φ → Value → Except Text Text
  videoMp4 : φ → Value → Except Text Text
  videoWithAudio : φ → Value → Except Text (Text × Audio)
  latentsNpy : φ → Value → Except Text Text
  trajectoryJson : φ → Value → Except Text Text

-- `_precision_of` and `_engine_of`
def precisionOf (info : Option EngineInfo) : Text := (info.bind (·.precision)).getD (ascii "unknown")

def engineOf (info : Option EngineInfo) (default : Text) : Text :=
  ((info.map (·.engine)).filter (· ≠ [])).getD default

def isStr (text : String) : Value → Bool
  | .str t => t = ascii text
  | _ => false

def replyMeta (info : Option EngineInfo) (default : String) (vramPeakBytes : ℤ) : Dict :=
  [(ascii "engine", .str (engineOf info (ascii default))), (ascii "precision", .str (precisionOf info)),
    (ascii "vram_peak_bytes", .int vramPeakBytes)]

def update (d : Dict) (other : Dict) : Dict := other.foldl (fun d field => d.set field.1 field.2) d

def okReply (path : Text) (info : Dict) : Dict :=
  [(ascii "ok", .bool true), (ascii "artifact_path", .str path), (ascii "meta", .dict info)]

def failedReply (message : Text) : Dict :=
  [(ascii "ok", .bool false), (ascii "code", .str (ascii "internal_error")), (ascii "message", .str message)]

variable {φ : Type} (artifacts : Artifacts φ)

-- The artifact of the mode, and what it adds to the meta.
def writeGeneration (job : Value) (mode : Text) (result : GenerationResult φ) (info : Dict) :
    Except Text (Text × Dict) :=
  if mode = ascii "t2i" then (artifacts.imagePng result.content job).map (·, info)
  else if mode = ascii "t2v_audio" then
    (artifacts.videoWithAudio result.content job).map fun (path, audio) => (path, update info audio.info)
  else (artifacts.videoMp4 result.content job).map (·, info)

-- A file beside the artifact, named in the meta.
def withSidecar (key : String) (wanted : Bool) (write : Except Text Text) (info : Dict) :
    Except Text Dict :=
  if wanted then write.map fun path => info.set (ascii key) (.str path) else .ok info

-- `_encode_generation_reply`
def encodeGenerationReply (job : Value) (mode : Text) (result : GenerationResult φ) (wantLatents : Bool) :
    Except Text Dict := do
  let (path, info) ← writeGeneration artifacts job mode result
    (replyMeta result.info "diffusers_oracle" result.vramPeakBytes)
  let info ← withSidecar "latents_path" (wantLatents && result.hasLatents)
    (artifacts.latentsNpy result.content job) info
  .ok (okReply path info)

-- `_encode_action_reply`
def encodeActionReply (job : Value) (mode : Value) (result : ActionResult φ) : Except Text Dict :=
  let info := replyMeta result.info "diffusers_action" result.vramPeakBytes
  if isStr "inverse_dynamics" mode then
    (artifacts.trajectoryJson result.content job).map (okReply · info)
  else do
    let path ← artifacts.videoMp4 result.content job
    let info ← withSidecar "trajectory_path" result.hasTrajectory
      (artifacts.trajectoryJson result.content job) info
    .ok (okReply path info)

end Replies

section Connections

-- A connection as the server has it: what the client sends, how much still gets through to the
-- client before the connection breaks, if it does, and what has got through.
structure Conn where
  incoming : Reader
  room : Option ℕ
  sent : Bytes

def Conn.fits (conn : Conn) (bytes : Bytes) : Bool := conn.room.all fun room => bytes.length ≤ room

-- What a `sendall` does to the connection, also when it raises.
def Conn.pushed (conn : Conn) (bytes : Bytes) : Conn :=
  { conn with
    sent := conn.sent ++ conn.room.elim bytes (bytes.take ·)
    room := conn.room.map (· - bytes.length) }

def Conn.sendall (conn : Conn) (bytes : Bytes) : Bool × Conn := (conn.fits bytes, conn.pushed bytes)

end Connections

-- The engines of a worker, and the texts of the exceptions.
structure Engines (τ φ : Type) where
  tensor : Value → Except Exn τ
  -- the steps that are reported, and the result or the text of what was raised
  generate : GenerationRequest → List (ℤ × ℤ) × Except Text (GenerationResult φ)
  generateAction : ActionRequest τ → Except Text (ActionResult φ)
  artifacts : Artifacts φ
  exnText : Exn → Text
  failureText : Failure → Text
  structText : Text
  brokenText : Text

section Serve

variable {τ φ : Type} (shown : Shown) (engines : Engines τ φ)

def progressMessage (step : ℤ × ℤ) : Value :=
  .dict [(ascii "type", .str (ascii "progress")), (ascii "step", .int step.1), (ascii "total", .int step.2)]

def resultMessage (reply : Dict) : Value := .dict ((ascii "type", .str (ascii "result")) :: reply)

variable (dumps : Value → Bytes) (loads : Bytes → Option Value)

-- `conn.sendall(frame(obj))`, with the text of the exception where it raises.
def sendFrame (obj : Value) (conn : Conn) : Except Text Unit × Conn :=
  match frame dumps obj with
  | none => (.error engines.structText, conn)
  | some bytes =>
    let (sent, conn) := conn.sendall bytes
    (if sent then .ok () else .error engines.brokenText, conn)

-- `on_progress` for step after step, until one raises.
def relaySteps : List (ℤ × ℤ) → Conn → Except Text Unit × Conn
  | [], conn => (.ok (), conn)
  | step :: steps, conn =>
    match sendFrame engines dumps (progressMessage step) conn with
    | (.error message, conn) => (.error message, conn)
    | (.ok (), conn) => relaySteps steps conn

-- What `dispatch` tries: the engine of the request, the steps it reports and the reply.
def perform (request : Dict) (job mode : Value) : List (ℤ × ℤ) × Except Text Dict :=
  let action : Except Text Dict := do
    let asked ← (toActionRequest shown engines.tensor request mode).mapError engines.exnText
    let result ← engines.generateAction asked
    encodeActionReply engines.artifacts job mode result
  if isStr "action" (item request "kind") then ([], action)
  else
    match mode with
    | .list _ | .dict _ => ([], .error (engines.exnText .typeError))
    | .str name =>
      if name ∈ generationModes then
        match toGenerationRequest request name with
        | .error exn => ([], .error (engines.exnText exn))
        | .ok asked =>
          let (steps, result) := engines.generate asked
          (steps, result.bind fun result => encodeGenerationReply engines.artifacts job name result
            (present request (ascii "want_latents")))
      else ([], action)
    | _ => ([], action)

def replyOf : Except Text Dict → Dict
  | .ok reply => reply
  | .error message => failedReply message

-- A step that cannot be relayed is raised in the engine, and fails the request.
def dispatch (request : Value) (conn : Conn) : Except Exn Dict × Conn :=
  match request with
  | .dict fields =>
    match subscript fields "job_id", subscript fields "mode" with
    | .ok job, .ok mode =>
      let (steps, reply) := perform shown engines fields job mode
      match relaySteps engines dumps steps conn with
      | (.error message, conn) => (.ok (failedReply message), conn)
      | (.ok (), conn) => (.ok (replyOf reply), conn)
    | .error exn, _ | _, .error exn => (.error exn, conn)
  | _ => (.error .typeError, conn)

-- The answer to an exception, of which a second one is suppressed.
def sendFailure (message : Text) (conn : Conn) : Conn :=
  (sendFrame engines dumps (resultMessage (failedReply message)) conn).2

def respond (reply : Dict) (conn : Conn) : Conn :=
  match sendFrame engines dumps (resultMessage reply) conn with
  | (.ok (), conn) => conn
  | (.error message, conn) => sendFailure engines dumps message conn

-- One turn of the loop of `serve`, from `accept` to `close`.
def handle (conn : Conn) : Conn :=
  match unframe loads conn.incoming with
  | .error failure => sendFailure engines dumps (engines.failureText failure) conn
  | .ok (request, _) =>
    match dispatch shown engines dumps request conn with
    | (.error exn, conn) => sendFailure engines dumps (engines.exnText exn) conn
    | (.ok reply, conn) => respond engines dumps reply conn

end Serve

section Client

-- What `work` may raise beside what the request itself raises.
inductive WorkError where
  | path (error : PathError)
  | failure (failure : Failure)
  | gen (code message : Value)
  | python (exn : Exn)

variable (shown : Shown) (files : FileSystem) (allowlist : List OsText)

-- The conditioning path of a key, resolved, if the job has one.
def resolvedPath (params : Dict) (key : String) : Except PathError Dict :=
  match (params.get (ascii key)).filter truth with
  | none => .ok []
  | some value => (resolveWithin files (strOf shown value) allowlist).map fun path =>
      [(ascii key, .str path)]

def resolvedPaths (params : Dict) : List String → Except PathError Dict
  | [] => .ok []
  | key :: keys => do
    let path ← resolvedPath shown files allowlist params key
    let paths ← resolvedPaths params keys
    .ok (path ++ paths)

def buildRequest (record : JobRecord) (wantLatents : Bool) : Except PathError Dict := do
  let paths ← resolvedPaths shown files allowlist record.params conditioningKeys
  .ok ([(ascii "job_id", .str record.id),
    (ascii "kind", .str (if record.mode ∈ actionModes then ascii "action" else ascii "generation")),
    (ascii "mode", .str record.mode), (ascii "params", .dict record.params),
    (ascii "checkpoint", (record.params.get (ascii "checkpoint")).getD (.str (ascii "nvfp4"))),
    (ascii "want_latents", .bool wantLatents)] ++ paths)

-- What `work` makes of a reply: the artifact's path and the meta of a `WorkResult`.
def workResult (reply : Dict) : Except WorkError (Value × Value) :=
  if present reply (ascii "ok") then
    match reply.get (ascii "artifact_path") with
    | none => .error (.python .keyError)
    | some path => .ok (path, (reply.get (ascii "meta")).getD (.dict []))
  else
    .error (.gen ((reply.get (ascii "code")).getD (.str (ascii "internal_error")))
      ((reply.get (ascii "message")).getD (.str (ascii "worker error"))))

def outcome : Value → Except WorkError (Value × Value)
  | .dict reply => workResult reply
  | _ => .error (.python .attributeError)

-- `work` once the request is sent: what it reports, and what it returns or raises.
def work (loads : Bytes → Option Value) (r : Reader) : List Number × Except WorkError (Value × Value) :=
  match readReply loads r with
  | (reports, .error failure) => (.finite 0 :: reports, .error (.failure failure))
  | (reports, .ok (reply, _)) => (.finite 0 :: (reports ++ [.finite 1]), outcome reply)

end Client

end Cosmos3.Worker
