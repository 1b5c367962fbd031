import Cosmos3.Edge.Accepted

namespace Cosmos3.Worker

open Basis Basis.Python Edge Jobs

structure GenerationParams where
  prompt : Text
  negativePrompt : Option Text
  width : ℤ
  height : ℤ
  numFrames : ℤ
  numInferenceSteps : ℤ
  guidanceScale : Number
  flowShift : Number
  seed : ℤ
  fps : ℤ
  maxSequenceLength : ℤ
  generateSound : Bool

structure ActionParams where
  prompt : Text
  width : ℤ
  height : ℤ
  numFrames : ℤ
  fps : ℤ
  numInferenceSteps : ℤ
  guidanceScale : Number
  flowShift : Number
  seed : ℤ
  extraParams : Dict

inductive Request where
  | generation (params : GenerationParams)
  | action (params : ActionParams)

section Knobs

variable (shown : Shown) (p : Dict)

-- `int(p.get(key, default))`, and the same for floats.
def intKnob (key : String) (fallback : ℤ) : Except Exn ℤ :=
  intOf ((p.get (ascii key)).getD (.int fallback))

def floatKnob (key : String) (fallback : ℚ) : Except Exn Number :=
  floatOf ((p.get (ascii key)).getD (.float (.finite fallback)))

-- `str(p.get("prompt", "") or "")`
def promptOf : Text :=
  match (p.get (ascii "prompt")).filter truth with
  | none => []
  | some value => strOf shown value

def negativePromptOf : Option Text :=
  ((p.get (ascii "negative_prompt")).filter truth).map (strOf shown)

end Knobs

section Generation

def videoModes : List Text := [ascii "t2v", ascii "i2v", ascii "t2v_audio"]

def defaultDimensions (mode : Text) (resolution : Option ℤ) : ℤ × ℤ :=
  match resolution with
  | some resolution => (resolution, resolution)
  | none => if mode ∈ videoModes then (1280, 720) else (480, 480)

-- `int(p_res) if p_res is not None else None`
def resolutionOf (p : Dict) : Except Exn (Option ℤ) :=
  match p.get (ascii "resolution") with
  | none | some .none => .ok none
  | some value => (intOf value).map some

def resolvedParams (shown : Shown) (record : JobRecord) : Except Exn GenerationParams := do
  let p := record.params
  let resolution ← resolutionOf p
  let dims := defaultDimensions record.mode resolution
  let width ← intKnob p "width" dims.1
  let height ← intKnob p "height" dims.2
  let numFrames ← intKnob p "num_frames" 1
  let numInferenceSteps ← intKnob p "num_inference_steps" 35
  let guidanceScale ← floatKnob p "guidance_scale" 6
  let flowShift ← floatKnob p "flow_shift" 10
  let seed ← intKnob p "seed" 123
  let fps ← intKnob p "fps" 24
  let maxSequenceLength ← intKnob p "max_sequence_length" 4096
  .ok {
    prompt := promptOf shown p
    negativePrompt := negativePromptOf shown p
    generateSound := present p (ascii "generate_sound")
    width, height, numFrames, numInferenceSteps, guidanceScale, flowShift, seed, fps
    maxSequenceLength }

end Generation

section Action

-- `round(tier * 4 / 3)`: the quotient is too large for a float, or is no tie.
def fourThirds (tier : ℤ) : Except Exn ℤ :=
  let quotient : ℚ := tier * 4 / 3
  if -floatBound < quotient ∧ quotient < floatBound then .ok ((8 * tier + 3) / 6)
  else .error .overflowError

-- A value of a dict, or `None`.
def item (p : Dict) (key : String) : Value := (p.get (ascii key)).getD .none

def actionExtraParams (p : Dict) (mode : Text) : Except Exn Dict :=
  .ok [(ascii "action_mode", .str mode), (ascii "domain_name", item p "domain_name"),
    (ascii "raw_action_dim", item p "raw_action_width"),
    (ascii "action_chunk_size", item p "chunk_size"), (ascii "action", item p "raw_actions")]

-- `raw_action_dim_of(domain) if domain else None`: lists and dicts are no keys of a
-- dict.
def dimOf (domain : Value) : Except Exn Value :=
  if truth domain then
    match domain with
    | .str name => .ok (((rawActionDimOf name).map Value.int).getD .none)
    | .list _ | .dict _ => .error .typeError
    | _ => .ok .none
  else .ok .none

def actionExtraParamsPredict (p : Dict) (mode : Text) : Except Exn Dict := do
  let dim ← dimOf (item p "domain_name")
  .ok [(ascii "action_mode", .str mode), (ascii "domain_name", item p "domain_name"),
    (ascii "raw_action_dim", dim), (ascii "action_chunk_size", item p "chunk_size"),
    (ascii "view_point", (p.get (ascii "view_point")).getD (.str (ascii "ego_view")))]

-- The recipe that the two kinds of action jobs share.
def recipe (extraParams : Dict → Text → Except Exn Dict) (shown : Shown) (record : JobRecord) :
    Except Exn ActionParams := do
  let p := record.params
  let tier ← intKnob p "resolution_tier" 480
  let width ← fourThirds tier
  let chunk ← intKnob p "chunk_size" 0
  let numFrames ← intKnob p "num_frames" (chunk + 1)
  let fps ← intKnob p "fps" 10
  let numInferenceSteps ← intKnob p "num_inference_steps" 30
  let guidanceScale ← floatKnob p "guidance_scale" 1
  let flowShift ← floatKnob p "flow_shift" 5
  let seed ← intKnob p "seed" 123
  let extraParams ← extraParams p record.mode
  .ok {
    prompt := promptOf shown p
    width := width - width % 2
    height := tier
    numFrames, fps, numInferenceSteps, guidanceScale, flowShift, seed, extraParams }

def fdResolvedParams : Shown → JobRecord → Except Exn ActionParams := recipe actionExtraParams

def actionResolvedParams : Shown → JobRecord → Except Exn ActionParams :=
  recipe actionExtraParamsPredict

end Action

-- The request for a job, by its mode.
def workerRequest (shown : Shown) (record : JobRecord) : Except Exn Request :=
  if record.mode = ActionMode.forwardDynamics.value then
    (fdResolvedParams shown record).map .action
  else if record.mode ∈ actionModes then (actionResolvedParams shown record).map .action
  else (resolvedParams shown record).map .generation

end Cosmos3.Worker
