import Cosmos3.Worker.Framing
import Cosmos3.Worker.Request

namespace Cosmos3.Worker

open Basis Basis.Python Edge Jobs

structure FilePart where
  filename : Text
  contentType : Text
  data : Bytes

inductive FormValue where
  | text (value : Text)
  | file (part : FilePart)

abbrev Form := List (Text × FormValue)

section Forms

variable (shown : Shown) (record : JobRecord)

def sizeText (width height : ℤ) : Text := intText width ++ ascii "x" ++ intText height

def floatText (x : Number) : Text := strOf shown (.float x)

def inputReference (part : FilePart) : Text × FormValue := (ascii "input_reference", .file part)

def buildVideoForm (reference : Option FilePart) : Except Exn Form := do
  let rp ← resolvedParams shown record
  .ok ([(ascii "prompt", .text rp.prompt),
    (ascii "size", .text (sizeText rp.width rp.height)),
    (ascii "num_frames", .text (intText rp.numFrames)),
    (ascii "fps", .text (intText rp.fps)),
    (ascii "num_inference_steps", .text (intText rp.numInferenceSteps)),
    (ascii "guidance_scale", .text (floatText shown rp.guidanceScale)),
    (ascii "flow_shift", .text (floatText shown rp.flowShift)),
    (ascii "seed", .text (intText rp.seed)),
    (ascii "max_sequence_length", .text (intText rp.maxSequenceLength)),
    (ascii "extra_params", .text (dumps shown.toFloatText
      (.dict [(ascii "use_resolution_template", .bool false),
        (ascii "use_duration_template", .bool false), (ascii "guardrails", .bool false)])))] ++
    (rp.negativePrompt.filter (· ≠ [])).toList.map (ascii "negative_prompt", .text ·) ++
    (if rp.generateSound then [(ascii "generate_sound", .text (ascii "true"))] else []) ++
    reference.toList.map inputReference)

def buildImageBody : Except Exn Dict := do
  let rp ← resolvedParams shown record
  .ok ([(ascii "prompt", .str rp.prompt),
    (ascii "size", .str (sizeText rp.width rp.height)),
    (ascii "n", .int 1),
    (ascii "response_format", .str (ascii "b64_json")),
    (ascii "num_inference_steps", .int rp.numInferenceSteps),
    (ascii "guidance_scale", .float rp.guidanceScale),
    (ascii "seed", .int rp.seed)] ++
    (rp.negativePrompt.filter (· ≠ [])).toList.map (ascii "negative_prompt", .str ·))

-- The form that the action modes share.
def actionForm (params : ActionParams) (reference : FilePart) : Form :=
  [(ascii "prompt", .text params.prompt),
    (ascii "size", .text (sizeText params.width params.height)),
    (ascii "num_frames", .text (intText params.numFrames)),
    (ascii "fps", .text (intText params.fps)),
    (ascii "num_inference_steps", .text (intText params.numInferenceSteps)),
    (ascii "guidance_scale", .text (floatText shown params.guidanceScale)),
    (ascii "flow_shift", .text (floatText shown params.flowShift)),
    (ascii "seed", .text (intText params.seed)),
    (ascii "extra_params", .text (dumps shown.toFloatText (.dict params.extraParams))),
    inputReference reference]

def buildFdForm (reference : FilePart) : Except Exn Form :=
  (fdResolvedParams shown record).map (actionForm shown · reference)

def buildActionForm (reference : FilePart) : Except Exn Form :=
  (actionResolvedParams shown record).map (actionForm shown · reference)

end Forms

end Cosmos3.Worker
