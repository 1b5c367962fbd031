import Cosmos3.Edge.Containment
import Cosmos3.Worker.Fits
import Cosmos3.Worker.PollLaws
import Cosmos3.Worker.Server

namespace Cosmos3.Worker

open Basis Basis.Python Edge Jobs

section Knobs

variable {p : Dict} {key : String}

-- Two defaults for one knob.
theorem intKnob_ok_iff (fallback other : ℤ) :
    (∃ n, intKnob p key fallback = .ok n) ↔ ∃ n, intKnob p key other = .ok n :=
  (readable_iff_intKnob fallback).symm.trans (readable_iff_intKnob other)

theorem intKnob_given {fallback other m n : ℤ} (hne : fallback ≠ other)
    (hm : intKnob p key fallback = .ok m) (hn : intKnob p key other = .ok n) :
    m = n ↔ (p.get (ascii key)).isSome := by
  cases hget : p.get (ascii key) with
  | none =>
      rw [intKnob_of_none hget] at hm hn
      obtain rfl := Except.ok.inj hm
      obtain rfl := Except.ok.inj hn
      simp [hne]
  | some value =>
      rw [intKnob_of_some hget] at hm hn
      simpa using Except.ok.inj (hm.symm.trans hn)

-- A knob that only one of the engines looks at.
theorem floatKnob_eq_iff {fallback : ℚ} {x : Number} (hx : floatKnob p key fallback = .ok x) :
    Number.finite fallback = x ↔
      ∀ value, p.get (ascii key) = some value → floatOf value = .ok (.finite fallback) := by
  unfold floatKnob at hx
  cases hget : p.get (ascii key) with
  | none =>
      rw [hget] at hx
      obtain rfl := Except.ok.inj hx
      simp
  | some value =>
      rw [hget] at hx
      have hvalue : floatOf value = .ok x := hx
      simp [hvalue, eq_comm]

end Knobs

section Engines

variable {shown : Shown} {files : FileSystem} {allowlist : List OsText} {record : JobRecord}
  {wantLatents : Bool} {request : Dict}

theorem params_request (h : buildRequest shown files allowlist record wantLatents = .ok request) :
    paramsDict request = .ok record.params := by
  obtain ⟨paths, -, h⟩ := bind_eq_ok.mp h
  obtain rfl := Except.ok.inj h
  rfl

-- What both engines make of a job. The dormant one is handed the texts as the job has them, the
-- deployed one what `str` makes of them, and nothing for an empty negative prompt.
structure SameJob (shown : Shown) (p : Dict) (asked : GenerationRequest) (params : GenerationParams) : Prop where
  width : asked.width = params.width
  height : asked.height = params.height
  numFrames : asked.numFrames = params.numFrames
  seed : asked.seed = params.seed
  generateSound : asked.generateSound = params.generateSound
  texts : asked.prompt = item p "prompt" ∧ params.prompt = promptOf shown p ∧
    asked.negativePrompt = item p "negative_prompt" ∧ params.negativePrompt = negativePromptOf shown p
  prompt : asked.prompt = .str params.prompt ↔ ∃ text, item p "prompt" = .str text
  negativePrompt : asked.negativePrompt = (params.negativePrompt.map Value.str).getD .none ↔
    item p "negative_prompt" = .none ∨ ∃ text, text ≠ [] ∧ item p "negative_prompt" = .str text
  steps : asked.numInferenceSteps = params.numInferenceSteps ↔
    (p.get (ascii "num_inference_steps")).isSome
  guidance : asked.guidanceScale = params.guidanceScale ↔
    ∀ value, p.get (ascii "guidance_scale") = some value → floatOf value = .ok (.finite 6)
  flow : asked.flowShift = params.flowShift ↔
    ∀ value, p.get (ascii "flow_shift") = some value → floatOf value = .ok (.finite 10)

theorem promptOf_eq_iff (shown : Shown) (p : Dict) :
    item p "prompt" = .str (promptOf shown p) ↔ ∃ text, item p "prompt" = .str text := by
  refine ⟨fun h => ⟨_, h⟩, ?_⟩
  rintro ⟨text, htext⟩
  unfold item at htext
  cases hget : p.get (ascii "prompt") with
  | none => rw [hget] at htext; cases htext
  | some value =>
      obtain rfl : value = .str text := by rwa [hget] at htext
      simp only [item, promptOf, hget]
      cases text <;> rfl

theorem negativePromptOf_eq_iff (shown : Shown) (p : Dict) :
    item p "negative_prompt" = ((negativePromptOf shown p).map Value.str).getD .none ↔
      item p "negative_prompt" = .none ∨ ∃ text, text ≠ [] ∧ item p "negative_prompt" = .str text := by
  unfold item negativePromptOf
  cases p.get (ascii "negative_prompt") with
  | none => simp
  | some value =>
      rw [Option.getD_some]
      cases htruth : truth value with
      | false =>
          -- what is false is no text but the empty one, and that is not passed on
          have hvalue : ∀ text, text ≠ [] → value ≠ .str text := by
            rintro text htext rfl
            simp [truth, htext] at htruth
          simp only [Option.filter, htruth, Bool.false_eq_true, if_false, Option.map_none, Option.getD_none]
          refine ⟨.inl, ?_⟩
          rintro (hnone | ⟨text, htext, hstr⟩)
          · exact hnone
          · exact absurd hstr (hvalue text htext)
      | true =>
          simp only [Option.filter, htruth, if_true, Option.map_some, Option.getD_some]
          refine ⟨fun h => .inr ⟨_, fun hnil => ?_, h⟩, ?_⟩
          · rw [h, hnil] at htruth
            cases htruth
          · rintro (rfl | ⟨text, -, rfl⟩)
            · cases htruth
            · rfl

theorem sameJob {asked : GenerationRequest} {params : GenerationParams}
    (hrequest : buildRequest shown files allowlist record wantLatents = .ok request)
    (hasked : toGenerationRequest request record.mode = .ok asked)
    (hparams : resolvedParams shown record = .ok params) : SameJob shown record.params asked params := by
  simp only [toGenerationRequest, params_request hrequest, bind_eq_ok] at hasked
  obtain ⟨_, hp, resolution, hresolution, seed, hseed, numFrames, hframes, height, hheight, width, hwidth,
    steps, hsteps, hasked⟩ := hasked
  obtain rfl := Except.ok.inj hp
  obtain rfl := Except.ok.inj hasked
  simp only [resolvedParams, bind_eq_ok] at hparams
  obtain ⟨_, hresolution', _, hwidth', _, hheight', _, hframes', _, hsteps', _, hguidance, _, hflow, _, hseed',
    _, hfps, _, hlength, hparams⟩ := hparams
  obtain rfl := Except.ok.inj hparams
  obtain rfl := Except.ok.inj (hresolution.symm.trans hresolution')
  obtain rfl := Except.ok.inj (hwidth.symm.trans hwidth')
  obtain rfl := Except.ok.inj (hheight.symm.trans hheight')
  obtain rfl := Except.ok.inj (hframes.symm.trans hframes')
  obtain rfl := Except.ok.inj (hseed.symm.trans hseed')
  constructor
  case steps => exact intKnob_given (by decide) hsteps hsteps'
  case guidance => exact floatKnob_eq_iff hguidance
  case flow => exact floatKnob_eq_iff hflow
  case prompt => exact promptOf_eq_iff shown record.params
  case negativePrompt => exact negativePromptOf_eq_iff shown record.params
  case texts => exact ⟨rfl, rfl, rfl, rfl⟩
  all_goals rfl

-- The knobs that only the deployed engine reads.
def deployedKnobs (p : Dict) : Prop :=
  (∀ key ∈ floatKnobs, Readable floatOf p key) ∧ Readable intOf p "fps" ∧ Readable intOf p "max_sequence_length"

theorem resolvedParams_ok_iff (hrequest : buildRequest shown files allowlist record wantLatents = .ok request) :
    (∃ params, resolvedParams shown record = .ok params) ↔
      (∃ asked, toGenerationRequest request record.mode = .ok asked) ∧ deployedKnobs record.params := by
  have hparams := params_request hrequest
  rw [deployedKnobs, readable_floatKnobs 6 10, readable_iff_intKnob 24, readable_iff_intKnob 4096]
  simp only [toGenerationRequest, resolvedParams, hparams, bind_eq_ok]
  constructor
  · rintro ⟨params, resolution, hresolution, width, hwidth, height, hheight, frames, hframes, steps, hsteps,
      guidance, hguidance, flow, hflow, seed, hseed, fps, hfps, length, hlength, -⟩
    obtain ⟨steps', hsteps'⟩ := (intKnob_ok_iff 35 8).mp ⟨steps, hsteps⟩
    exact ⟨⟨_, _, rfl, resolution, hresolution, seed, hseed, frames, hframes, height, hheight, width, hwidth,
      steps', hsteps', rfl⟩, ⟨⟨guidance, hguidance⟩, flow, hflow⟩, ⟨fps, hfps⟩, length, hlength⟩
  · rintro ⟨⟨asked, _, hp, resolution, hresolution, seed, hseed, frames, hframes, height, hheight, width, hwidth,
      steps, hsteps, -⟩, ⟨⟨guidance, hguidance⟩, flow, hflow⟩, ⟨fps, hfps⟩, length, hlength⟩
    obtain rfl := Except.ok.inj hp
    obtain ⟨steps', hsteps'⟩ := (intKnob_ok_iff 8 35).mp ⟨steps, hsteps⟩
    exact ⟨_, resolution, hresolution, width, hwidth, height, hheight, frames, hframes, steps', hsteps',
      guidance, hguidance, flow, hflow, seed, hseed, fps, hfps, length, hlength, rfl⟩

end Engines

end Cosmos3.Worker
