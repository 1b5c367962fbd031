import Cosmos3.Studio.Draft
import Cosmos3.Worker.Fits

namespace Cosmos3.Studio

open Basis Basis.Python Edge Jobs Orchestrator

section Params

variable {environ : Text → Option Text} {host : Host} {body : GenerationBody} {numFrames : Option ℤ}
  {generateSound : Bool} {params : Dict}

-- What the params of a generation submission hold, by their keys.
structure Carries (host : Host) (body : GenerationBody) (numFrames : Option ℤ) (generateSound : Bool)
    (params : Dict) : Prop where
  prompt : params.get (ascii "prompt") = some (.str body.prompt)
  seed : params.get (ascii "seed") = some (.int body.seed)
  negativePrompt : params.get (ascii "negative_prompt") =
    (body.negativePrompt.or host.negativePrompt).map .str
  resolution : params.get (ascii "resolution") = body.resolution.map .int
  height : params.get (ascii "height") = body.height.map .int
  width : params.get (ascii "width") = body.width.map .int
  numInferenceSteps : params.get (ascii "num_inference_steps") = body.numInferenceSteps.map .int
  numFrames : params.get (ascii "num_frames") = (numFrames.or body.numFrames).map .int
  imagePath : params.get (ascii "image_path") = body.imagePath.map .str
  generateSound : params.get (ascii "generate_sound") = if generateSound then some (.bool true) else none
  others : ∀ key ∈ ["video_path", "audio_path", "guidance_scale", "flow_shift", "fps",
    "max_sequence_length"], params.get (ascii key) = none

theorem carries_generationParams
    (h : generationParams environ host body numFrames generateSound = .ok params) :
    Carries host body numFrames generateSound params := by
  unfold generationParams at h
  obtain ⟨label, -, h⟩ := bind_eq_ok.mp h
  dsimp only at h
  have hsound : ∀ key, key ≠ ascii "generate_sound" → ∀ q : Dict,
      (if generateSound then q.set (ascii "generate_sound") (.bool true) else q).get key = q.get key := by
    intro key hne q
    split_ifs
    · exact Dict.get_set_of_ne q hne _
    · rfl
  have hnegative : ∀ key, key ≠ ascii "negative_prompt" → ∀ q : Dict,
      (if body.negativePrompt.isNone then setSome q "negative_prompt" (host.negativePrompt.map .str)
        else q).get key = q.get key := by
    intro key hne q
    split_ifs
    · exact get_setSome hne
    · rfl
  obtain rfl := Except.ok.inj h
  constructor
  case generateSound =>
    cases generateSound with
    | true => exact Dict.get_set_self _ _ _
    | false =>
        simp (disch := decide) only [Bool.false_eq_true, if_false, get_setSome, hnegative]
        rfl
  case negativePrompt =>
    simp (disch := decide) only [hsound, get_setSome]
    cases body.negativePrompt with
    | none =>
        simp (disch := decide) only [Option.isNone_none, if_true, get_setSome_self, get_setSome]
        exact Option.or_none
    | some negative =>
        simp (disch := decide) only [Option.isNone_some, Bool.false_eq_true, if_false, get_setSome_self, get_setSome]
        rfl
  case others =>
    simp only [List.forall_mem_cons, List.not_mem_nil, false_imp_iff, implies_true, and_true]
    simp (disch := decide) only [hsound, hnegative, get_setSome]
    exact ⟨rfl, rfl, rfl, rfl, rfl, rfl⟩
  case prompt | seed =>
    simp (disch := decide) only [hsound, hnegative, get_setSome]
    rfl
  all_goals
    simp (disch := decide) only [hsound, hnegative, get_setSome, get_setSome_self]
    exact Option.or_none

end Params

section Accepts

variable {environ : Text → Option Text} {host : Host} {d : Draft} {params : Dict}

-- The frames that are asked for: one of an image, and what the draft says of a video.
def Draft.frames (d : Draft) : Option ℤ := if d.mode = .t2i then some 1 else d.params.numFrames

def Draft.inline (d : Draft) : Option InlineMedia := (buildRequest d).2.image

theorem not_blocking_i2v (hflags : hasBlockingFlag (flagImpossible d) = false) (hmode : d.mode = .i2v) :
    ∃ media, d.media = some media ∧ d.inline = some ⟨ascii "image", media.dataBase64⟩ := by
  unfold flagImpossible at hflags
  cases hmedia : d.media with
  | none =>
      rw [hmedia] at hflags
      simp [hmode, hasBlockingFlag] at hflags
  | some media =>
      rw [hmedia] at hflags
      by_cases hkind : media.kind = .image
      · exact ⟨media, rfl, by simp [Draft.inline, buildRequest, hmode, hmedia, hkind]⟩
      · simp [hkind, hasBlockingFlag] at hflags

theorem path_mode (mode : GenMode) : mode.path.mode = mode.value := by cases mode <;> rfl

theorem path_eq_t2i {mode : GenMode} : mode.path = .t2i ↔ mode = .t2i := by
  cases mode <;> simp [GenMode.path]

theorem path_eq_i2v {mode : GenMode} : mode.path = .i2v ↔ mode = .i2v := by
  cases mode <;> simp [GenMode.path]

theorem path_eq_t2vAudio {mode : GenMode} : mode.path = .t2vAudio ↔ mode = .t2vAudio := by
  cases mode <;> simp [GenMode.path]

-- The route takes the draft's body as it is.
theorem submit_draft (hflags : hasBlockingFlag (flagImpossible d) = false) :
    ∃ params, (buildRequest d).1.submit environ host (buildRequest d).2 =
        .ok ⟨d.mode.value, params, d.inline⟩ ∧
      Carries host (buildRequest d).2 (if d.mode = .t2i then some 1 else none) (d.mode = .t2vAudio) params := by
  obtain ⟨params, hparams⟩ : ∃ params, generationParams environ host (buildRequest d).2
      (if d.mode = .t2i then some 1 else none) (d.mode = .t2vAudio) = .ok params := ⟨_, rfl⟩
  refine ⟨params, ?_, carries_generationParams hparams⟩
  have hguard : ¬(d.mode.path = .i2v ∧ d.inline.isNone ∧ (buildRequest d).2.imagePath.getD [] = []) := by
    rintro ⟨hroute, himage, -⟩
    obtain ⟨media, -, hinline⟩ := not_blocking_i2v hflags (path_eq_i2v.mp hroute)
    rw [hinline] at himage
    cases himage
  have hroute : (buildRequest d).1 = d.mode.path := rfl
  have hinline : (buildRequest d).2.image = d.inline := rfl
  rw [GenerationRoute.submit, hroute, hinline, if_neg hguard]
  simp only [path_eq_t2i, path_eq_t2vAudio, hparams, path_mode]
  rfl

theorem mode_mem (mode : GenMode) : mode.value ∈ generationModes := by cases mode <;> decide

theorem mode_notMem (mode : GenMode) : mode.value ∉ actionModes := by cases mode <;> decide

theorem check_output_int (field : OutputField) (n : ℤ) :
    check host.shown host.files host.limits host.allowlist (.output field (.int n)) = .ok () ↔
      field.valid host.limits n = true := by
  rw [(judges_check _).ok_iff, verdict, numberVerdict]
  cases hvalid : field.valid host.limits n <;> simp [isInfinite, intOf, Except.toOption, hvalid]

theorem Carries.frames (h : Carries host (buildRequest d).2 (if d.mode = .t2i then some 1 else none)
      (d.mode = .t2vAudio) params) : params.get (ascii "num_frames") = d.frames.map .int := by
  rw [h.numFrames, Draft.frames, buildRequest]
  by_cases hmode : d.mode = .t2i <;> simp [hmode]

-- What is looked at in a draft's submission: its image, the two dimensions and the frames.
theorem reads_draft (hcarries : Carries host (buildRequest d).2 (if d.mode = .t2i then some 1 else none)
      (d.mode = .t2vAudio) params) :
    reads host.shown ⟨d.mode.value, params, d.inline⟩ =
      (d.inline.map .media).toList ++ ((d.params.height.map fun n => .output .height (.int n)).toList ++
        ((d.params.width.map fun n => .output .width (.int n)).toList ++
          (d.frames.map fun n => .output .numFrames (.int n)).toList)) := by
  have hframes := hcarries.frames
  have hactions : actionReads host.shown ⟨d.mode.value, params, d.inline⟩ = [] := by
    have hmode : ∀ mode, actionModeOf d.mode.value ≠ .ok mode := fun mode h =>
      mode_notMem d.mode (mem_actionModes.mpr ⟨mode, h⟩)
    unfold actionReads
    cases hm : actionModeOf d.mode.value with
    | ok mode => exact absurd hm (hmode mode)
    | error exn => rfl
  have himage : params.get (ascii "image_path") = none := hcarries.imagePath
  have hvideo := hcarries.others "video_path" (by simp)
  have haudio := hcarries.others "audio_path" (by simp)
  have hresolution : params.get (ascii "resolution") = none := hcarries.resolution
  rw [Edge.reads, if_pos (.inl (mode_mem d.mode)), hactions]
  simp only [pathRead, outputRead, OutputField.key, himage, hvideo, haudio, hresolution, hframes,
    hcarries.height, hcarries.width]
  simp [buildRequest, Function.comp_def]

-- What the server asks of a draft that the panel lets through.
structure Servable (host : Host) (d : Draft) : Prop where
  frames : ∀ n, d.frames = some n → 0 < n ∧ n ≤ host.limits.maxNumFrames
  image : ∀ media, d.inline = some media →
    validateInlineMedia host.shown host.limits media = .ok () ∧
      ∃ q, persistInlineMedia host.files host.digest host.directory media [] = .ok q

-- Whether an image can be stored has nothing to do with the other params.
theorem persist_ok_iff {media : InlineMedia} {p : Dict} :
    (∃ q, persistInlineMedia host.files host.digest host.directory media p = .ok q) ↔
      ∃ q, persistInlineMedia host.files host.digest host.directory media [] = .ok q := by
  unfold persistInlineMedia
  cases Base64.b64decode media.dataBase64 with
  | error e => simp
  | ok raw =>
      dsimp only
      cases artifactPathFor host.files host.directory (ascii "cond_" ++ (host.digest raw).take 16)
          (mediaExt media.kind) <;> simp

theorem validate_draft_iff (hoffered : Offered d.params) (hdims : host.limits.validDimensions = VALID_DIMENSIONS)
    (hcarries : Carries host (buildRequest d).2 (if d.mode = .t2i then some 1 else none)
      (d.mode = .t2vAudio) params) :
    (∃ plane, validateSubmission host.shown host.files host.limits host.allowlist
        ⟨d.mode.value, params, d.inline⟩ = .ok plane) ↔
      (∀ n, d.frames = some n → 0 < n ∧ n ≤ host.limits.maxNumFrames) ∧
        ∀ media, d.inline = some media → validateInlineMedia host.shown host.limits media = .ok () := by
  obtain ⟨⟨height, hheight, heqh⟩, ⟨width, hwidth, heqw⟩⟩ := hoffered
  have hplane : planeForMode host.shown d.mode.value = .ok .generation := if_pos (.inl (mode_mem d.mode))
  have hread := reads_draft hcarries
  rw [heqh, heqw] at hread
  have hh : OutputField.valid host.limits height .height = true := by
    rw [OutputField.valid, hdims]
    exact decide_eq_true hheight
  have hw : OutputField.valid host.limits width .width = true := by
    rw [OutputField.valid, hdims]
    exact decide_eq_true hwidth
  have hchecks : runChecks (check host.shown host.files host.limits host.allowlist)
      (reads host.shown ⟨d.mode.value, params, d.inline⟩) = .ok () ↔
        (∀ n, d.frames = some n → 0 < n ∧ n ≤ host.limits.maxNumFrames) ∧
          ∀ media, d.inline = some media → validateInlineMedia host.shown host.limits media = .ok () := by
    have hvalid : ∀ n, OutputField.valid host.limits n .numFrames = true ↔
        0 < n ∧ n ≤ host.limits.maxNumFrames := fun n => by simp [OutputField.valid]
    have hmedia : ∀ media, check host.shown host.files host.limits host.allowlist (.media media) =
        validateInlineMedia host.shown host.limits media := fun _ => rfl
    rw [runChecks_eq_ok, hread]
    simp only [List.forall_mem_append, Option.mem_toList, Option.map_some, Option.some.injEq, forall_eq',
      Option.map_eq_some_iff, forall_exists_index, and_imp, forall_apply_eq_imp_iff₂, check_output_int, hh, hw,
      hvalid, hmedia, true_and]
    exact and_comm
  rw [← hchecks, validateSubmission_eq, hplane]
  constructor
  · rintro ⟨plane, h⟩
    obtain ⟨_, -, h⟩ := bind_eq_ok.mp h
    obtain ⟨⟨⟩, hok, -⟩ := bind_eq_ok.mp h
    exact hok
  · intro hok
    exact ⟨.generation, by rw [hok]; rfl⟩

-- A draft composed in the panel and not blocked there is accepted just when its frames are in
-- range and its image passes.
theorem prepare_draft_iff (hoffered : Offered d.params) (hdims : host.limits.validDimensions = VALID_DIMENSIONS)
    (hflags : hasBlockingFlag (flagImpossible d) = false) :
    (∃ job, Request.prepare environ host (.generation (buildRequest d).1 (buildRequest d).2) = .ok job) ↔
      Servable host d := by
  obtain ⟨params, hsubmit, hcarries⟩ := @submit_draft environ host d hflags
  have hvalidate := validate_draft_iff hoffered hdims hcarries
  have hrecord : (∃ q, recordParams host.files host.digest host.directory ⟨d.mode.value, params, d.inline⟩ =
      .ok q) ↔ ∀ media, d.inline = some media →
        ∃ q, persistInlineMedia host.files host.digest host.directory media [] = .ok q := by
    unfold recordParams
    cases d.inline with
    | none => simp
    | some media => simp [persist_ok_iff]
  have hprepare : (∃ job, Request.prepare environ host
      (.generation (buildRequest d).1 (buildRequest d).2) = .ok job) ↔
      (∃ plane, validateSubmission host.shown host.files host.limits host.allowlist
        ⟨d.mode.value, params, d.inline⟩ = .ok plane) ∧
      ∃ q, recordParams host.files host.digest host.directory ⟨d.mode.value, params, d.inline⟩ = .ok q := by
    simp only [Request.prepare, Request.submit, hsubmit, Edge.prepare, bind_eq_ok]
    constructor
    · rintro ⟨job, _, hs, _, ⟨plane, hplane, q, hq, -⟩, -⟩
      obtain rfl := Except.ok.inj hs
      exact ⟨⟨plane, hplane⟩, q, hq⟩
    · rintro ⟨⟨plane, hplane⟩, q, hq⟩
      exact ⟨_, _, rfl, _, ⟨plane, hplane, q, hq, rfl⟩, rfl⟩
  rw [hprepare, hvalidate, hrecord]
  constructor
  · rintro ⟨⟨hframes, hmedia⟩, hpersist⟩
    exact ⟨hframes, fun media hm => ⟨hmedia media hm, hpersist media hm⟩⟩
  · rintro ⟨hframes, himage⟩
    exact ⟨⟨hframes, fun media hm => (himage media hm).1⟩, fun media hm => (himage media hm).2⟩

end Accepts

section Served

variable {environ : Text → Option Text} {host : Host} {d : Draft}

-- What a draft asks the engine for.
def Draft.asked (d : Draft) (negativePrompt : Option Text) : Worker.GenerationParams where
  prompt := d.prompt
  negativePrompt := ((d.negativePrompt.filter (· ≠ [])).or negativePrompt).filter (· ≠ [])
  width := d.params.width.getD (Worker.defaultDimensions d.mode.value none).1
  height := d.params.height.getD (Worker.defaultDimensions d.mode.value none).2
  numFrames := d.frames.getD 1
  numInferenceSteps := d.params.numInferenceSteps.getD 35
  guidanceScale := .finite 6
  flowShift := .finite 10
  seed := d.params.seed.getD 123
  fps := 24
  maxSequenceLength := 4096
  generateSound := d.mode = .t2vAudio

theorem intKnob_map {p : Dict} {key : String} {value : Option ℤ} (h : p.get (ascii key) = value.map .int)
    (fallback : ℤ) : Worker.intKnob p key fallback = .ok (value.getD fallback) := by
  rw [Worker.intKnob, h]
  cases value <;> rfl

theorem floatKnob_none {p : Dict} {key : String} (h : p.get (ascii key) = none) (fallback : ℚ) :
    Worker.floatKnob p key fallback = .ok (.finite fallback) := by
  rw [Worker.floatKnob, h]
  rfl

theorem promptOf_str {shown : Shown} {p : Dict} {prompt : Text}
    (h : p.get (ascii "prompt") = some (.str prompt)) : Worker.promptOf shown p = prompt := by
  unfold Worker.promptOf
  rw [h]
  cases prompt <;> rfl

theorem negativePromptOf_map {shown : Shown} {p : Dict} {negative : Option Text}
    (h : p.get (ascii "negative_prompt") = negative.map .str) :
    Worker.negativePromptOf shown p = negative.filter (· ≠ []) := by
  unfold Worker.negativePromptOf
  rw [h]
  cases negative with
  | none => rfl
  | some text => cases text <;> rfl

-- What the worker reads of the params of a generation job.
def resolvedKeys : List String :=
  ["prompt", "negative_prompt", "resolution", "width", "height", "num_frames", "num_inference_steps",
    "guidance_scale", "flow_shift", "seed", "fps", "max_sequence_length", "generate_sound"]

theorem resolvedKeys_ne : ∀ key ∈ resolvedKeys, ∀ kind, kind ∈ [MediaKind.image, .video, .audio] →
    ascii key ≠ kind.value ++ ascii "_path" := by
  decide

theorem resolved_draft {record : JobRecord}
    (hflags : hasBlockingFlag (flagImpossible d) = false)
    (h : Request.prepare environ host (.generation (buildRequest d).1 (buildRequest d).2) =
      .ok (record.mode, record.plane, record.params)) :
    Worker.resolvedParams host.shown record = .ok (d.asked host.negativePrompt) := by
  obtain ⟨params, hsubmit, hcarries⟩ := @submit_draft environ host d hflags
  simp only [Request.prepare, Request.submit, hsubmit, Edge.prepare, bind_eq_ok] at h
  obtain ⟨submit, hs, ⟨plane, q⟩, ⟨plane', hvalidate, q', hrecord, hpair⟩, h⟩ := h
  obtain rfl := Except.ok.inj hs
  obtain ⟨rfl, rfl⟩ := Prod.mk.inj (Except.ok.inj hpair)
  obtain ⟨hmode, h⟩ := Prod.mk.inj (Except.ok.inj h)
  obtain ⟨hplane, hparams⟩ := Prod.mk.inj h
  have hget : ∀ key ∈ resolvedKeys, record.params.get (ascii key) = params.get (ascii key) := by
    intro key hkey
    rw [← hparams]
    exact get_recordParams hvalidate hrecord fun kind => resolvedKeys_ne key hkey kind (by cases kind <;> simp)
  simp only [resolvedKeys, List.forall_mem_cons, List.not_mem_nil, false_imp_iff, implies_true, and_true] at hget
  obtain ⟨hprompt, hnegative, hresolution, hwidth, hheight, hframes, hsteps, hguidance, hflow, hseed, hfps, hlength,
    hsound⟩ := hget
  have hothers := hcarries.others
  simp only [List.forall_mem_cons, List.not_mem_nil, false_imp_iff, implies_true, and_true] at hothers
  obtain ⟨-, -, hguidance', hflow', hfps', hlength'⟩ := hothers
  have hresolved : Worker.resolutionOf record.params = .ok none := by
    rw [Worker.resolutionOf, hresolution, hcarries.resolution]
    rfl
  have hpresent : present record.params (ascii "generate_sound") = decide (d.mode = .t2vAudio) := by
    rw [present, hsound, hcarries.generateSound]
    by_cases haudio : d.mode = .t2vAudio <;> simp [haudio, truth]
  unfold Worker.resolvedParams
  simp only [hresolved, intKnob_map (hwidth.trans hcarries.width), intKnob_map (hheight.trans hcarries.height),
    intKnob_map (hframes.trans hcarries.frames), intKnob_map (hsteps.trans hcarries.numInferenceSteps),
    floatKnob_none (hguidance.trans hguidance'), floatKnob_none (hflow.trans hflow'),
    @intKnob_map _ _ (some (d.params.seed.getD 123)) (hseed.trans hcarries.seed),
    @intKnob_map _ _ none (hfps.trans hfps'), @intKnob_map _ _ none (hlength.trans hlength'),
    promptOf_str (hprompt.trans hcarries.prompt),
    negativePromptOf_map (hnegative.trans hcarries.negativePrompt), hpresent, ← hmode]
  rfl

-- A draft that is composed in the panel, in a mode that is proposed for its media, is accepted
-- just when its frames are in range and its image passes, and then what the engine is asked
-- for is what the draft says, with the defaults for what it leaves open. The body is handed
-- over as built, its numbers exact: the JSON text and the request schema between the browser
-- and the route are left out.
theorem draft_served (hlimits : MediaLimits.fromEnv environ = .ok host.limits) (hcomposed : Composed d)
    (hmode : d.mode ∈ compatibleModes (d.media.map (·.mime))) :
    ((∃ job, Request.prepare environ host (.generation (buildRequest d).1 (buildRequest d).2) = .ok job) ↔
      Servable host d) ∧
    ∀ record : JobRecord, Request.prepare environ host (.generation (buildRequest d).1 (buildRequest d).2) =
        .ok (record.mode, record.plane, record.params) →
      Worker.resolvedParams host.shown record = .ok (d.asked host.negativePrompt) := by
  have hflags := (not_blocking_iff d).mpr hmode
  exact ⟨prepare_draft_iff hcomposed.offered (Worker.fromEnv_sets hlimits).2 hflags,
    fun record h => resolved_draft hflags h⟩

def sampleDraft : Draft :=
  [DraftAction.setMode .t2vAudio, .setPrompt (ascii "rain"), .applyPreset .standard480,
    .setParam .width (some 1280), .setParam .numInferenceSteps none].foldl draft initialDraft

theorem draft_served_rain : ∃ record : JobRecord,
    Request.prepare (fun _ => none) sampleHost
      (.generation (buildRequest sampleDraft).1 (buildRequest sampleDraft).2) =
        .ok (record.mode, record.plane, record.params) ∧
    Worker.resolvedParams sampleHost.shown record = .ok (sampleDraft.asked none) := by
  have hcomposed : Composed sampleDraft := Composed.initial.foldl (by
    simp only [List.forall_mem_cons, List.not_mem_nil, false_imp_iff, implies_true, and_true]
    exact ⟨trivial, trivial, trivial, ⟨1280, by decide, rfl⟩, trivial⟩)
  have hserved := @draft_served (fun _ => none) sampleHost _ rfl hcomposed (by decide)
  have hservable : Servable sampleHost sampleDraft := by
    constructor
    · intro n hn
      obtain rfl : 33 = n := Option.some.inj hn
      decide
    · intro media hmedia
      cases hmedia
  obtain ⟨⟨mode, plane, params⟩, hjob⟩ := hserved.1.mpr hservable
  exact ⟨⟨[], mode, plane, .queued, [], params, .finite 0, none, none, none, none⟩, hjob, hserved.2 _ hjob⟩

end Served

end Cosmos3.Studio
