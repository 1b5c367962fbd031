import Cosmos3.Worker.Framing
import Cosmos3.Worker.Request

namespace Cosmos3.Worker

open Basis Basis.Python Edge Jobs Orchestrator

-- What the caps ask of a request.
def Request.Fits (limits : MediaLimits) : Request → Prop
  | .generation params =>
      (0 < params.numFrames ∧ params.numFrames ≤ limits.maxNumFrames) ∧
        params.width ∈ limits.validDimensions ∧ params.height ∈ limits.validDimensions
  | .action params => 0 < params.numFrames ∧ params.numFrames ≤ limits.maxNumFrames

-- The knobs that the worker converts and the edge does not look at, or, of the
-- resolution tier, takes for absent when it is null.
def intKnobs (mode : Text) : List String :=
  if mode ∈ actionModes then ["resolution_tier", "fps", "num_inference_steps", "seed"]
  else ["num_inference_steps", "seed", "fps", "max_sequence_length"]

def floatKnobs : List String := ["guidance_scale", "flow_shift"]

def Readable {α : Type} (read : Value → Except Exn α) (p : Dict) (key : String) : Prop :=
  ∀ value, p.get (ascii key) = some value → ∃ x, read value = .ok x

-- The frame count of a request that names none.
def defaultFrames (mode : Text) (p : Dict) : ℤ :=
  if mode ∈ actionModes then (givenInt p .chunkSize).getD 0 + 1 else 1

structure Suitable (limits : MediaLimits) (mode : Text) (p : Dict) : Prop where
  ints : ∀ key ∈ intKnobs mode, Readable intOf p key
  floats : ∀ key ∈ floatKnobs, Readable floatOf p key
  frames : p.get (ascii "num_frames") = none → defaultFrames mode p ≤ limits.maxNumFrames

section Knobs

variable {p q : Dict} {key : String}

theorem readable_iff_intKnob (fallback : ℤ) :
    Readable intOf p key ↔ ∃ n, intKnob p key fallback = .ok n := by
  unfold Readable intKnob
  cases p.get (ascii key) with
  | none => exact iff_of_true nofun ⟨fallback, rfl⟩
  | some value => simp

theorem readable_iff_floatKnob (fallback : ℚ) :
    Readable floatOf p key ↔ ∃ x, floatKnob p key fallback = .ok x := by
  unfold Readable floatKnob
  cases p.get (ascii key) with
  | none => exact iff_of_true nofun ⟨.finite fallback, rfl⟩
  | some value => simp

theorem intKnob_of_none (h : p.get (ascii key) = none) (fallback : ℤ) :
    intKnob p key fallback = .ok fallback := by
  rw [intKnob, h]
  rfl

theorem intKnob_of_some {value : Value} (h : p.get (ascii key) = some value) (fallback : ℤ) :
    intKnob p key fallback = intOf value := by
  rw [intKnob, h]
  rfl

-- A field that the edge checks when it is there, with a default that passes the same
-- check.
theorem intKnob_valid {valid : ℤ → Bool} {fallback : ℤ} (hfallback : valid fallback = true)
    (hvalue : ∀ value, p.get (ascii key) = some value → ∃ n, intOf value = .ok n ∧ valid n = true) :
    ∃ n, intKnob p key fallback = .ok n ∧ valid n = true := by
  cases hget : p.get (ascii key) with
  | none => exact ⟨fallback, intKnob_of_none hget fallback, hfallback⟩
  | some value =>
      obtain ⟨n, hn, hvalid⟩ := hvalue value hget
      exact ⟨n, (intKnob_of_some hget fallback).trans hn, hvalid⟩

end Knobs

-- The sets of the limits are those of the code, whatever the environment says.
theorem fromEnv_sets {environ : Text → Option Text} {limits : MediaLimits}
    (h : MediaLimits.fromEnv environ = .ok limits) :
    limits.resolutions = [256, 480, 720] ∧
      limits.validDimensions = [256, 480, 640, 720, 960, 1280] := by
  unfold MediaLimits.fromEnv at h
  simp only [bind_eq_ok] at h
  obtain ⟨_, -, _, -, _, -, _, -, _, -, _, -, _, -, _, -, h⟩ := h
  cases h
  exact ⟨rfl, rfl⟩

-- What the edge has made sure of when a job is accepted.
structure Checked (limits : MediaLimits) (mode : Text) (p : Dict) : Prop where
  resolutions : ∀ n ∈ limits.resolutions, n ∈ limits.validDimensions
  defaults : ∀ n ∈ [1280, 720, 480], n ∈ limits.validDimensions
  output : ∀ (field : OutputField) (value : Value), p.get field.key = some value →
    ∃ n, intOf value = .ok n ∧ field.valid limits n = true
  chunk : mode ∈ actionModes → ∃ value n, p.get (ascii "chunk_size") = some value ∧
    intOf value = .ok n ∧ givenInt p .chunkSize = some n ∧ 0 < n
  tier : mode ∈ actionModes → ∀ value n, p.get (ascii "resolution_tier") = some value →
    intOf value = .ok n → n ∈ resolutionTiers
  domain : mode ∈ actionModes → ∃ name, p.get (ascii "domain_name") = some (.str name)

section Shared

variable {limits : MediaLimits} {mode : Text} {p : Dict}

theorem numFrames_valid (hchecked : Checked limits mode p) {fallback : ℤ} (hpos : 0 < fallback)
    (hmax : p.get (ascii "num_frames") = none → fallback ≤ limits.maxNumFrames) :
    ∃ n, intKnob p "num_frames" fallback = .ok n ∧ 0 < n ∧ n ≤ limits.maxNumFrames := by
  cases hget : p.get (ascii "num_frames") with
  | none => exact ⟨fallback, intKnob_of_none hget fallback, hpos, hmax hget⟩
  | some value =>
      obtain ⟨n, hn, hvalid⟩ := hchecked.output .numFrames value hget
      rw [OutputField.valid, decide_eq_true_eq] at hvalid
      exact ⟨n, (intKnob_of_some hget fallback).trans hn, hvalid⟩

theorem le_maxNumFrames {fallback n : ℤ} (hn : intKnob p "num_frames" fallback = .ok n)
    (hmax : n ≤ limits.maxNumFrames) :
    p.get (ascii "num_frames") = none → fallback ≤ limits.maxNumFrames := by
  intro hnone
  rw [intKnob_of_none hnone] at hn
  cases hn
  exact hmax

theorem readable_floatKnobs (guidance flow : ℚ) :
    (∀ key ∈ floatKnobs, Readable floatOf p key) ↔
      (∃ x, floatKnob p "guidance_scale" guidance = .ok x) ∧
        ∃ x, floatKnob p "flow_shift" flow = .ok x := by
  simp only [floatKnobs, List.forall_mem_cons, List.not_mem_nil, false_imp_iff, implies_true, and_true,
    ← readable_iff_floatKnob]

end Shared

section Generation

variable {limits : MediaLimits} {shown : Shown} {record : JobRecord}

theorem defaultDimensions_valid (hchecked : Checked limits record.mode record.params) :
    ∃ resolution, resolutionOf record.params = .ok resolution ∧
      (defaultDimensions record.mode resolution).1 ∈ limits.validDimensions ∧
      (defaultDimensions record.mode resolution).2 ∈ limits.validDimensions := by
  have hnone : (defaultDimensions record.mode none).1 ∈ limits.validDimensions ∧
      (defaultDimensions record.mode none).2 ∈ limits.validDimensions := by
    unfold defaultDimensions
    dsimp only
    split
    · exact ⟨hchecked.defaults 1280 (by simp), hchecked.defaults 720 (by simp)⟩
    · exact ⟨hchecked.defaults 480 (by simp), hchecked.defaults 480 (by simp)⟩
  cases hget : record.params.get (ascii "resolution") with
  | none =>
      refine ⟨none, ?_, hnone⟩
      rw [resolutionOf, hget]
  | some value =>
      obtain ⟨n, hn, hvalid⟩ := hchecked.output .resolution value hget
      have hmem : n ∈ limits.validDimensions :=
        hchecked.resolutions n (by simpa [OutputField.valid] using hvalid)
      refine ⟨some n, ?_, hmem, hmem⟩
      rw [resolutionOf, hget]
      cases value with
      | none => cases hn
      | _ =>
          show (intOf _).map some = _
          rw [hn]
          rfl

theorem resolvedParams_fits_iff (hchecked : Checked limits record.mode record.params)
    (hmode : record.mode ∉ actionModes) :
    (∃ params, resolvedParams shown record = .ok params ∧ (Request.generation params).Fits limits) ↔
      Suitable limits record.mode record.params := by
  obtain ⟨resolution, hresolution, hdw, hdh⟩ := defaultDimensions_valid hchecked
  have hknobs : intKnobs record.mode = ["num_inference_steps", "seed", "fps", "max_sequence_length"] :=
    if_neg hmode
  have hframes : defaultFrames record.mode record.params = 1 := if_neg hmode
  constructor
  · rintro ⟨params, hparams, ⟨-, hmax⟩, -⟩
    unfold resolvedParams at hparams
    simp only [bind_eq_ok] at hparams
    obtain ⟨_, -, _, -, _, -, numFrames, hnum, _, hsteps, _, hguidance, _, hflow, _, hseed, _, hfps,
      _, hlength, h⟩ := hparams
    cases h
    refine ⟨?_, ?_, ?_⟩
    · rw [hknobs]
      simp only [List.forall_mem_cons]
      exact ⟨(readable_iff_intKnob _).mpr ⟨_, hsteps⟩, (readable_iff_intKnob _).mpr ⟨_, hseed⟩,
        (readable_iff_intKnob _).mpr ⟨_, hfps⟩, (readable_iff_intKnob _).mpr ⟨_, hlength⟩, by simp⟩
    · exact (readable_floatKnobs _ _).mpr ⟨⟨_, hguidance⟩, ⟨_, hflow⟩⟩
    · rw [hframes]
      exact le_maxNumFrames hnum hmax
  · rintro ⟨hints, hfloats, hdefault⟩
    rw [hknobs] at hints
    rw [hframes] at hdefault
    simp only [List.forall_mem_cons] at hints
    obtain ⟨hsteps, hseed, hfps, hlength, -⟩ := hints
    obtain ⟨⟨guidance, hguidance⟩, ⟨flow, hflow⟩⟩ := (readable_floatKnobs 6 10).mp hfloats
    obtain ⟨steps, hsteps⟩ := (readable_iff_intKnob 35).mp hsteps
    obtain ⟨seed, hseed⟩ := (readable_iff_intKnob 123).mp hseed
    obtain ⟨fps, hfps⟩ := (readable_iff_intKnob 24).mp hfps
    obtain ⟨length, hlength⟩ := (readable_iff_intKnob 4096).mp hlength
    obtain ⟨width, hwidth, hwvalid⟩ := intKnob_valid (decide_eq_true hdw) (hchecked.output .width)
    obtain ⟨height, hheight, hhvalid⟩ := intKnob_valid (decide_eq_true hdh) (hchecked.output .height)
    obtain ⟨frames, hnum, hfvalid⟩ := numFrames_valid hchecked Int.one_pos hdefault
    simp only [OutputField.valid, decide_eq_true_eq] at hwvalid hhvalid
    have hresolved : resolvedParams shown record = .ok
        ⟨promptOf shown record.params, negativePromptOf shown record.params, width, height, frames,
          steps, guidance, flow, seed, fps, length, present record.params (ascii "generate_sound")⟩ := by
      simp only [resolvedParams, bind_eq_ok]
      exact ⟨resolution, hresolution, width, hwidth, height, hheight, frames, hnum, steps, hsteps,
        guidance, hguidance, flow, hflow, seed, hseed, fps, hfps, length, hlength, rfl⟩
    exact ⟨_, hresolved, hfvalid, hwvalid, hhvalid⟩

end Generation

section Action

variable {limits : MediaLimits} {shown : Shown} {record : JobRecord}

-- No other value of JSON is shown as a text that starts with a letter of the
-- embodiments' names.
theorem eq_str_of_strOf_mem {value : Value} (h : strOf shown value ∈ rawActionDim.map (·.1)) :
    ∃ name, value = .str name := by
  have hunit : ∀ name ∈ rawActionDim.map (·.1), ∃ u ∈ name, Json.isNumberUnit u = false := by
    decide
  have hnumber : ∀ t : Text, (∀ u ∈ t, Json.isNumberUnit u = true) →
      t ∉ rawActionDim.map (·.1) := by
    intro t ht hmem
    obtain ⟨u, hu, hfalse⟩ := hunit t hmem
    rw [ht u hu] at hfalse
    cases hfalse
  have hhead : ∀ name ∈ rawActionDim.map (·.1),
      name.head? ≠ some Json.openBracket ∧ name.head? ≠ some Json.openBrace := by
    decide
  have hword : ∀ word ∈ ["None", "True", "False", "nan", "inf", "-inf"],
      ascii word ∉ rawActionDim.map (·.1) := by
    decide
  cases value with
  | str name => exact ⟨name, rfl⟩
  | none => exact absurd h (hword "None" (by decide))
  | bool value =>
      cases value with
      | false => exact absurd h (hword "False" (by decide))
      | true => exact absurd h (hword "True" (by decide))
  | int n => exact absurd h (hnumber _ (isNumberUnit_intText n))
  | float x =>
      cases x with
      | finite q => exact absurd h (hnumber _ (shown.literal_units q))
      | nan => exact absurd h (hword "nan" (by decide))
      | infinity => exact absurd h (hword "inf" (by decide))
      | negInfinity => exact absurd h (hword "-inf" (by decide))
  | list items => exact absurd rfl (hhead _ h).1
  | dict fields => exact absurd rfl (hhead _ h).2

theorem fourThirds_of_mem {tier : ℤ} (h : tier ∈ resolutionTiers) : ∃ n, fourThirds tier = .ok n := by
  have hbound : ∀ tier ∈ resolutionTiers,
      -floatBound < (tier * 4 / 3 : ℚ) ∧ (tier * 4 / 3 : ℚ) < floatBound := by
    decide +kernel
  exact ⟨_, if_pos (hbound tier h)⟩

-- The fields of a request for an action, whatever goes along with the conditioning.
theorem recipe_fits_iff (extra : Dict → Text → Except Exn Dict)
    (hextra : ∃ extraParams, extra record.params record.mode = .ok extraParams)
    (hchecked : Checked limits record.mode record.params) (hmode : record.mode ∈ actionModes) :
    (∃ params, recipe extra shown record = .ok params ∧ (Request.action params).Fits limits) ↔
      Suitable limits record.mode record.params := by
  obtain ⟨extraParams, hextra⟩ := hextra
  obtain ⟨value, chunk, hvalue, hchunk, hgiven, hpos⟩ := hchecked.chunk hmode
  have hchunk : intKnob record.params "chunk_size" 0 = .ok chunk :=
    (intKnob_of_some hvalue 0).trans hchunk
  have hknobs : intKnobs record.mode = ["resolution_tier", "fps", "num_inference_steps", "seed"] :=
    if_pos hmode
  have hframes : defaultFrames record.mode record.params = chunk + 1 := by
    rw [defaultFrames, if_pos hmode, hgiven]
    rfl
  constructor
  · rintro ⟨params, hparams, -, hmax⟩
    unfold recipe at hparams
    simp only [bind_eq_ok] at hparams
    obtain ⟨_, htier, _, -, chunk', hchunk', numFrames, hnum, _, hfps, _, hsteps, _, hguidance, _, hflow,
      _, hseed, _, -, h⟩ := hparams
    cases h
    cases hchunk.symm.trans hchunk'
    refine ⟨?_, ?_, ?_⟩
    · rw [hknobs]
      simp only [List.forall_mem_cons]
      exact ⟨(readable_iff_intKnob _).mpr ⟨_, htier⟩, (readable_iff_intKnob _).mpr ⟨_, hfps⟩,
        (readable_iff_intKnob _).mpr ⟨_, hsteps⟩, (readable_iff_intKnob _).mpr ⟨_, hseed⟩, by simp⟩
    · exact (readable_floatKnobs _ _).mpr ⟨⟨_, hguidance⟩, ⟨_, hflow⟩⟩
    · rw [hframes]
      exact le_maxNumFrames hnum hmax
  · rintro ⟨hints, hfloats, hdefault⟩
    rw [hknobs] at hints
    rw [hframes] at hdefault
    simp only [List.forall_mem_cons] at hints
    obtain ⟨htier, hfps, hsteps, hseed, -⟩ := hints
    obtain ⟨⟨guidance, hguidance⟩, ⟨flow, hflow⟩⟩ := (readable_floatKnobs 1 5).mp hfloats
    obtain ⟨tier, htier⟩ := (readable_iff_intKnob 480).mp htier
    obtain ⟨fps, hfps⟩ := (readable_iff_intKnob 10).mp hfps
    obtain ⟨steps, hsteps⟩ := (readable_iff_intKnob 30).mp hsteps
    obtain ⟨seed, hseed⟩ := (readable_iff_intKnob 123).mp hseed
    have hmem : tier ∈ resolutionTiers := by
      cases hget : record.params.get (ascii "resolution_tier") with
      | none =>
          rw [intKnob_of_none hget] at htier
          cases htier
          decide
      | some value =>
          rw [intKnob_of_some hget] at htier
          exact hchecked.tier hmode value tier hget htier
    obtain ⟨width, hwidth⟩ := fourThirds_of_mem hmem
    have hpos : 0 < chunk + 1 := by omega
    obtain ⟨frames, hnum, hfvalid⟩ := numFrames_valid hchecked hpos hdefault
    have hresolved : recipe extra shown record = .ok
        ⟨promptOf shown record.params, width - width % 2, tier, frames, fps, steps, guidance, flow, seed,
          extraParams⟩ := by
      simp only [recipe, bind_eq_ok]
      exact ⟨tier, htier, width, hwidth, chunk, hchunk, frames, hnum, fps, hfps, steps, hsteps, guidance,
        hguidance, flow, hflow, seed, hseed, extraParams, hextra, rfl⟩
    exact ⟨_, hresolved, hfvalid⟩

theorem dimOf_str (name : Text) : ∃ dim, dimOf (.str name) = .ok dim := by
  unfold dimOf
  split
  · exact ⟨_, rfl⟩
  · exact ⟨_, rfl⟩

theorem exists_map_ok {ε α β : Type} {x : Except ε α} {f : α → β} {P : β → Prop} :
    (∃ b, x.map f = .ok b ∧ P b) ↔ ∃ a, x = .ok a ∧ P (f a) := by
  cases x <;> simp [Except.map]

theorem workerRequest_fits_iff (hchecked : Checked limits record.mode record.params) :
    (∃ request, workerRequest shown record = .ok request ∧ request.Fits limits) ↔
      Suitable limits record.mode record.params := by
  unfold workerRequest
  by_cases hforward : record.mode = ActionMode.forwardDynamics.value
  · have hmode : record.mode ∈ actionModes := by
      rw [hforward]
      exact List.mem_cons_self
    rw [if_pos hforward, exists_map_ok]
    exact recipe_fits_iff actionExtraParams ⟨_, rfl⟩ hchecked hmode
  · rw [if_neg hforward]
    by_cases hmode : record.mode ∈ actionModes
    · obtain ⟨name, hname⟩ := hchecked.domain hmode
      obtain ⟨dim, hdim⟩ := dimOf_str name
      rw [if_pos hmode, exists_map_ok]
      refine recipe_fits_iff actionExtraParamsPredict ?_ hchecked hmode
      simp only [actionExtraParamsPredict, bind_eq_ok]
      refine ⟨_, dim, ?_, rfl⟩
      rw [item, hname]
      exact hdim
    · rw [if_neg hmode, exists_map_ok]
      exact resolvedParams_fits_iff hchecked hmode

end Action

section Accepted

variable {shown : Shown} {files : FileSystem} {limits : MediaLimits} {allowlist : List OsText}
  {digest : Bytes → Text} {directory : OsText} {submit : JobSubmit} {plane : Plane} {params : Dict}

theorem checked_of_accepted {environ : Text → Option Text}
    (hlimits : MediaLimits.fromEnv environ = .ok limits)
    (haccepted : validateSubmission shown files limits allowlist submit = .ok plane) :
    Checked limits submit.mode submit.params := by
  obtain ⟨hresolutions, hdimensions⟩ := fromEnv_sets hlimits
  refine ⟨?_, ?_, fun field value => accepted_output haccepted field, ?_, ?_, ?_⟩
  · rw [hresolutions, hdimensions]
    decide
  · rw [hdimensions]
    decide
  · intro hmode
    obtain ⟨-, mode, -, hvalid⟩ := accepted_action haccepted hmode
    have hchunk : 16 ≤ (givenInt submit.params .chunkSize).getD 0 := hvalid.chunk.1
    cases hgiven : givenInt submit.params .chunkSize with
    | none =>
        rw [hgiven, Option.getD_none] at hchunk
        omega
    | some n =>
        obtain ⟨value, hvalue, hn⟩ := givenInt_eq_some.mp hgiven
        rw [hgiven, Option.getD_some] at hchunk
        exact ⟨value, n, hvalue, hn, rfl, by omega⟩
  · intro hmode value n hvalue hn
    obtain ⟨-, mode, -, hvalid⟩ := accepted_action haccepted hmode
    have htier : (givenInt submit.params .resolutionTier).getD 480 ∈ resolutionTiers := hvalid.tier
    have hgiven : givenInt submit.params .resolutionTier = some n :=
      givenInt_eq_some.mpr ⟨value, hvalue, hn⟩
    rw [hgiven] at htier
    exact htier
  · intro hmode
    obtain ⟨-, mode, -, hvalid⟩ := accepted_action haccepted hmode
    have hname : domainName shown submit.params ∈ rawActionDim.map (·.1) := hvalid.embodiment
    unfold domainName at hname
    cases hget : submit.params.get (ascii "domain_name") with
    | none =>
        rw [hget] at hname
        exact absurd (show ([] : Text) ∈ rawActionDim.map (·.1) from hname) (by decide)
    | some value =>
        rw [hget] at hname
        obtain ⟨name, rfl⟩ := eq_str_of_strOf_mem hname
        exact ⟨name, rfl⟩

-- No knob is the path of a conditioning medium.
def Untouched (key : Text) : Prop := ∀ kind : MediaKind, key ≠ kind.value ++ ascii "_path"

instance (key : Text) : Decidable (Untouched key) :=
  decidable_of_iff (∀ kind ∈ [MediaKind.image, .video, .audio], key ≠ kind.value ++ ascii "_path")
    ⟨fun h kind => h kind (by cases kind <;> decide), fun h kind _ => h kind⟩

theorem checked_congr {mode : Text} {p q : Dict}
    (h : ∀ key, Untouched key → q.get key = p.get key) (hchecked : Checked limits mode p) :
    Checked limits mode q := by
  have houtput : ∀ field : OutputField, q.get field.key = p.get field.key := by
    intro field
    cases field <;> exact h _ (by decide)
  have hchunk := h (ascii "chunk_size") (by decide)
  have htier := h (ascii "resolution_tier") (by decide)
  have hdomain := h (ascii "domain_name") (by decide)
  have hgiven : givenInt q .chunkSize = givenInt p .chunkSize := by
    unfold givenInt given
    rw [ActionField.key, hchunk]
  refine ⟨hchecked.resolutions, hchecked.defaults, ?_, ?_, ?_, ?_⟩
  · intro field value
    rw [houtput field]
    exact hchecked.output field value
  · rw [hchunk, hgiven]
    exact hchecked.chunk
  · rw [htier]
    exact hchecked.tier
  · rw [hdomain]
    exact hchecked.domain

theorem suitable_congr {mode : Text} {p q : Dict}
    (h : ∀ key, Untouched key → q.get key = p.get key) (hsuitable : Suitable limits mode p) :
    Suitable limits mode q := by
  have hints : ∀ key ∈ intKnobs mode, Untouched (ascii key) := by
    unfold intKnobs
    split <;> decide
  have hfloats : ∀ key ∈ floatKnobs, Untouched (ascii key) := by decide
  refine ⟨fun key hkey => ?_, fun key hkey => ?_, ?_⟩
  · unfold Readable
    rw [h (ascii key) (hints key hkey)]
    exact hsuitable.ints key hkey
  · unfold Readable
    rw [h (ascii key) (hfloats key hkey)]
    exact hsuitable.floats key hkey
  · unfold defaultFrames givenInt given
    rw [h (ascii "num_frames") (by decide), ActionField.key, h (ascii "chunk_size") (by decide)]
    exact hsuitable.frames

end Accepted

-- An accepted submission becomes a request inside the caps just when the worker can
-- read every knob and the frame count it supplies itself is within the cap.
theorem request_fits_iff (shown : Shown) (files : FileSystem) (digest : Bytes → Text)
    (directory : OsText) (environ : Text → Option Text) (limits : MediaLimits)
    (allowlist : List OsText) (submit : JobSubmit) (plane : Plane) (record : JobRecord)
    (hlimits : MediaLimits.fromEnv environ = .ok limits)
    (haccepted : validateSubmission shown files limits allowlist submit = .ok plane)
    (hmode : record.mode = submit.mode)
    (hparams : recordParams files digest directory submit = .ok record.params) :
    (∃ request, workerRequest shown record = .ok request ∧ request.Fits limits) ↔
      Suitable limits submit.mode submit.params := by
  have hget : ∀ key, Untouched key → record.params.get key = submit.params.get key :=
    fun key hkey => get_recordParams haccepted hparams hkey
  have hchecked := checked_congr hget (checked_of_accepted hlimits haccepted)
  rw [← hmode] at hchecked
  rw [workerRequest_fits_iff hchecked, hmode]
  exact ⟨suitable_congr fun key hkey => (hget key hkey).symm, suitable_congr hget⟩

def unreadableSteps : JobSubmit where
  mode := ascii "t2i"
  params := [(ascii "num_inference_steps", .str (ascii "abc"))]

def recordOf (submit : JobSubmit) : JobRecord where
  id := ascii "job"
  mode := submit.mode
  plane := .generation
  status := .queued
  createdAt := []
  params := submit.params

theorem unreadable_steps_accepted :
    validateSubmission .quoted ⟨id⟩ .default [] unreadableSteps = .ok .generation ∧
      workerRequest .quoted (recordOf unreadableSteps) = .error .valueError :=
  ⟨rfl, rfl⟩

def sampleVideo : JobSubmit where
  mode := ascii "t2v"
  params := [(ascii "prompt", .str (ascii "rain")), (ascii "num_frames", .int 24)]

theorem request_fits_iff_sampleVideo :
    (∃ request, workerRequest .quoted (recordOf sampleVideo) = .ok request ∧
        request.Fits .default) ↔
      Suitable .default sampleVideo.mode sampleVideo.params :=
  request_fits_iff .quoted ⟨id⟩ (fun _ => []) ⟨ascii "/srv/artifacts", rfl⟩ (fun _ => none) .default []
    sampleVideo .generation (recordOf sampleVideo) rfl rfl rfl rfl

end Cosmos3.Worker
