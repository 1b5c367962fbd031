import Cosmos3.Edge.Routes
import Cosmos3.Studio.JobState

namespace Cosmos3.Studio

open Basis Edge

section Media

def startsWith (text : Text) (start : String) : Bool := (ascii start).isPrefixOf text

-- None also for no MIME, or an empty one.
def mediaKindFromMime (mime : Text) : Option MediaKind :=
  if startsWith mime "image/" then some .image
  else if startsWith mime "video/" then some .video
  else if startsWith mime "audio/" then some .audio
  else none

-- A file as the dropzone has read it, which takes no file of another kind.
structure AttachedMedia where
  kind : MediaKind
  mime : Text
  dataBase64 : Text
  kind_eq : mediaKindFromMime mime = some kind

end Media

section Drafts

inductive GenMode where
  | t2i
  | t2v
  | i2v
  | t2vAudio
deriving DecidableEq, Repr

def GenMode.value : GenMode → Text
  | .t2i => ascii "t2i"
  | .t2v => ascii "t2v"
  | .i2v => ascii "i2v"
  | .t2vAudio => ascii "t2v_audio"

-- The number fields of the form, each an exact integer or open. A JavaScript number is a
-- double: a seed of 22 digits is rounded, is sent as 1e+21 and is refused as no integer.
structure DraftParams where
  height : Option ℤ := none
  width : Option ℤ := none
  numFrames : Option ℤ := none
  numInferenceSteps : Option ℤ := none
  seed : Option ℤ := none

inductive ParamKey where
  | height
  | width
  | numFrames
  | numInferenceSteps
  | seed

def DraftParams.set (params : DraftParams) (value : Option ℤ) : ParamKey → DraftParams
  | .height => { params with height := value }
  | .width => { params with width := value }
  | .numFrames => { params with numFrames := value }
  | .numInferenceSteps => { params with numInferenceSteps := value }
  | .seed => { params with seed := value }

inductive PresetId where
  | standard480
  | hi720

structure Draft where
  mode : GenMode
  prompt : Text
  negativePrompt : Option Text := none
  preset : PresetId
  params : DraftParams
  media : Option AttachedMedia := none

def presetParams : PresetId → DraftParams
  | .standard480 =>
      { height := some 480, width := some 640, numFrames := some 33, numInferenceSteps := some 30 }
  | .hi720 =>
      { height := some 720, width := some 1280, numFrames := some 49, numInferenceSteps := some 35 }

def applyPreset (draft : Draft) (id : PresetId) : Draft :=
  { draft with preset := id, params := presetParams id }

def DEFAULT_PRESET : PresetId := .hi720

def initialDraft : Draft :=
  applyPreset { mode := .t2v, prompt := [], preset := DEFAULT_PRESET, params := {} } DEFAULT_PRESET

inductive DraftAction where
  | setMode (mode : GenMode)
  | setPrompt (value : Text)
  | setNegative (value : Text)
  | applyPreset (id : PresetId)
  | setParam (key : ParamKey) (value : Option ℤ)
  | attachMedia (media : AttachedMedia)
  | clearMedia
  | reset

def mediaUsableBy (mode : GenMode) (media : AttachedMedia) : Bool :=
  decide (media.kind = .image) && decide (mode = .i2v)

def draft (state : Draft) : DraftAction → Draft
  | .setMode mode => { state with mode := mode, media := state.media.filter (mediaUsableBy mode) }
  | .setPrompt value => { state with prompt := value }
  | .setNegative value => { state with negativePrompt := if value = [] then none else some value }
  | .applyPreset id => Studio.applyPreset state id
  | .setParam key value => { state with params := state.params.set value key }
  | .attachMedia media => { state with media := some media }
  | .clearMedia => { state with media := none }
  | .reset => initialDraft

end Drafts

section Modes

def BASE_MODES : List GenMode := [.t2i, .t2v, .t2vAudio]

def compatibleModes : Option Text → List GenMode
  | none => BASE_MODES
  | some mime =>
    if mime = [] then BASE_MODES
    else if startsWith mime "image/" then [.t2i, .t2v, .i2v, .t2vAudio]
    else []

-- `Image → Video (i2v)`
def imageToVideo : Text := ascii "Image " ++ [8594] ++ ascii " Video (i2v)"

def flagImpossible (draft : Draft) : List Warning :=
  match draft.media with
  | some media =>
    if media.kind ≠ .image then
      [⟨.error, ascii "input_media_unsupported", ascii "Input " ++ media.kind.value ++
        ascii " is not accepted by any generation mode (image conditioning only). Remove it or switch to a text-driven mode."⟩]
    else if draft.mode ≠ .i2v then
      [⟨.info, ascii "image_ignored", ascii "The attached image is only used by " ++ imageToVideo ++
        ascii "; it is ignored for " ++ draft.mode.value ++ ascii "."⟩]
    else []
  | none =>
    if draft.mode = .i2v then
      [⟨.error, ascii "i2v_needs_image", imageToVideo ++
        ascii " needs a conditioning image. Attach one or pick a text-driven mode."⟩]
    else []

def hasBlockingFlag (flags : List Warning) : Bool := flags.any fun flag => flag.severity = .error

end Modes

section Requests

def GenMode.path : GenMode → GenerationRoute
  | .t2i => .t2i
  | .t2v => .t2v
  | .i2v => .i2v
  | .t2vAudio => .t2vAudio

-- An empty negative prompt is left out, and so are a frame count of an image and an image that
-- the mode does not use.
def buildRequest (draft : Draft) : GenerationRoute × GenerationBody :=
  (draft.mode.path, {
    prompt := draft.prompt
    seed := draft.params.seed.getD 123
    negativePrompt := draft.negativePrompt.filter (· ≠ [])
    height := draft.params.height
    width := draft.params.width
    numInferenceSteps := draft.params.numInferenceSteps
    numFrames := if draft.mode ≠ .t2i then draft.params.numFrames else none
    image :=
      if draft.mode = .i2v then
        (draft.media.filter fun media => media.kind = .image).map fun media =>
          ⟨ascii "image", media.dataBase64⟩
      else none })

end Requests

section Panel

def VALID_DIMENSIONS : List ℤ := [256, 480, 640, 720, 960, 1280]

-- What the compose panel dispatches: the two dimensions are picked from a list.
def OfPanel : DraftAction → Prop
  | .setParam .height value | .setParam .width value => ∃ n ∈ VALID_DIMENSIONS, value = some n
  | _ => True

-- Drafts that are composed in the panel.
inductive Composed : Draft → Prop
  | initial : Composed initialDraft
  | next {state : Draft} {action : DraftAction} :
      Composed state → OfPanel action → Composed (draft state action)

-- A dimension of such a draft is one that the panel offers.
structure Offered (params : DraftParams) : Prop where
  height : ∃ n ∈ VALID_DIMENSIONS, params.height = some n
  width : ∃ n ∈ VALID_DIMENSIONS, params.width = some n

theorem offered_preset (id : PresetId) : Offered (presetParams id) := by
  cases id with
  | standard480 => exact ⟨⟨480, by decide, rfl⟩, ⟨640, by decide, rfl⟩⟩
  | hi720 => exact ⟨⟨720, by decide, rfl⟩, ⟨1280, by decide, rfl⟩⟩

theorem Offered.draft {state : Draft} (h : Offered state.params) {action : DraftAction}
    (hpanel : OfPanel action) : Offered (draft state action).params := by
  cases action with
  | setMode | setPrompt | setNegative | attachMedia | clearMedia => exact h
  | applyPreset id => exact offered_preset id
  | reset => exact offered_preset DEFAULT_PRESET
  | setParam key value =>
      cases key with
      | height => exact ⟨hpanel, h.width⟩
      | width => exact ⟨h.height, hpanel⟩
      | numFrames | numInferenceSteps | seed => exact ⟨h.height, h.width⟩

theorem Composed.offered {d : Draft} (h : Composed d) : Offered d.params := by
  induction h with
  | initial => exact offered_preset DEFAULT_PRESET
  | next _ hpanel ih => exact ih.draft hpanel

theorem Composed.foldl {state : Draft} (h : Composed state) {actions : List DraftAction}
    (hactions : ∀ action ∈ actions, OfPanel action) : Composed (actions.foldl Studio.draft state) := by
  induction actions generalizing state with
  | nil => exact h
  | cons action actions ih =>
      obtain ⟨haction, hrest⟩ := List.forall_mem_cons.mp hactions
      exact ih (h.next haction) hrest

theorem mime_ne_nil (media : AttachedMedia) : media.mime ≠ [] := by
  intro hmime
  have hkind := media.kind_eq
  rw [hmime] at hkind
  cases hkind

theorem kind_image_iff (media : AttachedMedia) :
    media.kind = .image ↔ startsWith media.mime "image/" = true := by
  have hkind := media.kind_eq
  unfold mediaKindFromMime at hkind
  split_ifs at hkind with himage
  · exact iff_of_true (Option.some.inj hkind).symm himage
  · exact iff_of_false (fun heq => by rw [heq] at hkind; cases hkind) himage
  · exact iff_of_false (fun heq => by rw [heq] at hkind; cases hkind) himage

-- The draft is blocked just when its mode is not among those the panel proposes for the media.
theorem not_blocking_iff (d : Draft) :
    hasBlockingFlag (flagImpossible d) = false ↔ d.mode ∈ compatibleModes (d.media.map (·.mime)) := by
  unfold flagImpossible
  cases hmedia : d.media with
  | none => cases hmode : d.mode <;> simp [hasBlockingFlag, compatibleModes, BASE_MODES]
  | some media =>
      have hne := mime_ne_nil media
      have himage := kind_image_iff media
      by_cases hkind : media.kind = .image
      · have hstarts := himage.mp hkind
        cases hmode : d.mode <;> simp [hasBlockingFlag, compatibleModes, hne, hkind, hstarts]
      · have hstarts : ¬startsWith media.mime "image/" = true := fun h => hkind (himage.mpr h)
        simp [hasBlockingFlag, compatibleModes, hne, hkind, hstarts]

end Panel

end Cosmos3.Studio
