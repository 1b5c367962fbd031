import Cosmos3.Basis.Python

namespace Cosmos3.Edge

open Basis Basis.Python

inductive ActionMode where
  | forwardDynamics
  | inverseDynamics
  | policy
deriving DecidableEq, Repr

def ActionMode.value : ActionMode → Text
  | .forwardDynamics => ascii "forward_dynamics"
  | .inverseDynamics => ascii "inverse_dynamics"
  | .policy => ascii "policy"

inductive ErrorCode where
  | unknownEmbodiment
  | unsupportedForInference
  | widthMismatch
  | frameWindow
  | badChunk
  | badResolutionTier
  | conditionMissing
  | conditionConflict
deriving DecidableEq, Repr

def ErrorCode.value : ErrorCode → Text
  | .unknownEmbodiment => ascii "unknown_embodiment"
  | .unsupportedForInference => ascii "unsupported_for_inference"
  | .widthMismatch => ascii "width_mismatch"
  | .frameWindow => ascii "frame_window"
  | .badChunk => ascii "bad_chunk"
  | .badResolutionTier => ascii "bad_resolution_tier"
  | .conditionMissing => ascii "condition_missing"
  | .conditionConflict => ascii "condition_conflict"

-- Both tables in the order of their sorted keys.
def domainId : List (Text × ℤ) :=
  [(ascii "agibot_gear_gripper", 15), (ascii "agibot_gear_gripper_ext", 15),
    (ascii "agibotworld", 15), (ascii "av", 1), (ascii "bridge_orig_lerobot", 7),
    (ascii "camera_pose", 2), (ascii "droid_lerobot", 8), (ascii "fractal", 20),
    (ascii "galbot", 9), (ascii "hand_pose", 3), (ascii "libero", 5), (ascii "no_action", 0),
    (ascii "pusht", 4), (ascii "robomind-franka", 8), (ascii "robomind-franka-dual", 12),
    (ascii "robomind-ur", 13), (ascii "umi", 6)]

def rawActionDim : List (Text × ℤ) :=
  [(ascii "agibot_gear_gripper", 29), (ascii "agibot_gear_gripper_ext", 29),
    (ascii "agibotworld", 29), (ascii "av", 9), (ascii "bridge_orig_lerobot", 10),
    (ascii "camera_pose", 9), (ascii "droid_lerobot", 10), (ascii "fractal", 10),
    (ascii "galbot", 30), (ascii "hand_pose", 57), (ascii "pusht", 2),
    (ascii "robomind-franka", 10), (ascii "robomind-franka-dual", 20), (ascii "robomind-ur", 10),
    (ascii "umi", 10)]

def frameMin : ℤ := 16

def frameMax : ℤ := 400

def resolutionTiers : List ℤ := [256, 480, 704, 720]

structure ActionSpec where
  mode : ActionMode
  domainName : Text
  chunkSize : ℤ
  rawActionWidth : Option ℤ := none
  resolutionTier : ℤ := 480
  hasImage : Bool := false
  hasVideo : Bool := false

structure ActionValidationError where
  code : ErrorCode
  message : Text
  expected : Option ℤ := none
  got : Option ℤ := none

def rawActionDimOf (domainName : Text) : Option ℤ := rawActionDim.lookup domainName

section Validate

variable (shown : Shown) (spec : ActionSpec)

def names (table : List (Text × ℤ)) : Text := repr shown (.list (table.map fun entry => .str entry.1))

def validateEmbodiment : Option ActionValidationError :=
  if (domainId.lookup spec.domainName).isNone then
    some {
      code := .unknownEmbodiment
      message := ascii "unknown embodiment domain_name=" ++ shown.text spec.domainName ++
        ascii "; expected one of " ++ names shown domainId }
  else if (rawActionDimOf spec.domainName).isNone then
    some {
      code := .unsupportedForInference
      message := ascii "embodiment " ++ shown.text spec.domainName ++
        ascii " is not supported for action inference (no canonical width); supported: " ++
        names shown rawActionDim }
  else none

def validateCondition : Option ActionValidationError :=
  if spec.hasImage ∧ spec.hasVideo then
    some {
      code := .conditionConflict
      message := ascii "provide either an image or a video for the action condition, not both" }
  else if spec.mode = .inverseDynamics then
    if spec.hasVideo then none
    else some {
      code := .conditionMissing
      message := ascii "inverse_dynamics requires video conditioning" }
  else if spec.hasImage then none
  else some {
    code := .conditionMissing
    message := spec.mode.value ++ ascii " requires a conditioning image" }

def validateWindow : Option ActionValidationError :=
  if spec.resolutionTier ∉ resolutionTiers then
    some {
      code := .badResolutionTier
      message := ascii "resolution_tier must be one of " ++
        repr shown (.list (resolutionTiers.map .int)) ++ ascii ", got " ++ intText spec.resolutionTier
      got := some spec.resolutionTier }
  else if spec.chunkSize < 1 then
    some {
      code := .badChunk
      message := ascii "chunk_size must be >= 1, got " ++ intText spec.chunkSize
      got := some spec.chunkSize }
  else if ¬(frameMin ≤ spec.chunkSize ∧ spec.chunkSize ≤ frameMax) then
    some {
      code := .frameWindow
      message := ascii "chunk_size (action length) must be in [" ++ intText frameMin ++ ascii ", " ++
        intText frameMax ++ ascii "], got " ++ intText spec.chunkSize
      got := some spec.chunkSize }
  else none

def validateWidth (expected : ℤ) : Option ActionValidationError :=
  if spec.mode ≠ .forwardDynamics then none
  else
    match spec.rawActionWidth with
    | none => some {
        code := .conditionMissing
        message := ascii "forward_dynamics requires raw_actions" }
    | some width =>
      if width = expected then none
      else some {
        code := .widthMismatch
        message := ascii "raw_actions width (" ++ intText width ++
          ascii ") does not match the expected width (" ++ intText expected ++
          ascii ") for domain_name=" ++ shown.text spec.domainName
        expected := some expected
        got := some width }

-- `validate` of the embodiment schema.
def validateAction : Option ActionValidationError :=
  (validateEmbodiment shown spec).or <| (validateCondition spec).or <|
    (validateWindow shown spec).or <|
    (rawActionDimOf spec.domainName).bind fun expected => validateWidth shown spec expected

end Validate

-- What an accepted request has.
structure ActionSpec.Valid (spec : ActionSpec) : Prop where
  embodiment : spec.domainName ∈ rawActionDim.map (·.1)
  tier : spec.resolutionTier ∈ resolutionTiers
  chunk : frameMin ≤ spec.chunkSize ∧ spec.chunkSize ≤ frameMax

theorem mem_of_rawActionDimOf {domainName : Text} (h : (rawActionDimOf domainName).isNone = false) :
    domainName ∈ rawActionDim.map (·.1) := by
  by_contra hmem
  have hnone : rawActionDimOf domainName = none := by
    rw [rawActionDimOf, List.lookup_eq_none_iff]
    intro entry hentry
    rw [bne_iff_ne]
    intro heq
    exact hmem (heq ▸ List.mem_map_of_mem hentry)
  rw [hnone] at h
  cases h

theorem dim_of_validateEmbodiment {shown : Shown} {spec : ActionSpec}
    (h : validateEmbodiment shown spec = none) : (rawActionDimOf spec.domainName).isNone = false := by
  rw [Bool.eq_false_iff]
  intro hnone
  unfold validateEmbodiment at h
  rw [if_pos hnone] at h
  by_cases hknown : (domainId.lookup spec.domainName).isNone = true
  · rw [if_pos hknown] at h
    cases h
  · rw [if_neg hknown] at h
    cases h

theorem valid_of_validateAction {shown : Shown} {spec : ActionSpec}
    (h : validateAction shown spec = none) : spec.Valid := by
  unfold validateAction at h
  simp only [Option.or_eq_none_iff] at h
  obtain ⟨hembodiment, -, hwindow, -⟩ := h
  have hdim := dim_of_validateEmbodiment hembodiment
  unfold validateWindow at hwindow
  by_cases htier : spec.resolutionTier ∈ resolutionTiers
  · rw [if_neg (not_not.mpr htier)] at hwindow
    by_cases hone : spec.chunkSize < 1
    · rw [if_pos hone] at hwindow
      cases hwindow
    · by_cases hchunk : frameMin ≤ spec.chunkSize ∧ spec.chunkSize ≤ frameMax
      · exact ⟨mem_of_rawActionDimOf hdim, htier, hchunk⟩
      · rw [if_neg hone, if_pos hchunk] at hwindow
        cases hwindow
  · rw [if_pos htier] at hwindow
    cases hwindow

-- A forward-dynamics request names the canonical width.
theorem width_of_validateAction {shown : Shown} {spec : ActionSpec}
    (h : validateAction shown spec = none) (hmode : spec.mode = .forwardDynamics) :
    ∃ width, rawActionDimOf spec.domainName = some width ∧ spec.rawActionWidth = some width := by
  unfold validateAction at h
  simp only [Option.or_eq_none_iff] at h
  obtain ⟨hembodiment, -, -, hwidth⟩ := h
  obtain ⟨width, hdim⟩ := Option.isSome_iff_exists.mp
    (Option.isNone_eq_false_iff.mp (dim_of_validateEmbodiment hembodiment))
  rw [hdim, Option.bind_some, validateWidth, if_neg (not_not.mpr hmode)] at hwidth
  cases hgiven : spec.rawActionWidth with
  | none =>
      rw [hgiven] at hwidth
      cases hwidth
  | some given =>
      rw [hgiven] at hwidth
      by_cases heq : given = width
      · exact ⟨width, hdim, by rw [heq]⟩
      · dsimp only at hwidth
        rw [if_neg heq] at hwidth
        cases hwidth

end Cosmos3.Edge
