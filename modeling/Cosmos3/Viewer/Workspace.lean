import Cosmos3.Viewer.Pose

namespace Cosmos3.Viewer

open Basis Basis.Python

section Embodiments

def CANONICAL_WIDTH : List (Text × ℕ) := [(ascii "agibotworld", 29), (ascii "av", 9)]

def VERIFIED_3D : List Text := [ascii "agibotworld"]

inductive ViewerMode where
  | threeD
  | fallback
deriving DecidableEq

def viewerModeFor (domain : Text) : ViewerMode := if domain ∈ VERIFIED_3D then .threeD else .fallback

def entryOf {α : Type} (table : List (Text × α)) (domain : Text) : Option α :=
  (table.find? fun entry => entry.1 = domain).map (·.2)

def canonicalWidthOf (domain : Text) : Option ℕ := entryOf CANONICAL_WIDTH domain

def agibotworld : JointMap where
  joints := [
    ⟨0, ascii "l_shoulder_pitch"⟩, ⟨1, ascii "l_shoulder_roll"⟩, ⟨2, ascii "l_shoulder_yaw"⟩,
    ⟨3, ascii "l_elbow"⟩, ⟨4, ascii "l_wrist_pitch"⟩, ⟨5, ascii "l_wrist_roll"⟩,
    ⟨6, ascii "l_wrist_yaw"⟩, ⟨7, ascii "l_gripper"⟩, ⟨8, ascii "r_shoulder_pitch"⟩,
    ⟨9, ascii "r_shoulder_roll"⟩, ⟨10, ascii "r_shoulder_yaw"⟩, ⟨11, ascii "r_elbow"⟩,
    ⟨12, ascii "r_wrist_pitch"⟩, ⟨13, ascii "r_wrist_roll"⟩, ⟨14, ascii "r_wrist_yaw"⟩,
    ⟨15, ascii "r_gripper"⟩, ⟨16, ascii "waist_yaw"⟩, ⟨17, ascii "waist_pitch"⟩,
    ⟨18, ascii "waist_roll"⟩, ⟨19, ascii "head_yaw"⟩, ⟨20, ascii "head_pitch"⟩,
    ⟨21, ascii "body_lift"⟩, ⟨22, ascii "base_x"⟩, ⟨23, ascii "base_y"⟩,
    ⟨24, ascii "base_yaw"⟩]
  orientation := [⟨(25, 26, 27, 28), ascii "chest"⟩]

def EMBODIMENT_JOINT_MAPS : List (Text × JointMap) := [(ascii "agibotworld", agibotworld)]

def URDF_FOR : List (Text × Text) := [(ascii "agibotworld", ascii "/urdf/agibotworld.urdf")]

end Embodiments

section Decision

structure ViewerDecision where
  show3D : Bool
  reason : Option Text

structure ViewerInputs where
  domain : Text
  hasTrajectory : Bool
  trajectoryWidth : ℕ
  canonicalWidth : Option ℕ
  mode : ViewerMode
  hasMap : Bool
  hasUrdf : Bool
  configError : Option JointMapError
  viewerError : Option Text

def fallBack (reason : Text) : ViewerDecision := ⟨false, some reason⟩

def widthMismatch (inputs : ViewerInputs) : Option ℕ :=
  inputs.canonicalWidth.filter fun width => 0 < inputs.trajectoryWidth ∧ inputs.trajectoryWidth ≠ width

def decideViewer (inputs : ViewerInputs) : ViewerDecision :=
  if inputs.hasTrajectory = false then ⟨false, none⟩
  else
    let label := if inputs.domain = [] then ascii "This embodiment" else inputs.domain
    if inputs.mode = .fallback then
      fallBack (label ++ ascii
        " is not a verified 3D embodiment; the 2D trajectory plots are the authoritative view.")
    else if inputs.hasMap = false ∨ inputs.hasUrdf = false then
      fallBack (ascii "3D view unavailable: no joint-map or URDF for " ++ label ++
        ascii ". Showing the 2D plots.")
    else
      match inputs.configError with
      | some error =>
        fallBack (ascii "3D view unavailable: " ++ error.message ++ ascii ". Showing the 2D plots.")
      | none =>
        match widthMismatch inputs with
        | some width =>
          fallBack (ascii "Trajectory width " ++ decimal inputs.trajectoryWidth ++
            ascii " does not match the expected " ++ decimal width ++ ascii " for " ++ label ++
            ascii "; showing the 2D plots.")
        | none =>
          match inputs.viewerError.filter (· ≠ []) with
          | some error =>
            fallBack (ascii "3D view unavailable: " ++ error ++ ascii ". Showing the 2D plots.")
          | none => ⟨true, none⟩

variable {α : Type}

def trajectoryWidth (frames : List (List α)) : ℕ := (frames.head?.getD []).length

def jointMapFor (domain : Text) : Option JointMap :=
  if domain = [] then none else entryOf EMBODIMENT_JOINT_MAPS domain

-- What the workspace makes of the domain, the frames and the error of the scene.
def viewerInputs (domain : Text) (frames : List (List α)) (viewerError : Option Text) : ViewerInputs :=
  let width := if frames = [] then (canonicalWidthOf domain).getD 0 else trajectoryWidth frames
  let map := jointMapFor domain
  { domain := domain
    hasTrajectory := !frames.isEmpty
    trajectoryWidth := trajectoryWidth frames
    canonicalWidth := canonicalWidthOf domain
    mode := viewerModeFor domain
    hasMap := map.isSome
    hasUrdf := (entryOf URDF_FOR domain).isSome
    configError := map.bind fun map =>
      validateJointMap map ((canonicalWidthOf domain).getD width) (map.joints.map (·.joint))
    viewerError := viewerError }

end Decision

section Faithful

-- The one map there is covers the 29 dimensions, and names no joint twice.
theorem perm_agibotworld : (mappedDims agibotworld).Perm (List.range 29) := by
  have hdims : mappedDims agibotworld = List.range 29 := by decide
  rw [hdims]

theorem nodup_agibotworld : (agibotworld.joints.map (·.joint)).Nodup := by decide +kernel

-- The order of the checks does not matter for what they let through; what they hold back has
-- its reason.
theorem decideViewer_cases (inputs : ViewerInputs) (h : inputs.hasTrajectory = true) :
    ((decideViewer inputs).show3D = true ↔ inputs.mode = .threeD ∧ inputs.hasMap = true ∧
      inputs.hasUrdf = true ∧ inputs.configError = none ∧ widthMismatch inputs = none ∧
        inputs.viewerError.filter (· ≠ []) = none) ∧
    ((decideViewer inputs).show3D = false → ∃ reason, (decideViewer inputs).reason = some reason) := by
  have hmode : inputs.mode = .fallback ∨ inputs.mode = .threeD := by
    cases inputs.mode <;> simp
  unfold decideViewer
  rw [if_neg (by simp [h])]
  simp only
  rcases hmode with hmode | hmode
  · simp [hmode, fallBack]
  rw [if_neg (by simp [hmode])]
  by_cases hassets : inputs.hasMap = false ∨ inputs.hasUrdf = false
  · rw [if_pos hassets]
    rcases hassets with hassets | hassets <;> simp [hassets, fallBack]
  rw [if_neg hassets]
  have hpresent : inputs.hasMap = true ∧ inputs.hasUrdf = true := by simpa [not_or] using hassets
  cases inputs.configError with
  | some error => simp [fallBack]
  | none =>
      cases widthMismatch inputs with
      | some width => simp [fallBack]
      | none =>
          cases inputs.viewerError.filter (· ≠ []) with
          | some error => simp [fallBack]
          | none => simp [hmode, hpresent]

def asNumbers (frames : List (List ℚ)) : List (List Number) := frames.map fun frame => frame.map .finite

theorem viewerModeFor_eq {domain : Text} : viewerModeFor domain = .threeD ↔ domain = ascii "agibotworld" := by
  unfold viewerModeFor
  split_ifs with h
  · simpa [VERIFIED_3D] using h
  · simpa [VERIFIED_3D] using h

theorem widthMismatch_eq_none {frames : List (List ℚ)} {width : ℕ} (hwidth : width ≠ 0)
    (heven : ∀ frame ∈ frames, frame.length = width) (hframes : frames ≠ []) (viewerError : Option Text) :
    widthMismatch (viewerInputs (ascii "agibotworld") frames viewerError) = none ↔ width = 29 := by
  have hcanonical : canonicalWidthOf (ascii "agibotworld") = some 29 := by decide
  obtain ⟨first, rest, rfl⟩ := List.exists_cons_of_ne_nil hframes
  have hfirst : trajectoryWidth (first :: rest) = width := heven first List.mem_cons_self
  have hpos : 0 < width := Nat.pos_of_ne_zero hwidth
  simp [widthMismatch, viewerInputs, hcanonical, hfirst, hpos]

-- A trajectory that is displayed is animated just when its embodiment is the verified one and
-- its width is that of the map, and then every cell of its frames reaches the robot; where it
-- is not animated a reason is shown. The arithmetic is exact where the browser rounds, and the
-- cells are finite: `parseTrajectory` lets an Infinity through, which no pose is stated for.
theorem viewer_faithful {numbers : Json.NumberText} {floats : FloatText} {data : List Value}
    {frames : List (List ℚ)} (hdisplays : Displays numbers floats data (asNumbers frames))
    (slerpQuat : Quat → Quat → ℚ → Quat) (domain : Text) (viewerError : Option Text) :
    ((decideViewer (viewerInputs domain frames viewerError)).show3D = true ↔
      domain = ascii "agibotworld" ∧ (∀ frame ∈ frames, frame.length = 29) ∧
        viewerError.filter (· ≠ []) = none) ∧
    ((decideViewer (viewerInputs domain frames viewerError)).show3D = false →
      ∃ reason, (decideViewer (viewerInputs domain frames viewerError)).reason = some reason) ∧
    ((decideViewer (viewerInputs domain frames viewerError)).show3D = true →
      ∃ map, jointMapFor domain = some map ∧ ∀ t, ∃ a b,
        Brackets frames t (sampleIndex t frames.length) a b ∧
          Drives slerpQuat map 29 a b (sampleIndex t frames.length).frac
            (buildPose slerpQuat frames map (sampleIndex t frames.length))) := by
  obtain ⟨width, hwidth, heven⟩ : ∃ width, width ≠ 0 ∧ ∀ frame ∈ frames, frame.length = width := by
    obtain ⟨width, hwidth, heven⟩ := hdisplays.even
    refine ⟨width, hwidth, fun frame hframe => ?_⟩
    simpa using heven _ (List.mem_map_of_mem hframe)
  have hframes : frames ≠ [] := by
    rintro rfl
    exact hdisplays.some_frame rfl
  obtain ⟨hcases, hreason⟩ := decideViewer_cases (viewerInputs domain frames viewerError) (by
    simpa [viewerInputs] using hframes)
  have hiff : (decideViewer (viewerInputs domain frames viewerError)).show3D = true ↔
      domain = ascii "agibotworld" ∧ (∀ frame ∈ frames, frame.length = 29) ∧
        viewerError.filter (· ≠ []) = none := by
    rw [hcases]
    constructor
    · rintro ⟨hmode, -, -, -, hmismatch, herror⟩
      obtain rfl := viewerModeFor_eq.mp hmode
      have h29 := (widthMismatch_eq_none hwidth heven hframes viewerError).mp hmismatch
      exact ⟨rfl, fun frame hframe => h29 ▸ heven frame hframe, herror⟩
    · rintro ⟨rfl, h29, herror⟩
      have hmap : jointMapFor (ascii "agibotworld") = some agibotworld := by rfl
      have hconfig : validateJointMap agibotworld 29 (agibotworld.joints.map (·.joint)) = none :=
        validateJointMap_eq_none.mpr ⟨perm_agibotworld, fun j hj => List.mem_map_of_mem hj⟩
      have hcanonical : canonicalWidthOf (ascii "agibotworld") = some 29 := by decide
      refine ⟨viewerModeFor_eq.mpr rfl, ?_, ?_, ?_,
        (widthMismatch_eq_none (by decide) h29 hframes viewerError).mpr rfl, herror⟩
      · simp [viewerInputs, hmap]
      · rfl
      · simp [viewerInputs, hmap, hcanonical, hconfig]
  refine ⟨hiff, hreason, fun hshow => ?_⟩
  obtain ⟨rfl, h29, -⟩ := hiff.mp hshow
  refine ⟨agibotworld, rfl, fun t => ?_⟩
  obtain ⟨a, b, hbrackets⟩ := brackets_sampleIndex hframes t
  exact ⟨a, b, hbrackets, drives_buildPose slerpQuat perm_agibotworld nodup_agibotworld h29 hbrackets⟩

-- A robot that stands still, all of its cells 1.
theorem viewer_faithful_still : (decideViewer (viewerInputs (ascii "agibotworld")
      [List.replicate 29 (1 : ℚ)] none)).show3D = true ∧
    ∃ map, jointMapFor (ascii "agibotworld") = some map ∧ ∀ t, ∃ a b,
      Brackets [List.replicate 29 1] t (sampleIndex t 1) a b ∧
        Drives (fun q _ _ => q) map 29 a b (sampleIndex t 1).frac
          (buildPose (fun q _ _ => q) [List.replicate 29 1] map (sampleIndex t 1)) := by
  have hcells : ∀ n, List.Forall₂ (Denotes sampleNumbers FloatText.ofFractions)
      (List.replicate n (.int 1)) (List.replicate n (.finite 1)) := by
    intro n
    induction n with
    | zero => exact .nil
    | succ n ih => exact .cons (.int 1) ih
  have hdisplays : Displays sampleNumbers FloatText.ofFractions [.list (List.replicate 29 (.int 1))]
      (asNumbers [List.replicate 29 1]) :=
    ⟨.cons ⟨_, rfl, hcells 29⟩ .nil, by simp [asNumbers], ⟨29, by decide, by simp [asNumbers]⟩,
      by simp [asNumbers]⟩
  obtain ⟨hiff, -, hposes⟩ := viewer_faithful hdisplays (fun q _ _ => q) (ascii "agibotworld") none
  have hshow := hiff.mpr ⟨rfl, by simp, rfl⟩
  exact ⟨hshow, hposes hshow⟩

end Faithful

end Cosmos3.Viewer
