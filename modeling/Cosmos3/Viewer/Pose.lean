import Cosmos3.Viewer.Trajectory
import Mathlib.Data.List.Sort
import Mathlib.Data.Rat.Floor

namespace Cosmos3.Viewer

open Basis Basis.Python

section Timeline

structure Sample where
  i0 : ℕ
  i1 : ℕ
  frac : ℚ

def clamp01 (t : ℚ) : ℚ := if t < 0 then 0 else if 1 < t then 1 else t

def sampleIndex (normalizedT : ℚ) (T : ℕ) : Sample :=
  if T ≤ 1 then ⟨0, 0, 0⟩
  else
    let f := clamp01 normalizedT * (T - 1)
    ⟨⌊f⌋₊, min ⌈f⌉₊ (T - 1), f - ⌊f⌋₊⟩

theorem clamp01_mem (t : ℚ) : 0 ≤ clamp01 t ∧ clamp01 t ≤ 1 := by
  unfold clamp01
  split_ifs with hlow hhigh
  · exact ⟨le_refl 0, zero_le_one⟩
  · exact ⟨zero_le_one, le_refl 1⟩
  · exact ⟨not_lt.mp hlow, not_lt.mp hhigh⟩

-- The two frames around a position of the timeline, and how far it lies between them.
structure Brackets (frames : List (List ℚ)) (t : ℚ) (s : Sample) (a b : List ℚ) : Prop where
  lower : frames[s.i0]? = some a
  upper : frames[s.i1]? = some b
  adjacent : s.i0 ≤ s.i1 ∧ s.i1 ≤ s.i0 + 1
  frac : 0 ≤ s.frac ∧ s.frac < 1
  position : s.i0 + s.frac = clamp01 t * (frames.length - 1)

theorem brackets_sampleIndex {frames : List (List ℚ)} (hframes : frames ≠ []) (t : ℚ) :
    ∃ a b, Brackets frames t (sampleIndex t frames.length) a b := by
  have hpos := List.length_pos_of_ne_nil hframes
  unfold sampleIndex
  split_ifs with hone
  · have hlength : frames.length = 1 := by omega
    obtain ⟨a, ha⟩ := List.length_eq_one_iff.mp hlength
    exact ⟨a, a, by rw [ha]; rfl, by rw [ha]; rfl, by simp, by simp, by simp [hlength]⟩
  · obtain ⟨hlow, hhigh⟩ := clamp01_mem t
    generalize hf : clamp01 t * ((frames.length : ℚ) - 1) = f
    have hlast : ((frames.length - 1 : ℕ) : ℚ) = frames.length - 1 := by
      rw [Nat.cast_sub (by omega), Nat.cast_one]
    have hnonneg : 0 ≤ f := by
      rw [← hf, ← hlast]
      positivity
    have hle : f ≤ (frames.length - 1 : ℕ) := by
      rw [← hf, ← hlast]
      exact mul_le_of_le_one_left (Nat.cast_nonneg _) hhigh
    have hfloor : ⌊f⌋₊ ≤ frames.length - 1 := Nat.floor_le_of_le hle
    have hceil : ⌈f⌉₊ ≤ frames.length - 1 := Nat.ceil_le.mpr hle
    have hmin : min ⌈f⌉₊ (frames.length - 1) = ⌈f⌉₊ := min_eq_left hceil
    have hlower : ⌊f⌋₊ < frames.length := by omega
    have hupper : ⌈f⌉₊ < frames.length := by omega
    refine ⟨frames[⌊f⌋₊], frames[⌈f⌉₊], List.getElem?_eq_getElem hlower, ?_,
      ⟨?_, ?_⟩, ⟨sub_nonneg.mpr (Nat.floor_le hnonneg), ?_⟩, ?_⟩
    · simp only [hmin]
      exact List.getElem?_eq_getElem hupper
    · simp only [hmin]
      exact Nat.floor_le_ceil f
    · simp only [hmin]
      exact Nat.ceil_le_floor_add_one f
    · have := Nat.lt_floor_add_one f
      simp only
      linarith
    · simp only [hf]
      ring

end Timeline

section JointMaps

structure JointEntry where
  dim : ℕ
  joint : Text

structure OrientationGroup where
  dims : ℕ × ℕ × ℕ × ℕ
  link : Text

structure JointMap where
  joints : List JointEntry
  orientation : List OrientationGroup

inductive JointMapError where
  | dimMismatch (width got : ℕ)
  | badCoverage (width : ℕ) (sorted : List ℕ)
  | unknownJoint (joint : Text)

def JointMapError.message : JointMapError → Text
  | .dimMismatch width got => ascii "joint-map covers " ++ decimal got ++
      ascii " dims but embodiment width is " ++ decimal width
  | .badCoverage width sorted => ascii "dims must be a contiguous 0.." ++ intText (width - 1) ++
      ascii " permutation (no gaps/duplicates); got [" ++
        List.intercalate (ascii ",") (sorted.map decimal) ++ ascii "]"
  | .unknownJoint joint => ascii "mapped joint \"" ++ joint ++ ascii "\" is not present in the URDF"

def OrientationGroup.slots (g : OrientationGroup) : List ℕ := [g.dims.1, g.dims.2.1, g.dims.2.2.1, g.dims.2.2.2]

def mappedDims (map : JointMap) : List ℕ := map.joints.map (·.dim) ++ map.orientation.flatMap (·.slots)

def validateJointMap (map : JointMap) (width : ℕ) (urdfJointNames : List Text) : Option JointMapError :=
  let dims := mappedDims map
  if dims.length ≠ width then some (.dimMismatch width dims.length)
  else
    let sorted := dims.mergeSort (· ≤ ·)
    if sorted ≠ List.range sorted.length then some (.badCoverage width sorted)
    else (map.joints.find? fun j => j.joint ∉ urdfJointNames).map (.unknownJoint ·.joint)

-- A map is accepted when its dimensions are those of the embodiment, in some order.
theorem validateJointMap_eq_none {map : JointMap} {width : ℕ} {names : List Text} :
    validateJointMap map width names = none ↔
      (mappedDims map).Perm (List.range width) ∧ ∀ j ∈ map.joints, j.joint ∈ names := by
  have hsort := List.mergeSort_perm (mappedDims map) (· ≤ ·)
  unfold validateJointMap
  constructor
  · intro h
    simp only at h
    split_ifs at h with hlength hsorted
    have hwidth : (mappedDims map).length = width := not_not.mp hlength
    have hrange := not_not.mp hsorted
    rw [List.length_mergeSort, hwidth] at hrange
    refine ⟨hrange ▸ hsort.symm, fun j hj => ?_⟩
    have hfound := List.find?_eq_none.mp (Option.map_eq_none_iff.mp h) j hj
    simpa using hfound
  · rintro ⟨hperm, hknown⟩
    have hlength : (mappedDims map).length = width := by rw [hperm.length_eq, List.length_range]
    have hrange : (mappedDims map).mergeSort (· ≤ ·) = List.range width := by
      have hsorted : ((mappedDims map).mergeSort (· ≤ ·)).Pairwise (· ≤ ·) :=
        List.pairwise_mergeSort' (· ≤ ·) (mappedDims map)
      exact (hsort.trans hperm).eq_of_pairwise' hsorted List.pairwise_le_range
    simp only [hlength, ne_eq, not_true_eq_false, if_false, hrange, List.length_range,
      Option.map_eq_none_iff, List.find?_eq_none]
    intro j hj
    simpa using hknown j hj

end JointMaps

section Poses

structure Quat where
  x : ℚ
  y : ℚ
  z : ℚ
  w : ℚ

-- The joints as they are assigned; of two assignments to one joint the last one counts.
structure Pose where
  joints : List (Text × ℚ)
  orientations : List (Text × Quat)

def Pose.angle (pose : Pose) (joint : Text) : Option ℚ :=
  (pose.joints.reverse.find? fun assigned => assigned.1 = joint).map (·.2)

def lerp (a b t : ℚ) : ℚ := a + (b - a) * t

def cell (frame : List ℚ) (dim : ℕ) (absent : ℚ) : ℚ := (frame[dim]?).getD absent

def quatOf (frame : List ℚ) (g : OrientationGroup) : Quat :=
  ⟨cell frame g.dims.1 0, cell frame g.dims.2.1 0, cell frame g.dims.2.2.1 0, cell frame g.dims.2.2.2 1⟩

-- With the interpolation of orientations as a parameter.
def buildPose (slerpQuat : Quat → Quat → ℚ → Quat) (frames : List (List ℚ)) (map : JointMap) (s : Sample) :
    Pose :=
  let a := (frames[s.i0]?).getD []
  let b := (frames[s.i1]?).getD a
  { joints := map.joints.map fun j => (j.joint, lerp (cell a j.dim 0) (cell b j.dim 0) s.frac)
    orientations := map.orientation.map fun g => (g.link, slerpQuat (quatOf a g) (quatOf b g) s.frac) }

-- The cells of a frame that make up an orientation.
def Orients (frame : List ℚ) (g : OrientationGroup) (q : Quat) : Prop :=
  frame[g.dims.1]? = some q.x ∧ frame[g.dims.2.1]? = some q.y ∧ frame[g.dims.2.2.1]? = some q.z ∧
    frame[g.dims.2.2.2]? = some q.w

-- A pose between two frames: every dimension drives one joint or one part of an orientation,
-- every joint stands between its two cells, and no cell is made up.
structure Drives (slerpQuat : Quat → Quat → ℚ → Quat) (map : JointMap) (width : ℕ) (a b : List ℚ) (frac : ℚ)
    (pose : Pose) : Prop where
  once : ∀ d < width, (mappedDims map).count d = 1
  joints : ∀ j ∈ map.joints, ∃ x y, a[j.dim]? = some x ∧ b[j.dim]? = some y ∧
    pose.angle j.joint = some (lerp x y frac) ∧ min x y ≤ lerp x y frac ∧ lerp x y frac ≤ max x y
  orientations : ∀ g ∈ map.orientation, ∃ q r, Orients a g q ∧ Orients b g r ∧
    (g.link, slerpQuat q r frac) ∈ pose.orientations

theorem lerp_mem {frac : ℚ} (hfrac : 0 ≤ frac ∧ frac < 1) (x y : ℚ) :
    min x y ≤ lerp x y frac ∧ lerp x y frac ≤ max x y := by
  unfold lerp
  rcases le_total x y with h | h
  · have hgap : 0 ≤ (y - x) * frac := mul_nonneg (sub_nonneg.mpr h) hfrac.1
    have hrest : 0 ≤ (y - x) * (1 - frac) := mul_nonneg (sub_nonneg.mpr h) (by linarith)
    rw [min_eq_left h, max_eq_right h]
    constructor <;> linarith
  · have hgap : 0 ≤ (x - y) * frac := mul_nonneg (sub_nonneg.mpr h) hfrac.1
    have hrest : 0 ≤ (x - y) * (1 - frac) := mul_nonneg (sub_nonneg.mpr h) (by linarith)
    rw [min_eq_right h, max_eq_left h]
    constructor <;> linarith

theorem cell_of_lt {frame : List ℚ} {d : ℕ} (h : d < frame.length) (absent : ℚ) :
    frame[d]? = some (cell frame d absent) := by
  rw [cell, List.getElem?_eq_getElem h]
  rfl

theorem angle_of_mem {pose : Pose} (hnodup : (pose.joints.map (·.1)).Nodup) {joint : Text} {x : ℚ}
    (h : (joint, x) ∈ pose.joints) : pose.angle joint = some x := by
  have hmem : (joint, x) ∈ pose.joints.reverse := List.mem_reverse.mpr h
  have hreverse : (pose.joints.reverse.map (·.1)).Nodup := by
    rw [List.map_reverse]
    exact List.nodup_reverse.mpr hnodup
  unfold Pose.angle
  generalize pose.joints.reverse = assigned at hmem hreverse
  induction assigned with
  | nil => cases hmem
  | cons first assigned ih =>
      rw [List.map_cons, List.nodup_cons] at hreverse
      rcases List.mem_cons.mp hmem with rfl | hmem
      · rw [List.find?_cons_of_pos (by simp)]
        rfl
      · have hne : first.1 ≠ joint := by
          rintro rfl
          exact hreverse.1 (List.mem_map.mpr ⟨_, hmem, rfl⟩)
        rw [List.find?_cons_of_neg (by simpa using hne)]
        exact ih hmem hreverse.2

theorem dim_lt {map : JointMap} {width : ℕ} (hperm : (mappedDims map).Perm (List.range width)) {d : ℕ}
    (h : d ∈ mappedDims map) : d < width := List.mem_range.mp (hperm.mem_iff.mp h)

theorem mem_mappedDims_joint {map : JointMap} {j : JointEntry} (h : j ∈ map.joints) :
    j.dim ∈ mappedDims map := List.mem_append_left _ (List.mem_map_of_mem h)

theorem mem_mappedDims_slot {map : JointMap} {g : OrientationGroup} (h : g ∈ map.orientation) {d : ℕ}
    (hd : d ∈ g.slots) : d ∈ mappedDims map :=
  List.mem_append_right _ (List.mem_flatMap.mpr ⟨g, h, hd⟩)

theorem orients_quatOf {map : JointMap} {width : ℕ} (hperm : (mappedDims map).Perm (List.range width))
    {g : OrientationGroup} (hg : g ∈ map.orientation) {frame : List ℚ} (hframe : frame.length = width) :
    Orients frame g (quatOf frame g) := by
  have hslot : ∀ d ∈ g.slots, d < frame.length := fun d hd =>
    hframe ▸ dim_lt hperm (mem_mappedDims_slot hg hd)
  exact ⟨cell_of_lt (hslot _ (by simp [OrientationGroup.slots])) 0,
    cell_of_lt (hslot _ (by simp [OrientationGroup.slots])) 0,
    cell_of_lt (hslot _ (by simp [OrientationGroup.slots])) 0,
    cell_of_lt (hslot _ (by simp [OrientationGroup.slots])) 1⟩

-- What an accepted map with distinct joints makes of frames of its width.
theorem drives_buildPose (slerpQuat : Quat → Quat → ℚ → Quat) {map : JointMap} {width : ℕ}
    (hperm : (mappedDims map).Perm (List.range width)) (hnodup : (map.joints.map (·.joint)).Nodup)
    {frames : List (List ℚ)} (heven : ∀ frame ∈ frames, frame.length = width) {t : ℚ} {s : Sample}
    {a b : List ℚ} (h : Brackets frames t s a b) :
    Drives slerpQuat map width a b s.frac (buildPose slerpQuat frames map s) := by
  have ha : a.length = width := heven a (List.mem_of_getElem? h.lower)
  have hb : b.length = width := heven b (List.mem_of_getElem? h.upper)
  have hpose : buildPose slerpQuat frames map s =
      { joints := map.joints.map fun j => (j.joint, lerp (cell a j.dim 0) (cell b j.dim 0) s.frac)
        orientations := map.orientation.map fun g =>
          (g.link, slerpQuat (quatOf a g) (quatOf b g) s.frac) } := by
    simp only [buildPose, h.lower, h.upper, Option.getD_some]
  rw [hpose]
  refine ⟨fun d hd => ?_, fun j hj => ?_, fun g hg => ?_⟩
  · rw [hperm.count_eq]
    exact List.count_eq_one_of_mem List.nodup_range (List.mem_range.mpr hd)
  · have hdim := dim_lt hperm (mem_mappedDims_joint hj)
    refine ⟨cell a j.dim 0, cell b j.dim 0, cell_of_lt (ha ▸ hdim) 0, cell_of_lt (hb ▸ hdim) 0,
      angle_of_mem ?_ (List.mem_map_of_mem hj), lerp_mem h.frac _ _⟩
    simpa [Function.comp_def] using hnodup
  · exact ⟨quatOf a g, quatOf b g, orients_quatOf hperm hg ha, orients_quatOf hperm hg hb,
      List.mem_map_of_mem hg⟩

end Poses

end Cosmos3.Viewer
