import Cosmos3.Basis.Dumps
import Cosmos3.Edge.Media

namespace Cosmos3.Edge

open Basis Basis.Python

section Numbers

-- The `size` bytes of a number, the most significant first.
def bigBytes : Nat → Nat → Bytes
  | 0, _ => []
  | size + 1, n => bigBytes size (n / 256) ++ [n.toUInt8]

theorem length_bigBytes (size n : Nat) : (bigBytes size n).length = size := by
  induction size generalizing n with
  | zero => rfl
  | succ size ih => rw [bigBytes, List.length_append, ih, List.length_singleton]

theorem big_append (bytes : Bytes) (byte : UInt8) : big (bytes ++ [byte]) = 256 * big bytes + byte.toNat := by
  rw [big, List.foldl_append, List.foldl_cons, List.foldl_nil, big]

theorem big_bigBytes {size n : Nat} (h : n < 256 ^ size) : big (bigBytes size n) = n := by
  induction size generalizing n with
  | zero =>
      obtain rfl : n = 0 := by simpa using h
      rfl
  | succ size ih =>
      have hrest : n / 256 < 256 ^ size := by
        rw [Nat.div_lt_iff_lt_mul (by omega), ← Nat.pow_succ]
        exact h
      have hbyte : n.toUInt8.toNat = n % 256 := by simp
      rw [bigBytes, big_append, ih hrest, hbyte]
      omega

end Numbers

section Formats

-- A marker that a length follows.
def isSegmentMarker (marker : UInt8) : Bool :=
  1 < marker && marker ≠ 0xFF && !(0xD0 ≤ marker && marker ≤ 0xD9)

-- A marker segment of a JPEG. Any number of fill bytes may come before a marker.
structure Segment where
  fill : Nat
  marker : UInt8
  payload : Bytes
  marks : isSegmentMarker marker = true
  fits : payload.length + 2 < 2 ^ 16

def Segment.bytes (segment : Segment) : Bytes :=
  List.replicate segment.fill 0xFF ++
    0xFF :: segment.marker :: (bigBytes 2 (segment.payload.length + 2) ++ segment.payload)

-- The segment of a frame start. At least the number of the components comes behind the
-- dimensions.
structure Frame where
  fill : Nat
  marker : UInt8
  precision : UInt8
  height : Nat
  width : Nat
  components : Bytes
  marks : isFrameStart marker = true
  height_lt : height < 2 ^ 16
  width_lt : width < 2 ^ 16
  nonempty : components ≠ []
  fits : components.length + 7 < 2 ^ 16

theorem isSegmentMarker_of_isFrameStart {marker : UInt8} (h : isFrameStart marker = true) :
    isSegmentMarker marker = true := by
  unfold isFrameStart at h
  unfold isSegmentMarker
  simp only [Bool.and_eq_true, decide_eq_true_eq, Bool.not_eq_true', Bool.and_eq_false_iff,
    decide_eq_false_iff_not, ne_eq, UInt8.le_iff_toNat_le, UInt8.lt_iff_toNat_lt, ← UInt8.toNat_inj] at h ⊢
  simp at h ⊢
  omega

def Frame.segment (frame : Frame) : Segment where
  fill := frame.fill
  marker := frame.marker
  payload := frame.precision :: (bigBytes 2 frame.height ++ (bigBytes 2 frame.width ++ frame.components))
  marks := isSegmentMarker_of_isFrameStart frame.marks
  fits := by
    have := frame.fits
    simp only [List.length_cons, List.length_append, length_bigBytes]
    omega

structure Jpeg where
  segments : List Segment
  frame : Frame
  rest : Bytes
  first : ∀ segment ∈ segments, isFrameStart segment.marker = false

def Jpeg.items (jpeg : Jpeg) : List Segment := jpeg.segments ++ [jpeg.frame.segment]

def Jpeg.bytes (jpeg : Jpeg) : Bytes :=
  0xFF :: 0xD8 :: (jpeg.items.flatMap Segment.bytes ++ jpeg.rest)

-- The signature and the header chunk up to its dimensions.
structure Png where
  width : Nat
  height : Nat
  rest : Bytes
  width_lt : width < 2 ^ 32
  height_lt : height < 2 ^ 32

def Png.bytes (png : Png) : Bytes :=
  [0x89, 0x50, 0x4E, 0x47, 0x0D, 0x0A, 0x1A, 0x0A] ++ (bigBytes 4 13 ++ ([0x49, 0x48, 0x44, 0x52] ++
    (bigBytes 4 png.width ++ (bigBytes 4 png.height ++ png.rest))))

inductive Image where
  | png (png : Png)
  | jpeg (jpeg : Jpeg)

namespace Image

def bytes : Image → Bytes
  | .png file => file.bytes
  | .jpeg file => file.bytes

-- The dimensions that the file declares.
def width : Image → ℤ
  | .png file => file.width
  | .jpeg file => file.frame.width

def height : Image → ℤ
  | .png file => file.height
  | .jpeg file => file.frame.height

-- No marker up to the frame start has a fill byte before it.
def Unfilled : Image → Prop
  | .png _ => True
  | .jpeg file => ∀ item ∈ file.items, item.fill = 0

-- The probe reports the declared dimensions, so that too large ones are refused.
structure Guarded (shown : Shown) (image : Image) : Prop where
  width : (probeImage image.bytes).width = some image.width
  height : (probeImage image.bytes).height = some image.height
  refused : ∀ limits : MediaLimits, limits.maxImageDimension < max image.width image.height →
    ∃ error, validateImage shown (probeImage image.bytes) limits = some error

end Image

end Formats

section Scan

theorem toNat_big {n : Nat} (h : n < 2 ^ 16) : (big (bigBytes 2 n)).toNat = n := by
  rw [big_bigBytes h, Int.toNat_natCast]

theorem not_standalone {marker : UInt8} (h : isSegmentMarker marker = true ∨ marker = 0xFF) :
    ¬(marker = 0xD8 ∨ marker = 0xD9 ∨ (0xD0 ≤ marker ∧ marker ≤ 0xD7)) := by
  unfold isSegmentMarker at h
  simp only [Bool.and_eq_true, decide_eq_true_eq, Bool.not_eq_true', Bool.and_eq_false_iff,
    decide_eq_false_iff_not, ne_eq, UInt8.le_iff_toNat_le, UInt8.lt_iff_toNat_lt, ← UInt8.toNat_inj] at h ⊢
  simp at h ⊢
  omega

-- What the scan does with two bytes and a length: it skips what it takes for a segment.
theorem jpegScan_skip {marker high low : UInt8} {rest : Bytes}
    (hmarker : isSegmentMarker marker = true ∨ marker = 0xFF) (hframe : isFrameStart marker = false)
    (hlong : 5 < rest.length) :
    jpegScan (0xFF :: marker :: high :: low :: rest) =
      jpegScan ((high :: low :: rest).drop (big [high, low]).toNat) := by
  have hlength : ¬(0xFF :: marker :: high :: low :: rest).length ≤ 9 := by
    simp only [List.length_cons]
    omega
  rw [jpegScan, if_neg hlength, if_neg (by simp), if_neg (not_standalone hmarker), hframe]
  rfl

theorem Segment.bytes_unfilled {segment : Segment} (h : segment.fill = 0) : ∃ high low,
    bigBytes 2 (segment.payload.length + 2) = [high, low] ∧
      segment.bytes = 0xFF :: segment.marker :: high :: low :: segment.payload := by
  refine ⟨_, _, rfl, ?_⟩
  rw [Segment.bytes, h]
  rfl

theorem jpegScan_segment {segment : Segment} (hfill : segment.fill = 0)
    (hframe : isFrameStart segment.marker = false) {rest : Bytes} (hlong : 5 < rest.length) :
    jpegScan (segment.bytes ++ rest) = jpegScan rest := by
  obtain ⟨high, low, hsize, hbytes⟩ := segment.bytes_unfilled hfill
  have hlength : 5 < (segment.payload ++ rest).length := by
    rw [List.length_append]
    omega
  have hdrop : (high :: low :: (segment.payload ++ rest)).drop (segment.payload.length + 2) = rest := by
    rw [List.drop_succ_cons, List.drop_succ_cons, List.drop_left]
  rw [hbytes]
  simp only [List.cons_append]
  rw [jpegScan_skip (.inl segment.marks) hframe hlength, ← hsize, toNat_big segment.fits, hdrop]

theorem jpegScan_frame {frame : Frame} (hfill : frame.fill = 0) (rest : Bytes) :
    jpegScan (frame.segment.bytes ++ rest) = some ((frame.width : ℤ), (frame.height : ℤ)) := by
  obtain ⟨high, low, -, hbytes⟩ := frame.segment.bytes_unfilled hfill
  have hcomponents : 0 < frame.components.length := List.length_pos_of_ne_nil frame.nonempty
  have hpayload : frame.segment.payload =
      frame.precision :: (bigBytes 2 frame.height ++ (bigBytes 2 frame.width ++ frame.components)) := rfl
  have hlength : ¬(0xFF :: frame.segment.marker :: high :: low ::
      (frame.segment.payload ++ rest)).length ≤ 9 := by
    simp only [hpayload, List.length_cons, List.length_append, length_bigBytes]
    omega
  have hmarks : isSegmentMarker frame.segment.marker = true ∨ frame.segment.marker = 0xFF :=
    .inl frame.segment.marks
  have hheight : (((frame.segment.payload ++ rest).drop 1).take 2) = bigBytes 2 frame.height := by
    rw [hpayload, List.cons_append, List.drop_succ_cons, List.drop_zero, List.append_assoc,
      List.take_left' (length_bigBytes 2 frame.height)]
  have hwidth : (((frame.segment.payload ++ rest).drop 3).take 2) = bigBytes 2 frame.width := by
    rw [hpayload, List.cons_append, List.drop_succ_cons, List.append_assoc,
      List.drop_left' (length_bigBytes 2 frame.height), List.append_assoc,
      List.take_left' (length_bigBytes 2 frame.width)]
  rw [hbytes]
  simp only [List.cons_append]
  rw [jpegScan, if_neg hlength, if_neg (by simp), if_neg (not_standalone hmarks),
    if_pos (show isFrameStart frame.segment.marker = true from frame.marks), hheight, hwidth,
    @big_bigBytes 2 frame.height frame.height_lt, @big_bigBytes 2 frame.width frame.width_lt]

theorem jpegScan_frame_long (frame : Frame) (rest : Bytes) : 5 < (frame.segment.bytes ++ rest).length := by
  have hsize : 2 ≤ (bigBytes 2 (frame.segment.payload.length + 2)).length := by rw [length_bigBytes]
  have hpayload : 4 ≤ frame.segment.payload.length := by
    simp only [Frame.segment, List.length_cons, List.length_append, length_bigBytes]
    omega
  simp only [Segment.bytes, List.length_append, List.length_cons]
  omega

-- Without fill bytes the scan goes from segment to segment and ends at the frame start.
theorem jpegScan_unfilled {segments : List Segment} {frame : Frame}
    (hfirst : ∀ segment ∈ segments, isFrameStart segment.marker = false)
    (hfill : ∀ item ∈ segments ++ [frame.segment], item.fill = 0) (rest : Bytes) :
    jpegScan ((segments ++ [frame.segment]).flatMap Segment.bytes ++ rest) =
      some ((frame.width : ℤ), (frame.height : ℤ)) := by
  induction segments with
  | nil =>
      rw [List.nil_append, List.flatMap_singleton]
      exact jpegScan_frame (hfill frame.segment (by simp)) rest
  | cons segment segments ih =>
      obtain ⟨hhead, htail⟩ := List.forall_mem_cons.mp hfirst
      obtain ⟨hfilled, hrest⟩ := List.forall_mem_cons.mp hfill
      have hlong : 5 < ((segments ++ [frame.segment]).flatMap Segment.bytes ++ rest).length := by
        have hframe := jpegScan_frame_long frame rest
        rw [List.flatMap_append, List.flatMap_singleton, List.append_assoc, List.length_append]
        omega
      rw [List.cons_append, List.flatMap_cons, List.append_assoc, jpegScan_segment hfilled hhead hlong]
      exact ih htail hrest

-- A fill byte is taken for a marker, and the two bytes behind it for a length.
theorem jpegScan_filled {high low : UInt8} {rest : Bytes} (hhigh : 0xC0 ≤ high)
    (hshort : rest.length + 4 < 0xC000) : jpegScan (0xFF :: 0xFF :: high :: low :: rest) = none := by
  by_cases hlong : 5 < rest.length
  · have hsize : 0xC000 ≤ (big [high, low]).toNat := by
      have hnat : 0xC0 ≤ high.toNat := UInt8.le_iff_toNat_le.mp hhigh
      simp only [big, List.foldl_cons, List.foldl_nil]
      omega
    have hnil : (high :: low :: rest).drop (big [high, low]).toNat = [] := by
      refine List.drop_eq_nil_of_le ?_
      simp only [List.length_cons]
      omega
    rw [jpegScan_skip (.inr rfl) (by decide) hlong, hnil, jpegScan]
    simp
  · have hlength : (0xFF :: 0xFF :: high :: low :: rest).length ≤ 9 := by
      simp only [List.length_cons]
      omega
    rw [jpegScan, if_pos hlength]

theorem Segment.bytes_filled {segment : Segment} (hfill : segment.fill ≠ 0) (hmarker : 0xC0 ≤ segment.marker) :
    ∃ high low rest, 0xC0 ≤ high ∧ segment.bytes = 0xFF :: 0xFF :: high :: low :: rest := by
  obtain ⟨fill, hfill⟩ := Nat.exists_eq_succ_of_ne_zero hfill
  rw [Segment.bytes, hfill]
  cases fill with
  | zero => exact ⟨segment.marker, _, _, hmarker, rfl⟩
  | succ fill =>
      cases fill with
      | zero => exact ⟨0xFF, segment.marker, _, by decide, rfl⟩
      | succ fill =>
          -- The fourth byte is one more fill byte or the first byte of the marker.
          cases fill with
          | zero => exact ⟨0xFF, 0xFF, _, by decide, rfl⟩
          | succ fill => exact ⟨0xFF, 0xFF, _, by decide, rfl⟩

theorem jpegScan_lost {segments : List Segment} {frame : Frame}
    (hfirst : ∀ segment ∈ segments, isFrameStart segment.marker = false)
    (hmarkers : ∀ item ∈ segments ++ [frame.segment], 0xC0 ≤ item.marker)
    (hfill : ∃ item ∈ segments ++ [frame.segment], item.fill ≠ 0) {rest : Bytes}
    (hshort : ((segments ++ [frame.segment]).flatMap Segment.bytes ++ rest).length < 0xC000) :
    jpegScan ((segments ++ [frame.segment]).flatMap Segment.bytes ++ rest) = none := by
  have hlost : ∀ (item : Segment) (more : Bytes), item.fill ≠ 0 → 0xC0 ≤ item.marker →
      (item.bytes ++ more).length < 0xC000 → jpegScan (item.bytes ++ more) = none := by
    intro item more hfilled hmarker hlength
    obtain ⟨high, low, tail, hhigh, hbytes⟩ := Segment.bytes_filled hfilled hmarker
    rw [hbytes] at hlength ⊢
    simp only [List.cons_append, List.length_cons] at hlength ⊢
    exact jpegScan_filled hhigh (by omega)
  induction segments with
  | nil =>
      rw [List.nil_append, List.flatMap_singleton] at hshort ⊢
      obtain ⟨item, hitem, hfilled⟩ := hfill
      rw [List.nil_append, List.mem_singleton] at hitem
      subst hitem
      exact hlost _ rest hfilled (hmarkers frame.segment (by simp)) hshort
  | cons segment segments ih =>
      obtain ⟨hhead, htail⟩ := List.forall_mem_cons.mp hfirst
      obtain ⟨hmarker, hmarkers'⟩ := List.forall_mem_cons.mp hmarkers
      rw [List.cons_append, List.flatMap_cons, List.append_assoc] at hshort ⊢
      by_cases hzero : segment.fill = 0
      · have hlong : 5 < ((segments ++ [frame.segment]).flatMap Segment.bytes ++ rest).length := by
          have hframe := jpegScan_frame_long frame rest
          rw [List.flatMap_append, List.flatMap_singleton, List.append_assoc, List.length_append]
          omega
        have hfill' : ∃ item ∈ segments ++ [frame.segment], item.fill ≠ 0 := by
          obtain ⟨item, hitem, hfilled⟩ := hfill
          refine ⟨item, (List.mem_cons.mp hitem).resolve_left fun heq => ?_, hfilled⟩
          exact hfilled (heq ▸ hzero)
        rw [List.length_append] at hshort
        rw [jpegScan_segment hzero hhead hlong]
        exact ih htail hmarkers' hfill' (by omega)
      · exact hlost segment _ hzero hmarker hshort

end Scan

section Guard

variable {shown : Shown}

theorem sniffMime_png (png : Png) : sniffMime png.bytes = some .png := rfl

theorem pngDims_bytes (png : Png) : pngDims png.bytes = some ((png.width : ℤ), (png.height : ℤ)) := by
  have hlength : 24 ≤ png.bytes.length := by
    simp only [Png.bytes, List.length_append, length_bigBytes, List.length_cons, List.length_nil]
    omega
  have hwidth : (png.bytes.drop 16).take 4 = bigBytes 4 png.width :=
    List.take_left' (length_bigBytes 4 png.width)
  have hheight : (png.bytes.drop 20).take 4 = bigBytes 4 png.height := by
    have htail : png.bytes.drop 20 = bigBytes 4 png.height ++ png.rest :=
      List.drop_left' (length_bigBytes 4 png.width)
    rw [htail, List.take_left' (length_bigBytes 4 png.height)]
  rw [pngDims, if_pos ⟨hlength, rfl⟩, hwidth, hheight, big_bigBytes png.width_lt, big_bigBytes png.height_lt]

theorem Jpeg.sniffs (jpeg : Jpeg) : sniffMime jpeg.bytes = some .jpeg := by
  have hfirst : ∃ tail, jpeg.items.flatMap Segment.bytes = 0xFF :: tail := by
    have hhead : ∀ segment : Segment, ∃ tail, segment.bytes = 0xFF :: tail := by
      intro segment
      rw [Segment.bytes]
      cases segment.fill with
      | zero => exact ⟨_, rfl⟩
      | succ fill => exact ⟨_, rfl⟩
    rw [Jpeg.items]
    cases jpeg.segments with
    | nil =>
        obtain ⟨tail, htail⟩ := hhead jpeg.frame.segment
        exact ⟨tail, by rw [List.nil_append, List.flatMap_singleton, htail]⟩
    | cons segment segments =>
        obtain ⟨tail, htail⟩ := hhead segment
        rw [List.cons_append, List.flatMap_cons, htail]
        exact ⟨_, rfl⟩
  obtain ⟨tail, htail⟩ := hfirst
  rw [Jpeg.bytes, htail]
  rfl

theorem jpegDims_bytes (jpeg : Jpeg) :
    jpegDims jpeg.bytes = jpegScan (jpeg.items.flatMap Segment.bytes ++ jpeg.rest) := rfl

namespace Image

theorem probe_dims (image : Image) :
    ∃ mime, sniffMime image.bytes = some mime ∧ mime ∈ imageMimes ∧
      (probeImage image.bytes).width = (imageDims image.bytes mime).map (·.1) ∧
      (probeImage image.bytes).height = (imageDims image.bytes mime).map (·.2) := by
  have hprobe : ∀ mime, sniffMime image.bytes = some mime → mime ∈ imageMimes →
      (probeImage image.bytes).width = (imageDims image.bytes mime).map (·.1) ∧
      (probeImage image.bytes).height = (imageDims image.bytes mime).map (·.2) := by
    intro mime hmime hmem
    rw [probeImage, hmime, Option.filter_some, if_pos (decide_eq_true hmem), Option.bind_some]
    exact ⟨rfl, rfl⟩
  cases image with
  | png png => exact ⟨.png, sniffMime_png png, by decide, hprobe .png (sniffMime_png png) (by decide)⟩
  | jpeg jpeg => exact ⟨.jpeg, jpeg.sniffs, by decide, hprobe .jpeg jpeg.sniffs (by decide)⟩

-- With the declared dimensions in hand the validator lets no large image pass.
theorem guarded_of_probe {image : Image} (hwidth : (probeImage image.bytes).width = some image.width)
    (hheight : (probeImage image.bytes).height = some image.height) : image.Guarded shown := by
  refine ⟨hwidth, hheight, fun limits hlarge => ?_⟩
  rw [validateImage, hwidth, hheight]
  dsimp only
  rw [if_pos (Or.inr hlarge)]
  cases validateUpload shown (probeImage image.bytes) "image" limits.maxImageBytes imageMimes with
  | none => exact ⟨_, rfl⟩
  | some error => exact ⟨error, rfl⟩

-- Every marker is one of those that the format defines, and a length of two such bytes
-- points behind the end of the file.
def Short : Image → Prop
  | .png _ => True
  | .jpeg file => (∀ item ∈ file.items, 0xC0 ≤ item.marker) ∧ file.bytes.length ≤ 0xC000

-- The dimensions are found when no fill byte is there. With one they are lost, unless the
-- scan, which then goes on somewhere in the file, happens to come upon them.
theorem guarded_of_unfilled (image : Image) :
    (image.Unfilled → image.Guarded shown) ∧ (¬image.Unfilled → image.Short → ¬image.Guarded shown) := by
  obtain ⟨mime, hmime, -, hwidth, hheight⟩ := image.probe_dims
  cases image with
  | png png =>
      refine ⟨fun _ => ?_, fun hfilled => absurd trivial hfilled⟩
      obtain rfl : mime = .png := Option.some.inj (hmime.symm.trans (sniffMime_png png))
      have hdims : imageDims (Image.png png).bytes .png = some ((png.width : ℤ), (png.height : ℤ)) :=
        pngDims_bytes png
      rw [hdims] at hwidth hheight
      exact guarded_of_probe hwidth hheight
  | jpeg jpeg =>
      obtain rfl : mime = .jpeg := Option.some.inj (hmime.symm.trans jpeg.sniffs)
      have hscan : imageDims (Image.jpeg jpeg).bytes .jpeg =
          jpegScan (jpeg.items.flatMap Segment.bytes ++ jpeg.rest) := jpegDims_bytes jpeg
      refine ⟨fun hunfilled => ?_, fun hfilled hshort hguarded => ?_⟩
      · rw [hscan, Jpeg.items, jpegScan_unfilled jpeg.first hunfilled] at hwidth hheight
        exact guarded_of_probe hwidth hheight
      · have hfill : ∃ item ∈ jpeg.segments ++ [jpeg.frame.segment], item.fill ≠ 0 := by
          simpa [Unfilled, Jpeg.items] using hfilled
        have hlength : (jpeg.items.flatMap Segment.bytes ++ jpeg.rest).length < 0xC000 := by
          have hbound := hshort.2
          simp only [Jpeg.bytes, List.length_cons] at hbound
          omega
        rw [hscan, Jpeg.items, jpegScan_lost jpeg.first hshort.1 hfill hlength] at hwidth
        rw [hguarded.width] at hwidth
        cases hwidth

end Image

end Guard

section Sample

-- The frame start of an image of 5000 times 16 pixels, with fill bytes before it or none.
def sampleFrame (fill : Nat) : Frame where
  fill := fill
  marker := 0xC0
  precision := 8
  height := 16
  width := 5000
  components := [1, 1, 0x11, 0]
  marks := by decide
  height_lt := by decide
  width_lt := by decide
  nonempty := by simp
  fits := by decide

-- The APP0 segment of a JFIF file.
def sampleHeader : Segment where
  fill := 0
  marker := 0xE0
  payload := [0x4A, 0x46, 0x49, 0x46, 0, 1, 1, 0, 0, 1, 0, 1, 0, 0]
  marks := by decide
  fits := by decide

def sampleJpeg : Jpeg := ⟨[sampleHeader], sampleFrame 0, [0xFF, 0xD9], by decide⟩

def filledJpeg : Jpeg := ⟨[], sampleFrame 1, [0xFF, 0xD9], by simp⟩

theorem guarded_of_unfilled_sampleJpeg : (Image.jpeg sampleJpeg).width = 5000 ∧
    (Image.jpeg sampleJpeg).Guarded .quoted ∧
    ∃ error, validateImage .quoted (probeImage (Image.jpeg sampleJpeg).bytes) .default = some error := by
  have hunfilled : (Image.jpeg sampleJpeg).Unfilled := by
    simp [Image.Unfilled, Jpeg.items, sampleJpeg, sampleHeader, sampleFrame, Frame.segment]
  have hguarded : (Image.jpeg sampleJpeg).Guarded .quoted := (Image.guarded_of_unfilled _).1 hunfilled
  exact ⟨rfl, hguarded, hguarded.refused .default (by decide)⟩

theorem filled_frame_unseen :
    (Image.jpeg filledJpeg).width = 5000 ∧
      (probeImage (Image.jpeg filledJpeg).bytes).width = none ∧
      validateImage .quoted (probeImage (Image.jpeg filledJpeg).bytes) .default = none := by
  have hscan : jpegDims (Image.jpeg filledJpeg).bytes = none :=
    @jpegScan_filled 0xC0 _ _ (by decide) (by decide)
  have hprobe : probeImage (Image.jpeg filledJpeg).bytes =
      { sizeBytes := 18, mime := some .jpeg, width := none, height := none } := by
    have hmime : sniffMime (Image.jpeg filledJpeg).bytes = some .jpeg := rfl
    have hdims : imageDims (Image.jpeg filledJpeg).bytes .jpeg = none := hscan
    rw [probeImage, hmime, Option.filter_some, if_pos (by decide), Option.bind_some, hdims]
    rfl
  refine ⟨rfl, by rw [hprobe], ?_⟩
  rw [hprobe]
  rfl

end Sample

end Cosmos3.Edge
