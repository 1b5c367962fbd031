import Cosmos3.Basis.Files
import Cosmos3.Basis.Runs
import Cosmos3.Edge.Accepted
import Cosmos3.Edge.Containment
import Cosmos3.Worker.Framing

namespace Cosmos3.Worker

open Basis Basis.Python Edge

-- Inline media and the file that it is kept in.
structure Conditioning (files : FileSystem) (digest : Bytes → Text) (directory : OsText) where
  kind : Text
  raw : Bytes
  path : Text
  named : artifactPathFor files directory (ascii "cond_" ++ (digest raw).take 16) (mediaExt kind) =
    .ok path

section Persisted

variable {files : FileSystem} {digest : Bytes → Text} {directory : OsText}

theorem conditioning_of_persisted {media : InlineMedia} {params params' : Dict}
    (h : persistInlineMedia files digest directory media params = .ok params') :
    ∃ carried : Conditioning files digest directory,
      carried.kind = media.kind ∧ Base64.b64decode media.dataBase64 = .ok carried.raw ∧
        params' = params.set (media.kind ++ ascii "_path") (.str carried.path) := by
  unfold persistInlineMedia at h
  cases hraw : Base64.b64decode media.dataBase64 with
  | error _ =>
      rw [hraw] at h
      cases h
  | ok raw =>
      rw [hraw] at h
      dsimp only at h
      split at h
      · cases h
      · rename_i path hpath
        cases h
        exact ⟨⟨media.kind, raw, path, hpath⟩, rfl, rfl, rfl⟩

end Persisted

-- The cap that `_read_filepart` puts on a conditioning file.
def conditioningCap (limits : MediaLimits) (kind : Text) : ℤ :=
  if kind = ascii "video" then limits.maxVideoBytes else limits.maxImageBytes

abbrev SubmissionId := ℕ

abbrev ReaderId := ℕ

-- How far `_persist_inline_media` has come for a submission.
inductive Persisting where
  | absent
  | writing (offset : ℕ)
  | persisted

-- How far `_read_filepart` has come for the job of a submission.
inductive Reading where
  | idle
  | sized (job : SubmissionId)
  | reading (job : SubmissionId) (data : Bytes)
  | read (job : SubmissionId) (data : Bytes)
  | raised (job : SubmissionId)

structure Volume where
  files : Files Text
  submissions : SubmissionId → Persisting
  readers : ReaderId → Reading

inductive VolumeAction where
  | truncate (i : SubmissionId)
  | write (i : SubmissionId) (n : ℕ)
  | close (i : SubmissionId)
  | size (r : ReaderId) (i : SubmissionId)
  | openFile (r : ReaderId)
  | readChunk (r : ReaderId) (n : ℕ)

namespace Volume

section Step

variable {files : FileSystem} {digest : Bytes → Text} {directory : OsText}
  (limits : MediaLimits) (carried : SubmissionId → Conditioning files digest directory)

def start (files : Files Text) : Volume := ⟨files, fun _ => .absent, fun _ => .idle⟩

def setSubmission (s : Volume) (i : SubmissionId) (progress : Persisting) : Volume :=
  { s with submissions := Function.update s.submissions i progress }

def setReader (s : Volume) (r : ReaderId) (progress : Reading) : Volume :=
  { s with readers := Function.update s.readers r progress }

-- What the file of a submission holds.
def content (s : Volume) (i : SubmissionId) : Bytes := (s.files.lookup (carried i).path).getD []

-- The next bytes of the file behind those that were read.
def chunk (s : Volume) (i : SubmissionId) (data : Bytes) (n : ℕ) : Bytes :=
  ((s.content carried i).drop data.length).take n

-- `open(path, "wb")`
def truncated (s : Volume) (i : SubmissionId) : Volume :=
  { s with files := s.files.insert (carried i).path [] }.setSubmission i (.writing 0)

-- The next bytes of the media, at the offset of the submission's own handle.
def written (s : Volume) (i : SubmissionId) (offset n : ℕ) : Volume :=
  { s with
    files := Files.writeAt (carried i).path offset (((carried i).raw.drop offset).take n) s.files
  }.setSubmission i (.writing (offset + n))

-- A read that gives no bytes is the end of the file.
def step (s : Volume) : VolumeAction → Option Volume
  | .truncate i =>
    match s.submissions i with
    | .absent => some (s.truncated carried i)
    | _ => none
  | .write i n =>
    match s.submissions i with
    | .writing offset =>
      if 0 < n ∧ offset + n ≤ (carried i).raw.length then some (s.written carried i offset n)
      else none
    | _ => none
  | .close i =>
    match s.submissions i with
    | .writing offset =>
      if offset = (carried i).raw.length then some (s.setSubmission i .persisted) else none
    | _ => none
  | .size r i =>
    match s.readers r, s.submissions i with
    | .idle, .persisted =>
      match s.files.lookup (carried i).path with
      | none => some (s.setReader r (.raised i))
      | some bytes =>
        if conditioningCap limits (carried i).kind < bytes.length then some (s.setReader r (.raised i))
        else some (s.setReader r (.sized i))
    | _, _ => none
  | .openFile r =>
    match s.readers r with
    | .sized i =>
      if (carried i).path ∈ s.files then some (s.setReader r (.reading i []))
      else some (s.setReader r (.raised i))
    | _ => none
  | .readChunk r n =>
    match s.readers r with
    | .reading i data =>
      if 0 < n then
        let bytes := s.chunk carried i data n
        some (s.setReader r (if bytes = [] then .read i data else .reading i (data ++ bytes)))
      else none
    | _ => none

-- The bytes that a worker has read are the whole media.
def ReadWhole (s : Volume) : Prop :=
  ∀ r i data, s.readers r = .read i data → data = (carried i).raw

-- A submission has truncated the file and is not yet past the byte.
def Behind (s : Volume) (path : Text) (k : ℕ) : Prop :=
  ∃ j offset, s.submissions j = .writing offset ∧ (carried j).path = path ∧ offset ≤ k

-- Who is writing the file that a step reads is past the bytes that the step takes, and past
-- the one where it starts.
def Settled (s : Volume) : VolumeAction → Prop
  | .readChunk r n => ∀ i data, s.readers r = .reading i data →
      ∀ j offset, s.submissions j = .writing offset → offset < (carried j).raw.length →
        (carried j).path = (carried i).path →
        data.length < offset ∧ data.length + (s.chunk carried i data n).length ≤ offset
  | _ => True

end Step

section Invariant

variable {files : FileSystem} {digest : Bytes → Text} {directory : OsText} {limits : MediaLimits}
  {carried : SubmissionId → Conditioning files digest directory} {s s' : Volume}

-- A byte of the file is the media's, or a submission that truncated the file will write it.
structure Agrees (carried : SubmissionId → Conditioning files digest directory) (s : Volume)
    (i : SubmissionId) : Prop where
  bounded : (s.content carried i).length ≤ (carried i).raw.length
  byte : ∀ k < (carried i).raw.length,
    (s.content carried i)[k]? = (carried i).raw[k]? ∨ s.Behind carried (carried i).path k

structure Consistent (carried : SubmissionId → Conditioning files digest directory) (s : Volume) :
    Prop where
  agrees : ∀ i, s.submissions i ≠ .absent → s.Agrees carried i
  offset : ∀ i offset, s.submissions i = .writing offset → offset ≤ (carried i).raw.length
  sized : ∀ r i, s.readers r = .sized i → s.submissions i = .persisted
  reading : ∀ r i data, s.readers r = .reading i data →
    s.submissions i = .persisted ∧ data <+: (carried i).raw
  read : s.ReadWhole carried

theorem consistent_start (files : Files Text) : (start files).Consistent carried := by
  constructor <;> simp [start, ReadWhole]

@[simp] theorem content_setSubmission (i j : SubmissionId) (progress : Persisting) :
    (s.setSubmission i progress).content carried j = s.content carried j := rfl

@[simp] theorem content_setReader (r : ReaderId) (progress : Reading) (j : SubmissionId) :
    (s.setReader r progress).content carried j = s.content carried j := rfl

theorem Behind.setReader {path : Text} {k : ℕ} (h : s.Behind carried path k) (r : ReaderId)
    (progress : Reading) : (s.setReader r progress).Behind carried path k := h

theorem Agrees.setReader {i : SubmissionId} (h : s.Agrees carried i) (r : ReaderId)
    (progress : Reading) : (s.setReader r progress).Agrees carried i := ⟨h.bounded, h.byte⟩

-- Another submission stays behind a byte.
theorem Behind.other {path : Text} {k : ℕ} {i : SubmissionId} {progress : Persisting}
    {disk : Files Text} (h : s.Behind carried path k)
    (hi : ∀ offset, s.submissions i = .writing offset → (carried i).path = path → k < offset) :
    ({ s with files := disk }.setSubmission i progress).Behind carried path k := by
  obtain ⟨j, offset, hj, hpath, hle⟩ := h
  have hne : j ≠ i := by
    rintro rfl
    have := hi offset hj hpath
    omega
  exact ⟨j, offset, (Function.update_of_ne hne _ _).trans hj, hpath, hle⟩

-- Readers have to do with the submissions that were there.
theorem Consistent.submit (h : s.Consistent carried) {i : SubmissionId} {progress : Persisting}
    {disk : Files Text} (hi : s.submissions i ≠ .persisted)
    (hoffset : ∀ offset, progress = .writing offset → offset ≤ (carried i).raw.length)
    (hagrees : ∀ j, j = i ∨ s.submissions j ≠ .absent →
      ({ s with files := disk }.setSubmission i progress).Agrees carried j) :
    ({ s with files := disk }.setSubmission i progress).Consistent carried := by
  have hother : ∀ j, s.submissions j = .persisted →
      Function.update s.submissions i progress j = .persisted := by
    intro j hj
    rw [Function.update_of_ne _ _ _, hj]
    rintro rfl
    exact hi hj
  refine ⟨fun j hj => hagrees j ?_, fun j offset hj => ?_, fun r j hr => hother j (h.sized r j hr),
    fun r j data hr => ⟨hother j (h.reading r j data hr).1, (h.reading r j data hr).2⟩, h.read⟩
  · by_cases heq : j = i
    · exact .inl heq
    · refine .inr fun habsent => hj ?_
      exact (Function.update_of_ne heq _ _).trans habsent
  · change Function.update s.submissions i progress j = .writing offset at hj
    by_cases heq : j = i
    · subst heq
      rw [Function.update_self] at hj
      exact hoffset offset hj
    · rw [Function.update_of_ne heq] at hj
      exact h.offset j offset hj

theorem readers_setReader {r q : ReaderId} {progress other : Reading} :
    (s.setReader r progress).readers q = other ↔
      q = r ∧ progress = other ∨ q ≠ r ∧ s.readers q = other := by
  by_cases heq : q = r
  · subst heq
    simp [Volume.setReader]
  · simp [Volume.setReader, heq]

theorem Consistent.setReader (h : s.Consistent carried) {r : ReaderId} {progress : Reading}
    (hsized : ∀ i, progress = .sized i → s.submissions i = .persisted)
    (hreading : ∀ i data, progress = .reading i data →
      s.submissions i = .persisted ∧ data <+: (carried i).raw)
    (hread : ∀ i data, progress = .read i data → data = (carried i).raw) :
    (s.setReader r progress).Consistent carried := by
  refine ⟨fun i hi => (h.agrees i hi).setReader r progress, h.offset, fun q i hq => ?_,
    fun q i data hq => ?_, fun q i data hq => ?_⟩
  · rcases readers_setReader.mp hq with ⟨-, hq⟩ | ⟨-, hq⟩
    · exact hsized i hq
    · exact h.sized q i hq
  · rcases readers_setReader.mp hq with ⟨-, hq⟩ | ⟨-, hq⟩
    · exact hreading i data hq
    · exact h.reading q i data hq
  · rcases readers_setReader.mp hq with ⟨-, hq⟩ | ⟨-, hq⟩
    · exact hread i data hq
    · exact h.read q i data hq

-- Different media have different files.
variable (hdistinct : ∀ i j, (carried i).path = (carried j).path → (carried i).raw = (carried j).raw)

theorem Agrees.close {i j : SubmissionId} (h : s.Agrees carried j)
    (hi : s.submissions i = .writing (carried i).raw.length)
    (hraw : (carried i).path = (carried j).path → (carried i).raw = (carried j).raw) :
    (s.setSubmission i .persisted).Agrees carried j := by
  refine ⟨h.bounded, fun k hk => (h.byte k hk).imp_right fun hbehind => ?_⟩
  refine hbehind.other fun offset hoffset hpath => ?_
  obtain rfl : (carried i).raw.length = offset := by simpa [hi] using hoffset
  rwa [hraw hpath]

theorem content_truncated (i j : SubmissionId) :
    (s.truncated carried i).content carried j =
      if (carried j).path = (carried i).path then [] else s.content carried j := by
  by_cases hpath : (carried j).path = (carried i).path
  · rw [if_pos hpath, content, hpath, truncated, Volume.setSubmission, AList.lookup_insert]
    rfl
  · rw [if_neg hpath, content, truncated, Volume.setSubmission, AList.lookup_insert_ne hpath]
    rfl

theorem content_written (i j : SubmissionId) (offset n : ℕ) :
    (s.written carried i offset n).content carried j =
      if (carried j).path = (carried i).path then
        Files.patch offset (((carried i).raw.drop offset).take n) (s.content carried j)
      else s.content carried j := by
  by_cases hpath : (carried j).path = (carried i).path
  · rw [if_pos hpath, content, content, hpath, written, Volume.setSubmission, Files.lookup_writeAt]
    rfl
  · rw [if_neg hpath, content, written, Volume.setSubmission, Files.lookup_writeAt_ne hpath]
    rfl

theorem Agrees.truncated {i j : SubmissionId} (h : j = i ∨ s.Agrees carried j)
    (hi : s.submissions i = .absent) : (s.truncated carried i).Agrees carried j := by
  by_cases hpath : (carried j).path = (carried i).path
  · refine ⟨by rw [content_truncated, if_pos hpath]; exact Nat.zero_le _, fun k _ => .inr ?_⟩
    exact ⟨i, 0, Function.update_self .., hpath.symm, Nat.zero_le k⟩
  · have hj : s.Agrees carried j := by
      refine h.resolve_left ?_
      rintro rfl
      exact hpath rfl
    have hcontent := (content_truncated (s := s) i j).trans (if_neg hpath)
    refine ⟨hcontent ▸ hj.bounded, fun k hk => ?_⟩
    rw [hcontent]
    refine (hj.byte k hk).imp_right fun hbehind => hbehind.other fun offset hoffset => ?_
    rw [hi] at hoffset
    cases hoffset

include hdistinct

-- The bytes of one write are the media's; those before them are as they were, or somebody
-- else will write them.
theorem Agrees.written {i j : SubmissionId} {offset n : ℕ} (h : s.Agrees carried j)
    (hi : s.submissions i = .writing offset) (hn : offset + n ≤ (carried i).raw.length) :
    (s.written carried i offset n).Agrees carried j := by
  have hchunk : (((carried i).raw.drop offset).take n).length = n := by
    simp only [List.length_take, List.length_drop]
    omega
  have hcontent := @content_written _ _ _ carried s i j offset n
  by_cases hpath : (carried j).path = (carried i).path
  · have hraw := hdistinct j i hpath
    have hbounded := h.bounded
    rw [if_pos hpath] at hcontent
    refine ⟨?_, fun k hk => ?_⟩
    · rw [hcontent, Files.length_patch, hchunk]
      rw [hraw] at hbounded ⊢
      omega
    · rw [hcontent]
      by_cases hbefore : k < offset
      · have hother : s.Behind carried (carried j).path k →
            (s.written carried i offset n).Behind carried (carried j).path k := by
          refine fun hbehind => hbehind.other fun offset' hoffset' _ => ?_
          obtain rfl : offset = offset' := by simpa [hi] using hoffset'
          exact hbefore
        by_cases hlen : k < (s.content carried j).length
        · rw [Files.patch_getElem?_of_lt hlen hbefore]
          exact (h.byte k hk).imp_right hother
        · refine .inr (hother ((h.byte k hk).resolve_left fun heq => ?_))
          rw [List.getElem?_eq_none (by omega), List.getElem?_eq_getElem hk] at heq
          cases heq
      · by_cases hmem : k < offset + n
        · left
          rw [Files.patch_getElem?_of_mem (by omega) (by omega), List.getElem?_take_of_lt (by omega),
            List.getElem?_drop, hraw]
          congr 1
          omega
        · rw [Files.patch_getElem?_of_le (by omega)]
          refine (h.byte k hk).imp_right fun hbehind => ?_
          obtain ⟨l, offset', hl, hlpath, hle⟩ := hbehind
          by_cases heq : l = i
          · subst heq
            exact ⟨l, offset + n, Function.update_self .., hlpath, by omega⟩
          · exact ⟨l, offset', (Function.update_of_ne heq _ _).trans hl, hlpath, hle⟩
  · rw [if_neg hpath] at hcontent
    refine ⟨hcontent ▸ h.bounded, fun k hk => ?_⟩
    rw [hcontent]
    refine (h.byte k hk).imp_right fun hbehind => hbehind.other fun _ _ heq => ?_
    exact absurd heq.symm hpath

-- Nobody who writes is at or before the bytes that are read, so they are the media's.
theorem Agrees.read {i : SubmissionId} {data : Bytes} {n : ℕ} (h : s.Agrees carried i) (hn : 0 < n)
    (hdata : data <+: (carried i).raw)
    (hsettled : ∀ j offset, s.submissions j = .writing offset →
      offset < (carried j).raw.length → (carried j).path = (carried i).path →
      data.length < offset ∧ data.length + (s.chunk carried i data n).length ≤ offset) :
    data ++ s.chunk carried i data n <+: (carried i).raw ∧
      (s.chunk carried i data n = [] → data = (carried i).raw) := by
  have hlen := hdata.length_le
  have hbounded := h.bounded
  have hchunk : (s.chunk carried i data n).length =
      min n ((s.content carried i).length - data.length) := by simp [chunk]
  have hbyte : ∀ k < (carried i).raw.length,
      (k = data.length ∨ k < data.length + (s.chunk carried i data n).length) →
      (s.content carried i)[k]? = (carried i).raw[k]? := by
    intro k hk hread
    refine (h.byte k hk).resolve_right ?_
    rintro ⟨j, offset, hj, hpath, hle⟩
    have hraw := hdistinct j i hpath
    have := hsettled j offset hj (by rw [hraw]; omega) hpath
    omega
  constructor
  · rw [List.prefix_iff_getElem?]
    intro k hk
    rw [List.getElem?_eq_getElem hk |>.symm]
    rw [List.length_append] at hk
    by_cases hold : k < data.length
    · rw [List.getElem?_append_left hold]
      exact (List.prefix_iff_getElem?.mp hdata k hold).trans (List.getElem?_eq_getElem hold).symm
    · rw [List.getElem?_append_right (by omega), ← hbyte k (by omega) (.inr (by omega)), chunk,
        List.getElem?_take_of_lt (by omega), List.getElem?_drop]
      congr 1
      omega
  · intro hend
    rw [hend, List.length_nil] at hchunk
    refine hdata.eq_of_length ?_
    by_contra hne
    have heq := hbyte data.length (by omega) (.inl rfl)
    rw [List.getElem?_eq_none (by omega), List.getElem?_eq_getElem (by omega)] at heq
    cases heq

theorem Consistent.step {a : VolumeAction} (h : s.Consistent carried) (hsettled : s.Settled carried a)
    (hstep : s.step limits carried a = some s') : s'.Consistent carried := by
  cases a with
  | truncate i =>
      simp only [Volume.step] at hstep
      split at hstep
      · rename_i hi
        cases hstep
        refine h.submit (by simp [hi]) (by simp) fun j hj => ?_
        exact Agrees.truncated (hj.imp_right (h.agrees j)) hi
      · cases hstep
  | write i n =>
      simp only [Volume.step] at hstep
      split at hstep
      · rename_i offset hi
        split_ifs at hstep with hn
        cases hstep
        refine h.submit (by simp [hi]) ?_ fun j hj => ?_
        · rintro _ ⟨⟩
          exact hn.2
        · refine (h.agrees j ?_).written hdistinct hi hn.2
          rcases hj with rfl | hj
          · simp [hi]
          · exact hj
      · cases hstep
  | close i =>
      simp only [Volume.step] at hstep
      split at hstep
      · rename_i offset hi
        split_ifs at hstep with hall
        cases hstep
        subst hall
        refine h.submit (by simp [hi]) (by simp) fun j hj => ?_
        refine (h.agrees j ?_).close hi (hdistinct i j)
        rcases hj with rfl | hj
        · simp [hi]
        · exact hj
      · cases hstep
  | size r i =>
      simp only [Volume.step] at hstep
      split at hstep
      · rename_i hi
        have hraised : (s.setReader r (.raised i)).Consistent carried :=
          h.setReader (by simp) (by simp) (by simp)
        split at hstep
        · cases hstep
          exact hraised
        · split_ifs at hstep
          · cases hstep
            exact hraised
          · cases hstep
            refine h.setReader ?_ (by simp) (by simp)
            rintro _ ⟨⟩
            exact hi
      · cases hstep
  | openFile r =>
      simp only [Volume.step] at hstep
      split at hstep
      · rename_i i hr
        split_ifs at hstep
        · cases hstep
          refine h.setReader (by simp) ?_ (by simp)
          rintro _ _ ⟨⟩
          exact ⟨h.sized r i hr, List.nil_prefix⟩
        · cases hstep
          exact h.setReader (by simp) (by simp) (by simp)
      · cases hstep
  | readChunk r n =>
      simp only [Volume.step] at hstep
      split at hstep
      · rename_i i data hr
        obtain ⟨hpersisted, hdata⟩ := h.reading r i data hr
        have hi : s.submissions i ≠ .absent := by simp [hpersisted]
        split_ifs at hstep with hn hend
        · cases hstep
          refine h.setReader (by simp) (by simp) ?_
          rintro _ _ ⟨⟩
          exact ((h.agrees i hi).read hdistinct hn hdata (hsettled i data hr)).2 hend
        · cases hstep
          refine h.setReader (by simp) ?_ (by simp)
          rintro _ _ ⟨⟩
          exact ⟨hpersisted, ((h.agrees i hi).read hdistinct hn hdata (hsettled i data hr)).1⟩
      · cases hstep

-- Where every read finds the writers of the file ahead of it, what is read is whole.
theorem readWhole_of_settled {disk : Files Text}
    (hpath : Path (Volume.step limits carried) (Volume.Settled carried) (start disk) s) :
    s.ReadWhole carried :=
  (hpath.invariant (Consistent carried) (consistent_start disk)
    fun _ _ _ h hsettled hstep => h.step hdistinct hsettled hstep).read

end Invariant

section Sample

-- The image of one pixel that the artifact store writes as a stub.
def samplePng : Bytes :=
  [137, 80, 78, 71, 13, 10, 26, 10, 0, 0, 0, 13, 73, 72, 68, 82, 0, 0, 0, 1, 0, 0, 0, 1, 8, 4, 0, 0,
   0, 181, 28, 12, 2, 0, 0, 0, 11, 73, 68, 65, 84, 120, 218, 99, 100, 248, 207, 0, 0, 3, 1, 1, 0,
   201, 252, 138, 186, 0, 0, 0, 0, 73, 69, 78, 68, 174, 66, 96, 130]

def sampleDigest (raw : Bytes) : Text :=
  if raw = samplePng then
    ascii "056853a5648def4cf743cc2bb394fe08b62a516f6c4819b62921ef35977d1e20"
  else []

theorem artifacts_encodable : encodable (ascii "/srv/artifacts") = true := rfl

def sampleConditioning : Conditioning plainFiles sampleDigest ⟨ascii "/srv/artifacts", artifacts_encodable⟩ where
  kind := ascii "image"
  raw := samplePng
  path := ascii "/srv/artifacts/cond_056853a5648def4c.png"
  named := by
    rw [artifactPathFor, resolveWithin_eq, if_neg (by decide +kernel), if_neg (by decide +kernel),
      if_pos (by decide +kernel), Except.ok.injEq]
    decide +kernel

abbrev sampleStep : Volume → VolumeAction → Option Volume :=
  Volume.step .default fun _ => sampleConditioning

abbrev SamplePath : Volume → Prop :=
  Path sampleStep (Settled fun _ => sampleConditioning) (start ∅)

theorem SamplePath.and {s s' : Volume} (h : SamplePath s) (a : VolumeAction)
    (hok : s.Settled (fun _ => sampleConditioning) a) (hstep : sampleStep s a = some s') :
    SamplePath s' := .next h hok hstep

theorem settled_of_written {s : Volume} {a : VolumeAction}
    (h : ∀ j offset, s.submissions j = .writing offset → offset = 69) :
    s.Settled (fun _ => sampleConditioning) a := by
  cases a with
  | readChunk r n =>
      intro i data _ j offset hj hlt
      obtain rfl := h j offset hj
      exact absurd hlt (Nat.lt_irrefl 69)
  | _ => trivial

set_option maxRecDepth 8000 in
-- The second submission has written the whole file again when the worker reads it.
theorem readWhole_of_settled_samplePng :
    ∃ s, run sampleStep (start ∅) [.truncate 0, .write 0 69, .close 0, .size 0 0, .openFile 0,
        .truncate 1, .write 1 69, .readChunk 0 100, .close 1, .readChunk 0 1] = some s ∧
      s.readers 0 = .read 0 samplePng ∧ s.ReadWhole fun _ => sampleConditioning := by
  have hpath : ∃ s, SamplePath s ∧
      run sampleStep (start ∅) [.truncate 0, .write 0 69, .close 0, .size 0 0, .openFile 0,
        .truncate 1, .write 1 69, .readChunk 0 100, .close 1, .readChunk 0 1] = some s := by
    refine ⟨_, ?_, rfl⟩
    have hstart : SamplePath (start ∅) := .start
    have hopened := hstart.and (.truncate 0) trivial rfl
    have hstored := (hopened.and (.write 0 69) trivial rfl).and (.close 0) trivial rfl
    have hsized := (hstored.and (.size 0 0) trivial rfl).and (.openFile 0) trivial rfl
    have hreplayed := (hsized.and (.truncate 1) trivial rfl).and (.write 1 69) trivial rfl
    have hread := hreplayed.and (.readChunk 0 100) (settled_of_written (by
      intro j offset hj
      rcases j with _ | _ | j <;> cases hj
      rfl)) rfl
    exact (hread.and (.close 1) trivial rfl).and (.readChunk 0 1) (settled_of_written (by
      intro j offset hj
      rcases j with _ | _ | j <;> cases hj)) rfl
  obtain ⟨s, hpath, hrun⟩ := hpath
  refine ⟨s, hrun, ?_, readWhole_of_settled (fun _ _ _ => rfl) hpath⟩
  cases hrun
  rfl

set_option maxRecDepth 8000 in
-- Between the truncation and the write of a replay the worker reads an empty file.
theorem replay_empties_media :
    ∃ s, run sampleStep (start ∅) [.truncate 0, .write 0 69, .close 0, .size 0 0, .openFile 0,
        .truncate 1, .readChunk 0 100] = some s ∧
      s.readers 0 = .read 0 [] ∧ ¬s.ReadWhole fun _ => sampleConditioning := by
  refine ⟨_, rfl, rfl, fun h => ?_⟩
  have hempty : ([] : Bytes) = samplePng := h 0 0 [] rfl
  cases hempty

end Sample

end Volume

end Cosmos3.Worker
