import Cosmos3.Viewer.Trajectory
import Cosmos3.Worker.AllOrNothing

namespace Cosmos3.Viewer

open Basis Basis.Python Edge Jobs Worker

section Record

variable {around : Surroundings} {record : JobRecord}

theorem get_append (d e : Dict) (key : Text) :
    Dict.get (d ++ e) key = (Dict.get d key).or (Dict.get e key) := by
  rw [Dict.get, Dict.get, Dict.get, List.find?_append, Option.map_or]

-- No parameter of a job is named like its trajectory.
theorem get_paramRecord {params : Dict} (h : paramRecord around record = .ok params) :
    Dict.get params (ascii "trajectory_path") = none := by
  obtain ⟨request, -, rfl⟩ := map_eq_ok.mp h
  cases request <;> rfl

theorem get_resultMeta {params : Dict} (h : paramRecord around record = .ok params)
    (path : Option Text) (conditioning : List (String × Text)) :
    Dict.get (resultMeta around record params path conditioning) (ascii "trajectory_path") =
      if record.mode ∈ actionPredictModes then path.map .str else none := by
  have hconditioning : ∀ entries : Dict, (∀ entry ∈ entries, entry.1 = ascii "conditioning") →
      Dict.get entries (ascii "trajectory_path") = none := by
    intro entries hentries
    rw [Dict.get, List.find?_eq_none.mpr]
    · rfl
    · intro entry hentry
      rw [hentries entry hentry]
      decide
  have hlast : Dict.get (if conditioning = [] then []
      else [(ascii "conditioning", Value.list ((["audio_path", "image_path", "video_path"].filter
        fun key => conditioning.any fun entry => entry.1 = key).map fun key => .str (ascii key)))])
      (ascii "trajectory_path") = none := by
    apply hconditioning
    split_ifs <;> simp
  have hfirst : Dict.get [(ascii "engine", Value.str (ascii "vllm_omni")),
      (ascii "precision", .str around.checkpoint)] (ascii "trajectory_path") = none := rfl
  rw [resultMeta, get_append, get_append, get_append, hfirst, get_paramRecord h, hlast]
  split_ifs
  · cases path <;> rfl
  · rfl

theorem usableAction_eq_some {value : Option Value} {action : Dict} (h : usableAction value = some action) :
    ∃ data, trajectoryOf action = some data := by
  unfold usableAction at h
  split at h
  · split_ifs at h with hdata
    obtain ⟨⟩ := h
    cases hread : trajectoryOf action with
    | none =>
        rw [hread] at hdata
        cases hdata
    | some data => exact ⟨data, rfl⟩
  · cases h

end Record

section Answers

variable {numbers : Json.NumberText} {shown : Shown} {volume : Files Text}

theorem framesOf_notFound (message : Text) : framesOf numbers (some (notFound shown message)) = none := by
  have hok : ¬ isOk (notFound shown message) := fun h => absurd h.2 (by simp [notFound])
  rw [framesOf, if_pos hok]

theorem framesOf_media {contentType : Text} (h : includes contentType (ascii "json") = false)
    (body : List UInt8) : framesOf numbers (some ⟨200, contentType, body⟩) = none := by
  simp only [framesOf, h, if_true, ite_self]

theorem fileResponse_of_lookup {path : Text} {bytes : List UInt8} (hne : path ≠ [])
    (h : volume.lookup path = some bytes) (contentType : Text → Text) (missing : Text) :
    fileResponse shown volume (some path) contentType missing = ⟨200, contentType path, bytes⟩ := by
  simp only [fileResponse, Option.filter_some, decide_eq_true hne, if_true, h]

end Answers

section Shown

variable {K : Type} (numbers : Json.NumberText) {around : Surroundings} {record : JobRecord}
  {result : WorkResult}

-- What the viewer of a finished job finds, none of it kept from the submission.
def shownFor (around : Surroundings) (events : List (Worker.Event K)) (result : WorkResult) :
    Option (List (List Number)) :=
  let volume := writtenTo around.volume (writes events)
  resolveTrajectory numbers none (some (getTrajectory around.shown volume (some result.info)))
    (some (getArtifact around.shown volume around.guessType (some result.artifactPath)))

-- The media types of the files of a job are those of their suffixes.
structure TypesArtifacts (around : Surroundings) (record : JobRecord) : Prop where
  png : around.guessType (artifactFile around record "png") = some (ascii "image/png")
  mp4 : around.guessType (artifactFile around record "mp4") = some (ascii "video/mp4")
  json : around.guessType (artifactFile around record "json") = some (ascii "application/json")

theorem artifactFile_ne_nil (ext : String) : artifactFile around record ext ≠ [] := by
  rw [artifactFile, joinPath_eq]
  exact List.append_ne_nil_of_right_ne_nil _ artifactName_ne_nil

-- A finished job: its files can be read, its record names the first one as the artifact, and
-- the second one, if it predicts, as the trajectory.
structure Finished (around : Surroundings) (record : JobRecord) (events : List (Worker.Event K))
    (result : WorkResult) (artifacts : List (String × List UInt8)) : Prop where
  read : ∀ artifact ∈ artifacts, (writtenTo around.volume (writes events)).lookup
    (artifactFile around record artifact.1) = some artifact.2
  path : some result.artifactPath = ((filesOf around record artifacts).map (·.1)).head?
  info : Dict.get result.info (ascii "trajectory_path") =
    if record.mode ∈ actionPredictModes then
      ((filesOf around record artifacts).map (·.1)).tail.head?.map .str
    else none

section Finished

variable {numbers} {events : List (Worker.Event K)} {ext : String} {bytes : List UInt8} {type : Text}

theorem Finished.getArtifact {rest : List (String × List UInt8)}
    (h : Finished around record events result ((ext, bytes) :: rest))
    (htype : around.guessType (artifactFile around record ext) = some type) :
    getArtifact around.shown (writtenTo around.volume (writes events)) around.guessType
      (some result.artifactPath) = ⟨200, type, bytes⟩ := by
  have hfile : result.artifactPath = artifactFile around record ext := Option.some.inj h.path
  rw [Viewer.getArtifact, hfile, fileResponse_of_lookup (artifactFile_ne_nil ext)
    (h.read (ext, bytes) List.mem_cons_self), htype]
  rfl

-- Of one file, no part is a sidecar.
theorem Finished.getTrajectory_single (h : Finished around record events result [(ext, bytes)]) :
    getTrajectory around.shown (writtenTo around.volume (writes events)) (some result.info) =
      notFound around.shown (ascii "trajectory not available") := by
  have hinfo : Dict.get result.info (ascii "trajectory_path") = none := by
    rw [h.info]
    split_ifs <;> rfl
  rw [getTrajectory, Option.getD_some, hinfo]
  rfl

theorem Finished.getTrajectory_sidecar {first : String × List UInt8}
    (h : Finished around record events result [first, (ext, bytes)])
    (hmode : record.mode ∈ actionPredictModes) :
    getTrajectory around.shown (writtenTo around.volume (writes events)) (some result.info) =
      ⟨200, ascii "application/json", bytes⟩ := by
  have hread := h.read (ext, bytes) (by simp)
  rw [getTrajectory, Option.getD_some, h.info, if_pos hmode]
  exact fileResponse_of_lookup (artifactFile_ne_nil ext) hread _ _

theorem Finished.shown_single (h : Finished around record events result [(ext, bytes)])
    (htype : around.guessType (artifactFile around record ext) = some type) :
    shownFor numbers around events result = framesOf numbers (some ⟨200, type, bytes⟩) := by
  rw [shownFor, h.getArtifact htype, h.getTrajectory_single, resolveTrajectory]
  simp only [List.findSome?_cons, framesOf_notFound, List.findSome?_nil]
  cases framesOf numbers (some _) <;> rfl

-- The sidecar is asked for first, and the video behind it shows nothing.
theorem Finished.shown_sidecar {first : String} {video : List UInt8}
    (h : Finished around record events result [(first, video), (ext, bytes)])
    (hmode : record.mode ∈ actionPredictModes)
    (htype : around.guessType (artifactFile around record first) = some type)
    (hmedia : includes type (ascii "json") = false) :
    shownFor numbers around events result =
      framesOf numbers (some ⟨200, ascii "application/json", bytes⟩) := by
  rw [shownFor, h.getArtifact htype, h.getTrajectory_sidecar hmode, resolveTrajectory]
  simp only [List.findSome?_cons, framesOf_media hmedia, List.findSome?_nil]
  cases framesOf numbers (some _) <;> rfl

end Finished

variable {ε : Type} [Field K] [LinearOrder K] {transport : Transport ε} {report : K → Except ε Unit}
  {polling : Polling K} {fuel : ℕ}

theorem finished_vllmOmniWork (hplain : Unlinked around record)
    (h : (vllmOmniWork around transport report polling record fuel).outcome = .returned result) :
    ∃ artifacts, Delivers around transport record artifacts ∧ Finished around record
      (vllmOmniWork around transport report polling record fuel).events result artifacts := by
  obtain ⟨artifacts, hdelivers, hwrites, hpath, params, conditioning, hparams, hinfo⟩ :=
    all_vllmOmniWork hplain h
  obtain ⟨hexts, hnodup, -⟩ := hdelivers.exts
  refine ⟨artifacts, hdelivers, fun artifact hartifact => ?_, hpath, ?_⟩
  · rw [hwrites]
    exact lookup_writtenTo (nodup_filesOf hexts hnodup) (List.mem_map_of_mem hartifact)
  · rw [hinfo, get_resultMeta hparams]

-- The viewer shows the trajectory that the server has predicted, number by number, just when
-- it is one, and shows nothing else; of a job that predicts none it shows nothing.
theorem trajectory_shown (hliteral : ∀ q, Json.isLiteral (around.shown.literal q) = true)
    (htypes : TypesArtifacts around record) (hplain : Unlinked around record)
    (h : (vllmOmniWork around transport report polling record fuel).outcome = .returned result) :
    if record.mode ∈ actionPredictModes then
      ∃ action data, CompletedWith around transport action ∧ trajectoryOf action = some data ∧
        ∀ frames, shownFor numbers around
          (vllmOmniWork around transport report polling record fuel).events result = some frames ↔
            Displays numbers around.shown.toFloatText data frames
    else shownFor numbers around (vllmOmniWork around transport report polling record fuel).events result =
      none := by
  obtain ⟨artifacts, hdelivers, hfinished⟩ := finished_vllmOmniWork hplain h
  have hpredicts : record.mode ∈ actionPredictModes ↔
      record.mode = ActionMode.policy.value ∨ record.mode = ActionMode.inverseDynamics.value := by
    simp [actionPredictModes]
  have hpng : includes (ascii "image/png") (ascii "json") = false := by decide
  have hmp4 : includes (ascii "video/mp4") (ascii "json") = false := by decide
  unfold Delivers at hdelivers
  split_ifs at hdelivers with himage hdynamics hpolicy hinverse
  · obtain ⟨doc, b64, data, -, -, -, rfl⟩ := hdelivers
    rw [if_neg (by rw [hpredicts, himage]; decide), hfinished.shown_single htypes.png, framesOf_media hpng]
  · obtain ⟨data, -, rfl⟩ := hdelivers
    rw [if_neg (by rw [hpredicts, hdynamics]; decide), hfinished.shown_single htypes.mp4,
      framesOf_media hmp4]
  · have hmode := hpredicts.mpr (.inl hpolicy)
    obtain ⟨action, video, hcompleted, -, -, rfl⟩ := hdelivers
    obtain ⟨n, body, -, -, -, husable⟩ := id hcompleted
    obtain ⟨data, hdata⟩ := usableAction_eq_some husable
    rw [if_pos hmode]
    refine ⟨action, data, hcompleted, hdata, fun frames => ?_⟩
    rw [hfinished.shown_sidecar hmode htypes.mp4 hmp4, trajectoryBytes, hdata, Option.getD_some,
      framesOf_dumps hliteral]
  · have hmode := hpredicts.mpr (.inr hinverse)
    obtain ⟨action, hcompleted, rfl⟩ := hdelivers
    obtain ⟨n, body, -, -, -, husable⟩ := id hcompleted
    obtain ⟨data, hdata⟩ := usableAction_eq_some husable
    rw [if_pos hmode]
    refine ⟨action, data, hcompleted, hdata, fun frames => ?_⟩
    rw [hfinished.shown_single htypes.json, trajectoryBytes, hdata, Option.getD_some,
      framesOf_dumps hliteral]
  · obtain ⟨-, data, -, rfl⟩ := hdelivers
    rw [if_neg (by rw [hpredicts, not_or]; exact ⟨hpolicy, hinverse⟩), hfinished.shown_single htypes.mp4,
      framesOf_media hmp4]

end Shown

section Sample

-- The rollout with the media types of the three suffixes.
def viewedType (path : Text) : Option Text :=
  if (ascii ".json").isSuffixOf path then some (ascii "application/json")
  else if (ascii ".mp4").isSuffixOf path then some (ascii "video/mp4")
  else if (ascii ".png").isSuffixOf path then some (ascii "image/png")
  else none

def viewedAround : Surroundings := { rolloutAround with guessType := viewedType }

theorem typesArtifacts_viewed : TypesArtifacts viewedAround rolloutRecord := by
  constructor <;> decide +kernel

theorem trajectory_shown_rollout : ∃ result,
    (vllmOmniWork viewedAround rolloutTransport (fun _ => .ok ()) (samplePolling 60) rolloutRecord 9).outcome =
        .returned result ∧
      shownFor sampleNumbers viewedAround (vllmOmniWork viewedAround rolloutTransport (fun _ => .ok ())
        (samplePolling 60) rolloutRecord 9).events result = some [[.finite 1]] := by
  have hreturned : (match (vllmOmniWork viewedAround rolloutTransport (fun _ => .ok ()) (samplePolling 60)
      rolloutRecord 9).outcome with
    | .returned _ => true
    | _ => false) = true := by decide +kernel
  split at hreturned
  · rename_i result hresult
    have hshown := trajectory_shown sampleNumbers isLiteral_ofFractions typesArtifacts_viewed
      unlinked_rollout hresult
    rw [if_pos (by decide)] at hshown
    obtain ⟨action, data, ⟨n, body, -, hjson, -, husable⟩, hdata, hframes⟩ := hshown
    refine ⟨result, hresult, (hframes _).mpr ?_⟩
    cases hjson
    cases husable
    cases hdata
    exact ⟨.cons ⟨_, rfl, .cons (.int 1) .nil⟩ .nil, by simp, ⟨1, by simp, by simp⟩, by simp⟩
  · cases hreturned

end Sample

end Cosmos3.Viewer
