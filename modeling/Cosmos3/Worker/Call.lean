import Cosmos3.Edge.Containment
import Cosmos3.Worker.PollLaws
import Cosmos3.Worker.Server

namespace Cosmos3.Worker

open Basis Basis.Python Edge Jobs

section Conns

variable {conn : Conn} {bytes more : Bytes}

-- What is sent in two pieces is what is sent at once, also where the client goes away.
theorem pushed_append : (conn.pushed bytes).pushed more = conn.pushed (bytes ++ more) := by
  obtain ⟨incoming, room, sent⟩ := conn
  cases room with
  | none => simp [Conn.pushed]
  | some room => simp [Conn.pushed, List.take_append, Nat.sub_sub]

-- Once a send has raised nothing more arrives.
theorem pushed_broken (h : conn.fits bytes = false) : conn.pushed (bytes ++ more) = conn.pushed bytes := by
  obtain ⟨incoming, room, sent⟩ := conn
  cases room with
  | none => cases h
  | some room =>
      have hlt : room < bytes.length := by simpa [Conn.fits] using h
      simp only [Conn.pushed, Option.elim_some, Option.map_some, List.length_append, Conn.mk.injEq, true_and]
      refine ⟨?_, ?_⟩
      · congr 1
        omega
      · rw [List.take_append_of_le_length (by omega)]

theorem fits_append : conn.fits (bytes ++ more) = (conn.fits bytes && (conn.pushed bytes).fits more) := by
  obtain ⟨incoming, room, sent⟩ := conn
  cases room with
  | none => rfl
  | some room =>
      rw [Bool.eq_iff_iff]
      simp [Conn.fits, Conn.pushed]
      omega

theorem sent_pushed (h : conn.sent = []) :
    (conn.pushed bytes).sent <+: bytes ∧ ((conn.pushed bytes).sent = bytes ↔ conn.fits bytes = true) := by
  obtain ⟨incoming, room, sent⟩ := conn
  obtain rfl : sent = [] := h
  cases room with
  | none => simp [Conn.pushed, Conn.fits]
  | some room =>
      simp only [Conn.pushed, Conn.fits, List.nil_append, Option.elim_some, Option.all_some, decide_eq_true_eq]
      exact ⟨List.take_prefix _ _, List.take_eq_self_iff _⟩

end Conns

section Serve

variable {τ φ : Type} {shown : Shown} {engines : Engines τ φ} {dumps : Value → Bytes}
  {loads : Bytes → Option Value} {conn : Conn}

theorem sendFrame_eq {obj : Value} {bytes : Bytes} (h : frame dumps obj = some bytes) :
    sendFrame engines dumps obj conn =
      (if conn.fits bytes then .ok () else .error engines.brokenText, conn.pushed bytes) := by
  rw [sendFrame, h]
  rfl

-- A frame behind one that could not be sent.
theorem sendFrame_broken {bytes : Bytes} (h : conn.fits bytes = false) (obj : Value) :
    (sendFrame engines dumps obj (conn.pushed bytes)).2 = conn.pushed bytes := by
  unfold sendFrame
  cases frame dumps obj with
  | none => rfl
  | some more => exact pushed_append.trans (pushed_broken h)

theorem relaySteps_eq {steps : List (ℤ × ℤ)} {frames : List Bytes}
    (h : (steps.map progressMessage).mapM (frame dumps) = some frames) :
    (relaySteps engines dumps steps conn).2 = conn.pushed frames.flatten ∧
      (relaySteps engines dumps steps conn).1 =
        if conn.fits frames.flatten then .ok () else .error engines.brokenText := by
  induction steps generalizing conn frames with
  | nil =>
      obtain rfl := Option.some.inj h
      obtain ⟨incoming, room, sent⟩ := conn
      cases room <;> simp [relaySteps, Conn.pushed, Conn.fits]
  | cons step steps ih =>
      rw [List.map_cons, List.mapM_cons] at h
      obtain ⟨first, hfirst, h⟩ := Option.bind_eq_some_iff.mp h
      obtain ⟨rest, hrest, h⟩ := Option.bind_eq_some_iff.mp h
      obtain rfl := Option.some.inj h
      rw [List.flatten_cons, relaySteps, sendFrame_eq hfirst]
      cases hfits : conn.fits first with
      | false => simp [pushed_broken hfits, fits_append, hfits]
      | true =>
          obtain ⟨hconn, hresult⟩ := @ih (conn.pushed first) rest hrest
          simp [hconn, hresult, pushed_append, fits_append, hfits]

theorem respond_broken {bytes : Bytes} (h : conn.fits bytes = false) (reply : Dict) :
    respond engines dumps reply (conn.pushed bytes) = conn.pushed bytes := by
  have hfirst : (sendFrame engines dumps (resultMessage reply) (conn.pushed bytes)).2 = conn.pushed bytes :=
    sendFrame_broken h (resultMessage reply)
  unfold respond
  split
  · rename_i heq
    rw [heq] at hfirst
    exact hfirst
  · rename_i message _ heq
    rw [heq] at hfirst
    obtain rfl := hfirst
    exact sendFrame_broken h _

theorem respond_eq {reply : Dict} {last : Bytes} (h : frame dumps (resultMessage reply) = some last) :
    respond engines dumps reply conn = conn.pushed last := by
  rw [respond, sendFrame_eq h]
  cases hfits : conn.fits last with
  | true => rfl
  | false => exact sendFrame_broken hfits _

variable {request : Dict} {job mode : Value} {frames : List Bytes}

theorem dispatch_eq (hjob : request.get (ascii "job_id") = some job)
    (hmode : request.get (ascii "mode") = some mode)
    (hsteps : ((perform shown engines request job mode).1.map progressMessage).mapM (frame dumps) =
      some frames) :
    dispatch shown engines dumps (.dict request) conn =
      (.ok (if conn.fits frames.flatten then replyOf (perform shown engines request job mode).2
        else failedReply engines.brokenText), conn.pushed frames.flatten) := by
  obtain ⟨hconn, hresult⟩ := @relaySteps_eq _ _ engines _ conn _ _ hsteps
  have hjob' : subscript request "job_id" = .ok job := by rw [subscript, hjob]; rfl
  have hmode' : subscript request "mode" = .ok mode := by rw [subscript, hmode]; rfl
  simp only [dispatch, hjob', hmode']
  generalize relaySteps engines dumps (perform shown engines request job mode).1 conn = run at hconn hresult
  obtain ⟨relayed, conn'⟩ := run
  obtain rfl : conn' = conn.pushed frames.flatten := hconn
  obtain rfl : relayed = _ := hresult
  cases hfits : conn.fits frames.flatten <;> rfl

-- What is sent for a request is its conversation, as far as it gets through.
theorem handle_eq {rest : Reader} {last : Bytes}
    (hread : unframe loads conn.incoming = .ok (.dict request, rest))
    (hjob : request.get (ascii "job_id") = some job) (hmode : request.get (ascii "mode") = some mode)
    (hsteps : ((perform shown engines request job mode).1.map progressMessage).mapM (frame dumps) =
      some frames)
    (hlast : frame dumps (resultMessage (replyOf (perform shown engines request job mode).2)) =
      some last) :
    handle shown engines dumps loads conn = conn.pushed (frames.flatten ++ last) := by
  simp only [handle, hread, dispatch_eq hjob hmode hsteps]
  cases hfits : conn.fits frames.flatten with
  | false =>
      rw [respond_broken hfits]
      exact (pushed_broken hfits).symm
  | true =>
      rw [if_pos rfl, respond_eq hlast]
      exact pushed_append

end Serve

section Steps

variable {dumps : Value → Bytes} {loads : Bytes → Option Value}

def stepProgress (step : ℤ × ℤ) : Progress := tick step.1 step.2

theorem result_ne_progress (reply : Dict) :
    Dict.get ((ascii "type", .str (ascii "result")) :: reply) (ascii "type") ≠
      some (.str (ascii "progress")) := by
  intro h
  cases h

def replyResult (reply : Dict) : Result where
  fields := (ascii "type", .str (ascii "result")) :: reply
  type_ne := result_ne_progress reply

-- An engine that counts its steps up to their number has a fraction for each.
theorem fractions_counted {steps : List (ℤ × ℤ)} (h : ∀ step ∈ steps, 0 ≤ step.1 ∧ step.1 ≤ step.2) :
    fractions (steps.map stepProgress) = .ok ((steps.filter fun step => 0 < step.2).map fun step =>
      .finite (nearestFloat (step.1 / step.2))) := by
  induction steps with
  | nil => rfl
  | cons step steps ih =>
      obtain ⟨⟨hnonneg, hle⟩, hsteps⟩ := List.forall_mem_cons.mp h
      have hcounts : (stepProgress step).counts = decide (0 < step.2) := by
        simp [Progress.counts, stepProgress, tick, numberOf, positive]
      rw [List.map_cons, fractions_cons, ih hsteps, Progress.reports, hcounts, List.filter_cons]
      by_cases hpos : 0 < step.2
      · have hstep : (0 : ℚ) < step.2 := by exact_mod_cast hpos
        have hlow : (0 : ℚ) ≤ step.1 / step.2 := div_nonneg (by exact_mod_cast hnonneg) hstep.le
        have hhigh : (step.1 / step.2 : ℚ) ≤ 1 := (div_le_one hstep).mpr (by exact_mod_cast hle)
        have hbound : (1 : ℚ) < floatBound := by decide +kernel
        have hfraction : (stepProgress step).fraction = .ok (.finite (nearestFloat (step.1 / step.2))) :=
          if_pos ⟨by linarith, by linarith⟩
        rw [if_pos (by simpa using hpos), if_pos (by simpa using hpos), hfraction]
        rfl
      · rw [if_neg (by simpa using hpos), if_neg (by simpa using hpos)]
        rfl

theorem stream_steps {steps : List (ℤ × ℤ)} {reply : Dict} {frames : List Bytes} {last : Bytes}
    (hframes : (steps.map progressMessage).mapM (frame dumps) = some frames)
    (hlast : frame dumps (resultMessage reply) = some last) :
    stream dumps (steps.map stepProgress) (replyResult reply) = some (frames.flatten ++ last) := by
  have hmap : (steps.map stepProgress).map Progress.message = steps.map progressMessage := List.map_map
  have hresult : frame dumps (replyResult reply).message = some last := hlast
  rw [stream, hmap, List.mapM_append, hframes]
  simp [hresult]

end Steps

section Readable

variable {floats : FloatReader}

theorem readable_update {d other : Dict} (hd : Python.Readable floats (.dict d))
    (hother : Python.ReadableFields floats other) : Python.Readable floats (.dict (update d other)) := by
  induction other generalizing d with
  | nil => exact hd
  | cons field other ih => exact ih (readable_set hd field.1 hother.1) hother.2

theorem readable_audio (audio : Audio) : Python.ReadableFields floats audio.info := by
  cases audio <;> simp [Audio.info, Python.ReadableFields, Python.Readable]

theorem readable_replyMeta (info : Option EngineInfo) (default : String) (peak : ℤ) :
    Python.Readable floats (.dict (replyMeta info default peak)) := by
  refine ⟨?_, trivial, trivial, trivial, trivial⟩
  change [ascii "engine", ascii "precision", ascii "vram_peak_bytes"].Nodup
  decide

theorem readable_okReply {path : Text} {info : Dict} (h : Python.Readable floats (.dict info)) :
    Python.Readable floats (.dict ((ascii "type", .str (ascii "result")) :: okReply path info)) := by
  refine ⟨?_, trivial, trivial, trivial, h, trivial⟩
  change [ascii "type", ascii "ok", ascii "artifact_path", ascii "meta"].Nodup
  decide

theorem readable_failedReply (message : Text) :
    Python.Readable floats (.dict ((ascii "type", .str (ascii "result")) :: failedReply message)) := by
  refine ⟨?_, trivial, trivial, trivial, trivial, trivial⟩
  change [ascii "type", ascii "ok", ascii "code", ascii "message"].Nodup
  decide

theorem readable_progressMessage (step : ℤ × ℤ) : Python.Readable floats (progressMessage step) := by
  refine ⟨?_, trivial, trivial, trivial, trivial⟩
  change [ascii "type", ascii "step", ascii "total"].Nodup
  decide

end Readable

section Performed

variable {τ φ : Type} {shown : Shown} {engines : Engines τ φ} {floats : FloatReader}

-- A reply with an artifact says nothing that is not read back.
def Legible (floats : FloatReader) (reply : Except Text Dict) : Prop :=
  ∀ fields, reply = .ok fields → ∃ path info, fields = okReply path info ∧ Python.Readable floats (.dict info)

theorem Legible.error (message : Text) : Legible floats (.error message) := by
  intro fields h
  cases h

theorem Legible.bind {α : Type} {x : Except Text α} {f : α → Except Text Dict}
    (h : ∀ a, x = .ok a → Legible floats (f a)) : Legible floats (x.bind f) := by
  cases hx : x with
  | error message => exact .error message
  | ok a => exact h a hx

theorem Legible.ok {path : Text} {info : Dict} (h : Python.Readable floats (.dict info)) :
    Legible floats (.ok (okReply path info)) := by
  intro fields heq
  exact ⟨path, info, (Except.ok.inj heq).symm, h⟩

theorem readable_withSidecar {key : String} {wanted : Bool} {write : Except Text Text} {info info' : Dict}
    (hinfo : Python.Readable floats (.dict info)) (h : withSidecar key wanted write info = .ok info') :
    Python.Readable floats (.dict info') := by
  rw [withSidecar] at h
  split_ifs at h
  · obtain ⟨path, -, rfl⟩ := Basis.map_eq_ok.mp h
    exact readable_set hinfo _ trivial
  · exact Except.ok.inj h ▸ hinfo

theorem legible_generation (job : Value) (mode : Text) (result : GenerationResult φ) (wantLatents : Bool) :
    Legible floats (encodeGenerationReply engines.artifacts job mode result wantLatents) := by
  have hmeta := @readable_replyMeta floats result.info "diffusers_oracle" result.vramPeakBytes
  refine .bind fun written hwritten => .bind fun info hinfo => .ok (readable_withSidecar ?_ hinfo)
  rw [writeGeneration] at hwritten
  split_ifs at hwritten
  · obtain ⟨path, -, rfl⟩ := Basis.map_eq_ok.mp hwritten
    exact hmeta
  · obtain ⟨sound, -, rfl⟩ := Basis.map_eq_ok.mp hwritten
    exact readable_update hmeta (readable_audio sound.2)
  · obtain ⟨path, -, rfl⟩ := Basis.map_eq_ok.mp hwritten
    exact hmeta

theorem legible_action (job mode : Value) (result : ActionResult φ) :
    Legible floats (encodeActionReply engines.artifacts job mode result) := by
  have hmeta := @readable_replyMeta floats result.info "diffusers_action" result.vramPeakBytes
  unfold encodeActionReply
  dsimp only
  split_ifs
  · intro fields h
    obtain ⟨path, -, rfl⟩ := Basis.map_eq_ok.mp h
    exact ⟨path, _, rfl, hmeta⟩
  · exact .bind fun path _ => .bind fun info hinfo => .ok (readable_withSidecar hmeta hinfo)

theorem legible_perform (request : Dict) (job mode : Value) :
    Legible floats (perform shown engines request job mode).2 := by
  have haction : Legible floats (do
      let asked ← (toActionRequest shown engines.tensor request mode).mapError engines.exnText
      let result ← engines.generateAction asked
      encodeActionReply engines.artifacts job mode result) :=
    .bind fun asked _ => .bind fun result _ => legible_action job mode result
  unfold perform
  dsimp only
  split_ifs
  · exact haction
  · split
    · exact .error _
    · exact .error _
    · split_ifs
      · split
        · exact .error _
        · exact .bind fun result _ => legible_generation job _ result _
      · exact haction
    · exact haction

theorem readable_reply (request : Dict) (job mode : Value) :
    Python.Readable floats (resultMessage (replyOf (perform shown engines request job mode).2)) := by
  cases hreply : (perform shown engines request job mode).2 with
  | error message => exact readable_failedReply message
  | ok fields =>
      obtain ⟨path, info, rfl, hinfo⟩ := legible_perform request job mode fields hreply
      exact readable_okReply hinfo

end Performed

section Request

variable {shown : Shown} {files : FileSystem} {allowlist : List OsText} {floats : FloatReader}

theorem resolvedPaths_ok {params : Dict} {keys : List String} {paths : Dict}
    (h : resolvedPaths shown files allowlist params keys = .ok paths) :
    Python.ReadableFields floats paths ∧ (paths.map (·.1)).Sublist (keys.map ascii) := by
  induction keys generalizing paths with
  | nil =>
      obtain rfl := Except.ok.inj h
      exact ⟨trivial, List.Sublist.refl _⟩
  | cons key keys ih =>
      obtain ⟨first, hfirst, h⟩ := bind_eq_ok.mp h
      obtain ⟨rest, hrest, h⟩ := bind_eq_ok.mp h
      obtain rfl := Except.ok.inj h
      obtain ⟨hreadable, hsub⟩ := ih hrest
      unfold resolvedPath at hfirst
      split at hfirst
      · obtain rfl := Except.ok.inj hfirst
        exact ⟨hreadable, hsub.cons _⟩
      · obtain ⟨path, -, rfl⟩ := Basis.map_eq_ok.mp hfirst
        exact ⟨⟨trivial, hreadable⟩, hsub.cons_cons _⟩

theorem readable_request {record : JobRecord} {wantLatents : Bool} {request : Dict}
    (hparams : Python.Readable floats (.dict record.params))
    (h : buildRequest shown files allowlist record wantLatents = .ok request) :
    Python.Readable floats (.dict request) := by
  obtain ⟨paths, hpaths, h⟩ := bind_eq_ok.mp h
  obtain rfl := Except.ok.inj h
  obtain ⟨hreadable, hsub⟩ := @resolvedPaths_ok _ _ _ floats _ _ _ hpaths
  have hcheckpoint : Python.Readable floats
      ((record.params.get (ascii "checkpoint")).getD (.str (ascii "nvfp4"))) := by
    cases hget : record.params.get (ascii "checkpoint") with
    | none => trivial
    | some value => exact readable_get hparams hget
  refine ⟨?_, trivial, trivial, trivial, hparams, hcheckpoint, trivial, hreadable⟩
  have hkeys : (["job_id", "kind", "mode", "params", "checkpoint", "want_latents"].map ascii ++
      conditioningKeys.map ascii).Nodup := by decide
  rw [List.map_append]
  exact hkeys.sublist (List.Sublist.append (List.Sublist.refl _) hsub)

theorem get_request {record : JobRecord} {wantLatents : Bool} {request : Dict}
    (h : buildRequest shown files allowlist record wantLatents = .ok request) :
    request.get (ascii "job_id") = some (.str record.id) ∧
      request.get (ascii "mode") = some (.str record.mode) := by
  obtain ⟨paths, -, h⟩ := bind_eq_ok.mp h
  obtain rfl := Except.ok.inj h
  exact ⟨rfl, rfl⟩

end Request

section Remote

variable {τ φ : Type} {shown : Shown} {engines : Engines τ φ} {floats : FloatReader}
  {files : FileSystem} {allowlist : List OsText}

-- What a message is on the wire.
def wire (floats : FloatReader) (msg : Value) : Bytes := asciiBytes (Python.dumps floats.toFloatText msg)

theorem transmits_wire {msg : Value} (hmsg : Python.Readable floats msg) (hsize : (wire floats msg).length ≤ maxFrame) :
    Transmits (wire floats) (loadsBytes floats) msg := by
  refine ⟨hsize, ?_⟩
  have hloads : loadsBytes floats (asciiBytes (dumpsStyled floats.toFloatText .spaced 0 msg ++ [])) = some msg :=
    loadsBytes_dumpsStyled .spaced hmsg 0 Json.Style.nothing_space
  rwa [List.append_nil, dumpsStyled_spaced] at hloads

-- What is made of the reply where it does not have to be sent.
def concluded : Except Text Dict → Except WorkError (Value × Value)
  | .ok reply => workResult reply
  | .error message => .error (.gen (.str (ascii "internal_error")) (.str message))

theorem outcome_reply {reply : Except Text Dict} (h : Legible floats reply) :
    outcome (resultMessage (replyOf reply)) = concluded reply := by
  cases reply with
  | error message => rfl
  | ok fields =>
      obtain ⟨path, info, rfl, -⟩ := h fields rfl
      rfl

-- The messages of a call, in the order in which they are sent.
def conversation (request : Dict) (direct : List (ℤ × ℤ) × Except Text Dict) : List Value :=
  .dict request :: (direct.1.map progressMessage ++ [resultMessage (replyOf direct.2)])

mutual

def convertible : Value → Bool
  | .int n => (decimal n.natAbs).length ≤ maxStrDigits
  | .list items => convertibleItems items
  | .dict fields => convertibleFields fields
  | _ => true

def convertibleItems : List Value → Bool
  | [] => true
  | item :: items => convertible item && convertibleItems items

def convertibleFields : List (Text × Value) → Bool
  | [] => true
  | (_, item) :: fields => convertible item && convertibleFields fields

end

-- A message that fits in a frame, without the long integers for which `json` raises.
structure Sendable (floats : FloatReader) (msg : Value) : Prop where
  size : (wire floats msg).length ≤ maxFrame
  digits : convertible msg = true

-- A job that is done in the other process ends as it does there, however the reads cut the two
-- streams, and what it reports are the steps, up to one whose fraction is no float. Where the
-- connection breaks off it fails, after those steps that still came through.
theorem work_eq_perform {record : JobRecord} {wantLatents : Bool} {request : Dict} {conn : Conn} {r : Reader}
    {direct : List (ℤ × ℤ) × Except Text Dict}
    (hparams : Python.Readable floats (.dict record.params))
    (hrequest : buildRequest shown files allowlist record wantLatents = .ok request)
    (hdirect : perform shown engines request (.str record.id) (.str record.mode) = direct)
    (hsendable : ∀ msg ∈ conversation request direct, Sendable floats msg)
    (hincoming : frame (wire floats) (.dict request) = some conn.incoming.bytes) (hsent : conn.sent = [])
    (hr : r.bytes = (handle shown engines (wire floats) (loadsBytes floats) conn).sent) :
    ∃ whole, stream (wire floats) (direct.1.map stepProgress) (replyResult (replyOf direct.2)) = some whole ∧
      (conn.fits whole = true →
        (∀ reports, fractions (direct.1.map stepProgress) = .ok reports →
          work (loadsBytes floats) r = (.finite 0 :: (reports ++ [.finite 1]), concluded direct.2)) ∧
        (∀ exn, fractions (direct.1.map stepProgress) = .error exn → exn = .overflowError ∧
          ∃ reports, Overflows (direct.1.map stepProgress) reports ∧
            work (loadsBytes floats) r = (.finite 0 :: reports, .error (.failure (.python exn))))) ∧
      (conn.fits whole = false → ∃ seen reports, seen <+: direct.1 ∧
        fractions (seen.map stepProgress) = .ok reports ∧
        (work (loadsBytes floats) r = (.finite 0 :: reports, .error (.failure .framing)) ∨
          Overflows (direct.1.map stepProgress) reports ∧
            work (loadsBytes floats) r = (.finite 0 :: reports, .error (.failure (.python .overflowError))))) := by
  subst hdirect
  generalize hdirect : perform shown engines request (.str record.id) (.str record.mode) = direct at *
  obtain ⟨hhead, htail⟩ := List.forall_mem_cons.mp hsendable
  obtain ⟨hsteps, hlast⟩ := List.forall_mem_append.mp htail
  have hlast := (hlast _ List.mem_cons_self).size
  obtain ⟨hjob, hmode⟩ := get_request hrequest
  obtain ⟨frames, hframes⟩ := frames_of_size fun msg hmsg => (hsteps msg hmsg).size
  obtain ⟨last, hframe⟩ := frame_of_size hlast
  have hstream := stream_steps hframes hframe
  have hprogress : ∀ p ∈ direct.1.map stepProgress, Transmits (wire floats) (loadsBytes floats) p.message := by
    intro p hp
    obtain ⟨step, hstep, rfl⟩ := List.mem_map.mp hp
    exact transmits_wire (readable_progressMessage step) (hsteps _ (List.mem_map_of_mem hstep)).size
  have hresult : Transmits (wire floats) (loadsBytes floats) (replyResult (replyOf direct.2)).message :=
    transmits_wire (hdirect ▸ readable_reply request _ _) hlast
  obtain ⟨rest, hread, -⟩ := unframe_frame hincoming hhead.size
    (transmits_wire (readable_request hparams hrequest) hhead.size).loads (List.append_nil _).symm
  have hhandle : handle shown engines (wire floats) (loadsBytes floats) conn = conn.pushed (frames.flatten ++ last) :=
    handle_eq hread hjob hmode (by rw [hdirect]; exact hframes) (by rw [hdirect]; exact hframe)
  rw [hhandle] at hr
  obtain ⟨hpre, hwhole⟩ := @sent_pushed conn (frames.flatten ++ last) hsent
  refine ⟨_, hstream, fun hfits => ?_, fun hfits => ?_⟩
  · have hbytes : r.bytes = frames.flatten ++ last ++ [] := by rw [hr, hwhole.mpr hfits, List.append_nil]
    refine ⟨fun reports hreports => ?_, fun exn hexn => ?_⟩
    · obtain ⟨r', hreply, -⟩ := readReply_stream hprogress hresult hstream hreports hbytes
      rw [work, hreply, ← @outcome_reply floats _ (hdirect ▸ legible_perform request _ _)]
      rfl
    · obtain ⟨rfl, reports, hover⟩ := fractions_error.mp hexn
      refine ⟨rfl, reports, hover, ?_⟩
      rw [work, readReply_overflows hprogress hstream hover hbytes]
  · obtain ⟨seen, reports, hseen, hreports, hreply⟩ := readReply_cut hprogress hresult hstream (r := r)
      (hr ▸ hpre) (fun heq => by rw [hr, hwhole, hfits] at heq; cases heq)
    obtain ⟨steps, rfl, hsteps⟩ : ∃ steps, seen = steps.map stepProgress ∧ steps <+: direct.1 := by
      obtain ⟨later, hlater⟩ := hseen
      obtain ⟨front, back, hfront, rfl, -⟩ := List.map_eq_append_iff.mp hlater.symm
      exact ⟨front, rfl, back, hfront.symm⟩
    refine ⟨steps, reports, hsteps, hreports, ?_⟩
    rcases hreply with hreply | ⟨hover, hreply⟩
    · exact .inl (by rw [work, hreply])
    · exact .inr ⟨hover, by rw [work, hreply]⟩

def sampleEngines : Engines Unit Unit where
  tensor _ := .ok ()
  generate request := ([(1, request.numInferenceSteps), (2, request.numInferenceSteps)],
    .ok ⟨(), true, 7, none⟩)
  generateAction _ := .error (ascii "no action")
  artifacts := {
    imagePng := fun _ _ => .ok (ascii "/a/a1.png")
    videoMp4 := fun _ _ => .ok (ascii "/a/a1.mp4")
    videoWithAudio := fun _ _ => .ok (ascii "/a/a1.mp4", .none)
    latentsNpy := fun _ _ => .error []
    trajectoryJson := fun _ _ => .error [] }
  exnText _ := []
  failureText _ := []
  structText := []
  brokenText := ascii "[Errno 32] Broken pipe"

def sampleRequest : Dict :=
  [(ascii "job_id", .str (ascii "a1")), (ascii "kind", .str (ascii "generation")),
    (ascii "mode", .str (ascii "t2i")), (ascii "params", .dict [(ascii "prompt", .str (ascii "rain"))]),
    (ascii "checkpoint", .str (ascii "nvfp4")), (ascii "want_latents", .bool false)]

def sampleFloats : FloatReader := FloatText.ofFractions.unread

-- One byte at a time.
def sampleConn (room : Option ℕ) : Conn where
  incoming := ⟨(frame (wire sampleFloats) (.dict sampleRequest)).getD [], fun _ => 0, 0⟩
  room := room
  sent := []

def sampleReply (room : Option ℕ) : Reader where
  bytes := (handle .quoted sampleEngines (wire sampleFloats) (loadsBytes sampleFloats) (sampleConn room)).sent
  cut _ := 0
  reads := 0

-- The whole conversation, and one that breaks off after five bytes.
theorem work_eq_perform_sampleReply :
    work (loadsBytes sampleFloats) (sampleReply none) =
      ([.finite 0, .finite (1 / 8), .finite (2 / 8), .finite 1], .ok (.str (ascii "/a/a1.png"),
        .dict (replyMeta none "diffusers_oracle" 7))) ∧
    ∃ seen reports, seen <+: [(1, 8), (2, 8)] ∧ fractions (seen.map stepProgress) = .ok reports ∧
      work (loadsBytes sampleFloats) (sampleReply (some 5)) =
        (.finite 0 :: reports, .error (.failure .framing)) := by
  have hparams : Python.Readable sampleFloats (.dict (sampleRecord "t2i").params) :=
    ⟨List.nodup_singleton _, trivial, trivial⟩
  have hrequest : buildRequest .quoted plainFiles [] (sampleRecord "t2i") false = .ok sampleRequest := rfl
  have hdirect : perform .quoted sampleEngines sampleRequest (.str (ascii "a1")) (.str (ascii "t2i")) =
      ([(1, 8), (2, 8)], .ok (okReply (ascii "/a/a1.png") (replyMeta none "diffusers_oracle" 7))) := rfl
  have hsize : ∀ msg ∈ conversation sampleRequest ([(1, 8), (2, 8)],
      .ok (okReply (ascii "/a/a1.png") (replyMeta none "diffusers_oracle" 7))),
      (wire sampleFloats msg).length ≤ maxFrame ∧ convertible msg = true := by
    decide +kernel
  have hsendable : ∀ msg ∈ conversation sampleRequest ([(1, 8), (2, 8)],
      .ok (okReply (ascii "/a/a1.png") (replyMeta none "diffusers_oracle" 7))), Sendable sampleFloats msg :=
    fun msg hmsg => ⟨(hsize msg hmsg).1, (hsize msg hmsg).2⟩
  have hincoming : ∀ room, frame (wire sampleFloats) (.dict sampleRequest) =
      some (sampleConn room).incoming.bytes := by
    intro room
    obtain ⟨bytes, hbytes⟩ := frame_of_size (hsendable _ List.mem_cons_self).size
    rw [sampleConn, hbytes]
    rfl
  have hfractions : fractions ([(1, 8), (2, 8)].map stepProgress) = .ok [.finite (1 / 8), .finite (2 / 8)] :=
    (fractions_counted (by decide)).trans (by decide +kernel)
  obtain ⟨whole, hwhole, hall, -⟩ := work_eq_perform (r := sampleReply none) hparams hrequest hdirect hsendable
    (hincoming none) rfl rfl
  obtain ⟨whole', hwhole', -, hcut⟩ := work_eq_perform (r := sampleReply (some 5)) hparams hrequest hdirect
    hsendable (hincoming (some 5)) rfl rfl
  have hbroken : (sampleConn (some 5)).fits whole' = false := by
    obtain ⟨first, rest, hfirst, -, rfl⟩ := stream_cons _ hwhole'
    obtain ⟨-, rfl⟩ := frame_eq_some hfirst
    have hbody : 1 < (wire sampleFloats (stepProgress (1, 8)).message).length := by decide +kernel
    have hlong : ¬(pack (wire sampleFloats (stepProgress (1, 8)).message).length ++
        wire sampleFloats (stepProgress (1, 8)).message ++ rest).length ≤ 5 := by
      simp only [List.length_append, pack, List.length_cons, List.length_nil]
      omega
    exact decide_eq_false hlong
  refine ⟨((hall rfl).1 _ hfractions).trans rfl, ?_⟩
  obtain ⟨seen, reports, hseen, hreports, hreply | ⟨hover, -⟩⟩ := hcut hbroken
  · exact ⟨seen, reports, hseen, hreports, hreply⟩
  · rw [fractions_error.mpr ⟨rfl, reports, hover⟩] at hfractions
    cases hfractions

end Remote

end Cosmos3.Worker
