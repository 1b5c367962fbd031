import Cosmos3.Worker.ArtifactPath
import Cosmos3.Worker.PollLaws

namespace Cosmos3.Worker

open Basis Basis.Python Edge Jobs

section Events

variable {K : Type}

def Event.isHttp : Event K → Bool
  | .postForm _ _ | .postFormBytes _ _ _ | .postJson _ _ _ | .getJson _ | .getBytes _ | .delete _ => true
  | _ => false

-- The files that a job writes, in order.
def writes (events : List (Event K)) : List (Text × Bytes) := events.filterMap Event.written?

-- The volume that the writes leave.
def writtenTo (volume : Files Text) (files : List (Text × Bytes)) : Files Text :=
  files.foldl (fun volume file => volume.insert file.1 file.2) volume

@[simp] theorem writes_append (first second : List (Event K)) :
    writes (first ++ second) = writes first ++ writes second := List.filterMap_append

theorem writes_eq_nil {events : List (Event K)} :
    writes events = [] ↔ ∀ event ∈ events, event.written? = none := List.filterMap_eq_nil_iff

theorem lookup_writtenTo_of_notMem {volume : Files Text} {files : List (Text × Bytes)} {path : Text}
    (hpath : path ∉ files.map (·.1)) : (writtenTo volume files).lookup path = volume.lookup path := by
  induction files generalizing volume with
  | nil => rfl
  | cons file files ih =>
      simp only [List.map_cons, List.mem_cons, not_or] at hpath
      rw [writtenTo, List.foldl_cons]
      exact (ih hpath.2).trans (AList.lookup_insert_ne hpath.1)

theorem lookup_writtenTo {volume : Files Text} {files : List (Text × Bytes)} {file : Text × Bytes}
    (hnodup : (files.map (·.1)).Nodup) (hfile : file ∈ files) :
    (writtenTo volume files).lookup file.1 = some file.2 := by
  induction files generalizing volume with
  | nil => cases hfile
  | cons first files ih =>
      rw [List.map_cons, List.nodup_cons] at hnodup
      rw [writtenTo, List.foldl_cons]
      rcases List.mem_cons.mp hfile with rfl | hfile
      · exact (lookup_writtenTo_of_notMem hnodup.1).trans (AList.lookup_insert _)
      · exact ih hnodup.2 hfile

end Events

section Clients

variable {K ε : Type} [Field K] [LinearOrder K] {shown : Shown} {transport : Transport ε}
  {report : K → Except ε Unit} {polling : Polling K} {record : JobRecord} {fuel : ℕ}

-- What the jobs do before their artifacts are there writes no file.
abbrev WritesNothing {α : Type} (x : Traced (Event K) (JobError ε) α) : Prop :=
  x.All fun event => event.written? = none

omit [Field K] [LinearOrder K] in
theorem writesNothing_call {α : Type} {event : Event K} (hevent : event.written? = none)
    (r : Except (JobError ε) α) : WritesNothing (Traced.call event r) :=
  @Traced.all_call _ _ _ (fun event => event.written? = none) event hevent r

omit [Field K] [LinearOrder K] in
theorem writesNothing_safeReport (fraction : K) : WritesNothing (safeReport report fraction) :=
  Traced.all_suppress (writesNothing_call rfl _)

omit [LinearOrder K] in
theorem writesNothing_submission (form : Except Exn Form) :
    WritesNothing (submission shown transport report form) := by
  refine (Traced.all_ofExcept _).seq fun form _ => (writesNothing_call rfl _).seq fun submitted _ => ?_
  refine Traced.All.seq ?_ fun id _ => (writesNothing_safeReport 0).seq fun _ _ => Traced.all_ret _
  unfold submittedId
  refine (Traced.all_ofExcept _).seq fun id _ => ?_
  split
  · exact Traced.all_ret _
  · exact Traced.all_raise _

theorem writesNothing_polledJob {α : Type} {form : Except Exn Form} {kind : String}
    {finish : Value → Dict → Traced (Event K) (JobError ε) α} (hfinish : Finishes finish) :
    WritesNothing (polledJob shown transport report polling form kind finish fuel) := by
  refine (writesNothing_submission form).seq fun id _ => Traced.All.seq ?_ fun body _ event hevent => ?_
  · exact fun event hevent => (polls_quiet hevent).2.2
  · rcases hfinish.events id body with hnil | ⟨path, hpath⟩
    · rw [hnil] at hevent
      cases hevent
    · rw [hpath, List.mem_singleton] at hevent
      subst hevent
      rfl

omit [Field K] [LinearOrder K] in
theorem writesNothing_runImageJob : WritesNothing (runImageJob shown transport polling record) := by
  refine (Traced.all_ofExcept _).seq fun body _ => (writesNothing_call rfl _).seq fun doc _ => ?_
  split
  · exact Traced.all_raise _
  · split
    · exact Traced.all_ret _
    · exact Traced.all_raise _
  · exact Traced.all_raise _

omit [LinearOrder K] in
theorem writesNothing_runForwardDynamicsJob (reference : FilePart) :
    WritesNothing (runForwardDynamicsJob shown transport report polling record reference) :=
  (writesNothing_safeReport 0).seq fun _ _ => (Traced.all_ofExcept _).seq fun _ _ => writesNothing_call rfl _

theorem writesNothing_runVideoJob (reference : Option FilePart) :
    WritesNothing (runVideoJob shown transport report polling record fuel reference) := by
  rw [runVideoJob_eq]
  exact writesNothing_polledJob finishes_download

theorem writesNothing_runActionJob (reference : FilePart) (wantVideo : Bool) :
    WritesNothing (runActionJob shown transport report polling record fuel reference wantVideo) := by
  rw [runActionJob_eq]
  exact writesNothing_polledJob (finishes_finishAction wantVideo)

omit [Field K] [LinearOrder K] in
theorem runImageJob_returned {data : Bytes}
    (h : (runImageJob (K := K) shown transport polling record).outcome = .returned data) :
    (∃ body, buildImageBody shown record = .ok body) ∧
      ∃ doc b64, transport.postJson = .ok doc ∧ imageOf doc = some (.str b64) ∧
        Base64.b64decode b64 = .ok data := by
  obtain ⟨body, hbody, h⟩ := Traced.outcome_seq_returned.mp h
  obtain ⟨doc, hdoc, h⟩ := Traced.outcome_seq_returned.mp h
  refine ⟨⟨body, mapError_eq_ok.mp (Traced.outcome_ofExcept_returned.mp hbody)⟩, doc, ?_⟩
  split at h
  · cases h
  · rename_i b64 himage
    split at h
    · rename_i raw hraw
      cases h
      exact ⟨b64, mapError_eq_ok.mp (Traced.outcome_call_returned.mp hdoc), himage, hraw⟩
    · cases h
  · cases h

omit [LinearOrder K] in
theorem runForwardDynamicsJob_returned {reference : FilePart} {data : Bytes}
    (h : (runForwardDynamicsJob shown transport report polling record reference).outcome =
      .returned data) :
    (∃ form, buildFdForm shown record reference = .ok form) ∧ transport.postFormBytes = .ok data := by
  obtain ⟨_, -, h⟩ := Traced.outcome_seq_returned.mp h
  obtain ⟨form, hform, h⟩ := Traced.outcome_seq_returned.mp h
  exact ⟨⟨form, mapError_eq_ok.mp (Traced.outcome_ofExcept_returned.mp hform)⟩,
    mapError_eq_ok.mp (Traced.outcome_call_returned.mp h)⟩

-- The reply that ends the loop is the first that is not pending.
theorem polledJob_returned {α : Type} {form : Except Exn Form} {kind : String}
    {finish : Value → Dict → Traced (Event K) (JobError ε) α} {a : α}
    (h : (polledJob shown transport report polling form kind finish fuel).outcome = .returned a) :
    (∃ f, form = .ok f) ∧ ∃ id n body, (∀ m < n, RepliedAt shown transport .pending m) ∧
      transport.getJson n = .ok (200, .dict body) ∧
      (∃ fraction, parseStatus shown body = .ok (.completed, fraction)) ∧
        (finish id body).outcome = .returned a := by
  obtain ⟨id, hid, h⟩ := Traced.outcome_seq_returned.mp h
  obtain ⟨body, hbody, h⟩ := Traced.outcome_seq_returned.mp h
  obtain ⟨f, hf, -⟩ := Traced.outcome_seq_returned.mp hid
  obtain ⟨n, hcount, hfound⟩ := polls_returned hbody
  obtain ⟨-, hbefore⟩ := polls_count (lt_of_lt_of_eq (Nat.lt_succ_self n) hcount.symm)
  rw [Nat.zero_add] at hfound
  obtain ⟨hreply, hstatus⟩ := reply_of_completed hfound
  refine ⟨⟨f, mapError_eq_ok.mp (Traced.outcome_ofExcept_returned.mp hf)⟩, id, n, body, fun m hm => ?_, hreply,
    hstatus, h⟩
  obtain ⟨fraction, hpending⟩ := hbefore m hm
  rw [Nat.zero_add] at hpending
  exact repliedAt_of_pending hpending

theorem runVideoJob_returned {reference : Option FilePart} {data : Bytes}
    (h : (runVideoJob shown transport report polling record fuel reference).outcome = .returned data) :
    (∃ form, buildVideoForm shown record reference = .ok form) ∧ transport.getBytes = .ok data := by
  rw [runVideoJob_eq] at h
  obtain ⟨hform, id, n, body, -, -, -, h⟩ := polledJob_returned h
  exact ⟨hform, mapError_eq_ok.mp (Traced.outcome_call_returned.mp h)⟩

-- The action is that of the completed reply, and the video is the one that was downloaded.
theorem runActionJob_returned {reference : FilePart} {wantVideo : Bool} {action : Dict}
    {video : Option Bytes}
    (h : (runActionJob shown transport report polling record fuel reference wantVideo).outcome =
      .returned (action, video)) :
    (∃ form, buildActionForm shown record reference = .ok form) ∧
      (∃ n body, (∀ m < n, RepliedAt shown transport .pending m) ∧
        transport.getJson n = .ok (200, .dict body) ∧
        (∃ fraction, parseStatus shown body = .ok (.completed, fraction)) ∧
          usableAction (Dict.get body (ascii "action")) = some action) ∧
      if wantVideo then ∃ bytes, video = some bytes ∧ transport.getBytes = .ok bytes else video = none := by
  rw [runActionJob_eq] at h
  obtain ⟨hform, id, n, body, hbefore, hreply, hstatus, h⟩ := polledJob_returned h
  unfold finishAction at h
  split at h
  · cases h
  · rename_i action' husable
    split_ifs at h with hwant
    · obtain ⟨bytes, hbytes, h⟩ := Traced.outcome_seq_returned.mp h
      cases h
      refine ⟨hform, ⟨n, body, hbefore, hreply, hstatus, husable⟩, ?_⟩
      rw [if_pos hwant]
      exact ⟨bytes, rfl, mapError_eq_ok.mp (Traced.outcome_call_returned.mp hbytes)⟩
    · cases h
      refine ⟨hform, ⟨n, body, hbefore, hreply, hstatus, husable⟩, ?_⟩
      rw [if_neg hwant]

end Clients

end Cosmos3.Worker
