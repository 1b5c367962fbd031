import Cosmos3.Worker.Returned

namespace Cosmos3.Worker

open Basis Basis.Python Edge Jobs

section Specification

variable {K ε : Type} (around : Surroundings) (transport : Transport ε) (record : JobRecord)

-- The kind of media that a mode does not go without.
def requiredKind (mode : Text) : Option String :=
  if mode = ascii "i2v" ∨ mode = ActionMode.forwardDynamics.value ∨ mode = ActionMode.policy.value then
    some "image"
  else if mode = ActionMode.inverseDynamics.value then some "video"
  else none

-- What the record names under a conditioning key.
def conditioningValue (key : String) : Option Text :=
  ((record.params.get (ascii key)).filter truth).map (strOf around.shown)

-- Every conditioning path of the record has passed `resolve_within`.
def ResolvedIn (front : List (Event K)) : Prop :=
  ∀ key ∈ conditioningKeys, ∀ value, conditioningValue around record key = some value →
    .resolve value ∈ front ∧ ∃ path, resolveWithin around.files value around.allowlist = .ok path

-- The conditioning that the mode requires is there and within its cap.
def ReadIn (front : List (Event K)) : Prop :=
  ∀ kind, requiredKind record.mode = some kind →
    ∃ value path limits bytes, conditioningValue around record (kind ++ "_path") = some value ∧
      resolveWithin around.files value around.allowlist = .ok path ∧ .getsize path ∈ front ∧
      around.limits = .ok limits ∧ around.volume.lookup path = some bytes ∧
      bytes.length ≤ conditioningCap limits (ascii kind)

-- The action of the poll reply that completes the job, the first that is not pending.
def CompletedWith (action : Dict) : Prop :=
  ∃ n body, (∀ m < n, RepliedAt around.shown transport .pending m) ∧
    transport.getJson n = .ok (200, .dict body) ∧
    (∃ fraction, parseStatus around.shown body = .ok (.completed, fraction)) ∧
      usableAction (Dict.get body (ascii "action")) = some action

-- What each mode leaves, by the kinds of its files.
def Delivers (artifacts : List (String × Bytes)) : Prop :=
  if record.mode = ascii "t2i" then
    ∃ doc b64 data, transport.postJson = .ok doc ∧ imageOf doc = some (.str b64) ∧
      Base64.b64decode b64 = .ok data ∧ artifacts = [("png", data)]
  else if record.mode = ActionMode.forwardDynamics.value then
    ∃ data, transport.postFormBytes = .ok data ∧ artifacts = [("mp4", data)]
  else if record.mode = ActionMode.policy.value then
    ∃ action video, CompletedWith around transport action ∧ transport.getBytes = .ok video ∧ video ≠ [] ∧
      artifacts = [("mp4", video), ("json", trajectoryBytes around action)]
  else if record.mode = ActionMode.inverseDynamics.value then
    ∃ action, CompletedWith around transport action ∧
      artifacts = [("json", trajectoryBytes around action)]
  else record.mode ∈ videoModes ∧ ∃ data, transport.getBytes = .ok data ∧ artifacts = [("mp4", data)]

def filesOf (artifacts : List (String × Bytes)) : List (Text × Bytes) :=
  artifacts.map fun artifact => (artifactFile around record artifact.1, artifact.2)

-- The worker sends nothing before its checks, leaves nothing when it fails, and leaves the
-- files of its mode when it returns.
structure AllOrNothing (work : Traced (Event K) (JobError ε) WorkResult) : Prop where
  cleared : ∀ front event back, work.events = front ++ event :: back → event.isHttp = true →
    ResolvedIn around record front ∧ ReadIn around record front
  nothing : ∀ error, work.outcome = .raised error → (∀ e, error ≠ .sink e) →
    (∀ path allowlist, error = .untrusted path allowlist → Unlinked around record) →
      writes work.events = []
  all : Unlinked around record → ∀ result, work.outcome = .returned result →
    ∃ artifacts, Delivers around transport record artifacts ∧
      writes work.events = filesOf around record artifacts ∧
      (∀ artifact ∈ artifacts, (writtenTo around.volume (writes work.events)).lookup
        (artifactFile around record artifact.1) = some artifact.2) ∧
      (∀ path, path ∉ (filesOf around record artifacts).map (·.1) →
        (writtenTo around.volume (writes work.events)).lookup path = around.volume.lookup path) ∧
      some result.artifactPath = ((filesOf around record artifacts).map (·.1)).head?

end Specification

section Phases

variable {K ε : Type} [Field K] [LinearOrder K] (around : Surroundings) (transport : Transport ε)
  (report : K → Except ε Unit) (polling : Polling K) (record : JobRecord)

-- The bytes of the artifacts, mode by mode, before any of them is written.
def obtainedImage : Traced (Event K) (JobError ε) (List (String × Bytes)) :=
  (runImageJob around.shown transport polling record).seq fun data => Traced.ret [("png", data)]

def obtainedDynamics (conditioning : List (String × Text)) :
    Traced (Event K) (JobError ε) (List (String × Bytes)) :=
  (requireFilepart around conditioning "image"
    (ascii "forward_dynamics requires a conditioning first-frame image")).seq fun reference =>
      (runForwardDynamicsJob around.shown transport report polling record reference).seq fun data =>
        Traced.ret [("mp4", data)]

def obtainedPolicy (fuel : ℕ) (conditioning : List (String × Text)) :
    Traced (Event K) (JobError ε) (List (String × Bytes)) :=
  (requireFilepart around conditioning "image"
    (record.mode ++ ascii " requires a conditioning " ++ ascii "image")).seq fun reference =>
      (runActionJob around.shown transport report polling record fuel reference true).seq fun result =>
        match result.2.filter (· ≠ []) with
        | none => Traced.raise (fail "generation_failed"
            (record.mode ++ ascii ": server returned no rollout video"))
        | some video => Traced.ret [("mp4", video), ("json", trajectoryBytes around result.1)]

def obtainedInverse (fuel : ℕ) (conditioning : List (String × Text)) :
    Traced (Event K) (JobError ε) (List (String × Bytes)) :=
  (requireFilepart around conditioning "video"
    (record.mode ++ ascii " requires a conditioning " ++ ascii "video")).seq fun reference =>
      (runActionJob around.shown transport report polling record fuel reference false).seq fun result =>
        Traced.ret [("json", trajectoryBytes around result.1)]

def obtainedVideo (fuel : ℕ) (conditioning : List (String × Text)) :
    Traced (Event K) (JobError ε) (List (String × Bytes)) :=
  (videoReference around record conditioning).seq fun reference =>
    (runVideoJob around.shown transport report polling record fuel reference).seq fun data =>
      Traced.ret [("mp4", data)]

def obtained (fuel : ℕ) (conditioning : List (String × Text)) :
    Traced (Event K) (JobError ε) (List (String × Bytes)) :=
  if record.mode = ascii "t2i" then obtainedImage around transport polling record
  else if record.mode = ActionMode.forwardDynamics.value then
    obtainedDynamics around transport report polling record conditioning
  else if record.mode = ActionMode.policy.value then
    obtainedPolicy around transport report polling record fuel conditioning
  else if record.mode = ActionMode.inverseDynamics.value then
    obtainedInverse around transport report polling record fuel conditioning
  else obtainedVideo around transport report polling record fuel conditioning

def storeAll : List (String × Bytes) → Traced (Event K) (JobError ε) (List Text)
  | [] => Traced.ret []
  | (ext, bytes) :: artifacts =>
    (writeArtifact around record ext bytes).seq fun path =>
      (storeAll artifacts).seq fun paths => Traced.ret (path :: paths)

-- Each branch gets all of its artifacts first and writes them then.
theorem produce_eq (fuel : ℕ) (conditioning : List (String × Text)) :
    produce around transport report polling record fuel conditioning =
      (obtained around transport report polling record fuel conditioning).seq fun artifacts =>
        (storeAll around record artifacts).seq fun paths =>
          Traced.ret (paths.headD [], paths.tail.head?) := by
  unfold produce obtained
  by_cases himage : record.mode = ascii "t2i"
  · simp only [if_pos himage, obtainedImage, Traced.bind_eq_seq, Traced.seq_assoc, Traced.ret_seq,
      storeAll]
    rfl
  by_cases hdynamics : record.mode = ActionMode.forwardDynamics.value
  · simp only [if_neg himage, if_pos hdynamics, obtainedDynamics, Traced.bind_eq_seq, Traced.seq_assoc,
      Traced.ret_seq, storeAll]
    rfl
  by_cases hpolicy : record.mode = ActionMode.policy.value
  · have haction : record.mode ∈ actionPredictModes := by simp [actionPredictModes, hpolicy]
    have hinverse : record.mode ≠ ActionMode.inverseDynamics.value := by
      rw [hpolicy]
      decide
    simp only [if_neg himage, if_neg hdynamics, if_pos haction, if_pos hpolicy, if_neg hinverse,
      decide_eq_true hpolicy, obtainedPolicy, Traced.bind_eq_seq, Traced.seq_assoc]
    congr 1
    funext reference
    congr 1
    funext result
    cases result.2.filter (· ≠ []) with
    | none => rfl
    | some video =>
        simp only [Traced.ret_seq, storeAll, Traced.seq_assoc]
        rfl
  by_cases hinverse : record.mode = ActionMode.inverseDynamics.value
  · have haction : record.mode ∈ actionPredictModes := by simp [actionPredictModes, hinverse]
    simp only [if_neg himage, if_neg hdynamics, if_pos haction, if_neg hpolicy, if_pos hinverse,
      decide_eq_false hpolicy, obtainedInverse, Traced.bind_eq_seq, Traced.seq_assoc, Traced.ret_seq,
      storeAll]
    rfl
  · have haction : record.mode ∉ actionPredictModes := by simp [actionPredictModes, hpolicy, hinverse]
    simp only [if_neg himage, if_neg hdynamics, if_neg haction, if_neg hpolicy, if_neg hinverse,
      obtainedVideo, Traced.bind_eq_seq, Traced.seq_assoc, Traced.ret_seq, storeAll]
    rfl

end Phases

section Prologue

variable {K ε : Type} {around : Surroundings} {record : JobRecord}

abbrev SendsNothing {α : Type} (x : Traced (Event K) (JobError ε) α) : Prop :=
  x.All fun event => event.isHttp = false ∧ event.written? = none

theorem sendsNothing_call {α : Type} {event : Event K} (hhttp : event.isHttp = false)
    (hwritten : event.written? = none) (r : Except (JobError ε) α) :
    SendsNothing (Traced.call event r) :=
  @Traced.all_call _ _ _ (fun event => event.isHttp = false ∧ event.written? = none) event
    ⟨hhttp, hwritten⟩ r

theorem sendsNothing_resolveConditioning (keys : List String) :
    SendsNothing (resolveConditioning (K := K) (ε := ε) around record keys) := by
  induction keys with
  | nil => exact Traced.all_ret _
  | cons key keys ih =>
      unfold resolveConditioning
      split
      · exact ih
      · exact (sendsNothing_call rfl rfl _).seq fun _ _ => ih.seq fun _ _ => Traced.all_ret _

theorem sendsNothing_requireFilepart {conditioning : List (String × Text)} {kind : String}
    {message : Text} :
    SendsNothing (requireFilepart (K := K) (ε := ε) around conditioning kind message) := by
  unfold requireFilepart
  split
  · exact Traced.all_raise _
  · refine (Traced.all_ofExcept _).seq fun limits _ => (sendsNothing_call rfl rfl _).seq fun data _ => ?_
    split_ifs
    · exact Traced.all_raise _
    · exact Traced.all_ret _

theorem sendsNothing_videoReference {conditioning : List (String × Text)} :
    SendsNothing (videoReference (K := K) (ε := ε) around record conditioning) := by
  unfold videoReference
  split_ifs
  · exact sendsNothing_requireFilepart.seq fun _ _ => Traced.all_ret _
  · exact Traced.all_ret _

theorem resolveConditioning_returned {keys : List String} {conditioning : List (String × Text)}
    (h : (resolveConditioning (K := K) (ε := ε) around record keys).outcome = .returned conditioning) :
    (∀ key ∈ keys, ∀ value, conditioningValue around record key = some value →
      .resolve value ∈ (resolveConditioning (K := K) (ε := ε) around record keys).events ∧
        ∃ path, resolveWithin around.files value around.allowlist = .ok path) ∧
    ∀ entry ∈ conditioning, ∃ value, conditioningValue around record entry.1 = some value ∧
      resolveWithin around.files value around.allowlist = .ok entry.2 := by
  induction keys generalizing conditioning with
  | nil =>
      cases h
      simp
  | cons key keys ih =>
      unfold resolveConditioning at h ⊢
      cases hvalue : (record.params.get (ascii key)).filter truth with
      | none =>
          rw [hvalue] at h
          obtain ⟨hkeys, hentries⟩ := ih h
          refine ⟨fun other hother value hother' => ?_, hentries⟩
          rcases List.mem_cons.mp hother with rfl | hother
          · simp [conditioningValue, hvalue] at hother'
          · exact hkeys other hother value hother'
      | some value =>
          rw [hvalue] at h
          have hkey : conditioningValue around record key = some (strOf around.shown value) := by
            simp [conditioningValue, hvalue]
          obtain ⟨path, hpath, h⟩ := Traced.outcome_seq_returned.mp h
          obtain ⟨rest, hrest, h⟩ := Traced.outcome_seq_returned.mp h
          cases h
          have hresolved := mapError_eq_ok.mp (Traced.outcome_call_returned.mp hpath)
          obtain ⟨hkeys, hentries⟩ := ih hrest
          refine ⟨fun other hother value' hother' => ?_, fun entry hentry => ?_⟩
          · rcases List.mem_cons.mp hother with rfl | hother
            · rw [hkey] at hother'
              cases hother'
              exact ⟨Traced.mem_events_seq.mpr (.inl (by simp)), path, hresolved⟩
            · obtain ⟨hmem, hok⟩ := hkeys other hother value' hother'
              exact ⟨Traced.mem_events_seq.mpr (.inr ⟨path, hpath,
                Traced.mem_events_seq.mpr (.inl hmem)⟩), hok⟩
          · rcases List.mem_cons.mp hentry with rfl | hentry
            · exact ⟨_, hkey, hresolved⟩
            · exact hentries entry hentry

theorem conditioningPath_eq_some {conditioning : List (String × Text)} {key : String} {path : Text}
    (h : conditioningPath conditioning key = some path) : (key, path) ∈ conditioning := by
  obtain ⟨hfound, -⟩ := Option.filter_eq_some_iff.mp h
  obtain ⟨⟨key', path'⟩, hfind, rfl⟩ := Option.map_eq_some_iff.mp hfound
  obtain rfl : key' = key := by simpa using List.find?_some hfind
  exact List.mem_of_find?_eq_some hfind

theorem requireFilepart_returned {conditioning : List (String × Text)} {kind : String} {message : Text}
    {part : FilePart}
    (hentries : ∀ entry ∈ conditioning, ∃ value, conditioningValue around record entry.1 = some value ∧
      resolveWithin around.files value around.allowlist = .ok entry.2)
    (h : (requireFilepart (K := K) (ε := ε) around conditioning kind message).outcome = .returned part) :
    ∃ value path limits bytes, conditioningValue around record (kind ++ "_path") = some value ∧
      resolveWithin around.files value around.allowlist = .ok path ∧
      .getsize path ∈ (requireFilepart (K := K) (ε := ε) around conditioning kind message).events ∧
      around.limits = .ok limits ∧ around.volume.lookup path = some bytes ∧
      bytes.length ≤ conditioningCap limits (ascii kind) := by
  unfold requireFilepart at h ⊢
  split at h
  · cases h
  · rename_i path hpath
    obtain ⟨value, hvalue, hresolved⟩ := hentries _ (conditioningPath_eq_some hpath)
    obtain ⟨limits, hlimits, h⟩ := Traced.outcome_seq_returned.mp h
    obtain ⟨data, hdata, h⟩ := Traced.outcome_seq_returned.mp h
    have hread := Traced.outcome_call_returned.mp hdata
    refine ⟨value, path, limits, data, hvalue, hresolved, ?_,
      mapError_eq_ok.mp (Traced.outcome_ofExcept_returned.mp hlimits), ?_, ?_⟩
    · exact Traced.mem_events_seq.mpr (.inr ⟨limits, hlimits, Traced.mem_events_seq.mpr (.inl (by simp))⟩)
    · split at hread
      · rename_i bytes hbytes
        cases hread
        exact hbytes
      · cases hread
    · split_ifs at h with hcap
      · cases h
      · exact not_lt.mp hcap

end Prologue

section Obtained

variable {K ε : Type} [Field K] [LinearOrder K] {around : Surroundings} {transport : Transport ε}
  {report : K → Except ε Unit} {polling : Polling K} {record : JobRecord} {fuel : ℕ}
  {conditioning : List (String × Text)}

omit [Field K] [LinearOrder K] in
theorem SendsNothing.writesNothing {α : Type} {x : Traced (Event K) (JobError ε) α} (h : SendsNothing x) :
    WritesNothing x := fun event hevent => (h event hevent).2

theorem writesNothing_obtained :
    WritesNothing (obtained around transport report polling record fuel conditioning) := by
  unfold obtained
  split_ifs
  · exact writesNothing_runImageJob.seq fun _ _ => Traced.all_ret _
  · exact sendsNothing_requireFilepart.writesNothing.seq fun reference _ =>
      (writesNothing_runForwardDynamicsJob reference).seq fun _ _ => Traced.all_ret _
  · refine sendsNothing_requireFilepart.writesNothing.seq fun reference _ =>
      (writesNothing_runActionJob reference true).seq fun result _ => ?_
    split
    · exact Traced.all_raise _
    · exact Traced.all_ret _
  · exact sendsNothing_requireFilepart.writesNothing.seq fun reference _ =>
      (writesNothing_runActionJob reference false).seq fun _ _ => Traced.all_ret _
  · exact sendsNothing_videoReference.writesNothing.seq fun reference _ =>
      (writesNothing_runVideoJob reference).seq fun _ _ => Traced.all_ret _

-- What a branch gets is what its mode leaves.
theorem obtained_delivers {artifacts : List (String × Bytes)} (hmode : record.mode ∈ supportedModes)
    (h : (obtained around transport report polling record fuel conditioning).outcome =
      .returned artifacts) : Delivers around transport record artifacts := by
  unfold Delivers
  unfold obtained at h
  split_ifs at h ⊢ with himage hdynamics hpolicy hinverse
  · obtain ⟨data, hdata, h⟩ := Traced.outcome_seq_returned.mp h
    cases h
    obtain ⟨-, doc, b64, hreply, hb64, hraw⟩ := runImageJob_returned hdata
    exact ⟨doc, b64, data, hreply, hb64, hraw, rfl⟩
  · obtain ⟨reference, -, h⟩ := Traced.outcome_seq_returned.mp h
    obtain ⟨data, hdata, h⟩ := Traced.outcome_seq_returned.mp h
    cases h
    exact ⟨data, (runForwardDynamicsJob_returned hdata).2, rfl⟩
  · obtain ⟨reference, -, h⟩ := Traced.outcome_seq_returned.mp h
    obtain ⟨⟨action, video⟩, hjob, h⟩ := Traced.outcome_seq_returned.mp h
    obtain ⟨-, hcompleted, hvideo⟩ := runActionJob_returned hjob
    rw [if_pos rfl] at hvideo
    obtain ⟨bytes, rfl, hbytes⟩ := hvideo
    split at h
    · cases h
    · rename_i video hsome
      obtain ⟨hvideo, hne⟩ := Option.filter_eq_some_iff.mp hsome
      cases hvideo
      cases h
      exact ⟨action, bytes, hcompleted, hbytes, by simpa using hne, rfl⟩
  · obtain ⟨reference, -, h⟩ := Traced.outcome_seq_returned.mp h
    obtain ⟨⟨action, video⟩, hjob, h⟩ := Traced.outcome_seq_returned.mp h
    cases h
    exact ⟨action, (runActionJob_returned hjob).2.1, rfl⟩
  · obtain ⟨reference, -, h⟩ := Traced.outcome_seq_returned.mp h
    obtain ⟨data, hdata, h⟩ := Traced.outcome_seq_returned.mp h
    cases h
    refine ⟨?_, data, (runVideoJob_returned hdata).2, rfl⟩
    simpa [supportedModes, actionPredictModes, himage, hdynamics, hpolicy, hinverse] using hmode

-- A request that was sent can also be recorded.
theorem paramRecord_of_request {request : Request}
    (h : workerRequest around.shown record = .ok request) : ∃ params, paramRecord around record = .ok params := by
  rw [paramRecord, h]
  exact ⟨_, rfl⟩

theorem obtained_request {artifacts : List (String × Bytes)}
    (h : (obtained around transport report polling record fuel conditioning).outcome =
      .returned artifacts) : ∃ request, workerRequest around.shown record = .ok request := by
  unfold workerRequest
  unfold obtained at h
  split_ifs at h with himage hdynamics hpolicy hinverse
  · obtain ⟨data, hdata, -⟩ := Traced.outcome_seq_returned.mp h
    obtain ⟨⟨body, hbody⟩, -⟩ := runImageJob_returned hdata
    obtain ⟨params, hparams, -⟩ := bind_eq_ok.mp hbody
    have hdynamics : ¬record.mode = ActionMode.forwardDynamics.value := by
      rw [himage]
      decide
    have haction : record.mode ∉ actionModes := by
      rw [himage]
      decide
    rw [if_neg hdynamics, if_neg haction]
    exact ⟨_, map_eq_ok.mpr ⟨params, hparams, rfl⟩⟩
  · obtain ⟨reference, -, h⟩ := Traced.outcome_seq_returned.mp h
    obtain ⟨data, hdata, -⟩ := Traced.outcome_seq_returned.mp h
    obtain ⟨⟨form, hform⟩, -⟩ := runForwardDynamicsJob_returned hdata
    obtain ⟨params, hparams, -⟩ := map_eq_ok.mp hform
    rw [if_pos hdynamics]
    exact ⟨_, map_eq_ok.mpr ⟨params, hparams, rfl⟩⟩
  · obtain ⟨reference, -, h⟩ := Traced.outcome_seq_returned.mp h
    obtain ⟨⟨action, video⟩, hjob, -⟩ := Traced.outcome_seq_returned.mp h
    obtain ⟨⟨form, hform⟩, -⟩ := runActionJob_returned hjob
    obtain ⟨params, hparams, -⟩ := map_eq_ok.mp hform
    have haction : record.mode ∈ actionModes := by simp [actionModes, hpolicy]
    rw [if_neg hdynamics, if_pos haction]
    exact ⟨_, map_eq_ok.mpr ⟨params, hparams, rfl⟩⟩
  · obtain ⟨reference, -, h⟩ := Traced.outcome_seq_returned.mp h
    obtain ⟨⟨action, video⟩, hjob, -⟩ := Traced.outcome_seq_returned.mp h
    obtain ⟨⟨form, hform⟩, -⟩ := runActionJob_returned hjob
    obtain ⟨params, hparams, -⟩ := map_eq_ok.mp hform
    have haction : record.mode ∈ actionModes := by simp [actionModes, hinverse]
    rw [if_neg hdynamics, if_pos haction]
    exact ⟨_, map_eq_ok.mpr ⟨params, hparams, rfl⟩⟩
  · obtain ⟨reference, -, h⟩ := Traced.outcome_seq_returned.mp h
    obtain ⟨data, hdata, -⟩ := Traced.outcome_seq_returned.mp h
    obtain ⟨⟨form, hform⟩, -⟩ := runVideoJob_returned hdata
    obtain ⟨params, hparams, -⟩ := bind_eq_ok.mp hform
    have haction : record.mode ∉ actionModes := by
      simp [actionModes, hdynamics, hinverse, hpolicy]
    rw [if_neg hdynamics, if_neg haction]
    exact ⟨_, map_eq_ok.mpr ⟨params, hparams, rfl⟩⟩

omit [Field K] [LinearOrder K] in
theorem ResolvedIn.append {events : List (Event K)} (h : ResolvedIn around record events)
    (front : List (Event K)) : ResolvedIn around record (events ++ front) := by
  intro key hkey value hvalue
  obtain ⟨hmem, hok⟩ := h key hkey value hvalue
  exact ⟨List.mem_append_left front hmem, hok⟩

omit [Field K] [LinearOrder K] in
theorem readIn_of_none {front : List (Event K)} (hkind : requiredKind record.mode = none) :
    ReadIn around record front := by
  intro kind hsome
  rw [hkind] at hsome
  cases hsome

-- A branch that reads its conditioning first is cleared from then on.
omit [Field K] [LinearOrder K] in
theorem guarded_requireFilepart {α : Type} {events : List (Event K)} {kind : String} {message : Text}
    {f : FilePart → Traced (Event K) (JobError ε) α}
    (hentries : ∀ entry ∈ conditioning, ∃ value, conditioningValue around record entry.1 = some value ∧
      resolveWithin around.files value around.allowlist = .ok entry.2)
    (hresolved : ResolvedIn around record events) (hkind : requiredKind record.mode = some kind) :
    ((requireFilepart around conditioning kind message).seq f).Guarded (fun event => event.isHttp = true)
      fun front => ResolvedIn around record (events ++ front) ∧ ReadIn around record (events ++ front) := by
  refine Traced.Guarded.seq (.of_none fun event hevent => ?_) fun part hpart => .of_forall fun front => ?_
  · rw [(sendsNothing_requireFilepart event hevent).1]
    simp
  · refine ⟨hresolved.append _, fun kind' hkind' => ?_⟩
    obtain rfl : kind = kind' := by
      rw [hkind] at hkind'
      exact Option.some.inj hkind'
    obtain ⟨value, path, limits, bytes, hvalue, hpath, hmem, hrest⟩ := requireFilepart_returned hentries hpart
    exact ⟨value, path, limits, bytes, hvalue, hpath,
      List.mem_append_right events (List.mem_append_left front hmem), hrest⟩

theorem guarded_obtained {events : List (Event K)}
    (hentries : ∀ entry ∈ conditioning, ∃ value, conditioningValue around record entry.1 = some value ∧
      resolveWithin around.files value around.allowlist = .ok entry.2)
    (hresolved : ResolvedIn around record events) :
    (obtained around transport report polling record fuel conditioning).Guarded
      (fun event => event.isHttp = true)
      fun front => ResolvedIn around record (events ++ front) ∧ ReadIn around record (events ++ front) := by
  unfold obtained
  split_ifs with himage hdynamics hpolicy hinverse
  · refine .of_forall fun front => ⟨hresolved.append front, readIn_of_none ?_⟩
    rw [himage]
    decide
  · exact guarded_requireFilepart hentries hresolved (by rw [hdynamics]; decide)
  · exact guarded_requireFilepart hentries hresolved (by rw [hpolicy]; decide)
  · exact guarded_requireFilepart hentries hresolved (by rw [hinverse]; decide)
  · unfold obtainedVideo videoReference
    by_cases hframe : record.mode = ascii "i2v"
    · simp only [if_pos hframe, Traced.bind_eq_seq, Traced.seq_assoc]
      exact guarded_requireFilepart hentries hresolved (by rw [hframe]; decide)
    · refine .of_forall fun front => ⟨hresolved.append front, readIn_of_none ?_⟩
      simp [requiredKind, hframe, hdynamics, hpolicy, hinverse]

end Obtained

section Storage

variable {K ε : Type} {around : Surroundings} {record : JobRecord}

theorem writeArtifact_of_ok {ext : String} {bytes : Bytes} {path : Text}
    (h : artifactPath around record ext = .ok path) :
    writeArtifact (K := K) (ε := ε) around record ext bytes = ⟨[.write path bytes], .returned path⟩ := by
  unfold writeArtifact
  rw [h]
  rfl

theorem writeArtifact_of_error {ext : String} {bytes : Bytes} {error : PathError}
    (h : artifactPath around record ext = .error error) :
    writeArtifact (K := K) (ε := ε) around record ext bytes = Traced.raise (pathFailure error) := by
  unfold writeArtifact
  rw [h]
  rfl

theorem quiet_storeAll {artifacts : List (String × Bytes)} :
    (storeAll (K := K) (ε := ε) around record artifacts).All fun event => event.isHttp = false := by
  induction artifacts with
  | nil => exact Traced.all_ret _
  | cons artifact artifacts ih =>
      refine Traced.All.seq ?_ fun _ _ => ih.seq fun _ _ => Traced.all_ret _
      cases hpath : artifactPath around record artifact.1 with
      | error error =>
          rw [writeArtifact_of_error hpath]
          exact Traced.all_raise _
      | ok path =>
          rw [writeArtifact_of_ok hpath]
          exact @Traced.all_call _ _ _ (fun event => Event.isHttp event = false) _ rfl (.ok path)

theorem storeAll_returned {artifacts : List (String × Bytes)} {paths : List Text}
    (hplain : Unlinked around record) (hexts : ∀ artifact ∈ artifacts, artifact.1 ∈ artifactExts)
    (h : (storeAll (K := K) (ε := ε) around record artifacts).outcome = .returned paths) :
    writes (storeAll (K := K) (ε := ε) around record artifacts).events = filesOf around record artifacts ∧
      paths = (filesOf around record artifacts).map (·.1) := by
  induction artifacts generalizing paths with
  | nil =>
      cases h
      exact ⟨rfl, rfl⟩
  | cons artifact artifacts ih =>
      obtain ⟨hext, hexts⟩ := List.forall_mem_cons.mp hexts
      cases hpath : artifactPath around record artifact.1 with
      | error error =>
          rw [storeAll, writeArtifact_of_error hpath] at h
          cases h
      | ok path =>
          rw [storeAll, writeArtifact_of_ok hpath] at h ⊢
          obtain ⟨first, hfirst, h⟩ := Traced.outcome_seq_returned.mp h
          obtain ⟨rest, hrest, h⟩ := Traced.outcome_seq_returned.mp h
          cases hfirst
          cases h
          obtain ⟨-, rfl⟩ := (artifactPath_eq_ok hplain hext).mp hpath
          obtain ⟨hwrites, hpaths⟩ := ih hexts hrest
          rw [Traced.events_seq_of_returned rfl, Traced.events_seq_of_returned hrest, hpaths]
          simp only [Traced.events_ret, List.append_nil, writes_append, hwrites]
          exact ⟨rfl, rfl⟩

-- A directory that took one file of the job fails with another one only at a link.
theorem artifactPath_error_untrusted {ext other : String} {path : Text} {error : PathError}
    (hext : ext ∈ artifactExts) (hother : other ∈ artifactExts)
    (hpath : artifactPath around record ext = .ok path)
    (herror : artifactPath around record other = .error error) :
    ¬Unlinked around record ∧ ∃ path allowlist, error = .untrusted path allowlist := by
  constructor
  · intro hplain
    have hother := (artifactPath_eq_ok hplain hother).mpr ⟨((artifactPath_eq_ok hplain hext).mp hpath).1, rfl⟩
    rw [herror] at hother
    cases hother
  · have hencodable : ∀ {e : String}, e ∈ artifactExts →
        encodable (joinPath around.directory.text (artifactName record e)) =
          encodable (directoryFront around) := by
      intro e he
      rw [joinPath_eq, encodable_append (isNameUnit_artifactName record he), directoryFront]
    have hresolve : ∀ e : String, artifactPath around record e = resolveWithin around.files
        (joinPath around.directory.text (artifactName record e)) [around.directory] := fun _ => rfl
    rw [hresolve, resolveWithin_eq, hencodable hext] at hpath
    rw [hresolve, resolveWithin_eq, hencodable hother] at herror
    split_ifs at hpath with hremote hfront
    split_ifs at herror
    all_goals
      cases herror
      exact ⟨_, _, rfl⟩

theorem storeAll_raised_untrusted {artifacts : List (String × Bytes)} {ext : String} {path : Text}
    {error : JobError ε} (hext : ext ∈ artifactExts) (hpath : artifactPath around record ext = .ok path)
    (hexts : ∀ artifact ∈ artifacts, artifact.1 ∈ artifactExts)
    (h : (storeAll (K := K) around record artifacts).outcome = .raised error) :
    ¬Unlinked around record ∧ ∃ path allowlist, error = .untrusted path allowlist := by
  induction artifacts with
  | nil => cases h
  | cons artifact artifacts ih =>
      obtain ⟨hother, hexts⟩ := List.forall_mem_cons.mp hexts
      cases hfirst : artifactPath around record artifact.1 with
      | error fault =>
          rw [storeAll, writeArtifact_of_error hfirst] at h
          cases h
          obtain ⟨hlinked, path, allowlist, rfl⟩ := artifactPath_error_untrusted hext hother hpath hfirst
          exact ⟨hlinked, path, allowlist, rfl⟩
      | ok first =>
          rw [storeAll, writeArtifact_of_ok hfirst] at h
          rcases Traced.outcome_seq_raised.mp h with h | ⟨_, hreturned, h⟩
          · cases h
          rcases Traced.outcome_seq_raised.mp h with h | ⟨_, -, h⟩
          · exact ih hexts h
          · cases h

theorem storeAll_raised {artifacts : List (String × Bytes)} {error : JobError ε}
    (hexts : ∀ artifact ∈ artifacts, artifact.1 ∈ artifactExts)
    (h : (storeAll (K := K) around record artifacts).outcome = .raised error)
    (hplain : ∀ path allowlist, error = .untrusted path allowlist → Unlinked around record) :
    writes (storeAll (K := K) (ε := ε) around record artifacts).events = [] := by
  cases artifacts with
  | nil => rfl
  | cons artifact artifacts =>
      obtain ⟨hext, hexts⟩ := List.forall_mem_cons.mp hexts
      cases hpath : artifactPath around record artifact.1 with
      | error fault =>
          rw [storeAll, writeArtifact_of_error hpath]
          rfl
      | ok path =>
          rw [storeAll, writeArtifact_of_ok hpath] at h
          rcases Traced.outcome_seq_raised.mp h with h | ⟨_, -, h⟩
          · cases h
          rcases Traced.outcome_seq_raised.mp h with h | ⟨_, -, h⟩
          · obtain ⟨hlinked, path, allowlist, rfl⟩ := storeAll_raised_untrusted hext hpath hexts h
            exact absurd (hplain path allowlist rfl) hlinked
          · cases h

variable {transport : Transport ε}

theorem Delivers.exts {artifacts : List (String × Bytes)} (h : Delivers around transport record artifacts) :
    (∀ artifact ∈ artifacts, artifact.1 ∈ artifactExts) ∧ (artifacts.map (·.1)).Nodup ∧
      artifacts ≠ [] := by
  unfold Delivers at h
  split_ifs at h
  · obtain ⟨_, _, _, -, -, -, rfl⟩ := h
    simp [artifactExts]
  · obtain ⟨_, -, rfl⟩ := h
    simp [artifactExts]
  · obtain ⟨_, _, -, -, -, rfl⟩ := h
    simp [artifactExts]
  · obtain ⟨_, -, rfl⟩ := h
    simp [artifactExts]
  · obtain ⟨-, _, -, rfl⟩ := h
    simp [artifactExts]

theorem nodup_filesOf {artifacts : List (String × Bytes)}
    (hexts : ∀ artifact ∈ artifacts, artifact.1 ∈ artifactExts) (hnodup : (artifacts.map (·.1)).Nodup) :
    ((filesOf around record artifacts).map (·.1)).Nodup := by
  have hmap : (filesOf around record artifacts).map (·.1) =
      (artifacts.map (·.1)).map (artifactFile around record) := by simp [filesOf]
  rw [hmap]
  refine hnodup.map_on fun ext hext other hother heq => artifactFile_injective ?_ ?_ heq
  · obtain ⟨artifact, hartifact, rfl⟩ := List.mem_map.mp hext
    exact hexts artifact hartifact
  · obtain ⟨artifact, hartifact, rfl⟩ := List.mem_map.mp hother
    exact hexts artifact hartifact

end Storage

section Worker

variable {K ε : Type} [Field K] [LinearOrder K] (around : Surroundings) (transport : Transport ε)
  (report : K → Except ε Unit) (polling : Polling K) (record : JobRecord) (fuel : ℕ)

-- What follows the artifacts of a job.
def conclude (conditioning : List (String × Text)) (paths : List Text) :
    Traced (Event K) (JobError ε) WorkResult :=
  (Traced.call (.report 1) ((report 1).mapError .sink)).seq fun _ =>
    (Traced.ofExcept ((paramRecord around record).mapError .python)).seq fun params =>
      Traced.ret {
        artifactPath := paths.headD []
        info := resultMeta around record params paths.tail.head? conditioning }

theorem vllmOmniWork_eq :
    vllmOmniWork around transport report polling record fuel =
      (resolveConditioning around record conditioningKeys).seq fun conditioning =>
        if record.mode ∉ supportedModes then
          Traced.raise (fail "unsupported_mode" (ascii "mode " ++ around.shown.text record.mode ++
            ascii " is not served by the vllm-omni adapter"))
        else
          (obtained around transport report polling record fuel conditioning).seq fun artifacts =>
            (storeAll around record artifacts).seq (conclude around report record conditioning) := by
  unfold vllmOmniWork
  simp only [Traced.bind_eq_seq, produce_eq, Traced.seq_assoc, Traced.ret_seq]
  rfl

variable {around transport report polling record fuel}

omit [LinearOrder K] in
theorem writesNothing_conclude {conditioning : List (String × Text)} {paths : List Text} :
    WritesNothing (conclude around report record conditioning paths) :=
  (writesNothing_call rfl _).seq fun _ _ => (Traced.all_ofExcept _).seq fun _ _ => Traced.all_ret _

-- The final report is the only step left that can fail.
omit [LinearOrder K] in
theorem conclude_raised {conditioning : List (String × Text)} {paths : List Text} {error : JobError ε}
    {request : Request} (hrequest : workerRequest around.shown record = .ok request)
    (h : (conclude around report record conditioning paths).outcome = .raised error) :
    ∃ e, error = .sink e := by
  obtain ⟨params, hparams⟩ := paramRecord_of_request hrequest
  unfold conclude at h
  rw [hparams] at h
  cases hreport : report 1 with
  | error e =>
      rw [hreport] at h
      cases h
      exact ⟨e, rfl⟩
  | ok _ =>
      rw [hreport] at h
      cases h

omit [LinearOrder K] in
theorem conclude_returned {conditioning : List (String × Text)} {paths : List Text} {result : WorkResult}
    (h : (conclude around report record conditioning paths).outcome = .returned result) :
    result.artifactPath = paths.headD [] ∧ ∃ params, paramRecord around record = .ok params ∧
      result.info = resultMeta around record params paths.tail.head? conditioning := by
  obtain ⟨_, -, h⟩ := Traced.outcome_seq_returned.mp h
  obtain ⟨params, hparams, h⟩ := Traced.outcome_seq_returned.mp h
  cases h
  exact ⟨rfl, params, mapError_eq_ok.mp (Traced.outcome_ofExcept_returned.mp hparams), rfl⟩

theorem cleared_vllmOmniWork :
    (vllmOmniWork around transport report polling record fuel).Guarded (fun event => event.isHttp = true)
      fun front => ResolvedIn around record front ∧ ReadIn around record front := by
  rw [vllmOmniWork_eq]
  refine Traced.Guarded.seq (.of_none fun event hevent => ?_) fun conditioning hconditioning => ?_
  · rw [(sendsNothing_resolveConditioning conditioningKeys event hevent).1]
    simp
  obtain ⟨hkeys, hentries⟩ := resolveConditioning_returned hconditioning
  by_cases hmode : record.mode ∉ supportedModes
  · rw [if_pos hmode]
    exact .of_none fun event hevent => absurd hevent (by simp)
  · rw [if_neg hmode]
    refine Traced.Guarded.seq (guarded_obtained hentries hkeys) fun artifacts _ => .of_none ?_
    have hquiet : (((storeAll around record artifacts).seq (conclude around report record conditioning) :
        Traced (Event K) (JobError ε) WorkResult)).All fun event => event.isHttp = false := by
      refine Traced.All.seq ?_ fun paths _ => ?_
      · exact quiet_storeAll
      · exact (@Traced.all_call _ _ _ (fun event => Event.isHttp event = false) _ rfl _).seq fun _ _ =>
          (Traced.all_ofExcept _).seq fun _ _ => Traced.all_ret _
    intro event hevent
    rw [hquiet event hevent]
    simp

theorem nothing_vllmOmniWork {error : JobError ε}
    (h : (vllmOmniWork around transport report polling record fuel).outcome = .raised error)
    (hsink : ∀ e, error ≠ .sink e)
    (hplain : ∀ path allowlist, error = .untrusted path allowlist → Unlinked around record) :
    writes (vllmOmniWork around transport report polling record fuel).events = [] := by
  rw [vllmOmniWork_eq] at h ⊢
  have hresolve : WritesNothing (resolveConditioning (K := K) (ε := ε) around record conditioningKeys) :=
    (sendsNothing_resolveConditioning conditioningKeys).writesNothing
  rw [writes_eq_nil]
  refine hresolve.seq fun conditioning hconditioning => ?_
  rcases Traced.outcome_seq_raised.mp h with h | ⟨_, hconditioning', h⟩
  · rw [hconditioning] at h
    cases h
  obtain rfl : conditioning = _ := Outcome.returned.inj (hconditioning.symm.trans hconditioning')
  by_cases hmode : record.mode ∉ supportedModes
  · rw [if_pos hmode]
    exact Traced.all_raise _
  · rw [if_neg hmode] at h ⊢
    refine writesNothing_obtained.seq fun artifacts hartifacts => ?_
    rcases Traced.outcome_seq_raised.mp h with h | ⟨_, hartifacts', h⟩
    · rw [hartifacts] at h
      cases h
    obtain rfl : artifacts = _ := Outcome.returned.inj (hartifacts.symm.trans hartifacts')
    rcases Traced.outcome_seq_raised.mp h with h | ⟨paths, hpaths, h⟩
    · have hwrites := writes_eq_nil.mp
        (storeAll_raised (obtained_delivers (not_not.mp hmode) hartifacts).exts.1 h hplain)
      exact Traced.All.seq hwrites fun _ _ => writesNothing_conclude
    · obtain ⟨request, hrequest⟩ := obtained_request hartifacts
      obtain ⟨e, rfl⟩ := conclude_raised hrequest h
      exact absurd rfl (hsink e)

theorem all_vllmOmniWork {result : WorkResult} (hplain : Unlinked around record)
    (h : (vllmOmniWork around transport report polling record fuel).outcome = .returned result) :
    ∃ artifacts, Delivers around transport record artifacts ∧
      writes (vllmOmniWork around transport report polling record fuel).events =
        filesOf around record artifacts ∧
      some result.artifactPath = ((filesOf around record artifacts).map (·.1)).head? ∧
      ∃ params conditioning, paramRecord around record = .ok params ∧ result.info =
        resultMeta around record params ((filesOf around record artifacts).map (·.1)).tail.head? conditioning := by
  rw [vllmOmniWork_eq] at h ⊢
  obtain ⟨conditioning, hconditioning, h⟩ := Traced.outcome_seq_returned.mp h
  rw [Traced.events_seq_of_returned hconditioning]
  by_cases hmode : record.mode ∉ supportedModes
  · rw [if_pos hmode] at h
    cases h
  rw [if_neg hmode] at h ⊢
  obtain ⟨artifacts, hartifacts, h⟩ := Traced.outcome_seq_returned.mp h
  obtain ⟨paths, hpaths, h⟩ := Traced.outcome_seq_returned.mp h
  have hdelivers := obtained_delivers (not_not.mp hmode) hartifacts
  obtain ⟨hwrites, rfl⟩ := storeAll_returned hplain hdelivers.exts.1 hpaths
  obtain ⟨hpath, params, hparams, hinfo⟩ := conclude_returned h
  refine ⟨artifacts, hdelivers, ?_, ?_, params, conditioning, hparams, hinfo⟩
  rotate_left
  · rw [hpath]
    cases artifacts with
    | nil => exact absurd rfl hdelivers.exts.2.2
    | cons artifact artifacts => rfl
  rw [Traced.events_seq_of_returned hartifacts, Traced.events_seq_of_returned hpaths]
  have hresolve : writes
      (resolveConditioning (K := K) (ε := ε) around record conditioningKeys).events = [] :=
    writes_eq_nil.mpr (sendsNothing_resolveConditioning conditioningKeys).writesNothing
  have hobtained : writes
      (obtained around transport report polling record fuel conditioning).events = [] :=
    writes_eq_nil.mpr writesNothing_obtained
  have hconclude : writes (conclude around report record conditioning
      ((filesOf around record artifacts).map (·.1))).events = [] :=
    writes_eq_nil.mpr writesNothing_conclude
  simp only [writes_append, hresolve, hobtained, hconclude, hwrites, List.nil_append, List.append_nil]

theorem vllmOmniWork_allOrNothing :
    AllOrNothing around transport record (vllmOmniWork around transport report polling record fuel) where
  cleared := cleared_vllmOmniWork
  nothing _ h hsink hplain := nothing_vllmOmniWork h hsink hplain
  all hplain result h := by
    obtain ⟨artifacts, hdelivers, hwrites, hpath, -⟩ := all_vllmOmniWork hplain h
    obtain ⟨hexts, hnodup, -⟩ := hdelivers.exts
    refine ⟨artifacts, hdelivers, hwrites, fun artifact hartifact => ?_, fun path hother => ?_, hpath⟩
    · rw [hwrites]
      exact lookup_writtenTo (nodup_filesOf hexts hnodup) (List.mem_map_of_mem hartifact)
    · rw [hwrites]
      exact lookup_writtenTo_of_notMem hother

end Worker

section Sample

-- One frame in the input directory, and an artifact directory that is empty.
def rolloutAround : Surroundings where
  shown := .quoted
  files := plainFiles
  volume := AList.singleton (ascii "/srv/in/frame.png") [137, 80, 78, 71]
  allowlist := [⟨ascii "/srv/in", rfl⟩]
  directory := ⟨ascii "/srv/artifacts", Volume.artifacts_encodable⟩
  limits := .ok .default
  guessType _ := some (ascii "image/png")
  checkpoint := ascii "nano"

def rolloutRecord : JobRecord :=
  { sampleRecord "policy" with
    params := [(ascii "prompt", .str (ascii "rain")),
      (ascii "image_path", .str (ascii "/srv/in/frame.png"))] }

-- The server completes the job at the first poll, with an action of one step.
def rolloutTransport : Transport Unit :=
  { sampleTransport with
    getJson := fun _ => .ok (200, .dict [(ascii "status", .str (ascii "completed")),
      (ascii "action", .dict [(ascii "data", .list [.list [.int 1]])])]) }

theorem unlinked_rollout : Unlinked rolloutAround rolloutRecord := by
  have hall : artifactExts.all (fun ext => decide (rolloutAround.files.resolve
      (joinPath rolloutAround.directory.text (artifactName rolloutRecord ext)) =
        artifactFile rolloutAround rolloutRecord ext)) = true := by decide +kernel
  exact fun ext hext => of_decide_eq_true (List.all_eq_true.mp hall ext hext)

theorem vllmOmniWork_allOrNothing_rollout :
    ∃ result artifacts, (vllmOmniWork rolloutAround rolloutTransport (fun _ => .ok ())
        (samplePolling 60) rolloutRecord 9).outcome = .returned result ∧
      Delivers rolloutAround rolloutTransport rolloutRecord artifacts ∧
      writes (vllmOmniWork rolloutAround rolloutTransport (fun _ => .ok ()) (samplePolling 60)
        rolloutRecord 9).events = filesOf rolloutAround rolloutRecord artifacts := by
  have hreturned : (match (vllmOmniWork rolloutAround rolloutTransport (fun _ => .ok ())
      (samplePolling 60) rolloutRecord 9).outcome with
    | .returned _ => true
    | _ => false) = true := by decide +kernel
  split at hreturned
  · rename_i result hresult
    obtain ⟨artifacts, hdelivers, hwrites, -⟩ :=
      vllmOmniWork_allOrNothing.all unlinked_rollout result hresult
    exact ⟨result, artifacts, hresult, hdelivers, hwrites⟩
  · cases hreturned

end Sample

end Cosmos3.Worker
