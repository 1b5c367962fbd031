import Cosmos3.Edge.Routes
import Cosmos3.Lease.System

namespace Cosmos3.Edge

open Basis Basis.Python Jobs Orchestrator

section Labels

variable (environ : Text → Option Text)

-- The label that a request carries.
def Request.asked : Request → Option Value
  | .jobs submit => given submit.params (ascii "checkpoint")
  | .generation _ body => body.checkpoint.map .str
  | .action _ body => body.checkpoint.map .str

-- It carries one, and not the deployed one; the empty text is none.
def Request.Foreign (request : Request) : Prop :=
  ∃ value, request.asked = some value ∧ value ≠ .str [] ∧ value ≠ .str (deployedCheckpoint environ)

-- The label in the record of its job.
def Request.carried : Request → Option Value
  | .jobs submit => given submit.params (ascii "checkpoint")
  | .generation _ _ | .action _ _ => some (.str (deployedCheckpoint environ))

def Request.IsTyped : Request → Prop
  | .jobs _ => False
  | .generation _ _ | .action _ _ => True

-- No label, the empty one, or the deployed one.
def Settled (carried : Option Value) : Prop :=
  carried = none ∨ carried = some (.str []) ∨ carried = some (.str (deployedCheckpoint environ))

variable {environ} {host : Host} {shown : Shown}

theorem resolveCheckpoint_eq_ok {checkpoint : Option Text} {label : Text}
    (h : resolveCheckpoint environ shown checkpoint = .ok label) :
    label = deployedCheckpoint environ ∧
      ∀ text, checkpoint = some text → text = [] ∨ text = deployedCheckpoint environ := by
  unfold resolveCheckpoint at h
  cases checkpoint with
  | none =>
      cases h
      exact ⟨rfl, nofun⟩
  | some text =>
      dsimp only at h
      split at h
      · cases h
        exact ⟨rfl, fun t ht => .inl (Option.some.inj ht ▸ ‹_›)⟩
      · split at h
        · cases h
        · split at h
          · cases h
          · cases h
            exact ⟨rfl, fun t ht => .inr (Option.some.inj ht ▸ not_not.mp ‹_›)⟩

-- A label that is not the deployed one is answered with 422.
theorem resolveCheckpoint_foreign {checkpoint : Option Text} {value : Value}
    (hasked : checkpoint.map .str = some value) (hne : value ≠ .str [])
    (hforeign : value ≠ .str (deployedCheckpoint environ)) :
    ∃ exc, resolveCheckpoint environ shown checkpoint = .error exc ∧
      (toErrorResponse shown exc).1 = 422 := by
  obtain ⟨text, rfl, rfl⟩ := Option.map_eq_some_iff.mp hasked
  have hne : text ≠ [] := fun h => hne (by rw [h])
  have hforeign : text ≠ deployedCheckpoint environ := fun h => hforeign (by rw [h])
  unfold resolveCheckpoint
  dsimp only
  rw [if_neg hne]
  by_cases hknown : text ∉ knownCheckpoints
  · rw [if_pos hknown]
    exact ⟨_, rfl, rfl⟩
  · rw [if_neg hknown, if_pos hforeign]
    exact ⟨_, rfl, rfl⟩

theorem get_generationParams {body : GenerationBody} {numFrames : Option ℤ} {generateSound : Bool}
    {params : Dict} (h : generationParams environ host body numFrames generateSound = .ok params) :
    params.get (ascii "checkpoint") = some (.str (deployedCheckpoint environ)) ∧
      ∀ text, body.checkpoint = some text → text = [] ∨ text = deployedCheckpoint environ := by
  unfold generationParams at h
  obtain ⟨label, hlabel, h⟩ := bind_eq_ok.mp h
  obtain ⟨rfl, hasked⟩ := resolveCheckpoint_eq_ok hlabel
  refine ⟨?_, hasked⟩
  cases h
  cases generateSound <;> cases body.negativePrompt.isNone <;>
    simp (disch := decide) only [if_true, if_false, Bool.false_eq_true, Dict.get_set_of_ne, get_setSome]
  all_goals rfl

theorem get_actionBodyParams {body : ActionBody} {params : Dict}
    (h : actionBodyParams environ host body = .ok params) :
    params.get (ascii "checkpoint") = some (.str (deployedCheckpoint environ)) ∧
      ∀ text, body.checkpoint = some text → text = [] ∨ text = deployedCheckpoint environ := by
  unfold actionBodyParams at h
  obtain ⟨label, hlabel, h⟩ := bind_eq_ok.mp h
  obtain ⟨rfl, hasked⟩ := resolveCheckpoint_eq_ok hlabel
  refine ⟨?_, hasked⟩
  cases h
  simp (disch := decide) only [get_setSome]
  rfl

theorem given_of_str {p : Dict} {key text : Text} (h : p.get key = some (.str text)) :
    given p key = some (.str text) := by
  rw [given, h]

theorem not_foreign_of_text {request : Request} {checkpoint : Option Text}
    (hasked : request.asked = checkpoint.map .str)
    (h : ∀ text, checkpoint = some text → text = [] ∨ text = deployedCheckpoint environ) :
    ¬request.Foreign environ := by
  rintro ⟨value, hvalue, hne, hforeign⟩
  rw [hasked, Option.map_eq_some_iff] at hvalue
  obtain ⟨text, htext, rfl⟩ := hvalue
  rcases h text htext with rfl | rfl
  · exact hne rfl
  · exact hforeign rfl

-- What the record of a request carries once its body is a submission.
theorem carried_of_submit {request : Request} {submit : JobSubmit}
    (h : request.submit environ host = .ok submit) :
    given submit.params (ascii "checkpoint") = request.carried environ ∧
      (request.IsTyped → ¬request.Foreign environ) := by
  cases request with
  | jobs submitted =>
      cases h
      exact ⟨rfl, False.elim⟩
  | generation route body =>
      unfold Request.submit GenerationRoute.submit at h
      dsimp only at h
      split at h
      · cases h
      · obtain ⟨params, hparams, h⟩ := bind_eq_ok.mp h
        cases h
        obtain ⟨hget, hasked⟩ := get_generationParams hparams
        exact ⟨given_of_str hget, fun _ => not_foreign_of_text rfl hasked⟩
  | action mode body =>
      unfold Request.submit actionSubmit at h
      obtain ⟨params, hparams, h⟩ := bind_eq_ok.mp h
      cases h
      obtain ⟨hget, hasked⟩ := get_actionBodyParams hparams
      exact ⟨given_of_str hget, fun _ => not_foreign_of_text rfl hasked⟩

-- Storing inline media leaves the label alone.
theorem carried_of_prepare {request : Request} {mode : Text} {plane : Plane} {params : Dict}
    (h : request.prepare environ host = .ok (mode, plane, params)) :
    plane = .generation ∧ given params (ascii "checkpoint") = request.carried environ ∧
      (request.IsTyped → ¬request.Foreign environ) := by
  obtain ⟨submit, hsubmit, h⟩ := bind_eq_ok.mp h
  obtain ⟨⟨plane', params'⟩, hprepare, h⟩ := bind_eq_ok.mp h
  cases h
  obtain ⟨plane', hvalidate, hprepare⟩ := bind_eq_ok.mp hprepare
  obtain ⟨params', hrecord, hprepare⟩ := bind_eq_ok.mp hprepare
  cases hprepare
  obtain ⟨hcarried, htyped⟩ := carried_of_submit hsubmit
  have hget : params.get (ascii "checkpoint") = submit.params.get (ascii "checkpoint") :=
    get_recordParams hvalidate hrecord fun kind => by cases kind <;> decide
  refine ⟨(accepted_reads hvalidate).2.1, ?_, htyped⟩
  unfold given
  rw [hget]
  exact hcarried

theorem settled_of_not_foreign {request : Request} (h : ¬request.Foreign environ) :
    Settled environ (request.carried environ) := by
  cases request with
  | jobs submit =>
      show Settled environ (given submit.params (ascii "checkpoint"))
      cases hgiven : given submit.params (ascii "checkpoint") with
      | none => exact .inl rfl
      | some value =>
          by_cases hne : value = .str []
          · exact .inr (.inl (by rw [hne]))
          · by_cases hdeployed : value = .str (deployedCheckpoint environ)
            · exact .inr (.inr (by rw [hdeployed]))
            · exact absurd ⟨value, hgiven, hne, hdeployed⟩ h
  | generation route body => exact .inr (.inr rfl)
  | action mode body => exact .inr (.inr rfl)

theorem not_foreign_of_settled {request : Request}
    (htyped : request.IsTyped → ¬request.Foreign environ)
    (h : Settled environ (request.carried environ)) : ¬request.Foreign environ := by
  cases request with
  | jobs submit =>
      rintro ⟨value, hvalue, hne, hforeign⟩
      have hcarried : (Request.jobs submit).carried environ = some value := hvalue
      rcases h with h | h | h
      · cases hcarried.symm.trans h
      · exact hne (Option.some.inj (hcarried.symm.trans h))
      · exact hforeign (Option.some.inj (hcarried.symm.trans h))
  | generation route body => exact htyped trivial
  | action mode body => exact htyped trivial

end Labels

section Theorem

variable {environ : Text → Option Text} {label : Value → String}

theorem checkpoint_eq (params : Dict) :
    Lease.checkpoint label params = (given params (ascii "checkpoint")).map label := by
  unfold Lease.checkpoint given
  cases params.get (ascii "checkpoint") with
  | none => rfl
  | some value => cases value <;> rfl

-- Two labels of the three kinds are the same when their names are.
theorem eq_of_map_eq (hlabel : label (.str []) ≠ label (.str (deployedCheckpoint environ)))
    {first second : Option Value} (hfirst : Settled environ first) (hsecond : Settled environ second)
    (h : first.map label = second.map label) : first = second := by
  rcases hfirst with rfl | rfl | rfl <;> rcases hsecond with rfl | rfl | rfl
  · rfl
  · cases h
  · cases h
  · cases h
  · rfl
  · exact absurd (Option.some.inj h) hlabel
  · cases h
  · exact absurd (Option.some.inj h).symm hlabel
  · rfl

theorem planAcquire_eq_none_iff {resident requested : ResidencyId} :
    planAcquire (some resident) requested = ⟨none, none⟩ ↔ resident = requested := by
  constructor
  · intro h
    by_contra hne
    rw [planAcquire, if_neg (by simpa using hne)] at h
    cases h
  · rintro rfl
    exact planAcquire_self resident

-- A typed route answers a foreign label with 422.
theorem refused_of_foreign {host : Host} {request : Request} (htyped : request.IsTyped)
    (hforeign : request.Foreign environ) :
    ∃ exc, request.prepare environ host = .error exc ∧ (toErrorResponse host.shown exc).1 = 422 := by
  have herror : ∀ {exc : EdgeError}, request.submit environ host = .error exc →
      request.prepare environ host = .error exc := by
    intro exc h
    rw [Request.prepare, h]
    rfl
  obtain ⟨value, hvalue, hne, hdeployed⟩ := hforeign
  cases request with
  | jobs submit => exact htyped.elim
  | generation route body =>
      have hbody : body.checkpoint.map .str = some value := hvalue
      obtain ⟨exc, hexc, hstatus⟩ :=
        @resolveCheckpoint_foreign _ host.shown _ _ hbody hne hdeployed
      by_cases himage : route = .i2v ∧ body.image.isNone ∧ body.imagePath.getD [] = []
      · have hsubmit : Request.submit environ host (.generation route body) =
            .error (failMedia .invalidParam
              (ascii "i2v requires a conditioning image ('image' or 'image_path')")) :=
          if_pos himage
        exact ⟨_, herror hsubmit, rfl⟩
      · refine ⟨exc, herror ?_, hstatus⟩
        unfold Request.submit GenerationRoute.submit
        dsimp only
        rw [if_neg himage, generationParams, hexc]
        rfl
  | action mode body =>
      have hbody : body.checkpoint.map .str = some value := hvalue
      obtain ⟨exc, hexc, hstatus⟩ :=
        @resolveCheckpoint_foreign _ host.shown _ _ hbody hne hdeployed
      refine ⟨exc, herror ?_, hstatus⟩
      rw [Request.submit, actionSubmit, actionBodyParams, hexc]
      rfl

-- Two accepted requests acquire one identity, and neither was for another checkpoint.
def OneIdentity (label : Value → String) (environ : Text → Option Text) (first second : Request)
    (record₁ record₂ : JobRecord) : Prop :=
  Lease.residencyOf label record₁ = Lease.residencyOf label record₂ ∧
    planAcquire (some (Lease.residencyOf label record₁)) (Lease.residencyOf label record₂) =
      ⟨none, none⟩ ∧
    ¬first.Foreign environ ∧ ¬second.Foreign environ

theorem one_identity_iff (label : Value → String) (environ : Text → Option Text)
    (hlabel : label (.str []) ≠ label (.str (deployedCheckpoint environ)))
    (first second : Request) (host₁ host₂ : Host) (record₁ record₂ : JobRecord)
    (hfirst : first.prepare environ host₁ = .ok (record₁.mode, record₁.plane, record₁.params))
    (hsecond : second.prepare environ host₂ = .ok (record₂.mode, record₂.plane, record₂.params)) :
    (OneIdentity label environ first second record₁ record₂ ↔
      first.carried environ = second.carried environ ∧ Settled environ (first.carried environ)) ∧
    ∀ (request : Request) (host : Host), request.IsTyped → request.Foreign environ →
      ∃ exc, request.prepare environ host = .error exc ∧
        (toErrorResponse host.shown exc).1 = 422 := by
  obtain ⟨hplane₁, hcarried₁, htyped₁⟩ := carried_of_prepare hfirst
  obtain ⟨hplane₂, hcarried₂, htyped₂⟩ := carried_of_prepare hsecond
  have hresidency : Lease.residencyOf label record₁ = Lease.residencyOf label record₂ ↔
      (first.carried environ).map label = (second.carried environ).map label := by
    unfold Lease.residencyOf
    rw [hplane₁, hplane₂]
    dsimp only
    rw [checkpoint_eq, checkpoint_eq, hcarried₁, hcarried₂, ResidencyId.mk.injEq]
    exact and_iff_right rfl
  refine ⟨?_, fun request host htyped hforeign => refused_of_foreign htyped hforeign⟩
  unfold OneIdentity
  rw [planAcquire_eq_none_iff, hresidency]
  constructor
  · rintro ⟨hsame, -, hfirst, hsecond⟩
    have hsettled := settled_of_not_foreign hfirst
    exact ⟨eq_of_map_eq hlabel hsettled (settled_of_not_foreign hsecond) hsame, hsettled⟩
  · rintro ⟨hsame, hsettled⟩
    rw [hsame]
    refine ⟨rfl, rfl, not_foreign_of_settled htyped₁ hsettled, not_foreign_of_settled htyped₂ ?_⟩
    rw [← hsame]
    exact hsettled

end Theorem

-- A label is named by itself.
def sampleLabel : Value → String
  | .str text => String.ofList (text.map fun u => Char.ofNat u.toNat)
  | _ => "other"

def sampleTyped : Request := .generation .t2v { prompt := ascii "rain" }

def sampleJobs : Request := .jobs ⟨ascii "t2v", [(ascii "prompt", .str (ascii "rain"))], none⟩

def foreignJobs : Request := .jobs ⟨ascii "t2v", [(ascii "checkpoint", .str (ascii "int4"))], none⟩

def recordWith (params : Dict) : JobRecord where
  id := ascii "job"
  mode := ascii "t2v"
  plane := .generation
  status := .queued
  createdAt := []
  params := params

def typedParams : Dict :=
  [(ascii "prompt", .str (ascii "rain")), (ascii "seed", .int 123),
    (ascii "checkpoint", .str (ascii "fp8"))]

theorem one_identity_iff_sampleTyped :
    (OneIdentity sampleLabel (fun _ => none) sampleTyped sampleJobs (recordWith typedParams)
        (recordWith [(ascii "prompt", .str (ascii "rain"))]) ↔
      sampleTyped.carried (fun _ => none) = sampleJobs.carried (fun _ => none) ∧
        Settled (fun _ => none) (sampleTyped.carried fun _ => none)) ∧
    ∀ (request : Request) (host : Host), request.IsTyped → request.Foreign (fun _ => none) →
      ∃ exc, request.prepare (fun _ => none) host = .error exc ∧
        (toErrorResponse host.shown exc).1 = 422 :=
  one_identity_iff sampleLabel (fun _ => none) (by decide) sampleTyped sampleJobs sampleHost sampleHost
    (recordWith typedParams) (recordWith [(ascii "prompt", .str (ascii "rain"))]) rfl rfl

-- The typed route names the deployed checkpoint, `/v1/jobs` none or any.
theorem two_identities :
    ∃ typed unlabelled foreign,
      sampleTyped.prepare (fun _ => none) sampleHost = .ok (ascii "t2v", .generation, typed) ∧
      sampleJobs.prepare (fun _ => none) sampleHost = .ok (ascii "t2v", .generation, unlabelled) ∧
      foreignJobs.prepare (fun _ => none) sampleHost = .ok (ascii "t2v", .generation, foreign) ∧
      Lease.residencyOf sampleLabel (recordWith typed) = ⟨.generation, some "fp8"⟩ ∧
      Lease.residencyOf sampleLabel (recordWith unlabelled) = ⟨.generation, none⟩ ∧
      Lease.residencyOf sampleLabel (recordWith foreign) = ⟨.generation, some "int4"⟩ :=
  ⟨_, _, _, rfl, rfl, rfl, rfl, rfl, rfl⟩

end Cosmos3.Edge
