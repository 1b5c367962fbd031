import Cosmos3.Edge.Routes

namespace Cosmos3.Edge

open Basis Basis.Python Jobs Orchestrator

def rawActions : Text := ascii "raw_actions"

-- The length of a row, when it is a list.
def rowWidth : Value → Option ℤ
  | .list items => some items.length
  | _ => none

-- A non-empty list of rows, each a list of the width of the embodiment.
def Rectangular (shown : Shown) (params : Dict) : Prop :=
  ∃ rows width, params.get rawActions = some (.list rows) ∧
    rawActionDimOf (domainName shown params) = some width ∧ rows ≠ [] ∧
    ∀ row ∈ rows, rowWidth row = some width

-- The typed route: every row is as long as the first one. `/v1/jobs`: the tensor is
-- there, and every row is as long as the number that came with it.
def Request.Even : Request → Prop
  | .jobs submit => ∃ rows, submit.params.get rawActions = some (.list rows) ∧ rows ≠ [] ∧
      ∀ row ∈ rows, rowWidth row = givenInt submit.params .rawActionWidth
  | .generation _ _ => True
  | .action _ body => ∀ rows, body.rawActions = some rows →
      ∀ row ∈ rows, rowWidth row = rows.head?.bind rowWidth

section Routes

variable {environ : Text → Option Text} {host : Host}

-- What the typed route makes of its tensor.
theorem get_actionBodyParams_rawActions {body : ActionBody} {params : Dict}
    (h : actionBodyParams environ host body = .ok params) :
    params.get rawActions = body.rawActions.map .list ∧
      params.get (ascii "raw_action_width") = body.rawActions.map rawActionWidth := by
  have hrows : rawActions ≠ ascii "raw_action_width" := by decide
  unfold actionBodyParams at h
  obtain ⟨label, -, h⟩ := bind_eq_ok.mp h
  cases h
  constructor
  · rw [get_setSome hrows, rawActions, get_setSome_self]
    simp (disch := decide) only [get_setSome]
    exact Option.or_none
  · rw [get_setSome_self]
    simp (disch := decide) only [get_setSome]
    exact Option.or_none

-- The width that the typed route passes on is that of the first row.
theorem givenInt_actionBodyParams {body : ActionBody} {params : Dict}
    (h : actionBodyParams environ host body = .ok params) :
    givenInt params .rawActionWidth = body.rawActions.bind fun rows => rows.head?.bind rowWidth := by
  have hwidth : params.get ActionField.rawActionWidth.key = body.rawActions.map rawActionWidth :=
    (get_actionBodyParams_rawActions h).2
  unfold givenInt given
  rw [hwidth]
  cases body.rawActions with
  | none => rfl
  | some rows =>
      cases rows with
      | nil => rfl
      | cons row rows => cases row <;> rfl

-- What comes of an accepted submission in this mode.
theorem rectangular_iff_of_submit {submit : JobSubmit} {plane : Plane} {params : Dict}
    (hprepare : prepare host submit = .ok (plane, params))
    (hmode : submit.mode = ActionMode.forwardDynamics.value) :
    (∃ width, givenInt submit.params .rawActionWidth = some width) ∧
      (Rectangular host.shown params ↔
        ∃ rows, submit.params.get rawActions = some (.list rows) ∧ rows ≠ [] ∧
          ∀ row ∈ rows, rowWidth row = givenInt submit.params .rawActionWidth) := by
  obtain ⟨plane', hvalidate, hprepare⟩ := bind_eq_ok.mp hprepare
  obtain ⟨params', hrecord, hprepare⟩ := bind_eq_ok.mp hprepare
  cases hprepare
  have hm : actionModeOf submit.mode = .ok .forwardDynamics := by
    rw [hmode]
    rfl
  obtain ⟨width, hdim, hwidth⟩ := width_of_validateAction (accepted_spec hvalidate hm) rfl
  have hget : ∀ key : Text, (∀ kind : MediaKind, key ≠ kind.value ++ ascii "_path") →
      params.get key = submit.params.get key :=
    fun _ hkey => get_recordParams hvalidate hrecord hkey
  have hrows : params.get rawActions = submit.params.get rawActions :=
    hget _ fun kind => by cases kind <;> decide
  have hdomain : domainName host.shown params = domainName host.shown submit.params := by
    unfold domainName
    rw [hget _ fun kind => by cases kind <;> decide]
  have hdim : rawActionDimOf (domainName host.shown submit.params) = some width := hdim
  have hwidth : givenInt submit.params .rawActionWidth = some width := hwidth
  refine ⟨⟨width, hwidth⟩, ?_⟩
  unfold Rectangular
  rw [hrows, hdomain, hdim, hwidth]
  constructor
  · rintro ⟨rows, other, hget, hother, hne, hall⟩
    exact ⟨rows, hget, hne, fun row hrow => (hall row hrow).trans hother.symm⟩
  · rintro ⟨rows, hget, hne, hall⟩
    exact ⟨rows, width, hget, rfl, hne, hall⟩

theorem rectangular_iff (environ : Text → Option Text) (host : Host) (request : Request)
    (plane : Plane) (params : Dict)
    (haccepted : request.prepare environ host =
      .ok (ActionMode.forwardDynamics.value, plane, params)) :
    Rectangular host.shown params ↔ request.Even := by
  obtain ⟨submit, hsubmit, h⟩ := bind_eq_ok.mp haccepted
  obtain ⟨⟨plane', params'⟩, hprepare, h⟩ := bind_eq_ok.mp h
  simp only [Except.ok.injEq, Prod.mk.injEq] at h
  obtain ⟨hmode, rfl, rfl⟩ := h
  obtain ⟨⟨width, hwidth⟩, hiff⟩ := rectangular_iff_of_submit hprepare hmode
  rw [hiff]
  cases request with
  | jobs submitted =>
      cases hsubmit
      exact Iff.rfl
  | generation route body =>
      unfold Request.submit GenerationRoute.submit at hsubmit
      dsimp only at hsubmit
      split at hsubmit
      · cases hsubmit
      · obtain ⟨params, -, hsubmit⟩ := bind_eq_ok.mp hsubmit
        cases hsubmit
        have hne : route.mode ≠ ActionMode.forwardDynamics.value := by cases route <;> decide
        exact absurd hmode hne
  | action mode body =>
      unfold Request.submit actionSubmit at hsubmit
      obtain ⟨params, hparams, hsubmit⟩ := bind_eq_ok.mp hsubmit
      cases hsubmit
      have hget : params.get rawActions = body.rawActions.map .list :=
        (get_actionBodyParams_rawActions hparams).1
      have hgiven := givenInt_actionBodyParams hparams
      have hwidth : givenInt params .rawActionWidth = some width := hwidth
      show (∃ rows, params.get rawActions = some (.list rows) ∧ rows ≠ [] ∧
        ∀ row ∈ rows, rowWidth row = givenInt params .rawActionWidth) ↔ _
      rw [hget, hgiven]
      cases hbody : body.rawActions with
      | none =>
          rw [hbody] at hgiven
          cases hwidth.symm.trans hgiven
      | some rows =>
          -- the width came from a first row, so there is one
          have hne : rows ≠ [] := by
            rintro rfl
            rw [hbody] at hgiven
            cases hwidth.symm.trans hgiven
          simp [Request.Even, hbody, hne]

end Routes

-- Two rows, the second one shorter than the first.
def raggedBody : ActionBody where
  domainName := ascii "av"
  chunkSize := 17
  rawActions := some [.list (List.replicate 9 (.int 0)), .list [.int 0]]
  imagePath := some (ascii "/srv/artifacts/c.png")

-- No tensor at all, and the width that one should have.
def declaredSubmit : JobSubmit where
  mode := ActionMode.forwardDynamics.value
  params := [(ascii "domain_name", .str (ascii "av")), (ascii "chunk_size", .int 17),
    (ascii "raw_action_width", .int 9), (ascii "image_path", .str (ascii "/srv/artifacts/c.png"))]
  media := none

def evenBody : ActionBody where
  domainName := ascii "av"
  chunkSize := 17
  rawActions := some [.list (List.replicate 9 (.int 0)), .list (List.replicate 9 (.int 1))]
  imagePath := some (ascii "/srv/artifacts/c.png")

theorem rectangular_iff_evenBody :
    ∃ params,
      Request.prepare (fun _ => none) sampleHost (.action .forwardDynamics evenBody) =
        .ok (ActionMode.forwardDynamics.value, .generation, params) ∧
      (Rectangular sampleHost.shown params ↔ (Request.action .forwardDynamics evenBody).Even) :=
  ⟨_, rfl, rectangular_iff (fun _ => none) sampleHost (.action .forwardDynamics evenBody) .generation _
    rfl⟩

-- Both are accepted.
theorem ragged_accepted :
    ∃ ragged declared,
      Request.prepare (fun _ => none) sampleHost (.action .forwardDynamics raggedBody) =
        .ok (ActionMode.forwardDynamics.value, .generation, ragged) ∧
      Request.prepare (fun _ => none) sampleHost (.jobs declaredSubmit) =
        .ok (ActionMode.forwardDynamics.value, .generation, declared) ∧
      ragged.get rawActions = raggedBody.rawActions.map .list ∧ declared.get rawActions = none ∧
      ¬Rectangular sampleHost.shown ragged ∧ ¬Rectangular sampleHost.shown declared := by
  refine ⟨_, _, rfl, rfl, rfl, rfl, ?_, ?_⟩
  · rintro ⟨rows, width, hrows, -, -, hall⟩
    have hrows : some (Value.list [.list (List.replicate 9 (.int 0)), .list [.int 0]]) =
        some (.list rows) := hrows
    cases hrows
    have hlong := hall (.list (List.replicate 9 (.int 0))) (by simp)
    have hshort := hall (.list [.int 0]) (by simp)
    exact absurd (hlong.trans hshort.symm) (by decide)
  · rintro ⟨rows, width, hrows, -⟩
    cases hrows

end Cosmos3.Edge
