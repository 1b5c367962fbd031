import Cosmos3.Basis.Canon
import Cosmos3.Edge.Routes
import Cosmos3.Jobs.Kept

namespace Cosmos3.Edge

open Basis Basis.Python Jobs Orchestrator

-- `fingerprint`, with the hash as a parameter.
def fingerprint (floats : FloatReader) (sha : Bytes → Text) (mode : Text) (params : Dict) : Text :=
  sha (asciiBytes (dumps floats.toFloatText
    (canon (.dict [(ascii "mode", .str mode), (ascii "params", .dict params)]))))

theorem same_payload_iff {mode mode' : Text} {params params' : Dict} :
    Same (.dict [(ascii "mode", .str mode), (ascii "params", .dict params)])
        (.dict [(ascii "mode", .str mode'), (ascii "params", .dict params')]) ↔
      mode = mode' ∧ Same (.dict params) (.dict params') := by
  have hne : ascii "mode" ≠ ascii "params" := by decide
  constructor
  · rintro ⟨reordered, hperm, hsame⟩
    match reordered, hsame with
    | [(key, value), (key', value')], ⟨hkey, hvalue, hkey', hvalue', _⟩ =>
        have hmem := hperm.mem_iff.mp (List.mem_cons_self)
        have hmem' := hperm.mem_iff.mp (List.mem_cons_of_mem _ List.mem_cons_self)
        subst hkey hkey'
        simp only [List.mem_cons, Prod.mk.injEq, true_and, hne, hne.symm, false_and, List.not_mem_nil,
          or_false, false_or] at hmem hmem'
        subst hmem hmem'
        exact ⟨hvalue, hvalue'⟩
  · rintro ⟨rfl, hsame⟩
    exact ⟨_, .refl _, rfl, rfl, rfl, hsame, trivial⟩

theorem fingerprint_eq_iff {floats : FloatReader} {sha : Bytes → Text} (hsha : Function.Injective sha)
    {mode mode' : Text} {params params' : Dict} (h : Readable floats (.dict params))
    (h' : Readable floats (.dict params')) :
    fingerprint floats sha mode params = fingerprint floats sha mode' params' ↔
      mode = mode' ∧ Same (.dict params) (.dict params') := by
  have hpayload : ∀ (mode : Text) {params : Dict}, Readable floats (.dict params) →
      Readable floats (.dict [(ascii "mode", .str mode), (ascii "params", .dict params)]) := by
    intro mode params hparams
    have hne : ascii "mode" ≠ ascii "params" := by decide
    exact ⟨by simp [hne], trivial, hparams, trivial⟩
  have hascii : ∀ v, IsAscii (dumps floats.toFloatText v) := by
    intro v
    rw [← dumpsStyled_spaced floats.toFloatText 0]
    exact isAscii_dumpsStyled _ _ 0 v
  rw [fingerprint, fingerprint, hsha.eq_iff, asciiBytes_inj (hascii _) (hascii _),
    dumps_canon_iff (hpayload mode h) (hpayload mode' h'), same_payload_iff]

abbrev CallId := Nat

-- A request as it comes to `submit_and_enqueue`, with the id and the time that the
-- store draws if it needs them. Its params are a JSON object.
structure Arrival (floats : FloatReader) where
  host : Host
  submit : JobSubmit
  key : Option Text
  id : JobId
  createdAt : Text
  readable : Readable floats (.dict submit.params)

-- One call of `submit_and_enqueue`: between the store and the queue, or over.
inductive CallPc (floats : FloatReader) where
  | absent
  | enqueuing (arrival : Arrival floats) (record : JobRecord)
  | created (arrival : Arrival floats) (record : JobRecord)
  | replayed (arrival : Arrival floats) (record : JobRecord)
  | refused (arrival : Arrival floats) (error : EdgeError)

-- `puts` is the history of what was put into the queue.
structure Desk (floats : FloatReader) where
  runner : Jobs.State
  calls : CallId → CallPc floats
  puts : List JobId

inductive DeskAction (floats : FloatReader) where
  | call (i : CallId) (arrival : Arrival floats)
  | enqueue (i : CallId)
  | runner (action : Jobs.Action)

def isSubmit : Jobs.Action → Bool
  | .loop (.submit _) => true
  | _ => false

namespace Desk

variable {floats : FloatReader} (sha : Bytes → Text)

def initial : Desk floats := ⟨Jobs.initial, fun _ => .absent, []⟩

def setCall (s : Desk floats) (i : CallId) (pc : CallPc floats) : Desk floats :=
  { s with calls := Function.update s.calls i pc }

def submission (arrival : Arrival floats) (plane : Plane) (params : Dict) : Submission :=
  ⟨arrival.submit.mode, plane, params, arrival.key, arrival.id, arrival.createdAt⟩

-- The store knows the job, the queue does not yet.
def create (s : Desk floats) (i : CallId) (arrival : Arrival floats) (store : JobStore)
    (record : JobRecord) : Desk floats :=
  { s with
    runner := { s.runner with
      store := store
      history := Function.update s.runner.history record.id [⟨1, JobStatus.queued.value, []⟩] } }.setCall i
    (.enqueuing arrival record)

-- `submit_and_enqueue`, up to `runner.submit`.
def call (s : Desk floats) (i : CallId) (arrival : Arrival floats) : Desk floats :=
  match prepare arrival.host arrival.submit with
  | .error error => s.setCall i (.refused arrival error)
  | .ok (plane, params) =>
    match s.runner.store.submit (fingerprint floats sha) (submission arrival plane params) with
    | .error error => s.setCall i (.refused arrival (.store error))
    | .ok (_, record, true) => s.setCall i (.replayed arrival record)
    | .ok (store, record, false) => s.create i arrival store record

-- `runner.submit`
def enqueue (s : Desk floats) (i : CallId) (arrival : Arrival floats) (record : JobRecord) :
    Desk floats :=
  { s with
    runner := { s.runner with queue := s.runner.queue ++ [record.id] }
    puts := s.puts ++ [record.id] }.setCall i (.created arrival record)

-- The id is fresh, and the event loop's thread is at no section of the runner.
def step (s : Desk floats) : DeskAction floats → Option (Desk floats)
  | .call i arrival =>
      if s.runner.busy.isNone ∧ (s.runner.store.jobs arrival.id).isNone then
        match s.calls i with
        | .absent => some (s.call sha i arrival)
        | _ => none
      else none
  | .enqueue i =>
      if s.runner.busy.isNone then
        match s.calls i with
        | .enqueuing arrival record => some (s.enqueue i arrival record)
        | _ => none
      else none
  | .runner action =>
      if isSubmit action then none
      else (Jobs.step (fingerprint floats sha) s.runner action).map fun runner =>
        { s with runner := runner }

end Desk

end Cosmos3.Edge
