import Cosmos3.Basis.Checks
import Cosmos3.Basis.Dumps
import Cosmos3.Basis.Utf8

namespace Cosmos3.Worker

open Basis Basis.Python

abbrev Bytes := List UInt8

-- 64 MiB
def maxFrame : Nat := 64 * 1024 * 1024

-- A stream that ends, and how much of it each read hands out.
structure Reader where
  bytes : Bytes
  cut : Nat → Nat
  reads : Nat

-- At most `n` bytes, and at least one unless the stream is at its end.
def Reader.read (r : Reader) (n : Nat) : Bytes × Reader :=
  let size := min n (r.cut r.reads + 1)
  (r.bytes.take size, { r with bytes := r.bytes.drop size, reads := r.reads + 1 })

inductive Failure where
  | framing
  -- not UTF-8, or not JSON
  | body
  | python (exn : Exn)
deriving DecidableEq, Repr

-- `struct.pack(">I", n)` and back.
def pack (n : Nat) : Bytes :=
  [(n / 16777216).toUInt8, (n / 65536).toUInt8, (n / 256).toUInt8, n.toUInt8]

def unpack (bytes : Bytes) : Nat := bytes.foldl (fun n byte => 256 * n + byte.toNat) 0

-- The chunks read so far are in front of what is still to be read.
def readExact (r : Reader) (n : Nat) : Except Failure (Bytes × Reader) :=
  if n = 0 then .ok ([], r)
  else
    if (r.read n).1 = [] then .error .framing
    else (readExact (r.read n).2 (n - (r.read n).1.length)).map fun (rest, r') =>
      ((r.read n).1 ++ rest, r')
termination_by n
decreasing_by
  have := List.length_pos_iff.mpr ‹_›
  omega

section Codec

variable (dumps : Value → Bytes) (loads : Bytes → Option Value)

def frame (obj : Value) : Option Bytes :=
  let body := dumps obj
  if body.length < 2 ^ 32 then some (pack body.length ++ body) else none

def unframe (r : Reader) : Except Failure (Value × Reader) := do
  let (header, r) ← readExact r 4
  let length := unpack header
  if maxFrame < length then throw .framing
  let (body, r) ← readExact r length
  match loads body with
  | some msg => .ok (msg, r)
  | none => throw .body

end Codec

-- Operands of an arithmetic operator: a truth value counts as 0 or 1.
def numberOf : Value → Except Exn Number
  | .bool value => .ok (.finite (if value then 1 else 0))
  | .int n => .ok (.finite n)
  | .float x => .ok x
  | _ => .error .typeError

def positive : Number → Bool
  | .finite q => 0 < q
  | .infinity => true
  | .nan | .negInfinity => false

def integerOf : Value → Option ℤ
  | .bool value => some (if value then 1 else 0)
  | .int n => some n
  | _ => none

-- What is computed with beside a float: an integer is made one, if it has one.
def asFloat (value : Value) : Except Exn Number :=
  match integerOf value with
  | some n =>
    if -floatBound < n ∧ n < floatBound then .ok (.finite (nearestFloat n)) else .error .overflowError
  | none => numberOf value

-- A quotient of floats that is too large is infinite, one of integers is an error.
def floatQuotient : Number → Number → Number
  | .finite p, .finite q =>
    match toFloat (p / q) with
    | .finite q => .finite (nearestFloat q)
    | x => x
  | .finite _, _ => .finite 0
  | .nan, _ => .nan
  | x, .finite _ => x
  | _, _ => .nan

def intQuotient (p q : ℤ) : Except Exn Number :=
  if -floatBound < (p / q : ℚ) ∧ (p / q : ℚ) < floatBound then .ok (.finite (nearestFloat (p / q)))
  else .error .overflowError

-- `step / total` for a total above zero.
def quotient (step total : Value) : Except Exn Number :=
  match integerOf step, integerOf total with
  | some p, some q => intQuotient p q
  | _, _ => do
    let p ← asFloat step
    let q ← asFloat total
    .ok (floatQuotient p q)

-- A message of the worker: what a progress message reports, and none for a result.
def relay : Value → Except Exn (Option (List Number))
  | .dict msg =>
    match Dict.get msg (ascii "type") with
    | some (.str type) =>
      if type = ascii "progress" then
        match Dict.get msg (ascii "step"), Dict.get msg (ascii "total") with
        | some step, some total => do
          let size ← numberOf total
          if positive size then
            let fraction ← quotient step total
            pure (some [fraction])
          else pure (some [])
        | _, _ => .error .keyError
      else .ok none
    | _ => .ok none
  | _ => .error .attributeError

section Exact

theorem read_append (r : Reader) (n : Nat) :
    (r.read n).1 ++ (r.read n).2.bytes = r.bytes ∧ (r.read n).1.length ≤ n := by
  refine ⟨List.take_append_drop _ _, ?_⟩
  rw [Reader.read, List.length_take]
  omega

theorem read_ne_nil {r : Reader} {n : Nat} (hn : n ≠ 0) (hbytes : r.bytes ≠ []) :
    (r.read n).1 ≠ [] := by
  have hlength := List.length_pos_iff.mpr hbytes
  rw [Reader.read, ← List.length_pos_iff, List.length_take]
  omega

-- However the reads cut the stream, exactly the bytes asked for are consumed, or
-- the stream has ended before them.
theorem readExact_eq (r : Reader) (n : Nat) :
    (n ≤ r.bytes.length → ∃ r', readExact r n = .ok (r.bytes.take n, r') ∧
      r'.bytes = r.bytes.drop n) ∧
    (r.bytes.length < n → readExact r n = .error .framing) := by
  induction n using Nat.strongRecOn generalizing r with
  | _ n ih =>
      rw [readExact]
      by_cases hn : n = 0
      · rw [if_pos hn]
        refine ⟨fun _ => ⟨r, ?_⟩, fun hlt => ?_⟩
        · simp [hn]
        · omega
      · rw [if_neg hn]
        obtain ⟨happend, hle⟩ := read_append r n
        by_cases hchunk : (r.read n).1 = []
        · rw [if_pos hchunk]
          have hbytes : r.bytes = [] := by
            by_contra hne
            exact read_ne_nil hn hne hchunk
          refine ⟨fun hle => ?_, fun _ => rfl⟩
          rw [hbytes, List.length_nil] at hle
          omega
        · rw [if_neg hchunk]
          have hpos := List.length_pos_iff.mpr hchunk
          have hlength : r.bytes.length = (r.read n).1.length + (r.read n).2.bytes.length := by
            rw [← List.length_append, happend]
          obtain ⟨hexact, hshort⟩ := ih (n - (r.read n).1.length) (by omega) (r.read n).2
          refine ⟨fun henough => ?_, fun hfew => ?_⟩
          · obtain ⟨r', hrest, hbytes⟩ := hexact (by omega)
            refine ⟨r', ?_, ?_⟩
            · rw [hrest]
              simp only [Except.map]
              rw [← happend, List.take_append, List.take_of_length_le hle]
            · rw [hbytes, ← happend, List.drop_append, List.drop_eq_nil_of_le hle, List.nil_append]
          · rw [hshort (by omega)]
            rfl

theorem readExact_ok {r r' : Reader} {n : Nat} {bytes : Bytes}
    (h : readExact r n = .ok (bytes, r')) : n ≤ r.bytes.length ∧ r'.bytes = r.bytes.drop n := by
  obtain ⟨hexact, hshort⟩ := readExact_eq r n
  by_cases hle : n ≤ r.bytes.length
  · obtain ⟨r'', hr, hbytes⟩ := hexact hle
    rw [hr] at h
    cases h
    exact ⟨hle, hbytes⟩
  · rw [hshort (by omega)] at h
    cases h

theorem unpack_pack {n : Nat} (hn : n < 2 ^ 32) : unpack (pack n) = n := by
  simp only [unpack, pack, List.foldl_cons, List.foldl_nil, UInt8.toNat_ofNat', Nat.toUInt8]
  omega

end Exact

section Frames

variable {dumps : Value → Bytes} {loads : Bytes → Option Value}

theorem frame_eq_some {obj : Value} {bytes : Bytes} (h : frame dumps obj = some bytes) :
    (dumps obj).length < 2 ^ 32 ∧ bytes = pack (dumps obj).length ++ dumps obj := by
  unfold frame at h
  dsimp only at h
  split at h
  · rename_i hlt
    exact ⟨hlt, (Option.some.inj h).symm⟩
  · cases h

theorem unframe_lt {r r' : Reader} {msg : Value} (h : unframe loads r = .ok (msg, r')) :
    r'.bytes.length < r.bytes.length := by
  unfold unframe at h
  cases hheader : readExact r 4 with
  | error e => simp [hheader, bind, Except.bind] at h
  | ok first =>
      obtain ⟨header, mid⟩ := first
      obtain ⟨hfour, hmid⟩ := readExact_ok hheader
      simp only [hheader, bind, Except.bind] at h
      split at h
      · cases h
      · cases hbody : readExact mid (unpack header) with
        | error e => simp [hbody] at h
        | ok second =>
            obtain ⟨body, last⟩ := second
            obtain ⟨-, hlast⟩ := readExact_ok hbody
            simp only [hbody] at h
            split at h
            · cases h
              rw [hlast, hmid, List.length_drop, List.length_drop]
              omega
            · cases h

-- A whole frame at the head of the stream is read and nothing behind it is.
theorem unframe_frame {obj : Value} {bytes : Bytes} (hframe : frame dumps obj = some bytes)
    (hsize : (dumps obj).length ≤ maxFrame) (hloads : loads (dumps obj) = some obj) {r : Reader}
    {following : Bytes} (hr : r.bytes = bytes ++ following) :
    ∃ r', unframe loads r = .ok (obj, r') ∧ r'.bytes = following := by
  obtain ⟨hbound, rfl⟩ := frame_eq_some hframe
  obtain ⟨mid, hheader, hmid⟩ := (readExact_eq r 4).1 (by rw [hr]; simp [pack])
  have hfour : r.bytes.take 4 = pack (dumps obj).length := by
    rw [hr]
    simp [pack]
  have hbody : mid.bytes = dumps obj ++ following := by
    rw [hmid, hr]
    simp [pack]
  obtain ⟨last, hread, hlast⟩ := (readExact_eq mid (dumps obj).length).1 (by rw [hbody]; simp)
  refine ⟨last, ?_, ?_⟩
  · unfold unframe
    rw [hheader, hfour]
    simp only [bind, Except.bind, unpack_pack hbound, if_neg (Nat.not_lt.mpr hsize)]
    rw [hread, hbody, List.take_left]
    simp only [hloads]
  · rw [hlast, hbody, List.drop_left]

-- The stream ends inside the frame.
theorem unframe_short {obj : Value} {bytes : Bytes} (hframe : frame dumps obj = some bytes)
    (hsize : (dumps obj).length ≤ maxFrame) {r : Reader} (hr : r.bytes <+: bytes)
    (hlt : r.bytes.length < bytes.length) : unframe loads r = .error .framing := by
  obtain ⟨hbound, rfl⟩ := frame_eq_some hframe
  unfold unframe
  by_cases hfew : r.bytes.length < 4
  · rw [(readExact_eq r 4).2 hfew]
    rfl
  · obtain ⟨mid, hheader, hmid⟩ := (readExact_eq r 4).1 (by omega)
    have hfour : r.bytes.take 4 = pack (dumps obj).length := by
      rw [List.prefix_iff_eq_take.mp hr, List.take_take, Nat.min_eq_left (by omega)]
      simp [pack]
    have hmissing : mid.bytes.length < (dumps obj).length := by
      rw [hmid, List.length_drop]
      rw [List.length_append] at hlt
      have : (pack (dumps obj).length).length = 4 := rfl
      omega
    rw [hheader, hfour]
    simp only [bind, Except.bind, unpack_pack hbound, if_neg (Nat.not_lt.mpr hsize)]
    rw [(readExact_eq mid _).2 hmissing]

end Frames

section Reply

variable (loads : Bytes → Option Value)

-- What was reported, and the result message or the exception.
def readReply (r : Reader) : List Number × Except Failure (Value × Reader) :=
  match _h : unframe loads r with
  | .error failure => ([], .error failure)
  | .ok (msg, r') =>
    match relay msg with
    | .error exn => ([], .error (.python exn))
    | .ok none => ([], .ok (msg, r'))
    | .ok (some reports) =>
      let rest := readReply r'
      (reports ++ rest.1, rest.2)
termination_by r.bytes.length
decreasing_by exact unframe_lt ‹_›

end Reply

section Messages

-- What a worker sends while it works: its fields hold two numbers.
structure Progress where
  fields : Dict
  step : Value
  total : Value
  type_eq : Dict.get fields (ascii "type") = some (.str (ascii "progress"))
  step_eq : Dict.get fields (ascii "step") = some step
  total_eq : Dict.get fields (ascii "total") = some total
  step_number : ∃ x, numberOf step = .ok x
  total_number : ∃ x, numberOf total = .ok x

-- And at the end: anything that is not a progress message.
structure Result where
  fields : Dict
  type_ne : Dict.get fields (ascii "type") ≠ some (.str (ascii "progress"))

def Progress.message (p : Progress) : Value := .dict p.fields

def Result.message (r : Result) : Value := .dict r.fields

def Progress.counts (p : Progress) : Bool :=
  match numberOf p.total with
  | .ok total => positive total
  | .error _ => false

def Progress.fraction (p : Progress) : Except Exn Number := quotient p.step p.total

-- The fractions of the messages that count, if each has one.
def fractions (progress : List Progress) : Except Exn (List Number) :=
  (progress.filter Progress.counts).mapM Progress.fraction

def Progress.reports (p : Progress) : Except Exn (List Number) :=
  if p.counts then p.fraction.map ([·]) else .ok []

-- A message that counts has no fraction, and the ones before it have these.
def Overflows (progress : List Progress) (reports : List Number) : Prop :=
  ∃ front p back, progress = front ++ p :: back ∧ fractions front = .ok reports ∧
    p.counts = true ∧ p.fraction = .error .overflowError

theorem relay_progress (p : Progress) : relay p.message = p.reports.map some := by
  obtain ⟨total, htotal⟩ := p.total_number
  simp only [relay, Progress.message, p.type_eq, p.step_eq, p.total_eq, if_true, htotal, bind, Except.bind,
    Progress.reports, Progress.counts]
  cases positive total with
  | false => rfl
  | true =>
      rw [if_pos rfl, if_pos rfl, Progress.fraction]
      cases quotient p.step p.total <;> rfl

theorem relay_result (r : Result) : relay r.message = .ok none := by
  unfold relay Result.message
  dsimp only
  split
  · rename_i type htype
    rw [if_neg]
    rintro rfl
    exact r.type_ne htype
  · rfl

-- A number that is none beside a float is an integer without a float.
theorem asFloat_error {value : Value} {exn : Exn} (hvalue : ∃ x, numberOf value = .ok x)
    (h : asFloat value = .error exn) : exn = .overflowError := by
  obtain ⟨x, hx⟩ := hvalue
  unfold asFloat at h
  split at h
  · split_ifs at h
    exact (Except.error.inj h).symm
  · rw [hx] at h
    cases h

theorem fraction_error {p : Progress} {exn : Exn} (h : p.fraction = .error exn) : exn = .overflowError := by
  unfold Progress.fraction quotient at h
  split at h
  · unfold intQuotient at h
    split_ifs at h
    exact (Except.error.inj h).symm
  · rcases bind_eq_error.mp h with hstep | ⟨_, -, h⟩
    · exact asFloat_error p.step_number hstep
    · rcases bind_eq_error.mp h with htotal | ⟨_, -, h⟩
      · exact asFloat_error p.total_number htotal
      · cases h

theorem reports_error {p : Progress} {exn : Exn} :
    p.reports = .error exn ↔ exn = .overflowError ∧ p.counts = true ∧ p.fraction = .error exn := by
  rw [Progress.reports]
  cases hcounts : p.counts with
  | false => simp
  | true =>
      cases hfraction : p.fraction with
      | ok x => simp [Except.map]
      | error other =>
          obtain rfl := fraction_error hfraction
          simp [Except.map, eq_comm]

theorem fractions_cons (p : Progress) (progress : List Progress) :
    fractions (p :: progress) = p.reports.bind fun first => (fractions progress).map (first ++ ·) := by
  rw [fractions, List.filter_cons, Progress.reports]
  cases p.counts with
  | false =>
      rw [if_neg Bool.false_ne_true, if_neg Bool.false_ne_true, ← fractions]
      cases fractions progress <;> rfl
  | true =>
      rw [if_pos rfl, if_pos rfl, List.mapM_cons, ← fractions]
      cases p.fraction with
      | error exn => rfl
      | ok x => cases fractions progress <;> rfl

theorem fractions_cons_ok {p : Progress} {progress : List Progress} {reports : List Number} :
    fractions (p :: progress) = .ok reports ↔ ∃ first rest, p.reports = .ok first ∧
      fractions progress = .ok rest ∧ reports = first ++ rest := by
  rw [fractions_cons]
  constructor
  · intro h
    obtain ⟨first, hfirst, h⟩ := bind_eq_ok.mp h
    obtain ⟨rest, hrest, rfl⟩ := map_eq_ok.mp h
    exact ⟨first, rest, hfirst, hrest, rfl⟩
  · rintro ⟨first, rest, hfirst, hrest, rfl⟩
    rw [hfirst, hrest]
    rfl

theorem overflows_cons {p : Progress} {progress : List Progress} {reports : List Number} :
    Overflows (p :: progress) reports ↔ p.reports = .error .overflowError ∧ reports = [] ∨
      ∃ first rest, p.reports = .ok first ∧ Overflows progress rest ∧ reports = first ++ rest := by
  constructor
  · rintro ⟨front, q, back, heq, hfront, hq⟩
    cases front with
    | nil =>
        obtain ⟨rfl, -⟩ := List.cons.inj heq
        exact .inl ⟨reports_error.mpr ⟨rfl, hq⟩, (Except.ok.inj hfront).symm⟩
    | cons p' front =>
        obtain ⟨rfl, rfl⟩ := List.cons.inj heq
        obtain ⟨first, rest, hfirst, hrest, rfl⟩ := fractions_cons_ok.mp hfront
        exact .inr ⟨first, rest, hfirst, ⟨front, q, back, rfl, hrest, hq⟩, rfl⟩
  · rintro (⟨hp, rfl⟩ | ⟨first, rest, hfirst, ⟨front, q, back, rfl, hrest, hq⟩, rfl⟩)
    · exact ⟨[], p, progress, rfl, rfl, (reports_error.mp hp).2⟩
    · exact ⟨p :: front, q, back, rfl, fractions_cons_ok.mpr ⟨first, rest, hfirst, hrest, rfl⟩, hq⟩

-- Either each message that counts has its fraction, or there is a first that has none.
theorem fractions_error {progress : List Progress} {exn : Exn} :
    fractions progress = .error exn ↔ exn = .overflowError ∧ ∃ reports, Overflows progress reports := by
  induction progress with
  | nil =>
      refine iff_of_false (by rintro ⟨⟩) ?_
      rintro ⟨-, _, front, p, back, heq, -⟩
      exact List.cons_ne_nil _ _ (List.append_eq_nil_iff.mp heq.symm).2
  | cons p progress ih =>
      simp only [overflows_cons]
      cases hp : p.reports with
      | error other =>
          obtain ⟨rfl, -⟩ := reports_error.mp hp
          rw [fractions_cons, hp]
          simp [Except.bind, eq_comm]
      | ok first =>
          have hcons : fractions (p :: progress) = .error exn ↔ fractions progress = .error exn := by
            rw [fractions_cons, hp]
            cases fractions progress <;> simp [Except.bind, Except.map]
          rw [hcons, ih]
          simp

variable (dumps : Value → Bytes) (loads : Bytes → Option Value)

-- The frames of a conversation, one after the other.
def stream (progress : List Progress) (result : Result) : Option Bytes :=
  ((progress.map Progress.message ++ [result.message]).mapM (frame dumps)).map List.flatten

theorem stream_nil {result : Result} {bytes : Bytes} (h : stream dumps [] result = some bytes) :
    frame dumps result.message = some bytes := by
  simpa [stream, Option.bind_eq_some_iff] using h

theorem stream_cons {p : Progress} {progress : List Progress} {result : Result} {bytes : Bytes}
    (h : stream dumps (p :: progress) result = some bytes) :
    ∃ first rest, frame dumps p.message = some first ∧ stream dumps progress result = some rest ∧
      bytes = first ++ rest := by
  simp only [stream, List.map_cons, List.cons_append, List.mapM_cons, Option.map_eq_some_iff,
    Option.bind_eq_bind, Option.bind_eq_some_iff, Option.pure_def, Option.some.injEq] at h
  obtain ⟨frames, ⟨first, hfirst, rest, hrest, rfl⟩, rfl⟩ := h
  exact ⟨first, rest.flatten, hfirst, by rw [stream, hrest]; rfl, rfl⟩

variable {dumps loads}

-- The frames of a conversation exist where every message of it fits.
theorem frame_of_size {obj : Value} (h : (dumps obj).length ≤ maxFrame) :
    ∃ bytes, frame dumps obj = some bytes := by
  refine ⟨_, if_pos ?_⟩
  have : maxFrame < 2 ^ 32 := by decide
  omega

theorem frames_of_size {objs : List Value} (h : ∀ obj ∈ objs, (dumps obj).length ≤ maxFrame) :
    ∃ frames, objs.mapM (frame dumps) = some frames := by
  induction objs with
  | nil => exact ⟨[], rfl⟩
  | cons obj objs ih =>
      obtain ⟨hobj, hobjs⟩ := List.forall_mem_cons.mp h
      obtain ⟨bytes, hbytes⟩ := frame_of_size hobj
      obtain ⟨frames, hframes⟩ := ih hobjs
      exact ⟨bytes :: frames, by rw [List.mapM_cons, hbytes, hframes]; rfl⟩

theorem readReply_message {msg : Value} {r r' : Reader} (h : unframe loads r = .ok (msg, r')) :
    readReply loads r = match relay msg with
      | .error exn => ([], .error (.python exn))
      | .ok none => ([], .ok (msg, r'))
      | .ok (some reports) => (reports ++ (readReply loads r').1, (readReply loads r').2) := by
  rw [readReply]
  split
  · rename_i heq
    rw [h] at heq
    cases heq
  · rename_i heq
    rw [h] at heq
    cases heq
    rfl

theorem readReply_progress {p : Progress} {r r' : Reader} {first : List Number}
    (h : unframe loads r = .ok (p.message, r')) (hfirst : p.reports = .ok first) :
    readReply loads r = (first ++ (readReply loads r').1, (readReply loads r').2) := by
  rw [readReply_message h, relay_progress, hfirst]
  rfl

theorem readReply_overflow {p : Progress} {r r' : Reader} {exn : Exn}
    (h : unframe loads r = .ok (p.message, r')) (hp : p.reports = .error exn) :
    readReply loads r = ([], .error (.python exn)) := by
  rw [readReply_message h, relay_progress, hp]
  rfl

theorem readReply_result {result : Result} {r r' : Reader}
    (h : unframe loads r = .ok (result.message, r')) :
    readReply loads r = ([], .ok (result.message, r')) := by
  rw [readReply_message h, relay_result]

theorem readReply_error {failure : Failure} {r : Reader} (h : unframe loads r = .error failure) :
    readReply loads r = ([], .error failure) := by
  rw [readReply]
  split
  · rename_i heq
    rw [h] at heq
    cases heq
    rfl
  · rename_i heq
    rw [h] at heq
    cases heq

-- The bodies of these messages fit in a frame and are read as they were written.
structure Transmits (dumps : Value → Bytes) (loads : Bytes → Option Value) (obj : Value) : Prop where
  size : (dumps obj).length ≤ maxFrame
  loads : loads (dumps obj) = some obj

section Stream

variable {progress : List Progress} {result : Result} {bytes : Bytes} {r : Reader}
  (hprogress : ∀ p ∈ progress, Transmits dumps loads p.message)
  (hresult : Transmits dumps loads result.message) (hstream : stream dumps progress result = some bytes)

include hprogress hresult hstream

theorem readReply_stream {reports : List Number} (hreports : fractions progress = .ok reports)
    {following : Bytes} (hr : r.bytes = bytes ++ following) :
    ∃ r', readReply loads r = (reports, .ok (result.message, r')) ∧ r'.bytes = following := by
  induction progress generalizing r bytes reports with
  | nil =>
      obtain rfl := Except.ok.inj hreports
      obtain ⟨r', hread, hrest⟩ := unframe_frame (stream_nil dumps hstream) hresult.size hresult.loads hr
      exact ⟨r', readReply_result hread, hrest⟩
  | cons p progress ih =>
      obtain ⟨first, rest, hfirst, hrest, rfl⟩ := stream_cons dumps hstream
      obtain ⟨here, there, hhere, hthere, rfl⟩ := fractions_cons_ok.mp hreports
      have hp := hprogress p List.mem_cons_self
      rw [List.append_assoc] at hr
      obtain ⟨mid, hread, hmid⟩ := unframe_frame hfirst hp.size hp.loads hr
      obtain ⟨last, hreply, hlast⟩ :=
        ih (fun q hq => hprogress q (List.mem_cons_of_mem p hq)) hrest hthere hmid
      refine ⟨last, ?_, hlast⟩
      rw [readReply_progress hread hhere, hreply]

-- The reply is never reached.
omit hresult in
theorem readReply_overflows {reports : List Number} (hover : Overflows progress reports)
    {following : Bytes} (hr : r.bytes = bytes ++ following) :
    readReply loads r = (reports, .error (.python .overflowError)) := by
  induction progress generalizing r bytes reports with
  | nil =>
      obtain ⟨front, p, back, heq, -⟩ := hover
      exact absurd (List.append_eq_nil_iff.mp heq.symm).2 (List.cons_ne_nil _ _)
  | cons p progress ih =>
      obtain ⟨first, rest, hfirst, hrest, rfl⟩ := stream_cons dumps hstream
      have hp := hprogress p List.mem_cons_self
      rw [List.append_assoc] at hr
      obtain ⟨mid, hread, hmid⟩ := unframe_frame hfirst hp.size hp.loads hr
      rcases overflows_cons.mp hover with ⟨hreports, rfl⟩ | ⟨here, there, hhere, hthere, rfl⟩
      · exact readReply_overflow hread hreports
      · have hreply := ih (fun q hq => hprogress q (List.mem_cons_of_mem p hq)) hrest hthere hmid
        rw [readReply_progress hread hhere, hreply]

-- The cut is in the first frame, or the first frame is whole and the cut is behind it. The
-- messages in front of the cut have been reported, up to one that has no fraction.
theorem readReply_cut (hr : r.bytes <+: bytes) (hne : r.bytes ≠ bytes) :
    ∃ seen reports, seen <+: progress ∧ fractions seen = .ok reports ∧
      (readReply loads r = (reports, .error .framing) ∨ Overflows progress reports ∧
        readReply loads r = (reports, .error (.python .overflowError))) := by
  induction progress generalizing r bytes with
  | nil =>
      have hlt := lt_of_le_of_ne hr.length_le fun heq => hne (hr.eq_of_length heq)
      have hread : unframe loads r = .error .framing :=
        unframe_short (stream_nil dumps hstream) hresult.size hr hlt
      exact ⟨[], [], List.nil_prefix, rfl, .inl (readReply_error hread)⟩
  | cons p progress ih =>
      obtain ⟨first, rest, hfirst, hrest, rfl⟩ := stream_cons dumps hstream
      have hp := hprogress p List.mem_cons_self
      by_cases hshort : r.bytes.length < first.length
      · have hprefix : r.bytes <+: first :=
          List.prefix_of_prefix_length_le hr (List.prefix_append first rest) (by omega)
        have hread : unframe loads r = .error .framing :=
          unframe_short hfirst hp.size hprefix hshort
        exact ⟨[], [], List.nil_prefix, rfl, .inl (readReply_error hread)⟩
      · obtain ⟨behind, hbehind⟩ : first <+: r.bytes :=
          List.prefix_of_prefix_length_le (List.prefix_append first rest) hr (by omega)
        obtain ⟨mid, hread, hmid⟩ := unframe_frame hfirst hp.size hp.loads hbehind.symm
        cases hreports : p.reports with
        | error exn =>
            obtain ⟨rfl, -⟩ := reports_error.mp hreports
            exact ⟨[], [], List.nil_prefix, rfl,
              .inr ⟨overflows_cons.mpr (.inl ⟨hreports, rfl⟩), readReply_overflow hread hreports⟩⟩
        | ok here =>
            rw [← hbehind] at hr hne
            have hcut : mid.bytes <+: rest := by
              rw [hmid]
              exact (List.prefix_append_right_inj first).mp hr
            have hmissing : mid.bytes ≠ rest := by
              rintro rfl
              exact hne (by rw [hmid])
            obtain ⟨seen, there, hseen, hthere, hreply⟩ :=
              ih (fun q hq => hprogress q (List.mem_cons_of_mem p hq)) hrest hcut hmissing
            refine ⟨p :: seen, here ++ there, List.cons_prefix_cons.mpr ⟨rfl, hseen⟩,
              fractions_cons_ok.mpr ⟨here, there, hreports, hthere, rfl⟩, ?_⟩
            rw [readReply_progress hread hreports]
            rcases hreply with hreply | ⟨hover, hreply⟩
            · exact .inl (by rw [hreply])
            · exact .inr ⟨overflows_cons.mpr (.inr ⟨here, there, hreports, hover, rfl⟩), by rw [hreply]⟩

end Stream

theorem read_reply_frames {progress : List Progress} {result : Result}
    (hprogress : ∀ p ∈ progress, Transmits dumps loads p.message)
    (hresult : Transmits dumps loads result.message) {bytes : Bytes}
    (hstream : stream dumps progress result = some bytes) (r : Reader) :
    (∀ reports, fractions progress = .ok reports →
      (∀ following, r.bytes = bytes ++ following →
        ∃ r', readReply loads r = (reports, .ok (result.message, r')) ∧ r'.bytes = following) ∧
      (r.bytes <+: bytes → r.bytes ≠ bytes → ∃ seen, readReply loads r = (seen, .error .framing))) ∧
    (∀ exn, fractions progress = .error exn → exn = .overflowError ∧ ∃ reports, Overflows progress reports ∧
      (∀ following, r.bytes = bytes ++ following → readReply loads r = (reports, .error (.python exn))) ∧
      (r.bytes <+: bytes → r.bytes ≠ bytes → ∃ seen,
        readReply loads r = (seen, .error .framing) ∨ readReply loads r = (seen, .error (.python exn)))) := by
  refine ⟨fun reports hreports => ⟨fun following hr => ?_, fun hr hne => ?_⟩, fun exn hexn => ?_⟩
  · exact readReply_stream hprogress hresult hstream hreports hr
  · obtain ⟨-, seen, -, -, hreply | ⟨hover, -⟩⟩ := readReply_cut hprogress hresult hstream hr hne
    · exact ⟨seen, hreply⟩
    · rw [fractions_error.mpr ⟨rfl, seen, hover⟩] at hreports
      cases hreports
  · obtain ⟨rfl, reports, hover⟩ := fractions_error.mp hexn
    refine ⟨rfl, reports, hover, fun following hr => ?_, fun hr hne => ?_⟩
    · exact readReply_overflows hprogress hstream hover hr
    · obtain ⟨-, seen, -, -, hreply⟩ := readReply_cut hprogress hresult hstream hr hne
      exact ⟨seen, hreply.imp_right And.right⟩

-- A codec that is enough for one tick and the answer.
def tick (step total : ℤ) : Progress where
  fields := [(ascii "type", .str (ascii "progress")), (ascii "step", .int step), (ascii "total", .int total)]
  step := .int step
  total := .int total
  type_eq := rfl
  step_eq := rfl
  total_eq := rfl
  step_number := ⟨_, rfl⟩
  total_number := ⟨_, rfl⟩

def sampleResult : Result where
  fields := [(ascii "type", .str (ascii "result")), (ascii "ok", .bool true)]
  type_ne := by
    intro h
    cases h

def sampleDumps (obj : Value) : Bytes := asciiBytes (Python.dumps .ofFractions obj)

def sampleLoads (p : Progress) (body : Bytes) : Option Value :=
  if body = sampleDumps p.message then some p.message
  else if body = sampleDumps sampleResult.message then some sampleResult.message
  else none

theorem sample_transmits {p : Progress} (hsize : (sampleDumps p.message).length ≤ maxFrame)
    (hne : sampleDumps sampleResult.message ≠ sampleDumps p.message) :
    (∀ q ∈ [p], Transmits sampleDumps (sampleLoads p) q.message) ∧
      Transmits sampleDumps (sampleLoads p) sampleResult.message ∧
      ∃ bytes, stream sampleDumps [p] sampleResult = some bytes := by
  have hp : Transmits sampleDumps (sampleLoads p) p.message := ⟨hsize, if_pos rfl⟩
  have hresult : Transmits sampleDumps (sampleLoads p) sampleResult.message :=
    ⟨by decide, (if_neg hne).trans (if_pos rfl)⟩
  obtain ⟨frames, hframes⟩ := @frames_of_size sampleDumps [p.message, sampleResult.message]
    (by simpa using ⟨hp.size, hresult.size⟩)
  exact ⟨by simpa using hp, hresult, frames.flatten, congrArg (Option.map List.flatten) hframes⟩

-- One byte at a time, with a byte of another frame behind.
theorem read_reply_frames_sample :
    ∃ bytes r', stream sampleDumps [tick 1 3] sampleResult = some bytes ∧
      readReply (sampleLoads (tick 1 3)) ⟨bytes ++ [7], fun _ => 0, 0⟩ =
        ([.finite (6004799503160661 / 2 ^ 54)], .ok (sampleResult.message, r')) ∧ r'.bytes = [7] := by
  obtain ⟨hprogress, hresult, bytes, hstream⟩ := @sample_transmits (tick 1 3) (by decide) (by decide)
  have hthird : fractions [tick 1 3] = .ok [.finite (6004799503160661 / 2 ^ 54)] := by decide +kernel
  obtain ⟨r', hreply, hrest⟩ :=
    ((read_reply_frames hprogress hresult hstream ⟨bytes ++ [7], fun _ => 0, 0⟩).1 _ hthird).1 [7] rfl
  exact ⟨bytes, r', hstream, hreply, hrest⟩

-- A step whose fraction is no float: the bytes are those of a tick and an answer, but
-- neither is the one reported nor the other returned.
theorem read_reply_frames_not_reported :
    ∃ bytes, stream sampleDumps [tick (10 ^ 400) 1] sampleResult = some bytes ∧
      (∀ p ∈ [tick (10 ^ 400) 1], Transmits sampleDumps (sampleLoads (tick (10 ^ 400) 1)) p.message) ∧
      Transmits sampleDumps (sampleLoads (tick (10 ^ 400) 1)) sampleResult.message ∧
      (tick (10 ^ 400) 1).counts = true ∧
      readReply (sampleLoads (tick (10 ^ 400) 1)) ⟨bytes, fun _ => 0, 0⟩ =
        ([], .error (.python .overflowError)) := by
  obtain ⟨hprogress, hresult, bytes, hstream⟩ := @sample_transmits (tick (10 ^ 400) 1) (by decide +kernel)
    (by decide +kernel)
  have hover : Overflows [tick (10 ^ 400) 1] [] := ⟨[], _, [], rfl, rfl, rfl, by decide +kernel⟩
  exact ⟨bytes, hstream, hprogress, hresult, rfl,
    readReply_overflows hprogress hstream hover (List.append_nil bytes).symm⟩

end Messages

end Cosmos3.Worker
