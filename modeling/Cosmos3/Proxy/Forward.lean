import Cosmos3.Basis.Checks
import Cosmos3.Basis.Percent
import Mathlib.Data.List.Induction

namespace Cosmos3.Proxy

open Basis

section Urls

def slash : UInt16 := 47

def question : UInt16 := 63

def hash : UInt16 := 35

-- `base.replace(/\/+$/, "")`
def trimmedBase (base : Text) : Text := (base.reverse.dropWhile (· = slash)).reverse

def buildUpstreamUrl (base : Text) (segments : List Text) (search : Text) : Option Text :=
  (segments.mapM Percent.encodeURIComponent).map fun path =>
    trimmedBase base ++ [slash] ++ [slash].intercalate path ++ search

end Urls

section Headers

-- As `Headers` iterates: the names are in lower case.
structure Headers where
  entries : List (Text × Text)

def Headers.set (headers : Headers) (name value : Text) : Headers :=
  ⟨headers.entries.filter (·.1 ≠ name) ++ [(name, value)]⟩

def Headers.get (headers : Headers) (name : Text) : List Text :=
  (headers.entries.filter (·.1 = name)).map (·.2)

def HOP_BY_HOP : List Text :=
  ["connection", "keep-alive", "proxy-authenticate", "proxy-authorization", "te", "trailer", "transfer-encoding",
    "upgrade", "content-length", "host"].map ascii

def RESPONSE_STRIP : List Text := HOP_BY_HOP ++ [ascii "content-encoding"]

def copied (strip : List Text) (incoming : Headers) : Headers :=
  incoming.entries.foldl (fun out entry => if entry.1 ∈ strip then out else out.set entry.1 entry.2) ⟨[]⟩

def filterForwardHeaders (incoming : Headers) : Headers := copied HOP_BY_HOP incoming

def filterResponseHeaders (upstream : Headers) : Headers :=
  (copied RESPONSE_STRIP upstream).set (ascii "x-accel-buffering") (ascii "no")

end Headers

section Exchange

-- A body as it is read: its chunks, and whether it ends or breaks off.
structure Stream where
  chunks : List (List UInt8)
  broken : Bool

inductive Event where
  | enqueue (chunk : List UInt8)
  | close
  | error

-- One `pull` of the response's stream, of which nothing is asked once it has ended.
def pull (reader : Stream) : Event × Option Stream :=
  match reader.chunks with
  | chunk :: chunks => (.enqueue chunk, some { reader with chunks := chunks })
  | [] => (if reader.broken then .error else .close, none)

-- What the browser has got after a number of pulls.
def pulls : ℕ → Option Stream → List Event
  | 0, _ | _, none => []
  | n + 1, some reader => (pull reader).1 :: pulls n (pull reader).2

structure Request where
  method : Text
  search : Text
  headers : Headers
  body : Option Stream

-- What `fetch` is called with.
structure Sent where
  url : Text
  method : Text
  headers : Headers
  body : Option Stream

structure Upstream where
  status : ℕ
  headers : Headers
  body : Option Stream

def toUpperCase (t : Text) : Text := t.map fun u => if 97 ≤ u ∧ u ≤ 122 then u - 32 else u

def maskedGatewayError : Upstream where
  status := 502
  headers := ⟨[(ascii "content-type", ascii "application/json")]⟩
  body := some ⟨[asciiBytes (123 :: (ascii "\"error\":\"api_unreachable\"" ++ [125]))], false⟩

def sent (base : Text) (req : Request) (segments : List Text) : Option Sent :=
  (buildUpstreamUrl base segments req.search).map fun url =>
    { url
      method := toUpperCase req.method
      headers := filterForwardHeaders req.headers
      body := if toUpperCase req.method ∉ [ascii "GET", ascii "HEAD"] then req.body else none }

-- None where the URL cannot be built, which throws; of `fetch`, where it throws.
def forward (base : Text) (fetch : Sent → Option Upstream) (req : Request) (segments : List Text) :
    Option Upstream :=
  (sent base req segments).map fun call =>
    match fetch call with
    | none => maskedGatewayError
    | some upstream => { upstream with headers := filterResponseHeaders upstream.headers }

end Exchange

section Targets

-- How a URL parser reads what follows the origin.
structure Target where
  path : List Text
  query : Text

def isDot (segment : Text) : Bool := segment ∈ [".", "%2e", "%2E"].map ascii

def isDotDot (segment : Text) : Bool :=
  segment ∈ ["..", ".%2e", ".%2E", "%2e.", "%2E.", "%2e%2e", "%2e%2E", "%2E%2e", "%2E%2E"].map ascii

-- A dot segment at the end leaves an empty one.
def leftBy (rest : List Text) : List Text := if rest = [] then [[]] else []

def removeDots (seen : List Text) : List Text → List Text
  | [] => seen
  | segment :: rest =>
    if isDotDot segment then removeDots (seen.dropLast ++ leftBy rest) rest
    else if isDot segment then removeDots (seen ++ leftBy rest) rest
    else removeDots (seen ++ [segment]) rest

def isPathUnit (u : UInt16) : Bool := u ≠ question && u ≠ hash

def parseTarget (target : Text) : Target :=
  { path := removeDots [] ((target.tail.takeWhile isPathUnit).splitOn slash)
    query := target.tail.dropWhile isPathUnit }

end Targets

section Paths

theorem removeDots_plain {seen path : List Text}
    (h : ∀ segment ∈ path, isDot segment = false ∧ isDotDot segment = false) :
    removeDots seen path = seen ++ path := by
  induction path generalizing seen with
  | nil => rw [removeDots, List.append_nil]
  | cons segment path ih =>
      obtain ⟨⟨hdot, hdots⟩, hrest⟩ := List.forall_mem_cons.mp h
      simp only [removeDots, hdot, hdots, Bool.false_eq_true, if_false, ih hrest, List.append_assoc,
        List.singleton_append]

-- What is left of a path has no dot segment.
theorem mem_removeDots {seen path : List Text} {segment : Text} (h : segment ∈ removeDots seen path) :
    segment ∈ seen ∨ segment = [] ∨ segment ∈ path ∧ isDot segment = false ∧ isDotDot segment = false := by
  induction path generalizing seen with
  | nil => exact .inl h
  | cons first path ih =>
      have hleft : segment ∈ leftBy path → segment = [] := by
        unfold leftBy
        split_ifs
        · exact List.mem_singleton.mp
        · exact fun hs => absurd hs List.not_mem_nil
      have hlater : (segment ∈ path ∧ isDot segment = false ∧ isDotDot segment = false) →
          segment ∈ first :: path ∧ isDot segment = false ∧ isDotDot segment = false :=
        fun hs => ⟨List.mem_cons_of_mem first hs.1, hs.2⟩
      -- The segments behind the first one are as they are, whatever it has done to `seen`.
      have hrest : ∀ seen', segment ∈ removeDots seen' path → (segment ∈ seen' → segment ∈ seen ∨ segment = [] ∨
          segment ∈ first :: path ∧ isDot segment = false ∧ isDotDot segment = false) →
          segment ∈ seen ∨ segment = [] ∨
            segment ∈ first :: path ∧ isDot segment = false ∧ isDotDot segment = false := by
        intro seen' hmem hseen
        rcases ih hmem with hs | hempty | hs
        · exact hseen hs
        · exact .inr (.inl hempty)
        · exact .inr (.inr (hlater hs))
      rw [removeDots] at h
      by_cases hdots : isDotDot first = true
      · rw [if_pos hdots] at h
        refine hrest _ h fun hs => (List.mem_append.mp hs).imp (fun hs => ?_) fun hs => .inl (hleft hs)
        exact List.dropLast_subset _ hs
      · rw [if_neg hdots] at h
        by_cases hdot : isDot first = true
        · rw [if_pos hdot] at h
          exact hrest _ h fun hs => (List.mem_append.mp hs).imp_right fun hs => .inl (hleft hs)
        · rw [if_neg hdot] at h
          refine hrest _ h fun hs => (List.mem_append.mp hs).imp_right fun hs => .inr ?_
          rw [List.mem_singleton.mp hs]
          exact ⟨List.mem_cons_self, Bool.eq_false_iff.mpr hdot, Bool.eq_false_iff.mpr hdots⟩

variable {segments path : List Text} {segment encoded : Text}

-- A component that reads as a dot segment stands for one: it is not written any other way.
theorem isDot_encode (h : Percent.encodeURIComponent segment = some encoded) :
    (isDot encoded = true ↔ segment = ascii ".") ∧ (isDotDot encoded = true ↔ segment = ascii "..") := by
  have hread := Percent.decode_encodeURIComponent h
  have hdot : Percent.encodeURIComponent (ascii ".") = some (ascii ".") := by decide
  have hdots : Percent.encodeURIComponent (ascii "..") = some (ascii "..") := by decide
  have hone : ∀ t ∈ [".", "%2e", "%2E"].map ascii, Percent.decode t = some (ascii ".") := by decide
  have htwo : ∀ t ∈ ["..", ".%2e", ".%2E", "%2e.", "%2E.", "%2e%2e", "%2e%2E", "%2E%2e", "%2E%2E"].map ascii,
      Percent.decode t = some (ascii "..") := by decide
  refine ⟨⟨fun hs => ?_, ?_⟩, fun hs => ?_, ?_⟩
  · rw [hone encoded (of_decide_eq_true hs)] at hread
    exact (Option.some.inj hread).symm
  · rintro rfl
    obtain rfl := Option.some.inj (hdot.symm.trans h)
    decide
  · rw [htwo encoded (of_decide_eq_true hs)] at hread
    exact (Option.some.inj hread).symm
  · rintro rfl
    obtain rfl := Option.some.inj (hdots.symm.trans h)
    decide

-- What the upstream reads of the path are the segments, unless one of them is a dot segment.
theorem decode_removeDots_iff (h : List.Forall₂ (fun segment encoded =>
      Percent.encodeURIComponent segment = some encoded) segments path) :
    (removeDots [] path).mapM Percent.decode = some segments ↔
      ascii "." ∉ segments ∧ ascii ".." ∉ segments := by
  have hfrom : ∀ encoded ∈ path, ∃ segment ∈ segments, Percent.encodeURIComponent segment = some encoded :=
    fun _ hmem => exists_of_mem_right h hmem
  have hdecoded : ∀ encoded ∈ removeDots [] path, ∀ t, Percent.decode encoded = some t →
      t ≠ ascii "." ∧ t ≠ ascii ".." := by
    intro encoded hmem t ht
    rcases mem_removeDots hmem with hmem | rfl | ⟨hmem, hdot, hdots⟩
    · exact absurd hmem List.not_mem_nil
    · obtain rfl : [] = t := Option.some.inj ht
      decide
    · obtain ⟨segment, -, hencode⟩ := hfrom encoded hmem
      obtain rfl := Option.some.inj ((Percent.decode_encodeURIComponent hencode).symm.trans ht)
      obtain ⟨hone, htwo⟩ := isDot_encode hencode
      exact ⟨fun heq => Bool.eq_false_iff.mp hdot (hone.mpr heq),
        fun heq => Bool.eq_false_iff.mp hdots (htwo.mpr heq)⟩
  constructor
  · intro hread
    have hnone : ∀ segment ∈ segments, segment ≠ ascii "." ∧ segment ≠ ascii ".." := by
      intro segment hmem
      obtain ⟨encoded, hencoded, hdecode⟩ := exists_of_mem_right (mapM_eq_some.mp hread) hmem
      exact hdecoded encoded hencoded segment hdecode
    exact ⟨fun hmem => (hnone _ hmem).1 rfl, fun hmem => (hnone _ hmem).2 rfl⟩
  · rintro ⟨hdot, hdots⟩
    have hplain : ∀ encoded ∈ path, isDot encoded = false ∧ isDotDot encoded = false := by
      intro encoded hmem
      obtain ⟨segment, hsegment, hencode⟩ := hfrom encoded hmem
      obtain ⟨hone, htwo⟩ := isDot_encode hencode
      refine ⟨Bool.eq_false_iff.mpr fun hs => ?_, Bool.eq_false_iff.mpr fun hs => ?_⟩
      · exact hdot (hone.mp hs ▸ hsegment)
      · exact hdots (htwo.mp hs ▸ hsegment)
    rw [removeDots_plain hplain, List.nil_append, mapM_eq_some]
    exact h.flip.imp fun encoded segment hencode => Percent.decode_encodeURIComponent hencode

end Paths

section Laws

variable {base search : Text} {segments path : List Text} {headers : Headers} {name : Text}

theorem isPathUnit_of_escape {u : UInt16} (h : Percent.isEscapeUnit u = true) :
    isPathUnit u = true ∧ u ≠ slash := by
  refine ⟨?_, fun hu => by rw [hu] at h; exact absurd h (by decide)⟩
  rw [isPathUnit, Bool.and_eq_true, decide_eq_true_eq, decide_eq_true_eq]
  exact ⟨fun hu => by rw [hu] at h; exact absurd h (by decide),
    fun hu => by rw [hu] at h; exact absurd h (by decide)⟩

theorem mem_intercalate {parts : List Text} {u : UInt16} (h : u ∈ [slash].intercalate parts) :
    u = slash ∨ ∃ part ∈ parts, u ∈ part := by
  induction parts with
  | nil => exact absurd h List.not_mem_nil
  | cons part parts ih =>
      cases parts with
      | nil => exact .inr ⟨part, List.mem_cons_self, by simpa using h⟩
      | cons next parts =>
          rw [List.intercalate_cons_cons, List.append_assoc, List.mem_append, List.mem_append] at h
          rcases h with h | h | h
          · exact .inr ⟨part, List.mem_cons_self, h⟩
          · exact .inl (List.mem_singleton.mp h)
          · exact (ih h).imp_right fun ⟨p, hp, hu⟩ => ⟨p, List.mem_cons_of_mem _ hp, hu⟩

theorem parseTarget_eq (hpath : ∀ part ∈ path, ∀ u ∈ part, Percent.isEscapeUnit u = true) (hne : path ≠ [])
    (hsearch : search = [] ∨ search.head? = some question) :
    parseTarget ([slash] ++ [slash].intercalate path ++ search) = ⟨removeDots [] path, search⟩ := by
  have hunits : ∀ u ∈ [slash].intercalate path, isPathUnit u = true := by
    intro u hu
    rcases mem_intercalate hu with rfl | ⟨part, hpart, hmem⟩
    · decide
    · exact (isPathUnit_of_escape (hpath part hpart u hmem)).1
  have hstop : search.takeWhile isPathUnit = [] ∧ search.dropWhile isPathUnit = search := by
    cases search with
    | nil => exact ⟨rfl, rfl⟩
    | cons u search =>
        have hu : u = question := by simpa using hsearch
        rw [hu]
        exact ⟨rfl, rfl⟩
  have hslash : ∀ part ∈ path, slash ∉ part := fun part hpart hmem =>
    (isPathUnit_of_escape (hpath part hpart slash hmem)).2 rfl
  rw [parseTarget, List.append_assoc, List.singleton_append, List.tail_cons,
    List.takeWhile_append_of_pos hunits, List.dropWhile_append_of_pos hunits, hstop.1, hstop.2, List.append_nil,
    List.splitOn_intercalate slash hslash hne]

theorem get_set_self (value : Text) : (headers.set name value).get name = [value] := by
  simp [Headers.set, Headers.get, List.filter_filter]

theorem get_set_of_ne {other : Text} (hne : other ≠ name) (value : Text) :
    (headers.set name value).get other = headers.get other := by
  have hfilter : ∀ entry : Text × Text, (decide (entry.1 = other) && decide (entry.1 ≠ name)) =
      decide (entry.1 = other) := by
    intro entry
    by_cases h : entry.1 = other <;> simp [h, hne]
  have hnew : (([(name, value)] : List (Text × Text)).filter (·.1 = other)) = [] := by simp [hne.symm]
  rw [Headers.set, Headers.get, Headers.get, List.filter_append, List.filter_filter, hnew, List.append_nil]
  simp only [hfilter]

-- The last value of a name, as `set` leaves it.
def lastOf (headers : Headers) (name : Text) : List Text := (headers.get name).getLast?.toList

theorem get_append (entries : List (Text × Text)) (entry : Text × Text) (name : Text) :
    (Headers.mk (entries ++ [entry])).get name =
      (Headers.mk entries).get name ++ if entry.1 = name then [entry.2] else [] := by
  by_cases hname : entry.1 = name <;> simp [Headers.get, hname]

theorem get_copied (strip : List Text) (incoming : Headers) (name : Text) :
    (copied strip incoming).get name = if name ∈ strip then [] else lastOf incoming name := by
  obtain ⟨entries⟩ := incoming
  unfold copied lastOf
  dsimp only
  induction entries using List.reverseRecOn with
  | nil => simp [Headers.get]
  | append_singleton entries entry ih =>
      rw [List.foldl_append, List.foldl_cons, List.foldl_nil, get_append]
      by_cases hname : entry.1 = name
      · rw [if_pos hname, List.getLast?_concat, hname]
        by_cases hstrip : name ∈ strip
        · rw [if_pos hstrip, if_pos hstrip, ih, if_pos hstrip]
        · rw [if_neg hstrip, if_neg hstrip, get_set_self]
          rfl
      · rw [if_neg hname, List.append_nil, ← ih]
        by_cases hstrip : entry.1 ∈ strip
        · rw [if_pos hstrip]
        · rw [if_neg hstrip, get_set_of_ne (Ne.symm hname)]

-- The events of a body, one by one.
def events (body : Stream) : List Event :=
  body.chunks.map .enqueue ++ [if body.broken then .error else .close]

theorem pulls_eq (n : ℕ) (body : Stream) : pulls n (some body) = (events body).take n := by
  obtain ⟨chunks, broken⟩ := body
  induction n generalizing chunks with
  | zero => rfl
  | succ n ih =>
      cases chunks with
      | nil => cases n <;> rfl
      | cons chunk chunks =>
          rw [pulls, pull]
          dsimp only
          rw [ih chunks]
          rfl

end Laws

section Transparent

variable {base : Text} {fetch : Sent → Option Upstream} {req : Request} {segments : List Text}

theorem sent_isSome_iff : (sent base req segments).isSome ↔ ∀ segment ∈ segments, Utf8.Encodable segment := by
  have hmapM : (segments.mapM Percent.encodeURIComponent).isSome ↔
      ∀ segment ∈ segments, Utf8.Encodable segment := by
    induction segments with
    | nil => simp
    | cons segment segments ih =>
        rw [List.forall_mem_cons, ← ih, ← Percent.encodeURIComponent_isSome_iff, List.mapM_cons]
        cases Percent.encodeURIComponent segment <;> cases segments.mapM Percent.encodeURIComponent <;> simp
  rw [sent, buildUpstreamUrl, Option.isSome_map, Option.isSome_map, hmapM]

-- What goes upstream for a request: the path names the segments unless one is a dot segment,
-- and every header but the hop-by-hop ones has its last value.
structure Faithful (base : Text) (req : Request) (segments : List Text) (call : Sent) : Prop where
  target : ∃ target, call.url = trimmedBase base ++ target ∧ (parseTarget target).query = req.search ∧
    ((parseTarget target).path.mapM Percent.decode = some segments ↔
      ascii "." ∉ segments ∧ ascii ".." ∉ segments)
  headers : ∀ name, call.headers.get name = if name ∈ HOP_BY_HOP then [] else lastOf req.headers name

theorem faithful_sent {call : Sent} (h : sent base req segments = some call) (hne : segments ≠ [])
    (hsearch : req.search = [] ∨ req.search.head? = some question) : Faithful base req segments call := by
  obtain ⟨url, hurl, rfl⟩ := Option.map_eq_some_iff.mp h
  obtain ⟨path, hpath, rfl⟩ := Option.map_eq_some_iff.mp hurl
  have hall := mapM_eq_some.mp hpath
  have hunits : ∀ part ∈ path, ∀ u ∈ part, Percent.isEscapeUnit u = true := by
    intro part hpart
    obtain ⟨segment, -, hencode⟩ := exists_of_mem_right hall hpart
    exact Percent.isEscapeUnit_encodeURIComponent hencode
  have hpath : path ≠ [] := by
    rintro rfl
    exact hne (List.forall₂_nil_right_iff.mp hall)
  have hparse := parseTarget_eq hunits hpath hsearch
  refine ⟨⟨[slash] ++ [slash].intercalate path ++ req.search, ?_, ?_, ?_⟩,
    fun name => get_copied HOP_BY_HOP req.headers name⟩
  · simp only [List.append_assoc]
  · rw [hparse]
  · rw [hparse]
    exact decode_removeDots_iff hall

-- What comes back of an answer.
structure Relayed (upstream response : Upstream) : Prop where
  status : response.status = upstream.status
  headers : ∀ name, response.headers.get name =
    if name = ascii "x-accel-buffering" then [ascii "no"]
    else if name ∈ RESPONSE_STRIP then [] else lastOf upstream.headers name
  body : ∀ n, pulls n response.body = (upstream.body.elim [] events).take n

theorem relayed_filter (upstream : Upstream) :
    Relayed upstream { upstream with headers := filterResponseHeaders upstream.headers } := by
  refine ⟨rfl, fun name => ?_, fun n => ?_⟩
  · by_cases hname : name = ascii "x-accel-buffering"
    · rw [if_pos hname, hname]
      exact get_set_self _
    · rw [if_neg hname, ← get_copied]
      exact get_set_of_ne hname _
  · cases upstream.body with
    | none => cases n <;> rfl
    | some body => exact pulls_eq n body

-- The proxy is transparent: what it cannot write as a URL it does not send, what it sends names
-- the same path and query at the upstream's origin, and what it gets it passes on piece by piece.
-- Of an upstream that it does not reach it says nothing.
theorem forward_transparent (hne : segments ≠ [])
    (hsearch : req.search = [] ∨ req.search.head? = some question) :
    (forward base fetch req segments = none ↔ ∃ segment ∈ segments, ¬Utf8.Encodable segment) ∧
    ∀ call, sent base req segments = some call → Faithful base req segments call ∧
      (fetch call = none → forward base fetch req segments = some maskedGatewayError) ∧
      ∀ upstream, fetch call = some upstream →
        ∃ response, forward base fetch req segments = some response ∧ Relayed upstream response := by
  refine ⟨?_, fun call hcall => ⟨faithful_sent hcall hne hsearch, fun hfetch => ?_, fun upstream hfetch => ?_⟩⟩
  · rw [forward, Option.map_eq_none_iff, ← Option.not_isSome_iff_eq_none, sent_isSome_iff]
    simp only [not_forall, exists_prop]
  · rw [forward, hcall, Option.map_some, hfetch]
  · refine ⟨_, ?_, relayed_filter upstream⟩
    rw [forward, hcall, Option.map_some, hfetch]

def sampleRequest : Request where
  method := ascii "get"
  search := ascii "?full=1"
  headers := ⟨[(ascii "accept", ascii "text/event-stream"), (ascii "host", ascii "studio")]⟩
  body := none

def sampleSegments : List Text := ["v1", "jobs", "a/b", "events"].map ascii

def sampleUpstream : Upstream where
  status := 200
  headers := ⟨[(ascii "content-encoding", ascii "gzip")]⟩
  body := some ⟨[[1], [2]], true⟩

-- A segment with a slash in it stays one.
theorem forward_transparent_sampleRequest : ∃ call response,
    sent (ascii "http://api:8000/") sampleRequest sampleSegments = some call ∧
      (∃ target, call.url = ascii "http://api:8000" ++ target ∧
        (parseTarget target).path.mapM Percent.decode = some sampleSegments) ∧
      forward (ascii "http://api:8000/") (fun _ => some sampleUpstream) sampleRequest sampleSegments =
        some response ∧ pulls 9 response.body = [.enqueue [1], .enqueue [2], .error] := by
  obtain ⟨call, hcall⟩ : ∃ call, sent (ascii "http://api:8000/") sampleRequest sampleSegments = some call :=
    Option.isSome_iff_exists.mp (sent_isSome_iff.mpr (by decide))
  obtain ⟨hfaithful, -, hrelayed⟩ := (@forward_transparent (ascii "http://api:8000/") (fun _ => some sampleUpstream)
    _ _ (by decide) (.inr rfl)).2 call hcall
  obtain ⟨response, hresponse, hback⟩ := hrelayed sampleUpstream rfl
  obtain ⟨target, hurl, -, hpath⟩ := hfaithful.target
  exact ⟨call, response, hcall, ⟨target, hurl, hpath.mpr (by decide)⟩, hresponse, hback.body 9⟩

end Transparent

end Cosmos3.Proxy
