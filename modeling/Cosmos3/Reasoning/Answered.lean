import Cosmos3.Reasoning.Asked

namespace Cosmos3.Reasoning

open Basis Basis.Python Sse

section Strip

theorem dropWhile_eq_self {t : Text} (h : ∀ u ∈ t.head?, isSpaceUnit u = false) :
    t.dropWhile isSpaceUnit = t := by
  cases t with
  | nil => rfl
  | cons u t => rw [List.dropWhile_cons_of_neg (by simp [h u rfl])]

theorem stripSpaces_eq_self {t : Text} (hfirst : ∀ u ∈ t.head?, isSpaceUnit u = false)
    (hlast : ∀ u ∈ t.getLast?, isSpaceUnit u = false) : stripSpaces t = t := by
  rw [stripSpaces, dropWhile_eq_self hfirst, dropWhile_eq_self, List.reverse_reverse]
  rwa [List.head?_reverse]

theorem stripSpaces_cons {u : UInt16} (hu : isSpaceUnit u = true) (t : Text) :
    stripSpaces (u :: t) = stripSpaces t := by
  rw [stripSpaces, List.dropWhile_cons_of_pos hu]
  rfl

end Strip

section Documents

variable (floats : FloatReader)

-- A JSON object as an engine writes it: on one line, in UTF-8.
structure Document where
  text : Text
  value : Value
  starts : text.head? = some Json.openBrace
  ends : text.getLast? = some Json.closeBrace
  oneLine : lf ∉ text
  encodable : Utf8.Encodable text
  reads : loads floats text = some value

variable {floats}

def Document.event (doc : Document floats) : List UInt8 :=
  asciiBytes (ascii "data: ") ++ (Utf8.sequences doc.text ++ [10, 10])

def doneEvent : List UInt8 := asciiBytes (ascii "data: [DONE]") ++ [10, 10]

-- What is yielded of the chunks before what comes behind them.
def told (ended : List Value × Option StreamError) : List Value → List Value × Option StreamError
  | [] => ended
  | chunk :: chunks =>
    match deltaContent chunk with
    | .error error => ([], some error)
    | .ok content => ((content.filter truth).toList ++ (told ended chunks).1, (told ended chunks).2)

variable (breaks : Bool)

theorem deltas_blank (lines : List (List UInt8)) :
    deltas floats breaks ([] :: lines) = deltas floats breaks lines := by
  rw [deltas]
  rfl

theorem Document.stripSpaces_line (doc : Document floats) :
    stripSpaces (ascii "data: " ++ doc.text) = ascii "data: " ++ doc.text := by
  apply stripSpaces_eq_self
  · intro u hu
    obtain rfl : 100 = u := Option.some.inj hu
    decide
  · intro u hu
    rw [List.getLast?_append, doc.ends] at hu
    obtain rfl : Json.closeBrace = u := Option.some.inj hu
    decide

theorem Document.stripSpaces_data (doc : Document floats) :
    stripSpaces ((ascii "data: " ++ doc.text).drop 5) = doc.text := by
  have hdrop : (ascii "data: " ++ doc.text).drop 5 = 32 :: doc.text := rfl
  rw [hdrop, stripSpaces_cons (by decide)]
  apply stripSpaces_eq_self
  · intro u hu
    rw [doc.starts] at hu
    obtain rfl : Json.openBrace = u := Option.some.inj hu
    decide
  · intro u hu
    rw [doc.ends] at hu
    obtain rfl : Json.closeBrace = u := Option.some.inj hu
    decide

theorem Document.splitOn_event (doc : Document floats) (rest : List UInt8) :
    (doc.event ++ rest).splitOn 10 =
      Utf8.sequences (ascii "data: " ++ doc.text) :: [] :: rest.splitOn 10 := by
  have hascii : IsAscii (ascii "data: ") := by decide
  have hword : lf ∉ ascii "data: " := by decide
  have hnew : (10 : UInt8) ∉ Utf8.sequences (ascii "data: " ++ doc.text) := by
    intro h
    have hmem := Utf8.mem_of_mem_sequences ((Utf8.encodable_ascii_append hascii).mpr doc.encodable)
      (show lf < 0x80 by decide) h
    rcases List.mem_append.mp hmem with hmem | hmem
    · exact hword hmem
    · exact doc.oneLine hmem
  have hsplit : doc.event ++ rest = Utf8.sequences (ascii "data: " ++ doc.text) ++ 10 :: ([] ++ 10 :: rest) := by
    rw [Document.event, Utf8.sequences_ascii_append hascii]
    simp
  rw [hsplit, List.splitOn_append_cons_self_of_not_mem hnew,
    List.splitOn_append_cons_self_of_not_mem List.not_mem_nil]

theorem Document.deltas_event (doc : Document floats) (rest : List UInt8) :
    deltas floats breaks ((doc.event ++ rest).splitOn 10) =
      told (deltas floats breaks (rest.splitOn 10)) [doc.value] := by
  have hline : Utf8.strict .start (Utf8.sequences (ascii "data: " ++ doc.text)) =
      some (ascii "data: " ++ doc.text) :=
    Utf8.strict_sequences ((Utf8.encodable_ascii_append (by decide)).mpr doc.encodable)
  have hprefix : (ascii "data:").isPrefixOf (ascii "data: " ++ doc.text) = true := rfl
  have hdone : doc.text ≠ ascii "[DONE]" := by
    intro h
    have hstarts := doc.starts
    rw [h] at hstarts
    exact absurd hstarts (by decide)
  rw [doc.splitOn_event, deltas, hline]
  dsimp only
  rw [doc.stripSpaces_line, if_pos hprefix, doc.stripSpaces_data, if_neg hdone, doc.reads, deltas_blank]
  rfl

theorem deltas_events (docs : List (Document floats)) (rest : List UInt8) :
    deltas floats breaks ((docs.flatMap Document.event ++ rest).splitOn 10) =
      told (deltas floats breaks (rest.splitOn 10)) (docs.map (·.value)) := by
  induction docs with
  | nil => rfl
  | cons doc docs ih =>
      rw [List.flatMap_cons, List.append_assoc, doc.deltas_event, ih]
      rfl

theorem deltas_done (rest : List UInt8) :
    deltas floats breaks ((doneEvent ++ rest).splitOn 10) = ([], none) := by
  have hnew : (10 : UInt8) ∉ asciiBytes (ascii "data: [DONE]") := by decide
  have hsplit : doneEvent ++ rest = asciiBytes (ascii "data: [DONE]") ++ 10 :: (10 :: rest) := by
    rw [doneEvent, List.append_assoc]
    rfl
  have hline : Utf8.strict .start (asciiBytes (ascii "data: [DONE]")) = some (ascii "data: [DONE]") :=
    strict_ascii (by decide)
  rw [hsplit, List.splitOn_append_cons_self_of_not_mem hnew, deltas, hline]
  rfl

end Documents

section Endings

variable (floats : FloatReader)

-- What a line says behind `data:`.
def dataOf (text : Text) : Text := stripSpaces ((stripSpaces text).drop 5)

-- A line of the answer at which the stream raises: it is not UTF-8, or what it says is not
-- JSON, or it is JSON of another shape than a chunk (no object, no choice, a choice that is
-- no object).
inductive Unreadable : List UInt8 → StreamError → Prop where
  | undecodable {line : List UInt8} (h : Utf8.strict .start line = none) : Unreadable line .undecodable
  | notJson {line : List UInt8} {text : Text} (htext : Utf8.strict .start line = some text)
      (hdata : (ascii "data:").isPrefixOf (stripSpaces text) = true) (hdone : dataOf text ≠ ascii "[DONE]")
      (hloads : loads floats (dataOf text) = none) : Unreadable line .notJson
  | noChunk {line : List UInt8} {text : Text} {value : Value} {error : StreamError}
      (htext : Utf8.strict .start line = some text)
      (hdata : (ascii "data:").isPrefixOf (stripSpaces text) = true) (hdone : dataOf text ≠ ascii "[DONE]")
      (hloads : loads floats (dataOf text) = some value) (hvalue : deltaContent value = .error error) :
      Unreadable line error

-- How an answer goes on behind its last good chunk: with the end of the stream, whatever
-- comes behind it, not at all, with a chunk that does not read as one, or with a line at
-- which the stream raises.
inductive Ending where
  | done (rest : List UInt8)
  | cut
  | malformed (chunk : Document floats) (error : StreamError) (rest : List UInt8)
      (fails : deltaContent chunk.value = .error error)
  | unreadable (line : List UInt8) (error : StreamError) (rest : List UInt8) (oneLine : 10 ∉ line)
      (fails : Unreadable floats line error)

variable {floats}

def Ending.bytes : Ending floats → List UInt8
  | .done rest => doneEvent ++ rest
  | .cut => []
  | .malformed chunk _ rest _ => chunk.event ++ rest
  | .unreadable line _ rest _ _ => line ++ 10 :: rest

def Ending.error (breaks : Bool) : Ending floats → Option StreamError
  | .done _ => none
  | .cut => if breaks then some .broken else none
  | .malformed _ error _ _ => some error
  | .unreadable _ error _ _ _ => some error

theorem deltas_unreadable {line : List UInt8} {error : StreamError} (h : Unreadable floats line error)
    (breaks : Bool) (lines : List (List UInt8)) : deltas floats breaks (line :: lines) = ([], some error) := by
  cases h with
  | undecodable hline => rw [deltas, hline]
  | notJson htext hdata hdone hloads =>
      rw [dataOf] at hdone hloads
      rw [deltas, htext]
      dsimp only
      rw [if_pos hdata, if_neg hdone, hloads]
  | noChunk htext hdata hdone hloads hvalue =>
      rw [dataOf] at hdone hloads
      rw [deltas, htext]
      dsimp only
      rw [if_pos hdata, if_neg hdone, hloads]
      dsimp only
      rw [hvalue]

theorem deltas_ending (breaks : Bool) (ending : Ending floats) :
    deltas floats breaks (ending.bytes.splitOn 10) = ([], ending.error breaks) := by
  cases ending with
  | done rest => exact deltas_done breaks rest
  | cut =>
      rw [Ending.bytes, List.splitOn_nil, deltas_blank]
      rfl
  | malformed chunk error rest fails =>
      rw [Ending.bytes, chunk.deltas_event, told, fails]
      rfl
  | unreadable line error rest oneLine fails =>
      rw [Ending.bytes, List.splitOn_append_cons_self_of_not_mem oneLine, deltas_unreadable fails]
      rfl

-- A chunk that adds this text to the answer: none, for the chunk with the role, or the
-- one with the reason of the end.
def Says (chunk : Value) (text : Text) : Prop :=
  ∃ content, deltaContent chunk = .ok content ∧
    (content.filter truth).toList = ([text].filter (· ≠ [])).map .str

theorem told_adds {chunks : List Value} {texts : List Text} (h : List.Forall₂ Says chunks texts)
    (ended : List Value × Option StreamError) :
    told ended chunks = ((texts.filter (· ≠ [])).map .str ++ ended.1, ended.2) := by
  induction h with
  | nil => rfl
  | @cons chunk text chunks texts hadds _ ih =>
      obtain ⟨content, hcontent, hyielded⟩ := hadds
      rw [told, hcontent]
      dsimp only
      rw [ih, hyielded, ← List.singleton_append (l := texts), List.filter_append, List.map_append,
        List.append_assoc]

end Endings

section Heard

variable {floats : FloatReader} {media : MediaFiles} {model : Text} {post : List UInt8 → Option Answer}
  {payload : Payload} {numbers : Json.NumberText}

-- The relay's generator is this stream.
structure Feeds (message : StreamError → Text) (yielded : List Value × Option StreamError)
    (upstream : Upstream) : Prop where
  deltas : upstream.deltas.map .str = yielded.1
  raises : upstream.raises = yielded.2.map message

-- From the engine's bytes to the browser: the texts of the chunks, in their order, up to
-- the first chunk or line that does not read as one or the end of the stream, and no other
-- text; and one error event just where the stream raises.
theorem answer_heard {body : List UInt8} {answer : Answer} {chunks : List (Document floats)}
    {texts : List Text} {ending : Ending floats} {message : StreamError → Text} {upstream : Upstream}
    {relay : Relay} {cuts : List Text}
    (hposted : requestBody media floats.toFloatText model payload = .ok body)
    (hanswer : post body = some answer)
    (hsent : answer.body = chunks.flatMap Document.event ++ ending.bytes)
    (hadds : List.Forall₂ Says (chunks.map (·.value)) texts)
    (hfeeds : Feeds message (stream floats media model post payload) upstream)
    (hrelay : Reachable (step numbers upstream) Relay.initial relay) (hreturned : relay.pc = .returned)
    (hcuts : cuts.flatten = relay.chunks.flatten) :
    (((feedAll initialSseState cuts).events.filter (·.event = Kind.token.name)).map (·.data)) =
        (texts.filter (· ≠ [])).map (Kind.token.data numbers) ∧
      upstream.deltas.flatten = texts.flatten ∧
      upstream.raises = (ending.error answer.breaks).map message ∧
      (feedAll initialSseState cuts).events.filter (·.event = Kind.error.name) =
        (ending.error answer.breaks).toList.map fun error => parsed numbers .error (message error) := by
  have hstream : stream floats media model post payload =
      ((texts.filter (· ≠ [])).map .str, ending.error answer.breaks) := by
    rw [stream, hposted]
    dsimp only
    rw [hanswer]
    dsimp only
    rw [hsent, deltas_events, deltas_ending, told_adds hadds, List.append_nil]
  have hdeltas : upstream.deltas = texts.filter (· ≠ []) := by
    have h := hfeeds.deltas
    rw [hstream] at h
    exact List.map_injective_iff.mpr (fun _ _ => Value.str.inj) h
  have hraises : upstream.raises = (ending.error answer.breaks).map message := by
    rw [hfeeds.raises, hstream]
  refine ⟨?_, ?_, hraises, ?_⟩
  · rw [relay_read hrelay hreturned cuts hcuts, hdeltas]
  · rw [hdeltas]
    exact List.flatten_filter_ne_nil
  · rw [relay_errors hrelay hreturned cuts hcuts, hraises]
    cases ending.error answer.breaks <;> rfl

end Heard

section Sample

def sampleFloats : FloatReader := FloatText.ofFractions.unread

-- The first chunk has the role and says nothing, the second has a text.
def sampleChunk (content : Text) : Value :=
  .dict [(ascii "choices", .list [.dict [(ascii "delta", .dict [(ascii "content", .str content)])]])]

def sampleText (content : Text) : Text :=
  dumpsStyled sampleFloats.toFloatText .compact 0 (sampleChunk content)

theorem loads_sampleText (content : Text) : loads sampleFloats (sampleText content) = some (sampleChunk content) := by
  have hchoices : [ascii "choices"].Nodup := by decide
  have hdelta : [ascii "delta"].Nodup := by decide
  have hcontent : [ascii "content"].Nodup := by decide
  have hread : Readable sampleFloats (sampleChunk content) :=
    ⟨hchoices, ⟨⟨hdelta, ⟨hcontent, trivial, trivial⟩, trivial⟩, trivial⟩, trivial⟩
  have h := @loads_dumpsStyled sampleFloats .compact _ hread 0 [] (by simp)
  rwa [List.append_nil] at h

theorem ends_sampleText (content : Text) : (sampleText content).getLast? = some Json.closeBrace := by
  rw [sampleText, sampleChunk, dumpsStyled, ← List.cons_append, List.getLast?_concat]

def sampleDocument (content : Text) (honeLine : lf ∉ sampleText content)
    (hencodable : Utf8.Encodable (sampleText content)) : Document sampleFloats :=
  ⟨sampleText content, sampleChunk content, rfl, ends_sampleText content, honeLine, hencodable,
    loads_sampleText content⟩

def samplePayload : Payload := ⟨ascii "Look up", 32765, some (ascii "/data/a.png"), none⟩

-- The connection breaks behind the second chunk.
def sampleAnswer (chunks : List (Document sampleFloats)) : Answer := ⟨chunks.flatMap Document.event ++ [], true⟩

theorem answer_heard_sampleAnswer : ∃ relay chunks upstream,
    run (step Sse.sampleNumbers upstream) .initial sampleRelay = some relay ∧
      Feeds (fun _ => ascii "gone") (stream sampleFloats sampleMedia (ascii "cosmos3-reasoner")
        (fun _ => some (sampleAnswer chunks)) samplePayload) upstream ∧
      (((feedAll initialSseState relay.chunks).events.filter (·.event = Kind.token.name)).map (·.data)) =
        ([[], ascii "Hi"].filter (· ≠ [])).map (Kind.token.data Sse.sampleNumbers) ∧
      upstream.deltas.flatten = [[], ascii "Hi"].flatten ∧
      upstream.raises = ((Ending.cut : Ending sampleFloats).error true).map (fun _ => ascii "gone") ∧
      (feedAll initialSseState relay.chunks).events.filter (·.event = Kind.error.name) =
        [parsed Sse.sampleNumbers .error (ascii "gone")] := by
  obtain ⟨relay, hrelay, hreturned⟩ : ∃ relay,
      run (step Sse.sampleNumbers sampleUpstream) .initial sampleRelay = some relay ∧ relay.pc = .returned :=
    ⟨_, rfl, rfl⟩
  obtain ⟨body, hbody⟩ : ∃ body,
      requestBody sampleMedia sampleFloats.toFloatText (ascii "cosmos3-reasoner") samplePayload = .ok body :=
    ⟨_, rfl⟩
  let chunks := [sampleDocument [] (by decide) (by decide), sampleDocument (ascii "Hi") (by decide) (by decide)]
  have hadds : List.Forall₂ Says (chunks.map (·.value)) [[], ascii "Hi"] :=
    .cons ⟨some (.str []), rfl, rfl⟩ (.cons ⟨some (.str (ascii "Hi")), rfl, rfl⟩ .nil)
  have hyielded : stream sampleFloats sampleMedia (ascii "cosmos3-reasoner") (fun _ => some (sampleAnswer chunks))
      samplePayload = ([.str (ascii "Hi")], some .broken) := by
    rw [stream, hbody]
    dsimp only
    rw [sampleAnswer, deltas_events, told_adds hadds]
    rfl
  have hfeeds : Feeds (fun _ => ascii "gone") (stream sampleFloats sampleMedia (ascii "cosmos3-reasoner")
      (fun _ => some (sampleAnswer chunks)) samplePayload) sampleUpstream := by
    rw [hyielded]
    exact ⟨rfl, rfl⟩
  exact ⟨relay, chunks, sampleUpstream, hrelay, hfeeds, answer_heard hbody rfl
    (show (sampleAnswer chunks).body = chunks.flatMap Document.event ++ (Ending.cut : Ending sampleFloats).bytes
      from rfl) hadds hfeeds (Reachable.of_run hrelay) hreturned rfl⟩

end Sample

end Cosmos3.Reasoning

