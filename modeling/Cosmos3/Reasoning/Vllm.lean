import Cosmos3.Basis.Encode
import Cosmos3.Basis.Loads
import Cosmos3.Reasoning.Budget
import Cosmos3.Reasoning.Frames

namespace Cosmos3.Reasoning

open Basis Basis.Python

-- Where the generator upstream fails: at a media file, at the connection, at a line of
-- the answer that it cannot read.
inductive StreamError where
  | unreadable (path : Text)
  | unreachable
  | broken
  | undecodable
  | notJson
  | noChoice
  | python (exn : Exn)

section Posted

-- The trusted volume, and what the registry of types says of a name.
structure MediaFiles where
  read : Text → Option (List UInt8)
  guessType : Text → Option Text

variable (media : MediaFiles)

-- `_data_uri`
def dataUri (path : Text) : Except StreamError Text :=
  match media.read path with
  | none => .error (.unreadable path)
  | some raw =>
      .ok (ascii "data:" ++ (media.guessType path).getD (ascii "application/octet-stream") ++
        ascii ";base64," ++ Base64.b64encode raw)

def mediaPart (kind : Text) : Option Text → Except StreamError (List Value)
  | none | some [] => .ok []
  | some path => do
      let url ← dataUri media path
      .ok [.dict [(ascii "type", .str kind), (kind, .dict [(ascii "url", .str url)])]]

def textPart (prompt : Text) : Value := .dict [(ascii "type", .str (ascii "text")), (ascii "text", .str prompt)]

def userMessage (content : List Value) : Value :=
  .list [.dict [(ascii "role", .str (ascii "user")), (ascii "content", .list content)]]

-- `_messages`
def messages (payload : Payload) : Except StreamError Value := do
  let image ← mediaPart media (ascii "image_url") payload.imagePath
  let video ← mediaPart media (ascii "video_url") payload.videoPath
  .ok (userMessage (image ++ video ++ [textPart payload.prompt]))

def completionRequest (model : Text) (messages : Value) (maxTokens : ℤ) : Value :=
  .dict [(ascii "model", .str model), (ascii "messages", messages), (ascii "stream", .bool true),
    (ascii "max_tokens", .int maxTokens), (ascii "temperature", .int 0)]

variable (floats : FloatText) (model : Text)

def requestBody (payload : Payload) : Except StreamError (List UInt8) := do
  let messages ← messages media payload
  .ok (asciiBytes (dumpsStyled floats .spaced 0 (completionRequest model messages payload.maxTokens)))

end Posted

section Answered

def isSpaceUnit (u : UInt16) : Bool := isUnicodeSpace u.toNat

-- `str.strip()`
def stripSpaces (t : Text) : Text := ((t.dropWhile isSpaceUnit).reverse.dropWhile isSpaceUnit).reverse

-- `value.get(key)`
def member (key : Text) : Value → Except StreamError (Option Value)
  | .dict fields => .ok (Dict.get fields key)
  | _ => .error (.python .attributeError)

-- `value[0]`, of a value that was read of JSON.
def firstItem : Value → Except StreamError Value
  | .list (item :: _) => .ok item
  | .str (u :: t) => .ok (.str (((codePoints (u :: t)).take 1).flatMap Utf8.units))
  | .list [] | .str [] => .error .noChoice
  | .dict _ => .error (.python .keyError)
  | .none | .bool _ | .int _ | .float _ => .error (.python .typeError)

def deltaContent (chunk : Value) : Except StreamError (Option Value) := do
  let choices ← member (ascii "choices") chunk
  let choice ← firstItem (choices.getD (.list [.dict []]))
  let delta ← member (ascii "delta") choice
  member (ascii "content") (delta.getD (.dict []))

variable (floats : FloatReader)

-- The answer's lines, and whether the reading of it then fails. What is yielded comes
-- first, and then the exception, if there is one.
def deltas (breaks : Bool) : List (List UInt8) → List Value × Option StreamError
  | [] => ([], if breaks then some .broken else none)
  | raw :: lines =>
    match Utf8.strict .start raw with
    | none => ([], some .undecodable)
    | some text =>
      let line := stripSpaces text
      if (ascii "data:").isPrefixOf line then
        let data := stripSpaces (line.drop 5)
        if data = ascii "[DONE]" then ([], none)
        else
          match loads floats data with
          | none => ([], some .notJson)
          | some chunk =>
            match deltaContent chunk with
            | .error error => ([], some error)
            | .ok content =>
                ((content.filter truth).toList ++ (deltas breaks lines).1, (deltas breaks lines).2)
      else deltas breaks lines

structure Answer where
  body : List UInt8
  breaks : Bool

variable (media : MediaFiles) (model : Text) (post : List UInt8 → Option Answer)

-- `VllmReasonerStream.stream`. The piece behind the last line feed is one more line,
-- which when it is empty yields nothing.
def stream (payload : Payload) : List Value × Option StreamError :=
  match requestBody media floats.toFloatText model payload with
  | .error error => ([], some error)
  | .ok body =>
    match post body with
    | none => ([], some .unreachable)
    | some answer => deltas floats answer.breaks (answer.body.splitOn 10)

end Answered

end Cosmos3.Reasoning
