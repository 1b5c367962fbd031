import Cosmos3.Reasoning.Vllm

namespace Cosmos3.Reasoning

open Basis Basis.Python

section Refused

variable {files : Edge.FileSystem} {allowlist : List Edge.OsText} {shown : Shown} {path : Option Text}

-- A refusal is answered with 422, except that of a path that has no bytes.
def Refusal.Typed (shown : Shown) (given : List (Option Text)) (refusal : Refusal) : Prop :=
  (refusal.response shown).1 = 422 ∨
    (refusal.response shown).1 = 500 ∧ ∃ text, some text ∈ given ∧ Edge.encodable text = false

theorem typed_conditioningPath {refusal : Refusal} {given : List (Option Text)} (hmem : path ∈ given)
    (h : conditioningPath files allowlist path = .error refusal) : refusal.Typed shown given := by
  rcases path with _ | _ | ⟨u, text⟩
  · cases h
  · cases h
  · rw [conditioningPath, Edge.resolveWithin_eq] at h
    swap
    · simp
    split_ifs at h with hremote hencodable htrusted
    · obtain rfl := Except.error.inj h
      exact .inl rfl
    · obtain rfl := Except.error.inj h
      exact .inr ⟨rfl, _, hmem, hencodable⟩
    · cases h
    · obtain rfl := Except.error.inj h
      exact .inl rfl

variable {cap : ContextCapConfig} {tokenizer : Option Tokenizer} {body : ReasoningBody}

theorem typed_reason {refusal : Refusal} (h : reason files allowlist cap tokenizer body = .error refusal) :
    refusal.Typed shown [body.imagePath, body.videoPath] := by
  rw [reason] at h
  cases hvalid : validateContext (countTokens tokenizer body.prompt)
      (effective cap (countTokens tokenizer body.prompt) body.maxOutputTokens) cap with
  | some error =>
      rw [hvalid] at h
      obtain rfl := Except.error.inj h
      exact .inl rfl
  | none =>
      rw [hvalid] at h
      rcases bind_eq_error.mp h with himage | ⟨image, -, hrest⟩
      · exact typed_conditioningPath (by simp) himage
      · rcases bind_eq_error.mp hrest with hvideo | ⟨video, -, hmade⟩
        · exact typed_conditioningPath (by simp) hvideo
        · cases hmade

end Refused

section Carried

variable {media : MediaFiles} {kind : Text} {path : Option Text} {parts : List Value}

-- The parts that stand for a path: none where there is no path, and else one, whose data
-- decodes to the bytes of the file.
def Carries (media : MediaFiles) (kind : Text) (path : Option Text) (parts : List Value) : Prop :=
  match path.filter (· ≠ []) with
  | none => parts = []
  | some text => ∃ raw mime encoded, media.read text = some raw ∧ Base64.b64decode encoded = .ok raw ∧
      parts = [.dict [(ascii "type", .str kind), (kind, .dict [(ascii "url",
        .str (ascii "data:" ++ mime ++ ascii ";base64," ++ encoded))])]]

theorem carries_mediaPart (h : mediaPart media kind path = .ok parts) : Carries media kind path parts := by
  rcases path with _ | _ | ⟨u, text⟩
  · exact (Except.ok.inj h).symm
  · exact (Except.ok.inj h).symm
  · rw [mediaPart] at h
    swap
    · simp
    obtain ⟨url, hurl, hmade⟩ := bind_eq_ok.mp h
    have hfilter : (some (u :: text)).filter (fun t : Text => t ≠ []) = some (u :: text) := by simp
    rw [Carries, hfilter]
    cases hread : media.read (u :: text) with
    | none =>
        rw [dataUri, hread] at hurl
        cases hurl
    | some raw =>
        rw [dataUri, hread] at hurl
        rw [← Except.ok.inj hmade, ← Except.ok.inj hurl]
        exact ⟨raw, _, _, hread, Base64.b64decode_b64encode raw, rfl⟩

theorem readable_carried {floats : FloatReader} (hkind : kind ≠ ascii "type") (h : Carries media kind path parts) :
    ∀ part ∈ parts, Readable floats part := by
  unfold Carries at h
  split at h
  · rw [h]
    simp
  · obtain ⟨raw, mime, encoded, -, -, rfl⟩ := h
    intro part hpart
    obtain rfl := List.mem_singleton.mp hpart
    simp [Readable, ReadableFields, Ne.symm hkind]

end Carried

section Asked

variable (files : Edge.FileSystem) (allowlist : List Edge.OsText) (cap : ContextCapConfig)
  (tokenizer : Option Tokenizer) (body : ReasoningBody)

-- The route's answer to the body, were its budget this one.
def asked (maxOutputTokens : Option ℤ) : Except Refusal Payload :=
  reason files allowlist cap tokenizer { body with maxOutputTokens }

def Grants (maxOutputTokens : Option ℤ) (granted : ℤ) : Prop :=
  ∃ payload, asked files allowlist cap tokenizer body maxOutputTokens = .ok payload ∧
    payload.maxTokens = granted

variable {files allowlist cap tokenizer body}

theorem grants_iff {maxOutputTokens : Option ℤ} {granted : ℤ} :
    Grants files allowlist cap tokenizer body maxOutputTokens granted ↔
      granted = effective cap (countTokens tokenizer body.prompt) maxOutputTokens ∧
        Admitted cap (countTokens tokenizer body.prompt) granted ∧
        Followed files allowlist body.imagePath ∧ Followed files allowlist body.videoPath := by
  constructor
  · rintro ⟨payload, hasked, rfl⟩
    obtain ⟨hadmitted, himage, hvideo, hpayload⟩ := reason_eq_ok.mp hasked
    exact ⟨congrArg Payload.maxTokens hpayload, hadmitted, himage, hvideo⟩
  · rintro ⟨rfl, hadmitted, himage, hvideo⟩
    exact ⟨_, reason_eq_ok.mpr ⟨hadmitted, himage, hvideo, rfl⟩, rfl⟩

theorem grants_none_iff {granted : ℤ} :
    Grants files allowlist cap tokenizer body none granted ↔
      IsGreatest {b | Grants files allowlist cap tokenizer body (some b) b} granted := by
  have hsome (b : ℤ) : Grants files allowlist cap tokenizer body (some b) b ↔
      Admitted cap (countTokens tokenizer body.prompt) b ∧
        Followed files allowlist body.imagePath ∧ Followed files allowlist body.videoPath := by
    rw [grants_iff, effective, eq_self_iff_true, true_and]
  constructor
  · intro h
    obtain ⟨hgranted, hadmitted, hpaths⟩ := grants_iff.mp h
    refine ⟨(hsome _).mpr ⟨hadmitted, hpaths⟩, fun b hb => ?_⟩
    rw [hgranted]
    exact (isGreatest_effective hadmitted).2 ((hsome b).mp hb).1
  · intro h
    obtain ⟨hadmitted, hpaths⟩ := (hsome _).mp h.1
    have hgreatest := isGreatest_effective hadmitted
    have hsame : granted = effective cap (countTokens tokenizer body.prompt) none :=
      le_antisymm (hgreatest.2 hadmitted) (h.2 ((hsome _).mpr ⟨hgreatest.1, hpaths⟩))
    exact grants_iff.mpr ⟨hsame, hadmitted, hpaths⟩

variable {media : MediaFiles} {floats : FloatReader} {model : Text}

-- What the engine reads of the posted bytes.
theorem loadsBytes_requestBody {payload : Payload} {bytes : List UInt8}
    (h : requestBody media floats.toFloatText model payload = .ok bytes) :
    ∃ image video, Carries media (ascii "image_url") payload.imagePath image ∧
      Carries media (ascii "video_url") payload.videoPath video ∧
      loadsBytes floats bytes = some (completionRequest model
        (userMessage (image ++ video ++ [textPart payload.prompt])) payload.maxTokens) := by
  obtain ⟨messages, hmessages, hbytes⟩ := bind_eq_ok.mp h
  obtain ⟨image, himage, hrest⟩ := bind_eq_ok.mp hmessages
  obtain ⟨video, hvideo, hmade⟩ := bind_eq_ok.mp hrest
  have hcarriedImage := carries_mediaPart himage
  have hcarriedVideo := carries_mediaPart hvideo
  refine ⟨image, video, hcarriedImage, hcarriedVideo, ?_⟩
  have htext : [ascii "type", ascii "text"].Nodup := by decide
  have hmessage : [ascii "role", ascii "content"].Nodup := by decide
  have hrequest : [ascii "model", ascii "messages", ascii "stream", ascii "max_tokens",
      ascii "temperature"].Nodup := by decide
  have hparts : ReadableItems floats (image ++ video ++ [textPart payload.prompt]) := by
    rw [readableItems_iff]
    intro part hpart
    rcases List.mem_append.mp hpart with hpart | hpart
    · rcases List.mem_append.mp hpart with hpart | hpart
      · exact readable_carried (by decide) hcarriedImage part hpart
      · exact readable_carried (by decide) hcarriedVideo part hpart
    · obtain rfl := List.mem_singleton.mp hpart
      exact ⟨htext, trivial, trivial, trivial⟩
  obtain rfl := Except.ok.inj hmade
  obtain rfl := Except.ok.inj hbytes
  have hread : Readable floats (completionRequest model
      (userMessage (image ++ video ++ [textPart payload.prompt])) payload.maxTokens) :=
    ⟨hrequest, trivial, ⟨⟨hmessage, trivial, hparts, trivial⟩, trivial⟩, trivial, trivial, trivial, trivial⟩
  have hloads := @loadsBytes_dumpsStyled .spaced floats _ hread 0 [] (by simp)
  rwa [List.append_nil] at hloads

-- From the request to the engine: which budgets are granted, that none asked for is the
-- largest of them, how a refusal is answered, and that the engine reads the prompt, the
-- files and the budget as they were given.
theorem reasoner_asked (shown : Shown) (files : Edge.FileSystem) (allowlist : List Edge.OsText)
    (cap : ContextCapConfig) (tokenizer : Option Tokenizer) (body : ReasoningBody) (media : MediaFiles)
    (floats : FloatReader) (model : Text) :
    (∀ b granted, Grants files allowlist cap tokenizer body (some b) granted ↔
      granted = b ∧ Admitted cap (countTokens tokenizer body.prompt) b ∧
        Followed files allowlist body.imagePath ∧ Followed files allowlist body.videoPath) ∧
    (∀ granted, Grants files allowlist cap tokenizer body none granted ↔
      IsGreatest {b | Grants files allowlist cap tokenizer body (some b) b} granted) ∧
    (∀ budget refusal, asked files allowlist cap tokenizer body budget = .error refusal →
      refusal.Typed shown [body.imagePath, body.videoPath]) ∧
    ∀ budget payload bytes, asked files allowlist cap tokenizer body budget = .ok payload →
      requestBody media floats.toFloatText model payload = .ok bytes →
      0 < payload.maxTokens ∧ countTokens tokenizer body.prompt + payload.maxTokens ≤ cap.maxContextTokens ∧
        ∃ image video, Carries media (ascii "image_url") (resolved files body.imagePath) image ∧
          Carries media (ascii "video_url") (resolved files body.videoPath) video ∧
          loadsBytes floats bytes = some (completionRequest model
            (userMessage (image ++ video ++ [textPart body.prompt])) payload.maxTokens) := by
  refine ⟨fun b granted => ?_, fun granted => grants_none_iff, fun budget refusal h => ?_,
    fun budget payload bytes h hbytes => ?_⟩
  · rw [grants_iff, effective]
    constructor
    · rintro ⟨rfl, h⟩
      exact ⟨rfl, h⟩
    · rintro ⟨rfl, h⟩
      exact ⟨rfl, h⟩
  · have hrefused : reason files allowlist cap tokenizer { body with maxOutputTokens := budget } =
        .error refusal := h
    have htyped := @typed_reason files allowlist shown cap tokenizer _ refusal hrefused
    exact htyped
  · obtain ⟨hadmitted, -, -, hpayload⟩ := reason_eq_ok.mp h
    obtain ⟨image, video, himage, hvideo, hread⟩ := loadsBytes_requestBody hbytes
    refine ⟨hadmitted.positive, hadmitted.window, image, video, ?_, ?_, ?_⟩
    · rw [hpayload] at himage
      exact himage
    · rw [hpayload] at hvideo
      exact hvideo
    · have hprompt : payload.prompt = body.prompt := congrArg Payload.prompt hpayload
      rw [hread, hprompt]

end Asked

section Sample

def sampleFiles : Edge.FileSystem := ⟨id⟩

def sampleVolume : Edge.OsText := ⟨ascii "/data", by decide⟩

def sampleMedia : MediaFiles := ⟨fun _ => some [0x89, 0x50], fun _ => some (ascii "image/png")⟩

-- A prompt of seven characters with an image, and no budget.
def sampleBody : ReasoningBody := { prompt := ascii "Look up", imagePath := some (ascii "/data/a.png") }

theorem reasoner_asked_sampleBody : ∃ payload bytes,
    asked sampleFiles [sampleVolume] {} none sampleBody none = .ok payload ∧ payload.maxTokens = 32765 ∧
      requestBody sampleMedia FloatText.ofFractions (ascii "cosmos3-reasoner") payload = .ok bytes ∧
      ∃ image video, Carries sampleMedia (ascii "image_url") (some (ascii "/data/a.png")) image ∧
        Carries sampleMedia (ascii "video_url") none video ∧
        loadsBytes FloatText.ofFractions.unread bytes = some (completionRequest (ascii "cosmos3-reasoner")
          (userMessage (image ++ video ++ [textPart sampleBody.prompt])) payload.maxTokens) := by
  obtain ⟨payload, hpayload, hbudget⟩ : ∃ payload,
      asked sampleFiles [sampleVolume] {} none sampleBody none = .ok payload ∧ payload.maxTokens = 32765 :=
    ⟨_, rfl, by decide⟩
  obtain ⟨bytes, hbytes⟩ : ∃ bytes,
      requestBody sampleMedia FloatText.ofFractions (ascii "cosmos3-reasoner") payload = .ok bytes := by
    cases hpayload
    exact ⟨_, rfl⟩
  obtain ⟨-, -, -, hasked⟩ := reasoner_asked Shown.quoted sampleFiles [sampleVolume] {} none sampleBody
    sampleMedia FloatText.ofFractions.unread (ascii "cosmos3-reasoner")
  obtain ⟨-, -, hread⟩ := hasked none payload bytes hpayload hbytes
  exact ⟨payload, bytes, hpayload, hbudget, hbytes, hread⟩

end Sample

end Cosmos3.Reasoning
