import Cosmos3.Edge.Limits
import Cosmos3.Edge.Submission
import Mathlib.Order.Bounds.Basic

namespace Cosmos3.Reasoning

open Basis Basis.Python

inductive ReasoningErrorCode where
  | emptyPrompt
  | badMaxTokens
  | contextOverCap
deriving DecidableEq

def ReasoningErrorCode.value : ReasoningErrorCode → Text
  | .emptyPrompt => ascii "empty_prompt"
  | .badMaxTokens => ascii "bad_max_tokens"
  | .contextOverCap => ascii "context_over_cap"

def defaultMaxContextTokens : ℤ := 32768

def defaultMaxOutputTokens : ℤ := defaultMaxContextTokens

structure ContextCapConfig where
  maxContextTokens : ℤ := defaultMaxContextTokens
  maxOutputTokens : ℤ := defaultMaxOutputTokens

structure ReasoningValidationError where
  code : ReasoningErrorCode
  message : Text
  expected : Option ℤ := none
  got : Option ℤ := none

-- The settings of `ReasonerConfig` that the served caps and the launch line read.
structure ReasonerConfig where
  modelDir : Text
  maxModelLen : ℤ
  maxOutputTokens : ℤ
  gpuMemoryUtilization : Number
  dtype : Text
  seed : ℤ
  servedModelName : Text

section Environment

variable (environ : Text → Option Text)

def ContextCapConfig.fromEnv : Except Exn ContextCapConfig := do
  let maxContextTokens ← Edge.MediaLimits.setting environ intOf
    (ascii "COSMOS3_REASONER_MAX_CONTEXT") defaultMaxContextTokens
  let maxOutputTokens ← Edge.MediaLimits.setting environ intOf
    (ascii "COSMOS3_REASONER_MAX_OUTPUT") defaultMaxOutputTokens
  .ok { maxContextTokens, maxOutputTokens }

def ReasonerConfig.fromEnv : Except Exn ReasonerConfig := do
  let modelDir := (environ (ascii "COSMOS3_REASONER_MODEL_DIR")).getD (ascii "/data/models/Cosmos3-Nano")
  let maxModelLen ← Edge.MediaLimits.setting environ intOf
    (ascii "COSMOS3_REASONER_MAX_CONTEXT") defaultMaxContextTokens
  let maxOutputTokens ← Edge.MediaLimits.setting environ intOf
    (ascii "COSMOS3_REASONER_MAX_OUTPUT") defaultMaxOutputTokens
  let gpuMemoryUtilization ← Edge.MediaLimits.setting environ floatOf
    (ascii "COSMOS3_REASONER_GPU_MEM_UTIL") (.finite (85 / 100))
  let dtype := (environ (ascii "COSMOS3_REASONER_DTYPE")).getD (ascii "bfloat16")
  let seed ← Edge.MediaLimits.setting environ intOf (ascii "COSMOS3_REASONER_SEED") 123
  .ok { modelDir, maxModelLen, maxOutputTokens, gpuMemoryUtilization, dtype, seed
        servedModelName := ascii "cosmos3-reasoner" }

end Environment

def ReasonerConfig.capConfig (cfg : ReasonerConfig) : ContextCapConfig where
  maxContextTokens := cfg.maxModelLen
  maxOutputTokens := min cfg.maxOutputTokens cfg.maxModelLen

def serverLaunchArgv (shown : Shown) (cfg : ReasonerConfig) : List Text :=
  [ascii "vllm", ascii "serve", cfg.modelDir, ascii "--served-model-name", cfg.servedModelName,
    ascii "--max-model-len", intText cfg.maxModelLen,
    ascii "--gpu-memory-utilization", strOf shown (.float cfg.gpuMemoryUtilization),
    ascii "--dtype", cfg.dtype, ascii "--seed", intText cfg.seed]

def validateContext (promptTokens maxOutputTokens : ℤ) (cfg : ContextCapConfig) :
    Option ReasoningValidationError :=
  if promptTokens ≤ 0 then
    some { code := .emptyPrompt
           message := ascii "prompt is empty (zero tokens); supply a non-empty prompt"
           got := some promptTokens }
  else if maxOutputTokens ≤ 0 ∨ cfg.maxOutputTokens < maxOutputTokens then
    some { code := .badMaxTokens
           message := ascii "max_output_tokens must be in 1.." ++ intText cfg.maxOutputTokens
           expected := some cfg.maxOutputTokens, got := some maxOutputTokens }
  else if cfg.maxContextTokens < promptTokens + maxOutputTokens then
    some { code := .contextOverCap
           message := ascii "prompt+output tokens (" ++ intText (promptTokens + maxOutputTokens) ++
             ascii ") exceed the " ++ intText cfg.maxContextTokens ++ ascii "-token public context cap"
           expected := some cfg.maxContextTokens, got := some (promptTokens + maxOutputTokens) }
  else none

-- A request the caps admit.
structure Admitted (cfg : ContextCapConfig) (promptTokens budget : ℤ) : Prop where
  prompt : 0 < promptTokens
  positive : 0 < budget
  ceiling : budget ≤ cfg.maxOutputTokens
  window : promptTokens + budget ≤ cfg.maxContextTokens

theorem validateContext_eq_none {promptTokens budget : ℤ} {cfg : ContextCapConfig} :
    validateContext promptTokens budget cfg = none ↔ Admitted cfg promptTokens budget := by
  rw [validateContext]
  split_ifs with hprompt hbudget hwindow
  · exact iff_of_false (by simp) fun h => absurd h.prompt (by omega)
  · refine iff_of_false (by simp) fun h => ?_
    have hpositive := h.positive
    have hceiling := h.ceiling
    omega
  · exact iff_of_false (by simp) fun h => absurd h.window (by omega)
  · exact iff_of_true rfl ⟨by omega, by omega, by omega, by omega⟩

section Derivations

variable {environ : Text → Option Text} {cap : ContextCapConfig} {cfg : ReasonerConfig}

-- The two readings of the environment agree on the caps.
theorem cap_of_fromEnv (hcap : ContextCapConfig.fromEnv environ = .ok cap)
    (hcfg : ReasonerConfig.fromEnv environ = .ok cfg) :
    cfg.maxModelLen = cap.maxContextTokens ∧ cfg.maxOutputTokens = cap.maxOutputTokens := by
  obtain ⟨context, hcontext, hrest⟩ := bind_eq_ok.mp hcap
  obtain ⟨output, houtput, hmade⟩ := bind_eq_ok.mp hrest
  obtain ⟨context', hcontext', hrest'⟩ := bind_eq_ok.mp hcfg
  obtain ⟨output', houtput', hrest'⟩ := bind_eq_ok.mp hrest'
  obtain ⟨memory, -, hrest'⟩ := bind_eq_ok.mp hrest'
  obtain ⟨seed, -, hmade'⟩ := bind_eq_ok.mp hrest'
  rw [hcontext] at hcontext'
  rw [houtput] at houtput'
  have hsame : context = context' := Except.ok.inj hcontext'
  have hsame' : output = output' := Except.ok.inj houtput'
  rw [← Except.ok.inj hmade, ← Except.ok.inj hmade', hsame, hsame']
  exact ⟨rfl, rfl⟩

-- The route and the in-process adapter admit the same requests, though the adapter's
-- output ceiling is cut at the window.
theorem admitted_capConfig (hcap : ContextCapConfig.fromEnv environ = .ok cap)
    (hcfg : ReasonerConfig.fromEnv environ = .ok cfg) (promptTokens budget : ℤ) :
    Admitted cfg.capConfig promptTokens budget ↔ Admitted cap promptTokens budget := by
  obtain ⟨hlen, hout⟩ := cap_of_fromEnv hcap hcfg
  constructor
  · intro h
    have hceiling := h.ceiling
    have hwindow := h.window
    simp only [ReasonerConfig.capConfig] at hceiling hwindow
    exact ⟨h.prompt, h.positive, by omega, by omega⟩
  · intro h
    have hprompt := h.prompt
    have hceiling := h.ceiling
    have hwindow := h.window
    refine ⟨h.prompt, h.positive, ?_, ?_⟩
    · simp only [ReasonerConfig.capConfig]
      omega
    · simp only [ReasonerConfig.capConfig]
      omega

-- The server that the plane's spec launches has the window that the route keeps to.
theorem launched_window (shown : Shown) (hcap : ContextCapConfig.fromEnv environ = .ok cap)
    (hcfg : ReasonerConfig.fromEnv environ = .ok cfg) :
    [ascii "--max-model-len", intText cap.maxContextTokens] <:+: serverLaunchArgv shown cfg := by
  rw [← (cap_of_fromEnv hcap hcfg).1]
  exact ⟨(serverLaunchArgv shown cfg).take 5, (serverLaunchArgv shown cfg).drop 7, rfl⟩

end Derivations

section Route

-- The length of what the tokenizer makes of a prompt, if it makes anything of it.
abbrev Tokenizer := Text → Option ℕ

-- `count_tokens`, which rounds a third of the length up when there is no count.
def countTokens (tokenizer : Option Tokenizer) (prompt : Text) : ℕ :=
  (tokenizer.bind fun encode => encode prompt).getD (((codePoints prompt).length + 2) / 3)

structure ReasoningBody where
  prompt : Text
  imagePath : Option Text := none
  videoPath : Option Text := none
  maxOutputTokens : Option ℤ := none

structure Payload where
  prompt : Text
  maxTokens : ℤ
  imagePath : Option Text
  videoPath : Option Text

-- Why the route refuses a request before it takes the GPU.
inductive Refusal where
  | validation (error : ReasoningValidationError)
  | path (error : Edge.PathError)

def Refusal.response (shown : Shown) : Refusal → ℕ × Edge.ErrorBody
  | .validation err =>
      (422, { code := err.code.value, message := err.message,
              details := Edge.details (err.expected.map .int) (err.got.map .int) })
  | .path err => Edge.toErrorResponse shown err.toEdge

variable (files : Edge.FileSystem) (allowlist : List Edge.OsText)

-- A path that is empty is one that was not given.
def conditioningPath : Option Text → Except Refusal (Option Text)
  | none | some [] => .ok none
  | some path => ((Edge.resolveWithin files path allowlist).mapError .path).map some

variable (cap : ContextCapConfig) (tokenizer : Option Tokenizer)

def effective (promptTokens : ℤ) : Option ℤ → ℤ
  | none => min cap.maxOutputTokens (max 1 (cap.maxContextTokens - promptTokens))
  | some maxOutputTokens => maxOutputTokens

def reason (body : ReasoningBody) : Except Refusal Payload := do
  let promptTokens := countTokens tokenizer body.prompt
  let effective := effective cap promptTokens body.maxOutputTokens
  match validateContext promptTokens effective cap with
  | some error => .error (.validation error)
  | none => do
    let imagePath ← conditioningPath files allowlist body.imagePath
    let videoPath ← conditioningPath files allowlist body.videoPath
    .ok { prompt := body.prompt, maxTokens := effective, imagePath, videoPath }

end Route

section Granted

variable {files : Edge.FileSystem} {allowlist : List Edge.OsText} {cap : ContextCapConfig}
  {tokenizer : Option Tokenizer} {body : ReasoningBody} {payload : Payload} {path : Option Text}

-- A path the route follows: it is not given, or it lies in the allowlist.
def Followed (files : Edge.FileSystem) (allowlist : List Edge.OsText) (path : Option Text) : Prop :=
  ∀ given ∈ path, given ≠ [] → Edge.isRemote given = false ∧ Edge.encodable given = true ∧
    Edge.isTrusted files given allowlist = true

def resolved (files : Edge.FileSystem) (path : Option Text) : Option Text :=
  (path.filter (· ≠ [])).map files.resolve

theorem resolveWithin_eq_ok {given found : Text} :
    Edge.resolveWithin files given allowlist = .ok found ↔
      (Edge.isRemote given = false ∧ Edge.encodable given = true ∧
        Edge.isTrusted files given allowlist = true) ∧ found = files.resolve given := by
  rw [Edge.resolveWithin_eq]
  split_ifs with hremote hencodable htrusted
  · simp [hremote]
  · simp [hencodable]
  · simp [hremote, hencodable, htrusted, eq_comm]
  · simp [htrusted]

theorem conditioningPath_eq_ok {found : Option Text} :
    conditioningPath files allowlist path = .ok found ↔
      Followed files allowlist path ∧ found = resolved files path := by
  have hskip {given : Option Text} (h : ∀ t ∈ given, t = []) : Followed files allowlist given :=
    fun t ht hne => absurd (h t ht) hne
  have hnone : (Except.ok none : Except Refusal (Option Text)) = .ok found ↔ found = none := by
    rw [Except.ok.injEq, eq_comm]
  rcases path with _ | _ | ⟨u, given⟩
  · exact hnone.trans ⟨fun h => ⟨hskip (by simp), h⟩, fun h => h.2⟩
  · exact hnone.trans ⟨fun h => ⟨hskip (by simp), h⟩, fun h => h.2⟩
  · have hfilter : (some (u :: given)).filter (fun t : Text => t ≠ []) = some (u :: given) := by simp
    rw [conditioningPath, Basis.map_eq_ok, resolved, hfilter]
    swap
    · simp
    constructor
    · rintro ⟨target, htarget, rfl⟩
      obtain ⟨htrusted, rfl⟩ := resolveWithin_eq_ok.mp (mapError_eq_ok.mp htarget)
      exact ⟨fun other hother _ => Option.some.inj hother ▸ htrusted, rfl⟩
    · rintro ⟨hfollowed, rfl⟩
      exact ⟨_, mapError_eq_ok.mpr (resolveWithin_eq_ok.mpr ⟨hfollowed _ rfl (by simp), rfl⟩), rfl⟩

theorem reason_eq_ok : reason files allowlist cap tokenizer body = .ok payload ↔
    Admitted cap (countTokens tokenizer body.prompt) payload.maxTokens ∧
      Followed files allowlist body.imagePath ∧ Followed files allowlist body.videoPath ∧
      payload = ⟨body.prompt, effective cap (countTokens tokenizer body.prompt) body.maxOutputTokens,
        resolved files body.imagePath, resolved files body.videoPath⟩ := by
  rw [reason]
  constructor
  · intro h
    cases hvalid : validateContext (countTokens tokenizer body.prompt)
        (effective cap (countTokens tokenizer body.prompt) body.maxOutputTokens) cap with
    | some error =>
        rw [hvalid] at h
        cases h
    | none =>
        rw [hvalid] at h
        obtain ⟨image, himage, hrest⟩ := bind_eq_ok.mp h
        obtain ⟨video, hvideo, hmade⟩ := bind_eq_ok.mp hrest
        obtain ⟨htrustedImage, rfl⟩ := conditioningPath_eq_ok.mp himage
        obtain ⟨htrustedVideo, rfl⟩ := conditioningPath_eq_ok.mp hvideo
        obtain rfl := Except.ok.inj hmade
        exact ⟨validateContext_eq_none.mp hvalid, htrustedImage, htrustedVideo, rfl⟩
  · rintro ⟨hadmitted, himage, hvideo, rfl⟩
    rw [validateContext_eq_none.mpr hadmitted]
    exact bind_eq_ok.mpr ⟨_, conditioningPath_eq_ok.mpr ⟨himage, rfl⟩,
      bind_eq_ok.mpr ⟨_, conditioningPath_eq_ok.mpr ⟨hvideo, rfl⟩, rfl⟩⟩

-- The budget of a request that names none is the largest that it could have named.
theorem isGreatest_effective {promptTokens budget : ℤ} (h : Admitted cap promptTokens budget) :
    IsGreatest {b | Admitted cap promptTokens b} (effective cap promptTokens none) := by
  have hprompt := h.prompt
  have hpositive := h.positive
  have hceiling := h.ceiling
  have hwindow := h.window
  refine ⟨⟨hprompt, ?_, ?_, ?_⟩, ?_⟩
  · simp only [effective]
    omega
  · simp only [effective]
    omega
  · simp only [effective]
    omega
  · intro b hb
    have hc := hb.ceiling
    have hw := hb.window
    simp only [effective]
    omega

end Granted

end Cosmos3.Reasoning
