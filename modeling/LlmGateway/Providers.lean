import LlmGateway.Config

/-!
# Providers

`src/providers/`: the four provider classes, the HTTP exchange and the retry
loop they inherit, and the registry.  What the network answers to one POST is
an `Exchange`; building the request body and sending it are the libraries'
business and leave no other trace.

The three classes that speak the OpenAI format share one `parse_response` up to
the provider name they put into the response; `AnthropicProvider` has its own.
-/

namespace Gateway

/-- What the HTTP client reports for one POST. -/
inductive HttpReply where
  | failed (what : Str)
  | answered (status : ℤ) (text : Str) (parsed : Except Str Json)

/-- One POST: the reply and the milliseconds it took. -/
structure Exchange where
  reply : HttpReply
  elapsedMs : Double

/-- `BaseProvider::http_post`. -/
def httpPost : HttpReply → Except Exn Json
  | .failed what => .error (.runtimeError (str "HTTP request failed: " ++ what))
  | .answered status text parsed =>
      if status ≥ 400 then
        .error (.runtimeError (str "HTTP " ++ toStringInt status ++ str ": " ++ text))
      else parsed.mapError .parseError

/-- How a chat call ends.  `nullException` is `std::rethrow_exception` of an
empty pointer, after a loop that never ran. -/
inductive ChatOutcome where
  | answered (resp : ChatResponse)
  | threw (e : Exn)
  | nullException

/-- A call of `with_retry`: its outcome, the number of calls of `fn` and the
delays between them in milliseconds. -/
structure Retried where
  outcome : ChatOutcome
  attempts : Nat := 0
  delays : List ℤ := []

/-- The delay after a failed attempt, `100 * (1 << attempt)`. -/
def backoffMs (attempt : Nat) : ℤ := wrap32 (100 * wrap32 (2 ^ attempt))

/-- The loop of `with_retry` with so many attempts left, the number of the next
one, and the exception of the last one. -/
def retryLoop (fn : Nat → Except Exn ChatResponse) : Nat → Nat → Option Exn → Retried
  | 0, _, none => { outcome := .nullException }
  | 0, _, some e => { outcome := .threw e }
  | left + 1, attempt, _ =>
      match fn attempt with
      | .ok resp => { outcome := .answered resp, attempts := 1 }
      | .error e =>
          let rest := retryLoop fn left (attempt + 1) (some e)
          { rest with
            attempts := rest.attempts + 1
            delays := if left = 0 then rest.delays else backoffMs attempt :: rest.delays }

/-- `BaseProvider::with_retry`. -/
def withRetry (maxRetries : ℤ) (fn : Nat → Except Exn ChatResponse) : Retried :=
  retryLoop fn (maxRetries + 1).toNat 0 none

/-- The text of the first choice, empty where the reply has none. -/
def choiceContent (resp : Json) : Except Exn Str :=
  match resp.find? (str "choices") with
  | none => .ok []
  | some choices =>
      if choices.isEmpty then .ok []
      else do
        let choice ← choices.first
        match choice.find? (str "message") with
        | none => .ok []
        | some message => message.value Json.getString (str "content") []

/-- `parse_response` of a provider that speaks the OpenAI format. -/
def parseOpenAiFormat (name : Str) (resp : Json) (req : ChatRequest) (latencyMs : Double) :
    Except Exn ChatResponse := do
  let model ← resp.value Json.getString (str "model") req.model
  let content ← choiceContent resp
  let r : ChatResponse :=
    { requestId := req.requestId, provider := name, latencyMs := latencyMs, model := model,
      content := content, rawResponse := resp }
  match resp.find? (str "usage") with
  | none => .ok r
  | some usage =>
      let promptTokens ← usage.value Json.getInt (str "prompt_tokens") 0
      let completionTokens ← usage.value Json.getInt (str "completion_tokens") 0
      let totalTokens ← usage.value Json.getInt (str "total_tokens") 0
      .ok { r with
        promptTokens := promptTokens
        completionTokens := completionTokens
        totalTokens := totalTokens }

/-- `OpenAIProvider::parse_response`. -/
def OpenAIProvider.parseResponse := parseOpenAiFormat (str "openai")

/-- `TogetherProvider::parse_response`. -/
def TogetherProvider.parseResponse := parseOpenAiFormat (str "together")

/-- `GroqProvider::parse_response`. -/
def GroqProvider.parseResponse := parseOpenAiFormat (str "groq")

/-- The text blocks of a reply, joined. -/
def blocksContent : List Json → Except Exn Str
  | [] => .ok []
  | block :: rest => do
      let type ← block.value Json.getString (str "type") []
      let text ← if type = str "text" then block.value Json.getString (str "text") [] else .ok []
      let more ← blocksContent rest
      .ok (text ++ more)

/-- The content of an Anthropic reply, empty where it is not an array. -/
def anthropicContent (resp : Json) : Except Exn Str :=
  match resp.find? (str "content") with
  | some (.array blocks) => blocksContent blocks
  | _ => .ok []

/-- `AnthropicProvider::parse_response`. -/
def AnthropicProvider.parseResponse (resp : Json) (req : ChatRequest) (latencyMs : Double) :
    Except Exn ChatResponse := do
  let model ← resp.value Json.getString (str "model") req.model
  let content ← anthropicContent resp
  let r : ChatResponse :=
    { requestId := req.requestId, provider := str "anthropic", latencyMs := latencyMs,
      model := model, content := content, rawResponse := resp }
  match resp.find? (str "usage") with
  | none => .ok r
  | some usage =>
      let promptTokens ← usage.value Json.getInt (str "input_tokens") 0
      let completionTokens ← usage.value Json.getInt (str "output_tokens") 0
      .ok { r with
        promptTokens := promptTokens
        completionTokens := completionTokens
        totalTokens := wrap32 (promptTokens + completionTokens) }

/-- The classes derived from `BaseProvider`. -/
inductive ProviderKind where
  | openai
  | anthropic
  | together
  | groq
  deriving DecidableEq, Repr

namespace ProviderKind

/-- `name()`. -/
def name : ProviderKind → Str
  | openai => str "openai"
  | anthropic => str "anthropic"
  | together => str "together"
  | groq => str "groq"

/-- The base URL a constructor sets. -/
def defaultBaseUrl : ProviderKind → Str
  | openai => str "https://api.openai.com"
  | anthropic => str "https://api.anthropic.com"
  | together => str "https://api.together.xyz"
  | groq => str "https://api.groq.com"

/-- `supported_models()`. -/
def supportedModels : ProviderKind → List Str
  | openai =>
      [str "gpt-4o", str "gpt-4o-mini", str "gpt-4-turbo", str "o1", str "o1-mini",
       str "o3-mini", str "gpt-3.5-turbo"]
  | anthropic =>
      [str "claude-sonnet-4-20250514", str "claude-haiku-3-5", str "claude-opus-4"]
  | together =>
      [str "meta-llama/Llama-3.1-8B-Instruct", str "meta-llama/Llama-3.1-70B-Instruct",
       str "meta-llama/Llama-3.3-70B-Instruct", str "mistralai/Mixtral-8x7B-Instruct-v0.1",
       str "Qwen/Qwen2.5-72B-Instruct"]
  | groq =>
      [str "llama-3.1-8b-instant", str "llama-3.1-70b-versatile",
       str "llama-3.3-70b-versatile", str "mixtral-8x7b-32768", str "gemma2-9b-it"]

/-- `parse_response`. -/
def parseResponse : ProviderKind → Json → ChatRequest → Double → Except Exn ChatResponse
  | openai => OpenAIProvider.parseResponse
  | anthropic => AnthropicProvider.parseResponse
  | together => TogetherProvider.parseResponse
  | groq => GroqProvider.parseResponse

end ProviderKind

/-- A provider object. -/
structure Provider where
  kind : ProviderKind
  apiKey : Str
  baseUrl : Str
  timeoutMs : ℤ
  maxRetries : ℤ
  deriving DecidableEq, Repr

/-- `chat`, given what the network answers to each attempt. -/
def Provider.chat (p : Provider) (upstream : Nat → Exchange) (req : ChatRequest) : Retried :=
  withRetry p.maxRetries fun attempt => do
    let resp ← httpPost (upstream attempt).reply
    p.kind.parseResponse resp req (upstream attempt).elapsedMs

/-- `ProviderRegistry`. -/
structure ProviderRegistry where
  providers : UnorderedMap Str Provider := ∅

namespace ProviderRegistry

/-- The class `create_provider` instantiates for a name. -/
def kindOf (name : Str) : Option ProviderKind :=
  if name = str "openai" then some .openai
  else if name = str "anthropic" then some .anthropic
  else if name = str "together" then some .together
  else if name = str "groq" then some .groq
  else none

/-- `ProviderRegistry::create_provider`. -/
def createProvider (cfg : ProviderConfig) : Option Provider :=
  (kindOf cfg.name).map fun kind =>
    { kind := kind
      apiKey := cfg.apiKey
      baseUrl := if cfg.baseUrl.isEmpty then kind.defaultBaseUrl else cfg.baseUrl
      timeoutMs := cfg.timeoutMs
      maxRetries := cfg.maxRetries }

/-- The body of the loop of `ProviderRegistry::initialize`. -/
def register (reg : ProviderRegistry) (cfg : ProviderConfig) : ProviderRegistry :=
  if !cfg.enabled then reg
  else if cfg.apiKey.isEmpty then reg
  else
    match createProvider cfg with
    | none => reg
    | some provider => { providers := reg.providers.insert cfg.name provider }

/-- `ProviderRegistry::initialize`. -/
def initializeFrom (configs : List ProviderConfig) (reg : ProviderRegistry) : ProviderRegistry :=
  configs.foldl register reg

/-- `ProviderRegistry::get`. -/
def get (reg : ProviderRegistry) (name : Str) : Option Provider := reg.providers.lookup name

/-- `ProviderRegistry::available_providers`. -/
def availableProviders (walk : Traversal (Σ _ : Str, Provider)) (reg : ProviderRegistry) :
    List Str :=
  (walk.order reg.providers.entries).map Sigma.fst

end ProviderRegistry

/-- A class is instantiated for exactly its own name. -/
theorem ProviderRegistry.kindOf_eq_some {name : Str} {kind : ProviderKind} :
    kindOf name = some kind ↔ name = kind.name := by
  constructor
  · intro h
    unfold kindOf at h
    split_ifs at h with h1 h2 h3 h4 <;> cases h <;> assumption
  · intro heq
    subst heq
    cases kind <;> decide

/-- Every class has a first model. -/
theorem ProviderKind.supportedModels_ne_nil (kind : ProviderKind) : kind.supportedModels ≠ [] := by
  cases kind <;> exact List.cons_ne_nil _ _

end Gateway
