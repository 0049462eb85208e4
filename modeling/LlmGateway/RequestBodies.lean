import LlmGateway.SharedCache
import LlmGateway.Progress

/-!
# What the providers are asked

`build_request_body` of the provider classes, and the POST that `chat` makes with it.
The three classes of the OpenAI format send the messages as they are, and only one of
them names the user; `AnthropicProvider` takes the system messages out and joins them
to one text.

The gateway can read such a body as one of its own, and finds in it the request that
it was built from, up to what the class leaves out (`readRequest_requestBody`).  So a
provider is asked what the client asked, under the model that the gateway chose and
with the key of the configuration, whatever other requests are served at the same time
(`providers_asked`).
-/

namespace Gateway

open Interleaving Prog

/-! ## The bodies -/

/-- The entry of a message in `messages`. -/
def Message.entry (msg : Message) : Json :=
  .object [(str "role", .string msg.role), (str "content", .string msg.content)]

/-- The loop that two classes share. -/
def messageEntries (messages : List Message) : List Json :=
  messages.foldl (fun entries msg => entries ++ [msg.entry]) []

/-- The members that the bodies of the OpenAI format have in common. -/
def openAiMembers (req : ChatRequest) : List (Str × Json) :=
  [(str "model", .string req.model),
   (str "messages", .array (messageEntries req.messages)),
   (str "temperature", .float req.temperature),
   (str "max_tokens", .integer req.maxTokens)] ++
    if req.stream then [(str "stream", .boolean true)] else []

/-- `OpenAIProvider::build_request_body`; no request has extra parameters to merge. -/
def OpenAIProvider.buildRequestBody (req : ChatRequest) : Json :=
  .object (openAiMembers req ++ (req.user.map fun user => (str "user", .string user)).toList)

/-- `TogetherProvider::build_request_body`. -/
def TogetherProvider.buildRequestBody (req : ChatRequest) : Json := .object (openAiMembers req)

/-- `GroqProvider::build_request_body`. -/
def GroqProvider.buildRequestBody (req : ChatRequest) : Json := .object (openAiMembers req)

/-- The loop of `AnthropicProvider`: the entries and the system prompt. -/
def anthropicLoop (messages : List Message) : List Json × Str :=
  messages.foldl (fun acc msg =>
    if msg.role = str "system" then (acc.1, acc.2 ++ (msg.content ++ str "\n"))
    else (acc.1 ++ [msg.entry], acc.2)) ([], [])

/-- `AnthropicProvider::build_request_body`. -/
def AnthropicProvider.buildRequestBody (req : ChatRequest) : Json :=
  let split := anthropicLoop req.messages
  .object
    ([(str "model", .string req.model),
      (str "messages", .array split.1),
      (str "max_tokens", .integer req.maxTokens),
      (str "temperature", .float req.temperature)] ++
      (if split.2.isEmpty then [] else [(str "system", .string split.2)]) ++
      if req.stream then [(str "stream", .boolean true)] else [])

/-- `build_request_body`. -/
def ProviderKind.buildRequestBody : ProviderKind → ChatRequest → Json
  | openai => OpenAIProvider.buildRequestBody
  | anthropic => AnthropicProvider.buildRequestBody
  | together => TogetherProvider.buildRequestBody
  | groq => GroqProvider.buildRequestBody

/-- The path that `chat` posts to. -/
def ProviderKind.path : ProviderKind → Str
  | openai | together => str "/v1/chat/completions"
  | anthropic => str "/v1/messages"
  | groq => str "/openai/v1/chat/completions"

/-- The headers that `chat` sets. -/
def Provider.headers (p : Provider) : List (Str × Str) :=
  match p.kind with
  | .anthropic => [(str "x-api-key", p.apiKey), (str "anthropic-version", str "2023-06-01")]
  | _ => [(str "Authorization", str "Bearer " ++ p.apiKey)]

/-- One POST of `http_post`. -/
structure Post where
  url : Str
  path : Str
  headers : List (Str × Str)
  body : Json

/-- What `chat` sends at every attempt. -/
def Provider.post (p : Provider) (req : ChatRequest) : Post where
  url := p.baseUrl
  path := p.kind.path
  headers := p.headers ++ [jsonHeader]
  body := p.kind.buildRequestBody req

/-! ## What the bodies say -/

/-- The messages that a class sends as messages. -/
def ProviderKind.spoken (kind : ProviderKind) (messages : List Message) : List Message :=
  match kind with
  | .anthropic => messages.filter fun msg => msg.role ≠ str "system"
  | _ => messages

/-- The system messages, each on a line of its own. -/
def systemText (messages : List Message) : Str :=
  (messages.filter fun msg => msg.role = str "system").flatMap fun msg => msg.content ++ str "\n"

/-- The text that a class sends as the system prompt. -/
def ProviderKind.prompt (kind : ProviderKind) (messages : List Message) : Option Str :=
  match kind with
  | .anthropic =>
      if messages.any fun msg => msg.role = str "system" then some (systemText messages) else none
  | _ => none

/-- The request that a gateway finds in the body that it is sent. -/
def ProviderKind.conveyed (kind : ProviderKind) (requestId : Str) (req : ChatRequest) :
    Option ChatRequest :=
  if kind.spoken req.messages = [] then none
  else some
    { requestId := requestId
      model := req.model
      messages := kind.spoken req.messages
      temperature := req.temperature
      maxTokens := req.maxTokens
      stream := req.stream
      user := if kind = .openai then req.user else none }

theorem messageEntries_eq (messages : List Message) :
    messageEntries messages = messages.map Message.entry := by
  have hloop : ∀ entries : List Json,
      messages.foldl (fun entries msg => entries ++ [msg.entry]) entries =
        entries ++ messages.map Message.entry := by
    induction messages with
    | nil => simp
    | cons msg messages ih => simp [ih]
  exact hloop []

theorem anthropicLoop_eq (messages : List Message) :
    anthropicLoop messages =
      ((ProviderKind.anthropic.spoken messages).map Message.entry, systemText messages) := by
  have hloop : ∀ acc : List Json × Str,
      messages.foldl (fun acc msg =>
        if msg.role = str "system" then (acc.1, acc.2 ++ (msg.content ++ str "\n"))
        else (acc.1 ++ [msg.entry], acc.2)) acc =
        (acc.1 ++ (ProviderKind.anthropic.spoken messages).map Message.entry,
          acc.2 ++ systemText messages) := by
    induction messages with
    | nil => simp [ProviderKind.spoken, systemText]
    | cons msg messages ih =>
        intro acc
        by_cases hsystem : msg.role = str "system"
        · simp [hsystem, ih, ProviderKind.spoken, systemText]
        · simp [hsystem, ih, ProviderKind.spoken, systemText]
  exact hloop ([], [])

/-- There is a system prompt if there is a system message. -/
theorem systemText_eq_nil_iff (messages : List Message) :
    systemText messages = [] ↔ (messages.any fun msg => msg.role = str "system") = false := by
  have hline : ∀ content : Str, content ++ str "\n" ≠ [] := fun content h =>
    absurd (List.append_eq_nil_iff.mp h).2 (by decide)
  simp [systemText, hline]

/-- The entries are read as the messages they were made from. -/
theorem readMessages_entries (messages : List Message) :
    readMessages (messages.map Message.entry) = .ok messages := by
  induction messages with
  | nil => rfl
  | cons msg messages ih =>
      rw [List.map_cons, readMessages, ih]
      rfl

/-- What the typed accessors find in a body. -/
structure Tells (body : Json) (req : ChatRequest) (entries : List Json) (user : Option Str) :
    Prop where
  model : ∀ dflt, body.value Json.getString (str "model") dflt = .ok req.model
  temperature : ∀ dflt, body.value Json.getDouble (str "temperature") dflt = .ok req.temperature
  maxTokens : ∀ dflt, body.value Json.getInt (str "max_tokens") dflt = .ok (wrap32 req.maxTokens)
  stream : body.value Json.getBool (str "stream") false = .ok req.stream
  user : readUser body = .ok user
  messages : body.find? (str "messages") = some (.array entries)

/-- A class of the OpenAI format, with the last members of its body. -/
theorem tells_openAiMembers (req : ChatRequest) (user : Option Str) :
    Tells (.object (openAiMembers req ++ (user.map fun user => (str "user", .string user)).toList))
      req (req.messages.map Message.entry) user := by
  refine ⟨fun _ => rfl, fun _ => rfl, fun _ => rfl, ?_, ?_, ?_⟩
  · cases hstream : req.stream <;> cases user <;> simp only [openAiMembers, hstream] <;> rfl
  · cases hstream : req.stream <;> cases user <;> simp only [openAiMembers, hstream] <;> rfl
  · rw [← messageEntries_eq]
    rfl

theorem tells_anthropic (req : ChatRequest) :
    Tells (AnthropicProvider.buildRequestBody req) req
      ((ProviderKind.anthropic.spoken req.messages).map Message.entry) none := by
  have hloop := anthropicLoop_eq req.messages
  refine ⟨fun _ => rfl, fun _ => rfl, fun _ => rfl, ?_, ?_, ?_⟩
  · simp only [AnthropicProvider.buildRequestBody]
    cases hstream : req.stream <;> split <;> rfl
  · simp only [AnthropicProvider.buildRequestBody]
    cases hstream : req.stream <;> split <;> rfl
  · have hentries : (anthropicLoop req.messages).1 =
        (ProviderKind.anthropic.spoken req.messages).map Message.entry := congrArg Prod.fst hloop
    rw [← hentries]
    rfl

theorem tells_requestBody (kind : ProviderKind) (req : ChatRequest) :
    Tells (kind.buildRequestBody req) req ((kind.spoken req.messages).map Message.entry)
      (if kind = .openai then req.user else none) := by
  cases kind with
  | openai => exact tells_openAiMembers req req.user
  | anthropic => exact tells_anthropic req
  | together | groq =>
      have htells := tells_openAiMembers req none
      rw [Option.map_none, Option.toList_none, List.append_nil] at htells
      exact htells

/-- **A body says what its request asks.**  Read as the gateway reads the bodies of
its own clients, the body of a class is the request it was built from. -/
theorem readRequest_requestBody (kind : ProviderKind) (requestId : Str) {req : ChatRequest}
    (htokens : FitsInt req.maxTokens) :
    readRequest requestId (kind.buildRequestBody req) = .ok (kind.conveyed requestId req) := by
  obtain ⟨hmodel, htemperature, hmaxTokens, hstream, huser, hmessages⟩ :=
    tells_requestBody kind req
  unfold readRequest
  rw [hmodel, htemperature, hmaxTokens, hstream, huser]
  simp only [hmessages, wrap32_of_fits htokens, ProviderKind.conveyed]
  cases hspoken : kind.spoken req.messages with
  | nil => rfl
  | cons msg rest =>
      have hread := readMessages_entries (msg :: rest)
      rw [if_neg (List.cons_ne_nil _ _)]
      simp only [Json.elements, hread]
      rfl

/-- The system prompt of a body. -/
theorem requestBody_system (kind : ProviderKind) (req : ChatRequest) :
    (kind.buildRequestBody req).find? (str "system") =
      (kind.prompt req.messages).map Json.string := by
  have hformat : ∀ user : Option Str,
      (Json.object (openAiMembers req ++
        (user.map fun user => (str "user", Json.string user)).toList)).find? (str "system") =
          none := by
    intro user
    cases hstream : req.stream <;> cases user <;> simp only [openAiMembers, hstream] <;> rfl
  cases kind with
  | openai => exact hformat req.user
  | together | groq =>
      have hnone := hformat none
      rw [Option.map_none, Option.toList_none, List.append_nil] at hnone
      exact hnone
  | anthropic =>
      have hsystem : (anthropicLoop req.messages).2 = systemText req.messages :=
        congrArg Prod.snd (anthropicLoop_eq req.messages)
      have hempty := systemText_eq_nil_iff req.messages
      simp only [ProviderKind.buildRequestBody, AnthropicProvider.buildRequestBody,
        ProviderKind.prompt, hsystem]
      cases hany : req.messages.any fun msg => msg.role = str "system" with
      | false =>
          rw [hempty.mpr hany]
          cases hstream : req.stream <;> rfl
      | true =>
          have hne : systemText req.messages ≠ [] := fun h =>
            Bool.false_ne_true ((hempty.mp h).symm.trans hany)
          rw [if_neg (by simpa using hne)]
          rfl

/-! ## Who is asked what -/

/-- The gateway looks providers up in the registry. -/
def FromRegistry (registry : ProviderRegistry) : Event Op Op.Res → Prop
  | ⟨.getProvider name, found⟩ => found = registry.get name
  | _ => True

theorem lawful_registry (P : Platform) (registry : ProviderRegistry) :
    Lawful (Op.exec P) (fun _ => True) (fun s => s.registry = registry)
      (FromRegistry registry) where
  keeps e o s _ hs := (o.exec_registry P e s).trans hs
  answers e o s _ hs := by
    cases o with
    | getProvider name => exact congrArg (ProviderRegistry.get · name) hs
    | _ => trivial

/-- A provider is called under its registered name, and asked for this completion. -/
def Op.AsksFor (registry : ProviderRegistry) (asked : Option ChatRequest) : Op → Prop
  | .callProvider name provider sent =>
      registry.get name = some provider ∧
        ∃ req, asked = some req ∧ sent = { req with model := sent.model }
  | _ => True

/-- The provider calls of a program ask for this completion. -/
abbrev Asks (registry : ProviderRegistry) (asked : Option ChatRequest) {α : Type}
    (p : Program α) : Prop :=
  CallsOnly (FromRegistry registry) (Op.AsksFor registry asked) p

namespace Handler

variable {P : Platform} {registry : ProviderRegistry} {req : ChatRequest}
  {decision : RouteDecision}

theorem tryFallbacks_asks (chain : List Str) :
    Asks registry (some req) (tryFallbacks req chain) := by
  induction chain with
  | nil => trivial
  | cons fbName chain ih =>
      simp only [tryFallbacks, perform_bind]
      refine .step trivial fun (found : Option Provider) hfound => ?_
      cases found with
      | none => exact ih
      | some fb =>
          simp only
          split
          · exact ih
          · refine .step ⟨Eq.symm hfound, req, rfl, rfl⟩ fun (outcome : ChatOutcome) _ => ?_
            cases outcome with
            | answered resp => exact .step trivial fun _ _ => trivial
            | threw e => exact .step trivial fun _ _ => ih
            | nullException => trivial

theorem callProviders_asks {provider : Provider}
    (hget : registry.get decision.provider = some provider) :
    Asks registry (some req) (callProviders req decision provider) := by
  refine .step ⟨hget, req, rfl, rfl⟩ fun (outcome : ChatOutcome) _ => ?_
  cases outcome with
  | answered resp => exact .step trivial fun _ _ => trivial
  | threw e => exact .step trivial fun _ _ => tryFallbacks_asks _
  | nullException => trivial

theorem settle_asks (resp : ChatResponse) :
    Asks registry (some req) (settle req decision resp) := by
  simp only [settle, perform_bind]
  refine .step trivial fun cost _ => .step trivial fun now _ => .step trivial fun _ _ => ?_
  refine CallsOnly.bind ?_ fun _ => .step trivial fun _ _ => .step trivial fun _ _ => ?_
  · unfold recordUsage
    split
    · trivial
    · exact .step trivial fun _ _ => trivial
  · refine .step trivial fun (stored : Bool) _ => ?_
    cases stored <;> trivial

theorem refuse_asks (resp : Response) : Asks registry (some req) (refuse resp) :=
  .step trivial fun _ _ => trivial

theorem routeStep_asks : Asks registry (some req) (routeStep req) := by
  simp only [routeStep, perform_bind]
  refine .step trivial fun (decision : RouteDecision) _ => ?_
  split
  · exact refuse_asks _
  · refine .step trivial fun (found : Option Provider) hfound => ?_
    cases found with
    | none => exact refuse_asks _
    | some provider =>
        refine CallsOnly.bind (callProviders_asks (Eq.symm hfound)) fun finish => ?_
        cases finish with
        | answered resp => exact settle_asks resp
        | failed => exact refuse_asks _
        | crashed => trivial

theorem limitStep_asks : Asks registry (some req) (limitStep P req) := by
  have hcache : Asks registry (some req) (cacheStep req) := by
    refine .step trivial fun (cached : Option ChatResponse) _ => ?_
    cases cached with
    | some cached => exact .step trivial fun _ _ => trivial
    | none => exact .step trivial fun _ _ => routeStep_asks
  unfold limitStep
  split
  · exact hcache
  · simp only [perform_bind]
    refine .step trivial fun _ _ => .step trivial fun (checked : RateLimitResult) _ => ?_
    split
    · trivial
    · exact hcache

theorem chatCompletions_asks (draw : UInt64) (http : HttpRequest) :
    Asks registry (Request.completions draw http).asked (chatCompletions P draw http) := by
  simp only [chatCompletions, perform_bind, Request.asked]
  refine .step trivial fun _ _ => ?_
  cases http.body with
  | none => trivial
  | some body =>
      rw [Option.bind_some]
      rcases hread : readRequest (generateRequestId draw) body with e | _ | req
      · simp only [hread]
        trivial
      · simp only [hread]
        trivial
      · simp only [hread]
        exact limitStep_asks

theorem legacyCache_asks : Asks registry (some req) (legacyCache req) := by
  simp only [legacyCache, legacyRoute, legacyCall, perform_bind]
  refine .step trivial fun (cached : Option ChatResponse) _ => ?_
  cases cached with
  | some cached => trivial
  | none =>
      refine .step trivial fun (decision : RouteDecision) _ => ?_
      refine .step trivial fun (found : Option Provider) hfound => ?_
      cases found with
      | none => trivial
      | some provider =>
          refine .step ⟨Eq.symm hfound, req, rfl, rfl⟩ fun (outcome : ChatOutcome) _ => ?_
          cases outcome with
          | threw e => trivial
          | nullException => trivial
          | answered resp =>
              refine .step trivial fun (stored : Bool) _ => ?_
              cases stored <;> trivial

theorem chat_asks (draw : UInt64) (http : HttpRequest) :
    Asks registry (Request.chat draw http).asked (chat draw http) := by
  simp only [chat, Request.asked]
  cases http.body with
  | none => trivial
  | some body =>
      rw [Option.bind_some]
      cases hread : body.value Json.getString (str "prompt") [] with
      | error e =>
          simp only [hread]
          trivial
      | ok prompt =>
          simp only [hread]
          split
          · trivial
          · exact legacyCache_asks

end Handler

theorem Request.handler_asks (P : Platform) (startTime : Time) (registry : ProviderRegistry)
    (request : Request) : Asks registry request.asked (request.handler P startTime) := by
  have huses := request.handler_uses P startTime
  have hanswer : ∀ {asked : Option ChatRequest} {p : Program Reply}, Asks registry asked p →
      Asks registry asked (Answer.of <$> p) := fun h => h.bind fun _ => trivial
  cases request with
  | completions draw http => exact hanswer (Handler.chatCompletions_asks draw http)
  | chat draw http => exact hanswer (Handler.chat_asks draw http)
  | _ =>
      refine CallsOnly.of_uses (huses.mono fun o ho => ?_)
      cases o <;> trivial

/-! ## Numbers of tokens -/

theorem Json.fitsInt_of_getInt {v : Json} {n : ℤ} (h : v.getInt = .ok n) : FitsInt n := by
  cases v with
  | integer m =>
      cases h
      exact fitsInt_wrap32 m
  | float x =>
      cases h
      exact fitsInt_wrap32 _
  | boolean b =>
      cases h
      cases b <;> decide
  | _ => cases h

/-- The limit that a request asks for is an `int`. -/
theorem fitsInt_of_readRequest {requestId : Str} {body : Json} {req : ChatRequest}
    (h : readRequest requestId body = .ok (some req)) : FitsInt req.maxTokens := by
  obtain ⟨model, -, h⟩ := bind_eq_ok h
  obtain ⟨temperature, -, h⟩ := bind_eq_ok h
  obtain ⟨maxTokens, hmaxTokens, h⟩ := bind_eq_ok h
  obtain ⟨stream, -, h⟩ := bind_eq_ok h
  obtain ⟨user, -, h⟩ := bind_eq_ok h
  have hfits : FitsInt maxTokens := by
    rcases Json.value_eq_ok hmaxTokens with ⟨v, -, hget⟩ | ⟨-, rfl⟩
    · exact Json.fitsInt_of_getInt hget
    · decide
  split at h
  · cases h
  · split at h
    · cases h
    · obtain ⟨messages, -, h⟩ := bind_eq_ok h
      cases h
      exact hfits

theorem Request.fitsInt_asked {request : Request} {asked : ChatRequest}
    (h : request.asked = some asked) : FitsInt asked.maxTokens := by
  cases request with
  | completions draw http =>
      obtain ⟨body, -, h⟩ := Option.bind_eq_some_iff.mp h
      split at h
      · next req hread =>
          have hfits : FitsInt req.maxTokens := fitsInt_of_readRequest hread
          cases h
          exact hfits
      · cases h
  | chat draw http =>
      obtain ⟨body, -, h⟩ := Option.bind_eq_some_iff.mp h
      split at h
      · split at h
        · cases h
        · have hdefault : FitsInt 1024 := by decide
          cases h
          exact hdefault
      · cases h
  | _ => cases h

/-! ## Every schedule -/

/-- **Providers are asked what the client asked.**  Whatever is served at the same
time, a provider call is made for a completion that its own client asked for, on a
provider of the configuration; the body of its POST reads as that completion under the
routed model, the system prompt is made of its system messages, and the POST does not
depend on the key that the client presented. -/
theorem providers_asked {ι : Type} [DecidableEq ι] (P : Platform) (startTime : Time)
    (cfg : GatewayConfig) (requests : ι → Request) (sched : List (ι × Moment))
    {en : Entry ι Moment Op Op.Res}
    (hen : en ∈ (Service.after P startTime (.init cfg) requests sched).log)
    {name : Str} {provider : Provider} {sent : ChatRequest}
    (hcall : en.event.1 = .callProvider name provider sent) :
    ∃ asked, (requests en.thread).asked = some asked ∧
      (∃ pc ∈ cfg.providers, pc.name = name ∧
        ProviderRegistry.createProvider pc = some provider) ∧
      (∀ requestId, readRequest requestId (provider.post sent).body =
        .ok (provider.kind.conveyed requestId { asked with model := sent.model })) ∧
      (provider.post sent).body.find? (str "system") =
        (provider.kind.prompt asked.messages).map Json.string ∧
      ∀ apiKey, provider.post sent = provider.post { sent with apiKey := apiKey } := by
  have hrun := Service.explained P startTime (.init cfg) requests sched
  have hanswers := (hrun.lawful (lawful_registry P (registryOf cfg)) (fun i => uses_all _) rfl).2
  have hasks := hrun.meets hanswers
    ((requests en.thread).handler_asks P startTime (registryOf cfg)).meets en.event
    (mem_traceOf.mpr ⟨en, hen, rfl, rfl⟩)
  rw [hcall] at hasks
  obtain ⟨hget, asked, hasked, hsent⟩ := hasks
  have hfits : FitsInt sent.maxTokens := by
    have hlimit : FitsInt asked.maxTokens := Request.fitsInt_asked hasked
    rw [hsent]
    exact hlimit
  refine ⟨asked, hasked, ?_, fun requestId => ?_, ?_, fun apiKey => ?_⟩
  · rcases ProviderRegistry.mem_of_get_initializeFrom hget with hnone | hconfigured
    · cases hnone
    · exact hconfigured
  · rw [← hsent]
    exact readRequest_requestBody provider.kind requestId hfits
  · rw [show asked.messages = sent.messages by rw [hsent]]
    exact requestBody_system provider.kind sent
  · obtain ⟨kind, key, url, timeout, retries⟩ := provider
    cases kind <;> rfl

/-- The greeting as it is sent there. -/
def sentGreeting : ChatRequest := { secondGreeting with model := str "gemma2-9b-it" }

/-- The call that is made for it. -/
def greetingCall (i : Fin 2) : Entry (Fin 2) Moment Op Op.Res :=
  ⟨i, online, ⟨.callProvider (str "groq") groqProvider sentGreeting, .answered
    { requestId := generateRequestId 1, provider := str "groq", model := str "gemma2-9b-it",
      rawResponse := .object [] }⟩⟩

set_option maxRecDepth 4096 in
theorem greetingCall_made :
    greetingCall 1 ∈ (Service.after (cLocale fnv1a) 0 (.init (oneProvider 10).config) twoGreetings
      alternating).log :=
  List.mem_of_getElem? (i := 11) (by with_unfolding_all rfl)

theorem providers_asked_alternating :
    ∃ asked, (twoGreetings 1).asked = some asked ∧
      (∃ pc ∈ (oneProvider 10).config.providers, pc.name = str "groq" ∧
        ProviderRegistry.createProvider pc = some groqProvider) ∧
      (∀ requestId, readRequest requestId (groqProvider.post sentGreeting).body =
        .ok (groqProvider.kind.conveyed requestId { asked with model := sentGreeting.model })) ∧
      (groqProvider.post sentGreeting).body.find? (str "system") =
        (groqProvider.kind.prompt asked.messages).map Json.string ∧
      ∀ apiKey, groqProvider.post sentGreeting =
        groqProvider.post { sentGreeting with apiKey := apiKey } :=
  providers_asked (cLocale fnv1a) 0 (oneProvider 10).config twoGreetings alternating
    greetingCall_made rfl

end Gateway
