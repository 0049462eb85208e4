import LlmGateway.RequestParsing
import LlmGateway.Retries

/-!
# Parsing a reply

`parse_response` runs inside the retry loop, so a reply that makes one of its
accessors throw is a failed attempt although the provider has answered, and it is
asked again.  `WellShaped` says which replies read without an exception, and
`taken_iff` that these are the ones a call takes: no further POST and no failure
reported.
-/

namespace Gateway

/-- A block of an Anthropic reply that reads without an exception. -/
def BlockFits (block : Json) : Prop :=
  block.HasFields [("type", Json.isString)] ∧
    (block.find? (str "type") = some (.string (str "text")) →
      block.Fits (str "text") Json.isString)

/-- The first of the choices, where there are any, has a message that can be
read or none. -/
def ChoicesFit (choices : Json) : Prop :=
  choices.isEmpty = true ∨ ∃ choice rest, choices = .array (choice :: rest) ∧
    ∀ message, choice.find? (str "message") = some message →
      message.HasFields [("content", Json.isString)]

/-- A reply in the OpenAI format that reads without an exception. -/
structure OpenAiShaped (resp : Json) : Prop where
  top : resp.HasFields [("model", Json.isString)]
  choices : ∀ choices, resp.find? (str "choices") = some choices → ChoicesFit choices
  usage : ∀ usage, resp.find? (str "usage") = some usage → usage.HasFields
    [("prompt_tokens", Json.isInt), ("completion_tokens", Json.isInt),
      ("total_tokens", Json.isInt)]

/-- An Anthropic reply that reads without an exception. -/
structure AnthropicShaped (resp : Json) : Prop where
  top : resp.HasFields [("model", Json.isString)]
  content : ∀ blocks, resp.find? (str "content") = some (.array blocks) →
    ∀ block ∈ blocks, BlockFits block
  usage : ∀ usage, resp.find? (str "usage") = some usage → usage.HasFields
    [("input_tokens", Json.isInt), ("output_tokens", Json.isInt)]

/-- A reply that the class for a provider reads without an exception. -/
def WellShaped : ProviderKind → Json → Prop
  | .anthropic => AnthropicShaped
  | .openai => OpenAiShaped
  | .together => OpenAiShaped
  | .groq => OpenAiShaped

/-! ## The parsers -/

theorem readString_ok_iff (j : Json) (key : String) (dflt : Str) :
    (∃ s, j.value Json.getString (str key) dflt = .ok s) ↔ j.HasFields [(key, Json.isString)] := by
  rw [Json.value_ok_iff Json.getString_ok_iff]
  simp [Json.HasFields]

theorem readInt_ok_iff (j : Json) (key : String) :
    (∃ n, j.value Json.getInt (str key) 0 = .ok n) ↔
      j.isObject = true ∧ j.Fits (str key) Json.isInt :=
  Json.value_ok_iff Json.getInt_ok_iff j (str key) 0

theorem choiceContent_ok_iff (resp : Json) :
    (∃ content, choiceContent resp = .ok content) ↔
      ∀ choices, resp.find? (str "choices") = some choices → ChoicesFit choices := by
  unfold choiceContent
  cases resp.find? (str "choices") with
  | none => simp
  | some choices =>
      simp only [Option.some.injEq, forall_eq']
      by_cases hempty : choices.isEmpty = true
      · rw [if_pos hempty]
        exact iff_of_true ⟨_, rfl⟩ (.inl hempty)
      · rw [if_neg hempty, exists_bind_ok]
        constructor
        · intro h
          obtain ⟨choice, hfirst, hmessage⟩ := h
          cases choices with
          | array xs =>
              cases xs with
              | nil => exact absurd rfl hempty
              | cons c rest =>
                  obtain rfl : c = choice := Except.ok.inj hfirst
                  refine .inr ⟨c, rest, rfl, fun message hfind => ?_⟩
                  rw [hfind] at hmessage
                  exact (readString_ok_iff message "content" []).mp hmessage
          | _ => cases hfirst
        · intro h
          obtain ⟨choice, rest, rfl, hmessage⟩ := h.resolve_left hempty
          refine ⟨choice, rfl, ?_⟩
          cases hfind : choice.find? (str "message") with
          | none => exact ⟨[], rfl⟩
          | some message =>
              exact (readString_ok_iff message "content" []).mpr (hmessage message hfind)

/-- The type that is read of a block is `text` when the block says so. -/
theorem blockType_eq_text {block : Json} {type : Str}
    (h : block.value Json.getString (str "type") [] = .ok type) :
    type = str "text" ↔ block.find? (str "type") = some (.string (str "text")) := by
  rcases Json.value_eq_ok h with ⟨v, hfind, hread⟩ | ⟨hfind, rfl⟩
  · have hv : v = .string type := by
      cases v with
      | string s => rw [Except.ok.inj hread]
      | _ => cases hread
    rw [hfind, hv, Option.some.injEq, Json.string.injEq]
  · rw [hfind]
    exact iff_of_false (by decide) nofun

theorem blocksContent_ok_iff (blocks : List Json) :
    (∃ content, blocksContent blocks = .ok content) ↔ ∀ block ∈ blocks, BlockFits block := by
  induction blocks with
  | nil => exact iff_of_true ⟨[], rfl⟩ fun block hblock => absurd hblock List.not_mem_nil
  | cons block rest ih =>
      have hmore : ∀ text : Str, (∃ content, (blocksContent rest >>= fun more =>
          (.ok (text ++ more) : Except Exn Str)) = .ok content) ↔
          ∀ block ∈ rest, BlockFits block := by
        intro text
        rw [exists_bind_ok_of_forall (p := True) fun more => iff_of_true ⟨_, rfl⟩ trivial, ih,
          and_true]
      rw [List.forall_mem_cons, blocksContent, exists_bind_ok]
      constructor
      · intro h
        obtain ⟨type, htype, hrest⟩ := h
        have hfields := (readString_ok_iff block "type" []).mp ⟨type, htype⟩
        by_cases htext : type = str "text"
        · simp only [if_pos htext] at hrest
          obtain ⟨text, hread, hcontent⟩ := exists_bind_ok.mp hrest
          have hfits := (Json.value_ok_iff Json.getString_ok_iff block _ _).mp ⟨text, hread⟩
          exact ⟨⟨hfields, fun _ => hfits.2⟩, (hmore text).mp hcontent⟩
        · simp only [if_neg htext] at hrest
          exact ⟨⟨hfields, fun h => absurd ((blockType_eq_text htype).mpr h) htext⟩,
            (hmore []).mp hrest⟩
      · intro h
        obtain ⟨⟨hfields, hfits⟩, hrest⟩ := h
        obtain ⟨type, htype⟩ := (readString_ok_iff block "type" []).mpr hfields
        refine ⟨type, htype, ?_⟩
        by_cases htext : type = str "text"
        · simp only [if_pos htext]
          obtain ⟨text, hread⟩ := (Json.value_ok_iff Json.getString_ok_iff block (str "text") []).mpr
            ⟨hfields.1, hfits ((blockType_eq_text htype).mp htext)⟩
          exact exists_bind_ok.mpr ⟨text, hread, (hmore text).mpr hrest⟩
        · simp only [if_neg htext]
          exact (hmore []).mpr hrest

theorem anthropicContent_ok_iff (resp : Json) :
    (∃ content, anthropicContent resp = .ok content) ↔
      ∀ blocks, resp.find? (str "content") = some (.array blocks) →
        ∀ block ∈ blocks, BlockFits block := by
  unfold anthropicContent
  cases resp.find? (str "content") with
  | none => simp
  | some content =>
      cases content with
      | array blocks =>
          simp only [Option.some.injEq, Json.array.injEq, forall_eq']
          exact blocksContent_ok_iff blocks
      | _ => simp

theorem openAiFormat_ok_iff (name : Str) (resp : Json) (req : ChatRequest) (ms : Double) :
    (∃ r, parseOpenAiFormat name resp req ms = .ok r) ↔ OpenAiShaped resp := by
  unfold parseOpenAiFormat
  -- the usage comes last, and whether it can be read depends on nothing read before
  refine (exists_bind_ok_of_forall fun model => exists_bind_ok_of_forall
    (p := ∀ usage, resp.find? (str "usage") = some usage → usage.HasFields
      [("prompt_tokens", Json.isInt), ("completion_tokens", Json.isInt),
        ("total_tokens", Json.isInt)]) fun content => ?_).trans ?_
  · cases resp.find? (str "usage") with
    | none => simp
    | some usage =>
        simp only [Option.some.injEq, forall_eq']
        rw [exists_bind_ok_of_forall fun promptTokens => exists_bind_ok_of_forall
          fun completionTokens => exists_bind_ok_of_forall (p := True) fun totalTokens =>
            iff_of_true ⟨_, rfl⟩ trivial, Json.hasFields_iff (List.cons_ne_nil _ _)]
        simp [readInt_ok_iff]
  · rw [readString_ok_iff, choiceContent_ok_iff]
    constructor
    · intro h
      obtain ⟨htop, hchoices, husage⟩ := h
      exact ⟨htop, hchoices, husage⟩
    · intro h
      exact ⟨h.top, h.choices, h.usage⟩

theorem anthropic_ok_iff (resp : Json) (req : ChatRequest) (ms : Double) :
    (∃ r, AnthropicProvider.parseResponse resp req ms = .ok r) ↔ AnthropicShaped resp := by
  unfold AnthropicProvider.parseResponse
  refine (exists_bind_ok_of_forall fun model => exists_bind_ok_of_forall
    (p := ∀ usage, resp.find? (str "usage") = some usage → usage.HasFields
      [("input_tokens", Json.isInt), ("output_tokens", Json.isInt)]) fun content => ?_).trans ?_
  · cases resp.find? (str "usage") with
    | none => simp
    | some usage =>
        simp only [Option.some.injEq, forall_eq']
        rw [exists_bind_ok_of_forall fun promptTokens => exists_bind_ok_of_forall (p := True)
          fun completionTokens => iff_of_true ⟨_, rfl⟩ trivial,
          Json.hasFields_iff (List.cons_ne_nil _ _)]
        simp [readInt_ok_iff]
  · rw [readString_ok_iff, anthropicContent_ok_iff]
    constructor
    · intro h
      obtain ⟨htop, hcontent, husage⟩ := h
      exact ⟨htop, hcontent, husage⟩
    · intro h
      exact ⟨h.top, h.content, h.usage⟩

/-- Each of the four parsers reads exactly the replies of its format. -/
theorem parseResponse_ok_iff (kind : ProviderKind) (resp : Json) (req : ChatRequest)
    (ms : Double) : (∃ r, kind.parseResponse resp req ms = .ok r) ↔ WellShaped kind resp := by
  cases kind with
  | anthropic => exact anthropic_ok_iff resp req ms
  | openai => exact openAiFormat_ok_iff (str "openai") resp req ms
  | together => exact openAiFormat_ok_iff (str "together") resp req ms
  | groq => exact openAiFormat_ok_iff (str "groq") resp req ms

/-! ## The calls -/

/-- This attempt of a call is the first one that is answered: those in front of
it fail in the exchange, and it has a status below 400 and a JSON body. -/
structure AnsweredAt (p : Provider) (upstream : Nat → Exchange) (k : Nat) (json : Json) :
    Prop where
  allowed : (k : ℤ) ≤ p.maxRetries
  earlier : ∀ i < k, ∃ e, httpPost (upstream i).reply = .error e
  reply : ∃ status text, status < 400 ∧ (upstream k).reply = .answered status text (.ok json)

/-- The call takes the answer: it is parsed, no POST follows it, and whoever
made the call reports a success of the provider and nothing else. -/
structure Taken (p : Provider) (upstream : Nat → Exchange) (req : ChatRequest) (k : Nat)
    (json : Json) : Prop where
  parsed : ∃ resp, p.kind.parseResponse json req (upstream k).elapsedMs = .ok resp
  posts : (p.chat upstream req).attempts = k + 1
  primary : ∀ w registry decision router original, primaryRequest original decision = req →
    w.upstream 0 p req = upstream → ∃ ms,
      (callProviders w registry decision p original router).router =
        router.reportSuccess w.later decision.provider ms
  fallback : ∀ w registry name chain n router original, registry.get name = some p →
    fallbackRequest original p = req → w.upstream n p req = upstream → ∃ ms,
      (tryFallbacks w registry original (name :: chain) n router).router =
        router.reportSuccess w.later name ms

variable {p : Provider} {upstream : Nat → Exchange} {req : ChatRequest} {k : Nat} {json : Json}

/-- One attempt of a call: what `chat` hands to `with_retry`. -/
def Provider.attempt (p : Provider) (upstream : Nat → Exchange) (req : ChatRequest) (i : Nat) :
    Except Exn ChatResponse :=
  httpPost (upstream i).reply >>= fun resp =>
    p.kind.parseResponse resp req (upstream i).elapsedMs

theorem Provider.chat_eq (p : Provider) (upstream : Nat → Exchange) (req : ChatRequest) :
    p.chat upstream req = withRetry p.maxRetries (p.attempt upstream req) := rfl

/-- The attempts in front of the answer throw. -/
theorem AnsweredAt.throws (h : AnsweredAt p upstream k json) {i : Nat} (hi : i < k) :
    Throws (p.attempt upstream req) i := by
  obtain ⟨e, he⟩ := h.earlier i hi
  refine ⟨e, ?_⟩
  rw [Provider.attempt, he]
  rfl

/-- The attempt that is answered is the parse of the answer. -/
theorem AnsweredAt.attempt_eq (h : AnsweredAt p upstream k json) :
    p.attempt upstream req k = p.kind.parseResponse json req (upstream k).elapsedMs := by
  obtain ⟨status, text, hstatus, hreply⟩ := h.reply
  rw [Provider.attempt, hreply, httpPost, if_neg (not_le.mpr hstatus)]
  rfl

/-- An answer that parses ends the call. -/
theorem AnsweredAt.chat_eq (h : AnsweredAt p upstream k json) {resp : ChatResponse}
    (hparse : p.kind.parseResponse json req (upstream k).elapsedMs = .ok resp) :
    p.chat upstream req = ⟨.answered resp, k + 1, (List.range k).map backoffMs⟩ := by
  rw [p.chat_eq]
  exact withRetry_of_firstAnswer ⟨fun i hi => h.throws hi, h.attempt_eq.trans hparse⟩ h.allowed

/-- **The answers a provider call takes.**  An answer below 400 is parsed, is the
last POST of its call and is reported as a success, exactly when it is well
shaped for the class of the provider. -/
theorem taken_iff (h : AnsweredAt p upstream k json) (req : ChatRequest) :
    Taken p upstream req k json ↔ WellShaped p.kind json := by
  constructor
  · intro htaken
    exact (parseResponse_ok_iff p.kind json req _).mp htaken.parsed
  · intro hshape
    obtain ⟨resp, hparse⟩ :=
      (parseResponse_ok_iff p.kind json req (upstream k).elapsedMs).mpr hshape
    have hchat := h.chat_eq hparse
    refine ⟨⟨resp, hparse⟩, by rw [hchat], ?_, ?_⟩
    · intro w registry decision router original hreq hupstream
      have houtcome : primaryOutcome w original decision p = .answered resp := by
        rw [primaryOutcome, hreq, hupstream, hchat]
      refine ⟨resp.latencyMs, ?_⟩
      rw [callProviders_eq, houtcome]
    · intro w registry name chain n router original hget hreq hupstream
      have houtcome : fallbackOutcome w original n p = .answered resp := by
        rw [fallbackOutcome, hreq, hupstream, hchat]
      refine ⟨resp.latencyMs, ?_⟩
      rw [tryFallbacks_call hget, houtcome]

/-- An answer that is not well shaped is paid for again while a retry is left. -/
theorem AnsweredAt.asked_again (h : AnsweredAt p upstream k json) (hleft : (k : ℤ) < p.maxRetries)
    (hshape : ¬ WellShaped p.kind json) : k + 2 ≤ (p.chat upstream req).attempts := by
  have hthrows : ∀ i ≤ k, Throws (p.attempt upstream req) i := by
    intro i hi
    rcases Nat.lt_or_eq_of_le hi with hlt | rfl
    · exact h.throws hlt
    · rw [Throws, h.attempt_eq]
      cases hparse : p.kind.parseResponse json req (upstream i).elapsedMs with
      | error e => exact ⟨e, rfl⟩
      | ok resp => exact absurd ((parseResponse_ok_iff p.kind json req _).mp ⟨resp, hparse⟩) hshape
  obtain ⟨n, hn⟩ := Int.eq_ofNat_of_zero_le (show 0 ≤ p.maxRetries by omega)
  rw [p.chat_eq, hn]
  rcases withRetry_cases (p.attempt upstream req) n with
    ⟨j, -, resp, hfirst, hloop⟩ | ⟨e, -, -, hloop⟩
  · rw [hloop]
    by_contra! hearly
    obtain ⟨e, he⟩ := hthrows j (by simpa using hearly)
    cases hfirst.answer.symm.trans he
  · rw [hloop]
    show k + 2 ≤ n + 1
    omega

/-- A message of a reply in the OpenAI format, as its only choice. -/
def replyOf (content : Json) : Json :=
  .object [(str "choices", .array [.object [(str "message",
    .object [(str "role", .string (str "assistant")), (str "content", content)])]])]

/-- A provider that is answered at once. -/
theorem answeredAt_once (kind : ProviderKind) (json : Json) :
    AnsweredAt ⟨kind, str "key", [], 30000, 2⟩ (fun _ => ⟨.answered 200 [] (.ok json), 5⟩) 0
      json where
  allowed := show ((0 : Nat) : ℤ) ≤ 2 by decide
  earlier i hi := absurd hi (Nat.not_lt_zero i)
  reply := ⟨200, [], by decide, rfl⟩

/-- A text is taken. -/
theorem taken_iff_text :
    Taken ⟨.openai, str "key", [], 30000, 2⟩
      (fun _ => ⟨.answered 200 [] (.ok (replyOf (.string (str "hi")))), 5⟩) {} 0
      (replyOf (.string (str "hi"))) :=
  (taken_iff (answeredAt_once .openai (replyOf (.string (str "hi")))) {}).mpr
    ((parseResponse_ok_iff .openai _ {} 5).mp ⟨_, rfl⟩)

/-- The answer that calls a tool has no text but `null`, and is not taken. -/
theorem toolCall_not_taken :
    ¬ ∀ p upstream req k json, AnsweredAt p upstream k json → Taken p upstream req k json := by
  intro h
  obtain ⟨resp, hparse⟩ := (h _ _ {} 0 _ (answeredAt_once .openai (replyOf .null))).parsed
  cases hparse

end Gateway
