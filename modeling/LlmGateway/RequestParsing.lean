import LlmGateway.Fallback
import LlmGateway.Serving

/-!
# Parsing a request body

Step 1 of `/v1/chat/completions` guards `json::parse` and nothing else, so a body
that is JSON but not of the expected shape makes an accessor throw.  `WellTyped`
says which bodies read without an exception; the handler answers every other one
with an exception instead of 400.
-/

namespace Gateway

namespace Json

def isObject : Json → Bool
  | object _ => true
  | _ => false

def isString : Json → Bool
  | string _ => true
  | _ => false

def isBoolean : Json → Bool
  | boolean _ => true
  | _ => false

def isNumber : Json → Bool
  | integer _ | float _ => true
  | _ => false

/-- What `get<int>()` reads. -/
def isInt (v : Json) : Bool := v.isNumber || v.isBoolean

/-- The member under the key is missing or of the type. -/
def Fits (j : Json) (key : Str) (type : Json → Bool) : Prop :=
  ∀ v, j.find? key = some v → type v = true

/-- An object whose members under these keys are missing or of their types. -/
def HasFields (j : Json) (fields : List (String × (Json → Bool))) : Prop :=
  j.isObject = true ∧ ∀ f ∈ fields, j.Fits (str f.1) f.2

theorem hasFields_iff {j : Json} {fields : List (String × (Json → Bool))} (hne : fields ≠ []) :
    j.HasFields fields ↔ ∀ f ∈ fields, j.isObject = true ∧ j.Fits (str f.1) f.2 := by
  obtain ⟨f, hf⟩ := List.exists_mem_of_ne_nil fields hne
  constructor
  · intro h g hg
    exact ⟨h.1, h.2 g hg⟩
  · intro h
    exact ⟨(h f hf).1, fun g hg => (h g hg).2⟩

theorem getString_ok_iff (v : Json) : (∃ a, v.getString = .ok a) ↔ v.isString = true := by
  cases v <;> simp [getString, isString]

theorem getBool_ok_iff (v : Json) : (∃ a, v.getBool = .ok a) ↔ v.isBoolean = true := by
  cases v <;> simp [getBool, isBoolean]

theorem getDouble_ok_iff (v : Json) : (∃ a, v.getDouble = .ok a) ↔ v.isNumber = true := by
  cases v <;> simp [getDouble, isNumber]

/-- A boolean converts to an `int` as well. -/
theorem getInt_ok_iff (v : Json) :
    (∃ a, v.getInt = .ok a) ↔ (v.isNumber || v.isBoolean) = true := by
  cases v <;> simp [getInt, isNumber, isBoolean]

/-- `value` reads a member of an object that is missing or of its type. -/
theorem value_ok_iff {α : Type} {get : Json → Except Exn α} {type : Json → Bool}
    (hget : ∀ v, (∃ a, get v = .ok a) ↔ type v = true) (j : Json) (key : Str) (dflt : α) :
    (∃ a, j.value get key dflt = .ok a) ↔ j.isObject = true ∧ j.Fits key type := by
  cases j with
  | object members =>
      unfold Fits
      simp only [value, isObject, find?, true_and]
      cases members.lookup key with
      | none => simp
      | some v => simp [hget]
  | _ => simp [value, isObject]

end Json

/-- An element of the messages that reads without an exception. -/
def MessageFits (m : Json) : Prop :=
  m.isObject = true ∧ m.Fits (str "role") Json.isString ∧ m.Fits (str "content") Json.isString

/-- A body that step 1 reads without an exception. -/
structure WellTyped (body : Json) : Prop where
  object : body.isObject = true
  model : body.Fits (str "model") Json.isString
  temperature : body.Fits (str "temperature") Json.isNumber
  maxTokens : body.Fits (str "max_tokens") fun v => v.isNumber || v.isBoolean
  stream : body.Fits (str "stream") Json.isBoolean
  user : body.Fits (str "user") Json.isString
  messages : ∀ list, body.find? (str "messages") = some list → ∀ m ∈ list.elements, MessageFits m

/-- A body that step 1 turns into a request: its messages are a non-empty array
too. -/
def Acceptable (body : Json) : Prop :=
  WellTyped body ∧ ∃ list, body.find? (str "messages") = some list ∧ list.isArray = true ∧
    list.isEmpty = false

/-- Two computations in sequence succeed when both do. -/
theorem exists_bind_ok {ε α β : Type} {x : Except ε α} {f : α → Except ε β} :
    (∃ b, x >>= f = .ok b) ↔ ∃ a, x = .ok a ∧ ∃ b, f a = .ok b := by
  constructor
  · intro h
    obtain ⟨b, hb⟩ := h
    obtain ⟨a, ha, hf⟩ := bind_eq_ok hb
    exact ⟨a, ha, b, hf⟩
  · intro h
    obtain ⟨a, rfl, b, hf⟩ := h
    exact ⟨b, hf⟩

/-- When what follows does not depend on the first result for its success. -/
theorem exists_bind_ok_of_forall {ε α β : Type} {x : Except ε α} {f : α → Except ε β} {p : Prop}
    (hf : ∀ a, (∃ b, f a = .ok b) ↔ p) :
    (∃ b, x >>= f = .ok b) ↔ (∃ a, x = .ok a) ∧ p := by
  rw [exists_bind_ok]
  constructor
  · intro h
    obtain ⟨a, ha, hb⟩ := h
    exact ⟨⟨a, ha⟩, (hf a).mp hb⟩
  · intro h
    obtain ⟨⟨a, ha⟩, hp⟩ := h
    exact ⟨a, ha, (hf a).mpr hp⟩

theorem readMessages_ok_iff (list : List Json) :
    (∃ messages, readMessages list = .ok messages) ↔ ∀ m ∈ list, MessageFits m := by
  induction list with
  | nil => simp [readMessages]
  | cons m rest ih =>
      have hpush : ∀ role content : Str, (∃ messages, (readMessages rest >>= fun more =>
          (.ok (⟨role, content⟩ :: more) : Except Exn (List Message))) = .ok messages) ↔
          ∀ m' ∈ rest, MessageFits m' := by
        intro role content
        rw [exists_bind_ok_of_forall (p := True) fun more => iff_of_true ⟨_, rfl⟩ trivial, ih,
          and_true]
      unfold readMessages
      rw [exists_bind_ok_of_forall fun role =>
        exists_bind_ok_of_forall fun content => hpush role content]
      rw [Json.value_ok_iff Json.getString_ok_iff, Json.value_ok_iff Json.getString_ok_iff,
        List.forall_mem_cons, MessageFits]
      tauto

theorem readUser_ok_iff (body : Json) :
    (∃ user, readUser body = .ok user) ↔ body.Fits (str "user") Json.isString := by
  unfold readUser Json.Fits
  cases body.find? (str "user") with
  | none => simp
  | some user =>
      have hread := Json.getString_ok_iff user
      cases hstring : user.getString with
      | error e => simpa [hstring] using hread
      | ok name => simpa [hstring] using hread

/-- A list of messages that is no non-empty array is not read at all. -/
theorem readList_ok_iff (list : Json) (build : List Message → ChatRequest) :
    (∃ parsed, (if !list.isArray || list.isEmpty then .ok none
        else readMessages list.elements >>= fun messages => .ok (some (build messages)) :
          Except Exn (Option ChatRequest)) = .ok parsed) ↔
      ∀ m ∈ list.elements, MessageFits m := by
  by_cases hskip : (!list.isArray || list.isEmpty) = true
  · rw [if_pos hskip]
    refine iff_of_true ⟨_, rfl⟩ fun m hm => ?_
    cases list with
    | array xs =>
        have hnil : xs = [] := by simpa [Json.isArray, Json.isEmpty] using hskip
        rw [hnil] at hm
        cases hm
    | _ => cases hm
  · rw [if_neg hskip, exists_bind_ok_of_forall (p := True) fun messages =>
      iff_of_true ⟨_, rfl⟩ trivial, readMessages_ok_iff, and_true]

/-- The fields are read without an exception when the body is well typed. -/
theorem readRequest_ok_iff (requestId : Str) (body : Json) :
    (∃ parsed, readRequest requestId body = .ok parsed) ↔ WellTyped body := by
  unfold readRequest
  -- whether the list can be read, which comes last, depends on nothing read before
  refine (exists_bind_ok_of_forall fun model => exists_bind_ok_of_forall fun temperature =>
    exists_bind_ok_of_forall fun maxTokens => exists_bind_ok_of_forall fun stream =>
    exists_bind_ok_of_forall (p := ∀ list, body.find? (str "messages") = some list →
      ∀ m ∈ list.elements, MessageFits m) fun user => ?_).trans ?_
  · cases body.find? (str "messages") with
    | none => simp
    | some list =>
        simp only [Option.some.injEq, forall_eq']
        exact readList_ok_iff list _
  rw [Json.value_ok_iff Json.getString_ok_iff, Json.value_ok_iff Json.getDouble_ok_iff,
    Json.value_ok_iff Json.getInt_ok_iff, Json.value_ok_iff Json.getBool_ok_iff, readUser_ok_iff]
  constructor
  · intro h
    obtain ⟨⟨hobject, hmodel⟩, ⟨-, htemperature⟩, ⟨-, hmax⟩, ⟨-, hstream⟩, huser, hlist⟩ := h
    exact ⟨hobject, hmodel, htemperature, hmax, hstream, huser, hlist⟩
  · intro h
    exact ⟨⟨h.object, h.model⟩, ⟨h.object, h.temperature⟩, ⟨h.object, h.maxTokens⟩,
      ⟨h.object, h.stream⟩, h.user, h.messages⟩

/-- A body that was read stands for a request when its messages are a non-empty
array. -/
theorem readRequest_isSome_iff {requestId : Str} {body : Json} {parsed : Option ChatRequest}
    (h : readRequest requestId body = .ok parsed) :
    parsed.isSome ↔ ∃ list, body.find? (str "messages") = some list ∧ list.isArray = true ∧
      list.isEmpty = false := by
  unfold readRequest at h
  obtain ⟨model, -, h⟩ := bind_eq_ok h
  obtain ⟨temperature, -, h⟩ := bind_eq_ok h
  obtain ⟨maxTokens, -, h⟩ := bind_eq_ok h
  obtain ⟨stream, -, h⟩ := bind_eq_ok h
  obtain ⟨user, -, h⟩ := bind_eq_ok h
  cases hlist : body.find? (str "messages") with
  | none =>
      rw [hlist] at h
      cases h
      simp
  | some list =>
      rw [hlist] at h
      simp only at h
      by_cases hskip : (!list.isArray || list.isEmpty) = true
      · rw [if_pos hskip] at h
        cases h
        refine iff_of_false Bool.false_ne_true fun hfull => ?_
        obtain ⟨list', hsome, harray, hempty⟩ := hfull
        cases hsome
        simp [harray, hempty] at hskip
      · rw [if_neg hskip] at h
        obtain ⟨messages, -, h⟩ := bind_eq_ok h
        cases h
        refine iff_of_true rfl ⟨list, rfl, ?_⟩
        simpa using hskip

/-- The handler turns exactly the acceptable bodies into requests. -/
theorem parsedRequest_isSome_iff {w : World} {http : HttpRequest} :
    (parsedRequest w http).isSome ↔ ∃ body, http.body = some body ∧ Acceptable body := by
  unfold parsedRequest
  cases http.body with
  | none => simp
  | some body =>
      have hok := readRequest_ok_iff (generateRequestId w.requestDraw) body
      simp only [Option.some.injEq, exists_eq_left', Acceptable]
      cases hread : readRequest (generateRequestId w.requestDraw) body with
      | error e =>
          refine iff_of_false Bool.false_ne_true fun h => ?_
          obtain ⟨parsed, hparsed⟩ := hok.mpr h.1
          cases hread.symm.trans hparsed
      | ok parsed =>
          rw [← readRequest_isSome_iff hread, ← hok]
          cases parsed with
          | none => simp
          | some req => exact iff_of_true rfl ⟨⟨_, hread⟩, rfl⟩

/-! ### The handler -/

section Handler

variable {P : Platform} {w : World} {req : ChatRequest} {s : Server}

/-- After step 1 nothing throws out of the handler. -/
theorem callStep_contained (decision : RouteDecision) (provider : Provider) (e : Exn) :
    (callStep P w req decision provider s).reply ≠ .escaped e := by
  unfold callStep
  simp only
  split
  · unfold settle
    simp only
    split <;> exact nofun
  · exact nofun
  · exact nofun

theorem routeStep_contained (e : Exn) : (routeStep P w req s).reply ≠ .escaped e := by
  unfold routeStep
  simp only
  split
  · exact nofun
  · split
    · exact nofun
    · exact callStep_contained _ _ e

theorem limitStep_contained (e : Exn) : (limitStep P w req s).reply ≠ .escaped e := by
  have hcache : ∀ s : Server, (cacheStep P w req s).reply ≠ .escaped e := by
    intro s
    unfold cacheStep
    split
    · exact nofun
    · exact routeStep_contained e
  unfold limitStep
  split
  · exact hcache s
  · simp only
    split
    · exact nofun
    · exact hcache _

end Handler

/-- What step 1 owes to a body: no exception escapes, and a body that is not
acceptable is answered with 400 and changes nothing but the request counter. -/
structure ParsedSafely (P : Platform) (w : World) (http : HttpRequest) (s : Server) : Prop where
  contained : ∀ e, (chatCompletions P w http s).reply ≠ .escaped e
  rejected : (¬ ∃ body, http.body = some body ∧ Acceptable body) →
    (chatCompletions P w http s).reply.HasStatus 400 ∧
      (chatCompletions P w http s).calls = [] ∧
      (chatCompletions P w http s).recorded = [] ∧
      (chatCompletions P w http s).server = { s with metrics := s.metrics.incRequests }

/-- **Parsing the body.**  For every outcome of `json::parse` and every state,
step 1 does what it owes to the body exactly when the body is not JSON or is well
typed. -/
theorem parsedSafely_iff (P : Platform) (w : World) (http : HttpRequest) (s : Server) :
    ParsedSafely P w http s ↔ ∀ body, http.body = some body → WellTyped body := by
  constructor
  · intro hsafe body hbody
    rw [← readRequest_ok_iff (generateRequestId w.requestDraw) body]
    cases hread : readRequest (generateRequestId w.requestDraw) body with
    | ok parsed => exact ⟨parsed, rfl⟩
    | error e =>
        refine absurd ?_ (hsafe.contained e)
        simp only [chatCompletions, hbody, hread]
  · intro htyped
    have hread : ∀ body, http.body = some body →
        ∃ parsed, readRequest (generateRequestId w.requestDraw) body = .ok parsed :=
      fun body hbody => (readRequest_ok_iff _ body).mpr (htyped body hbody)
    constructor
    · intro e
      unfold chatCompletions
      cases hbody : http.body with
      | none => exact nofun
      | some body =>
          obtain ⟨parsed, hparsed⟩ := hread body hbody
          simp only [hparsed]
          cases parsed with
          | none => exact nofun
          | some req => exact limitStep_contained e
    · intro hrejected
      have hnone : parsedRequest w http = none := by
        rw [← Option.not_isSome_iff_eq_none, parsedRequest_isSome_iff]
        exact hrejected
      obtain ⟨hcalls, hrecorded, hserver⟩ := chatCompletions_of_not_parsed (P := P) (s := s) hnone
      refine ⟨?_, hcalls, hrecorded, hserver⟩
      unfold parsedRequest at hnone
      unfold chatCompletions
      cases hbody : http.body with
      | none => exact Reply.hasStatus_response.mpr rfl
      | some body =>
          obtain ⟨parsed, hparsed⟩ := hread body hbody
          simp only [hbody, hparsed] at hnone ⊢
          cases parsed with
          | none => exact Reply.hasStatus_response.mpr rfl
          | some req => cases hnone

/-- A JSON array throws out of the handler. -/
theorem array_body_escapes :
    ¬ ∀ (P : Platform) (w : World) (http : HttpRequest) (cfg : GatewayConfig),
      ParsedSafely P w http (Server.init cfg) := by
  intro h
  have hsafe := h (cLocale fnv1a) groqDown { body := some (.array []) } {}
  exact hsafe.contained _ rfl

end Gateway
