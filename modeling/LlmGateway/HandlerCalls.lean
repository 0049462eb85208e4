import LlmGateway.Registration
import LlmGateway.HealthReports
import LlmGateway.Lib.Attempts

/-!
# The provider calls of one request

The handler of `/v1/chat/completions` tries the primary inside a `try`, and in
its `catch` a loop with two ways to skip, a `break` and a second `try`.  The
calls this amounts to are listed by `plannedCalls`, as if none of them succeeded;
the handler makes them up to the first success.

`CallsHandled` is what a request owes to its calls: one health report each, the
answer, the records and the cache entry of the one that succeeded, and nothing of
the kind when none did.  The last step of a success can fail to return, and
`callStep_handled_iff` says when.
-/

namespace Gateway

namespace ProviderCall

/-- The call returned a response. -/
def Succeeded (call : ProviderCall) : Prop := call.outcome.Answered

instance : DecidablePred Succeeded := fun call => inferInstanceAs (Decidable call.outcome.Answered)

/-- The report that the call deserves; a call that ends the process has none. -/
def report (now : Time) (call : ProviderCall) : Option Report :=
  match call.outcome with
  | .answered resp => some (.success now call.provider resp.latencyMs)
  | .threw _ => some (.failure now call.provider)
  | .nullException => none

/-- The response of the call under the name it was made under. -/
def response? (call : ProviderCall) : Option ChatResponse :=
  match call.outcome with
  | .answered resp => some { resp with provider := call.provider }
  | .threw _ | .nullException => none

theorem response?_eq_some {call : ProviderCall} {resp : ChatResponse}
    (h : call.response? = some resp) : call.Succeeded ∧ resp.provider = call.provider := by
  unfold response? at h
  unfold Succeeded
  cases houtcome : call.outcome with
  | answered resp' =>
      rw [houtcome] at h
      cases h
      exact ⟨trivial, rfl⟩
  | threw e =>
      rw [houtcome] at h
      cases h
  | nullException =>
      rw [houtcome] at h
      cases h

theorem response?_eq_none {call : ProviderCall} : call.response? = none ↔ ¬ call.Succeeded := by
  unfold response? Succeeded
  cases call.outcome <;> simp [ChatOutcome.Answered]

end ProviderCall

/-- The registered members of a chain, in its order. -/
def ProviderRegistry.members (registry : ProviderRegistry) (chain : List Str) :
    List (Str × Provider) :=
  chain.filterMap fun name => (registry.get name).map fun fb => (name, fb)

/-- The calls of these fallbacks, `k` calls into the request. -/
def plannedFallbacks (w : World) (req : ChatRequest) : Nat → List (Str × Provider) →
    List ProviderCall
  | _, [] => []
  | k, (name, fb) :: rest =>
      ⟨name, fallbackRequest req fb, fallbackOutcome w req k fb⟩ ::
        plannedFallbacks w req (k + 1) rest

/-- The calls of a request if none of them succeeds: the primary with the routed
model, then the registered members of the chain, each with its first model. -/
def plannedCalls (w : World) (req : ChatRequest) (registry : ProviderRegistry)
    (decision : RouteDecision) (provider : Provider) : List ProviderCall :=
  ⟨decision.provider, primaryRequest req decision, primaryOutcome w req decision provider⟩ ::
    plannedFallbacks w req 1 (registry.members decision.fallbackChain)

/-- Providers that try at least once end their calls. -/
theorem plannedFallbacks_end {w : World} {req : ChatRequest} {members : List (Str × Provider)}
    (hretries : ∀ member ∈ members, 0 ≤ member.2.maxRetries) (k : Nat) :
    ∀ call ∈ plannedFallbacks w req k members, call.outcome ≠ .nullException := by
  induction members generalizing k with
  | nil => exact fun _ h => absurd h List.not_mem_nil
  | cons member rest ih =>
      obtain ⟨hfirst, hrest⟩ := List.forall_mem_cons.mp hretries
      refine List.forall_mem_cons.mpr ⟨fun hnull => ?_, ih hrest (k + 1)⟩
      exact absurd (Provider.chat_null_iff.mp hnull) (not_lt.mpr hfirst)

theorem plannedCalls_end {w : World} {req : ChatRequest} {registry : ProviderRegistry}
    {decision : RouteDecision} {provider : Provider} (hprimary : 0 ≤ provider.maxRetries)
    (hchain : ∀ member ∈ registry.members decision.fallbackChain, 0 ≤ member.2.maxRetries) :
    ∀ call ∈ plannedCalls w req registry decision provider, call.outcome ≠ .nullException := by
  refine List.forall_mem_cons.mpr ⟨fun hnull => ?_, plannedFallbacks_end hchain 1⟩
  exact absurd (Provider.chat_null_iff.mp hnull) (not_lt.mpr hprimary)

/-- How calls of which none ends the process end. -/
def CallEnd.ofCalls (calls : List ProviderCall) : CallEnd :=
  match calls.findSome? ProviderCall.response? with
  | some resp => .answered resp
  | none => .failed

section Loop

variable {w : World} {req : ChatRequest} {registry : ProviderRegistry}

theorem members_skip {fbName : Str} (h : registry.get fbName = none) (chain : List Str) :
    registry.members (fbName :: chain) = registry.members chain := by
  simp [ProviderRegistry.members, h]

theorem members_cons {fbName : Str} {fb : Provider} (h : registry.get fbName = some fb)
    (chain : List Str) :
    registry.members (fbName :: chain) = (fbName, fb) :: registry.members chain := by
  simp [ProviderRegistry.members, h]

/-- A failed call before the others does not change how they end. -/
theorem CallEnd.ofCalls_of_failed {call : ProviderCall} (h : ¬ call.Succeeded)
    (calls : List ProviderCall) : ofCalls (call :: calls) = ofCalls calls := by
  unfold ofCalls
  rw [List.findSome?_cons, ProviderCall.response?_eq_none.mpr h]

/-- The calls are the planned ones up to the first success, and end with it. -/
structure Called.Follows (c : Called) (planned : List ProviderCall) : Prop where
  calls : c.calls = Attempts.upToFirst ProviderCall.Succeeded planned
  finish : c.finish = .ofCalls c.calls

/-- A failed call comes before what follows it. -/
theorem Called.Follows.after {c : Called} {planned : List ProviderCall} (h : c.Follows planned)
    {call : ProviderCall} (hfailed : ¬ call.Succeeded) :
    (c.after call).Follows (call :: planned) where
  calls := by
    rw [Attempts.upToFirst_of_neg hfailed, ← h.calls]
    rfl
  finish := by
    simp only [Called.after, CallEnd.ofCalls_of_failed hfailed]
    exact h.finish

/-- The loop makes the first of the planned calls. -/
theorem tryFallbacks_initial (chain : List Str) (k : Nat) (router : Router) :
    (tryFallbacks w registry req chain k router).calls <+:
      plannedFallbacks w req k (registry.members chain) := by
  induction chain generalizing k router with
  | nil => exact List.prefix_refl []
  | cons fbName chain ih =>
      cases hget : registry.get fbName with
      | none =>
          rw [members_skip hget, tryFallbacks_skip hget]
          exact ih k router
      | some fb =>
          rw [members_cons hget, plannedFallbacks, tryFallbacks_call hget]
          cases fallbackOutcome w req k fb with
          | answered resp => exact (List.prefix_cons_inj _).mpr (List.nil_prefix)
          | threw e =>
              exact (List.prefix_cons_inj _).mpr (ih (k + 1) (router.reportFailure w.later fbName))
          | nullException => exact (List.prefix_cons_inj _).mpr (List.nil_prefix)

/-- So do the primary and the loop together. -/
theorem callProviders_initial (decision : RouteDecision) (provider : Provider) (router : Router) :
    (callProviders w registry decision provider req router).calls <+:
      plannedCalls w req registry decision provider := by
  rw [callProviders_eq, plannedCalls]
  cases primaryOutcome w req decision provider with
  | answered resp => exact (List.prefix_cons_inj _).mpr (List.nil_prefix)
  | threw e => exact (List.prefix_cons_inj _).mpr (tryFallbacks_initial decision.fallbackChain 1 _)
  | nullException => exact (List.prefix_cons_inj _).mpr (List.nil_prefix)

/-- The loop makes the planned calls up to the first success, and ends with it. -/
theorem tryFallbacks_planned (chain : List Str) (k : Nat) (router : Router)
    (hends : ∀ call ∈ plannedFallbacks w req k (registry.members chain),
      call.outcome ≠ .nullException) :
    (tryFallbacks w registry req chain k router).Follows
      (plannedFallbacks w req k (registry.members chain)) := by
  induction chain generalizing k router with
  | nil => exact ⟨rfl, rfl⟩
  | cons fbName chain ih =>
      cases hget : registry.get fbName with
      | none =>
          rw [members_skip hget] at hends ⊢
          rw [tryFallbacks_skip hget]
          exact ih k router hends
      | some fb =>
          rw [members_cons hget, plannedFallbacks] at hends ⊢
          rw [tryFallbacks_call hget]
          cases houtcome : fallbackOutcome w req k fb with
          | answered resp => exact ⟨(Attempts.upToFirst_of_pos trivial).symm, rfl⟩
          | threw e =>
              have hfailed : ¬ (ProviderCall.mk fbName (fallbackRequest req fb)
                  (.threw e)).Succeeded := id
              have hrest := ih (k + 1) (router.reportFailure w.later fbName)
                fun call hcall => hends call (List.mem_cons_of_mem _ hcall)
              exact hrest.after hfailed
          | nullException => exact absurd houtcome (hends _ List.mem_cons_self)

/-- The loop reports each of its calls once, in their order. -/
theorem tryFallbacks_reports (chain : List Str) (k : Nat) (router : Router) :
    (tryFallbacks w registry req chain k router).router =
      router.afterReports
        ((tryFallbacks w registry req chain k router).calls.filterMap
          (ProviderCall.report w.later)) := by
  induction chain generalizing k router with
  | nil => rfl
  | cons fbName chain ih =>
      cases hget : registry.get fbName with
      | none =>
          rw [tryFallbacks_skip hget]
          exact ih k router
      | some fb =>
          rw [tryFallbacks_call hget]
          cases fallbackOutcome w req k fb with
          | answered resp => rfl
          | threw e => exact ih (k + 1) (router.reportFailure w.later fbName)
          | nullException => rfl

/-- Every call of a request is reported once. -/
theorem callProviders_reports (decision : RouteDecision) (provider : Provider) (router : Router) :
    (callProviders w registry decision provider req router).router =
      router.afterReports
        ((callProviders w registry decision provider req router).calls.filterMap
          (ProviderCall.report w.later)) := by
  rw [callProviders_eq]
  cases primaryOutcome w req decision provider with
  | answered resp => rfl
  | threw e => exact tryFallbacks_reports decision.fallbackChain 1 _
  | nullException => rfl

/-- A primary that is registered under the name of its class answers under it. -/
theorem primary_response {decision : RouteDecision} {provider : Provider} {resp : ChatResponse}
    (hname : provider.kind.name = decision.provider)
    (h : primaryOutcome w req decision provider = .answered resp) :
    { resp with provider := decision.provider } = resp := by
  obtain ⟨i, json, -, hparse⟩ := Provider.chat_answered h
  rw [← hname, ← (parsed_of_parseResponse hparse).provider]

/-- The handler makes the planned calls up to the first success, and ends with
it. -/
theorem callProviders_planned {decision : RouteDecision} {provider : Provider}
    (hname : provider.kind.name = decision.provider)
    (hends : ∀ call ∈ plannedCalls w req registry decision provider,
      call.outcome ≠ .nullException) (router : Router) :
    (callProviders w registry decision provider req router).Follows
      (plannedCalls w req registry decision provider) := by
  rw [callProviders_eq]
  unfold plannedCalls at hends ⊢
  cases houtcome : primaryOutcome w req decision provider with
  | answered resp =>
      refine ⟨(Attempts.upToFirst_of_pos trivial).symm, ?_⟩
      simp only [CallEnd.ofCalls, List.findSome?_cons, ProviderCall.response?,
        primary_response hname houtcome]
  | threw e =>
      have hfailed : ¬ (ProviderCall.mk decision.provider (primaryRequest req decision)
        (.threw e)).Succeeded := id
      have hrest := tryFallbacks_planned decision.fallbackChain 1
        (router.reportFailure w.later decision.provider)
        fun call hcall => hends call (List.mem_cons_of_mem _ hcall)
      exact hrest.after hfailed
  | nullException => exact absurd houtcome (hends _ List.mem_cons_self)

end Loop

/-! ## The call step -/

/-- What one request owes to its provider calls. -/
structure CallsHandled (P : Platform) (w : World) (req : ChatRequest) (decision : RouteDecision)
    (provider : Provider) (s : Server) (served : Served) : Prop where
  calls : served.calls = Attempts.upToFirst ProviderCall.Succeeded
    (plannedCalls w req s.registry decision provider)
  reports : ∃ reports : List Report,
    served.calls.map (ProviderCall.report w.later) = reports.map some ∧
      served.server.router = s.router.afterReports reports
  status : served.reply.HasStatus 200 ↔ ∃ call ∈ served.calls, call.Succeeded
  attributed : served.reply.HasStatus 200 →
    ∃ call ∈ served.calls, ∃ resp, call.response? = some resp ∧
      (priceResponse s.costs req resp).provider = call.provider ∧
      served.reply =
        .response (missResponse req.requestId (priceResponse s.costs req resp) decision) ∧
      served.server.costs =
        s.costs.record (metricsOf w.later req (priceResponse s.costs req resp)) ∧
      s.cache.put P s.config.cache w.later req (priceResponse s.costs req resp) =
        some served.server.cache
  failed : served.reply.HasStatus 502 →
    served.recorded = [] ∧ served.server.costs = s.costs ∧ served.server.cache = s.cache ∧
      served.server.limiter = s.limiter ∧ served.server.metrics = s.metrics.incErrors

theorem CallEnd.ofCalls_eq_answered {calls : List ProviderCall} {resp : ChatResponse}
    (h : ofCalls calls = .answered resp) : ∃ call ∈ calls, call.response? = some resp := by
  unfold ofCalls at h
  cases hfind : calls.findSome? ProviderCall.response? with
  | none =>
      rw [hfind] at h
      cases h
  | some resp' =>
      rw [hfind] at h
      cases h
      exact List.exists_of_findSome?_eq_some hfind

theorem CallEnd.ofCalls_answered_iff {calls : List ProviderCall} :
    (∃ resp, ofCalls calls = .answered resp) ↔ ∃ call ∈ calls, call.Succeeded := by
  constructor
  · intro h
    obtain ⟨resp, hresp⟩ := h
    obtain ⟨call, hcall, hsome⟩ := ofCalls_eq_answered hresp
    exact ⟨call, hcall, (ProviderCall.response?_eq_some hsome).1⟩
  · intro h
    obtain ⟨call, hcall, hsucceeded⟩ := h
    unfold ofCalls
    cases hfind : calls.findSome? ProviderCall.response? with
    | some resp => exact ⟨resp, rfl⟩
    | none =>
        have hfailed := List.findSome?_eq_none_iff.mp hfind call hcall
        exact absurd hsucceeded (ProviderCall.response?_eq_none.mp hfailed)

/-- Calls that return or throw have one report each. -/
theorem reports_of_ended {now : Time} {calls : List ProviderCall}
    (hends : ∀ call ∈ calls, call.outcome ≠ .nullException) :
    calls.map (ProviderCall.report now) =
      (calls.filterMap (ProviderCall.report now)).map some := by
  induction calls with
  | nil => rfl
  | cons call calls ih =>
      obtain ⟨report, hreport⟩ : ∃ report, call.report now = some report := by
        have hend := hends call List.mem_cons_self
        unfold ProviderCall.report
        cases houtcome : call.outcome with
        | answered resp => exact ⟨_, rfl⟩
        | threw e => exact ⟨_, rfl⟩
        | nullException => exact absurd houtcome hend
      rw [List.map_cons, List.filterMap_cons_some hreport, List.map_cons, hreport,
        ih fun later hlater => hends later (List.mem_cons_of_mem _ hlater)]

/-- What an answer with 200 leaves behind. -/
theorem callStep_attributed {P : Platform} {w : World} {req : ChatRequest}
    {decision : RouteDecision} {provider : Provider} {s : Server} {resp : ChatResponse}
    (hfinish : (callProviders w s.registry decision provider req s.router).finish = .answered resp)
    (hstatus : (callStep P w req decision provider s).reply.HasStatus 200) :
    (callStep P w req decision provider s).reply =
        .response (missResponse req.requestId (priceResponse s.costs req resp) decision) ∧
      (callStep P w req decision provider s).server.costs =
        s.costs.record (metricsOf w.later req (priceResponse s.costs req resp)) ∧
      s.cache.put P s.config.cache w.later req (priceResponse s.costs req resp) =
        some (callStep P w req decision provider s).server.cache := by
  simp only [callStep, hfinish, settle, bookkeep] at hstatus ⊢
  cases hput : s.cache.put P s.config.cache w.later req (priceResponse s.costs req resp) with
  | none =>
      rw [hput] at hstatus
      exact absurd hstatus Reply.not_hasStatus_hangs
  | some cache => exact ⟨rfl, rfl, rfl⟩

/-- An answer with 502 leaves the ledger, the cache and the limiter alone. -/
theorem callStep_failed {P : Platform} {w : World} {req : ChatRequest} {decision : RouteDecision}
    {provider : Provider} {s : Server}
    (hstatus : (callStep P w req decision provider s).reply.HasStatus 502) :
    (callStep P w req decision provider s).recorded = [] ∧
      (callStep P w req decision provider s).server =
        { s with
          router := (callProviders w s.registry decision provider req s.router).router
          metrics := s.metrics.incErrors } := by
  simp only [callStep] at hstatus ⊢
  cases hfinish : (callProviders w s.registry decision provider req s.router).finish with
  | failed => exact ⟨rfl, rfl⟩
  | crashed =>
      rw [hfinish] at hstatus
      exact absurd hstatus Reply.not_hasStatus_crashes
  | answered resp =>
      rw [hfinish] at hstatus
      simp only [settle] at hstatus
      split at hstatus
      · exact absurd hstatus Reply.not_hasStatus_hangs
      · simp [missResponse] at hstatus

/-- **The calls of a request.**  For every decision with a registered primary,
every registry that `initialize` builds and every assignment of responses and
exceptions to the calls, the handler does what it owes exactly when the cache
can take a response or there is none to take. -/
theorem callStep_handled_iff (P : Platform) (w : World) (req : ChatRequest)
    (decision : RouteDecision) (provider : Provider) (s : Server) (configs : List ProviderConfig)
    (hregistry : s.registry = ProviderRegistry.initializeFrom configs {})
    (hprimary : s.registry.get decision.provider = some provider)
    (hends : ∀ call ∈ plannedCalls w req s.registry decision provider,
      call.outcome ≠ .nullException) :
    CallsHandled P w req decision provider s (callStep P w req decision provider s) ↔
      CanStore s.config.cache req ∨
        ∀ call ∈ plannedCalls w req s.registry decision provider, ¬ call.Succeeded := by
  have hname : provider.kind.name = decision.provider := by
    rw [hregistry] at hprimary
    refine ProviderRegistry.kind_of_get_initializeFrom (fun name p h => ?_) hprimary
    cases h
  obtain ⟨hcalls, hrouter, -, -⟩ := callStep_frame P w req decision provider s
  obtain ⟨hplanned, hfinish⟩ := callProviders_planned hname hends s.router
  have hsucceeded : (∃ call ∈ (callStep P w req decision provider s).calls, call.Succeeded) ↔
      ∃ call ∈ plannedCalls w req s.registry decision provider, call.Succeeded := by
    rw [hcalls, hplanned]
    exact Attempts.exists_mem_upToFirst
  have hstatus : (callStep P w req decision provider s).reply.HasStatus 200 ↔
      (∃ call ∈ (callStep P w req decision provider s).calls, call.Succeeded) ∧
        CanStore s.config.cache req := by
    rw [callStep_200_iff, hfinish, CallEnd.ofCalls_answered_iff, hcalls]
  constructor
  · intro hhandled
    by_cases hsome : ∃ call ∈ plannedCalls w req s.registry decision provider, call.Succeeded
    · exact .inl (hstatus.mp (hhandled.status.mpr (hsucceeded.mpr hsome))).2
    · exact .inr fun call hcall h => hsome ⟨call, hcall, h⟩
  · intro hcond
    refine ⟨hcalls.trans hplanned, ?_, ?_, fun h200 => ?_, fun h502 => ?_⟩
    · refine ⟨_, ?_, hrouter.trans (callProviders_reports decision provider s.router)⟩
      rw [hcalls]
      apply reports_of_ended
      intro call hcall
      rw [hplanned] at hcall
      exact hends call ((Attempts.upToFirst_initial _).subset hcall)
    · rw [hstatus]
      refine ⟨And.left, fun hsome => ⟨hsome, ?_⟩⟩
      rcases hcond with hstore | hnone
      · exact hstore
      · obtain ⟨call, hcall, h⟩ := hsucceeded.mp hsome
        exact absurd h (hnone call hcall)
    · obtain ⟨resp, hresp⟩ := (callStep_200_iff.mp h200).1
      obtain ⟨call, hcall, hsome⟩ := CallEnd.ofCalls_eq_answered (hfinish.symm.trans hresp)
      exact ⟨call, hcalls ▸ hcall, resp, hsome, (ProviderCall.response?_eq_some hsome).2,
        callStep_attributed hresp h200⟩
    · obtain ⟨hrecorded, hserver⟩ := callStep_failed h502
      rw [hserver]
      exact ⟨hrecorded, rfl, rfl, rfl, rfl⟩

/-- A server with one provider and a cache of so many entries. -/
def oneProvider (maxEntries : ℤ) : Server :=
  Server.init
    { cache := { maxEntries := maxEntries }
      providers := [{ name := str "groq", apiKey := str "k", models := [str "gemma2-9b-it"] }] }

/-- Every provider answers with an empty object. -/
def allAnswer : World where
  ordered := noDelay
  upstream _ _ _ _ := ⟨.answered 200 [] (.ok (.object [])), 0⟩

/-- The decision for the one provider. -/
def groqDecision : RouteDecision := ⟨str "groq", str "gemma2-9b-it", .smart, 0, []⟩

/-- The provider it names. -/
def groqProvider : Provider :=
  ⟨.groq, str "k", ProviderKind.groq.defaultBaseUrl, 30000, 2⟩

/-- Three providers with keys. -/
def threeProviders : Server :=
  Server.init
    { providers :=
        [{ name := str "groq", apiKey := str "k", models := [str "gemma2-9b-it"] },
         { name := str "openai", apiKey := str "k", models := [str "gpt-4o-mini"] },
         { name := str "together", apiKey := str "k" }] }

/-- The first is down. -/
def firstDown : World where
  ordered := noDelay
  upstream _ p _ _ :=
    if p.kind = .groq then ⟨.failed (str "timeout"), 0⟩
    else ⟨.answered 200 [] (.ok (.object [])), 0⟩

/-- A chain with a name that nobody registered. -/
def chainDecision : RouteDecision :=
  { groqDecision with fallbackChain := [str "mistral", str "openai", str "together"] }

/-- The call moves on to the next registered provider, and no further. -/
theorem callStep_handled_iff_chain :
    CallsHandled (cLocale fnv1a) firstDown { model := str "auto" } chainDecision groqProvider
        threeProviders
        (callStep (cLocale fnv1a) firstDown { model := str "auto" } chainDecision groqProvider
          threeProviders) ∧
      (Attempts.upToFirst ProviderCall.Succeeded (plannedCalls firstDown { model := str "auto" }
        threeProviders.registry chainDecision groqProvider)).map ProviderCall.provider =
          [str "groq", str "openai"] := by
  have hretries : ∀ member ∈ threeProviders.registry.members chainDecision.fallbackChain,
      0 ≤ member.2.maxRetries := by decide
  have hlaw := callStep_handled_iff (cLocale fnv1a) firstDown { model := str "auto" }
    chainDecision groqProvider threeProviders threeProviders.config.providers rfl (by decide)
    (plannedCalls_end (by decide) hretries)
  exact ⟨hlaw.mpr (.inl (.inr (.inr (by decide)))), by decide⟩

/-- With no room in the cache the call succeeds and the request is not
answered. -/
theorem answered_call_without_reply :
    ¬ ∀ (P : Platform) (w : World) (req : ChatRequest) (decision : RouteDecision)
        (provider : Provider) (s : Server) (configs : List ProviderConfig),
      s.registry = ProviderRegistry.initializeFrom configs {} →
      s.registry.get decision.provider = some provider →
      (∀ call ∈ plannedCalls w req s.registry decision provider,
        call.outcome ≠ .nullException) →
        CallsHandled P w req decision provider s (callStep P w req decision provider s) := by
  intro h
  have hhandled := h (cLocale fnv1a) allAnswer { model := str "auto" } groqDecision groqProvider
    (oneProvider 0) (oneProvider 0).config.providers rfl (by decide)
    (by
      intro call hcall
      obtain rfl := List.mem_singleton.mp hcall
      exact nofun)
  have hcalled : ∃ call ∈ (callStep (cLocale fnv1a) allAnswer { model := str "auto" } groqDecision
      groqProvider (oneProvider 0)).calls, call.Succeeded := by
    rw [hhandled.calls]
    exact Attempts.exists_mem_upToFirst.mpr ⟨_, List.mem_cons_self, trivial⟩
  have hsilent : ¬ (callStep (cLocale fnv1a) allAnswer { model := str "auto" } groqDecision
      groqProvider (oneProvider 0)).reply.HasStatus 200 := by decide
  exact hsilent (hhandled.status.mpr hcalled)

end Gateway
