import LlmGateway.Handlers

/-!
# What the handlers may call

The methods that the handler of each request calls, whatever they answer.  A
handler leaves alone what none of its methods touches.
-/

namespace Gateway

open Interleaving Prog

/-- The methods of one kind of work in the handlers. -/
def Op.calling : Op → Bool
  | .getProvider _ | .callProvider .. | .reportSuccess .. | .reportFailure _ => true
  | _ => false

/-- The methods that only read what anyone may see. -/
def Op.reading : Op → Bool
  | .load _ | .latencies | .clock | .cacheStats | .getHealth _ | .getProvider _
  | .availableProviders => true
  | _ => false

/-- The credentials that a request to an admin endpoint presents. -/
def Request.credentials : Request → Option Str
  | createKey http | listKeys http | revokeKey http _ | setRouting http | clearCache http
  | costs http => some http.authorization
  | _ => none

/-- The methods that the handler of a request calls. -/
def Request.allows : Request → Op → Bool
  | completions .., .count _ | completions .., .authenticate _ | completions .., .checkRequest ..
  | completions .., .recordTokens .. | completions .., .cacheGet _ | completions .., .cachePut ..
  | completions .., .route _ | completions .., .estimateCost .. | completions .., .clock
  | completions .., .record _ => true
  | completions .., o => o.calling
  | chat .., .cacheGet _ | chat .., .cachePut .. | chat .., .route _ | chat .., .getProvider _
  | chat .., .callProvider .. => true
  | chat .., _ => false
  | createKey _, .createKey .. | listKeys _, .listKeys | revokeKey .., .revokeKey _
  | setRouting _, .setStrategy _ | clearCache _, .cacheClear | costs _, .getSummary => true
  | request, .isAdmin _ => request.credentials.isSome
  | _, o => o.reading

namespace Handler

variable {P : Platform} {startTime : Time} {req : ChatRequest} {decision : RouteDecision}

/-! ## The completion endpoints -/

/-- The fallbacks are looked up, called and reported on, and nothing else happens. -/
theorem tryFallbacks_uses (chain : List Str) :
    Uses (fun o => o.calling) (tryFallbacks req chain) := by
  induction chain with
  | nil => trivial
  | cons fbName chain ih =>
      simp only [tryFallbacks, perform_bind, Uses.call_iff]
      refine ⟨rfl, fun fb => ?_⟩
      cases fb with
      | none => exact ih
      | some fb =>
          simp only
          split
          · exact ih
          · refine ⟨rfl, fun outcome => ?_⟩
            cases outcome with
            | answered resp => exact ⟨rfl, fun _ => trivial⟩
            | threw e => exact ⟨rfl, fun _ => ih⟩
            | nullException => trivial

theorem callProviders_uses (provider : Provider) :
    Uses (fun o => o.calling) (callProviders req decision provider) := by
  refine ⟨rfl, fun outcome => ?_⟩
  cases outcome with
  | answered resp => exact ⟨rfl, fun _ => trivial⟩
  | threw e => exact ⟨rfl, fun _ => tryFallbacks_uses _⟩
  | nullException => trivial

section
variable {draw : UInt64} {http : HttpRequest}

/-- Only a request with a key counts its tokens. -/
theorem recordUsage_uses (resp : ChatResponse) :
    Uses (fun o => (Request.completions draw http).allows o) (recordUsage req resp) := by
  unfold recordUsage
  split
  · trivial
  · exact ⟨rfl, fun _ => trivial⟩

/-- An answer is priced, recorded, counted and cached. -/
theorem settle_uses (resp : ChatResponse) :
    Uses (fun o => (Request.completions draw http).allows o) (settle req decision resp) := by
  refine ⟨rfl, fun cost => ⟨rfl, fun now => ⟨rfl, fun _ => ?_⟩⟩⟩
  refine (recordUsage_uses _).bind fun _ => ⟨rfl, fun _ => ⟨rfl, fun _ => ⟨rfl, fun stored => ?_⟩⟩⟩
  cases stored <;> trivial

theorem refuse_uses (resp : Response) :
    Uses (fun o => (Request.completions draw http).allows o) (refuse resp) :=
  ⟨rfl, fun _ => trivial⟩

/-- The router decides once; the calls it leads to touch neither limiter, ledger nor
cache. -/
theorem routeStep_uses :
    Uses (fun o => (Request.completions draw http).allows o) (routeStep req) := by
  simp only [routeStep, perform_bind, Uses.call_iff]
  refine ⟨rfl, fun decision => ?_⟩
  split
  · exact refuse_uses _
  · refine ⟨rfl, fun provider => ?_⟩
    cases provider with
    | none => exact refuse_uses _
    | some provider =>
        refine ((callProviders_uses provider).mono ?_).bind fun finish => ?_
        · intro o ho
          cases o <;> first | rfl | exact ho
        · cases finish with
          | answered resp => exact settle_uses resp
          | failed => exact refuse_uses _
          | crashed => trivial

/-- A hit goes no further than its counter. -/
theorem cacheStep_uses :
    Uses (fun o => (Request.completions draw http).allows o) (cacheStep req) := by
  refine ⟨rfl, fun cached => ?_⟩
  cases cached with
  | some cached => exact ⟨rfl, fun _ => trivial⟩
  | none => exact ⟨rfl, fun _ => routeStep_uses⟩

/-- Only a request with a key gets to the limiter. -/
theorem limitStep_uses :
    Uses (fun o => (Request.completions draw http).allows o) (limitStep P req) := by
  unfold limitStep
  split
  · exact cacheStep_uses
  · simp only [perform_bind, Uses.call_iff]
    refine ⟨rfl, fun _ => ⟨rfl, fun checked => ?_⟩⟩
    split
    · trivial
    · exact cacheStep_uses

/-- `/v1/chat/completions` makes and revokes no key, and sets no strategy. -/
theorem chatCompletions_uses :
    Uses (fun o => (Request.completions draw http).allows o) (chatCompletions P draw http) := by
  refine ⟨rfl, fun _ => ?_⟩
  split
  · trivial
  · split
    · trivial
    · trivial
    · exact limitStep_uses

/-- `/chat` asks no limiter, reports on no call and records none. -/
theorem chat_uses : Uses (fun o => (Request.chat draw http).allows o) (chat draw http) := by
  unfold chat
  split
  · trivial
  · split
    · trivial
    · split
      · trivial
      · refine ⟨rfl, fun cached => ?_⟩
        cases cached with
        | some cached => trivial
        | none =>
            refine ⟨rfl, fun decision => ⟨rfl, fun provider => ?_⟩⟩
            cases provider with
            | none => trivial
            | some provider =>
                refine ⟨rfl, fun outcome => ?_⟩
                cases outcome with
                | threw e => trivial
                | nullException => trivial
                | answered resp => exact ⟨rfl, fun stored => by cases stored <;> trivial⟩

end

/-! ## The other endpoints -/

section
variable {allowed : Op → Prop} {http : HttpRequest}

/-- Nothing is called before the admin check. -/
theorem asAdmin_uses {p : Program Reply} (hadmin : ∀ token, allowed (.isAdmin token))
    (h : Uses allowed p) : Uses allowed (asAdmin http p) := by
  simp only [asAdmin, perform_bind, Uses.call_iff]
  refine ⟨hadmin _, fun admin => ?_⟩
  split
  · trivial
  · exact h

/-- A body that does not parse ends the handler before any call. -/
theorem withBody_uses {p : Json → Program Reply} (h : ∀ body, Uses allowed (p body)) :
    Uses allowed (withBody http p) := by
  unfold withBody
  split
  · trivial
  · exact h _

/-- A health page reads one record after the other. -/
theorem providersHealth_uses (hhealth : ∀ name, allowed (.getHealth name))
    (fields : ProviderHealth → List (Str × Json)) (names : List Str) :
    Uses allowed (providersHealth fields names) := by
  induction names with
  | nil => trivial
  | cons name names ih =>
      simp only [providersHealth, perform_bind, Uses.call_iff]
      exact ⟨hhealth name, fun health => ih.bind fun rest => trivial⟩

/-- The list of models reads one provider after the other. -/
theorem listModels_uses (hget : ∀ name, allowed (.getProvider name)) (names : List Str) :
    Uses allowed (listModels names) := by
  induction names with
  | nil => trivial
  | cons name names ih =>
      simp only [listModels, perform_bind, Uses.call_iff]
      refine ⟨hget name, fun provider => ih.bind fun rest => ?_⟩
      split <;> trivial

end

theorem createKey_uses (http : HttpRequest) :
    Uses (fun o => (Request.createKey http).allows o) (createKey http) := by
  refine asAdmin_uses (fun _ => rfl) (withBody_uses fun body => ?_)
  split
  · trivial
  · exact ⟨rfl, fun _ => trivial⟩

theorem setRouting_uses (http : HttpRequest) :
    Uses (fun o => (Request.setRouting http).allows o) (setRouting http) := by
  refine asAdmin_uses (fun _ => rfl) (withBody_uses fun body => ?_)
  split
  · trivial
  · exact ⟨rfl, fun _ => trivial⟩

/-- A snapshot reads the counters, the clock and the latencies, and changes none. -/
theorem snapshot_uses {allowed : Op → Prop} (hread : ∀ o, o.reading = true → allowed o)
    (startTime : Time) : Uses allowed (snapshot startTime) := by
  have hsnapshot : Uses (fun o => o.reading) (snapshot startTime) :=
    ⟨rfl, fun _ => ⟨rfl, fun _ => ⟨rfl, fun _ => ⟨rfl, fun _ => ⟨rfl, fun _ => ⟨rfl, fun _ =>
      ⟨rfl, fun _ => trivial⟩⟩⟩⟩⟩⟩⟩
  exact hsnapshot.mono hread

end Handler

/-- **A handler calls only what its request allows.** -/
theorem Request.handler_uses (P : Platform) (startTime : Time) (request : Request) :
    Uses (fun o => request.allows o) (request.handler P startTime) := by
  have hanswer : ∀ {allowed : Op → Prop} {p : Program Reply}, Uses allowed p →
      Uses allowed (Answer.of <$> p) := fun h => h.bind fun _ => trivial
  have hmetrics : ∀ o : Op, o.reading = true → Request.metrics.allows o = true := fun o ho => by
    cases o <;> exact ho
  have hstats : ∀ o : Op, o.reading = true → Request.stats.allows o = true := fun o ho => by
    cases o <;> exact ho
  cases request with
  | completions draw http => exact hanswer Handler.chatCompletions_uses
  | chat draw http => exact hanswer Handler.chat_uses
  | createKey http => exact hanswer (Handler.createKey_uses http)
  | listKeys http =>
      exact hanswer (Handler.asAdmin_uses (fun _ => rfl) ⟨rfl, fun _ => trivial⟩)
  | revokeKey http keyId =>
      exact hanswer (Handler.asAdmin_uses (fun _ => rfl) ⟨rfl, fun _ => trivial⟩)
  | setRouting http => exact hanswer (Handler.setRouting_uses http)
  | clearCache http =>
      exact hanswer (Handler.asAdmin_uses (fun _ => rfl) ⟨rfl, fun _ => trivial⟩)
  | costs http => exact hanswer (Handler.asAdmin_uses (fun _ => rfl) ⟨rfl, fun _ => trivial⟩)
  | health =>
      refine hanswer ⟨rfl, fun names => ?_⟩
      exact (Handler.providersHealth_uses (fun _ => rfl) _ names).bind fun _ => trivial
  | metrics => exact (Handler.snapshot_uses hmetrics startTime).bind fun _ => trivial
  | stats =>
      refine hanswer ⟨rfl, fun cacheStats =>
        (Handler.snapshot_uses hstats startTime).bind fun s => ?_⟩
      refine ⟨rfl, fun names => ?_⟩
      exact (Handler.providersHealth_uses (fun _ => rfl) _ names).bind fun _ => trivial
  | models =>
      refine hanswer ⟨rfl, fun names => ?_⟩
      exact (Handler.listModels_uses (fun _ => rfl) names).bind fun _ => trivial

end Gateway
