import Mathlib.Data.List.DropRight
import LlmGateway.Recovery

/-!
# The ledger

Every successful call of `/v1/chat/completions` is recorded once, under the name
it was made under and with the model and the token counts of its response;
`/chat` makes its call and records nothing.  So over a run the records match
the successful calls exactly when no `/chat` request is answered by a provider,
and the history holds the latest records.
-/

namespace Gateway

/-- What a record says about the call it was made for. -/
structure LedgerEntry where
  provider : Str
  model : Str
  promptTokens : ℤ
  completionTokens : ℤ
  deriving DecidableEq, Repr

def RequestMetrics.entry (m : RequestMetrics) : LedgerEntry :=
  ⟨m.provider, m.model, m.promptTokens, m.completionTokens⟩

/-- The entry a successful call deserves: the name it was made under, and the
model and the token counts of its response. -/
def ProviderCall.entry? (call : ProviderCall) : Option LedgerEntry :=
  match call.outcome with
  | .answered resp => some ⟨call.provider, resp.model, resp.promptTokens, resp.completionTokens⟩
  | .threw _ | .nullException => none

/-- The entries of the successful calls of a run, in order. -/
def successfulCalls (steps : List Step) : List LedgerEntry :=
  steps.flatMap fun step => step.served.calls.filterMap ProviderCall.entry?

/-- The records a run appends to the ledger, in order. -/
def appendedRecords (steps : List Step) : List RequestMetrics :=
  steps.flatMap fun step => step.served.recorded

/-! ## The history -/

/-- Of an appended list only the latest part of the old one counts. -/
theorem rtake_append_rtake {α : Type} (n : Nat) (old new : List α) :
    (old.rtake n ++ new).rtake n = (old ++ new).rtake n := by
  unfold List.rtake
  simp only [List.drop_append, List.drop_drop, List.length_append, List.length_drop]
  congr 2 <;> omega

theorem rtake_of_length_le {α : Type} {n : Nat} {l : List α} (h : l.length ≤ n) :
    l.rtake n = l := by
  rw [List.rtake, Nat.sub_eq_zero_of_le h, List.drop_zero]

namespace CostTracker

/-- The history keeps the latest records. -/
theorem pushHistory_eq {history : List RequestMetrics} (h : history.length ≤ maxHistory)
    (m : RequestMetrics) : pushHistory m history = (history ++ [m]).rtake maxHistory := by
  have hpos : 0 < maxHistory := by decide
  unfold pushHistory
  by_cases hfull : history.length ≥ maxHistory
  · have hone : (history ++ [m]).length - maxHistory = 1 := by
      rw [List.length_append, List.length_singleton]
      omega
    have hne : history ≠ [] := List.ne_nil_of_length_pos (by omega)
    rw [if_pos hfull, List.rtake, hone, List.drop_one, List.tail_append_of_ne_nil hne]
  · rw [if_neg hfull, rtake_of_length_le]
    rw [List.length_append, List.length_singleton]
    omega

theorem record_history {t : CostTracker} (h : t.history.length ≤ maxHistory)
    (m : RequestMetrics) :
    (t.record m).history = (t.history ++ [t.priced m]).rtake maxHistory :=
  pushHistory_eq h (t.priced m)

/-- Pricing a record does not change its entry. -/
theorem priced_entry (m : RequestMetrics) (t : CostTracker) : (t.priced m).entry = m.entry := by
  unfold priced
  split <;> rfl

end CostTracker

/-! ## One request -/

variable {P : Platform} {w : World} {req : ChatRequest}

/-- The entry of a response. -/
def ChatResponse.entry (resp : ChatResponse) : LedgerEntry :=
  ⟨resp.provider, resp.model, resp.promptTokens, resp.completionTokens⟩

/-- The entries that the end of the provider calls deserves. -/
def CallEnd.entries : CallEnd → List LedgerEntry
  | .answered resp => [resp.entry]
  | .failed | .crashed => []

/-- In the fallback loop the last call alone may succeed, and it is the one
whose response is handed on. -/
theorem tryFallbacks_entries {registry : ProviderRegistry} (chain : List Str) (k : Nat)
    (router : Router) :
    (tryFallbacks w registry req chain k router).calls.filterMap ProviderCall.entry? =
      (tryFallbacks w registry req chain k router).finish.entries := by
  induction chain generalizing k router with
  | nil => rfl
  | cons fbName chain ih =>
      cases hget : registry.get fbName with
      | none =>
          rw [tryFallbacks_skip hget]
          exact ih k router
      | some fb =>
          rw [tryFallbacks_call hget]
          cases fallbackOutcome w req k fb with
          | answered resp => rfl
          | threw e => exact ih (k + 1) (router.reportFailure w.later fbName)
          | nullException => rfl

/-- The primary answers under its own name, which is the one it is registered
under. -/
theorem primaryOutcome_provider {decision : RouteDecision} {provider : Provider}
    {resp : ChatResponse} (h : primaryOutcome w req decision provider = .answered resp) :
    resp.provider = provider.kind.name := by
  obtain ⟨i, json, -, hparse⟩ := Provider.chat_answered h
  exact (parsed_of_parseResponse hparse).provider

theorem callProviders_entries {registry : ProviderRegistry} {decision : RouteDecision}
    {provider : Provider} {router : Router} (hname : provider.kind.name = decision.provider) :
    (callProviders w registry decision provider req router).calls.filterMap ProviderCall.entry? =
      (callProviders w registry decision provider req router).finish.entries := by
  rw [callProviders_eq]
  cases houtcome : primaryOutcome w req decision provider with
  | answered resp =>
      have hprovider := (primaryOutcome_provider houtcome).trans hname
      simp only [List.filterMap_cons, List.filterMap_nil, ProviderCall.entry?, CallEnd.entries,
        ChatResponse.entry, hprovider]
  | threw e => exact tryFallbacks_entries decision.fallbackChain 1 _
  | nullException => rfl

/-- The call step records the successful calls it made, in the history too. -/
theorem callStep_ledger (P : Platform) (w : World) (req : ChatRequest)
    {decision : RouteDecision} {provider : Provider} {s : Server}
    (hname : provider.kind.name = decision.provider)
    (hlength : s.costs.history.length ≤ CostTracker.maxHistory) :
    (callStep P w req decision provider s).recorded.map RequestMetrics.entry =
        (callStep P w req decision provider s).calls.filterMap ProviderCall.entry? ∧
      (callStep P w req decision provider s).server.costs.history =
        (s.costs.history ++ (callStep P w req decision provider s).recorded).rtake
          CostTracker.maxHistory := by
  have hentries : (callProviders w s.registry decision provider req s.router).calls.filterMap
      ProviderCall.entry? =
      (callProviders w s.registry decision provider req s.router).finish.entries :=
    callProviders_entries hname
  have hkept : s.costs.history = (s.costs.history ++ []).rtake CostTracker.maxHistory := by
    rw [List.append_nil, rtake_of_length_le hlength]
  simp only [callStep]
  cases hfinish : (callProviders w s.registry decision provider req s.router).finish with
  | answered resp =>
      rw [hfinish] at hentries
      have hrecord := CostTracker.record_history hlength
        (metricsOf w.later req (priceResponse s.costs req resp))
      simp only [settle, bookkeep]
      split
      · exact ⟨by simp only [List.map_cons, List.map_nil, CostTracker.priced_entry, hentries]; rfl,
          hrecord⟩
      · exact ⟨by simp only [List.map_cons, List.map_nil, CostTracker.priced_entry, hentries]; rfl,
          hrecord⟩
  | failed =>
      rw [hfinish] at hentries
      exact ⟨hentries.symm, hkept⟩
  | crashed =>
      rw [hfinish] at hentries
      exact ⟨hentries.symm, hkept⟩

/-- A `/chat` request that misses the cache and whose registered primary
answers. -/
def AnsweredChat (P : Platform) (s : Server) (i : Incoming) : Prop :=
  i.endpoint = .chat ∧ ∃ req s' provider, toLegacyRouting P i.world i.http s = some (req, s') ∧
    s'.registry.get (decisionFor i.world req s').provider = some provider ∧
      (primaryOutcome i.world req (decisionFor i.world req s') provider).Answered

/-- Such a request makes one successful call and records nothing. -/
theorem serve_of_answeredChat {s : Server} {i : Incoming} (h : AnsweredChat P s i) :
    (serve P s i).recorded = [] ∧
      ((serve P s i).calls.filterMap ProviderCall.entry?).length = 1 := by
  obtain ⟨hendpoint, req, s', provider, hrouting, hget, hanswered⟩ := h
  have hserve : serve P s i = legacyCall P i.world req (decisionFor i.world req s') provider
      (afterRoute i.world req s') := by
    simp only [serve, hendpoint]
    rw [chat_of_toLegacyRouting hrouting, legacyRoute_of_registered hget]
  obtain ⟨hcalls, hrecorded, -⟩ := legacyCall_frame P i.world req (decisionFor i.world req s')
    provider (afterRoute i.world req s')
  obtain ⟨resp, hresp⟩ := ChatOutcome.answered_iff.mp hanswered
  rw [hserve, hcalls, hresp]
  exact ⟨hrecorded, rfl⟩

/-- Records that match the calls rule such a request out. -/
theorem not_answeredChat_of_match {s : Server} {i : Incoming}
    (h : (serve P s i).recorded.map RequestMetrics.entry =
      (serve P s i).calls.filterMap ProviderCall.entry?) : ¬ AnsweredChat P s i := by
  intro hchat
  obtain ⟨hnothing, hone⟩ := serve_of_answeredChat hchat
  rw [← h, hnothing] at hone
  cases hone

/-- What one request does to the ledger: no more records than successful calls,
the records in the history, and the two match unless the request is an answered
`/chat` request. -/
structure Booked (P : Platform) (s : Server) (i : Incoming) : Prop where
  atMost : ((serve P s i).recorded.map RequestMetrics.entry).length ≤
    ((serve P s i).calls.filterMap ProviderCall.entry?).length
  history : (serve P s i).server.costs.history =
    (s.costs.history ++ (serve P s i).recorded).rtake CostTracker.maxHistory
  matches_iff : (serve P s i).recorded.map RequestMetrics.entry =
    (serve P s i).calls.filterMap ProviderCall.entry? ↔ ¬ AnsweredChat P s i

theorem Booked.of_match {s : Server} {i : Incoming}
    (h : (serve P s i).recorded.map RequestMetrics.entry =
      (serve P s i).calls.filterMap ProviderCall.entry?)
    (hhistory : (serve P s i).server.costs.history =
      (s.costs.history ++ (serve P s i).recorded).rtake CostTracker.maxHistory) :
    Booked P s i where
  atMost := by rw [h]
  history := hhistory
  matches_iff := iff_of_true h (not_answeredChat_of_match h)

/-- The history stays where nothing is recorded and the ledger is not touched. -/
theorem history_of_no_record {s : Server} {served : Served}
    (hlength : s.costs.history.length ≤ CostTracker.maxHistory) (hrecorded : served.recorded = [])
    (hcosts : served.server.costs = s.costs) :
    served.server.costs.history =
      (s.costs.history ++ served.recorded).rtake CostTracker.maxHistory := by
  rw [hcosts, hrecorded, List.append_nil, rtake_of_length_le hlength]

theorem serve_booked {s : Server}
    (hregistry : s.registry = ProviderRegistry.initializeFrom s.config.providers {})
    (hlength : s.costs.history.length ≤ CostTracker.maxHistory) (i : Incoming) :
    Booked P s i := by
  rcases serve_cases P s i with hnone | ⟨req, s', provider, -, hrouting, -, hget, hrun⟩ |
    ⟨req, s', provider, hendpoint, hrouting, hget, hrun⟩
  · refine .of_match ?_ (history_of_no_record hlength hnone.recorded hnone.core.costs)
    rw [hnone.recorded, hnone.calls]
    rfl
  · have hcore := (toRouting_core hrouting).2.1
    have hkind : provider.kind.name = (decisionFor i.world req s').provider := by
      rw [hcore.registry, hregistry] at hget
      exact ProviderRegistry.kind_of_get_initializeFrom (fun _ _ h => by cases h) hget
    have hcosts : (afterRoute i.world req s').costs = s.costs := hcore.costs
    obtain ⟨hentries, hhistory⟩ := callStep_ledger P i.world req hkind (hcosts ▸ hlength)
    rw [← hrun] at hentries hhistory
    exact .of_match hentries (hcosts ▸ hhistory)
  · have hcore := (toLegacyRouting_core hrouting).1
    obtain ⟨hcalls, hrecorded, hkept⟩ := legacyCall_frame P i.world req
      (decisionFor i.world req s') provider (afterRoute i.world req s')
    rw [← hrun] at hcalls hrecorded hkept
    refine ⟨?_, history_of_no_record hlength hrecorded (hkept.costs.trans hcore.costs), ?_⟩
    · rw [hrecorded]
      exact Nat.zero_le _
    · refine ⟨not_answeredChat_of_match, fun hnot => ?_⟩
      rw [hrecorded, hcalls]
      cases houtcome : primaryOutcome i.world req (decisionFor i.world req s') provider with
      | answered resp =>
          exact absurd ⟨hendpoint, req, s', provider, hrouting, hget, houtcome ▸ trivial⟩ hnot
      | threw e => rfl
      | nullException => rfl

/-! ## Runs -/

/-- Two lists of pieces that are at most as long match piece by piece. -/
theorem append_eq_append_iff_of_length_le {α : Type} {a b c d : List α}
    (hab : a.length ≤ b.length) (hcd : c.length ≤ d.length) :
    a ++ c = b ++ d ↔ a = b ∧ c = d := by
  constructor
  · intro h
    have hlength := congrArg List.length h
    rw [List.length_append, List.length_append] at hlength
    exact List.append_inj h (by omega)
  · intro h
    rw [h.1, h.2]

/-- What a run does to the ledger. -/
structure RunBooked (P : Platform) (s : Server) (incoming : List Incoming) : Prop where
  atMost : ((appendedRecords (run P s incoming)).map RequestMetrics.entry).length ≤
    (successfulCalls (run P s incoming)).length
  history : (finalState P s incoming).costs.history =
    (s.costs.history ++ appendedRecords (run P s incoming)).rtake CostTracker.maxHistory
  matches_iff : (appendedRecords (run P s incoming)).map RequestMetrics.entry =
      successfulCalls (run P s incoming) ↔
    ∀ step ∈ run P s incoming, ¬ AnsweredChat P step.before step.incoming

theorem runBooked_nil {s : Server} (hlength : s.costs.history.length ≤ CostTracker.maxHistory) :
    RunBooked P s [] := by
  refine ⟨le_rfl, ?_, iff_of_true rfl (by simp [run])⟩
  rw [show appendedRecords (run P s []) = [] from rfl, List.append_nil,
    rtake_of_length_le hlength]
  rfl

/-- One request and a run after it make a run. -/
theorem Booked.cons {s : Server} {i : Incoming} {rest : List Incoming} (h : Booked P s i)
    (htail : RunBooked P (serve P s i).server ((serve P s i).reply.remaining rest)) :
    RunBooked P s (i :: rest) := by
  obtain ⟨hatMost, hhistory, hmatches⟩ := htail
  have hrecords : appendedRecords (run P s (i :: rest)) = (serve P s i).recorded ++
      appendedRecords (run P (serve P s i).server ((serve P s i).reply.remaining rest)) := by
    rw [run_cons]
    rfl
  have hcalls : successfulCalls (run P s (i :: rest)) =
      (serve P s i).calls.filterMap ProviderCall.entry? ++
        successfulCalls (run P (serve P s i).server ((serve P s i).reply.remaining rest)) := by
    rw [run_cons]
    rfl
  refine ⟨?_, ?_, ?_⟩
  · rw [hrecords, hcalls, List.map_append, List.length_append, List.length_append]
    exact Nat.add_le_add h.atMost hatMost
  · rw [finalState_cons, hhistory, h.history, hrecords, rtake_append_rtake, List.append_assoc]
  · rw [hrecords, hcalls, List.map_append, append_eq_append_iff_of_length_le h.atMost hatMost,
      h.matches_iff, hmatches, run_cons]
    simp only [List.mem_cons, forall_eq_or_imp]

theorem run_booked (P : Platform) (incoming : List Incoming) {s : Server}
    (hregistry : s.registry = ProviderRegistry.initializeFrom s.config.providers {})
    (hlength : s.costs.history.length ≤ CostTracker.maxHistory) : RunBooked P s incoming := by
  induction incoming generalizing s with
  | nil => exact runBooked_nil hlength
  | cons i rest ih =>
      have hbooked := serve_booked (P := P) hregistry hlength i
      have hlength' : (serve P s i).server.costs.history.length ≤ CostTracker.maxHistory := by
        rw [hbooked.history, List.rtake, List.length_drop]
        omega
      refine hbooked.cons ?_
      unfold Reply.remaining
      split
      · obtain ⟨hconfig, hkept⟩ := serve_frame P s i
        exact ih (by rw [hkept, hconfig, hregistry]) hlength'
      · exact runBooked_nil hlength'

/-- **Ledger.**  Over every run of requests to the two endpoints, the records
appended to the ledger are those of the successful provider calls, in their
order and with their provider, model and token counts, exactly when no `/chat`
request of the run is answered by its provider; and the history always holds
the latest of what was there and what was appended. -/
theorem records_match_calls_iff (P : Platform) (start : Server)
    (hregistry : start.registry = ProviderRegistry.initializeFrom start.config.providers {})
    (hlength : start.costs.history.length ≤ CostTracker.maxHistory) (incoming : List Incoming) :
    ((appendedRecords (run P start incoming)).map RequestMetrics.entry =
        successfulCalls (run P start incoming) ↔
      ∀ step ∈ run P start incoming, ¬ AnsweredChat P step.before step.incoming) ∧
      (finalState P start incoming).costs.history =
        (start.costs.history ++ appendedRecords (run P start incoming)).rtake
          CostTracker.maxHistory := by
  have hbooked := run_booked P incoming hregistry hlength
  exact ⟨hbooked.matches_iff, hbooked.history⟩

/-- Every provider answers with an empty object. -/
def allUp : World where
  ordered := noDelay
  upstream _ _ _ _ := ⟨.answered 200 [] (.ok (.object [])), 0⟩

/-- A `/chat` request. -/
def promptHttp : HttpRequest where
  body := some (.object [(str "prompt", .string (str "hi"))])

/-- A request that fell back is recorded once, under the name that answered. -/
theorem records_match_calls_iff_failover :
    (appendedRecords (run (cLocale fnv1a) (Server.init (backupConfig .failover))
        [⟨.completions, plainHttp, groqDown⟩])).map RequestMetrics.entry =
      successfulCalls (run (cLocale fnv1a) (Server.init (backupConfig .failover))
        [⟨.completions, plainHttp, groqDown⟩]) := by
  have hlaw := records_match_calls_iff (cLocale fnv1a) (Server.init (backupConfig .failover)) rfl
    (Nat.zero_le _) [⟨.completions, plainHttp, groqDown⟩]
  refine hlaw.1.mpr fun step hstep hchat => ?_
  rw [run_singleton, List.mem_singleton] at hstep
  subst hstep
  cases hchat.1

/-- An answered `/chat` request leaves no record. -/
theorem chat_leaves_no_record :
    ¬ ∀ (P : Platform) (cfg : GatewayConfig) (incoming : List Incoming),
      (appendedRecords (run P (Server.init cfg) incoming)).length =
        (successfulCalls (run P (Server.init cfg) incoming)).length := by
  intro h
  have hlengths := h (cLocale fnv1a) (loneConfig .smart) [⟨.chat, promptHttp, allUp⟩]
  revert hlengths
  decide

end Gateway
