import LlmGateway.Config
import LlmGateway.Lib.Tally

/-!
# The cost tracker

`src/cost_tracker.cpp`: the pricing table copied from the configuration, the
ring buffer of recorded requests and the spend of each key.
-/

namespace Gateway

/-- The state of `CostTracker`. -/
structure CostTracker where
  history : List RequestMetrics := []
  spendByKey : UnorderedMap Str Double := ∅
  pricing : UnorderedMap Str ModelPricing := ∅

/-- `CostTracker::SpendSummary`.  The loop that fills it runs over the history,
which is too short for its two counters to wrap. -/
structure SpendSummary where
  totalUsd : Double := 0
  cacheSavingsUsd : Double := 0
  totalRequests : ℤ := 0
  cachedRequests : ℤ := 0
  byProvider : UnorderedMap Str Double := ∅
  byModel : UnorderedMap Str Double := ∅

/-- The body of the loop of `get_summary`. -/
def SpendSummary.count (s : SpendSummary) (m : RequestMetrics) : SpendSummary where
  totalUsd := s.totalUsd + m.costUsd
  cacheSavingsUsd := if m.cacheHit then s.cacheSavingsUsd + m.costUsd else s.cacheSavingsUsd
  totalRequests := s.totalRequests + 1
  cachedRequests := if m.cacheHit then s.cachedRequests + 1 else s.cachedRequests
  byProvider := Tally.add m.provider m.costUsd s.byProvider
  byModel := Tally.add m.model m.costUsd s.byModel

namespace CostTracker

/-- `MAX_HISTORY`. -/
def maxHistory : Nat := 100000

/-- The state `CostTracker`'s constructor leaves behind. -/
def init (cfg : GatewayConfig) : CostTracker := { pricing := cfg.pricing }

/-- The price of so many tokens at the rates of a table entry. -/
def priceAt [Rounding] (price : ModelPricing) (inputTokens outputTokens : ℤ) : Double :=
  fl (fl (fl (inputTokens / 1000) * price.inputCostPer1k) +
    fl (fl (outputTokens / 1000) * price.outputCostPer1k))

/-- `CostTracker::estimate_cost`. -/
def estimateCost [Rounding] (provider model : Str) (inputTokens estimatedOutputTokens : ℤ)
    (t : CostTracker) : Double :=
  match t.pricing.lookup (pricingKey provider model) with
  | none => fl (fl (wrap32 (inputTokens + estimatedOutputTokens) * fl 0.002) / 1000)
  | some price => priceAt price inputTokens estimatedOutputTokens

/-- The metrics as `record` stores them: the cost of a priced model is computed
again. -/
def priced [Rounding] (m : RequestMetrics) (t : CostTracker) : RequestMetrics :=
  match t.pricing.lookup (pricingKey m.provider m.model) with
  | none => m
  | some price => { m with costUsd := priceAt price m.promptTokens m.completionTokens }

/-- `history_.push_back`, with the oldest entry dropped from a full buffer. -/
def pushHistory (m : RequestMetrics) (history : List RequestMetrics) : List RequestMetrics :=
  (if history.length ≥ maxHistory then history.tail else history) ++ [m]

/-- `CostTracker::get_spend`. -/
def getSpend (apiKey : Str) (t : CostTracker) : Double := (t.spendByKey.lookup apiKey).getD 0

/-- `CostTracker::record`. -/
def record [Rounding] (metrics : RequestMetrics) (t : CostTracker) : CostTracker :=
  let m := t.priced metrics
  { t with
    spendByKey :=
      if m.apiKey.isEmpty then t.spendByKey
      else t.spendByKey.insert m.apiKey (t.getSpend m.apiKey + m.costUsd)
    history := pushHistory m t.history }

/-- `CostTracker::set_pricing`. -/
def setPricing (model : Str) (pricing : ModelPricing) (t : CostTracker) : CostTracker :=
  { t with pricing := t.pricing.insert (pricingKey pricing.provider model) pricing }

/-- `CostTracker::get_pricing`. -/
def getPricing (provider model : Str) (t : CostTracker) : ModelPricing :=
  match t.pricing.lookup (pricingKey provider model) with
  | some pricing => pricing
  | none => ⟨provider, model, 0.002, 0.002⟩

/-- `CostTracker::get_summary`; the empty key does not filter. -/
def getSummary (apiKey : Str) (t : CostTracker) : SpendSummary :=
  t.history.foldl
    (fun s m => if !apiKey.isEmpty && m.apiKey ≠ apiKey then s else s.count m) {}

end CostTracker

end Gateway
