import LlmGateway.CostTracker
import LlmGateway.Criteria
import LlmGateway.TokenCounter

/-!
# What the cost strategy minimises

`estimate_cost` prices a request at a pair with both of its token counts; the loop
of `route_cost_optimized` compares the sum of the two rates and returns the least
sum as the estimated cost.  `least_estimate_iff` says when the two agree, in the
arithmetic of whatever machine: at the pair of the least sum the tokens have to
cost that sum, and at no pair less.
-/

namespace Gateway

namespace Router

/-- The open pairs with a price. -/
def OpenPriced (cfg : GatewayConfig) (r : Router) (pair : ProviderConfig × Str)
    (price : ModelPricing) : Prop :=
  pair ∈ openPairs cfg r ∧ priceOf cfg pair = some price

variable {cfg : GatewayConfig} {r : Router} {provider model : Str} {rate : Double}

/-- A pair with a price comes from an enabled entry with models. -/
theorem OpenPriced.firstEntry {pair : ProviderConfig × Str} {price : ModelPricing}
    (h : OpenPriced cfg r pair price) : ∃ pc, firstEntry cfg = some pc := by
  obtain ⟨hmem, hmodel, hopen⟩ := mem_openPairs.mp h.1
  exact exists_firstEntry hmem hopen.1 (List.ne_nil_of_mem hmodel)

end Router

end Gateway
