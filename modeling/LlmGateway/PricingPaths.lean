import LlmGateway.Identity

/-!
# Three ways to a price

The price of a call is written out in `estimate_cost`, again in its default
branch, and again in `record`, and `get_pricing` gives the rates to compute it
from.  Priced pairs cost the same on every path.  The default branch adds the two
token counts as an `int` before it converts them, so an unpriced pair costs what
its rates say only as far as that sum does not overflow.
-/

namespace Gateway

namespace CostTracker

variable {t : CostTracker} {provider model : Str} {input output : ℤ}

/-- The metrics of such a call, with its estimate for the cost. -/
structure Estimated (t : CostTracker) (provider model : Str) (input output : ℤ)
    (m : RequestMetrics) : Prop where
  costUsd : m.costUsd = t.estimateCost provider model input output
  provider : m.provider = provider
  model : m.model = model
  promptTokens : m.promptTokens = input
  completionTokens : m.completionTokens = output

/-- The paths agree: the estimate is that of the rates of `get_pricing`, and
`record` stores it and adds it to the spend of the key. -/
structure PathsAgree (t : CostTracker) (provider model : Str) (input output : ℤ) : Prop where
  estimate : t.estimateCost provider model input output =
    input / 1000 * (t.getPricing provider model).inputCostPer1k +
      output / 1000 * (t.getPricing provider model).outputCostPer1k
  stored : ∀ m, Estimated t provider model input output m →
    (t.record m).history = pushHistory m t.history
  spent : ∀ m key, Estimated t provider model input output m → key ≠ [] →
    (t.record m).getSpend key = t.getSpend key +
      if m.apiKey = key then t.estimateCost provider model input output else 0

/-- Recording an estimate does not change it. -/
theorem Estimated.priced {m : RequestMetrics} (h : Estimated t provider model input output m) :
    t.priced m = m := by
  obtain ⟨hcost, rfl, rfl, rfl, rfl⟩ := h
  unfold CostTracker.priced
  cases hlookup : t.pricing.lookup (pricingKey m.provider m.model) with
  | none => rfl
  | some price =>
      rw [estimateCost, hlookup] at hcost
      exact congrArg (fun cost => { m with costUsd := cost }) hcost.symm

/-- `record` and the estimate agree for every pair and all counts. -/
theorem Estimated.record {m : RequestMetrics} (h : Estimated t provider model input output m) :
    (t.record m).history = pushHistory m t.history ∧
      ∀ key, key ≠ [] → (t.record m).getSpend key = t.getSpend key +
        if m.apiKey = key then t.estimateCost provider model input output else 0 := by
  refine ⟨?_, fun key hne => ?_⟩
  · rw [CostTracker.record, h.priced]
  · rw [getSpend_record_eq hne, h.priced, h.costUsd]

theorem estimate_of_priced {price : ModelPricing}
    (hprice : t.pricing.lookup (pricingKey provider model) = some price) :
    t.estimateCost provider model input output =
      input / 1000 * (t.getPricing provider model).inputCostPer1k +
        output / 1000 * (t.getPricing provider model).outputCostPer1k := by
  simp only [estimateCost, getPricing, hprice, priceAt, fl_exactly]

/-- The default branch loses what its sum of the counts does. -/
theorem estimate_of_unpriced_iff
    (hnone : t.pricing.lookup (pricingKey provider model) = none) :
    t.estimateCost provider model input output =
        input / 1000 * (t.getPricing provider model).inputCostPer1k +
          output / 1000 * (t.getPricing provider model).outputCostPer1k ↔
      FitsInt (input + output) := by
  have hsplit : (input / 1000 * 0.002 + output / 1000 * 0.002 : Double) =
      ((input + output : ℤ) : Double) * 0.002 / 1000 := by
    push_cast
    ring
  simp only [estimateCost, getPricing, hnone, fl_exactly]
  rw [hsplit]
  constructor
  · intro h
    have hsum : wrap32 (input + output) = input + output := by
      have hscaled : ((wrap32 (input + output) : ℤ) : Double) = ((input + output : ℤ) : Double) := by
        linarith
      exact Int.cast_injective hscaled
    rw [← hsum]
    exact fitsInt_wrap32 _
  · intro h
    rw [wrap32_of_fits h]

/-- **The pricing paths.**  For every table, pair and counts, the three paths
agree exactly when the table prices the pair or an `int` holds the sum of the
counts. -/
theorem pathsAgree_iff (t : CostTracker) (provider model : Str) (input output : ℤ) :
    PathsAgree t provider model input output ↔
      (t.pricing.lookup (pricingKey provider model)).isSome = true ∨ FitsInt (input + output) := by
  have hrest : PathsAgree t provider model input output ↔ _ :=
    ⟨PathsAgree.estimate, fun h =>
      ⟨h, fun m hm => hm.record.1, fun m key hm hne => hm.record.2 key hne⟩⟩
  rw [hrest]
  cases hlookup : t.pricing.lookup (pricingKey provider model) with
  | some price => exact iff_of_true (estimate_of_priced hlookup) (.inl rfl)
  | none =>
      rw [estimate_of_unpriced_iff hlookup]
      simp

/-- A model that is not in the built-in table, and the largest prompt there is. -/
theorem unpriced_overflows :
    ¬ ∀ (cfg : GatewayConfig) (priced : List (Str × ModelPricing)) (provider model : Str)
        (input output : ℤ), 0 ≤ input → FitsInt input → 0 ≤ output → FitsInt output →
      PathsAgree (priced.foldl (fun t p => t.setPricing p.1 p.2) (init cfg)) provider model
        input output := by
  intro h
  have hagree := h initialConfig [] (str "unknown") (str "unknown-model") 2147483647 1
    (by decide) (by decide) (by decide) (by decide)
  have hnone : (init initialConfig).pricing.lookup
      (pricingKey (str "unknown") (str "unknown-model")) = none := by decide
  have hfits := (estimate_of_unpriced_iff hnone).mp hagree.estimate
  revert hfits
  decide

end CostTracker

end Gateway
