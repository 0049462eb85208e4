import LlmGateway.HealthReports
import LlmGateway.Routing

/-!
# The router as a run of calls

The gateway calls the router in three ways: it asks for a route, it reports on a
provider, and the administrator sets the strategy.  A state is reachable when a
run of such calls leads to it from the constructor's.  A reachable health map is
therefore the one of a run of reports, whatever was routed in between.
-/

namespace Gateway

/-- A call on the router. -/
inductive RouterCall where
  | route (walk : Traversal (Σ _ : Str, ProviderHealth))
      (sort : Descending Candidate Candidate.score) (req : ChatRequest)
  | report (news : Report)
  | setStrategy (strategy : RoutingStrategy)

namespace RouterCall

/-- The router after the call. -/
def apply (cfg : GatewayConfig) : RouterCall → Router → Router
  | route walk sort req, r => (r.route walk sort cfg req).2
  | report news, r => news.apply r
  | setStrategy strategy, r => { r with strategy := strategy }

/-- The reports among the calls. -/
def reported : RouterCall → Option Report
  | report news => some news
  | _ => none

theorem apply_health (cfg : GatewayConfig) (call : RouterCall) (r : Router) :
    (call.apply cfg r).health = (r.afterReports call.reported.toList).health := by
  cases call with
  | route walk sort req => exact (Router.route_router walk sort req).1
  | report news => rfl
  | setStrategy strategy => rfl

end RouterCall

namespace Router

/-- The router after a run of calls, the oldest first. -/
def afterCalls (cfg : GatewayConfig) (r : Router) (calls : List RouterCall) : Router :=
  calls.foldl (fun r call => call.apply cfg r) r

@[simp] theorem afterCalls_nil (cfg : GatewayConfig) (r : Router) : r.afterCalls cfg [] = r := rfl

@[simp] theorem afterCalls_cons (cfg : GatewayConfig) (r : Router) (call : RouterCall)
    (calls : List RouterCall) :
    r.afterCalls cfg (call :: calls) = (call.apply cfg r).afterCalls cfg calls := rfl

/-- The states that calls lead to. -/
def Reachable (cfg : GatewayConfig) (r : Router) : Prop :=
  ∃ calls, (init cfg).afterCalls cfg calls = r

/-- The health map after a run of calls is the one after its reports. -/
theorem afterCalls_health (cfg : GatewayConfig) (r : Router) (calls : List RouterCall) :
    (r.afterCalls cfg calls).health =
      (r.afterReports (calls.filterMap RouterCall.reported)).health := by
  induction calls generalizing r with
  | nil => rfl
  | cons call calls ih =>
      have hstep := call.apply_health cfg r
      have hrest := afterReports_congr hstep (calls.filterMap RouterCall.reported)
      rw [afterCalls_cons, ih, hrest, ← afterReports_append]
      cases call <;> rfl

/-- A reachable health map is that of a run of reports. -/
theorem Reachable.health {cfg : GatewayConfig} {r : Router} (h : Reachable cfg r) :
    ∃ reports, r.health = ((init cfg).afterReports reports).health := by
  obtain ⟨calls, rfl⟩ := h
  exact ⟨_, afterCalls_health cfg _ calls⟩

end Router

end Gateway
