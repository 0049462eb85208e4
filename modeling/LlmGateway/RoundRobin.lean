import LlmGateway.Lib.Rotation
import LlmGateway.RouterRuns
import Mathlib.Tactic.IntervalCases

/-!
# Round robin over a steady list

The turns of a run during which the list of usable entries stays the same.  Turn
`k` serves the counter `k` above the first, which wraps at 32 bits, is converted
to `size_t`, divided by the length of the list and narrowed to an `int` again.
Within a block of counters of one sign the values of `size_t` go up by one, and
`Rotation` gives every position its turn; at the two places where the sign
changes they jump, from `2 ^ 31 - 1` to `2 ^ 64 - 2 ^ 31` and from `2 ^ 64 - 1`
to `0`.
-/

namespace Gateway

/-- What a turn computes: `idx` and the decision. -/
structure Turn where
  index : ℤ
  decision : RouteDecision

namespace Router

/-- `idx` of `route_round_robin`: the remainder, narrowed to an `int`. -/
def turnIndex (counter : BitVec 32) (n : Nat) : ℤ :=
  (BitVec.ofNat 32 (roundRobinIndex counter n)).toInt

/-- The turn a call takes: a route that names no provider, under the round-robin
strategy. -/
def turn (cfg : GatewayConfig) (r : Router) : RouterCall → Option Turn
  | .route walk sort req =>
      if (splitAtColon (resolveModelAlias cfg req.model)).isNone ∧ r.strategy = .roundRobin then
        some ⟨turnIndex r.roundRobinIdx (r.usable cfg).length, (r.route walk sort cfg req).1⟩
      else none
  | _ => none

/-- The turns of a run of calls. -/
def turns (cfg : GatewayConfig) : Router → List RouterCall → List Turn
  | _, [] => []
  | r, call :: calls => (r.turn cfg call).toList ++ turns cfg (call.apply cfg r) calls

/-- The usable entries are the same list in every state of the run. -/
def Steady (cfg : GatewayConfig) (entries : List ProviderConfig) : Router → List RouterCall → Prop
  | r, [] => r.usable cfg = entries
  | r, call :: calls => r.usable cfg = entries ∧ Steady cfg entries (call.apply cfg r) calls

/-- Every index is in the list and stands for the entry that is chosen, and any
`n` turns in a row pick each of the `n` positions once.  The choice is by the
index as long as an `int` can hold it. -/
structure Rotates (entries : List ProviderConfig) (run : List Turn) : Prop where
  within : ∀ t ∈ run, 0 ≤ t.index ∧ t.index < entries.length
  chosen : entries.length ≤ 2 ^ 31 → ∀ t ∈ run, ∃ pc, entries[t.index.toNat]? = some pc ∧
    t.decision.provider = pc.name ∧ t.decision.model = pc.models.headD []
  once : ∀ start, start + entries.length ≤ run.length → ∀ p < entries.length,
    ∃! k, k < entries.length ∧ run[start + k]?.map Turn.index = some (p : ℤ)

/-- The `n` values from the counter on are without a jump, or they pass from
`2 ^ 31 - 1` to `-2 ^ 31` or from `-1` to `0` by a multiple of `n`. -/
def TurnsEvenly (counter : BitVec 32) (n : Nat) : Prop :=
  n ≤ 2 ^ 31 ∧ (2 ^ 31 < counter.toInt + n → n ∣ 2 ^ 64 - 2 ^ 32) ∧
    (counter.toInt < 0 → 0 < counter.toInt + n → n ∣ 2 ^ 64)

/-! ### One counter value -/

/-- The counter as a `size_t`. -/
theorem toSizeT_counter (counter : BitVec 32) :
    (counter.signExtend 64).toNat =
      if counter.toNat < 2 ^ 31 then counter.toNat else counter.toNat + (2 ^ 64 - 2 ^ 32) := by
  have hlt := counter.isLt
  rw [BitVec.toNat_signExtend, BitVec.toNat_setWidth, BitVec.msb_eq_decide,
    Nat.mod_eq_of_lt (by omega)]
  by_cases hsign : counter.toNat < 2 ^ 31
  · rw [if_pos hsign, if_neg (by simpa using hsign), Nat.add_zero]
  · rw [if_neg hsign, if_pos (by simpa using hsign)]

theorem turnIndex_eq {counter : BitVec 32} {n : Nat} :
    turnIndex counter n = (roundRobinIndex counter n : ℤ).bmod (2 ^ 32) :=
  BitVec.toInt_ofNat' _

theorem turnIndex_lt (counter : BitVec 32) (n : Nat) : turnIndex counter n < 2 ^ 31 :=
  BitVec.toInt_lt

/-- A short list fits the `int`. -/
theorem turnIndex_of_le {counter : BitVec 32} {n : Nat} (hn : 0 < n) (hle : n ≤ 2 ^ 31) :
    turnIndex counter n = roundRobinIndex counter n := by
  have hlt := roundRobinIndex_lt counter hn
  rw [turnIndex_eq]
  exact Int.bmod_eq_of_le_mul_two (by omega) (by omega)

/-- The index is in the list when the remainder keeps its sign. -/
theorem turnIndex_within_iff {counter : BitVec 32} {n : Nat} (hn : 0 < n) :
    (0 ≤ turnIndex counter n ∧ turnIndex counter n < n) ↔
      roundRobinIndex counter n % 2 ^ 32 < 2 ^ 31 := by
  have hlt := roundRobinIndex_lt counter hn
  have hle : roundRobinIndex counter n % 2 ^ 32 ≤ roundRobinIndex counter n := Nat.mod_le _ _
  rw [turnIndex_eq, Int.bmod_def]
  push_cast
  constructor
  · intro h
    split_ifs at h <;> omega
  · intro h
    split_ifs <;> omega

/-! ### `n` counter values in a row -/

/-- The counter `k` turns on. -/
theorem toNat_counter_add (counter : BitVec 32) (k : Nat) :
    (counter + BitVec.ofNat 32 k).toNat = (counter.toNat + k) % 2 ^ 32 := by
  rw [BitVec.toNat_add, BitVec.toNat_ofNat, Nat.add_mod_mod]

/-- The `size_t` counters of a short window: one block, or two with a jump. -/
theorem toSizeT_window {counter : BitVec 32} {n k : Nat} (hle : n ≤ 2 ^ 31) (hk : k < n) :
    ((counter + BitVec.ofNat 32 k).signExtend 64).toNat =
      if counter.toNat < 2 ^ 31 then
        Rotation.jumping counter.toNat (2 ^ 64 - 2 ^ 31) (2 ^ 31 - counter.toNat) k
      else
        Rotation.jumping (counter.toNat + (2 ^ 64 - 2 ^ 32)) 0 (2 ^ 32 - counter.toNat) k := by
  have hlt := counter.isLt
  rw [toSizeT_counter, toNat_counter_add]
  unfold Rotation.jumping
  by_cases hsign : counter.toNat < 2 ^ 31
  · rw [if_pos hsign, Nat.mod_eq_of_lt (by omega)]
    split_ifs <;> omega
  · rw [if_neg hsign]
    by_cases hwrap : counter.toNat + k < 2 ^ 32
    · rw [Nat.mod_eq_of_lt hwrap, if_neg (by omega), if_pos (by omega)]
      omega
    · have hmod : (counter.toNat + k) % 2 ^ 32 = counter.toNat + k - 2 ^ 32 := by
        rw [Nat.mod_eq_sub_mod (by omega), Nat.mod_eq_of_lt (by omega)]
      rw [hmod, if_pos (by omega), if_neg (by omega)]
      omega

/-- `n` counters in a row give every position one turn exactly when they jump by
a multiple of `n` or not at all. -/
theorem covers_counters_iff {counter : BitVec 32} {n : Nat} (hle : n ≤ 2 ^ 31) :
    Rotation.Covers n (fun k => roundRobinIndex (counter + BitVec.ofNat 32 k) n) ↔
      TurnsEvenly counter n := by
  have hlt := counter.isLt
  have hint : counter.toInt =
      if counter.toNat < 2 ^ 31 then (counter.toNat : ℤ) else counter.toNat - 2 ^ 32 := by
    rw [BitVec.toInt_eq_toNat_cond]
    split_ifs <;> omega
  unfold TurnsEvenly
  rw [hint]
  by_cases hsign : counter.toNat < 2 ^ 31
  · have hwindow : ∀ k < n, roundRobinIndex (counter + BitVec.ofNat 32 k) n =
        Rotation.jumping counter.toNat (2 ^ 64 - 2 ^ 31) (2 ^ 31 - counter.toNat) k % n := by
      intro k hk
      unfold roundRobinIndex
      rw [toSizeT_window hle hk, if_pos hsign]
    have hjump : counter.toNat + (2 ^ 31 - counter.toNat) ≡ 2 ^ 64 - 2 ^ 31 [MOD n] ↔
        n ∣ 2 ^ 64 - 2 ^ 32 := by
      have hgap : 2 ^ 64 - 2 ^ 31 - 2 ^ 31 = 2 ^ 64 - 2 ^ 32 := by norm_num
      rw [Nat.add_sub_cancel' hsign.le, Nat.modEq_iff_dvd' (by norm_num), hgap]
    rw [Rotation.Covers.congr hwindow, Rotation.covers_jumping_iff_of_pos (by omega), hjump,
      if_pos hsign]
    constructor
    · intro h
      exact ⟨hle, fun hover => h (by omega), fun hneg => by omega⟩
    · intro h hover
      exact h.2.1 (by omega)
  · have hwindow : ∀ k < n, roundRobinIndex (counter + BitVec.ofNat 32 k) n =
        Rotation.jumping (counter.toNat + (2 ^ 64 - 2 ^ 32)) 0 (2 ^ 32 - counter.toNat) k % n := by
      intro k hk
      unfold roundRobinIndex
      rw [toSizeT_window hle hk, if_neg hsign]
    have hjump : counter.toNat + (2 ^ 64 - 2 ^ 32) + (2 ^ 32 - counter.toNat) ≡ 0 [MOD n] ↔
        n ∣ 2 ^ 64 := by
      rw [← Nat.modEq_zero_iff_dvd]
      have hend : counter.toNat + (2 ^ 64 - 2 ^ 32) + (2 ^ 32 - counter.toNat) = 2 ^ 64 := by omega
      rw [hend]
    rw [Rotation.Covers.congr hwindow, Rotation.covers_jumping_iff_of_pos (by omega), hjump,
      if_neg hsign]
    constructor
    · intro h
      exact ⟨hle, fun hover => by omega, fun _ hover => h (by omega)⟩
    · intro h hover
      exact h.2.2 (by omega) (by omega)

/-- The same for the `int` indexes; no `int` stands for a position beyond them. -/
theorem once_iff {counter : BitVec 32} {n : Nat} (hn : 0 < n) :
    (∀ p < n, ∃! k, k < n ∧ turnIndex (counter + BitVec.ofNat 32 k) n = (p : ℤ)) ↔
      TurnsEvenly counter n := by
  by_cases hle : n ≤ 2 ^ 31
  · rw [← covers_counters_iff hle]
    unfold Rotation.Covers
    simp only [turnIndex_of_le hn hle, Nat.cast_inj]
  · constructor
    · intro h
      obtain ⟨k, ⟨-, hindex⟩, -⟩ := h (2 ^ 31) (not_le.mp hle)
      have hlt := turnIndex_lt (counter + BitVec.ofNat 32 k) n
      rw [hindex] at hlt
      exact absurd hlt (by norm_num)
    · intro h
      exact absurd h.1 hle

/-! ### A run -/

/-- The decision for a counter value, from a list that is not empty. -/
def decisionAt (entries : List ProviderConfig) (counter : BitVec 32) : RouteDecision :=
  match entries[roundRobinIndex counter entries.length]? with
  | some pc => ⟨pc.name, pc.models.headD [], .roundRobin, 0, []⟩
  | none => ⟨[], [], .roundRobin, 0, []⟩

/-- The turn for a counter value. -/
def turnAt (entries : List ProviderConfig) (counter : BitVec 32) : Turn :=
  ⟨turnIndex counter entries.length, decisionAt entries counter⟩

theorem routeRoundRobin_eq {cfg : GatewayConfig} {r : Router} (h : r.usable cfg ≠ []) :
    routeRoundRobin cfg r =
      (decisionAt (r.usable cfg) r.roundRobinIdx,
        { r with roundRobinIdx := r.roundRobinIdx + 1 }) := by
  have hlen : 0 < (r.usable cfg).length := List.length_pos_iff.mpr h
  unfold routeRoundRobin decisionAt
  rw [dif_pos hlen, List.getElem?_eq_getElem (roundRobinIndex_lt r.roundRobinIdx hlen)]
  rfl

/-- A route that takes a turn runs `route_round_robin`. -/
theorem route_of_takes {cfg : GatewayConfig} {r : Router} {req : ChatRequest}
    (h : (splitAtColon (resolveModelAlias cfg req.model)).isNone ∧ r.strategy = .roundRobin)
    (walk : Traversal (Σ _ : Str, ProviderHealth)) (sort : Descending Candidate Candidate.score) :
    r.route walk sort cfg req = routeRoundRobin cfg r := by
  unfold route
  rw [Option.isNone_iff_eq_none.mp h.1]
  simp only [h.2]

/-- No other route touches the router. -/
theorem route_of_not_takes {cfg : GatewayConfig} {r : Router} {req : ChatRequest}
    (h : ¬ ((splitAtColon (resolveModelAlias cfg req.model)).isNone ∧ r.strategy = .roundRobin))
    (walk : Traversal (Σ _ : Str, ProviderHealth)) (sort : Descending Candidate Candidate.score) :
    (r.route walk sort cfg req).2 = r := by
  unfold route
  cases hnamed : splitAtColon (resolveModelAlias cfg req.model) with
  | some named => rfl
  | none =>
      rw [hnamed] at h
      cases hstrategy : r.strategy with
      | roundRobin => exact absurd ⟨rfl, hstrategy⟩ h
      | costOptimized => rfl
      | latencyOptimized => rfl
      | failover => rfl
      | smart => rfl

/-- A call takes the next turn, or leaves the counter as it is. -/
theorem turn_cases {cfg : GatewayConfig} {r : Router} (h : r.usable cfg ≠ []) (call : RouterCall) :
    (r.turn cfg call = some (turnAt (r.usable cfg) r.roundRobinIdx) ∧
        (call.apply cfg r).roundRobinIdx = r.roundRobinIdx + 1) ∨
      r.turn cfg call = none ∧ (call.apply cfg r).roundRobinIdx = r.roundRobinIdx := by
  cases call with
  | report news =>
      refine .inr ⟨rfl, ?_⟩
      cases news <;> rfl
  | setStrategy strategy => exact .inr ⟨rfl, rfl⟩
  | route walk sort req =>
      by_cases htakes : (splitAtColon (resolveModelAlias cfg req.model)).isNone ∧
          r.strategy = .roundRobin
      · refine .inl ⟨?_, ?_⟩
        · rw [turn, if_pos htakes, route_of_takes htakes, routeRoundRobin_eq h]
          rfl
        · rw [RouterCall.apply, route_of_takes htakes, routeRoundRobin_eq h]
      · refine .inr ⟨if_neg htakes, ?_⟩
        rw [RouterCall.apply, route_of_not_takes htakes]

/-- The turns of a steady run serve the counter values in order. -/
theorem turns_eq {cfg : GatewayConfig} {entries : List ProviderConfig} (hne : entries ≠ [])
    {r : Router} {calls : List RouterCall} (hsteady : Steady cfg entries r calls) :
    ∃ m, turns cfg r calls =
      (List.range m).map fun k => turnAt entries (r.roundRobinIdx + BitVec.ofNat 32 k) := by
  induction calls generalizing r with
  | nil => exact ⟨0, rfl⟩
  | cons call calls ih =>
      obtain ⟨hlist, hrest⟩ := hsteady
      obtain ⟨m, hlater⟩ := ih hrest
      have husable : r.usable cfg ≠ [] := by
        rw [hlist]
        exact hne
      rcases turn_cases husable call with ⟨hturn, hcounter⟩ | ⟨hturn, hcounter⟩
      · refine ⟨m + 1, ?_⟩
        have hshift : ∀ k, r.roundRobinIdx + 1 + BitVec.ofNat 32 k =
            r.roundRobinIdx + BitVec.ofNat 32 (k + 1) := by
          intro k
          rw [Nat.add_comm k 1, BitVec.ofNat_add, BitVec.add_assoc]
          rfl
        rw [turns, hturn, hlater, hcounter, hlist, List.range_succ_eq_map, List.map_cons,
          List.map_map]
        simp only [Option.toList_some, List.singleton_append, hshift, BitVec.add_zero]
        rfl
      · refine ⟨m, ?_⟩
        rw [turns, hturn, hlater, hcounter]
        rfl

/-- The entry at the index is the chosen one, as long as the index is the
remainder. -/
theorem decisionAt_index {entries : List ProviderConfig} (hne : entries ≠ [])
    (hle : entries.length ≤ 2 ^ 31) (counter : BitVec 32) :
    ∃ pc, entries[(turnAt entries counter).index.toNat]? = some pc ∧
      (turnAt entries counter).decision.provider = pc.name ∧
      (turnAt entries counter).decision.model = pc.models.headD [] := by
  have hpos : 0 < entries.length := List.length_pos_iff.mpr hne
  have hlt := roundRobinIndex_lt counter hpos
  have hindex : (turnAt entries counter).index.toNat = roundRobinIndex counter entries.length := by
    unfold turnAt
    rw [turnIndex_of_le hpos hle, Int.toNat_natCast]
  refine ⟨entries[roundRobinIndex counter entries.length], ?_, ?_, ?_⟩
  · rw [hindex, List.getElem?_eq_getElem hlt]
  · unfold turnAt decisionAt
    rw [List.getElem?_eq_getElem hlt]
  · unfold turnAt decisionAt
    rw [List.getElem?_eq_getElem hlt]

/-- `n` turns in a row pick each position once when their counters do. -/
theorem once_window_iff {entries : List ProviderConfig} (hpos : 0 < entries.length)
    {run : List Turn} {counter : BitVec 32} {m start : Nat}
    (hrun : run = (List.range m).map fun k => turnAt entries (counter + BitVec.ofNat 32 k))
    (hstart : start + entries.length ≤ m) :
    (∀ p < entries.length, ∃! k, k < entries.length ∧
        run[start + k]?.map Turn.index = some (p : ℤ)) ↔
      TurnsEvenly (counter + BitVec.ofNat 32 start) entries.length := by
  have hindex : ∀ k < entries.length, run[start + k]?.map Turn.index =
      some (turnIndex (counter + BitVec.ofNat 32 start + BitVec.ofNat 32 k) entries.length) := by
    intro k hk
    rw [hrun, List.getElem?_map, List.getElem?_range (by omega), BitVec.add_assoc,
      ← BitVec.ofNat_add]
    rfl
  have hturn : ∀ p k, (k < entries.length ∧ run[start + k]?.map Turn.index = some p) ↔
      (k < entries.length ∧
        turnIndex (counter + BitVec.ofNat 32 start + BitVec.ofNat 32 k) entries.length = p) := by
    intro p k
    refine and_congr_right fun hk => ?_
    rw [hindex k hk, Option.some.injEq]
  rw [← once_iff hpos]
  simp only [hturn]

/-- **The rotation law.**  In every run over a steady list of `n` entries, with
every counter at its start: each index is in the list and any `n` turns in a row
pick each position once, exactly when no remainder loses its value as an `int`
and each `n` turns in a row pass the jumps of the counter by multiples of `n`
only. -/
theorem rotates_iff (cfg : GatewayConfig) (entries : List ProviderConfig) (hne : entries ≠ [])
    (r : Router) (calls : List RouterCall) (hsteady : Steady cfg entries r calls) :
    Rotates entries (turns cfg r calls) ↔
      (∀ k < (turns cfg r calls).length,
        roundRobinIndex (r.roundRobinIdx + BitVec.ofNat 32 k) entries.length % 2 ^ 32 < 2 ^ 31) ∧
      ∀ start, start + entries.length ≤ (turns cfg r calls).length →
        TurnsEvenly (r.roundRobinIdx + BitVec.ofNat 32 start) entries.length := by
  obtain ⟨m, hturns⟩ := turns_eq hne hsteady
  have hpos : 0 < entries.length := List.length_pos_iff.mpr hne
  have hlength : (turns cfg r calls).length = m := by
    rw [hturns, List.length_map, List.length_range]
  have hwithin : (∀ t ∈ turns cfg r calls, 0 ≤ t.index ∧ t.index < entries.length) ↔
      ∀ k < m, roundRobinIndex (r.roundRobinIdx + BitVec.ofNat 32 k) entries.length % 2 ^ 32 <
        2 ^ 31 := by
    rw [hturns]
    simp only [List.forall_mem_map, List.mem_range, turnAt, turnIndex_within_iff hpos]
  rw [hlength]
  constructor
  · intro h
    refine ⟨hwithin.mp h.within, fun start hstart => ?_⟩
    exact (once_window_iff hpos hturns hstart).mp (h.once start (hlength ▸ hstart))
  · intro h
    refine ⟨hwithin.mpr h.1, fun hle t ht => ?_, fun start hstart => ?_⟩
    · rw [hturns] at ht
      obtain ⟨k, -, rfl⟩ := List.mem_map.mp ht
      exact decisionAt_index hne hle _
    · rw [hlength] at hstart
      exact (once_window_iff hpos hturns hstart).mpr (h.2 start hstart)

/-- Three entries under the round-robin strategy. -/
def trioConfig : GatewayConfig where
  defaultStrategy := .roundRobin
  providers :=
    [{ name := str "groq", models := [str "gemma2-9b-it"] },
     { name := str "together", models := [str "Qwen/Qwen2.5-72B-Instruct"] },
     { name := str "ollama", models := [str "llama3.2"] }]

/-- The router after `2 ^ 32 - 1` turns. -/
def beforeZero : Router := { init trioConfig with roundRobinIdx := -1 }

/-- Three requests without a provider. -/
def threeRoutes : List RouterCall :=
  List.replicate 3 (.route default default { model := str "auto" })

theorem steady_threeRoutes : Steady trioConfig trioConfig.providers beforeZero threeRoutes :=
  ⟨rfl, rfl, rfl, rfl⟩

/-- The exact condition at the step from `-1` to `0`. -/
theorem rotates_iff_before_zero :
    Rotates trioConfig.providers (turns trioConfig beforeZero threeRoutes) ↔
      (∀ k < (turns trioConfig beforeZero threeRoutes).length,
        roundRobinIndex (beforeZero.roundRobinIdx + BitVec.ofNat 32 k)
          trioConfig.providers.length % 2 ^ 32 < 2 ^ 31) ∧
      ∀ start, start + trioConfig.providers.length ≤
          (turns trioConfig beforeZero threeRoutes).length →
        TurnsEvenly (beforeZero.roundRobinIdx + BitVec.ofNat 32 start)
          trioConfig.providers.length :=
  rotates_iff trioConfig trioConfig.providers (by decide) beforeZero threeRoutes
    steady_threeRoutes

/-- The three turns have the indexes 0, 0 and 1: the third entry is left out. -/
theorem zero_repeats_a_position :
    ¬ ∀ (cfg : GatewayConfig) (entries : List ProviderConfig) (r : Router)
        (calls : List RouterCall), entries ≠ [] → Steady cfg entries r calls →
      Rotates entries (turns cfg r calls) := by
  intro h
  have hrun := h trioConfig trioConfig.providers beforeZero threeRoutes (by decide)
    steady_threeRoutes
  have hindexes : (turns trioConfig beforeZero threeRoutes).map Turn.index = [0, 0, 1] := by
    decide
  have hlength : (turns trioConfig beforeZero threeRoutes).length = 3 := by
    rw [← List.length_map (f := Turn.index), hindexes]
    rfl
  obtain ⟨k, ⟨hk, hthird⟩, -⟩ := hrun.once 0 (by rw [hlength]; decide) 2 (by decide)
  have hk : k < 3 := hk
  rw [← List.getElem?_map, hindexes, Nat.zero_add] at hthird
  interval_cases k <;> simp at hthird

end Router

end Gateway
