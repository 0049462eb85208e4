import LlmGateway.RequestParsing
import LlmGateway.Lib.OrderedMap
import LlmGateway.Lib.Writes

/-!
# Loading the configuration

`Config::load_from_file` writes a file into the live configuration, field by
field, in one `try` block: a `Write` each, run in the order of the source.  When
one of them throws, what the earlier ones wrote stays.  Each statement works on a
part of the configuration, and the parts are apart (`load_lawful`, `load_apart`).

The environment overrides come after the `try` block, and a number in it that
`std::stoi` does not read ends the program.
-/

namespace Gateway

/-- The environment, as `std::getenv` shows it. -/
abbrev Env := Str → Option Str

/-- What there is at the path of the configuration file. -/
inductive ConfigFile where
  | missing
  | text (parsed : Except Str Json)

/-- The exceptions of `std::stoi`. -/
inductive StoiError where
  | invalidArgument
  | outOfRange
  deriving DecidableEq, Repr

def isDigit (b : UInt8) : Bool := byte '0' ≤ b && b ≤ byte '9'

/-- `std::stoi`: white space, a sign and digits; what follows them is ignored. -/
def stoi (P : Platform) (s : Str) : Except StoiError ℤ :=
  let rest := s.dropWhile P.isspace
  let negative := rest.head? = some (byte '-')
  let unsigned := if negative ∨ rest.head? = some (byte '+') then rest.tail else rest
  let digits := unsigned.takeWhile isDigit
  if digits.isEmpty then .error .invalidArgument
  else
    let magnitude : ℤ := digits.foldl (fun n d => 10 * n + (d.toNat - 48 : ℤ)) 0
    let n := if negative then -magnitude else magnitude
    if -2 ^ 31 ≤ n ∧ n < 2 ^ 31 then .ok n else .error .outOfRange

namespace Config

/-- `config_.part = read(config_.part)`. -/
def assign {α : Type} (get : GatewayConfig → α) (set : α → GatewayConfig → GatewayConfig)
    (read : α → Except Exn α) : Write GatewayConfig Exn where
  Part := α
  get := get
  set := set
  effect current :=
    match read current with
    | .ok v => (some v, none)
    | .error e => (none, some e)

/-- The `server` section. -/
def loadServer (s : Json) : List (Write GatewayConfig Exn) :=
  [assign (·.server.host) (fun v c => { c with server.host := v })
    (s.value Json.getString (str "host")),
   assign (·.server.port) (fun v c => { c with server.port := v })
    (s.value Json.getInt (str "port")),
   assign (·.server.threads) (fun v c => { c with server.threads := v })
    (s.value Json.getInt (str "threads")),
   assign (·.server.logLevel) (fun v c => { c with server.logLevel := v })
    (s.value Json.getString (str "log_level")),
   assign (·.server.adminKey) (fun v c => { c with server.adminKey := v })
    (s.value Json.getString (str "admin_key")),
   assign (·.server.enableCors) (fun v c => { c with server.enableCors := v })
    (s.value Json.getBool (str "enable_cors"))]

/-- The `cache` section. -/
def loadCache (s : Json) : List (Write GatewayConfig Exn) :=
  [assign (·.cache.enabled) (fun v c => { c with cache.enabled := v })
    (s.value Json.getBool (str "enabled")),
   assign (·.cache.ttlSeconds) (fun v c => { c with cache.ttlSeconds := v })
    (s.value Json.getInt (str "ttl_seconds")),
   assign (·.cache.maxEntries) (fun v c => { c with cache.maxEntries := v })
    (s.value Json.getInt (str "max_entries")),
   assign (·.cache.matchParams) (fun v c => { c with cache.matchParams := v })
    (s.value Json.getBool (str "match_params"))]

/-- The `rate_limit` section. -/
def loadRateLimit (s : Json) : List (Write GatewayConfig Exn) :=
  [assign (·.rateLimit.defaultRpm) (fun v c => { c with rateLimit.defaultRpm := v })
    (s.value Json.getInt (str "default_rpm")),
   assign (·.rateLimit.defaultTpm) (fun v c => { c with rateLimit.defaultTpm := v })
    (s.value Json.getInt (str "default_tpm"))]

/-- The strategy a name stands for. -/
def strategyOf (s : Str) : RoutingStrategy :=
  if s = str "cost" then .costOptimized
  else if s = str "latency" then .latencyOptimized
  else if s = str "round_robin" then .roundRobin
  else if s = str "failover" then .failover
  else .smart

/-- The `routing_strategy`. -/
def loadStrategy (s : Json) : List (Write GatewayConfig Exn) :=
  [assign (·.defaultStrategy) (fun v c => { c with defaultStrategy := v })
    fun _ => s.getString.map strategyOf]

/-- The `models` of an element of `providers`. -/
def readModels (p : Json) : Except Exn (List Str) :=
  match p.find? (str "models") with
  | some (.array ms) => ms.mapM Json.getString
  | _ => .ok []

/-- One element of `providers`. -/
def readProvider (p : Json) : Except Exn ProviderConfig := do
  let name ← p.value Json.getString (str "name") []
  let apiKey ← p.value Json.getString (str "api_key") []
  let baseUrl ← p.value Json.getString (str "base_url") []
  let timeoutMs ← p.value Json.getInt (str "timeout_ms") 30000
  let maxRetries ← p.value Json.getInt (str "max_retries") 2
  let weight ← p.value Json.getInt (str "weight") 1
  let enabled ← p.value Json.getBool (str "enabled") true
  let models ← readModels p
  .ok { name, apiKey, baseUrl, timeoutMs, maxRetries, weight, enabled, models }

/-- The loop over `providers`: the elements are pushed one by one, until one
cannot be read. -/
def pushProviders : List Json → List ProviderConfig → List ProviderConfig × Option Exn
  | [], pushed => (pushed, none)
  | p :: rest, pushed =>
      match readProvider p with
      | .ok pc => pushProviders rest (pushed ++ [pc])
      | .error e => (pushed, some e)

/-- The `providers` are cleared first. -/
def replaceProviders (ps : List Json) : Write GatewayConfig Exn where
  Part := List ProviderConfig
  get := (·.providers)
  set v c := { c with providers := v }
  effect _ := ((pushProviders ps []).1, (pushProviders ps []).2)

/-- The `providers`, if they are an array. -/
def loadProviders (j : Json) : List (Write GatewayConfig Exn) :=
  match j.find? (str "providers") with
  | some (.array ps) => [replaceProviders ps]
  | _ => []

/-- `config_.model_aliases[alias] = target.get<std::string>()`. -/
def loadAlias (entry : Str × Json) : Write GatewayConfig Exn where
  Part := Option Str
  get c := c.modelAliases.lookup entry.1
  set
    | some target, c => { c with modelAliases := c.modelAliases.insert entry.1 target }
    | none, c => { c with modelAliases := c.modelAliases.erase entry.1 }
  effect _ :=
    match entry.2.getString with
    | .ok target => (some (some target), none)
    | .error e => (none, some e)

/-- The loop over the `items()` of an object, in the order of their names. -/
def loadEachAlias (members : List (Str × Json)) : List (Write GatewayConfig Exn) :=
  (OrderedMap.ofList members).map loadAlias

/-- The `model_aliases`, if they are an object. -/
def loadAliases (j : Json) : List (Write GatewayConfig Exn) :=
  match j.find? (str "model_aliases") with
  | some (.object members) => loadEachAlias members
  | _ => []

/-- `if (j.contains(key)) { auto& s = j[key]; ... }`. -/
def ifPresent (j : Json) (key : Str) (load : Json → List (Write GatewayConfig Exn)) :
    List (Write GatewayConfig Exn) :=
  (j.find? key).elim [] load

/-- The statements in front of `providers`. -/
def loadHead (j : Json) : List (Write GatewayConfig Exn) :=
  ifPresent j (str "server") loadServer ++ ifPresent j (str "cache") loadCache ++
    ifPresent j (str "rate_limit") loadRateLimit ++ ifPresent j (str "routing_strategy") loadStrategy

/-- The statements of the `try` block after the file is parsed. -/
def load (j : Json) : List (Write GatewayConfig Exn) :=
  loadHead j ++ (loadProviders j ++ loadAliases j)

/-- A provider whose name is given gets the API key of an environment variable. -/
def overrideKey (env : Env) (envName name : String) (ps : List ProviderConfig) :
    List ProviderConfig :=
  match env (str envName) with
  | none => ps
  | some v => ps.map fun p => if p.name = str name then { p with apiKey := v } else p

/-- The provider API keys from the environment, which have the highest priority. -/
def overrideKeys (env : Env) (ps : List ProviderConfig) : List ProviderConfig :=
  let ps := overrideKey env "OPENAI_API_KEY" "openai" ps
  let ps := overrideKey env "ANTHROPIC_API_KEY" "anthropic" ps
  let ps := overrideKey env "TOGETHER_API_KEY" "together" ps
  overrideKey env "GROQ_API_KEY" "groq" ps

/-- `Config::apply_env_overrides`. -/
def applyEnvOverrides (P : Platform) (env : Env) (c : GatewayConfig) :
    Except StoiError GatewayConfig := do
  let port ← (env (str "LLM_GATEWAY_PORT")).elim (.ok c.server.port) (stoi P)
  let threads ← (env (str "LLM_GATEWAY_THREADS")).elim (.ok c.server.threads) (stoi P)
  .ok { c with
    server.port := port
    server.host := (env (str "LLM_GATEWAY_HOST")).getD c.server.host
    server.threads := threads
    server.logLevel := (env (str "LLM_GATEWAY_LOG_LEVEL")).getD c.server.logLevel
    server.adminKey := (env (str "LLM_GATEWAY_ADMIN_KEY")).getD c.server.adminKey
    providers := overrideKeys env c.providers }

/-- `Config::load_from_file`: what it returns, and the configuration after it. -/
def loadFromFile (P : Platform) (env : Env) (file : ConfigFile) (c : GatewayConfig) :
    Except StoiError (Bool × GatewayConfig) :=
  match file with
  | .missing => (applyEnvOverrides P env c).map fun c => (false, c)
  | .text (.error _) => .ok (false, c)
  | .text (.ok j) =>
      match Write.runAll (load j) c with
      | (c, some _) => .ok (false, c)
      | (c, none) => (applyEnvOverrides P env c).map fun c => (true, c)

/-- `Config::load_from_env`. -/
def loadFromEnv (P : Platform) (env : Env) (c : GatewayConfig) :
    Except StoiError (Bool × GatewayConfig) :=
  (applyEnvOverrides P env c).map fun c => (true, c)

end Config

/-! ## The parts of the configuration -/

/-- The configurations hold the same values. -/
structure GatewayConfig.Same (c c' : GatewayConfig) : Prop where
  server : c.server = c'.server
  cache : c.cache = c'.cache
  rateLimit : c.rateLimit = c'.rateLimit
  defaultStrategy : c.defaultStrategy = c'.defaultStrategy
  providers : c.providers = c'.providers
  pricing : ∀ key, c.pricing.lookup key = c'.pricing.lookup key
  modelAliases : ∀ key, c.modelAliases.lookup key = c'.modelAliases.lookup key

instance : Setoid GatewayConfig where
  r := GatewayConfig.Same
  iseqv :=
    { refl := fun _ => ⟨rfl, rfl, rfl, rfl, rfl, fun _ => rfl, fun _ => rfl⟩
      symm := fun h => ⟨h.server.symm, h.cache.symm, h.rateLimit.symm, h.defaultStrategy.symm,
        h.providers.symm, fun k => (h.pricing k).symm, fun k => (h.modelAliases k).symm⟩
      trans := fun h h' => ⟨h.server.trans h'.server, h.cache.trans h'.cache,
        h.rateLimit.trans h'.rateLimit, h.defaultStrategy.trans h'.defaultStrategy,
        h.providers.trans h'.providers, fun k => (h.pricing k).trans (h'.pricing k),
        fun k => (h.modelAliases k).trans (h'.modelAliases k)⟩ }

namespace Config

open Write

/-- The sections as parts of the configuration. -/
def serverPart : Write GatewayConfig Exn :=
  assign (·.server) (fun v c => { c with server := v }) .ok

def cachePart : Write GatewayConfig Exn :=
  assign (·.cache) (fun v c => { c with cache := v }) .ok

def rateLimitPart : Write GatewayConfig Exn :=
  assign (·.rateLimit) (fun v c => { c with rateLimit := v }) .ok

theorem serverPart_lawful : serverPart.Lawful where
  get_congr _ _ h := h.server
  set_congr _ _ _ h := ⟨rfl, h.cache, h.rateLimit, h.defaultStrategy, h.providers, h.pricing,
    h.modelAliases⟩
  get_set _ _ := rfl
  set_get s := Setoid.refl s

theorem cachePart_lawful : cachePart.Lawful where
  get_congr _ _ h := h.cache
  set_congr _ _ _ h := ⟨h.server, rfl, h.rateLimit, h.defaultStrategy, h.providers, h.pricing,
    h.modelAliases⟩
  get_set _ _ := rfl
  set_get s := Setoid.refl s

theorem rateLimitPart_lawful : rateLimitPart.Lawful where
  get_congr _ _ h := h.rateLimit
  set_congr _ _ _ h := ⟨h.server, h.cache, rfl, h.defaultStrategy, h.providers, h.pricing,
    h.modelAliases⟩
  get_set _ _ := rfl
  set_get s := Setoid.refl s

theorem loadServer_lawful (s : Json) : ∀ w ∈ loadServer s, w.Lawful := by
  have hfield : ∀ {α : Type} (g : ServerConfig → α) (f : α → ServerConfig → ServerConfig) (read),
      (∀ v s, g (f v s) = v) → (∀ s, f (g s) s = s) →
      (assign (fun c => g c.server) (fun v c => { c with server := f v c.server }) read).Lawful :=
    fun g f read hgf hfg => serverPart_lawful.within g f _ hgf hfg
  simp only [loadServer, List.forall_mem_cons, List.not_mem_nil, false_imp_iff, implies_true,
    and_true]
  exact ⟨hfield _ (fun v s => { s with host := v }) _ (fun _ _ => rfl) fun _ => rfl,
    hfield _ (fun v s => { s with port := v }) _ (fun _ _ => rfl) fun _ => rfl,
    hfield _ (fun v s => { s with threads := v }) _ (fun _ _ => rfl) fun _ => rfl,
    hfield _ (fun v s => { s with logLevel := v }) _ (fun _ _ => rfl) fun _ => rfl,
    hfield _ (fun v s => { s with adminKey := v }) _ (fun _ _ => rfl) fun _ => rfl,
    hfield _ (fun v s => { s with enableCors := v }) _ (fun _ _ => rfl) fun _ => rfl⟩

theorem loadCache_lawful (s : Json) : ∀ w ∈ loadCache s, w.Lawful := by
  have hfield : ∀ {α : Type} (g : CacheConfig → α) (f : α → CacheConfig → CacheConfig) (read),
      (∀ v s, g (f v s) = v) → (∀ s, f (g s) s = s) →
      (assign (fun c => g c.cache) (fun v c => { c with cache := f v c.cache }) read).Lawful :=
    fun g f read hgf hfg => cachePart_lawful.within g f _ hgf hfg
  simp only [loadCache, List.forall_mem_cons, List.not_mem_nil, false_imp_iff, implies_true,
    and_true]
  exact ⟨hfield _ (fun v s => { s with enabled := v }) _ (fun _ _ => rfl) fun _ => rfl,
    hfield _ (fun v s => { s with ttlSeconds := v }) _ (fun _ _ => rfl) fun _ => rfl,
    hfield _ (fun v s => { s with maxEntries := v }) _ (fun _ _ => rfl) fun _ => rfl,
    hfield _ (fun v s => { s with matchParams := v }) _ (fun _ _ => rfl) fun _ => rfl⟩

theorem loadRateLimit_lawful (s : Json) : ∀ w ∈ loadRateLimit s, w.Lawful := by
  simp only [loadRateLimit, List.forall_mem_cons, List.not_mem_nil, false_imp_iff, implies_true,
    and_true]
  exact ⟨rateLimitPart_lawful.within (fun r => r.defaultRpm)
      (fun v r => { r with defaultRpm := v }) _ (fun _ _ => rfl) fun _ => rfl,
    rateLimitPart_lawful.within (fun r => r.defaultTpm)
      (fun v r => { r with defaultTpm := v }) _ (fun _ _ => rfl) fun _ => rfl⟩

theorem loadStrategy_lawful (s : Json) : ∀ w ∈ loadStrategy s, w.Lawful := by
  intro w hw
  obtain rfl := List.mem_singleton.mp hw
  exact ⟨fun _ _ h => h.defaultStrategy, fun _ _ _ h => ⟨h.server, h.cache, h.rateLimit, rfl,
    h.providers, h.pricing, h.modelAliases⟩, fun _ _ => rfl, fun s => Setoid.refl s⟩

theorem replaceProviders_lawful (ps : List Json) : (replaceProviders ps).Lawful where
  get_congr _ _ h := h.providers
  set_congr _ _ _ h := ⟨h.server, h.cache, h.rateLimit, h.defaultStrategy, rfl, h.pricing,
    h.modelAliases⟩
  get_set _ _ := rfl
  set_get s := Setoid.refl s

/-- What writing an alias does to the aliases. -/
theorem lookup_loadAlias (entry : Str × Json) (v : Option Str) (c : GatewayConfig) (key : Str) :
    ((loadAlias entry).set v c).modelAliases.lookup key =
      if key = entry.1 then v else c.modelAliases.lookup key := by
  cases v with
  | none =>
      simp only [loadAlias]
      split
      · next heq => rw [heq, AList.lookup_erase]
      · next hne => rw [AList.lookup_erase_ne hne]
  | some target =>
      simp only [loadAlias]
      split
      · next heq => rw [heq, AList.lookup_insert]
      · next hne => rw [AList.lookup_insert_ne hne]

/-- It leaves everything else alone. -/
theorem loadAlias_set (entry : Str × Json) (v : Option Str) (c : GatewayConfig) :
    ∃ aliases, (loadAlias entry).set v c = { c with modelAliases := aliases } := by
  cases v with
  | none => exact ⟨_, rfl⟩
  | some target => exact ⟨_, rfl⟩

theorem loadAlias_lawful (entry : Str × Json) : (loadAlias entry).Lawful where
  get_congr _ _ h := h.modelAliases entry.1
  set_congr (v : Option Str) s s' h := by
    have hlookup : ∀ key, ((loadAlias entry).set v s).modelAliases.lookup key =
        ((loadAlias entry).set v s').modelAliases.lookup key := fun key => by
      rw [lookup_loadAlias, lookup_loadAlias, h.modelAliases]
    obtain ⟨aliases, hs⟩ := loadAlias_set entry v s
    obtain ⟨aliases', hs'⟩ := loadAlias_set entry v s'
    rw [hs, hs'] at hlookup ⊢
    exact ⟨h.server, h.cache, h.rateLimit, h.defaultStrategy, h.providers, h.pricing, hlookup⟩
  get_set v s := (lookup_loadAlias entry v s entry.1).trans (if_pos rfl)
  set_get s := by
    have hlookup : ∀ key, ((loadAlias entry).set ((loadAlias entry).get s) s).modelAliases.lookup
        key = s.modelAliases.lookup key := fun key => by
      refine (lookup_loadAlias entry (s.modelAliases.lookup entry.1) s key).trans ?_
      split
      · next heq => rw [heq]
      · rfl
    obtain ⟨aliases, hs⟩ := loadAlias_set entry (s.modelAliases.lookup entry.1) s
    change (loadAlias entry).set ((loadAlias entry).get s) s = _ at hs
    rw [hs] at hlookup ⊢
    exact ⟨rfl, rfl, rfl, rfl, rfl, fun _ => rfl, hlookup⟩

/-- The statements for a file that has every section. -/
def everySection (server cache rateLimit strategy : Json) (ps : List Json)
    (members : List (Str × Json)) : List (Write GatewayConfig Exn) :=
  loadServer server ++ loadCache cache ++ loadRateLimit rateLimit ++ loadStrategy strategy ++
    ([replaceProviders ps] ++ loadEachAlias members)

theorem ifPresent_sublist (j : Json) (key : Str) (load : Json → List (Write GatewayConfig Exn)) :
    (ifPresent j key load).Sublist (load ((j.find? key).getD .null)) := by
  unfold ifPresent
  cases j.find? key with
  | none => exact List.nil_sublist _
  | some s => exact List.Sublist.refl _

/-- A file has some of the sections. -/
theorem load_sublist (j : Json) : ∃ server cache rateLimit strategy ps members,
    (load j).Sublist (everySection server cache rateLimit strategy ps members) := by
  have hhead : ∃ server cache rateLimit strategy, (loadHead j).Sublist
      (loadServer server ++ loadCache cache ++ loadRateLimit rateLimit ++ loadStrategy strategy) :=
    ⟨_, _, _, _, (((ifPresent_sublist j _ loadServer).append (ifPresent_sublist j _ loadCache)).append
      (ifPresent_sublist j _ loadRateLimit)).append (ifPresent_sublist j _ loadStrategy)⟩
  have hproviders : ∃ ps, (loadProviders j).Sublist [replaceProviders ps] := by
    unfold loadProviders
    split
    · next ps _ => exact ⟨ps, List.Sublist.refl _⟩
    · exact ⟨[], List.nil_sublist _⟩
  have haliases : ∃ members, (loadAliases j).Sublist (loadEachAlias members) := by
    unfold loadAliases
    split
    · next members _ => exact ⟨members, List.Sublist.refl _⟩
    · exact ⟨[], List.nil_sublist _⟩
  obtain ⟨server, cache, rateLimit, strategy, hhead⟩ := hhead
  obtain ⟨ps, hproviders⟩ := hproviders
  obtain ⟨members, haliases⟩ := haliases
  exact ⟨server, cache, rateLimit, strategy, ps, members,
    hhead.append (hproviders.append haliases)⟩

theorem load_lawful (j : Json) : ∀ w ∈ load j, w.Lawful := by
  obtain ⟨server, cache, rateLimit, strategy, ps, members, hsub⟩ := load_sublist j
  intro w hw
  have hmem := hsub.subset hw
  simp only [everySection, List.mem_append] at hmem
  rcases hmem with (((hw | hw) | hw) | hw) | hw | hw
  · exact loadServer_lawful server w hw
  · exact loadCache_lawful cache w hw
  · exact loadRateLimit_lawful rateLimit w hw
  · exact loadStrategy_lawful strategy w hw
  · obtain rfl := List.mem_singleton.mp hw
    exact replaceProviders_lawful ps
  · obtain ⟨entry, -, rfl⟩ := List.mem_map.mp hw
    exact loadAlias_lawful entry

/-- No statement writes an alias but those for it. -/
theorem loadEachAlias_apart (members : List (Str × Json)) :
    (loadEachAlias members).Pairwise Apart := by
  unfold loadEachAlias
  rw [List.pairwise_map]
  refine (List.pairwise_map.mp (OrderedMap.sorted_ofList members).nodup).imp
    fun {m m'} hne v c => ?_
  exact (lookup_loadAlias m' v c m.1).trans (if_neg hne)

/-- The fields and the providers are apart from each other and from the aliases. -/
theorem load_apart (j : Json) : (load j).Pairwise Apart := by
  obtain ⟨server, cache, rateLimit, strategy, ps, members, hsub⟩ := load_sublist j
  refine List.Pairwise.sublist hsub ?_
  rw [everySection, ← List.append_assoc, List.pairwise_append]
  refine ⟨?_, loadEachAlias_apart members, ?_⟩
  · simp [loadServer, loadCache, loadRateLimit, loadStrategy, replaceProviders, Apart, assign]
  · intro w hw w' hw' v c
    obtain ⟨entry, -, rfl⟩ := List.mem_map.mp hw'
    obtain ⟨aliases, hset⟩ := loadAlias_set entry v c
    rw [hset]
    revert w
    simp [loadServer, loadCache, loadRateLimit, loadStrategy, replaceProviders, assign]

end Config

end Gateway
