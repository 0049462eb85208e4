import LlmGateway.ConfigFile
import LlmGateway.Registration

/-!
# Starting from the environment

`main` loads the configuration file, applies the environment and registers the
providers of the configuration that have a key.  The environment overrides the
keys of the providers that the file lists; it lists none by itself, and the
built-in configuration has none.  `registered_iff` says for which files and
environments a provider whose key is in the environment is registered.
-/

namespace Gateway

namespace Config

/-- A file whose sections in front of the providers can be read. -/
structure HeadFits (j : Json) : Prop where
  server : ∀ s, j.find? (str "server") = some s → s.HasFields
    [("host", Json.isString), ("port", Json.isInt), ("threads", Json.isInt),
      ("log_level", Json.isString), ("admin_key", Json.isString), ("enable_cors", Json.isBoolean)]
  cache : ∀ s, j.find? (str "cache") = some s → s.HasFields
    [("enabled", Json.isBoolean), ("ttl_seconds", Json.isInt), ("max_entries", Json.isInt),
      ("match_params", Json.isBoolean)]
  rateLimit : ∀ s, j.find? (str "rate_limit") = some s → s.HasFields
    [("default_rpm", Json.isInt), ("default_tpm", Json.isInt)]
  strategy : j.Fits (str "routing_strategy") Json.isString

/-- An element of `providers` that can be read. -/
structure EntryFits (p : Json) : Prop where
  fields : p.HasFields
    [("name", Json.isString), ("api_key", Json.isString), ("base_url", Json.isString),
      ("timeout_ms", Json.isInt), ("max_retries", Json.isInt), ("weight", Json.isInt),
      ("enabled", Json.isBoolean)]
  models : ∀ ms, p.find? (str "models") = some (.array ms) → ∀ m ∈ ms, m.isString = true

/-- An element of `providers` that can be read, has this name and is not disabled. -/
structure Offers (p : Json) (name : Str) : Prop where
  fits : EntryFits p
  name : p.find? (str "name") = some (.string name)
  enabled : p.find? (str "enabled") ≠ some (.boolean false)

/-- The file parses, its sections in front of the providers can be read, and of
the elements of `providers` up to the first that cannot be read one offers the
name. -/
def Lists (file : ConfigFile) (name : Str) : Prop :=
  ∃ j before p rest, file = .text (.ok j) ∧ HeadFits j ∧
    j.find? (str "providers") = some (.array (before ++ p :: rest)) ∧
    (∀ q ∈ before, EntryFits q) ∧ Offers p name

/-- The file disables a provider. -/
def Disables (file : ConfigFile) (name : Str) : Prop :=
  ∃ j ps p, file = .text (.ok j) ∧ j.find? (str "providers") = some (.array ps) ∧ p ∈ ps ∧
    p.find? (str "name") = some (.string name) ∧
    p.find? (str "enabled") = some (.boolean false)

/-- The numbers in the environment are numbers. -/
def NumbersReadable (P : Platform) (env : Env) : Prop :=
  (∀ v, env (str "LLM_GATEWAY_PORT") = some v → ∃ n, stoi P v = .ok n) ∧
    ∀ v, env (str "LLM_GATEWAY_THREADS") = some v → ∃ n, stoi P v = .ok n

/-- The environment variable for the key of a provider. -/
def apiKeyVariable : ProviderKind → String
  | .openai => "OPENAI_API_KEY"
  | .anthropic => "ANTHROPIC_API_KEY"
  | .together => "TOGETHER_API_KEY"
  | .groq => "GROQ_API_KEY"

/-- The first steps of `main`: the configuration and the registry they lead to,
or the exception that ends the program. -/
def startUp (P : Platform) (env : Env) (file : ConfigFile) :
    Except StoiError (GatewayConfig × ProviderRegistry) := do
  let (_, c) ← loadFromFile P env file initialConfig
  let (_, c) ← loadFromEnv P env c
  .ok (c, ({} : ProviderRegistry).initializeFrom c.providers)

/-! ## What the file lists -/

open Write

/-- A field requires an object in which it is missing or of its type. -/
theorem assign_value_requires {α : Type} {get : GatewayConfig → α}
    {set : α → GatewayConfig → GatewayConfig} {read : Json → Except Exn α} {type : Json → Bool}
    (hread : ∀ v, (∃ a, read v = .ok a) ↔ type v = true) (s : Json) (key : Str) :
    (assign get set (s.value read key)).Requires (s.isObject = true ∧ s.Fits key type) := by
  intro (v : α)
  rw [← Json.value_ok_iff hread s key v]
  simp only [assign]
  cases s.value read key v <;> simp

/-- Together the fields of a section require an object with these fields. -/
theorem fields_pass_iff {s : Json} {ws : List (Write GatewayConfig Exn)}
    {fields : List (String × (Json → Bool))} (hne : fields ≠ [])
    (h : List.Forall₂ Requires ws
      (fields.map fun f => s.isObject = true ∧ s.Fits (str f.1) f.2)) (c : GatewayConfig) :
    (runAll ws c).2 = none ↔ s.HasFields fields := by
  rw [runAll_passes_iff h, List.forall_mem_map]
  exact (Json.hasFields_iff hne).symm

theorem loadServer_passes_iff (s : Json) (c : GatewayConfig) :
    (runAll (loadServer s) c).2 = none ↔ s.HasFields
      [("host", Json.isString), ("port", Json.isInt), ("threads", Json.isInt),
        ("log_level", Json.isString), ("admin_key", Json.isString),
        ("enable_cors", Json.isBoolean)] :=
  fields_pass_iff (List.cons_ne_nil _ _)
    (.cons (assign_value_requires Json.getString_ok_iff s (str "host"))
    (.cons (assign_value_requires Json.getInt_ok_iff s (str "port"))
    (.cons (assign_value_requires Json.getInt_ok_iff s (str "threads"))
    (.cons (assign_value_requires Json.getString_ok_iff s (str "log_level"))
    (.cons (assign_value_requires Json.getString_ok_iff s (str "admin_key"))
    (.cons (assign_value_requires Json.getBool_ok_iff s (str "enable_cors")) .nil)))))) c

theorem loadCache_passes_iff (s : Json) (c : GatewayConfig) :
    (runAll (loadCache s) c).2 = none ↔ s.HasFields
      [("enabled", Json.isBoolean), ("ttl_seconds", Json.isInt), ("max_entries", Json.isInt),
        ("match_params", Json.isBoolean)] :=
  fields_pass_iff (List.cons_ne_nil _ _)
    (.cons (assign_value_requires Json.getBool_ok_iff s (str "enabled"))
    (.cons (assign_value_requires Json.getInt_ok_iff s (str "ttl_seconds"))
    (.cons (assign_value_requires Json.getInt_ok_iff s (str "max_entries"))
    (.cons (assign_value_requires Json.getBool_ok_iff s (str "match_params")) .nil)))) c

theorem loadRateLimit_passes_iff (s : Json) (c : GatewayConfig) :
    (runAll (loadRateLimit s) c).2 = none ↔ s.HasFields
      [("default_rpm", Json.isInt), ("default_tpm", Json.isInt)] :=
  fields_pass_iff (List.cons_ne_nil _ _)
    (.cons (assign_value_requires Json.getInt_ok_iff s (str "default_rpm"))
    (.cons (assign_value_requires Json.getInt_ok_iff s (str "default_tpm")) .nil)) c

theorem loadStrategy_passes_iff (s : Json) (c : GatewayConfig) :
    (runAll (loadStrategy s) c).2 = none ↔ s.isString = true := by
  have hrequires : (assign (·.defaultStrategy) (fun v c => { c with defaultStrategy := v })
      fun _ => s.getString.map strategyOf).Requires (s.isString = true) := by
    intro v
    rw [← Json.getString_ok_iff]
    simp only [assign]
    cases s.getString <;> simp [Except.map]
  exact (runAll_passes_iff (.cons hrequires .nil) c).trans List.forall_mem_singleton

theorem ifPresent_passes_iff (j : Json) (key : Str) (load : Json → List (Write GatewayConfig Exn))
    (c : GatewayConfig) : (runAll (ifPresent j key load) c).2 = none ↔
      ∀ s, j.find? key = some s → (runAll (load s) c).2 = none := by
  unfold ifPresent
  cases j.find? key with
  | none => simp [runAll]
  | some s => simp

/-- The statements in front of the providers pass when the sections fit. -/
theorem loadHead_passes_iff (j : Json) (c : GatewayConfig) :
    (runAll (loadHead j) c).2 = none ↔ HeadFits j := by
  unfold loadHead
  simp only [runAll_append_passes_iff, ifPresent_passes_iff, loadServer_passes_iff,
    loadCache_passes_iff, loadRateLimit_passes_iff, loadStrategy_passes_iff]
  constructor
  · intro h
    exact ⟨h.1.1.1, h.1.1.2, h.1.2, h.2⟩
  · intro h
    exact ⟨⟨⟨h.server, h.cache⟩, h.rateLimit⟩, h.strategy⟩

/-! ## What an element says -/

theorem getStrings_ok_iff (ms : List Json) :
    (∃ names, ms.mapM Json.getString = .ok names) ↔ ∀ m ∈ ms, m.isString = true := by
  induction ms with
  | nil => simp [pure, Except.pure]
  | cons m ms ih =>
      have hrest : ∀ name : Str, (∃ names, (ms.mapM Json.getString >>= fun more =>
          (.ok (name :: more) : Except Exn (List Str))) = .ok names) ↔
          ∀ m ∈ ms, m.isString = true := by
        intro name
        rw [exists_bind_ok_of_forall (p := True) fun more => iff_of_true ⟨_, rfl⟩ trivial, ih,
          and_true]
      rw [List.mapM_cons]
      refine (exists_bind_ok_of_forall hrest).trans ?_
      rw [Json.getString_ok_iff, List.forall_mem_cons]

theorem readModels_ok_iff (p : Json) : (∃ names, readModels p = .ok names) ↔
    ∀ ms, p.find? (str "models") = some (.array ms) → ∀ m ∈ ms, m.isString = true := by
  unfold readModels
  split
  · next ms hms => simp [hms, getStrings_ok_iff]
  · next hno => exact iff_of_true ⟨_, rfl⟩ fun ms hms => absurd hms (hno ms)

theorem readProvider_ok_iff (p : Json) :
    (∃ pc, readProvider p = .ok pc) ↔ EntryFits p := by
  unfold readProvider
  rw [exists_bind_ok_of_forall fun name => exists_bind_ok_of_forall fun apiKey =>
    exists_bind_ok_of_forall fun baseUrl => exists_bind_ok_of_forall fun timeoutMs =>
    exists_bind_ok_of_forall fun maxRetries => exists_bind_ok_of_forall fun weight =>
    exists_bind_ok_of_forall fun enabled => exists_bind_ok_of_forall (p := True) fun models =>
    iff_of_true ⟨_, rfl⟩ trivial]
  simp only [Json.value_ok_iff Json.getString_ok_iff, Json.value_ok_iff Json.getInt_ok_iff,
    Json.value_ok_iff Json.getBool_ok_iff, readModels_ok_iff, and_true]
  constructor
  · intro h
    obtain ⟨⟨hobject, hname⟩, ⟨-, hkey⟩, ⟨-, hurl⟩, ⟨-, htimeout⟩, ⟨-, hretries⟩, ⟨-, hweight⟩,
      ⟨-, henabled⟩, hmodels⟩ := h
    refine ⟨⟨hobject, ?_⟩, hmodels⟩
    simp only [List.forall_mem_cons, List.not_mem_nil, false_imp_iff, implies_true, and_true]
    exact ⟨hname, hkey, hurl, htimeout, hretries, hweight, henabled⟩
  · intro h
    obtain ⟨⟨hobject, hfields⟩, hmodels⟩ := h
    simp only [List.forall_mem_cons, List.not_mem_nil, false_imp_iff, implies_true,
      and_true] at hfields
    obtain ⟨hname, hkey, hurl, htimeout, hretries, hweight, henabled⟩ := hfields
    exact ⟨⟨hobject, hname⟩, ⟨hobject, hkey⟩, ⟨hobject, hurl⟩, ⟨hobject, htimeout⟩,
      ⟨hobject, hretries⟩, ⟨hobject, hweight⟩, ⟨hobject, henabled⟩, hmodels⟩

/-- The name and the flag of an element that was read. -/
theorem readProvider_eq_ok {p : Json} {pc : ProviderConfig} (h : readProvider p = .ok pc) :
    p.value Json.getString (str "name") [] = .ok pc.name ∧
      p.value Json.getBool (str "enabled") true = .ok pc.enabled := by
  unfold readProvider at h
  obtain ⟨name, hname, h⟩ := bind_eq_ok h
  obtain ⟨apiKey, -, h⟩ := bind_eq_ok h
  obtain ⟨baseUrl, -, h⟩ := bind_eq_ok h
  obtain ⟨timeoutMs, -, h⟩ := bind_eq_ok h
  obtain ⟨maxRetries, -, h⟩ := bind_eq_ok h
  obtain ⟨weight, -, h⟩ := bind_eq_ok h
  obtain ⟨enabled, henabled, h⟩ := bind_eq_ok h
  obtain ⟨models, -, h⟩ := bind_eq_ok h
  cases h
  exact ⟨hname, henabled⟩

theorem offers_iff {p : Json} {name : Str} (hname : name ≠ []) :
    Offers p name ↔ ∃ pc, readProvider p = .ok pc ∧ pc.enabled = true ∧ pc.name = name := by
  constructor
  · intro h
    obtain ⟨pc, hpc⟩ := (readProvider_ok_iff p).mpr h.fits
    obtain ⟨hread, hflag⟩ := readProvider_eq_ok hpc
    refine ⟨pc, hpc, ?_, ?_⟩
    · rcases Json.value_eq_ok hflag with ⟨v, hv, hget⟩ | ⟨-, hdefault⟩
      · cases v with
        | boolean b =>
            cases hget
            cases hb : pc.enabled with
            | true => rfl
            | false =>
                rw [hb] at hv
                exact absurd hv h.enabled
        | _ => cases hget
      · exact hdefault
    · rcases Json.value_eq_ok hread with ⟨v, hv, hget⟩ | ⟨hnone, -⟩
      · cases h.name.symm.trans hv
        cases hget
        rfl
      · rw [h.name] at hnone
        cases hnone
  · intro h
    obtain ⟨pc, hpc, henabled, rfl⟩ := h
    obtain ⟨hread, hflag⟩ := readProvider_eq_ok hpc
    refine ⟨(readProvider_ok_iff p).mp ⟨pc, hpc⟩, ?_, fun hoff => ?_⟩
    · rcases Json.value_eq_ok hread with ⟨v, hv, hget⟩ | ⟨-, hdefault⟩
      · cases v with
        | string s =>
            cases hget
            exact hv
        | _ => cases hget
      · exact absurd hdefault hname
    · rcases Json.value_eq_ok hflag with ⟨v, hv, hget⟩ | ⟨hnone, -⟩
      · cases hoff.symm.trans hv
        rw [henabled] at hget
        cases hget
      · rw [hoff] at hnone
        cases hnone

/-- The elements pushed are those up to the first that cannot be read. -/
theorem mem_pushProviders {pc : ProviderConfig} (ps : List Json) (pushed : List ProviderConfig) :
    pc ∈ (pushProviders ps pushed).1 ↔ pc ∈ pushed ∨ ∃ before p rest, ps = before ++ p :: rest ∧
      (∀ q ∈ before, EntryFits q) ∧ readProvider p = .ok pc := by
  induction ps generalizing pushed with
  | nil => simp [pushProviders]
  | cons p ps ih =>
      rw [pushProviders]
      cases hread : readProvider p with
      | error e =>
          have hunfit : ¬ EntryFits p := fun hfits => by
            obtain ⟨pc', hpc'⟩ := (readProvider_ok_iff p).mpr hfits
            rw [hread] at hpc'
            cases hpc'
          refine (or_iff_left ?_).symm
          intro h
          obtain ⟨before, q, rest, hsplit, hbefore, hq⟩ := h
          cases before with
          | nil =>
              cases hsplit
              rw [hread] at hq
              cases hq
          | cons b before =>
              cases hsplit
              exact hunfit (hbefore _ List.mem_cons_self)
      | ok pc' =>
          have hfits := (readProvider_ok_iff p).mp ⟨pc', hread⟩
          simp only [ih, List.mem_append, List.mem_singleton, or_assoc]
          refine or_congr_right ?_
          constructor
          · intro h
            rcases h with rfl | ⟨before, q, rest, rfl, hbefore, hq⟩
            · exact ⟨[], p, ps, rfl, by simp, hread⟩
            · exact ⟨p :: before, q, rest, rfl, List.forall_mem_cons.mpr ⟨hfits, hbefore⟩, hq⟩
          · intro h
            obtain ⟨before, q, rest, hsplit, hbefore, hq⟩ := h
            cases before with
            | nil =>
                cases hsplit
                cases hread.symm.trans hq
                exact .inl rfl
            | cons b before =>
                cases hsplit
                exact .inr ⟨before, q, rest, rfl, fun q' hq' =>
                  hbefore q' (List.mem_cons_of_mem _ hq'), hq⟩

/-! ## What the environment overrides -/

/-- A provider with the key that the environment has for it. -/
def withEnvKey (env : Env) (pc : ProviderConfig) : ProviderConfig :=
  match ProviderRegistry.kindOf pc.name with
  | none => pc
  | some kind => { pc with apiKey := (env (str (apiKeyVariable kind))).getD pc.apiKey }

theorem overrideKey_eq (env : Env) (envName name : String) (ps : List ProviderConfig) :
    overrideKey env envName name ps = ps.map fun p =>
      if p.name = str name then { p with apiKey := (env (str envName)).getD p.apiKey } else p := by
  unfold overrideKey
  cases env (str envName) with
  | none => simp
  | some v => rfl

/-- Each provider has one variable, so the order of the loops does not matter. -/
theorem overrideKeys_eq (env : Env) (ps : List ProviderConfig) :
    overrideKeys env ps = ps.map (withEnvKey env) := by
  simp only [overrideKeys, overrideKey_eq, List.map_map]
  refine List.map_congr_left fun p _ => ?_
  have hne : str "openai" ≠ str "anthropic" ∧ str "openai" ≠ str "together" ∧
      str "openai" ≠ str "groq" ∧ str "anthropic" ≠ str "together" ∧
      str "anthropic" ≠ str "groq" ∧ str "together" ≠ str "groq" := by decide
  obtain ⟨hoa, hot, hog, hat, hag, htg⟩ := hne
  unfold withEnvKey ProviderRegistry.kindOf
  simp only [Function.comp_apply]
  by_cases ho : p.name = str "openai"
  · simp [ho, hoa, hot, hog, apiKeyVariable]
  · by_cases ha : p.name = str "anthropic"
    · simp [ha, hoa.symm, hat, hag, apiKeyVariable]
    · by_cases ht : p.name = str "together"
      · simp [ht, hot.symm, hat.symm, htg, apiKeyVariable]
      · by_cases hg : p.name = str "groq"
        · simp [hg, hog.symm, hag.symm, htg.symm, apiKeyVariable]
        · simp [ho, ha, ht, hg]

theorem withEnvKey_name (env : Env) (pc : ProviderConfig) : (withEnvKey env pc).name = pc.name := by
  unfold withEnvKey
  split <;> rfl

theorem withEnvKey_enabled (env : Env) (pc : ProviderConfig) :
    (withEnvKey env pc).enabled = pc.enabled := by
  unfold withEnvKey
  split <;> rfl

theorem withEnvKey_apiKey {env : Env} {pc : ProviderConfig} {kind : ProviderKind} {key : Str}
    (hname : pc.name = kind.name) (hkey : env (str (apiKeyVariable kind)) = some key) :
    (withEnvKey env pc).apiKey = key := by
  have hkind := ProviderRegistry.kindOf_eq_some.mpr hname
  simp [withEnvKey, hkind, hkey]

/-- An enabled entry of a name stays one. -/
theorem exists_enabled_overrideKeys (env : Env) (ps : List ProviderConfig) (name : Str) :
    (∃ pc ∈ overrideKeys env ps, pc.enabled = true ∧ pc.name = name) ↔
      ∃ pc ∈ ps, pc.enabled = true ∧ pc.name = name := by
  rw [overrideKeys_eq]
  simp only [List.mem_map, exists_exists_and_eq_and, withEnvKey_name, withEnvKey_enabled]

theorem apiKey_of_mem_overrideKeys {env : Env} {ps : List ProviderConfig} {kind : ProviderKind}
    {key : Str} (hkey : env (str (apiKeyVariable kind)) = some key) {pc : ProviderConfig}
    (hpc : pc ∈ overrideKeys env ps) (hname : pc.name = kind.name) : pc.apiKey = key := by
  rw [overrideKeys_eq] at hpc
  obtain ⟨pc', -, rfl⟩ := List.mem_map.mp hpc
  rw [withEnvKey_name] at hname
  exact withEnvKey_apiKey hname hkey

/-- The overrides go through when the numbers are numbers. -/
theorem applyEnvOverrides_ok_iff (P : Platform) (env : Env) (c : GatewayConfig) :
    (∃ c', applyEnvOverrides P env c = .ok c') ↔ NumbersReadable P env := by
  have hnumber : ∀ (v? : Option Str) (n : ℤ), (∃ m, v?.elim (.ok n) (stoi P) = .ok m) ↔
      ∀ v, v? = some v → ∃ m, stoi P v = .ok m := by
    intro v? n
    cases v? with
    | none => simp
    | some v => simp
  unfold applyEnvOverrides NumbersReadable
  rw [exists_bind_ok_of_forall fun port => exists_bind_ok_of_forall (p := True) fun threads =>
    iff_of_true ⟨_, rfl⟩ trivial, hnumber, hnumber, and_true]

theorem applyEnvOverrides_providers {P : Platform} {env : Env} {c c' : GatewayConfig}
    (h : applyEnvOverrides P env c = .ok c') : c'.providers = overrideKeys env c.providers := by
  unfold applyEnvOverrides at h
  obtain ⟨port, -, h⟩ := bind_eq_ok h
  obtain ⟨threads, -, h⟩ := bind_eq_ok h
  cases h
  rfl

/-! ## The providers of a file -/

/-- The providers that a file leaves in the configuration. -/
def providersOf : ConfigFile → List ProviderConfig
  | .text (.ok j) => (runAll (load j) initialConfig).1.providers
  | _ => []

/-- The providers as a part of the configuration. -/
def providersPart : Write GatewayConfig Exn :=
  assign (·.providers) (fun v c => { c with providers := v }) .ok

theorem loadHead_apart (j : Json) : ∀ w ∈ loadHead j, providersPart.Apart w := by
  have hfull : ∀ server cache rateLimit strategy : Json, ∀ w ∈ loadServer server ++
      loadCache cache ++ loadRateLimit rateLimit ++ loadStrategy strategy,
      providersPart.Apart w := by
    intro server cache rateLimit strategy
    simp [loadServer, loadCache, loadRateLimit, loadStrategy, Apart, assign, providersPart]
  intro w hw
  exact hfull _ _ _ _ w ((((((ifPresent_sublist j _ loadServer).append
    (ifPresent_sublist j _ loadCache)).append (ifPresent_sublist j _ loadRateLimit)).append
      (ifPresent_sublist j _ loadStrategy))).subset hw)

theorem loadAliases_apart (j : Json) : ∀ w ∈ loadAliases j, providersPart.Apart w := by
  intro w hw v c
  unfold loadAliases at hw
  split at hw
  · obtain ⟨entry, -, rfl⟩ := List.mem_map.mp hw
    obtain ⟨aliases, hset⟩ := loadAlias_set entry v c
    rw [hset]
    rfl
  · cases hw

/-- A block whose second half leaves the providers alone. -/
theorem providers_runAll_append {first second : List (Write GatewayConfig Exn)}
    (hapart : ∀ w ∈ second, providersPart.Apart w) (c : GatewayConfig) :
    (runAll (first ++ second) c).1.providers = (runAll first c).1.providers := by
  rw [runAll_append]
  split
  · exact get_runAll hapart _
  · rfl

/-- A single statement leaves what it writes, whether it throws or not. -/
theorem runAll_singleton (w : Write GatewayConfig Exn) (c : GatewayConfig) :
    (runAll [w] c).1 = (w.run c).1 := by
  cases hthrown : (w.effect (w.get c)).2 with
  | none => rw [runAll_of_passed hthrown, runAll]
  | some e => rw [runAll_of_thrown hthrown]

theorem mem_providersOf {j : Json} {pc : ProviderConfig} :
    pc ∈ providersOf (.text (.ok j)) ↔ HeadFits j ∧
      ∃ ps, j.find? (str "providers") = some (.array ps) ∧ pc ∈ (pushProviders ps []).1 := by
  have hhead : (runAll (loadHead j) initialConfig).1.providers = [] :=
    get_runAll (loadHead_apart j) initialConfig
  have hpasses := loadHead_passes_iff j initialConfig
  rw [providersOf, load, runAll_append]
  by_cases hfits : HeadFits j
  · rw [if_pos (hpasses.mpr hfits), providers_runAll_append (loadAliases_apart j)]
    unfold loadProviders
    split
    · next ps hps =>
        have hpushed : ∀ c, ((replaceProviders ps).run c).1.providers = (pushProviders ps []).1 :=
          fun _ => rfl
        rw [runAll_singleton, hpushed]
        simp [hfits, hps]
    · next hno =>
        rw [runAll, hhead]
        refine iff_of_false List.not_mem_nil fun h => ?_
        obtain ⟨-, ps, hps, -⟩ := h
        exact hno ps hps
  · rw [if_neg fun h => hfits (hpasses.mp h), hhead]
    simp [hfits]

/-- An enabled entry of the file's list is one that the file offers. -/
theorem exists_providersOf_iff (file : ConfigFile) {name : Str} (hname : name ≠ []) :
    (∃ pc ∈ providersOf file, pc.enabled = true ∧ pc.name = name) ↔ Lists file name := by
  constructor
  · intro h
    obtain ⟨pc, hpc, henabled, hpcname⟩ := h
    match file, hpc with
    | .text (.ok j), hpc =>
        obtain ⟨hfits, ps, hps, hpushed⟩ := mem_providersOf.mp hpc
        rcases (mem_pushProviders ps []).mp hpushed with hnil | ⟨before, p, rest, rfl, hbefore, hp⟩
        · cases hnil
        · exact ⟨j, before, p, rest, rfl, hfits, hps, hbefore,
            (offers_iff hname).mpr ⟨pc, hp, henabled, hpcname⟩⟩
  · intro h
    obtain ⟨j, before, p, rest, rfl, hfits, hps, hbefore, hoffers⟩ := h
    obtain ⟨pc, hp, henabled, hpcname⟩ := (offers_iff hname).mp hoffers
    refine ⟨pc, mem_providersOf.mpr ⟨hfits, _, hps, ?_⟩, henabled, hpcname⟩
    exact (mem_pushProviders _ []).mpr (.inr ⟨before, p, rest, rfl, hbefore, hp⟩)

/-- What `load_from_file` leaves in the list of providers. -/
theorem loadFromFile_providers {P : Platform} {env : Env} (hnumbers : NumbersReadable P env)
    (file : ConfigFile) : ∃ loaded c, loadFromFile P env file initialConfig = .ok (loaded, c) ∧
      (c.providers = providersOf file ∨ c.providers = overrideKeys env (providersOf file)) := by
  have hoverrides : ∀ c : GatewayConfig, ∃ c', applyEnvOverrides P env c = .ok c' ∧
      c'.providers = overrideKeys env c.providers := by
    intro c
    obtain ⟨c', hc'⟩ := (applyEnvOverrides_ok_iff P env c).mpr hnumbers
    exact ⟨c', hc', applyEnvOverrides_providers hc'⟩
  cases file with
  | missing =>
      obtain ⟨c', hc', hproviders⟩ := hoverrides initialConfig
      exact ⟨false, c', by rw [loadFromFile, hc']; rfl, .inr hproviders⟩
  | text parsed =>
      cases parsed with
      | error e => exact ⟨false, initialConfig, rfl, .inl rfl⟩
      | ok j =>
          cases hloaded : runAll (load j) initialConfig with
          | mk c thrown =>
              have hlist : c.providers = providersOf (.text (.ok j)) := by
                rw [providersOf, hloaded]
              cases thrown with
              | some e => exact ⟨false, c, by simp only [loadFromFile, hloaded], .inl hlist⟩
              | none =>
                  obtain ⟨c', hc', hproviders⟩ := hoverrides c
                  refine ⟨true, c', by simp only [loadFromFile, hloaded, hc']; rfl, .inr ?_⟩
                  rw [hproviders, hlist]

/-- The program comes through its first steps when the numbers in the environment
are numbers, with the file's providers and the environment's keys. -/
theorem startUp_spec (P : Platform) (env : Env) (file : ConfigFile) :
    (NumbersReadable P env ∧ ∃ c, startUp P env file =
        .ok (c, ({} : ProviderRegistry).initializeFrom c.providers) ∧
      (c.providers = overrideKeys env (providersOf file) ∨
        c.providers = overrideKeys env (overrideKeys env (providersOf file)))) ∨
    (¬ NumbersReadable P env ∧ ∀ r, startUp P env file ≠ .ok r) := by
  by_cases hnumbers : NumbersReadable P env
  · left
    obtain ⟨loaded, c, hfile, hlist⟩ := loadFromFile_providers hnumbers file
    obtain ⟨c', hc'⟩ := (applyEnvOverrides_ok_iff P env c).mpr hnumbers
    have hproviders := applyEnvOverrides_providers hc'
    refine ⟨hnumbers, c', ?_, hlist.imp (fun h => ?_) fun h => ?_⟩
    · have henv : loadFromEnv P env c = .ok (true, c') := by
        rw [loadFromEnv, hc']
        rfl
      rw [startUp, hfile]
      show (loadFromEnv P env c >>= _) = _
      rw [henv]
      rfl
    · rw [hproviders, h]
    · rw [hproviders, h]
  · refine .inr ⟨hnumbers, fun r hr => hnumbers ?_⟩
    unfold startUp at hr
    obtain ⟨⟨loaded, c⟩, -, hr⟩ := bind_eq_ok hr
    obtain ⟨⟨applied, c'⟩, henv, -⟩ := bind_eq_ok hr
    unfold loadFromEnv at henv
    cases hc' : applyEnvOverrides P env c with
    | error e =>
        rw [hc'] at henv
        cases henv
    | ok c'' => exact (applyEnvOverrides_ok_iff P env c).mp ⟨c'', hc'⟩

/-- The provider is registered with the key. -/
def Registered (P : Platform) (env : Env) (file : ConfigFile) (kind : ProviderKind) (key : Str) :
    Prop :=
  ∃ c reg, startUp P env file = .ok (c, reg) ∧
    ∃ provider, reg.get kind.name = some provider ∧ provider.kind = kind ∧ provider.apiKey = key

/-- **Starting from the environment.**  A provider whose key is set in the
environment is registered with it exactly when the numbers in the environment are
numbers and the file lists the provider, enabled, where it can be read. -/
theorem registered_iff (P : Platform) (env : Env) (file : ConfigFile) (kind : ProviderKind)
    (key : Str) (hkey : env (str (apiKeyVariable kind)) = some key) (hne : key ≠ []) :
    Registered P env file kind key ↔ NumbersReadable P env ∧ Lists file kind.name := by
  have hname : kind.name ≠ [] := by cases kind <;> decide
  rw [← exists_providersOf_iff file hname]
  rcases startUp_spec P env file with ⟨hnumbers, c, hstart, hlist⟩ | ⟨hnot, hstart⟩
  · -- the overrides keep names and flags, and every entry of the name has the key
    have hentries : (∃ pc ∈ c.providers, pc.enabled = true ∧ pc.name = kind.name) ↔
        ∃ pc ∈ providersOf file, pc.enabled = true ∧ pc.name = kind.name := by
      rcases hlist with hlist | hlist
      · rw [hlist, exists_enabled_overrideKeys]
      · rw [hlist, exists_enabled_overrideKeys, exists_enabled_overrideKeys]
    have hkeyed : ∀ pc ∈ c.providers, pc.name = kind.name → pc.apiKey = key := by
      intro pc hpc
      rcases hlist with hlist | hlist
      · exact apiKey_of_mem_overrideKeys hkey (hlist ▸ hpc)
      · exact apiKey_of_mem_overrideKeys hkey (hlist ▸ hpc)
    rw [and_iff_right hnumbers, ← hentries]
    constructor
    · intro h
      obtain ⟨c', reg, hrun, provider, hget, -⟩ := h
      cases hstart.symm.trans hrun
      have hsome := (ProviderRegistry.get_initializeFrom_isSome c.providers {} kind.name).mp
        (Option.isSome_of_eq_some hget)
      rcases hsome with hempty | ⟨pc, hpc, hpcname, hpckeyed⟩
      · cases hempty
      · exact ⟨pc, hpc, hpckeyed.1, hpcname⟩
    · intro h
      obtain ⟨pc, hpc, henabled, hpcname⟩ := h
      have hpckeyed : Keyed pc := by
        refine ⟨henabled, by rw [hkeyed pc hpc hpcname]; exact hne, ?_⟩
        rw [ProviderRegistry.kindOf_eq_some.mpr hpcname]
        rfl
      have hsome := (ProviderRegistry.get_initializeFrom_isSome c.providers {} kind.name).mpr
        (.inr ⟨pc, hpc, hpcname, hpckeyed⟩)
      obtain ⟨provider, hget⟩ := Option.isSome_iff_exists.mp hsome
      refine ⟨c, _, hstart, provider, hget, ?_⟩
      rcases ProviderRegistry.mem_of_get_initializeFrom hget with hempty | ⟨pc', hpc', hname', hmade⟩
      · cases hempty
      · obtain ⟨kind', hkind', rfl⟩ := Option.map_eq_some_iff.mp hmade
        rw [ProviderRegistry.kindOf_eq_some.mpr hname'] at hkind'
        cases hkind'
        exact ⟨rfl, hkeyed pc' hpc' hname'⟩
  · refine iff_of_false (fun h => ?_) fun h => hnot h.1
    obtain ⟨c, reg, hrun, -⟩ := h
    exact hstart (c, reg) hrun

/-- An environment with nothing but a key for OpenAI. -/
def openaiOnly : Env := fun name => if name = str "OPENAI_API_KEY" then some (str "sk") else none

/-- A file that lists OpenAI and nothing else. -/
def listsOpenai : ConfigFile :=
  .text (.ok (.object [(str "providers", .array [.object [(str "name", .string (str "openai"))]])]))

theorem registered_iff_listed :
    Registered (cLocale fnv1a) openaiOnly listsOpenai .openai (str "sk") := by
  refine (registered_iff (cLocale fnv1a) openaiOnly listsOpenai .openai (str "sk") (by decide)
    (by decide)).mpr ⟨⟨?_, ?_⟩, ?_⟩
  · intro v hv
    cases hv
  · intro v hv
    cases hv
  · refine ⟨_, [], _, [], rfl, ⟨?_, ?_, ?_, ?_⟩, rfl, by simp, ⟨⟨⟨rfl, ?_⟩, ?_⟩, rfl, ?_⟩⟩
    · intro s hs
      cases hs
    · intro s hs
      cases hs
    · intro s hs
      cases hs
    · intro s hs
      cases hs
    · simp only [List.forall_mem_cons, List.not_mem_nil, false_imp_iff, implies_true, and_true]
      refine ⟨?_, ?_, ?_, ?_, ?_, ?_, ?_⟩ <;> intro v hv <;> cases hv
      rfl
    · intro ms hms
      cases hms
    · intro hoff
      cases hoff

/-- Without a file no environment gives a provider. -/
theorem nothing_without_file :
    ¬ ∀ (P : Platform) (env : Env) (file : ConfigFile) (kind : ProviderKind) (key : Str),
      env (str (apiKeyVariable kind)) = some key → key ≠ [] → ¬ Disables file kind.name →
      Registered P env file kind key := by
  intro h
  obtain ⟨c, reg, hrun, provider, hget, -⟩ := h (cLocale fnv1a) openaiOnly .missing .openai
    (str "sk") (by decide) (by decide) (by
      intro hdisables
      obtain ⟨j, ps, p, hfile, -⟩ := hdisables
      cases hfile)
  have hnone : startUp (cLocale fnv1a) openaiOnly .missing = .ok (initialConfig, {}) := rfl
  cases hnone.symm.trans hrun
  cases hget

end Config

end Gateway
