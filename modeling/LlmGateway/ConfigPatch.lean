import LlmGateway.BadFiles
import LlmGateway.LimiterRuns

/-!
# The configuration file as a patch

`load_from_file` writes every field as soon as it has read it.  For a file that can be
read this comes to the same as reading the file first, into a record of the fields that
it has, and then putting those in the place of the ones there were (`load_refines`):
the sections change field by field, the providers as a whole, the aliases one by one,
and the prices not at all.

Such a record can be written out as a file, and is read again from it.  So a whole
configuration can be saved and loaded (`load_saved`), but for its prices.
-/

namespace Gateway

namespace Config

open Write

/-! ## Patches -/

/-- The fields of the `server` section that a file has. -/
structure ServerPatch where
  host : Option Str := none
  port : Option ℤ := none
  threads : Option ℤ := none
  logLevel : Option Str := none
  adminKey : Option Str := none
  enableCors : Option Bool := none

/-- The fields of the `cache` section. -/
structure CachePatch where
  enabled : Option Bool := none
  ttlSeconds : Option ℤ := none
  maxEntries : Option ℤ := none
  matchParams : Option Bool := none

/-- The fields of the `rate_limit` section. -/
structure RateLimitPatch where
  defaultRpm : Option ℤ := none
  defaultTpm : Option ℤ := none

/-- What a file says. -/
structure Patch where
  server : ServerPatch := {}
  cache : CachePatch := {}
  rateLimit : RateLimitPatch := {}
  strategy : Option RoutingStrategy := none
  providers : Option (List ProviderConfig) := none
  aliases : List (Str × Str) := []

/-- What the patch does not say stays. -/
def ServerPatch.apply (p : ServerPatch) (s : ServerConfig) : ServerConfig where
  host := p.host.getD s.host
  port := p.port.getD s.port
  threads := p.threads.getD s.threads
  logLevel := p.logLevel.getD s.logLevel
  adminKey := p.adminKey.getD s.adminKey
  enableCors := p.enableCors.getD s.enableCors

def CachePatch.apply (p : CachePatch) (s : CacheConfig) : CacheConfig where
  enabled := p.enabled.getD s.enabled
  ttlSeconds := p.ttlSeconds.getD s.ttlSeconds
  maxEntries := p.maxEntries.getD s.maxEntries
  matchParams := p.matchParams.getD s.matchParams

def RateLimitPatch.apply (p : RateLimitPatch) (s : RateLimitConfig) : RateLimitConfig where
  defaultRpm := p.defaultRpm.getD s.defaultRpm
  defaultTpm := p.defaultTpm.getD s.defaultTpm

/-- Set the aliases, one after another. -/
def setAliases (aliases : List (Str × Str)) (table : UnorderedMap Str Str) : UnorderedMap Str Str :=
  aliases.foldl (fun table entry => table.insert entry.1 entry.2) table

/-- The configuration with what the file says. -/
def Patch.apply (p : Patch) (c : GatewayConfig) : GatewayConfig where
  server := p.server.apply c.server
  cache := p.cache.apply c.cache
  rateLimit := p.rateLimit.apply c.rateLimit
  defaultStrategy := p.strategy.getD c.defaultStrategy
  providers := p.providers.getD c.providers
  pricing := c.pricing
  modelAliases := setAliases p.aliases c.modelAliases

/-! ## Reading a patch -/

/-- A member that may be missing from an object. -/
def member {α : Type} (get : Json → Except Exn α) (j : Json) (key : Str) : Except Exn (Option α) :=
  j.value (fun v => (get v).map some) key none

/-- The `server` section. -/
def readServer (s : Json) : Except Exn ServerPatch := do
  let host ← member Json.getString s (str "host")
  let port ← member Json.getInt s (str "port")
  let threads ← member Json.getInt s (str "threads")
  let logLevel ← member Json.getString s (str "log_level")
  let adminKey ← member Json.getString s (str "admin_key")
  let enableCors ← member Json.getBool s (str "enable_cors")
  .ok { host, port, threads, logLevel, adminKey, enableCors }

/-- The `cache` section. -/
def readCache (s : Json) : Except Exn CachePatch := do
  let enabled ← member Json.getBool s (str "enabled")
  let ttlSeconds ← member Json.getInt s (str "ttl_seconds")
  let maxEntries ← member Json.getInt s (str "max_entries")
  let matchParams ← member Json.getBool s (str "match_params")
  .ok { enabled, ttlSeconds, maxEntries, matchParams }

/-- The `rate_limit` section. -/
def readRateLimit (s : Json) : Except Exn RateLimitPatch := do
  let defaultRpm ← member Json.getInt s (str "default_rpm")
  let defaultTpm ← member Json.getInt s (str "default_tpm")
  .ok { defaultRpm, defaultTpm }

/-- A section that may be missing. -/
def readSection {α : Type} (j : Json) (key : Str) (absent : α) (read : Json → Except Exn α) :
    Except Exn α :=
  (j.find? key).elim (.ok absent) read

/-- The name of the strategy; an unknown one is `smart`. -/
def readStrategy (s : Json) : Except Exn (Option RoutingStrategy) :=
  s.getString.map fun name => some (strategyOf name)

/-- The list of providers, if there is one. -/
def readProviders (j : Json) : Except Exn (Option (List ProviderConfig)) :=
  match j.find? (str "providers") with
  | some (.array ps) => (ps.mapM readProvider).map some
  | _ => .ok none

/-- One alias, whose target has to be a text. -/
def readAlias (entry : Str × Json) : Except Exn (Str × Str) :=
  entry.2.getString.map fun target => (entry.1, target)

/-- The aliases, if there are any. -/
def readAliases (j : Json) : Except Exn (List (Str × Str)) :=
  match j.find? (str "model_aliases") with
  | some (.object members) => (OrderedMap.ofList members).mapM readAlias
  | _ => .ok []

/-- Everything that a file says. -/
def readPatch (j : Json) : Except Exn Patch := do
  let server ← readSection j (str "server") {} readServer
  let cache ← readSection j (str "cache") {} readCache
  let rateLimit ← readSection j (str "rate_limit") {} readRateLimit
  let strategy ← readSection j (str "routing_strategy") none readStrategy
  let providers ← readProviders j
  let aliases ← readAliases j
  .ok { server, cache, rateLimit, strategy, providers, aliases }

/-! ## Loading is reading and applying -/

/-- Reading a field with the present value for a missing one. -/
theorem value_eq_member {α : Type} (get : Json → Except Exn α) (j : Json) (key : Str) (present : α) :
    j.value get key present = (member get j key).map fun o => o.getD present := by
  unfold member
  cases j with
  | object members =>
      simp only [Json.value]
      cases members.lookup key with
      | none => rfl
      | some v =>
          show get v = ((get v).map some).map fun o => o.getD present
          cases get v <;> rfl
  | _ => rfl

/-- The statement of one field. -/
theorem carries_field {α : Type} (get : GatewayConfig → α)
    (set : α → GatewayConfig → GatewayConfig) (pre : GatewayConfig → GatewayConfig)
    (rd : Json → Except Exn α) (s : Json) (key : Str) :
    Carries pre [assign get set (s.value rd key)] (member rd s key)
      fun o c => set (o.getD (get (pre c))) (pre c) := by
  have hvalue := fun c => value_eq_member rd s key (get (pre c))
  refine .statement (w := assign get set (s.value rd key))
    (fun (o : Option α) c => o.getD (get (pre c))) ?_ ?_
  · intro o c hread
    have hok : s.value rd key (get (pre c)) = .ok (o.getD (get (pre c))) := by
      rw [hvalue, hread]
      rfl
    simp only [assign, hok]
  · intro e c hread
    have herror : s.value rd key (get (pre c)) = .error e := by
      rw [hvalue, hread]
      rfl
    simp only [assign, herror]

/-- Six fields, one statement each. -/
theorem carries_server (s : Json) :
    Carries id (loadServer s) (readServer s) fun p c => { c with server := p.apply c.server } :=
  (carries_field _ _ _ _ s _).next fun _ => (carries_field _ _ _ _ s _).next fun _ =>
    (carries_field _ _ _ _ s _).next fun _ => (carries_field _ _ _ _ s _).next fun _ =>
    (carries_field _ _ _ _ s _).next fun _ => (carries_field _ _ _ _ s _).next fun _ =>
    .done fun _ => rfl

theorem carries_cache (s : Json) :
    Carries id (loadCache s) (readCache s) fun p c => { c with cache := p.apply c.cache } :=
  (carries_field _ _ _ _ s _).next fun _ => (carries_field _ _ _ _ s _).next fun _ =>
    (carries_field _ _ _ _ s _).next fun _ => (carries_field _ _ _ _ s _).next fun _ =>
    .done fun _ => rfl

theorem carries_rateLimit (s : Json) :
    Carries id (loadRateLimit s) (readRateLimit s)
      fun p c => { c with rateLimit := p.apply c.rateLimit } :=
  (carries_field _ _ _ _ s _).next fun _ => (carries_field _ _ _ _ s _).next fun _ =>
    .done fun _ => rfl

/-- The strategy is read before it is written. -/
theorem carries_strategy (s : Json) :
    Carries id (loadStrategy s) (readStrategy s)
      fun o c => { c with defaultStrategy := o.getD c.defaultStrategy } := by
  unfold loadStrategy readStrategy
  cases s with
  | string name =>
      refine ⟨fun o c heq => ?_, fun e c heq => by cases heq⟩
      cases heq
      rfl
  | _ =>
      refine ⟨fun o c heq => (by cases heq), fun e c heq => ?_⟩
      cases heq
      rfl

/-- A section that is read if it is there. -/
theorem carries_section {α : Type} {j : Json} {key : Str} {absent : α}
    {load : Json → List (Write GatewayConfig Exn)} {read : Json → Except Exn α}
    {apply : α → GatewayConfig → GatewayConfig} (h : ∀ s, Carries id (load s) (read s) apply)
    (habsent : ∀ c, apply absent c = c) (pre : GatewayConfig → GatewayConfig) :
    Carries pre (ifPresent j key load) (readSection j key absent read)
      fun a c => apply a (pre c) := by
  unfold ifPresent readSection
  cases j.find? key with
  | none => exact .done fun c => habsent (pre c)
  | some s => exact (h s).from pre

/-- The loop over the providers pushes what it has read, and stops at the first entry
that cannot be read. -/
theorem pushProviders_eq (ps : List Json) (pushed : List ProviderConfig) :
    (∀ read, ps.mapM readProvider = .ok read → pushProviders ps pushed = (pushed ++ read, none)) ∧
      ∀ e, ps.mapM readProvider = .error e → (pushProviders ps pushed).2 = some e := by
  induction ps generalizing pushed with
  | nil =>
      refine ⟨fun read heq => ?_, fun e heq => by cases heq⟩
      cases heq
      simp [pushProviders]
  | cons p ps ih =>
      rw [List.mapM_cons, pushProviders]
      cases hp : readProvider p with
      | error e =>
          refine ⟨fun read heq => (by cases heq), fun e' heq => ?_⟩
          cases heq
          rfl
      | ok pc =>
          obtain ⟨hok, herror⟩ := ih (pushed ++ [pc])
          cases hps : ps.mapM readProvider with
          | error e =>
              refine ⟨fun read heq => (by cases heq), fun e' heq => ?_⟩
              cases heq
              exact herror e hps
          | ok rest =>
              refine ⟨fun read heq => ?_, fun e heq => by cases heq⟩
              cases heq
              simp only
              rw [hok rest hps, List.append_assoc, List.singleton_append]

/-- The old list goes when the array is read to its end. -/
theorem carries_providers (j : Json) (pre : GatewayConfig → GatewayConfig) :
    Carries pre (loadProviders j) (readProviders j)
      fun o c => { pre c with providers := o.getD (pre c).providers } := by
  unfold loadProviders readProviders
  rcases j.find? (str "providers") with _ | v
  · exact .done fun c => rfl
  · cases v with
    | array ps =>
        obtain ⟨hok, herror⟩ := pushProviders_eq ps []
        show Carries pre [replaceProviders ps] ((ps.mapM readProvider).map some) _
        refine .statement (w := replaceProviders ps)
          (fun (o : Option (List ProviderConfig)) c => o.getD (pre c).providers)
          (fun o c heq => ?_) fun e c heq => ?_
        · cases hread : ps.mapM readProvider with
          | error e =>
              rw [hread] at heq
              cases heq
          | ok read =>
              rw [hread] at heq
              cases heq
              simp only [replaceProviders, hok read hread, List.nil_append, Option.getD_some]
        · cases hread : ps.mapM readProvider with
          | error e' =>
              rw [hread] at heq
              cases heq
              exact herror e hread
          | ok read =>
              rw [hread] at heq
              cases heq
    | _ => exact .done fun c => rfl

theorem carries_alias (entry : Str × Json) (pre : GatewayConfig → GatewayConfig) :
    Carries pre [loadAlias entry] (readAlias entry)
      fun a c => { pre c with modelAliases := (pre c).modelAliases.insert a.1 a.2 } := by
  obtain ⟨name, target⟩ := entry
  cases target with
  | string model =>
      refine ⟨fun a c heq => ?_, fun e c heq => (by cases heq)⟩
      cases heq
      rfl
  | _ =>
      refine ⟨fun a c heq => (by cases heq), fun e c heq => ?_⟩
      cases heq
      rfl

/-- Each alias is written before the next one is read. -/
theorem carries_eachAlias (members : List (Str × Json)) (pre : GatewayConfig → GatewayConfig) :
    Carries pre (members.map loadAlias) (members.mapM readAlias)
      fun aliases c => { pre c with modelAliases := setAliases aliases (pre c).modelAliases } := by
  induction members generalizing pre with
  | nil => exact .done fun c => rfl
  | cons entry members ih =>
      rw [List.mapM_cons]
      refine (carries_alias entry pre).next fun a => ?_
      have hrest : Carries
          (fun c => { pre c with modelAliases := (pre c).modelAliases.insert a.1 a.2 })
          (members.map loadAlias ++ [])
          (members.mapM readAlias >>= fun aliases => .ok (a :: aliases))
          fun aliases c =>
            { pre c with modelAliases := setAliases aliases (pre c).modelAliases } :=
        (ih _).next fun aliases => .done fun c => rfl
      rwa [List.append_nil] at hrest

theorem carries_aliases (j : Json) (pre : GatewayConfig → GatewayConfig) :
    Carries pre (loadAliases j) (readAliases j)
      fun aliases c => { pre c with modelAliases := setAliases aliases (pre c).modelAliases } := by
  unfold loadAliases readAliases loadEachAlias
  rcases j.find? (str "model_aliases") with _ | v
  · exact .done fun c => rfl
  · cases v with
    | object members => exact carries_eachAlias _ pre
    | _ => exact .done fun c => rfl

/-- What the file says, all together. -/
theorem carries_load (j : Json) : Carries id (load j) (readPatch j) Patch.apply := by
  have hblocks : load j = ifPresent j (str "server") loadServer ++
      (ifPresent j (str "cache") loadCache ++ (ifPresent j (str "rate_limit") loadRateLimit ++
        (ifPresent j (str "routing_strategy") loadStrategy ++
          (loadProviders j ++ (loadAliases j ++ []))))) := by
    simp only [load, loadHead, List.append_assoc, List.append_nil]
  rw [hblocks]
  refine (carries_section carries_server (fun c => rfl) id).next fun server => ?_
  refine (carries_section carries_cache (fun c => rfl) _).next fun cache => ?_
  refine (carries_section carries_rateLimit (fun c => rfl) _).next fun rateLimit => ?_
  refine (carries_section carries_strategy (fun c => rfl) _).next fun strategy => ?_
  refine (carries_providers j _).next fun providers => ?_
  refine (carries_aliases j _).next fun aliases => ?_
  exact .done fun c => rfl

/-! ## The environment on top -/

/-- A key from the environment is the key already. -/
theorem withEnvKey_again (env : Env) (pc : ProviderConfig) :
    withEnvKey env (withEnvKey env pc) = withEnvKey env pc := by
  rw [withEnvKey, withEnvKey_name]
  cases hkind : ProviderRegistry.kindOf pc.name with
  | none => rfl
  | some kind =>
      cases hkey : env (str (apiKeyVariable kind)) with
      | none => simp [withEnvKey, hkind, hkey]
      | some key => simp [withEnvKey, hkind, hkey]

/-- Overriding twice is overriding once. -/
theorem applyEnvOverrides_again {P : Platform} {env : Env} {c c' : GatewayConfig}
    (h : applyEnvOverrides P env c = .ok c') : applyEnvOverrides P env c' = .ok c' := by
  have hnumber : ∀ {v? : Option Str} {n m : ℤ}, v?.elim (.ok n) (stoi P) = .ok m →
      v?.elim (.ok m) (stoi P) = .ok m := fun {v? n m} hv => by
    cases v? with
    | none => rfl
    | some v => exact hv
  have hkeys : ∀ ps, overrideKeys env (overrideKeys env ps) = overrideKeys env ps := fun ps => by
    simp only [overrideKeys_eq, List.map_map]
    exact List.map_congr_left fun pc _ => withEnvKey_again env pc
  unfold applyEnvOverrides at h ⊢
  obtain ⟨port, hport, h⟩ := bind_eq_ok h
  obtain ⟨threads, hthreads, h⟩ := bind_eq_ok h
  cases h
  have hagain : ∀ {v? : Option Str} {x : Str}, v?.getD (v?.getD x) = v?.getD x :=
    fun {v? x} => by cases v? <;> rfl
  simp only [hnumber hport, hnumber hthreads, hkeys, hagain]
  rfl

/-- A file that can be read. -/
theorem loadFromFile_of_readPatch {P : Platform} {env : Env} {j : Json} {patch : Patch}
    (h : readPatch j = .ok patch) (c : GatewayConfig) :
    loadFromFile P env (.text (.ok j)) c =
      (applyEnvOverrides P env (patch.apply c)).map fun c => (true, c) := by
  have hpassed := (carries_load j).passes patch c h
  simp only [id] at hpassed
  simp only [loadFromFile, hpassed]

/-- **Loading is reading and applying.**  A file that can be read changes the
configuration as the patch that it is read as, under the environment, and `main` starts
with this patch of the built-in configuration; `load_from_file` returns false for any
other file. -/
theorem load_refines (P : Platform) (env : Env) (j : Json) :
    match readPatch j with
    | .ok patch =>
        (∀ c, loadFromFile P env (.text (.ok j)) c =
          (applyEnvOverrides P env (patch.apply c)).map fun c => (true, c)) ∧
        startUp P env (.text (.ok j)) =
          (applyEnvOverrides P env (patch.apply initialConfig)).map fun c =>
            (c, ({} : ProviderRegistry).initializeFrom c.providers)
    | .error _ => ∀ c, ∃ c', loadFromFile P env (.text (.ok j)) c = .ok (false, c') := by
  cases hread : readPatch j with
  | error e =>
      intro c
      have hthrown := (carries_load j).throws e c hread
      simp only [id] at hthrown
      refine ⟨(runAll (load j) c).1, ?_⟩
      cases hrun : runAll (load j) c with
      | mk after thrown =>
          rw [hrun] at hthrown
          cases hthrown
          simp only [loadFromFile, hrun]
  | ok patch =>
      refine ⟨loadFromFile_of_readPatch hread, ?_⟩
      unfold startUp
      rw [loadFromFile_of_readPatch hread]
      cases henv : applyEnvOverrides P env (patch.apply initialConfig) with
      | error e => rfl
      | ok c =>
          have hagain : loadFromEnv P env c = .ok (true, c) := by
            rw [loadFromEnv, applyEnvOverrides_again henv]
            rfl
          show (loadFromEnv P env c >>= _) = _
          rw [hagain]
          rfl

/-! ## Writing a patch -/

/-- The members of an object that are there. -/
def presentMembers (fields : List (Str × Option Json)) : List (Str × Json) :=
  fields.filterMap fun field => field.2.map fun v => (field.1, v)

/-- The members of a section, under the names that the loader reads. -/
def ServerPatch.fields (p : ServerPatch) : List (Str × Option Json) :=
  [(str "host", p.host.map .string),
   (str "port", p.port.map .integer),
   (str "threads", p.threads.map .integer),
   (str "log_level", p.logLevel.map .string),
   (str "admin_key", p.adminKey.map .string),
   (str "enable_cors", p.enableCors.map .boolean)]

def CachePatch.fields (p : CachePatch) : List (Str × Option Json) :=
  [(str "enabled", p.enabled.map .boolean),
   (str "ttl_seconds", p.ttlSeconds.map .integer),
   (str "max_entries", p.maxEntries.map .integer),
   (str "match_params", p.matchParams.map .boolean)]

def RateLimitPatch.fields (p : RateLimitPatch) : List (Str × Option Json) :=
  [(str "default_rpm", p.defaultRpm.map .integer),
   (str "default_tpm", p.defaultTpm.map .integer)]

/-- A provider entry of a file. -/
def writtenProvider (pc : ProviderConfig) : Json :=
  .object
    [(str "name", .string pc.name),
     (str "api_key", .string pc.apiKey),
     (str "base_url", .string pc.baseUrl),
     (str "timeout_ms", .integer pc.timeoutMs),
     (str "max_retries", .integer pc.maxRetries),
     (str "weight", .integer pc.weight),
     (str "enabled", .boolean pc.enabled),
     (str "models", .array (pc.models.map .string))]

/-- An alias of a file. -/
def writtenAlias (entry : Str × Str) : Str × Json := (entry.1, .string entry.2)

/-- The sections of a file. -/
def Patch.fields (p : Patch) : List (Str × Option Json) :=
  [(str "server", some (.object (presentMembers p.server.fields))),
   (str "cache", some (.object (presentMembers p.cache.fields))),
   (str "rate_limit", some (.object (presentMembers p.rateLimit.fields))),
   (str "routing_strategy", p.strategy.map fun s => .string (strategyToString s)),
   (str "providers", p.providers.map fun ps => .array (ps.map writtenProvider)),
   (str "model_aliases", some (.object (p.aliases.map writtenAlias)))]

/-- A file that says the same as the patch. -/
def Patch.written (p : Patch) : Json := .object (presentMembers p.fields)

/-- The numbers of a patch are of type `int`, and the aliases are in the order of their
names. -/
structure Patch.Fits (p : Patch) : Prop where
  port : ∀ n ∈ p.server.port, FitsInt n
  threads : ∀ n ∈ p.server.threads, FitsInt n
  ttlSeconds : ∀ n ∈ p.cache.ttlSeconds, FitsInt n
  maxEntries : ∀ n ∈ p.cache.maxEntries, FitsInt n
  defaultRpm : ∀ n ∈ p.rateLimit.defaultRpm, FitsInt n
  defaultTpm : ∀ n ∈ p.rateLimit.defaultTpm, FitsInt n
  providers : ∀ ps ∈ p.providers, ∀ pc ∈ ps,
    FitsInt pc.timeoutMs ∧ FitsInt pc.maxRetries ∧ FitsInt pc.weight
  aliases : OrderedMap.Sorted p.aliases

/-- Of fields with distinct names each is found as it is. -/
theorem lookup_presentMembers {fields : List (Str × Option Json)}
    (hnodup : (fields.map Prod.fst).Nodup) (key : Str) :
    (presentMembers fields).lookup key = (fields.lookup key).join := by
  induction fields with
  | nil => rfl
  | cons field fields ih =>
      obtain ⟨name, v⟩ := field
      obtain ⟨hnot, hnodup⟩ := List.nodup_cons.mp hnodup
      have hrest := ih hnodup
      by_cases hkey : key = name
      · subst hkey
        have hnone : fields.lookup key = none := List.lookup_eq_none_iff.mpr fun field hfield => by
          simpa using fun heq => hnot (List.mem_map.mpr ⟨field, hfield, heq.symm⟩)
        rw [hnone] at hrest
        cases v with
        | none => simpa [presentMembers, List.lookup_cons] using hrest
        | some v => simp [presentMembers]
      · have hne : (key == name) = false := beq_eq_false_iff_ne.mpr hkey
        cases v with
        | none => simpa [presentMembers, List.lookup_cons, hne] using hrest
        | some v => simpa [presentMembers, List.lookup_cons, hne] using hrest

/-- A field that is written is read. -/
theorem member_presentMembers {α : Type} {get : Json → Except Exn α} {put : α → Json}
    {fields : List (Str × Option Json)} (hnodup : (fields.map Prod.fst).Nodup) {key : Str}
    {o : Option α} (hfield : fields.lookup key = some (o.map put))
    (hget : ∀ a ∈ o, get (put a) = .ok a) :
    member get (.object (presentMembers fields)) key = .ok o := by
  have hlookup := lookup_presentMembers hnodup key
  rw [hfield] at hlookup
  simp only [member, Json.value, hlookup]
  cases o with
  | none => rfl
  | some a =>
      show (get (put a)).map some = _
      rw [hget a rfl]
      rfl

theorem getInt_integer {o : Option ℤ} (h : ∀ n ∈ o, FitsInt n) :
    ∀ n ∈ o, (Json.integer n).getInt = .ok n := fun n hn => by
  rw [Json.getInt, wrap32_of_fits (h n hn)]

/-- A section that is written is read as it was. -/
theorem readServer_fields (p : ServerPatch) (hport : ∀ n ∈ p.port, FitsInt n)
    (hthreads : ∀ n ∈ p.threads, FitsInt n) :
    readServer (.object (presentMembers p.fields)) = .ok p := by
  have hnames : (p.fields.map Prod.fst).Nodup := by
    show [str "host", str "port", str "threads", str "log_level", str "admin_key",
      str "enable_cors"].Nodup
    decide
  unfold readServer
  rw [member_presentMembers (o := p.host) hnames rfl fun _ _ => rfl,
    member_presentMembers (o := p.port) hnames rfl (getInt_integer hport),
    member_presentMembers (o := p.threads) hnames rfl (getInt_integer hthreads),
    member_presentMembers (o := p.logLevel) hnames rfl fun _ _ => rfl,
    member_presentMembers (o := p.adminKey) hnames rfl fun _ _ => rfl,
    member_presentMembers (o := p.enableCors) hnames rfl fun _ _ => rfl]
  rfl

theorem readCache_fields (p : CachePatch) (httl : ∀ n ∈ p.ttlSeconds, FitsInt n)
    (hmax : ∀ n ∈ p.maxEntries, FitsInt n) :
    readCache (.object (presentMembers p.fields)) = .ok p := by
  have hnames : (p.fields.map Prod.fst).Nodup := by
    show [str "enabled", str "ttl_seconds", str "max_entries", str "match_params"].Nodup
    decide
  unfold readCache
  rw [member_presentMembers (o := p.enabled) hnames rfl fun _ _ => rfl,
    member_presentMembers (o := p.ttlSeconds) hnames rfl (getInt_integer httl),
    member_presentMembers (o := p.maxEntries) hnames rfl (getInt_integer hmax),
    member_presentMembers (o := p.matchParams) hnames rfl fun _ _ => rfl]
  rfl

theorem readRateLimit_fields (p : RateLimitPatch) (hrpm : ∀ n ∈ p.defaultRpm, FitsInt n)
    (htpm : ∀ n ∈ p.defaultTpm, FitsInt n) :
    readRateLimit (.object (presentMembers p.fields)) = .ok p := by
  have hnames : (p.fields.map Prod.fst).Nodup := by
    show [str "default_rpm", str "default_tpm"].Nodup
    decide
  unfold readRateLimit
  rw [member_presentMembers (o := p.defaultRpm) hnames rfl (getInt_integer hrpm),
    member_presentMembers (o := p.defaultTpm) hnames rfl (getInt_integer htpm)]
  rfl

/-- Every strategy is known by its name. -/
theorem strategyOf_strategyToString (s : RoutingStrategy) :
    strategyOf (strategyToString s) = s := by
  cases s <;> decide

/-- No member of an entry is lost, and none is confused with another. -/
theorem readProvider_writtenProvider {pc : ProviderConfig} (htimeout : FitsInt pc.timeoutMs)
    (hretries : FitsInt pc.maxRetries) (hweight : FitsInt pc.weight) :
    readProvider (writtenProvider pc) = .ok pc := by
  have hmodels : readModels (writtenProvider pc) = .ok pc.models :=
    mapM_getString_eq_ok.mpr rfl
  have hint : ∀ {key : Str} {n dflt : ℤ}, (writtenProvider pc).find? key = some (.integer n) →
      FitsInt n → (writtenProvider pc).value Json.getInt key dflt = .ok n :=
    fun {key n dflt} hfind hfits => by
      have hlookup : Json.value Json.getInt (writtenProvider pc) key dflt =
          (Json.integer n).getInt := by
        unfold writtenProvider at hfind ⊢
        simp only [Json.find?] at hfind
        simp only [Json.value, hfind]
      rw [hlookup, Json.getInt, wrap32_of_fits hfits]
  unfold readProvider
  rw [hmodels, hint (n := pc.timeoutMs) rfl htimeout, hint (n := pc.maxRetries) rfl hretries,
    hint (n := pc.weight) rfl hweight]
  rfl

theorem mapM_readProvider {ps : List ProviderConfig}
    (h : ∀ pc ∈ ps, FitsInt pc.timeoutMs ∧ FitsInt pc.maxRetries ∧ FitsInt pc.weight) :
    (ps.map writtenProvider).mapM readProvider = .ok ps := by
  induction ps with
  | nil => rfl
  | cons pc ps ih =>
      obtain ⟨htimeout, hretries, hweight⟩ := h pc List.mem_cons_self
      rw [List.map_cons, List.mapM_cons, readProvider_writtenProvider htimeout hretries hweight,
        ih fun pc' hpc' => h pc' (List.mem_cons_of_mem _ hpc')]
      rfl

theorem mapM_readAlias (aliases : List (Str × Str)) :
    (aliases.map writtenAlias).mapM readAlias = .ok aliases := by
  induction aliases with
  | nil => rfl
  | cons entry aliases ih =>
      rw [List.map_cons, List.mapM_cons, ih]
      rfl

/-- **What is written is read.** -/
theorem readPatch_written {p : Patch} (hfits : p.Fits) : readPatch p.written = .ok p := by
  have hnames : (p.fields.map Prod.fst).Nodup := by
    show [str "server", str "cache", str "rate_limit", str "routing_strategy", str "providers",
      str "model_aliases"].Nodup
    decide
  have hfind : ∀ key, p.written.find? key = (p.fields.lookup key).join :=
    lookup_presentMembers hnames
  have hserver : readSection p.written (str "server") {} readServer = .ok p.server := by
    rw [readSection, hfind]
    exact readServer_fields p.server hfits.port hfits.threads
  have hcache : readSection p.written (str "cache") {} readCache = .ok p.cache := by
    rw [readSection, hfind]
    exact readCache_fields p.cache hfits.ttlSeconds hfits.maxEntries
  have hrateLimit : readSection p.written (str "rate_limit") {} readRateLimit =
      .ok p.rateLimit := by
    rw [readSection, hfind]
    exact readRateLimit_fields p.rateLimit hfits.defaultRpm hfits.defaultTpm
  have hstrategy : readSection p.written (str "routing_strategy") none readStrategy =
      .ok p.strategy := by
    rw [readSection, hfind]
    show (p.strategy.map fun s => Json.string (strategyToString s)).elim _ _ = _
    cases p.strategy with
    | none => rfl
    | some s => exact congrArg (fun s => Except.ok (some s)) (strategyOf_strategyToString s)
  have hproviders : readProviders p.written = .ok p.providers := by
    have hfound : p.written.find? (str "providers") =
        p.providers.map fun ps => .array (ps.map writtenProvider) := hfind _
    rw [readProviders, hfound]
    cases hps : p.providers with
    | none => rfl
    | some ps => exact congrArg (Except.map some) (mapM_readProvider (hfits.providers ps hps))
  have haliases : readAliases p.written = .ok p.aliases := by
    have hfound : p.written.find? (str "model_aliases") =
        some (.object (p.aliases.map writtenAlias)) := hfind _
    have hsorted : OrderedMap.Sorted (p.aliases.map writtenAlias) :=
      List.pairwise_map.mpr hfits.aliases
    rw [readAliases, hfound]
    simp only
    rw [OrderedMap.ofList_of_sorted hsorted]
    exact mapM_readAlias p.aliases
  rw [readPatch, hserver, hcache, hrateLimit, hstrategy, hproviders, haliases]
  rfl

/-! ## The whole configuration -/

/-- The patch that sets everything that a file can set. -/
def Patch.of (cfg : GatewayConfig) : Patch where
  server := ⟨some cfg.server.host, some cfg.server.port, some cfg.server.threads,
    some cfg.server.logLevel, some cfg.server.adminKey, some cfg.server.enableCors⟩
  cache := ⟨some cfg.cache.enabled, some cfg.cache.ttlSeconds, some cfg.cache.maxEntries,
    some cfg.cache.matchParams⟩
  rateLimit := ⟨some cfg.rateLimit.defaultRpm, some cfg.rateLimit.defaultTpm⟩
  strategy := some cfg.defaultStrategy
  providers := some cfg.providers
  aliases := OrderedMap.ofList (cfg.modelAliases.entries.map fun entry => (entry.1, entry.2))

/-- The numbers of a configuration are of type `int`. -/
structure FitsInts (cfg : GatewayConfig) : Prop where
  server : FitsInt cfg.server.port ∧ FitsInt cfg.server.threads
  cache : FitsInt cfg.cache.ttlSeconds ∧ FitsInt cfg.cache.maxEntries
  rateLimit : FitsInt cfg.rateLimit.defaultRpm ∧ FitsInt cfg.rateLimit.defaultTpm
  providers : ∀ pc ∈ cfg.providers,
    FitsInt pc.timeoutMs ∧ FitsInt pc.maxRetries ∧ FitsInt pc.weight

/-- The patch that saves a configuration has its numbers, and its aliases sorted. -/
theorem FitsInts.patch {cfg : GatewayConfig} (h : FitsInts cfg) : (Patch.of cfg).Fits where
  port n hn := by
    cases hn
    exact h.server.1
  threads n hn := by
    cases hn
    exact h.server.2
  ttlSeconds n hn := by
    cases hn
    exact h.cache.1
  maxEntries n hn := by
    cases hn
    exact h.cache.2
  defaultRpm n hn := by
    cases hn
    exact h.rateLimit.1
  defaultTpm n hn := by
    cases hn
    exact h.rateLimit.2
  providers ps hps := by
    cases hps
    exact h.providers
  aliases := OrderedMap.sorted_ofList _

/-- What setting aliases does to each of them. -/
theorem lookup_setAliases {aliases : List (Str × Str)} (hnodup : (aliases.map Prod.fst).Nodup)
    (table : UnorderedMap Str Str) (name : Str) :
    (setAliases aliases table).lookup name = (aliases.lookup name).or (table.lookup name) := by
  induction aliases generalizing table with
  | nil => rfl
  | cons entry aliases ih =>
      obtain ⟨given, target⟩ := entry
      obtain ⟨hnot, hnodup⟩ := List.nodup_cons.mp hnodup
      have hrest : (setAliases ((given, target) :: aliases) table).lookup name =
          (aliases.lookup name).or ((table.insert given target).lookup name) := ih hnodup _
      rw [hrest]
      by_cases hname : name = given
      · subst hname
        have hnone : aliases.lookup name = none := List.lookup_eq_none_iff.mpr fun entry hentry => by
          simpa using fun heq => hnot (List.mem_map.mpr ⟨entry, hentry, heq.symm⟩)
        simp [hnone]
      · have hne : (name == given) = false := beq_eq_false_iff_ne.mpr hname
        rw [AList.lookup_insert_ne hname]
        simp [List.lookup_cons, hne]

/-- The entries of a table are looked up as the table is. -/
theorem lookup_entries (entries : List (Σ _ : Str, Str)) (name : Str) :
    (entries.map fun entry => (entry.1, entry.2)).lookup name = entries.dlookup name := by
  induction entries with
  | nil => rfl
  | cons entry entries ih =>
      obtain ⟨given, target⟩ := entry
      by_cases hname : name = given
      · subst hname
        simp
      · have hne : (name == given) = false := beq_eq_false_iff_ne.mpr hname
        have hskip : List.dlookup name ((⟨given, target⟩ : Σ _ : Str, Str) :: entries) =
            List.dlookup name entries := List.dlookup_cons_ne _ _ hname
        rw [hskip, ← ih]
        simp [List.lookup_cons, hne]

/-- **A saved configuration comes back.**  The file that sets everything makes any
configuration the saved one, but for the prices, which no file can set, and the
aliases that are not in the file, which stay; then the environment is applied as after
any other file. -/
theorem load_saved (P : Platform) (env : Env) {cfg : GatewayConfig} (hfits : FitsInts cfg)
    (c : GatewayConfig) :
    ∃ aliases, loadFromFile P env (.text (.ok (Patch.of cfg).written)) c =
        (applyEnvOverrides P env { cfg with pricing := c.pricing, modelAliases := aliases }).map
          (fun c => (true, c)) ∧
      ∀ name, aliases.lookup name =
        (cfg.modelAliases.lookup name).or (c.modelAliases.lookup name) := by
  refine ⟨setAliases (Patch.of cfg).aliases c.modelAliases, ?_, fun name => ?_⟩
  · rw [loadFromFile_of_readPatch (readPatch_written hfits.patch)]
    rfl
  · rw [lookup_setAliases hfits.patch.aliases.nodup, Patch.of, OrderedMap.lookup_ofList,
      lookup_entries]
    rfl

/-- The built-in configuration with another port and a provider. -/
def savedConfig : GatewayConfig :=
  { initialConfig with
    server := { port := 9090 }
    providers := [{ name := str "groq", models := [str "gemma2-9b-it"] }] }

/-- An environment with nothing but a key for Groq. -/
def groqOnly : Env := fun name => if name = str "GROQ_API_KEY" then some (str "gsk") else none

/-- The saved file over the defaults, with a key in the environment. -/
theorem load_saved_over_defaults :
    ∃ aliases, loadFromFile (cLocale fnv1a) groqOnly (.text (.ok (Patch.of savedConfig).written))
        {} =
        .ok (true, { savedConfig with
          providers := [{ name := str "groq", apiKey := str "gsk",
                          models := [str "gemma2-9b-it"] }]
          pricing := ∅
          modelAliases := aliases }) ∧
      ∀ name, aliases.lookup name =
        (savedConfig.modelAliases.lookup name).or ((∅ : UnorderedMap Str Str).lookup name) := by
  have hfits : FitsInts savedConfig := ⟨by decide, by decide, by decide, by decide⟩
  obtain ⟨aliases, hloaded, haliases⟩ := load_saved (cLocale fnv1a) groqOnly hfits {}
  exact ⟨aliases, hloaded, haliases⟩

end Config

end Gateway
