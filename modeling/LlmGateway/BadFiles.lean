import LlmGateway.Startup

/-!
# What a bad file leaves behind

When a field of the configuration file cannot be read, `load_from_file` returns false
and keeps what the fields in front of it said.  `load_keeps_iff` says for which files
nothing is changed: `readings` lists what a file says in the order in which it is read,
each with the condition that it can be read and with the condition that it says what is
configured already.
-/

namespace Gateway

namespace Config

open Write

/-! ## What a file says -/

/-- A text in a section. -/
def textReading (s : Json) (key : String) (configured : Str) : Reading where
  fits := s.isObject = true ∧ s.Fits (str key) Json.isString
  agrees := ∀ given, s.find? (str key) = some (.string given) → given = configured

/-- A number in a section. -/
def numberReading (s : Json) (key : String) (configured : ℤ) : Reading where
  fits := s.isObject = true ∧ s.Fits (str key) Json.isInt
  agrees := ∀ v given, s.find? (str key) = some v → v.getInt = .ok given → given = configured

/-- A flag in a section. -/
def flagReading (s : Json) (key : String) (configured : Bool) : Reading where
  fits := s.isObject = true ∧ s.Fits (str key) Json.isBoolean
  agrees := ∀ given, s.find? (str key) = some (.boolean given) → given = configured

/-- The section `server`. -/
def serverReadings (s : Json) (c : ServerConfig) : List Reading :=
  [textReading s "host" c.host, numberReading s "port" c.port,
   numberReading s "threads" c.threads, textReading s "log_level" c.logLevel,
   textReading s "admin_key" c.adminKey, flagReading s "enable_cors" c.enableCors]

/-- The section `cache`. -/
def cacheReadings (s : Json) (c : CacheConfig) : List Reading :=
  [flagReading s "enabled" c.enabled, numberReading s "ttl_seconds" c.ttlSeconds,
   numberReading s "max_entries" c.maxEntries, flagReading s "match_params" c.matchParams]

/-- The section `rate_limit`. -/
def rateLimitReadings (s : Json) (c : RateLimitConfig) : List Reading :=
  [numberReading s "default_rpm" c.defaultRpm, numberReading s "default_tpm" c.defaultTpm]

/-- A name stands for a strategy; any name but the four others stands for smart. -/
def NamesStrategy (name : Str) : RoutingStrategy → Prop
  | .costOptimized => name = str "cost"
  | .latencyOptimized => name = str "latency"
  | .roundRobin => name = str "round_robin"
  | .failover => name = str "failover"
  | .smart => name ∉ [str "cost", str "latency", str "round_robin", str "failover"]

/-- The `routing_strategy`. -/
def strategyReading (s : Json) (configured : RoutingStrategy) : Reading where
  fits := s.isString = true
  agrees := ∀ name, s = .string name → NamesStrategy name configured

/-- The member of an element of `providers`, or what stands for a missing one. -/
def GivesText (p : Json) (key : String) (dflt a : Str) : Prop :=
  p.find? (str key) = some (.string a) ∨ p.find? (str key) = none ∧ a = dflt

def GivesNumber (p : Json) (key : String) (dflt a : ℤ) : Prop :=
  (∃ v, p.find? (str key) = some v ∧ v.getInt = .ok a) ∨ p.find? (str key) = none ∧ a = dflt

def GivesFlag (p : Json) (key : String) (dflt a : Bool) : Prop :=
  p.find? (str key) = some (.boolean a) ∨ p.find? (str key) = none ∧ a = dflt

/-- The models of an element, if it has a list of them. -/
def GivesModels (p : Json) (models : List Str) : Prop :=
  p.find? (str "models") = some (.array (models.map .string)) ∨
    (∀ ms, p.find? (str "models") ≠ some (.array ms)) ∧ models = []

/-- An element of `providers` describes a provider. -/
structure Describes (p : Json) (pc : ProviderConfig) : Prop where
  object : p.isObject = true
  name : GivesText p "name" [] pc.name
  apiKey : GivesText p "api_key" [] pc.apiKey
  baseUrl : GivesText p "base_url" [] pc.baseUrl
  timeoutMs : GivesNumber p "timeout_ms" 30000 pc.timeoutMs
  maxRetries : GivesNumber p "max_retries" 2 pc.maxRetries
  weight : GivesNumber p "weight" 1 pc.weight
  enabled : GivesFlag p "enabled" true pc.enabled
  models : GivesModels p pc.models

/-- The list of providers.  The elements in front of the first that cannot be read
replace those that are configured. -/
def providersReading (ps : List Json) (configured : List ProviderConfig) : Reading where
  fits := ∀ p ∈ ps, EntryFits p
  agrees := ∃ front rest, ps = front ++ rest ∧ List.Forall₂ Describes front configured ∧
    ∀ p ∈ rest.head?, ¬ EntryFits p

/-- An alias and its target. -/
def aliasReading (configured : UnorderedMap Str Str) (entry : Str × Json) : Reading where
  fits := entry.2.isString = true
  agrees := ∀ target, entry.2 = .string target → configured.lookup entry.1 = some target

/-- What a file says, in the order in which it is read; the aliases in the order of their
names. -/
def readings (j : Json) (c : GatewayConfig) : List Reading :=
  (j.find? (str "server")).elim [] (fun s => serverReadings s c.server) ++
  (j.find? (str "cache")).elim [] (fun s => cacheReadings s c.cache) ++
  (j.find? (str "rate_limit")).elim [] (fun s => rateLimitReadings s c.rateLimit) ++
  (j.find? (str "routing_strategy")).elim [] (fun s => [strategyReading s c.defaultStrategy]) ++
  (match j.find? (str "providers") with
    | some (.array ps) => [providersReading ps c.providers]
    | _ => []) ++
  (match j.find? (str "model_aliases") with
    | some (.object members) => (OrderedMap.ofList members).map (aliasReading c.modelAliases)
    | _ => [])

/-! ## What is read is what the file says -/

/-- An assignment writes what is there when it reads nothing else. -/
theorem assign_agrees_iff {α : Type} {get : GatewayConfig → α}
    {set : α → GatewayConfig → GatewayConfig} {read : α → Except Exn α} {c : GatewayConfig} :
    (assign get set read).Agrees c ↔ ∀ a, read (get c) = .ok a → a = get c := by
  cases hread : read (get c) with
  | error e =>
      have hnone : ((assign get set read).effect (get c)).1 = none := by simp only [assign, hread]
      exact iff_of_true (agrees_of_none hnone) fun a ha => by cases ha
  | ok a =>
      have hsome : ((assign get set read).effect (get c)).1 = some a := by
        simp only [assign, hread]
      rw [agrees_iff_of_some (w := assign get set read) hsome]
      simp [assign]

/-- The statement of one field. -/
theorem reads_field {α : Type} {get : GatewayConfig → α} {set : α → GatewayConfig → GatewayConfig}
    {read : Json → Except Exn α} {type : Json → Bool}
    (hread : ∀ v, (∃ a, read v = .ok a) ↔ type v = true) (s : Json) (key : Str)
    (c : GatewayConfig) : Reads c (assign get set (s.value read key))
      ⟨s.isObject = true ∧ s.Fits key type,
        ∀ v a, s.find? key = some v → read v = .ok a → a = get c⟩ where
  passes := assign_value_requires hread s key (get c)
  agrees := by
    have hvalue : (∀ a, s.value read key (get c) = .ok a → a = get c) ↔
        ∀ v a, s.find? key = some v → read v = .ok a → a = get c := by
      constructor
      · intro h v a hv ha
        refine h a ?_
        cases s with
        | object members =>
            rw [Json.find?] at hv
            rw [Json.value, hv]
            exact ha
        | _ => cases hv
      · intro h a ha
        rcases Json.value_eq_ok ha with ⟨v, hv, hget⟩ | ⟨-, hdefault⟩
        · exact h v a hv hget
        · exact hdefault
    rw [← hvalue, assign_agrees_iff]

/-- Only a text is read as a text. -/
theorem getString_eq_ok {v : Json} {a : Str} : v.getString = .ok a ↔ v = .string a := by
  cases v <;> simp [Json.getString]

theorem getBool_eq_ok {v : Json} {a : Bool} : v.getBool = .ok a ↔ v = .boolean a := by
  cases v <;> simp [Json.getBool]

/-- A statement that reads a text is this reading. -/
theorem reads_text (get : GatewayConfig → Str) (set : Str → GatewayConfig → GatewayConfig)
    (s : Json) (key : String) (c : GatewayConfig) :
    Reads c (assign get set (s.value Json.getString (str key))) (textReading s key (get c)) := by
  refine (reads_field Json.getString_ok_iff s (str key) c).congr Iff.rfl ?_
  simp only [getString_eq_ok, textReading]
  constructor
  · intro h given hgiven
    exact h _ given hgiven rfl
  · rintro h v a hv rfl
    exact h a hv

theorem reads_number (get : GatewayConfig → ℤ) (set : ℤ → GatewayConfig → GatewayConfig)
    (s : Json) (key : String) (c : GatewayConfig) :
    Reads c (assign get set (s.value Json.getInt (str key))) (numberReading s key (get c)) :=
  reads_field Json.getInt_ok_iff s (str key) c

theorem reads_flag (get : GatewayConfig → Bool) (set : Bool → GatewayConfig → GatewayConfig)
    (s : Json) (key : String) (c : GatewayConfig) :
    Reads c (assign get set (s.value Json.getBool (str key))) (flagReading s key (get c)) := by
  refine (reads_field Json.getBool_ok_iff s (str key) c).congr Iff.rfl ?_
  simp only [getBool_eq_ok, flagReading]
  constructor
  · intro h given hgiven
    exact h _ given hgiven rfl
  · rintro h v a hv rfl
    exact h a hv

/-- The statements of the section, in the order of the source. -/
theorem reads_server (s : Json) (c : GatewayConfig) :
    List.Forall₂ (Reads c) (loadServer s) (serverReadings s c.server) :=
  .cons (reads_text _ _ s "host" c) (.cons (reads_number _ _ s "port" c)
    (.cons (reads_number _ _ s "threads" c) (.cons (reads_text _ _ s "log_level" c)
    (.cons (reads_text _ _ s "admin_key" c) (.cons (reads_flag _ _ s "enable_cors" c) .nil)))))

theorem reads_cache (s : Json) (c : GatewayConfig) :
    List.Forall₂ (Reads c) (loadCache s) (cacheReadings s c.cache) :=
  .cons (reads_flag _ _ s "enabled" c) (.cons (reads_number _ _ s "ttl_seconds" c)
    (.cons (reads_number _ _ s "max_entries" c) (.cons (reads_flag _ _ s "match_params" c) .nil)))

theorem reads_rateLimit (s : Json) (c : GatewayConfig) :
    List.Forall₂ (Reads c) (loadRateLimit s) (rateLimitReadings s c.rateLimit) :=
  .cons (reads_number _ _ s "default_rpm" c) (.cons (reads_number _ _ s "default_tpm" c) .nil)

/-- What the loader takes a name for. -/
theorem strategyOf_eq_iff {name : Str} {strategy : RoutingStrategy} :
    strategyOf name = strategy ↔ NamesStrategy name strategy := by
  have hne : str "cost" ≠ str "latency" ∧ str "cost" ≠ str "round_robin" ∧
      str "cost" ≠ str "failover" ∧ str "latency" ≠ str "round_robin" ∧
      str "latency" ≠ str "failover" ∧ str "round_robin" ≠ str "failover" := by decide
  obtain ⟨hcl, hcr, hcf, hlr, hlf, hrf⟩ := hne
  unfold strategyOf
  split_ifs with hcost hlatency hround hfailover
  · cases strategy <;> simp [NamesStrategy, hcost, hcl, hcr, hcf]
  · cases strategy <;> simp [NamesStrategy, hlatency, hcl.symm, hlr, hlf]
  · cases strategy <;> simp [NamesStrategy, hround, hcr.symm, hlr.symm, hrf]
  · cases strategy <;> simp [NamesStrategy, hfailover, hcf.symm, hlf.symm, hrf.symm]
  · cases strategy <;> simp [NamesStrategy, hcost, hlatency, hround, hfailover]

theorem reads_strategy (s : Json) (c : GatewayConfig) :
    List.Forall₂ (Reads c) (loadStrategy s) [strategyReading s c.defaultStrategy] := by
  refine .cons ⟨?_, ?_⟩ .nil
  · have hstring := Json.getString_ok_iff s
    simp only [assign, strategyReading, ← hstring]
    cases s.getString <;> simp [Except.map]
  · rw [assign_agrees_iff]
    simp only [strategyReading, ← getString_eq_ok, ← strategyOf_eq_iff]
    cases s.getString with
    | error e => simp [Except.map]
    | ok name => simp [Except.map]

/-! ## The providers -/

/-- What it means, member by member, that a field gives a text. -/
theorem givesText_iff {p : Json} (hobject : p.isObject = true) (key : String) (dflt a : Str) :
    p.value Json.getString (str key) dflt = .ok a ↔ GivesText p key dflt a := by
  cases p with
  | object members =>
      simp only [Json.value, GivesText, Json.find?]
      cases members.lookup (str key) with
      | none => simp [eq_comm]
      | some v => simp [getString_eq_ok]
  | _ => cases hobject

theorem givesNumber_iff {p : Json} (hobject : p.isObject = true) (key : String) (dflt a : ℤ) :
    p.value Json.getInt (str key) dflt = .ok a ↔ GivesNumber p key dflt a := by
  cases p with
  | object members =>
      simp only [Json.value, GivesNumber, Json.find?]
      cases members.lookup (str key) with
      | none => simp [eq_comm]
      | some v => simp
  | _ => cases hobject

theorem givesFlag_iff {p : Json} (hobject : p.isObject = true) (key : String) (dflt a : Bool) :
    p.value Json.getBool (str key) dflt = .ok a ↔ GivesFlag p key dflt a := by
  cases p with
  | object members =>
      simp only [Json.value, GivesFlag, Json.find?]
      cases members.lookup (str key) with
      | none => simp [eq_comm]
      | some v => simp [getBool_eq_ok]
  | _ => cases hobject

/-- A list of texts is read if all of it is. -/
theorem mapM_getString_eq_ok {ms : List Json} {models : List Str} :
    ms.mapM Json.getString = .ok models ↔ ms = models.map .string := by
  induction ms generalizing models with
  | nil => cases models <;> simp [pure, Except.pure]
  | cons m ms ih =>
      rw [List.mapM_cons]
      constructor
      · intro h
        obtain ⟨name, hname, h⟩ := bind_eq_ok h
        obtain ⟨rest, hrest, h⟩ := bind_eq_ok h
        cases h
        rw [List.map_cons, ← ih.mp hrest, getString_eq_ok.mp hname]
      · intro h
        cases models with
        | nil => cases h
        | cons name rest =>
            obtain ⟨rfl, hrest⟩ := List.cons.inj h
            rw [ih.mpr hrest]
            rfl

/-- The models, or none where there is no member for them. -/
theorem givesModels_iff {p : Json} {models : List Str} :
    readModels p = .ok models ↔ GivesModels p models := by
  unfold readModels GivesModels
  split
  · next ms hms =>
      rw [mapM_getString_eq_ok, hms]
      simp
  · next hno =>
      refine ⟨fun h => .inr ⟨hno, (Except.ok.inj h).symm⟩, fun h => ?_⟩
      rcases h with h | ⟨-, rfl⟩
      · exact absurd h (hno _)
      · rfl

/-- What is read of an element is what it describes. -/
theorem readProvider_eq_ok_iff {p : Json} {pc : ProviderConfig} :
    readProvider p = .ok pc ↔ Describes p pc := by
  constructor
  · intro h
    have hobject := ((readProvider_ok_iff p).mp ⟨pc, h⟩).fields.1
    unfold readProvider at h
    obtain ⟨name, hname, h⟩ := bind_eq_ok h
    obtain ⟨apiKey, hkey, h⟩ := bind_eq_ok h
    obtain ⟨baseUrl, hurl, h⟩ := bind_eq_ok h
    obtain ⟨timeoutMs, htimeout, h⟩ := bind_eq_ok h
    obtain ⟨maxRetries, hretries, h⟩ := bind_eq_ok h
    obtain ⟨weight, hweight, h⟩ := bind_eq_ok h
    obtain ⟨enabled, henabled, h⟩ := bind_eq_ok h
    obtain ⟨models, hmodels, h⟩ := bind_eq_ok h
    cases h
    exact ⟨hobject, (givesText_iff hobject _ _ _).mp hname, (givesText_iff hobject _ _ _).mp hkey,
      (givesText_iff hobject _ _ _).mp hurl, (givesNumber_iff hobject _ _ _).mp htimeout,
      (givesNumber_iff hobject _ _ _).mp hretries, (givesNumber_iff hobject _ _ _).mp hweight,
      (givesFlag_iff hobject _ _ _).mp henabled, givesModels_iff.mp hmodels⟩
  · intro h
    unfold readProvider
    rw [(givesText_iff h.object _ _ _).mpr h.name, (givesText_iff h.object _ _ _).mpr h.apiKey,
      (givesText_iff h.object _ _ _).mpr h.baseUrl,
      (givesNumber_iff h.object _ _ _).mpr h.timeoutMs,
      (givesNumber_iff h.object _ _ _).mpr h.maxRetries,
      (givesNumber_iff h.object _ _ _).mpr h.weight,
      (givesFlag_iff h.object _ _ _).mpr h.enabled, givesModels_iff.mpr h.models]
    rfl

/-- The loop pushes the elements in front of the first that cannot be read, and throws if
there is one. -/
theorem pushProviders_spec (ps : List Json) (pushed : List ProviderConfig) :
    ∃ front rest read, ps = front ++ rest ∧ List.Forall₂ Describes front read ∧
      (∀ p ∈ rest.head?, ¬ EntryFits p) ∧ (pushProviders ps pushed).1 = pushed ++ read ∧
      ((pushProviders ps pushed).2 = none ↔ rest = []) := by
  induction ps generalizing pushed with
  | nil => exact ⟨[], [], [], rfl, .nil, by simp, by simp [pushProviders], by simp [pushProviders]⟩
  | cons p ps ih =>
      rw [pushProviders]
      cases hread : readProvider p with
      | error e =>
          refine ⟨[], p :: ps, [], rfl, .nil, fun p' hp' hfits => ?_, by simp, by simp⟩
          obtain ⟨pc, hpc⟩ := (readProvider_ok_iff p').mpr hfits
          cases hp'
          rw [hread] at hpc
          cases hpc
      | ok pc =>
          obtain ⟨front, rest, read, rfl, hfront, hrest, hpushed, hthrown⟩ := ih (pushed ++ [pc])
          refine ⟨p :: front, rest, pc :: read, rfl, .cons (readProvider_eq_ok_iff.mp hread) hfront,
            hrest, ?_, hthrown⟩
          simp only [hpushed, List.append_assoc, List.singleton_append]

theorem Describes.entryFits {p : Json} {pc : ProviderConfig} (h : Describes p pc) : EntryFits p :=
  (readProvider_ok_iff p).mp ⟨pc, readProvider_eq_ok_iff.mpr h⟩

/-- Entries that are described can be read. -/
theorem entryFits_of_describes {ps : List Json} {read : List ProviderConfig}
    (h : List.Forall₂ Describes ps read) : ∀ p ∈ ps, EntryFits p := by
  induction h with
  | nil => exact List.forall_mem_nil _
  | cons hp _ ih => exact List.forall_mem_cons.mpr ⟨hp.entryFits, ih⟩

/-- The elements in front of the first that cannot be read are determined, and so is what
they describe. -/
theorem front_unique {front front' rest rest' : List Json} {read read' : List ProviderConfig}
    (hsplit : front ++ rest = front' ++ rest') (hfront : List.Forall₂ Describes front read)
    (hfront' : List.Forall₂ Describes front' read') (hrest : ∀ p ∈ rest.head?, ¬ EntryFits p)
    (hrest' : ∀ p ∈ rest'.head?, ¬ EntryFits p) : read = read' := by
  induction hfront generalizing front' read' with
  | nil =>
      cases hfront' with
      | nil => rfl
      | cons hp _ =>
          subst hsplit
          exact absurd hp.entryFits (hrest _ rfl)
  | cons hp _ ih =>
      cases hfront' with
      | nil =>
          subst hsplit
          exact absurd hp.entryFits (hrest' _ rfl)
      | cons hp' hmore =>
          rw [List.cons_append, List.cons_append] at hsplit
          obtain ⟨rfl, hsplits⟩ := List.cons.inj hsplit
          have hsame := readProvider_eq_ok_iff.mpr hp
          rw [readProvider_eq_ok_iff.mpr hp'] at hsame
          rw [Except.ok.inj hsame, ih hsplits hmore]

/-- The one statement that clears the list before it reads. -/
theorem reads_providers (ps : List Json) (c : GatewayConfig) :
    Reads c (replaceProviders ps) (providersReading ps c.providers) := by
  obtain ⟨front, rest, read, rfl, hfront, hrest, hpushed, hthrown⟩ := pushProviders_spec ps []
  constructor
  · refine Iff.trans hthrown ?_
    constructor
    · rintro rfl
      rw [List.append_nil]
      exact entryFits_of_describes hfront
    · intro hall
      cases rest with
      | nil => rfl
      | cons p rest => exact absurd (hall p (by simp)) (hrest p rfl)
  · have hsome : ((replaceProviders (front ++ rest)).effect c.providers).1 = some read :=
      congrArg some hpushed
    rw [agrees_iff_of_some (w := replaceProviders (front ++ rest)) hsome]
    show read = c.providers ↔ _
    constructor
    · intro hsame
      exact ⟨front, rest, rfl, hsame ▸ hfront, hrest⟩
    · intro h
      obtain ⟨front', rest', hsplit, hfront', hrest'⟩ := h
      exact front_unique hsplit hfront hfront' hrest hrest'

/-- An alias says something about its own name only. -/
theorem reads_alias (entry : Str × Json) (c : GatewayConfig) :
    Reads c (loadAlias entry) (aliasReading c.modelAliases entry) := by
  constructor
  · have hstring := Json.getString_ok_iff entry.2
    simp only [loadAlias, aliasReading, ← hstring]
    cases entry.2.getString <;> simp
  · simp only [aliasReading, ← getString_eq_ok]
    cases hread : entry.2.getString with
    | error e =>
        have hnone : ((loadAlias entry).effect (c.modelAliases.lookup entry.1)).1 = none := by
          simp only [loadAlias, hread]
        exact iff_of_true (agrees_of_none hnone) fun target htarget => by cases htarget
    | ok target =>
        have hsome : ((loadAlias entry).effect (c.modelAliases.lookup entry.1)).1 =
            some (some target) := by simp only [loadAlias, hread]
        rw [agrees_iff_of_some (w := loadAlias entry) hsome]
        simp [loadAlias, eq_comm]

/-- A section that may be missing. -/
theorem reads_section (j : Json) (key : Str) {load : Json → List (Write GatewayConfig Exn)}
    {rs : Json → List Reading} {c : GatewayConfig}
    (h : ∀ s, List.Forall₂ (Reads c) (load s) (rs s)) :
    List.Forall₂ (Reads c) (ifPresent j key load) ((j.find? key).elim [] rs) := by
  unfold ifPresent
  cases j.find? key with
  | none => exact .nil
  | some s => exact h s

/-- The statements read what the file says. -/
theorem reads_load (j : Json) (c : GatewayConfig) :
    List.Forall₂ (Reads c) (load j) (readings j c) := by
  have hhead := List.rel_append (List.rel_append (List.rel_append
    (reads_section j (str "server") fun s => reads_server s c)
    (reads_section j (str "cache") fun s => reads_cache s c))
    (reads_section j (str "rate_limit") fun s => reads_rateLimit s c))
    (reads_section j (str "routing_strategy") fun s => reads_strategy s c)
  have hproviders : List.Forall₂ (Reads c) (loadProviders j)
      (match j.find? (str "providers") with
        | some (.array ps) => [providersReading ps c.providers]
        | _ => []) := by
    unfold loadProviders
    rcases j.find? (str "providers") with _ | v
    · exact .nil
    · cases v with
      | array ps => exact .cons (reads_providers ps c) .nil
      | _ => exact .nil
  have haliases : List.Forall₂ (Reads c) (loadAliases j)
      (match j.find? (str "model_aliases") with
        | some (.object members) => (OrderedMap.ofList members).map (aliasReading c.modelAliases)
        | _ => []) := by
    unfold loadAliases
    rcases j.find? (str "model_aliases") with _ | v
    · exact .nil
    · cases v with
      | object members =>
          show List.Forall₂ (Reads c) (loadEachAlias members) _
          unfold loadEachAlias
          rw [List.forall₂_map_left_iff, List.forall₂_map_right_iff, List.forall₂_same]
          exact fun entry _ => reads_alias entry c
      | _ => exact .nil
  unfold load readings
  rw [List.append_assoc]
  exact List.rel_append hhead (List.rel_append hproviders haliases)

/-! ## Bad files -/

/-- **A bad configuration file.**  When `load_from_file` returns false because the
file does not parse or a field cannot be read, the configuration is what it was
before exactly when the file does not parse or everything that it says up to the field
that threw was configured already. -/
theorem load_keeps_iff (P : Platform) (env : Env) (parsed : Except Str Json)
    (c c' : GatewayConfig) (h : loadFromFile P env (.text parsed) c = .ok (false, c')) :
    c' ≈ c ↔ ∀ j, parsed = .ok j → Reading.AllAgree (readings j c) := by
  cases parsed with
  | error e =>
      obtain rfl : c = c' := by
        simp only [loadFromFile, Except.ok.injEq, Prod.mk.injEq, true_and] at h
        exact h
      exact iff_of_true (Setoid.refl c) fun j hj => by cases hj
  | ok j =>
      have hrun : (runAll (load j) c).1 = c' := by
        cases hloaded : runAll (load j) c with
        | mk after thrown =>
            simp only [loadFromFile, hloaded] at h
            cases thrown with
            | some e => exact (Prod.mk.inj (Except.ok.inj h)).2
            | none =>
                cases henv : applyEnvOverrides P env after <;> simp [henv, Except.map] at h
      rw [← hrun, runAll_equiv_iff (load_lawful j) (load_apart j),
        undisturbed_iff_allAgree (reads_load j c)]
      constructor
      · intro hkept j' hj'
        cases hj'
        exact hkept
      · intro hkept
        exact hkept j rfl

/-- A file that sets the port to its default and an alias to its built-in target before a
malformed alias, which comes after it in the order of the names. -/
def badAlias : Json :=
  .object
    [(str "server", .object [(str "port", .integer 8080)]),
     (str "model_aliases", .object
       [(str "zz", .integer 5),
        (str "fast", .string (str "groq:llama-3.1-8b-instant"))])]

theorem load_keeps_iff_badAlias :
    (runAll (load badAlias) initialConfig).1 ≈ initialConfig := by
  refine (load_keeps_iff (cLocale fnv1a) (fun _ => none) (.ok badAlias) initialConfig _ rfl).mpr ?_
  intro j hj
  cases hj
  have hreadings : readings badAlias initialConfig =
      serverReadings (.object [(str "port", .integer 8080)]) initialConfig.server ++
        [aliasReading initialConfig.modelAliases
            (str "fast", .string (str "groq:llama-3.1-8b-instant")),
          aliasReading initialConfig.modelAliases (str "zz", .integer 5)] := rfl
  rw [hreadings]
  simp only [serverReadings, List.cons_append, List.nil_append, Reading.allAgree_cons]
  refine ⟨?_, fun _ => ⟨?_, fun _ => ⟨?_, fun _ => ⟨?_, fun _ => ⟨?_, fun _ => ⟨?_, fun _ =>
    ⟨?_, fun _ => ⟨?_, fun hthrown => by cases hthrown⟩⟩⟩⟩⟩⟩⟩⟩
  · intro given h
    cases h
  · intro v given hv h
    cases hv
    cases h
    rfl
  · intro v given hv
    cases hv
  · intro given h
    cases h
  · intro given h
    cases h
  · intro given h
    cases h
  · intro target h
    cases h
    rfl
  · intro target h
    cases h

/-- A file with a host and a malformed port changes the host. -/
theorem bad_port_changes_host :
    ¬ ∀ (P : Platform) (env : Env) (parsed : Except Str Json) (c c' : GatewayConfig),
      loadFromFile P env (.text parsed) c = .ok (false, c') → c' ≈ c := by
  intro h
  have hsame := h (cLocale fnv1a) (fun _ => none)
    (.ok (.object [(str "server",
      .object [(str "host", .string (str "127.0.0.1")), (str "port", .null)])]))
    initialConfig _ rfl
  have hserver := congrArg ServerConfig.host (GatewayConfig.Same.server hsame)
  revert hserver
  decide

end Config

end Gateway
