import LlmGateway.Types

/-!
# Configuration

The records of `include/config.h` and the built-in pricing table and aliases
that `Config`'s constructor installs before any file or environment variable
is read.
-/

namespace Gateway

/-- `ProviderConfig`. -/
structure ProviderConfig where
  name : Str
  apiKey : Str := []
  baseUrl : Str := []
  timeoutMs : ℤ := 30000
  maxRetries : ℤ := 2
  weight : ℤ := 1
  enabled : Bool := true
  models : List Str := []
  deriving DecidableEq, Repr

/-- `CacheConfig`. -/
structure CacheConfig where
  enabled : Bool := true
  ttlSeconds : ℤ := 3600
  maxEntries : ℤ := 10000
  matchParams : Bool := true
  deriving DecidableEq, Repr

/-- `ServerConfig`. -/
structure ServerConfig where
  host : Str := str "0.0.0.0"
  port : ℤ := 8080
  threads : ℤ := 4
  enableCors : Bool := true
  logLevel : Str := str "info"
  adminKey : Str := []
  deriving DecidableEq, Repr

/-- `RateLimitConfig`. -/
structure RateLimitConfig where
  defaultRpm : ℤ := 60
  defaultTpm : ℤ := 100000
  deriving DecidableEq, Repr

/-- `GatewayConfig`. -/
structure GatewayConfig where
  server : ServerConfig := {}
  cache : CacheConfig := {}
  rateLimit : RateLimitConfig := {}
  defaultStrategy : RoutingStrategy := .smart
  providers : List ProviderConfig := []
  pricing : UnorderedMap Str ModelPricing := ∅
  modelAliases : UnorderedMap Str Str := ∅

/-- The key under which a provider's model is priced. -/
def pricingKey (provider model : Str) : Str := provider ++ byte ':' :: model

/-- The built-in prices, in USD per thousand tokens. -/
def defaultPrices : List ModelPricing :=
  [⟨str "openai", str "gpt-4o", 0.0025, 0.010⟩,
   ⟨str "openai", str "gpt-4o-mini", 0.00015, 0.0006⟩,
   ⟨str "openai", str "gpt-4-turbo", 0.01, 0.03⟩,
   ⟨str "openai", str "o1", 0.015, 0.06⟩,
   ⟨str "openai", str "o1-mini", 0.003, 0.012⟩,
   ⟨str "openai", str "o3-mini", 0.0011, 0.0044⟩,
   ⟨str "anthropic", str "claude-sonnet-4-20250514", 0.003, 0.015⟩,
   ⟨str "anthropic", str "claude-haiku-3-5", 0.0008, 0.004⟩,
   ⟨str "anthropic", str "claude-opus-4", 0.015, 0.075⟩,
   ⟨str "together", str "meta-llama/Llama-3.1-8B-Instruct", 0.00018, 0.00018⟩,
   ⟨str "together", str "meta-llama/Llama-3.1-70B-Instruct", 0.00088, 0.00088⟩,
   ⟨str "together", str "mistralai/Mixtral-8x7B-Instruct-v0.1", 0.0006, 0.0006⟩,
   ⟨str "groq", str "llama-3.1-8b-instant", 0.00005, 0.00008⟩,
   ⟨str "groq", str "llama-3.1-70b-versatile", 0.00059, 0.00079⟩,
   ⟨str "groq", str "mixtral-8x7b-32768", 0.00024, 0.00024⟩]

/-- The built-in aliases. -/
def defaultAliases : List (Str × Str) :=
  [(str "gpt-4o", str "openai:gpt-4o"),
   (str "claude", str "anthropic:claude-sonnet-4-20250514"),
   (str "llama-70b", str "together:meta-llama/Llama-3.1-70B-Instruct"),
   (str "fast", str "groq:llama-3.1-8b-instant"),
   (str "cheap", str "together:meta-llama/Llama-3.1-8B-Instruct"),
   (str "smart", str "anthropic:claude-sonnet-4-20250514")]

/-- `Config::set_default_pricing`. -/
def setDefaultPricing (cfg : GatewayConfig) : GatewayConfig :=
  { cfg with
    pricing := defaultPrices.foldl
      (fun table p => table.insert (pricingKey p.provider p.model) p) cfg.pricing
    modelAliases := defaultAliases.foldl
      (fun table entry => table.insert entry.1 entry.2) cfg.modelAliases }

/-- The configuration `Config`'s constructor leaves behind. -/
def initialConfig : GatewayConfig := setDefaultPricing {}

end Gateway
