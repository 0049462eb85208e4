import LlmGateway.Config

/-!
# Virtual keys

`src/middleware/auth.cpp`.  The random draws of `generate_key`, the clock and
the order in which `revoke_key` walks the key table are inputs.
-/

namespace Gateway

/-- The state of `AuthMiddleware`: key hash to virtual key. -/
structure AuthMiddleware where
  keys : UnorderedMap Str VirtualKey := ∅

/-- The 62 characters a key is drawn from. -/
def charset : Str := str "abcdefghijklmnopqrstuvwxyzABCDEFGHIJKLMNOPQRSTUVWXYZ0123456789"

/-- The 32 draws that make one key. -/
abbrev Draws := Vector (Fin 62) 32

/-- The draws that pick the first character every time. -/
def firstDraws : Draws := Vector.replicate 32 0

/-- `AuthMiddleware::generate_key`. -/
def generateKey (draws : Draws) : Str :=
  str "sk-gw-" ++ draws.toList.map fun i => charset.getD i 0

/-- `AuthMiddleware::hash_key`: sixteen hexadecimal digits. -/
def hashKey (P : Platform) (rawKey : Str) : Str :=
  Digits.padded 16 (toHex (P.hash rawKey).toNat)

/-- Strip the `Bearer ` prefix. -/
def stripBearer (token : Str) : Str :=
  if token.take 7 = str "Bearer " then token.drop 7 else token

/-- The limits of a tier; an unknown tier keeps the defaults of `VirtualKey`. -/
def withTierLimits (tier : Str) (vk : VirtualKey) : VirtualKey :=
  if tier = str "free" then
    { vk with rateLimitRpm := 20, rateLimitTpm := 40000, budgetUsd := 5 }
  else if tier = str "pro" then
    { vk with rateLimitRpm := 120, rateLimitTpm := 500000, budgetUsd := 100 }
  else if tier = str "team" then
    { vk with rateLimitRpm := 600, rateLimitTpm := 2000000, budgetUsd := 1000 }
  else if tier = str "enterprise" then
    { vk with rateLimitRpm := 6000, rateLimitTpm := 20000000, budgetUsd := 0 }
  else vk

namespace AuthMiddleware

/-- `AuthMiddleware::authenticate`. -/
def authenticate (P : Platform) (now : Time) (bearerToken : Str) (auth : AuthMiddleware) :
    Option VirtualKey :=
  if bearerToken.isEmpty then none
  else
    match auth.keys.lookup (hashKey P (stripBearer bearerToken)) with
    | none => none
    | some key =>
        if !key.active then none
        else if key.expiresAt ≠ 0 ∧ now > key.expiresAt then none
        else some key

/-- The record `create_key` stores for the raw key. -/
def newKey (P : Platform) (now : Time) (raw owner tier : Str) : VirtualKey :=
  withTierLimits tier
    { keyId := str "gw-" ++ raw.take 8
      keyHash := hashKey P raw
      owner := owner
      tier := tier
      createdAt := now }

/-- `AuthMiddleware::create_key`: the key returned carries the raw key in place
of its hash. -/
def createKey (P : Platform) (now : Time) (draws : Draws) (owner tier : Str)
    (auth : AuthMiddleware) : VirtualKey × AuthMiddleware :=
  let raw := generateKey draws
  let vk := newKey P now raw owner tier
  ({ vk with keyHash := raw }, { auth with keys := auth.keys.insert (hashKey P raw) vk })

/-- `AuthMiddleware::revoke_key`: the first key with that id, in the order of
the walk. -/
def revokeKey (walk : Traversal (Σ _ : Str, VirtualKey)) (keyId : Str)
    (auth : AuthMiddleware) : Bool × AuthMiddleware :=
  match (walk.order auth.keys.entries).find? fun e => e.2.keyId = keyId with
  | none => (false, auth)
  | some e => (true, { auth with keys := auth.keys.insert e.1 { e.2 with active := false } })

/-- `AuthMiddleware::list_keys`. -/
def listKeys (walk : Traversal (Σ _ : Str, VirtualKey)) (auth : AuthMiddleware) :
    List VirtualKey :=
  (walk.order auth.keys.entries).map fun e => { e.2 with keyHash := str "***" }

/-- `AuthMiddleware::is_admin`: the header itself, without a prefix taken off. -/
def isAdmin (cfg : ServerConfig) (token : Str) : Bool :=
  !cfg.adminKey.isEmpty && token = cfg.adminKey

end AuthMiddleware

theorem hashKey_inj_iff (P : Platform) {a b : Str} :
    hashKey P a = hashKey P b ↔ P.hash a = P.hash b := by
  unfold hashKey toHex
  constructor
  · intro h
    exact UInt64.toNat_inj.mp
      (Digits.padded_numeral_injective (by decide) (by decide) 16 h)
  · intro h
    rw [h]

/-- A raw key is not empty and does not look like a bearer header. -/
theorem stripBearer_generateKey (draws : Draws) :
    stripBearer (generateKey draws) = generateKey draws := by
  unfold stripBearer
  rw [if_neg]
  intro h
  have hhead := congrArg List.head? h
  have hlit : str "sk-gw-" = [115, 107, 45, 103, 119, 45] := by decide
  simp only [generateKey, hlit] at hhead
  revert hhead
  simp [str]
  decide

/-- The header form of a raw key strips to the raw key. -/
theorem stripBearer_bearer (raw : Str) : stripBearer (str "Bearer " ++ raw) = raw := by
  have hlen : (str "Bearer ").length = 7 := by decide
  unfold stripBearer
  rw [if_pos, ← hlen, List.drop_left]
  rw [← hlen, List.take_left]

end Gateway
