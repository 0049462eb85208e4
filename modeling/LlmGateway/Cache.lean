import LlmGateway.Config

/-!
# The response cache

`src/cache.cpp`: a linked list of entries, the most recently used first, and a
hash index from keys to list iterators.  A list node carries an identity and
an iterator is that identity, so erasing a node and inserting an entry with
the same key are visible as different iterators.

An operation holds the cache's mutex and reads the clock at one time `now`.
`put` answers `none` when its eviction loop never ends.
-/

namespace Gateway

/-- `Cache::CacheEntry`. -/
structure CacheEntry where
  key : Str
  response : ChatResponse
  expiresAt : Time
  lastAccessed : Time

/-- A node of `entries_`; an iterator to it is its identity. -/
structure Node where
  id : Nat
  entry : CacheEntry

/-- The state of `Cache`.  `nextId` is the identity of the next node. -/
structure Cache where
  entries : List Node := []
  index : UnorderedMap Str Nat := ∅
  maxSize : Nat := 10000
  ttlSeconds : ℤ := 3600
  hits : UInt64 := 0
  misses : UInt64 := 0
  evictions : UInt64 := 0
  savingsUsd : Double := 0
  nextId : Nat := 0

/-- `Cache::Stats`. -/
structure CacheStats where
  entries : Nat
  maxSize : Nat
  hits : UInt64
  misses : UInt64
  evictions : UInt64
  savingsUsd : Double
  deriving DecidableEq, Repr

/-- The text that `Cache::make_key` hashes. -/
def keyText (cfg : CacheConfig) (req : ChatRequest) : Str :=
  let key := req.model ++ str "|"
  let key := req.messages.foldl
    (fun key msg => key ++ (msg.role ++ str ":" ++ msg.content ++ str "|")) key
  if cfg.matchParams then
    let key := key ++ (str "t=" ++ toStringDouble req.temperature ++ str "|")
    key ++ (str "m=" ++ toStringInt req.maxTokens)
  else key

/-- `Cache::make_key`. -/
def makeKey (P : Platform) (cfg : CacheConfig) (req : ChatRequest) : Str :=
  toStringNat (P.hash (keyText cfg req)).toNat

/-- What a hit returns for the stored response. -/
def ChatResponse.asHit (resp : ChatResponse) (req : ChatRequest) : ChatResponse :=
  { resp with fromCache := true, requestId := req.requestId, latencyMs := 0 }

namespace Cache

/-- The state the constructor leaves behind. -/
def init (cfg : CacheConfig) : Cache :=
  { maxSize := toSizeT cfg.maxEntries, ttlSeconds := cfg.ttlSeconds }

/-- The entry an iterator refers to; `none` for a dangling one. -/
def deref (c : Cache) (it : Nat) : Option CacheEntry :=
  (c.entries.find? fun n => n.id = it).map Node.entry

/-- `entries_.erase(it)`. -/
def eraseNode (it : Nat) (entries : List Node) : List Node :=
  entries.filter fun n => n.id ≠ it

/-- `Cache::get`.  A dangling iterator would be undefined behaviour. -/
def get (P : Platform) (cfg : CacheConfig) (now : Time) (req : ChatRequest) (c : Cache) :
    Option ChatResponse × Cache :=
  if !cfg.enabled then (none, { c with misses := c.misses + 1 })
  else
    let key := makeKey P cfg req
    match c.index.lookup key with
    | none => (none, { c with misses := c.misses + 1 })
    | some it =>
        match c.deref it with
        | none => (none, c)
        | some entry =>
            if now > entry.expiresAt then
              (none, { c with
                entries := eraseNode it c.entries
                index := c.index.erase key
                misses := c.misses + 1 })
            else
              (some (entry.response.asHit req), { c with
                entries := ⟨it, { entry with lastAccessed := now }⟩ :: eraseNode it c.entries
                hits := c.hits + 1
                savingsUsd := c.savingsUsd + entry.response.costUsd })

/-- `Cache::evict_lru`. -/
def evictLru (c : Cache) : Cache :=
  match c.entries.getLast? with
  | none => c
  | some back =>
      { c with
        index := c.index.erase back.entry.key
        entries := c.entries.dropLast
        evictions := c.evictions + 1 }

/-- `while (entries_.size() >= max_size_) evict_lru();`, given so many turns. -/
def evictToCapacity : Nat → Cache → Option Cache
  | turns, c =>
      if c.entries.length < c.maxSize then some c
      else
        match turns with
        | 0 => none
        | turns + 1 => evictToCapacity turns c.evictLru

/-- The loop of `Cache::evict_expired`: `before` holds the nodes in front of the
iterator, the nearest first, and `rest` the nodes from it to the end. -/
def evictExpiredLoop (now : Time) : List Node → List Node → Cache → Cache
  | [], rest, c => { c with entries := rest }
  | n :: before, rest, c =>
      if now > n.entry.expiresAt then
        evictExpiredLoop now before rest
          { c with index := c.index.erase n.entry.key, evictions := c.evictions + 1 }
      else evictExpiredLoop now before (n :: rest) c

/-- `Cache::evict_expired`. -/
def evictExpired (now : Time) (c : Cache) : Cache :=
  evictExpiredLoop now c.entries.reverse [] c

/-- Drop the entry stored under a key, if there is one. -/
def forget (key : Str) (c : Cache) : Cache :=
  match c.index.lookup key with
  | none => c
  | some it => { c with entries := eraseNode it c.entries, index := c.index.erase key }

/-- Insert an entry at the front and index it. -/
def pushFront (entry : CacheEntry) (c : Cache) : Cache :=
  { c with
    entries := ⟨c.nextId, entry⟩ :: c.entries
    index := c.index.insert entry.key c.nextId
    nextId := c.nextId + 1 }

/-- `Cache::put`.  An empty list has nothing left to evict, so the loop has
returned after as many turns as there are entries, or never does. -/
def put (P : Platform) (cfg : CacheConfig) (now : Time) (req : ChatRequest)
    (resp : ChatResponse) (c : Cache) : Option Cache :=
  if !cfg.enabled then some c
  else if req.stream then some c
  else
    let c := { c with maxSize := toSizeT cfg.maxEntries, ttlSeconds := cfg.ttlSeconds }
    let key := makeKey P cfg req
    let c := c.forget key
    match evictToCapacity c.entries.length c with
    | none => none
    | some c =>
        let c := if c.entries.length > c.maxSize / 2 then c.evictExpired now else c
        some (c.pushFront ⟨key, resp, now + seconds c.ttlSeconds, now⟩)

/-- `Cache::clear`. -/
def clear (c : Cache) : Cache := { c with entries := [], index := ∅ }

/-- `Cache::get_stats`. -/
def getStats (c : Cache) : CacheStats :=
  ⟨c.entries.length, c.maxSize, c.hits, c.misses, c.evictions, c.savingsUsd⟩

end Cache

end Gateway
