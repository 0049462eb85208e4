import LlmGateway.Auth

/-!
# Revoking virtual keys

Keys are stored under the hash of the whole raw key and revoked by a key id
that is cut from its first eight characters, of which six are the constant
prefix `sk-gw-`.  Histories are lists of events, the newest first, from an
empty key table.

`revoked_keys_stay_out` is the law of revocation for every history in which no
revocation names an id that two keys share; `revocation_hits_one_of_two` shows
that without that condition a key survives its own revocation.
-/

namespace Gateway

/-- One call of `create_key`. -/
structure Creation where
  now : Time
  draws : Draws
  owner : Str
  tier : Str
  deriving DecidableEq

namespace Creation

/-- The raw key. -/
def raw (c : Creation) : Str := generateKey c.draws

/-- The record stored for the key. -/
def record (P : Platform) (c : Creation) : VirtualKey :=
  AuthMiddleware.newKey P c.now c.raw c.owner c.tier

/-- The key id that `create_key` returns with the raw key. -/
def keyId (c : Creation) : Str := str "gw-" ++ c.raw.take 8

end Creation

/-- A call on the key table. -/
inductive AuthEvent where
  | create (c : Creation)
  | revoke (walk : Traversal (Σ _ : Str, VirtualKey)) (keyId : Str)
  | authenticate (now : Time) (token : Str)

namespace AuthEvent

def step (P : Platform) (auth : AuthMiddleware) : AuthEvent → AuthMiddleware
  | create c => (auth.createKey P c.now c.draws c.owner c.tier).2
  | revoke walk keyId => (auth.revokeKey walk keyId).2
  | authenticate _ _ => auth

/-- The key table after a history, newest event first. -/
def after (P : Platform) : List AuthEvent → AuthMiddleware
  | [] => {}
  | e :: older => e.step P (after P older)

/-- The keys a history creates, newest first. -/
def creations : List AuthEvent → List Creation
  | [] => []
  | create c :: older => c :: creations older
  | _ :: older => creations older

/-- Some revocation named the id of this key after the key was created. -/
def Revoked (c : Creation) : List AuthEvent → Prop
  | [] => False
  | revoke _ keyId :: older => (keyId = c.keyId ∧ c ∈ creations older) ∨ Revoked c older
  | _ :: older => Revoked c older

/-- No revocation names an id that two keys created before it share. -/
def RevokesOneKey : List AuthEvent → Prop
  | [] => True
  | revoke _ keyId :: older =>
      (∀ c ∈ creations older, ∀ c' ∈ creations older,
        c.keyId = keyId → c'.keyId = keyId → c = c') ∧ RevokesOneKey older
  | _ :: older => RevokesOneKey older

/-- The raw keys of a history are distinct and their hashes do not collide. -/
structure FreshKeys (P : Platform) (history : List AuthEvent) : Prop where
  distinct : ((creations history).map Creation.raw).Nodup
  collisionFree : ∀ c ∈ creations history, ∀ c' ∈ creations history,
    P.hash c.raw = P.hash c'.raw → c.raw = c'.raw

variable {P : Platform}

theorem creations_suffix (e : AuthEvent) (older : List AuthEvent) :
    (creations older).Sublist (creations (e :: older)) := by
  cases e with
  | create c => exact List.sublist_cons_self c _
  | revoke walk keyId => exact List.Sublist.refl _
  | authenticate now token => exact List.Sublist.refl _

theorem FreshKeys.older {e : AuthEvent} {older : List AuthEvent}
    (h : FreshKeys P (e :: older)) : FreshKeys P older where
  distinct := ((creations_suffix e older).map _).nodup h.distinct
  collisionFree c hc c' hc' :=
    h.collisionFree c ((creations_suffix e older).subset hc) c'
      ((creations_suffix e older).subset hc')

/-- Distinct keys of a history are stored under distinct hashes. -/
theorem FreshKeys.eq_of_hashKey {history : List AuthEvent} (h : FreshKeys P history)
    {c c' : Creation} (hc : c ∈ creations history) (hc' : c' ∈ creations history)
    (heq : hashKey P c.raw = hashKey P c'.raw) : c = c' :=
  List.inj_on_of_nodup_map h.distinct hc hc'
    (h.collisionFree c hc c' hc' ((hashKey_inj_iff P).mp heq))

theorem RevokesOneKey.older {e : AuthEvent} {older : List AuthEvent}
    (h : RevokesOneKey (e :: older)) : RevokesOneKey older := by
  cases e with
  | create c => exact h
  | revoke walk keyId => exact h.2
  | authenticate now token => exact h

/-- The key id of the stored record. -/
@[simp] theorem record_keyId (c : Creation) : (c.record P).keyId = c.keyId := by
  unfold Creation.record AuthMiddleware.newKey withTierLimits
  split_ifs <;> rfl

@[simp] theorem record_active (c : Creation) : (c.record P).active = true := by
  unfold Creation.record AuthMiddleware.newKey withTierLimits
  split_ifs <;> rfl

@[simp] theorem record_expiresAt (c : Creation) : (c.record P).expiresAt = 0 := by
  unfold Creation.record AuthMiddleware.newKey withTierLimits
  split_ifs <;> rfl

/-- A key is created active. -/
theorem record_activated (c : Creation) : { c.record P with active := true } = c.record P := by
  have h := record_active (P := P) c
  cases hvk : c.record P
  simp_all

/-- What the key table holds after a history: the record of every created key,
active exactly while the key is not revoked, and nothing else. -/
structure Invariant (P : Platform) (history : List AuthEvent) : Prop where
  stored : ∀ c ∈ creations history, ∃ active,
    (after P history).keys.lookup (hashKey P c.raw) =
      some { c.record P with active := active } ∧ (active = true ↔ ¬ Revoked c history)
  origin : ∀ e ∈ (after P history).keys.entries,
    ∃ c ∈ creations history, e.1 = hashKey P c.raw ∧ e.2.keyId = c.keyId

/-- A revocation finds a key with the id if there is one. -/
theorem revokeKey_cases (walk : Traversal (Σ _ : Str, VirtualKey)) (keyId : Str)
    (auth : AuthMiddleware) :
    ((∀ e ∈ auth.keys.entries, e.2.keyId ≠ keyId) ∧
      auth.revokeKey walk keyId = (false, auth)) ∨
    ∃ e ∈ auth.keys.entries, e.2.keyId = keyId ∧ auth.revokeKey walk keyId =
      (true, { auth with keys := auth.keys.insert e.1 { e.2 with active := false } }) := by
  unfold AuthMiddleware.revokeKey
  cases hf : (walk.order auth.keys.entries).find? fun e => e.2.keyId = keyId with
  | none =>
      refine .inl ⟨fun e he heq => ?_, rfl⟩
      have := List.find?_eq_none.mp hf e ((walk.perm _).mem_iff.mpr he)
      simp [heq] at this
  | some e =>
      refine .inr ⟨e, (walk.perm _).mem_iff.mp (List.mem_of_find?_eq_some hf), ?_, rfl⟩
      simpa using List.find?_some hf

/-- A key cannot have been revoked before it was created. -/
theorem not_revoked_of_not_created {c : Creation} {es : List AuthEvent} (h : c ∉ creations es) :
    ¬ Revoked c es := by
  induction es with
  | nil => exact id
  | cons e es ih =>
      have hes : c ∉ creations es := fun hin => h ((creations_suffix e es).subset hin)
      cases e with
      | create c' => exact ih hes
      | revoke walk keyId => exact fun hrev => hrev.elim (fun hnamed => hes hnamed.2) (ih hes)
      | authenticate now token => exact ih hes

theorem Invariant.after_create {c₀ : Creation} {older : List AuthEvent} (h : Invariant P older)
    (hfresh : FreshKeys P (create c₀ :: older)) : Invariant P (create c₀ :: older) := by
  have hkeys : (after P (create c₀ :: older)).keys =
      (after P older).keys.insert (hashKey P c₀.raw) (c₀.record P) := rfl
  have hnew : ∀ c ∈ creations older, c₀ ≠ c := by
    intro c hc heq
    subst heq
    have hnodup := hfresh.distinct
    simp only [creations, List.map_cons, List.nodup_cons] at hnodup
    exact hnodup.1 (List.mem_map_of_mem hc)
  have hmem : ∀ c ∈ creations older, c ∈ creations (create c₀ :: older) :=
    fun c hc => List.mem_cons_of_mem _ hc
  constructor
  · intro c hc
    rcases List.mem_cons.mp hc with rfl | hc
    · refine ⟨true, ?_, ?_⟩
      · rw [hkeys, AList.lookup_insert]
        rw [record_activated]
      · have hclean : ¬ Revoked c older :=
          not_revoked_of_not_created fun hin => hnew c hin rfl
        exact ⟨fun _ => hclean, fun _ => rfl⟩
    · obtain ⟨active, hlookup, hactive⟩ := h.stored c hc
      refine ⟨active, ?_, hactive⟩
      rw [hkeys, AList.lookup_insert_ne, hlookup]
      intro heq
      exact hnew c hc (hfresh.eq_of_hashKey (hmem c hc) List.mem_cons_self heq).symm
  · intro e he
    rw [hkeys, AList.entries_insert] at he
    rcases List.mem_cons.mp he with rfl | he
    · exact ⟨c₀, List.mem_cons_self, rfl, record_keyId c₀⟩
    · obtain ⟨c, hc, hrest⟩ := h.origin e ((List.kerase_sublist _ _).subset he)
      exact ⟨c, hmem c hc, hrest⟩

theorem Invariant.after_revoke {walk : Traversal (Σ _ : Str, VirtualKey)} {keyId : Str}
    {older : List AuthEvent} (h : Invariant P older)
    (hone : RevokesOneKey (revoke walk keyId :: older)) :
    Invariant P (revoke walk keyId :: older) := by
  rcases revokeKey_cases walk keyId (after P older) with ⟨hnone, hrun⟩ | ⟨e, he, hid, hrun⟩
  · -- no key carries the id, so nothing changes and nothing is named
    have hafter : after P (revoke walk keyId :: older) = after P older := by
      simp [after, step, hrun]
    refine ⟨fun c hc => ?_, by rw [hafter]; exact h.origin⟩
    obtain ⟨active, hlookup, hactive⟩ := h.stored c hc
    refine ⟨active, by rw [hafter]; exact hlookup, ?_⟩
    have hother : keyId ≠ c.keyId := by
      intro heq
      subst heq
      exact hnone _ (AList.mem_lookup_iff.mp (Option.mem_def.mpr hlookup)) (record_keyId c)
    rw [hactive]
    simp [Revoked, hother]
  · obtain ⟨c₀, hc₀, hkey, hkeyId⟩ := h.origin e he
    have hkeys : (after P (revoke walk keyId :: older)).keys =
        (after P older).keys.insert e.1 { e.2 with active := false } := by
      simp [after, step, hrun]
    have hvalue : (after P older).keys.lookup e.1 = some e.2 :=
      Option.mem_def.mp (AList.mem_lookup_iff.mpr he)
    constructor
    · intro c hc
      by_cases hsame : c.keyId = keyId
      · -- the revoked key: the only one with this id
        obtain rfl : c = c₀ := hone.1 c hc c₀ hc₀ hsame (hkeyId.symm.trans hid)
        obtain ⟨active, hlookup, -⟩ := h.stored c hc
        rw [← hkey, hvalue] at hlookup
        have hrevoked : Revoked c (revoke walk keyId :: older) := .inl ⟨hsame.symm, hc⟩
        refine ⟨false, ?_, by simp [hrevoked]⟩
        rw [hkeys, ← hkey, AList.lookup_insert, Option.some.inj hlookup]
      · obtain ⟨active, hlookup, hactive⟩ := h.stored c hc
        refine ⟨active, ?_, by rw [hactive]; simp [Revoked, Ne.symm hsame]⟩
        rw [hkeys, AList.lookup_insert_ne, hlookup]
        intro heq
        rw [heq, hvalue] at hlookup
        have hid' := congrArg VirtualKey.keyId (Option.some.inj hlookup)
        exact hsame ((record_keyId c).symm.trans (hid'.symm.trans hid))
    · intro e' he'
      rw [hkeys, AList.entries_insert] at he'
      rcases List.mem_cons.mp he' with rfl | he'
      · exact ⟨c₀, hc₀, hkey, hkeyId⟩
      · exact h.origin e' ((List.kerase_sublist _ _).subset he')

/-- The invariant holds after every history that meets the conditions. -/
theorem invariant {history : List AuthEvent} (hfresh : FreshKeys P history)
    (hone : RevokesOneKey history) : Invariant P history := by
  induction history with
  | nil => exact ⟨by simp [creations], by simp [after]⟩
  | cons e older ih =>
      have hih := ih hfresh.older hone.older
      cases e with
      | create c => exact hih.after_create hfresh
      | revoke walk keyId => exact hih.after_revoke hone
      | authenticate now token => exact ⟨hih.stored, hih.origin⟩

/-- Authentication of a created key looks up its record, with or without the
header prefix. -/
theorem authenticate_raw (now : Time) (c : Creation) (auth : AuthMiddleware) {token : Str}
    (htoken : token = c.raw ∨ token = str "Bearer " ++ c.raw) {active : Bool}
    (hlookup : auth.keys.lookup (hashKey P c.raw) = some { c.record P with active := active }) :
    auth.authenticate P now token = if active then some (c.record P) else none := by
  have hstrip : stripBearer token = c.raw ∧ token.isEmpty = false := by
    have hraw : c.raw.isEmpty = false := by simp [Creation.raw, generateKey, str]
    rcases htoken with rfl | rfl
    · exact ⟨stripBearer_generateKey c.draws, hraw⟩
    · exact ⟨stripBearer_bearer c.raw, by simp [str]⟩
  unfold AuthMiddleware.authenticate
  rw [hstrip.2, hstrip.1, hlookup]
  cases active with
  | true =>
      rw [record_activated]
      simp
  | false => simp

/-- A revocation after the creation counts, whatever follows. -/
theorem revoked_of_split {c : Creation} {later older : List AuthEvent}
    {walk : Traversal (Σ _ : Str, VirtualKey)} (hc : c ∈ creations older) :
    Revoked c (later ++ revoke walk c.keyId :: older) := by
  induction later with
  | nil => exact .inl ⟨rfl, hc⟩
  | cons e later ih =>
      cases e with
      | create c' => exact ih
      | revoke walk' keyId => exact .inr ih
      | authenticate now token => exact ih

/-- A key that no revocation names is not revoked. -/
theorem not_revoked_of_not_named {c : Creation} {history : List AuthEvent}
    (h : ∀ walk, revoke walk c.keyId ∉ history) : ¬ Revoked c history := by
  induction history with
  | nil => exact id
  | cons e older ih =>
      have hih := ih fun walk hmem => h walk (List.mem_cons_of_mem _ hmem)
      cases e with
      | create c' => exact hih
      | authenticate now token => exact hih
      | revoke walk keyId =>
          intro heq
          rcases heq with ⟨rfl, -⟩ | hrev
          · exact h walk List.mem_cons_self
          · exact hih hrev

theorem creations_split {history later older : List AuthEvent} {e : AuthEvent}
    (h : history = later ++ e :: older) : (creations older).Sublist (creations history) := by
  subst h
  induction later with
  | nil => exact creations_suffix e older
  | cons e' later ih => exact ih.trans (creations_suffix e' _)

/-- **The law of revocation.**  In every history with distinct raw keys whose
hashes do not collide, and whose revocations each name an id that at most one
key created so far carries: a revocation of a created key succeeds and the key
never authenticates again, and a created key whose id is never named
authenticates to its own record. -/
theorem revoked_keys_stay_out (P : Platform) (history : List AuthEvent)
    (hfresh : FreshKeys P history) (hone : RevokesOneKey history) :
    (∀ later walk older c, history = later ++ revoke walk c.keyId :: older →
      c ∈ creations older →
        ((after P older).revokeKey walk c.keyId).1 = true ∧
        ∀ now, (after P history).authenticate P now c.raw = none ∧
          (after P history).authenticate P now (str "Bearer " ++ c.raw) = none) ∧
    (∀ c ∈ creations history, (∀ walk, revoke walk c.keyId ∉ history) →
      ∀ now, (after P history).authenticate P now c.raw = some (c.record P) ∧
        (after P history).authenticate P now (str "Bearer " ++ c.raw) = some (c.record P)) := by
  have hinv := invariant hfresh hone
  constructor
  · intro later walk older c hsplit hc
    have hmem := (creations_split hsplit).subset hc
    obtain ⟨active, hlookup, hactive⟩ := hinv.stored c hmem
    have hoff : active = false := by
      cases active with
      | false => rfl
      | true => exact absurd (hsplit ▸ revoked_of_split hc) (hactive.mp rfl)
    subst hoff
    refine ⟨?_, fun now => ⟨?_, ?_⟩⟩
    · have hsub : ∀ es : List AuthEvent, FreshKeys P (es ++ revoke walk c.keyId :: older) →
          RevokesOneKey (es ++ revoke walk c.keyId :: older) →
          FreshKeys P older ∧ RevokesOneKey older := by
        intro es
        induction es with
        | nil => exact fun hf ho => ⟨hf.older, ho.older⟩
        | cons e es ih => exact fun hf ho => ih hf.older ho.older
      obtain ⟨hf, ho⟩ := hsub later (hsplit ▸ hfresh) (hsplit ▸ hone)
      obtain ⟨_, hl, -⟩ := (invariant hf ho).stored c hc
      rcases revokeKey_cases walk c.keyId (after P older) with ⟨hnone, -⟩ | ⟨_, -, -, hrun⟩
      · exact absurd (record_keyId c)
          (hnone _ (AList.mem_lookup_iff.mp (Option.mem_def.mpr hl)))
      · rw [hrun]
    · exact authenticate_raw now c _ (.inl rfl) hlookup
    · exact authenticate_raw now c _ (.inr rfl) hlookup
  · intro c hc hnamed now
    obtain ⟨active, hlookup, hactive⟩ := hinv.stored c hc
    have hon : active = true := hactive.mpr (not_revoked_of_not_named hnamed)
    subst hon
    exact ⟨authenticate_raw now c _ (.inl rfl) hlookup,
      authenticate_raw now c _ (.inr rfl) hlookup⟩

/-- Two keys that differ in their last character only. -/
def firstKey : Creation := ⟨0, firstDraws, str "alice", str "free"⟩

def secondKey : Creation :=
  ⟨0, firstDraws.set 31 ⟨1, by decide⟩, str "bob", str "free"⟩

/-- A key whose id is its own. -/
def otherKey : Creation := ⟨0, firstDraws.set 0 ⟨1, by decide⟩, str "carol", str "team"⟩

/-- Two keys of different ids, of which one is revoked. -/
def oneRevoked : List AuthEvent :=
  [revoke (.listed _) firstKey.keyId, create otherKey, authenticate 3 firstKey.raw,
    create firstKey]

/-- The revoked key is out, and the other one keeps its record. -/
theorem revoked_keys_stay_out_of_two :
    (∀ now, (after (cLocale fnv1a) oneRevoked).authenticate (cLocale fnv1a) now firstKey.raw =
        none) ∧
      ∀ now, (after (cLocale fnv1a) oneRevoked).authenticate (cLocale fnv1a) now
        (str "Bearer " ++ otherKey.raw) = some (otherKey.record (cLocale fnv1a)) := by
  have hids : otherKey.keyId ≠ firstKey.keyId := by decide
  have hraws : otherKey.raw ≠ firstKey.raw := fun heq => hids (by rw [Creation.keyId, heq]; rfl)
  have hhashes : fnv1a otherKey.raw ≠ fnv1a firstKey.raw := by decide +kernel
  have hfresh : FreshKeys (cLocale fnv1a) oneRevoked := by
    refine ⟨by simpa [oneRevoked, creations] using hraws, ?_⟩
    simp [oneRevoked, creations, cLocale, hhashes, hhashes.symm]
  have hone : RevokesOneKey oneRevoked := by
    simp [oneRevoked, RevokesOneKey, creations, hids]
  have hlaw := revoked_keys_stay_out (cLocale fnv1a) oneRevoked hfresh hone
  constructor
  · intro now
    exact ((hlaw.1 [] (.listed _)
      [create otherKey, authenticate 3 firstKey.raw, create firstKey] firstKey rfl
      (by simp [creations])).2 now).1
  · intro now
    refine (hlaw.2 otherKey (by simp [oneRevoked, creations]) (fun walk hnamed => ?_) now).2
    simp [oneRevoked, hids] at hnamed

/-- Two keys share an id, and revoking it leaves one of them in. -/
theorem revocation_hits_one_of_two :
    ¬ ∀ (P : Platform) (history : List AuthEvent), FreshKeys P history →
      ∀ later walk older c, history = later ++ revoke walk c.keyId :: older →
        c ∈ creations older → ((after P older).revokeKey walk c.keyId).1 = true →
          ∀ now, (after P history).authenticate P now c.raw = none := by
  intro h
  have hfresh : FreshKeys (cLocale fnv1a)
      [revoke (.listed _) firstKey.keyId, create secondKey, create firstKey] :=
    ⟨by decide +kernel, by decide +kernel⟩
  have hout := h (cLocale fnv1a) _ hfresh [] (.listed _) [create secondKey, create firstKey]
    firstKey rfl (by simp [creations]) (by decide) 0
  have hin : ((after (cLocale fnv1a) [revoke (.listed _) firstKey.keyId, create secondKey,
      create firstKey]).authenticate (cLocale fnv1a) 0 firstKey.raw).isSome = true := by
    decide +kernel
  rw [hout] at hin
  cases hin

end AuthEvent

end Gateway
