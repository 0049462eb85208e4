import LlmGateway.KeyRevocation
import LlmGateway.Permissions
import LlmGateway.Routing

/-!
# What only admins can do

The admin endpoints compare the `Authorization` header with the configured admin
key before they do anything else.  However requests interleave, no one without that
key changes the table of keys, the routing strategy or the cache, and every such
attempt is answered with 403 (`admin_only`).  So every key that the gateway accepts
was made for, and handed to, a client with the admin key (`accepted_key`).
-/

namespace Gateway

open Interleaving Prog

/-! ## Who may do what -/

/-- The methods that only admins may have called. -/
def Op.privileged : Op → Bool
  | .createKey .. | .listKeys | .revokeKey _ | .setStrategy _ | .cacheClear | .getSummary => true
  | _ => false

/-- The request presents the admin key to an admin endpoint. -/
def Request.Authorized (cfg : ServerConfig) (request : Request) : Prop :=
  ∃ token, request.credentials = some token ∧ AuthMiddleware.isAdmin cfg token = true

/-- What an admin endpoint answers to everybody else. -/
def forbidden : Answer := .of (.response (Handler.adminError (str "Admin key required")))

/-- The gateway checks a token against its configuration. -/
def ChecksAdmin (cfg : ServerConfig) : Event Op Op.Res → Prop
  | ⟨.isAdmin token, admin⟩ => admin = AuthMiddleware.isAdmin cfg token
  | _ => True

theorem lawful_admin (P : Platform) (cfg : GatewayConfig) :
    Lawful (Op.exec P) (fun _ => True) (fun s => s.config = cfg) (ChecksAdmin cfg.server) where
  keeps e o s _ hs := (o.exec_config P e s).trans hs
  answers e o s _ hs := by
    cases o with
    | isAdmin token => exact congrArg (fun c => AuthMiddleware.isAdmin c.server token) hs
    | _ => trivial

/-- Only an authorized request makes privileged calls, and any other one to an admin
endpoint is refused. -/
structure Guarded (cfg : ServerConfig) (request : Request) (tr : List (Event Op Op.Res))
    (x : Option Answer) : Prop where
  calls : ∀ ev ∈ tr, ev.1.privileged = true → request.Authorized cfg
  refused : request.credentials.isSome = true → ¬ request.Authorized cfg →
    ∀ answer ∈ x, answer = forbidden

section
variable {cfg : ServerConfig} {request : Request}

/-- An admin handler, whatever it does for admins. -/
theorem asAdmin_guarded {http : HttpRequest} (hcred : request.credentials = some http.authorization)
    (p : Program Reply) :
    Meets (ChecksAdmin cfg) (Answer.of <$> Handler.asAdmin http p) (Guarded cfg request) := by
  by_cases hadmin : AuthMiddleware.isAdmin cfg http.authorization = true
  · have hauth : request.Authorized cfg := ⟨http.authorization, hcred, hadmin⟩
    exact Meets.of_forall fun tr x => ⟨fun _ _ _ => hauth, fun _ hnot => absurd hauth hnot⟩
  · refine ⟨⟨by simp, fun _ _ _ hx => by cases hx⟩, fun (admin : Bool) hcheck => ?_⟩
    have hrefused : admin = false := hcheck.trans (by simpa using hadmin)
    subst hrefused
    refine ⟨fun ev hev hprivileged => ?_, fun _ _ answer hanswer => ?_⟩
    · rw [List.mem_singleton.mp hev] at hprivileged
      cases hprivileged
    · cases hanswer
      rfl

/-- A handler that makes no privileged call. -/
theorem guarded_of_uses {p : Program Answer} (huses : Uses (fun o => o.privileged = false) p)
    (hcred : request.credentials = none) : Meets (ChecksAdmin cfg) p (Guarded cfg request) := by
  refine Meets.mono (After.nil_iff.mp (After.of_uses (J := fun tr =>
    ∀ ev ∈ tr, ev.1.privileged = false) huses (by simp) fun tr o r ho h ev hev => ?_))
    fun tr x _ h => ⟨fun ev hev hprivileged => ?_, fun hsome => ?_⟩
  · rcases List.mem_append.mp hev with hev | hev
    · exact h ev hev
    · rw [List.mem_singleton.mp hev]
      exact ho
  · rw [h ev hev] at hprivileged
    cases hprivileged
  · rw [hcred] at hsome
    cases hsome

end

theorem Request.handler_guarded (P : Platform) (startTime : Time) (cfg : ServerConfig)
    (request : Request) :
    Meets (ChecksAdmin cfg) (request.handler P startTime) (Guarded cfg request) := by
  have huses := request.handler_uses P startTime
  have hquiet : request.credentials = none →
      (∀ o, request.allows o = true → o.privileged = false) →
        Meets (ChecksAdmin cfg) (request.handler P startTime) (Guarded cfg request) :=
    fun hcred hallows => guarded_of_uses (huses.mono hallows) hcred
  cases request with
  | createKey http | listKeys http | revokeKey http keyId | setRouting http | clearCache http
  | costs http => exact asAdmin_guarded rfl _
  | _ =>
      refine hquiet rfl fun o ho => ?_
      cases o <;> first | rfl | cases ho

/-- **Only admins change what admins manage.**  In every order of the steps, a
privileged call is made for a request that presents the admin key; any other request
to an admin endpoint that is answered is answered with 403; and without an authorized
request the keys and the strategy are those of the start. -/
theorem admin_only {ι : Type} [DecidableEq ι] (P : Platform) (startTime : Time) (s : Server)
    (requests : ι → Request) (sched : List (ι × Moment)) :
    (∀ en ∈ (Service.after P startTime s requests sched).log, en.event.1.privileged = true →
        (requests en.thread).Authorized s.config.server) ∧
      (∀ i answer, (requests i).credentials.isSome = true →
        ¬ (requests i).Authorized s.config.server →
          (Service.after P startTime s requests sched).threads i = ret answer →
            answer = forbidden) ∧
      ((∀ i, ¬ (requests i).Authorized s.config.server) →
        (Service.after P startTime s requests sched).shared.auth = s.auth ∧
          (Service.after P startTime s requests sched).shared.router.strategy =
            s.router.strategy) := by
  have hrun := Service.explained P startTime s requests sched
  have hanswers := (hrun.lawful (lawful_admin P s.config) (fun i => uses_all _) rfl).2
  have hguarded := fun i =>
    hrun.meets hanswers ((requests i).handler_guarded P startTime s.config.server)
  have hcalls : ∀ en ∈ (Service.after P startTime s requests sched).log,
      en.event.1.privileged = true → (requests en.thread).Authorized s.config.server :=
    fun en hen => (hguarded en.thread).calls en.event (mem_traceOf.mpr ⟨en, hen, rfl, rfl⟩)
  refine ⟨hcalls, fun i answer hsome hnot hdone => ?_, fun hnone => ?_⟩
  · have hrefused := (hguarded i).refused hsome hnot answer
    rw [hdone] at hrefused
    exact hrefused rfl
  · have hkeeps : ∀ en ∈ (Service.after P startTime s requests sched).log, ∀ t : Server,
        t.auth = s.auth ∧ t.router.strategy = s.router.strategy →
          (en.event.1.exec P en.input t).2.auth = s.auth ∧
            (en.event.1.exec P en.input t).2.router.strategy = s.router.strategy := by
      intro en hen t ht
      have hplain : en.event.1.privileged ≠ true := fun h => hnone en.thread (hcalls en hen h)
      rw [Op.exec_auth, Op.exec_router]
      cases hop : en.event.1 with
      | createKey owner tier => exact absurd (by rw [hop]; rfl) hplain
      | revokeKey keyId => exact absurd (by rw [hop]; rfl) hplain
      | setStrategy strategy => exact absurd (by rw [hop]; rfl) hplain
      | route req => exact ⟨ht.1, (Router.route_router _ _ _).2.trans ht.2⟩
      | _ => exact ht
    exact hrun.replays.invariant ⟨rfl, rfl⟩ hkeeps

/-! ## Where the keys come from -/

/-- A new key is created only for `POST /admin/keys`, and handed over at once. -/
def HandsOver (request : Request) (tr : List (Event Op Op.Res)) (x : Option Answer) : Prop :=
  ∀ owner tier key, (⟨.createKey owner tier, key⟩ : Event Op Op.Res) ∈ tr →
    (∃ http, request = .createKey http) ∧ x = some (.of (.response (Handler.createdKey key)))

theorem Request.handler_handsOver (P : Platform) (startTime : Time) (request : Request) :
    Meets (fun _ => True) (request.handler P startTime) (HandsOver request) := by
  have huses := request.handler_uses P startTime
  have hquiet : (∀ owner tier, request.allows (.createKey owner tier) = false) →
      Meets (fun _ => True) (request.handler P startTime) (HandsOver request) := by
    intro hcreate
    refine Meets.mono (After.nil_iff.mp (After.of_uses (J := fun tr =>
      ∀ ev ∈ tr, request.allows ev.1 = true) huses (by simp) fun tr o r ho h ev hev => ?_))
      fun tr x _ h owner tier key hmem => ?_
    · rcases List.mem_append.mp hev with hev | hev
      · exact h ev hev
      · rw [List.mem_singleton.mp hev]
        exact ho
    · have hallowed := h _ hmem
      rw [hcreate] at hallowed
      cases hallowed
  cases request with
  | createKey http =>
      have hempty : ∀ x, HandsOver (.createKey http) [] x := fun x owner tier key hmem => by
        cases hmem
      have hcheck : ∀ (admin : Bool) x,
          HandsOver (.createKey http) [⟨.isAdmin http.authorization, admin⟩] x :=
        fun admin x owner tier key hmem => by
          cases List.mem_singleton.mp hmem
      refine ⟨hempty none, fun (admin : Bool) _ => ?_⟩
      cases admin with
      | false => exact hcheck false _
      | true =>
          change Meets _ (Answer.of <$> Handler.withBody http _) _
          unfold Handler.withBody
          split
          · exact hcheck true _
          · next body _ =>
              cases hread : Handler.readOwner body with
              | error e =>
                  simp only [hread]
                  exact hcheck true _
              | ok named =>
                  simp only [hread]
                  refine ⟨hcheck true none, fun (key : VirtualKey) _ owner tier key' hmem => ?_⟩
                  rcases List.mem_cons.mp hmem with heq | hmem
                  · cases heq
                  · cases List.mem_singleton.mp hmem
                    exact ⟨⟨http, rfl⟩, rfl⟩
  | _ => exact hquiet fun _ _ => rfl

section
variable {ι : Type} {P : Platform}

/-- Every stored key was created by a call; the active ones are as they were
created. -/
def KeysCreated (P : Platform) (log : List (Entry ι Moment Op Op.Res)) (s : Server) : Prop :=
  ∀ h vk, s.auth.keys.lookup h = some vk →
    ∃ en ∈ log, ∃ owner tier key, en.event = ⟨.createKey owner tier, key⟩ ∧
      h = hashKey P key.keyHash ∧ (vk.active = true → vk = { key with keyHash := h })

theorem KeysCreated.append {log : List (Entry ι Moment Op Op.Res)} {s t : Server}
    (hs : KeysCreated P log s) (en : Entry ι Moment Op Op.Res) (ht : t.auth = s.auth) :
    KeysCreated P (log ++ [en]) t := by
  intro h vk hlookup
  rw [ht] at hlookup
  obtain ⟨en', hen', hrest⟩ := hs h vk hlookup
  exact ⟨en', List.mem_append_left _ hen', hrest⟩

/-- The key that `create_key` stores is the one it returns, under its hash. -/
theorem newKey_created (now : Time) (raw owner tier : Str) :
    AuthMiddleware.newKey P now raw owner tier =
      { ({ AuthMiddleware.newKey P now raw owner tier with keyHash := raw } : VirtualKey) with
        keyHash := hashKey P raw } := by
  unfold AuthMiddleware.newKey withTierLimits
  split_ifs <;> rfl

theorem KeysCreated.exec {log : List (Entry ι Moment Op Op.Res)} {s : Server}
    (hs : KeysCreated P log s) (i : ι) (e : Moment) (o : Op) :
    KeysCreated P (log ++ [⟨i, e, ⟨o, (o.exec P e s).1⟩⟩]) (o.exec P e s).2 := by
  cases o with
  | createKey owner tier =>
      intro h vk hlookup
      by_cases hnew : h = hashKey P (generateKey e.draws)
      · subst hnew
        cases (AList.lookup_insert _).symm.trans hlookup
        refine ⟨_, List.mem_append_right _ List.mem_cons_self, owner, tier, _, rfl, rfl,
          fun _ => newKey_created e.now (generateKey e.draws) owner tier⟩
      · have hold : s.auth.keys.lookup h = some vk :=
          (AList.lookup_insert_ne hnew).symm.trans hlookup
        obtain ⟨en, hen, hrest⟩ := hs h vk hold
        exact ⟨en, List.mem_append_left _ hen, hrest⟩
  | revokeKey keyId =>
      rcases AuthEvent.revokeKey_cases e.keys keyId s.auth with ⟨-, hrun⟩ | ⟨found, hmem, -, hrun⟩
      · exact hs.append _ (congrArg Prod.snd hrun)
      · intro h vk hlookup
        have hauth : (Op.exec P e (.revokeKey keyId) s).2.auth =
            { s.auth with keys := s.auth.keys.insert found.1 { found.2 with active := false } } :=
          congrArg Prod.snd hrun
        rw [hauth] at hlookup
        by_cases hfound : h = found.1
        · subst hfound
          cases (AList.lookup_insert _).symm.trans hlookup
          have hstored : s.auth.keys.lookup found.1 = some found.2 :=
            AList.mem_lookup_iff.mpr hmem
          obtain ⟨en, hen, owner, tier, key, hevent, hhash, -⟩ := hs _ _ hstored
          exact ⟨en, List.mem_append_left _ hen, owner, tier, key, hevent, hhash, nofun⟩
        · have hold : s.auth.keys.lookup h = some vk :=
            (AList.lookup_insert_ne hfound).symm.trans hlookup
          obtain ⟨en, hen, hrest⟩ := hs h vk hold
          exact ⟨en, List.mem_append_left _ hen, hrest⟩
  | cachePut req resp =>
      refine hs.append _ ?_
      rw [Op.exec_auth]
  | _ => exact hs.append _ rfl

end

/-- **Whatever the gateway accepts, an admin was given.**  From the start of a server
and in every order of the steps, if a token authenticates, then a request with the
admin key has been answered with a new key of the same hash, and what the token
stands for is that key. -/
theorem accepted_key {ι : Type} [DecidableEq ι] (P : Platform) (startTime : Time)
    (cfg : GatewayConfig) (requests : ι → Request) (sched : List (ι × Moment)) (now : Time)
    (token : Str) {vk : VirtualKey}
    (hauth : (Service.after P startTime (.init cfg) requests sched).shared.auth.authenticate P now
      token = some vk) :
    ∃ i http key, requests i = .createKey http ∧
      AuthMiddleware.isAdmin cfg.server http.authorization = true ∧
      (Service.after P startTime (.init cfg) requests sched).threads i =
        ret (.of (.response (Handler.createdKey key))) ∧
      P.hash (stripBearer token) = P.hash key.keyHash ∧
      vk = { key with keyHash := hashKey P key.keyHash } := by
  have hrun := Service.explained P startTime (.init cfg) requests sched
  have hanswers := (hrun.lawful (lawful_admin P cfg) (fun i => uses_all _) rfl).2
  have hcreated : KeysCreated P (Service.after P startTime (.init cfg) requests sched).log
      (Service.after P startTime (.init cfg) requests sched).shared :=
    hrun.replays.induction (J := KeysCreated P) (fun h vk hlookup => by cases hlookup)
      fun past i e o t hs => hs.exec i e o
  obtain ⟨hlookup, hactive⟩ : (Service.after P startTime (.init cfg) requests
      sched).shared.auth.keys.lookup (hashKey P (stripBearer token)) = some vk ∧
        vk.active = true := by
    unfold AuthMiddleware.authenticate at hauth
    split at hauth
    · cases hauth
    · split at hauth
      · cases hauth
      · next key hkey =>
          split_ifs at hauth with hinactive hexpired
          cases hauth
          exact ⟨hkey, by simpa using hinactive⟩
  obtain ⟨en, hen, owner, tier, key, hevent, hhash, hkey⟩ := hcreated _ _ hlookup
  have hmem : (⟨.createKey owner tier, key⟩ : Event Op Op.Res) ∈ traceOf en.thread
      (Service.after P startTime (.init cfg) requests sched).log :=
    mem_traceOf.mpr ⟨en, hen, rfl, hevent⟩
  obtain ⟨⟨http, hrequest⟩, hdone⟩ := hrun.guarantees
    ((requests en.thread).handler_handsOver P startTime) owner tier key hmem
  obtain ⟨presented, hcred, hadmin⟩ := (hrun.meets hanswers
    ((requests en.thread).handler_guarded P startTime cfg.server)).calls _ hmem rfl
  rw [hrequest] at hcred
  cases hcred
  refine ⟨en.thread, http, key, hrequest, hadmin, ?_, (hashKey_inj_iff P).mp hhash, ?_⟩
  · cases hthread : (Service.after P startTime (.init cfg) requests sched).threads en.thread with
    | ret answer =>
        rw [hthread] at hdone
        exact congrArg ret (Option.some.inj hdone)
    | call o k =>
        rw [hthread] at hdone
        cases hdone
  · rw [← hhash]
    exact hkey hactive

/-- A server with an admin key. -/
def rootConfig : GatewayConfig where
  server := { adminKey := str "root" }

/-- A request for a key with the default owner and tier. -/
def keyRequest (_ : Unit) : Request := .createKey ⟨str "root", some (.object [])⟩

/-- Two turns of its thread, in which the key is drawn. -/
def keyTurns : List (Unit × Moment) :=
  List.replicate 2 ((), { upstream := fun _ _ _ => ⟨.failed [], 0⟩ })

theorem accepted_key_first :
    ∃ i http key, keyRequest i = .createKey http ∧
      AuthMiddleware.isAdmin rootConfig.server http.authorization = true ∧
      (Service.after (cLocale fnv1a) 0 (.init rootConfig) keyRequest keyTurns).threads i =
        ret (.of (.response (Handler.createdKey key))) ∧
      fnv1a (stripBearer (str "Bearer " ++ generateKey firstDraws)) = fnv1a key.keyHash ∧
      AuthMiddleware.newKey (cLocale fnv1a) 0 (generateKey firstDraws) (str "anonymous")
          (str "free") =
        { key with keyHash := hashKey (cLocale fnv1a) key.keyHash } :=
  accepted_key (cLocale fnv1a) 0 rootConfig keyRequest keyTurns 0
    (str "Bearer " ++ generateKey firstDraws) (by decide +kernel)

end Gateway
