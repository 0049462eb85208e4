import LlmGateway.Cache
import LlmGateway.Lib.Separated

/-!
# What a cache key identifies

The key text joins the model, one `role:content` field per message and the two
parameters with bars, and escapes nothing.  A cache hit therefore tells apart
two requests only up to the pieces between bars: a bar inside a model or a
message may be read as a boundary, a colon inside a role as the end of the
role, and a temperature is only known to six decimals.

`makeKey_identifies_iff` says exactly when the key of two requests identifies
their contents; `makeKey_merges_messages` is a collision of two conversations.
-/

namespace Gateway

/-- The field a message contributes to the key text. -/
def Message.field (msg : Message) : Str := msg.role ++ str ":" ++ msg.content

/-- The free-text fields of a request in the order of the key text. -/
def ChatRequest.fields (req : ChatRequest) : List Str :=
  req.model :: req.messages.map Message.field

/-- The pieces of the free text between bars. -/
def ChatRequest.pieces (req : ChatRequest) : List Str :=
  req.fields.flatMap (List.splitOn (byte '|'))

/-- How the pieces are grouped: the number of pieces in each field, and the
length of each role. -/
def ChatRequest.layout (req : ChatRequest) : List Nat × List Nat :=
  (req.fields.map fun f => (f.splitOn (byte '|')).length,
    req.messages.map fun msg => msg.role.length)

/-- The two requests have the same model, messages and parameters. -/
def SameContent (r₁ r₂ : ChatRequest) : Prop :=
  r₁.model = r₂.model ∧ r₁.messages = r₂.messages ∧
    r₁.temperature = r₂.temperature ∧ r₁.maxTokens = r₂.maxTokens

/-- Requests that agree in their pieces, in `max_tokens` and in the six printed
decimals of the temperature also agree in the grouping of the pieces and in
the temperature itself. -/
def Unambiguous (r₁ r₂ : ChatRequest) : Prop :=
  r₁.pieces = r₂.pieces → r₁.maxTokens = r₂.maxTokens →
    toStringDouble r₁.temperature = toStringDouble r₂.temperature →
      r₁.layout = r₂.layout ∧ r₁.temperature = r₂.temperature

/-- The last two fields of the key text. -/
def ChatRequest.params (req : ChatRequest) : List Str :=
  [str "t=" ++ toStringDouble req.temperature, str "m=" ++ toStringInt req.maxTokens]

/-- The key text is the fields and the parameters joined with bars. -/
theorem keyText_eq_intercalate {cfg : CacheConfig} (hparams : cfg.matchParams = true)
    (req : ChatRequest) :
    keyText cfg req = [byte '|'].intercalate (req.fields ++ req.params) := by
  have hjoin : ∀ (key : Str) (msgs : List Message) (rest : List Str), rest ≠ [] →
      [byte '|'].intercalate (key :: msgs.map Message.field ++ rest) =
        key ++ str "|" ++ msgs.flatMap (fun msg => msg.field ++ str "|") ++
          [byte '|'].intercalate rest := by
    intro key msgs rest hrest
    induction msgs generalizing key with
    | nil =>
        rw [List.map_nil, List.singleton_append, List.intercalate_cons_of_ne_nil hrest]
        simp [str]
    | cons msg msgs ih =>
        have hstep := ih msg.field
        rw [List.map_cons, List.cons_append, List.intercalate_cons_of_ne_nil (by simp), hstep]
        simp [str, List.append_assoc]
  have hfold : req.messages.foldl
      (fun key msg => key ++ (msg.role ++ str ":" ++ msg.content ++ str "|"))
      (req.model ++ str "|") =
        req.model ++ str "|" ++ req.messages.flatMap (fun msg => msg.field ++ str "|") := by
    rw [List.foldl_append_eq_append]
    simp [Message.field, List.flatMap_def]
  unfold keyText ChatRequest.fields
  rw [if_pos hparams, hfold, hjoin _ _ _ (by simp [ChatRequest.params])]
  simp [ChatRequest.params, str, List.append_assoc]

/-- Equal key texts: equal pieces and equal printed parameters. -/
theorem keyText_eq_iff {cfg : CacheConfig} (hparams : cfg.matchParams = true)
    (r₁ r₂ : ChatRequest) :
    keyText cfg r₁ = keyText cfg r₂ ↔
      r₁.pieces = r₂.pieces ∧
        toStringDouble r₁.temperature = toStringDouble r₂.temperature ∧
        r₁.maxTokens = r₂.maxTokens := by
  have hparts : ∀ r : ChatRequest,
      r.params.flatMap (List.splitOn (byte '|')) = r.params := by
    intro r
    have ht : byte '|' ∉ str "t=" ++ toStringDouble r.temperature := by
      rw [List.mem_append, not_or]
      exact ⟨by decide, bar_notMem_toStringDouble _⟩
    have hm : byte '|' ∉ str "m=" ++ toStringInt r.maxTokens := by
      rw [List.mem_append, not_or]
      exact ⟨by decide, bar_notMem_toStringInt _⟩
    simp [ChatRequest.params, List.splitOn_eq_singleton ht, List.splitOn_eq_singleton hm]
  rw [keyText_eq_intercalate hparams, keyText_eq_intercalate hparams,
    Separated.intercalate_inj_iff _ (by simp [ChatRequest.fields]) (by simp [ChatRequest.fields]),
    List.flatMap_append, List.flatMap_append, hparts, hparts]
  constructor
  · intro h
    obtain ⟨hpieces, hlast⟩ := List.append_inj' h rfl
    simp only [ChatRequest.params, List.cons.injEq, List.append_cancel_left_eq, and_true] at hlast
    exact ⟨hpieces, hlast.1, toStringInt_injective hlast.2⟩
  · intro hsame
    obtain ⟨hpieces, ht, hm⟩ := hsame
    have hparams' : r₁.params = r₂.params := by simp [ChatRequest.params, ht, hm]
    exact congrArg₂ (· ++ ·) hpieces hparams'

/-- Equal hashes print alike and unequal hashes do not. -/
theorem makeKey_eq_iff (P : Platform) (cfg : CacheConfig) (r₁ r₂ : ChatRequest) :
    makeKey P cfg r₁ = makeKey P cfg r₂ ↔
      P.hash (keyText cfg r₁) = P.hash (keyText cfg r₂) := by
  unfold makeKey toStringNat
  rw [(Digits.numeral_injective (by decide) (by decide)).eq_iff, UInt64.toNat_inj]

/-- Equal pieces in equal groups: the same model and the same messages. -/
theorem eq_of_pieces_layout {r₁ r₂ : ChatRequest} (hpieces : r₁.pieces = r₂.pieces)
    (hlayout : r₁.layout = r₂.layout) :
    r₁.model = r₂.model ∧ r₁.messages = r₂.messages := by
  obtain ⟨hsizes, hroles⟩ := Prod.ext_iff.mp hlayout
  have hfields : r₁.fields = r₂.fields := Separated.eq_of_pieces_eq _ hpieces hsizes
  simp only [ChatRequest.fields, List.cons.injEq] at hfields
  refine ⟨hfields.1, ?_⟩
  have hmsgs := hfields.2
  simp only [ChatRequest.layout] at hroles
  generalize r₁.messages = ms₁ at hmsgs hroles
  generalize r₂.messages = ms₂ at hmsgs hroles
  induction ms₁ generalizing ms₂ with
  | nil =>
      cases ms₂ with
      | nil => rfl
      | cons _ _ => simp at hroles
  | cons m₁ ms₁ ih =>
      cases ms₂ with
      | nil => simp at hroles
      | cons m₂ ms₂ =>
          simp only [List.map_cons, List.cons.injEq] at hmsgs hroles
          have hsplit := hmsgs.1
          unfold Message.field at hsplit
          rw [List.append_assoc, List.append_assoc] at hsplit
          obtain ⟨hrole, hrest⟩ := List.append_inj hsplit hroles.1
          have hcontent : m₁.content = m₂.content := List.append_cancel_left hrest
          have hm : m₁ = m₂ := by
            cases m₁; cases m₂; simp_all
          rw [hm, ih ms₂ hmsgs.2 hroles.2]

/-- **What a key identifies.**  With the parameters in the key and no hash
collision between the two key texts, equal keys mean equal contents exactly
for unambiguous pairs of requests. -/
theorem makeKey_identifies_iff (P : Platform) {cfg : CacheConfig}
    (hparams : cfg.matchParams = true) (r₁ r₂ : ChatRequest)
    (hhash : P.hash (keyText cfg r₁) = P.hash (keyText cfg r₂) →
      keyText cfg r₁ = keyText cfg r₂) :
    (makeKey P cfg r₁ = makeKey P cfg r₂ → SameContent r₁ r₂) ↔ Unambiguous r₁ r₂ := by
  have hkey : makeKey P cfg r₁ = makeKey P cfg r₂ ↔
      r₁.pieces = r₂.pieces ∧
        toStringDouble r₁.temperature = toStringDouble r₂.temperature ∧
        r₁.maxTokens = r₂.maxTokens := by
    rw [← keyText_eq_iff hparams, makeKey_eq_iff]
    exact ⟨hhash, fun h => by rw [h]⟩
  constructor
  · intro h hpieces hmax htemp
    obtain ⟨hmodel, hmessages, ht, -⟩ := h (hkey.mpr ⟨hpieces, htemp, hmax⟩)
    refine ⟨?_, ht⟩
    simp [ChatRequest.layout, ChatRequest.fields, hmodel, hmessages]
  · intro h heq
    obtain ⟨hpieces, htemp, hmax⟩ := hkey.mp heq
    obtain ⟨hlayout, ht⟩ := h hpieces hmax htemp
    obtain ⟨hmodel, hmessages⟩ := eq_of_pieces_layout hpieces hlayout
    exact ⟨hmodel, hmessages, ht, hmax⟩

/-- A conversation of one message whose text spells out a second message. -/
def oneMessage : ChatRequest :=
  { model := str "gpt-4o", messages := [⟨str "user", str "a|user:b"⟩] }

/-- The conversation of two messages it collides with. -/
def twoMessages : ChatRequest :=
  { model := str "gpt-4o", messages := [⟨str "user", str "a"⟩, ⟨str "user", str "b"⟩] }

/-- Whatever the hash, a conversation of one message can have the key of a
conversation of two. -/
theorem makeKey_merges_messages :
    ¬ ∀ (P : Platform) (cfg : CacheConfig) (r₁ r₂ : ChatRequest), cfg.matchParams = true →
      (P.hash (keyText cfg r₁) = P.hash (keyText cfg r₂) → keyText cfg r₁ = keyText cfg r₂) →
        makeKey P cfg r₁ = makeKey P cfg r₂ → SameContent r₁ r₂ := by
  intro h
  have htext : keyText {} oneMessage = keyText {} twoMessages := by with_unfolding_all decide
  have hkey : makeKey (cLocale fnv1a) {} oneMessage = makeKey (cLocale fnv1a) {} twoMessages := by
    rw [makeKey_eq_iff, htext]
  obtain ⟨-, hmessages, -, -⟩ :=
    h (cLocale fnv1a) {} oneMessage twoMessages rfl (fun _ => htext) hkey
  exact absurd hmessages (by decide)

/-- The exact condition at the colliding pair, where it fails. -/
theorem makeKey_identifies_iff_collision :
    (makeKey (cLocale fnv1a) {} oneMessage = makeKey (cLocale fnv1a) {} twoMessages →
      SameContent oneMessage twoMessages) ↔ Unambiguous oneMessage twoMessages :=
  makeKey_identifies_iff (cLocale fnv1a) rfl oneMessage twoMessages
    (fun _ => by with_unfolding_all decide)

/-- A request whose free text contains no separator. -/
structure ChatRequest.Plain (req : ChatRequest) : Prop where
  model : byte '|' ∉ req.model
  role : ∀ msg ∈ req.messages, byte '|' ∉ msg.role ∧ byte ':' ∉ msg.role
  content : ∀ msg ∈ req.messages, byte '|' ∉ msg.content

/-- Without separators every field is one piece. -/
theorem ChatRequest.Plain.pieces_eq {req : ChatRequest} (h : req.Plain) :
    req.pieces = req.fields := by
  have hone : ∀ f ∈ req.fields, f.splitOn (byte '|') = [f] := by
    intro f hf
    apply List.splitOn_eq_singleton
    rcases List.mem_cons.mp hf with rfl | hf
    · exact h.model
    · obtain ⟨msg, hmsg, rfl⟩ := List.mem_map.mp hf
      have hcolon : byte '|' ∉ str ":" := by decide
      simp [Message.field, (h.role msg hmsg).1, h.content msg hmsg, hcolon]
  unfold ChatRequest.pieces
  generalize req.fields = fs at hone
  induction fs with
  | nil => rfl
  | cons f fs ih =>
      rw [List.flatMap_cons, hone f List.mem_cons_self,
        ih fun g hg => hone g (List.mem_cons_of_mem _ hg), List.singleton_append]

/-- Requests without separators are told apart by everything but the decimals
of the temperature that are not printed. -/
theorem unambiguous_of_plain {r₁ r₂ : ChatRequest} (h₁ : r₁.Plain) (h₂ : r₂.Plain)
    (htemp : toStringDouble r₁.temperature = toStringDouble r₂.temperature →
      r₁.temperature = r₂.temperature) : Unambiguous r₁ r₂ := by
  intro hpieces _ hprinted
  refine ⟨?_, htemp hprinted⟩
  rw [h₁.pieces_eq, h₂.pieces_eq] at hpieces
  have hrole : ∀ msg : Message, byte ':' ∉ msg.role →
      msg.field.takeWhile (· ≠ byte ':') = msg.role := by
    intro msg hmsg
    have hcolon : str ":" = [byte ':'] := by decide
    rw [Message.field, List.append_assoc, List.takeWhile_append_of_pos]
    · simp [hcolon]
    · intro b hb
      rw [decide_eq_true_eq]
      intro hsame
      subst hsame
      exact hmsg hb
  have hroles : ∀ r : ChatRequest, r.Plain →
      r.messages.map (fun msg => msg.role.length) =
        r.fields.tail.map fun f => (f.takeWhile (· ≠ byte ':')).length := by
    intro r hr
    simp only [ChatRequest.fields, List.tail_cons, List.map_map]
    refine List.map_congr_left fun msg hmsg => ?_
    simp only [Function.comp_apply, hrole msg (hr.role msg hmsg).2]
  simp only [ChatRequest.layout, hroles r₁ h₁, hroles r₂ h₂, hpieces]

end Gateway
