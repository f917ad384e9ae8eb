import LlmProxy.PromptCache

/-!
# Answers from the prompt cache

The chat handler looks a request up as the client sent it, and stores an answer under the request
that was sent upstream for it.
-/

namespace LlmProxy

open Json List Utf8Bytes

/-! ## The handler at the cache -/

structure RoutedRequest where
  body : Value
  req : ChatCompletionRequest
  decoded : ChatCompletionRequest.decode body = some req
  registry : List ModelRegistryEntry
  route : RouteEntry

def RoutedRequest.sent [SerdeJson] (r : RoutedRequest) : Except AppError ChatCompletionRequest :=
  rewriteRequest r.registry r.route r.req

def SendsSame [SerdeJson] (a b : RoutedRequest) : Prop :=
  ∃ sent, a.sent = .ok sent ∧ b.sent = .ok sent

/-- The handler looks a request up before it is rewritten, and stores the answer
under the request that was sent. -/
inductive CacheAction (Key α : Type)
  | lookup (now : ℕ) (r : RoutedRequest)
  | store (now : ℕ) (scan : List Key) (r : RoutedRequest) (response : α)

def CacheAction.request {Key α : Type} : CacheAction Key α → RoutedRequest
  | .lookup _ r => r
  | .store _ _ r _ => r

section

variable [SerdeJson] {Key α : Type} (digest : Bytes → Key)

def CacheAction.storesUnder : CacheAction Key α → Option Key
  | .lookup _ _ => none
  | .store _ _ r _ => r.sent.toOption.map (cacheKey digest)

structure StoredLast (actions : List (CacheAction Key α)) (key : Key) (r : RoutedRequest)
    (response : α) (before after : List (CacheAction Key α)) (now : ℕ) (scan : List Key) :
    Prop where
  split : actions = before ++ .store now scan r response :: after
  under : r.sent.toOption.map (cacheKey digest) = some key
  last : ∀ action ∈ after, action.storesUnder digest ≠ some key

def StoredFor (actions : List (CacheAction Key α)) (key : Key) (r : RoutedRequest) (response : α) :
    Prop :=
  ∃ before after now scan, StoredLast digest actions key r response before after now scan

variable {digest}

theorem StoredFor.snoc {actions : List (CacheAction Key α)} {key : Key} {r : RoutedRequest}
    {response : α} (hstored : StoredFor digest actions key r response)
    {action : CacheAction Key α} (hother : action.storesUnder digest ≠ some key) :
    StoredFor digest (actions ++ [action]) key r response := by
  obtain ⟨before, after, now, scan, hsplit, hunder, hlast⟩ := hstored
  refine ⟨before, after ++ [action], now, scan, ?_, hunder, ?_⟩
  · rw [hsplit, append_assoc, cons_append]
  · intro later hlater
    rcases mem_append.mp hlater with hafter | haction
    · exact hlast later hafter
    · rw [mem_singleton.mp haction]
      exact hother

variable [DecidableEq Key] (digest)

def PromptCache.apply (cache : PromptCache Key α) : CacheAction Key α → PromptCache Key α
  | .lookup now r => (cache.get digest now r.req).2
  | .store now scan r response =>
    match r.sent with
    | .ok sent => cache.put digest now scan sent response
    | .error _ => cache

def PromptCache.after (maxEntries : ℕ) (actions : List (CacheAction Key α)) : PromptCache Key α :=
  actions.foldl (PromptCache.apply digest) (.new maxEntries)

theorem PromptCache.storedFor_of_lookup (maxEntries : ℕ) (actions : List (CacheAction Key α))
    {key : Key} {entry : CacheEntry α}
    (hlookup : (PromptCache.after digest maxEntries actions).inner.lookup key = some entry) :
    ∃ r, StoredFor digest actions key r entry.response := by
  induction actions using List.reverseRecOn generalizing key entry with
  | nil => cases hlookup
  | append_singleton actions action ih =>
    rw [after, foldl_append] at hlookup
    cases action with
    | lookup =>
      obtain ⟨origin, hstored⟩ := ih (lookup_get_eq_some digest hlookup)
      exact ⟨origin, hstored.snoc (by simp [CacheAction.storesUnder])⟩
    | store now scan r response =>
      have happly : ((after digest maxEntries actions).apply digest
          (.store now scan r response)).inner.lookup key = some entry := hlookup
      cases hsent : r.sent with
      | error =>
        rw [apply, hsent] at happly
        obtain ⟨origin, hstored⟩ := ih happly
        refine ⟨origin, hstored.snoc ?_⟩
        simp [CacheAction.storesUnder, hsent, Except.toOption]
      | ok =>
        rw [apply, hsent] at happly
        rcases lookup_put_eq_some digest happly with ⟨hkey, hentry⟩ | ⟨hkey, hold⟩
        · rw [hentry]
          refine ⟨r, actions, [], now, scan, rfl, ?_, by simp⟩
          rw [hsent, hkey]
          rfl
        · obtain ⟨origin, hstored⟩ := ih hold
          refine ⟨origin, hstored.snoc ?_⟩
          rw [CacheAction.storesUnder, hsent]
          intro hsame
          exact hkey (Option.some.inj hsame).symm

end

/-! ## What the key leaves out -/

def Message.outsideKey (m : Message) : Option Text × Option (List ToolCall) × Option Text :=
  (m.name, m.toolCalls, m.toolCallId)

structure AgreeOutsideKey (a b : ChatCompletionRequest) : Prop where
  messages : a.messages.map Message.outsideKey = b.messages.map Message.outsideKey
  stream : a.stream = b.stream
  maxTokens : a.maxTokens = b.maxTokens
  topP : a.topP = b.topP
  stop : a.stop = b.stop
  presencePenalty : a.presencePenalty = b.presencePenalty
  frequencyPenalty : a.frequencyPenalty = b.frequencyPenalty
  user : a.user = b.user
  toolChoice : a.toolChoice = b.toolChoice
  streamOptions : a.streamOptions = b.streamOptions
  extra : a.extra = b.extra

theorem AgreeOutsideKey.refl (a : ChatCompletionRequest) : AgreeOutsideKey a a := by
  constructor <;> rfl

structure AgreeInKey (a b : ChatCompletionRequest) : Prop where
  model : a.model = b.model
  messages : a.messages.map (fun m => (m.role, m.content)) =
    b.messages.map fun m => (m.role, m.content)
  temperature : a.temperature = b.temperature
  tools : a.tools = b.tools

theorem AgreeInKey.trans {a b c : ChatCompletionRequest} (hab : AgreeInKey a b)
    (hbc : AgreeInKey b c) : AgreeInKey a c where
  model := hab.model.trans hbc.model
  messages := hab.messages.trans hbc.messages
  temperature := hab.temperature.trans hbc.temperature
  tools := hab.tools.trans hbc.tools

theorem messages_ext {a b : List Message}
    (hkey : a.map (fun m => (m.role, m.content)) = b.map fun m => (m.role, m.content))
    (hothers : a.map Message.outsideKey = b.map Message.outsideKey) : a = b := by
  induction a generalizing b with
  | nil =>
    cases b with
    | nil => rfl
    | cons => cases hkey
  | cons m a ih =>
    cases b with
    | nil => cases hkey
    | cons n =>
      obtain ⟨hfirst, hmore⟩ := List.cons.inj hkey
      obtain ⟨hfirstOthers, hmoreOthers⟩ := List.cons.inj hothers
      have hsame : m = n := by
        cases m
        simp only [Message.outsideKey, Prod.mk.injEq] at hfirst hfirstOthers
        simp [hfirst, hfirstOthers]
      rw [hsame, ih hmore hmoreOthers]

theorem AgreeInKey.eq {a b : ChatCompletionRequest} (hkey : AgreeInKey a b)
    (hothers : AgreeOutsideKey a b) : a = b := by
  have hmessages := messages_ext hkey.messages hothers.messages
  obtain ⟨⟨⟩, _⟩ := a
  obtain ⟨rfl, -, rfl, rfl⟩ := hkey
  obtain ⟨-, rfl, rfl, rfl, rfl, rfl, rfl, rfl, rfl, rfl, rfl⟩ := hothers
  cases hmessages
  rfl

/-! ## Hits -/

theorem RequestParams.tools_ne_null {fields : Fields} {params : RequestParams}
    (hread : RequestParams.record.read fields = some params) : params.tools ≠ some .null := by
  obtain ⟨⟨model, messages, stream, maxTokens, temperature, topP, stop, presencePenalty,
    frequencyPenalty, user, tools, toolChoice, streamOptions⟩, hfields, rfl⟩ :=
      Option.map_eq_some_iff.mp hread
  simp only [Record.read_and_eq_some] at hfields
  exact Field.read_skipped_ne_null hfields.2.2.2.2.2.2.2.2.2.2.1

namespace RoutedRequest

theorem tools_ne_null (r : RoutedRequest) : r.req.tools ≠ some .null := by
  obtain ⟨fields, -, hread, -⟩ := decode_eq_some r.decoded
  exact RequestParams.tools_ne_null hread

variable [SerdeJson] {r : RoutedRequest} {sent : ChatCompletionRequest}

theorem sent_eq_ok (hsent : r.sent = .ok sent) :
    sent = { r.req with model := sent.model, extra := sent.extra } := by
  obtain ⟨fields, -, -, hextra⟩ := decode_eq_some r.decoded
  obtain ⟨translated, -, rfl⟩ := rewriteRequest_eq_ok hextra hsent
  rfl

theorem agreeInKey_sent (hsent : r.sent = .ok sent) (hmodel : sent.model = r.req.model) :
    AgreeInKey sent r.req := by
  have heq := sent_eq_ok hsent
  constructor
  · exact hmodel
  · rw [heq]
  · rw [heq]
  · rw [heq]

end RoutedRequest

theorem eq_of_getD_eq {a b : Option Value} (ha : a ≠ some .null) (hb : b ≠ some .null)
    (heq : a.getD .null = b.getD .null) : a = b := by
  cases a with
  | none =>
    cases b with
    | none => rfl
    | some => exact absurd (congrArg some heq.symm) hb
  | some =>
    cases b with
    | none => exact absurd (congrArg some heq) ha
    | some => exact congrArg some heq

section

variable [SerdeJson] {Key α : Type} {digest : Bytes → Key}

theorem agreeInKey_of_keyInput_eq (hjson : SerdeJson.Lawful) (htells : SerdeJson.TellsApart)
    {a b : ChatCompletionRequest} (ha : a.tools ≠ some .null) (hb : b.tools ≠ some .null)
    (hinput : keyInput a = keyInput b) : AgreeInKey a b := by
  have hbytes := jsonBytes_injective hjson htells
  obtain ⟨hmodel, hmessages, htemperature, htools⟩ := keyInput_eq hinput
  refine ⟨hmodel, ?_, htemperature, ?_⟩
  · have hsegments : Function.Injective
        fun part : Text × Value => [toBytes part.1, jsonBytes part.2] := by
      intro p q heq
      simp only [List.cons.injEq, and_true] at heq
      exact Prod.ext (toBytes_injective heq.1) (hbytes heq.2)
    apply map_injective_iff.mpr hsegments
    rw [map_map, map_map]
    exact hmessages
  · exact eq_of_getD_eq ha hb (hbytes htools)

variable [DecidableEq Key]

/-- A request answered from the cache and the request the answer was stored for are
sent alike exactly if the first is not renamed and they agree outside the key. -/
theorem hit_sendsSame_iff (hdigest : Function.Injective digest) (hjson : SerdeJson.Lawful)
    (htells : SerdeJson.TellsApart) (maxEntries : ℕ) (actions : List (CacheAction Key α))
    (now : ℕ) (r : RoutedRequest) (response : α)
    (hhit : ((PromptCache.after digest maxEntries actions).get digest now r.req).1 =
      some response) :
    ∃ origin, StoredFor digest actions (cacheKey digest r.req) origin response ∧
      (SendsSame r origin ↔ ∃ sent stored, r.sent = .ok sent ∧ origin.sent = .ok stored ∧
        sent.model = r.req.model ∧ AgreeOutsideKey sent stored) := by
  obtain ⟨entry, hlookup, rfl⟩ := PromptCache.get_eq_some digest hhit
  obtain ⟨origin, hstored⟩ := PromptCache.storedFor_of_lookup digest maxEntries actions hlookup
  refine ⟨origin, hstored, ?_⟩
  obtain ⟨-, -, -, -, -, hunder, -⟩ := hstored
  obtain ⟨stored, hstored, hkey⟩ := Option.map_eq_some_iff.mp hunder
  have horigin : origin.sent = .ok stored := by
    cases hsent : origin.sent with
    | error => simp [hsent, Except.toOption] at hstored
    | ok =>
      rw [hsent] at hstored
      cases hstored
      rfl
  have hnull : stored.tools ≠ some .null := by
    rw [RoutedRequest.sent_eq_ok horigin]
    exact origin.tools_ne_null
  have hagree : AgreeInKey r.req stored :=
    agreeInKey_of_keyInput_eq hjson htells r.tools_ne_null hnull (hdigest hkey).symm
  constructor
  · rintro ⟨sent, hr, hother⟩
    obtain rfl : stored = sent := Except.ok.inj (horigin.symm.trans hother)
    exact ⟨stored, stored, hr, horigin, hagree.model.symm, .refl stored⟩
  · rintro ⟨sent, other, hr, hother, hmodel, houtside⟩
    obtain rfl : stored = other := Except.ok.inj (horigin.symm.trans hother)
    have hsame := ((RoutedRequest.agreeInKey_sent hr hmodel).trans hagree).eq houtside
    exact ⟨stored, by rw [hr, hsame], horigin⟩

end

section

attribute [local instance] jsonText

def askRouted : RoutedRequest := ⟨askBody, askRequest, rfl, [], plainRoute none⟩

def cappedRouted : RoutedRequest where
  body := .obj [("max_tokens", .num (.int 1)),
    ("messages", .arr [.obj [("content", .str "Hi".toList), ("role", .str "user".toList)]]),
    ("model", .str "m".toList), ("seed", .num (.int 7))]
  req := { askRequest with maxTokens := some 1 }
  decoded := rfl
  registry := []
  route := plainRoute none

def askActions (r : RoutedRequest) : List (CacheAction Bytes String) :=
  [.lookup 0 r, .store 1 [] r "Hello"]

theorem ask_hit_sendsSame :
    ∃ origin, StoredFor id (askActions askRouted) (cacheKey id askRequest) origin "Hello" ∧
      SendsSame askRouted origin := by
  obtain ⟨origin, hstored, hiff⟩ := hit_sendsSame_iff Function.injective_id jsonText_lawful
    jsonText_tellsApart 256 (askActions askRouted) 2 askRouted "Hello" rfl
  refine ⟨origin, hstored, hiff.mpr ?_⟩
  obtain ⟨before, after, now, scan, hsplit, -⟩ := hstored
  have hmem : .store now scan origin "Hello" ∈ askActions askRouted := by simp [hsplit]
  obtain ⟨-, -, rfl, -⟩ : now = 1 ∧ scan = [] ∧ origin = askRouted ∧ True := by
    simpa [askActions] using hmem
  exact ⟨_, _, rfl, rfl, rfl, .refl _⟩

/-- The answer to the limited question is given to the other one. -/
theorem capped_answer_reused :
    ((PromptCache.after id 256 (askActions cappedRouted)).get id 2 askRequest).1 = some "Hello" ∧
      ¬ SendsSame askRouted cappedRouted := by
  refine ⟨rfl, ?_⟩
  rintro ⟨sent, hask, hcapped⟩
  have hasked : sent.maxTokens = none := by
    cases hask
    rfl
  have hcap : sent.maxTokens = some 1 := by
    cases hcapped
    rfl
  rw [hasked] at hcap
  cases hcap

end

end LlmProxy
