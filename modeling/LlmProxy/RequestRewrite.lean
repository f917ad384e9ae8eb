import LlmProxy.RequestConversion

/-!
# What is sent for a request

Between the client and the upstream the chat handler rewrites a request: the reasoning level is
translated (`model_catalog.rs`), the model is renamed and the default parameters of the route are
merged.
-/

namespace LlmProxy

open Json List Option

/-! ## Reasoning levels -/

structure ModelRegistryEntry where
  id : String
  enabled : Bool
  capabilitiesJson : Option Text
  deriving DecidableEq, Repr

def thinkingLevelOrder : List Text :=
  ["off".toList, "minimal".toList, "low".toList, "medium".toList, "high".toList, "xhigh".toList,
    "max".toList]

/-- `none` is another name for `off`. -/
def canonicalThinkingLevel (level : Text) : Option Text :=
  if level = "none".toList then some "off".toList
  else thinkingLevelOrder.find? fun canonical => canonical = level

def unsupportedLevel (entry : ModelRegistryEntry) (effort : Text) : AppError :=
  let id := entry.id
  let effort := String.ofList effort
  .badRequest s!"model '{id}' does not support reasoning_effort='{effort}'"

variable {translated : Fields} {level : Text} {fields : Fields} {canonical : Text} {key : String}

theorem canonicalThinkingLevel_eq_some_iff :
    canonicalThinkingLevel level = some canonical ↔
      (level = "none".toList ∧ canonical = "off".toList) ∨
        (level = canonical ∧ canonical ∈ thinkingLevelOrder) := by
  have hnone : "none".toList ∉ thinkingLevelOrder := by decide
  unfold canonicalThinkingLevel
  split_ifs with hlevel
  · rw [some_inj]
    constructor
    · exact fun h => .inl ⟨hlevel, h.symm⟩
    · rintro (⟨-, h⟩ | ⟨rfl, hmem⟩)
      · exact h.symm
      · exact absurd (hlevel ▸ hmem) hnone
  · constructor
    · intro hfind
      have hsame : canonical = level := by simpa using find?_some hfind
      exact .inr ⟨hsame.symm, mem_of_find?_eq_some hfind⟩
    · rintro (⟨h, -⟩ | ⟨rfl, hmem⟩)
      · exact absurd h hlevel
      · have hfound : (thinkingLevelOrder.find? fun other => other = level).isSome :=
          find?_isSome.mpr ⟨level, hmem, by simp⟩
        obtain ⟨other, hother⟩ := isSome_iff_exists.mp hfound
        have hsame : other = level := by simpa using find?_some hother
        rw [hother, hsame]

theorem canonicalThinkingLevel_canonical (hlevel : canonicalThinkingLevel level = some canonical) :
    canonicalThinkingLevel canonical = some canonical := by
  rcases canonicalThinkingLevel_eq_some_iff.mp hlevel with ⟨-, rfl⟩ | ⟨rfl, -⟩
  · decide
  · exact hlevel

inductive Translated (fields : Fields) : Fields → Prop
  | same : Translated fields fields
  | level (level : Text) (hgiven : (Fields.get "reasoning_effort" fields).isSome) :
      Translated fields (Fields.insert "reasoning_effort" (.str level) fields)

theorem Translated.get (h : Translated fields translated) (hkey : key ≠ "reasoning_effort") :
    Fields.get key translated = Fields.get key fields := by
  cases h with
  | same => rfl
  | level level _ => exact Fields.get_insert_ne hkey _ fields

theorem Translated.ordered (h : Translated fields translated) (hordered : Fields.Ordered fields) :
    Fields.Ordered translated := by
  cases h with
  | same => exact hordered
  | level level _ => exact hordered.insert _ _

theorem Translated.of_absent (h : Translated fields translated)
    (habsent : Fields.get "reasoning_effort" fields = none) : translated = fields := by
  cases h with
  | same => rfl
  | level level hgiven =>
    rw [habsent] at hgiven
    cases hgiven

section

variable [SerdeJson]

def levelMapOf (entry : ModelRegistryEntry) : Option Fields :=
  match (entry.capabilitiesJson.bind SerdeJson.fromStr).bind
      (pointer "metadata" "thinkingLevelMap") with
  | some (.obj levels) => some levels
  | _ => none

def upstreamLevel (levels : Fields) (requested : Text) : Option Text :=
  ((levels.find? fun level => canonicalThinkingLevel level.1.toList = some requested).map
    Prod.snd).bind Value.asStr

/-- `translate_reasoning_effort` of `model_catalog.rs`. -/
def translateFor (entry : ModelRegistryEntry) (extra : Value) : Except AppError Value :=
  match extra with
  | .obj fields =>
    match (Fields.get "reasoning_effort" fields).bind Value.asStr, levelMapOf entry with
    | some effort, some levels =>
      match canonicalThinkingLevel effort with
      | none => .ok extra
      | some requested =>
        match upstreamLevel levels requested with
        | some level => .ok (.obj (Fields.insert "reasoning_effort" (.str level) fields))
        | none => .error (unsupportedLevel entry effort)
    | _, _ => .ok extra
  | _ => .ok extra

/-- A model that is not registered keeps its level. -/
def translateReasoningEffort (registry : List ModelRegistryEntry) (req : ChatCompletionRequest) :
    Except AppError ChatCompletionRequest :=
  match registry.find? fun entry => entry.id = req.model ∧ entry.enabled with
  | none => .ok req
  | some entry => (translateFor entry req.extra).map fun extra => { req with extra := extra }

/-- `for (k, v) in pm { extra.entry(k).or_insert(v) }`, if both are objects. -/
def mergeDefaults (defaultParams : Option Value) (extra : Value) : Value :=
  match defaultParams, extra with
  | some (.obj defaults), .obj fields => .obj (defaults.foldl Fields.orInsert fields)
  | _, _ => extra

/-- The defaults are merged into the fields without a name only, while the body sent has the named
fields too. -/
def rewriteRequest (registry : List ModelRegistryEntry) (route : RouteEntry)
    (req : ChatCompletionRequest) : Except AppError ChatCompletionRequest := do
  let req ← translateReasoningEffort registry req
  pure { req with
    model := route.upstreamModel.getD req.model
    extra := mergeDefaults route.defaultParams req.extra }

variable {fields : Fields}

theorem translated_of_translateFor {entry : ModelRegistryEntry} {extra : Value}
    (htranslate : translateFor entry (.obj fields) = .ok extra) :
    ∃ translated, extra = .obj translated ∧ Translated fields translated := by
  unfold translateFor at htranslate
  dsimp only at htranslate
  cases heffort : (Fields.get "reasoning_effort" fields).bind Value.asStr with
  | none =>
    rw [heffort] at htranslate
    cases htranslate
    exact ⟨fields, rfl, .same⟩
  | some =>
    cases hlevels : levelMapOf entry with
    | none =>
      rw [heffort, hlevels] at htranslate
      cases htranslate
      exact ⟨fields, rfl, .same⟩
    | some =>
      rw [heffort, hlevels] at htranslate
      dsimp only at htranslate
      split at htranslate
      · cases htranslate
        exact ⟨fields, rfl, .same⟩
      · split at htranslate
        · rename_i level _
          cases htranslate
          refine ⟨_, rfl, .level level ?_⟩
          obtain ⟨v, hv, -⟩ := bind_eq_some_iff.mp heffort
          rw [hv]
          rfl
        · cases htranslate

section

variable {registry : List ModelRegistryEntry} {route : RouteEntry}
  {req sent : ChatCompletionRequest}

theorem extra_of_rewriteRequest (hsent : rewriteRequest registry route req = .ok sent) :
    ∃ extra, (extra = req.extra ∨ ∃ entry, translateFor entry req.extra = .ok extra) ∧
      sent = { req with
        model := route.upstreamModel.getD req.model
        extra := mergeDefaults route.defaultParams extra } := by
  unfold rewriteRequest translateReasoningEffort at hsent
  cases hfind : registry.find? fun entry => entry.id = req.model ∧ entry.enabled with
  | none =>
    rw [hfind] at hsent
    cases hsent
    exact ⟨req.extra, .inl rfl, rfl⟩
  | some entry =>
    rw [hfind] at hsent
    dsimp only at hsent
    cases htranslate : translateFor entry req.extra with
    | error =>
      rw [htranslate] at hsent
      cases hsent
    | ok extra =>
      rw [htranslate] at hsent
      cases hsent
      exact ⟨extra, .inr ⟨entry, htranslate⟩, rfl⟩

theorem rewriteRequest_eq_ok (hextra : req.extra = .obj fields)
    (hsent : rewriteRequest registry route req = .ok sent) :
    ∃ translated, Translated fields translated ∧
      sent = { req with
        model := route.upstreamModel.getD req.model
        extra := mergeDefaults route.defaultParams (.obj translated) } := by
  obtain ⟨extra, rfl | ⟨entry, htranslate⟩, rfl⟩ := extra_of_rewriteRequest hsent
  · exact ⟨fields, .same, by rw [hextra]⟩
  · rw [hextra] at htranslate
    obtain ⟨translated, rfl, htranslated⟩ := translated_of_translateFor htranslate
    exact ⟨translated, htranslated, rfl⟩

end

/-! ## What becomes of a level -/

omit [SerdeJson] in
theorem upstreamLevel_eq_get {levels : Fields}
    (hkeys : ∀ field ∈ levels, canonicalThinkingLevel field.1.toList = some field.1.toList)
    (requested : Text) :
    upstreamLevel levels requested =
      (Fields.get (String.ofList requested) levels).bind Value.asStr := by
  induction levels with
  | nil => rfl
  | cons field rest ih =>
    obtain ⟨key, value⟩ := field
    obtain ⟨hkey, hrest⟩ := forall_mem_cons.mp hkeys
    rw [Fields.get_cons]
    unfold upstreamLevel at ih ⊢
    rw [find?_cons]
    dsimp only at hkey ⊢
    rw [hkey]
    by_cases hsame : key.toList = requested
    · have hname : key = String.ofList requested := by rw [← hsame, String.ofList_toList]
      simp [hname]
    · have hname : key ≠ String.ofList requested := by
        rintro rfl
        exact hsame String.toList_ofList
      simp [hsame, hname, ih hrest]

def RewritesEffort (registry : List ModelRegistryEntry) (route : RouteEntry)
    (req : ChatCompletionRequest) (effort : Value) : Prop :=
  ∃ sent, rewriteRequest registry route req = .ok sent ∧
    sent.extra.get "reasoning_effort" = some effort

/-- The body that a provider of the kind sends for the request has the level. -/
def Forwarded (registry : List ModelRegistryEntry) (route : RouteEntry) (kind : ProviderKind)
    (req : ChatCompletionRequest) (effort : Value) : Prop :=
  ∃ sent body, rewriteRequest registry route req = .ok sent ∧ kind.sentBody sent = some body ∧
    Fields.get "reasoning_effort" body = some effort

omit [SerdeJson] in
theorem get_effort_write (params : RequestParams) :
    Fields.get "reasoning_effort" (RequestParams.record.write params) = none := by
  have hwrite : ∀ {α : Type} (f : Json.Field α) (a : α), f.name ≠ "reasoning_effort" →
      Fields.get "reasoning_effort" (f.write a) = none :=
    fun f a hname => get_skipNone hname (f.encode a)
  simp [RequestParams.record, Record.as, Record.and, Record.field, Fields.get_append, hwrite,
    Json.Field.required, Json.Field.skipped, Json.Field.option]

omit [SerdeJson] in
theorem get_effort_encode_iff {req : ChatCompletionRequest} {effort : Value} :
    (∃ body, req.encode = some body ∧ Fields.get "reasoning_effort" body = some effort) ↔
      req.extra.get "reasoning_effort" = some effort := by
  unfold ChatCompletionRequest.encode
  cases req.extra with
  | obj fields => simp [Fields.get_append, get_effort_write, Value.get]
  | _ => simp [get_effort_write, Value.get]

theorem forwarded_iff {registry : List ModelRegistryEntry} {route : RouteEntry}
    {kind : ProviderKind} {req : ChatCompletionRequest} {effort : Value} :
    Forwarded registry route kind req effort ↔
      kind = .openAi ∧ RewritesEffort registry route req effort := by
  by_cases hkind : kind = .openAi
  · subst hkind
    simp only [Forwarded, RewritesEffort, ← get_effort_encode_iff, ProviderKind.sentBody,
      exists_and_left, true_and]
  · refine iff_of_false ?_ fun h => hkind h.1
    rintro ⟨sent, body, -, hbody, hget⟩
    rw [get_effort_sentBody hkind hbody] at hget
    cases hget

variable {value : Value}

omit [SerdeJson] in
theorem get_mergeDefaults (hget : Fields.get key fields = some value)
    (defaultParams : Option Value) :
    (mergeDefaults defaultParams (.obj fields)).get key = some value := by
  cases defaultParams with
  | none => exact hget
  | some params =>
    cases params with
    | obj defaults =>
      change Fields.get key (defaults.foldl Fields.orInsert fields) = some value
      rw [Fields.get_foldl_orInsert, hget]
      rfl
    | _ => exact hget

section

variable {registry : List ModelRegistryEntry} {entry : ModelRegistryEntry} {route : RouteEntry}
  {req : ChatCompletionRequest} {fields : Fields}
  (hfind : (registry.find? fun entry => entry.id = req.model ∧ entry.enabled) = some entry)
  (hextra : req.extra = .obj fields)

include hfind hextra

theorem rewriteRequest_of_translateFor
    (htranslate : translateFor entry (.obj fields) = .ok (.obj translated)) :
    rewriteRequest registry route req = .ok { req with
      model := route.upstreamModel.getD req.model
      extra := mergeDefaults route.defaultParams (.obj translated) } := by
  unfold rewriteRequest translateReasoningEffort
  rw [hfind]
  dsimp only
  rw [hextra, htranslate]
  rfl

theorem rewritesEffort_of_translateFor {effort : Value}
    (htranslate : translateFor entry (.obj fields) = .ok (.obj translated))
    (hget : Fields.get "reasoning_effort" translated = some effort) :
    RewritesEffort registry route req effort :=
  ⟨_, rewriteRequest_of_translateFor hfind hextra htranslate, get_mergeDefaults hget _⟩

theorem rewritesEffort_of_untranslated (hget : Fields.get "reasoning_effort" fields = some value)
    (hpass : levelMapOf entry = none ∨ value.asStr.bind canonicalThinkingLevel = none) :
    RewritesEffort registry route req value := by
  refine rewritesEffort_of_translateFor hfind hextra ?_ hget
  unfold translateFor
  dsimp only
  rw [hget, bind_some]
  cases heffort : value.asStr with
  | none => rfl
  | some effort =>
    cases hlevels : levelMapOf entry with
    | none => rfl
    | some =>
      have hother : canonicalThinkingLevel effort = none := by
        rcases hpass with hnone | hother
        · rw [hlevels] at hnone
          cases hnone
        · rwa [heffort] at hother
      dsimp only
      rw [hother]

variable {levels : Fields} {effort requested : Text} (hlevels : levelMapOf entry = some levels)
  (hget : Fields.get "reasoning_effort" fields = some (.str effort))
  (hrequested : canonicalThinkingLevel effort = some requested)

include hlevels hget hrequested

theorem rewriteRequest_unsupported (hunlisted : upstreamLevel levels requested = none) :
    rewriteRequest registry route req = .error (unsupportedLevel entry effort) := by
  have htranslate : translateFor entry (.obj fields) = .error (unsupportedLevel entry effort) := by
    unfold translateFor
    dsimp only
    rw [hget, hlevels]
    dsimp only [bind_some, Value.asStr]
    rw [hrequested]
    dsimp only
    rw [hunlisted]
  unfold rewriteRequest translateReasoningEffort
  rw [hfind]
  dsimp only
  rw [hextra, htranslate]
  rfl

theorem rewritesEffort_of_upstreamLevel (hlevel : upstreamLevel levels requested = some level) :
    RewritesEffort registry route req (.str level) := by
  refine rewritesEffort_of_translateFor hfind hextra ?_ (Fields.get_insert_self _ _ fields)
  unfold translateFor
  dsimp only
  rw [hget, hlevels]
  dsimp only [bind_some, Value.asStr]
  rw [hrequested]
  dsimp only
  rw [hlevel]

theorem rewritesEffort_iff_upstreamLevel :
    RewritesEffort registry route req (.str level) ↔
      upstreamLevel levels requested = some level := by
  constructor
  · rintro ⟨sent, hsent, hlevel⟩
    cases hupstream : upstreamLevel levels requested with
    | none =>
      rw [rewriteRequest_unsupported hfind hextra hlevels hget hrequested hupstream] at hsent
      cases hsent
    | some other =>
      have hrewrites : RewritesEffort registry route req (.str other) :=
        rewritesEffort_of_upstreamLevel hfind hextra hlevels hget hrequested hupstream
      obtain ⟨sent', hsent', hother⟩ := hrewrites
      obtain rfl : sent = sent' := Except.ok.inj (hsent.symm.trans hsent')
      rw [hlevel] at hother
      cases hother
      rfl
  · exact rewritesEffort_of_upstreamLevel hfind hextra hlevels hget hrequested

end

end

end LlmProxy
