import LlmProxy.RequestRewrite

/-!
# The body sent upstream

A body sent to an OpenAI-compatible upstream is the named fields of the rewritten request, followed
by the rest.
-/

namespace LlmProxy

open Json List Option Record Fields RequestParams

/-! ## What the types keep -/

variable (v : Value)

def FunctionKept : Prop :=
  ∃ fields, v = .obj fields ∧
    ∀ field ∈ fields, field.2 ≠ .null → field.1 = "name" ∨ field.1 = "arguments"

def ToolCallKept : Prop :=
  ∃ fields, v = .obj fields ∧
    ∀ field ∈ fields, field.2 ≠ .null →
      field.1 = "id" ∨ field.1 = "type" ∨ field.1 = "function" ∧ FunctionKept field.2

def MessageKept : Prop :=
  ∃ fields, v = .obj fields ∧
    ∀ field ∈ fields, field.2 ≠ .null →
      field.1 = "role" ∨ field.1 = "content" ∨ field.1 = "name" ∨
        field.1 = "tool_calls" ∧
          (∃ calls, field.2 = .arr calls ∧ ∀ call ∈ calls, ToolCallKept call) ∨
        field.1 = "tool_call_id"

def doubleNames : List String := ["temperature", "top_p", "presence_penalty", "frequency_penalty"]

/-- Excludes what the body sent would lack: unknown fields within messages, tool calls and their
functions, and integers that no double is equal to. -/
structure Transparent (body : Value) : Prop where
  messages : ∀ messages, body.get "messages" = some (.arr messages) →
    ∀ message ∈ messages, MessageKept message
  doubles : ∀ name ∈ doubleNames, ∀ n, body.get name = some (.num (.int n)) →
    roundToDouble n = n

theorem keeps_function_iff : ToolCallFunction.codec.Keeps v ↔ FunctionKept v := by
  simp [ToolCallFunction.codec, keeps_codec_iff, Record.KeepsFields,
    ToolCallFunction.record, FunctionKept, eq_comm]

theorem keeps_toolCall_iff : ToolCall.codec.Keeps v ↔ ToolCallKept v := by
  simp [ToolCall.codec, keeps_codec_iff, Record.KeepsFields, ToolCall.record,
    keeps_function_iff, ToolCallKept, eq_comm]

theorem keeps_message_iff : Message.codec.Keeps v ↔ MessageKept v := by
  simp [Message.codec, keeps_codec_iff, Record.KeepsFields, Message.record,
    keeps_toolCall_iff, MessageKept, eq_comm]

namespace RequestParams

theorem distinct_names : record.names.Nodup := by decide

theorem model_mem : (Field.required "model" .string).member ∈ record.members := mem_cons_self

theorem messages_mem : (Field.required "messages" Message.codec.list).member ∈ record.members :=
  mem_cons_of_mem _ mem_cons_self

theorem omitsNull : ∀ m ∈ record.members, m.OmitsNull := by
  simp only [record, members_as, members_and, members_field,
    forall_mem_append, forall_mem_singleton]
  exact ⟨omitsNull_required _ rfl, omitsNull_required _ rfl, omitsNull_skipped _ _,
    omitsNull_skipped _ _, omitsNull_skipped _ _, omitsNull_skipped _ _, omitsNull_skipped _ _,
    omitsNull_skipped _ _, omitsNull_skipped _ _, omitsNull_skipped _ _, omitsNull_skipped _ _,
    omitsNull_skipped _ _, omitsNull_skipped _ _⟩

theorem keeps_model : ∀ m ∈ record.members, m.name = "model" → ∀ v, m.Keeps v := by
  simp [record]

variable {body : Fields} {params : RequestParams} (hread : record.read body = some params)
include hread

theorem exists_model : ∃ v, Fields.get "model" body = some v ∧ v ≠ .null := by
  obtain ⟨v, model, hget, hdecode⟩ := record.exists_required distinct_names hread model_mem
  refine ⟨v, hget, ?_⟩
  rintro rfl
  cases hdecode

theorem exists_messages : ∃ messages, Fields.get "messages" body = some (.arr messages) := by
  obtain ⟨v, messages, hget, hdecode⟩ := record.exists_required distinct_names hread messages_mem
  cases v with
  | arr items => exact ⟨items, hget⟩
  | _ => cases hdecode

theorem keeps_iff_transparent :
    (∀ m ∈ record.members, ∀ v, Fields.get m.name body = some v → v ≠ .null → m.Keeps v) ↔
      Transparent (.obj body) := by
  obtain ⟨given, hgiven⟩ := exists_messages hread
  simp only [record, members_as, members_and, members_field, forall_mem_append,
    forall_mem_singleton, name_required, keeps_required, keeps_skipped, Codec.keeps_list,
    Codec.keeps_text, Codec.keeps_string, Codec.keeps_bool, Codec.keeps_u32, Codec.keeps_value,
    keeps_message_iff, implies_true, true_and, and_true]
  constructor
  · rintro ⟨hmessages, htemperature, htopP, hpresence, hfrequency⟩
    refine ⟨?_, ?_⟩
    · intro messages hget
      obtain ⟨items, hitems, hkept⟩ := hmessages _ hget (by simp)
      cases hitems
      exact hkept
    · simp only [doubleNames, forall_mem_cons, not_mem_nil, false_implies, implies_true, and_true]
      exact ⟨fun n hn => htemperature _ hn (by simp) n rfl, fun n hn => htopP _ hn (by simp) n rfl,
        fun n hn => hpresence _ hn (by simp) n rfl, fun n hn => hfrequency _ hn (by simp) n rfl⟩
  · rintro ⟨hmessages, hdoubles⟩
    have hdouble : ∀ name ∈ doubleNames, ∀ v, Fields.get name body = some v → v ≠ .null →
        ∀ n, v = .num (.int n) → roundToDouble n = n := by
      rintro name hname v hget - n rfl
      exact hdoubles name hname n hget
    refine ⟨?_, hdouble _ (by simp [doubleNames]), hdouble _ (by simp [doubleNames]),
      hdouble _ (by simp [doubleNames]), hdouble _ (by simp [doubleNames])⟩
    intro v hget _
    rw [hgiven] at hget
    exact ⟨given, (some.inj hget).symm, hmessages given hgiven⟩

end RequestParams

namespace RequestParams

variable (params : RequestParams)

theorem write_model (model : String) : record.write { params with model := model } =
      ("model", .str model.toList) :: (record.write params).tail := rfl

theorem write_eq_cons :
    record.write params = ("model", .str params.model.toList) :: (record.write params).tail := rfl

theorem keys_write_model (model : String) :
    (record.write { params with model := model }).map Prod.fst =
      (record.write params).map Prod.fst := by
  rfl

theorem get_write_model {key : String} (hkey : key ≠ "model") (params : RequestParams)
    (model : String) :
    Fields.get key (record.write { params with model := model }) =
      Fields.get key (record.write params) := by
  rw [write_model, write_eq_cons, get_cons, get_cons, if_neg hkey.symm,
    if_neg hkey.symm]
  rfl

end RequestParams

open RequestParams (record)

theorem decode_eq_some {body : Value} {req : ChatCompletionRequest}
    (hdecode : ChatCompletionRequest.decode body = some req) :
    ∃ fields, body = .obj fields ∧ record.read fields = some req.toRequestParams ∧
      req.extra = .obj (record.others fields) := by
  cases body with
  | obj fields =>
    obtain ⟨params, hread, hreq⟩ := bind_eq_some_iff.mp hdecode
    cases hreq
    exact ⟨fields, rfl, hread, rfl⟩
  | _ => cases hdecode

section

variable [SerdeJson]

theorem rewriteRequest_plain {registry : List ModelRegistryEntry} {route : RouteEntry}
    {req : ChatCompletionRequest} {extra : Fields} (hextra : req.extra = .obj extra)
    (heffort : Fields.get "reasoning_effort" extra = none)
    (halias : route.upstreamModel = none) (hdefaults : route.defaultParams = none) :
    rewriteRequest registry route req = .ok req := by
  have htranslate : translateReasoningEffort registry req = .ok req := by
    unfold translateReasoningEffort
    cases registry.find? fun entry => entry.id = req.model ∧ entry.enabled with
    | none => rfl
    | some entry =>
      have hfor : translateFor entry req.extra = .ok req.extra := by
        unfold translateFor
        rw [hextra]
        dsimp only
        rw [heffort]
        rfl
      dsimp only
      rw [hfor]
      rfl
  rw [rewriteRequest, htranslate]
  rw [halias, hdefaults]
  rfl

def KeptAt (written : Fields) (key : String) (v : Value) : Prop :=
  match Fields.get key written with
  | none => v = .null
  | some w => w.contains v = true

/-- The defaults of a route are merged as they should be: no key is repeated, the
client's parameters are kept and the other defaults are there. -/
structure WellMerged (body : Value) (defaults written : Fields) : Prop where
  distinct : (written.map Prod.fst).Nodup
  kept : ∀ key v, body.get key = some v → key ≠ "model" → key ≠ "reasoning_effort" →
    KeptAt written key v
  filled : ∀ key v, Fields.get key defaults = some v → body.get key = none →
    Fields.get key written = some v

def DefaultsApart (body : Value) (defaults : Fields) : Prop :=
  ∀ key ∈ record.names, ∀ v d, body.get key = some v → Fields.get key defaults = some d →
    v = .null ∧ d = .null

end

section

variable {fields defaults translated : Fields} {params : RequestParams} (model : String)
  (hread : record.read fields = some params)
  (htranslated : Translated (record.others fields) translated)

def mergedBody (params : RequestParams) (model : String) (defaults translated : Fields) : Fields :=
  record.write { params with model := model } ++ defaults.foldl Fields.orInsert translated

include htranslated in
theorem get_named_rest {key : String} (hkey : key ∈ record.names) :
    Fields.get key (defaults.foldl Fields.orInsert translated) = Fields.get key defaults := by
  have hother : key ≠ "reasoning_effort" := by
    rintro rfl
    exact absurd hkey (by decide)
  rw [get_foldl_orInsert, htranslated.get hother, get_others, if_pos hkey,
    none_or]

include hread in
theorem get_unnamed_params {key : String} (hkey : key ∉ record.names) :
    Fields.get key (record.write { params with model := model }) = none := by
  rw [get_eq_none_iff]
  rintro field hfield rfl
  have hname : field.1 ∈ (record.write { params with model := model }).map Prod.fst :=
    List.mem_map_of_mem hfield
  rw [keys_write_model] at hname
  exact hkey ((record.keys_write hread).subset hname)

include hread in
theorem get_named_params_iff {key : String} (hkey : key ∈ record.names) :
    Fields.get key (record.write { params with model := model }) = none ↔
      Fields.get key fields = none ∨ Fields.get key fields = some .null := by
  by_cases hmodel : key = "model"
  · obtain ⟨v, hget, hnull⟩ := exists_model hread
    rw [hmodel, hget, write_model]
    refine iff_of_false ?_ ?_
    · intro hnone
      cases hnone
    · rintro (hnone | hsome)
      · cases hnone
      · exact hnull (some.inj hsome)
  · obtain ⟨m, hm, rfl⟩ := List.mem_map.mp hkey
    rw [get_write_model hmodel]
    exact RequestParams.omitsNull m hm _ _
      (get_recodeMembers (record.recode_of_read hread) distinct_names hm)

include hread htranslated in
theorem distinct_mergedBody_iff (hordered : Fields.Ordered fields) :
    ((mergedBody params model defaults translated).map Prod.fst).Nodup ↔
      ∀ key ∈ record.names, ∀ v, Fields.get key fields = some v → v ≠ .null →
        Fields.get key defaults = none := by
  have hnamed : ((record.write { params with model := model }).map Prod.fst).Nodup := by
    rw [keys_write_model]
    exact distinct_names.sublist (record.keys_write hread)
  have hrest : ((defaults.foldl Fields.orInsert translated).map Prod.fst).Nodup :=
    ((htranslated.ordered (List.Pairwise.filter _ hordered)).foldl_orInsert defaults).nodup
  rw [mergedBody, map_append, nodup_append]
  constructor
  · rintro ⟨-, -, hapart⟩ key hkey v hget hnull
    by_contra hdefault
    have hwritten : key ∈ (record.write { params with model := model }).map Prod.fst := by
      rw [mem_keys_iff, ne_eq, get_named_params_iff model hread hkey, hget]
      simpa using hnull
    have hmerged : key ∈ (defaults.foldl Fields.orInsert translated).map Prod.fst := by
      rw [mem_keys_iff, get_named_rest htranslated hkey]
      exact hdefault
    exact hapart key hwritten key hmerged rfl
  · intro hnone
    refine ⟨hnamed, hrest, ?_⟩
    rintro key hwritten other hmerged rfl
    have hkey : key ∈ record.names := by
      rw [keys_write_model] at hwritten
      exact (record.keys_write hread).subset hwritten
    rw [mem_keys_iff, ne_eq, get_named_params_iff model hread hkey, not_or] at hwritten
    rw [mem_keys_iff, get_named_rest htranslated hkey] at hmerged
    obtain ⟨v, hget⟩ := ne_none_iff_exists'.mp hwritten.1
    refine hmerged (hnone key hkey v hget ?_)
    rintro rfl
    exact hwritten.2 hget

include htranslated in
theorem get_named_mergedBody {key : String} (hkey : key ∈ record.names) :
    Fields.get key (mergedBody params model defaults translated) =
      (Fields.get key (record.write { params with model := model })).or
        (Fields.get key defaults) := by
  rw [mergedBody, get_append, get_named_rest htranslated hkey]

include hread in
theorem get_unnamed_mergedBody {key : String} (hkey : key ∉ record.names) :
    Fields.get key (mergedBody params model defaults translated) =
      (Fields.get key translated).or (Fields.get key defaults) := by
  rw [mergedBody, get_append, get_unnamed_params model hread hkey, none_or,
    get_foldl_orInsert]

include hread htranslated in
theorem filled_mergedBody {key : String} {v : Value} (hdefault : Fields.get key defaults = some v)
    (habsent : Fields.get key fields = none) :
    Fields.get key (mergedBody params model defaults translated) = some v := by
  by_cases hkey : key ∈ record.names
  · have hnone := (get_named_params_iff model hread hkey).mpr (.inl habsent)
    rw [get_named_mergedBody model htranslated hkey, hnone, none_or, hdefault]
  · have hother : Fields.get key (record.others fields) = none := by
      rw [get_others, if_neg hkey, habsent]
    have hnone : Fields.get key translated = none := by
      by_cases heffort : key = "reasoning_effort"
      · rw [heffort] at hother ⊢
        rw [htranslated.of_absent hother]
        exact hother
      · rw [htranslated.get heffort, hother]
    rw [get_unnamed_mergedBody model hread hkey, hnone, none_or, hdefault]

include hread htranslated in
theorem kept_unnamed {key : String} (hkey : key ∉ record.names) (heffort : key ≠ "reasoning_effort")
    {v : Value} (hwell : v.WellFormed) (hget : Fields.get key fields = some v) :
    KeptAt (mergedBody params model defaults translated) key v := by
  have hrest : Fields.get key translated = some v := by
    rw [htranslated.get heffort, get_others, if_neg hkey, hget]
  rw [KeptAt, get_unnamed_mergedBody model hread hkey, hrest]
  exact v.contains_self hwell

include hread htranslated in
theorem kept_null_iff {key : String} (hkey : key ∈ record.names)
    (hget : Fields.get key fields = some .null) :
    KeptAt (mergedBody params model defaults translated) key .null ↔
      ∀ d, Fields.get key defaults = some d → d = .null := by
  have hnone := (get_named_params_iff model hread hkey).mpr (.inr hget)
  rw [KeptAt, get_named_mergedBody model htranslated hkey, hnone, none_or]
  cases Fields.get key defaults with
  | none => simp
  | some => simp [Value.contains_null_iff]

include hread htranslated in
theorem kept_named_iff {m : Member} (hm : m ∈ record.members) (hmodel : m.name ≠ "model")
    {v : Value} (hwell : v.WellFormed) (hget : Fields.get m.name fields = some v)
    (hnull : v ≠ .null) :
    KeptAt (mergedBody params model defaults translated) m.name v ↔ m.Keeps v := by
  have hkey : m.name ∈ record.names := List.mem_map_of_mem hm
  have hsome : Fields.get m.name (record.write params) ≠ none := by
    rw [← get_write_model hmodel params model, ne_eq,
      get_named_params_iff model hread hkey, hget]
    simpa using hnull
  obtain ⟨w, hw⟩ := ne_none_iff_exists'.mp hsome
  have hkeeps := contains_member_iff (record.recode_of_read hread) distinct_names hm
    hget hwell hnull
  rw [KeptAt, get_named_mergedBody model htranslated hkey,
    get_write_model hmodel params model, hw, ← hkeeps, hw]
  simp

include hread htranslated in
theorem wellMerged_iff (hwell : (Value.obj fields).WellFormed) :
    WellMerged (.obj fields) defaults (mergedBody params model defaults translated) ↔
      DefaultsApart (.obj fields) defaults ∧ Transparent (.obj fields) := by
  have hordered := ((Value.wellFormed_obj_iff fields).mp hwell).1
  constructor
  · rintro ⟨hdistinct, hkept, -⟩
    rw [distinct_mergedBody_iff model hread htranslated hordered] at hdistinct
    constructor
    · intro key hkey v d hget hdefault
      have hnull : v = .null := by
        by_contra hnull
        rw [hdistinct key hkey v hget hnull] at hdefault
        cases hdefault
      have hmodel : key ≠ "model" := by
        rintro rfl
        obtain ⟨w, hw, hsome⟩ := exists_model hread
        exact hsome ((some.inj (hw.symm.trans hget)).trans hnull)
      have heffort : key ≠ "reasoning_effort" := by
        rintro rfl
        exact absurd hkey (by decide)
      subst hnull
      have hnullKept := hkept key .null hget hmodel heffort
      exact ⟨rfl, (kept_null_iff model hread htranslated hkey hget).mp hnullKept d hdefault⟩
    · rw [← keeps_iff_transparent hread]
      intro m hm v hget hnull
      by_cases hmodel : m.name = "model"
      · exact keeps_model m hm hmodel v
      · have heffort : m.name ≠ "reasoning_effort" := by
          intro hname
          have hkey : m.name ∈ record.names := List.mem_map_of_mem hm
          rw [hname] at hkey
          exact absurd hkey (by decide)
        exact (kept_named_iff model hread htranslated hm hmodel (hwell.get hget) hget hnull).mp
          (hkept m.name v hget hmodel heffort)
  · rintro ⟨hapart, htransparent⟩
    rw [← keeps_iff_transparent hread] at htransparent
    refine ⟨?_, ?_, fun key v => filled_mergedBody model hread htranslated⟩
    · rw [distinct_mergedBody_iff model hread htranslated hordered]
      intro key hkey v hget hnull
      by_contra hdefault
      obtain ⟨d, hd⟩ := ne_none_iff_exists'.mp hdefault
      exact hnull (hapart key hkey v d hget hd).1
    · intro key v hget hmodel heffort
      by_cases hkey : key ∈ record.names
      · by_cases hnull : v = .null
        · subst hnull
          rw [kept_null_iff model hread htranslated hkey hget]
          exact fun d hd => (hapart key hkey .null d hget hd).2
        · obtain ⟨m, hm, rfl⟩ := List.mem_map.mp hkey
          rw [kept_named_iff model hread htranslated hm hmodel (hwell.get hget) hget hnull]
          exact htransparent m hm v hget hnull
      · exact kept_unnamed model hread htranslated hkey heffort (hwell.get hget) hget

end

section

attribute [local instance] jsonText

def plainRoute (defaults : Option Value) : RouteEntry where
  poolId := "p"
  pool := ⟨[]⟩
  defaultParams := defaults
  upstreamModel := none

def askMessage : Message where
  role := "user".toList
  content := .str "Hi".toList
  name := none
  toolCalls := none
  toolCallId := none

def askRequest : ChatCompletionRequest where
  model := "m"
  messages := [askMessage]
  extra := .obj [("seed", .num (.int 7))]

def askBody : Value :=
  .obj [("messages", .arr [.obj [("content", .str "Hi".toList), ("role", .str "user".toList)]]),
    ("model", .str "m".toList), ("seed", .num (.int 7))]

theorem transparent_askBody : Transparent askBody where
  messages := by simp +contextual [askBody, Value.get, Fields.get, MessageKept, or_imp]
  doubles := by simp [askBody, Value.get, Fields.get, doubleNames]

def markedBody : Value :=
  .obj [("messages", .arr [.obj [("cache_control", .bool true), ("content", .str "Hi".toList),
    ("role", .str "user".toList)]]), ("model", .str "m".toList)]

def coolBody : Value :=
  .obj [("messages", .arr []), ("model", .str "m".toList), ("temperature", .num (.int 0))]

end

end LlmProxy
