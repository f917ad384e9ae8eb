import LlmProxy.CatalogImport
import LlmProxy.JsonKeys

/-!
# Secrets in an imported entry

`sanitize` of `model_import.rs` drops every field whose name looks like that of a secret, at any
depth.  What `map_model` stores is the sanitised entry, with a map of levels that has harmless
names only, and beside it the field `reasoning` of the entry as it came.
-/

namespace LlmProxy

open Json List

namespace ModelImport

def NoSecrets (v : Value) : Prop := ∀ key, v.HasKey key → sensitive key = false

variable {fields : Fields} {v : Value}

theorem noSecrets_obj_iff :
    NoSecrets (.obj fields) ↔ ∀ field ∈ fields, sensitive field.1 = false ∧ NoSecrets field.2 := by
  constructor
  · intro hclean field hfield
    exact ⟨hclean field.1 (.here hfield), fun key hkey => hclean key (.field hfield hkey)⟩
  · intro hfields key hkey
    cases hkey with
    | here hmem => exact (hfields _ hmem).1
    | field hmem hkey => exact (hfields _ hmem).2 key hkey

theorem noSecrets_str (s : Text) : NoSecrets (.str s) := by
  intro key hkey
  cases hkey

theorem sanitize_eq_obj (hsanitized : sanitize v = .obj fields) :
    ∃ source, v = .obj source ∧ fields = sanitizeFields source := by
  cases v with
  | obj source =>
    rw [sanitize, Value.obj.injEq] at hsanitized
    exact ⟨source, rfl, hsanitized.symm⟩
  | _ => cases hsanitized

theorem sanitize_eq_arr {items : List Value} (hsanitized : sanitize v = .arr items) :
    ∃ source, v = .arr source ∧ items = sanitizeItems source := by
  cases v with
  | arr source =>
    rw [sanitize, Value.arr.injEq] at hsanitized
    exact ⟨source, rfl, hsanitized.symm⟩
  | _ => cases hsanitized

theorem mem_sanitizeFields {field : String × Value} (hfield : field ∈ sanitizeFields fields) :
    sensitive field.1 = false ∧ ∃ source, field.2 = sanitize source := by
  rw [sanitizeFields_eq] at hfield
  obtain ⟨⟨k, v⟩, hkept, rfl⟩ := mem_map.mp hfield
  exact ⟨by simpa using (mem_filter.mp hkept).2, v, rfl⟩

theorem noSecrets_sanitize (v : Value) : NoSecrets (sanitize v) := by
  intro key hkey
  -- by induction on where the key stands, for the value that was sanitised
  generalize hsanitized : sanitize v = w at hkey
  induction hkey generalizing v with
  | here hmem =>
    obtain ⟨source, -, rfl⟩ := sanitize_eq_obj hsanitized
    exact (mem_sanitizeFields hmem).1
  | field hmem _ ih =>
    obtain ⟨source, -, rfl⟩ := sanitize_eq_obj hsanitized
    obtain ⟨-, inner, hinner⟩ := mem_sanitizeFields hmem
    exact ih inner hinner.symm
  | item hmem _ ih =>
    obtain ⟨source, -, rfl⟩ := sanitize_eq_arr hsanitized
    rw [sanitizeItems_eq] at hmem
    obtain ⟨inner, -, hinner⟩ := mem_map.mp hmem
    exact ih inner hinner

/-! ## What is stored -/

theorem sensitive_level {level : Text} (hlevel : level ∈ thinkingLevelOrder) :
    sensitive (String.ofList level) = false := by
  have hall : ∀ level ∈ thinkingLevelOrder, sensitive (String.ofList level) = false := by
    decide +kernel
  exact hall level hlevel

theorem noSecrets_importedLevels (model : Value) : NoSecrets (.obj (importedLevels model)) := by
  rw [noSecrets_obj_iff]
  intro field hfield
  obtain ⟨value, hcanonical, hvalue⟩ := mem_importedLevels hfield
  rw [hvalue]
  refine ⟨?_, noSecrets_str value⟩
  have hlevel : field.1.toList ∈ thinkingLevelOrder := by
    rcases canonicalThinkingLevel_eq_some_iff.mp hcanonical with ⟨-, hoff⟩ | ⟨-, hmem⟩
    · rw [hoff]
      decide
    · exact hmem
  rw [← String.ofList_toList (s := field.1)]
  exact sensitive_level hlevel

theorem noSecrets_safeEntry (model : Value) : NoSecrets (safeEntry model) := by
  have hsanitized := noSecrets_sanitize model
  cases model with
  | obj fields =>
    have hsafe : ∀ field ∈ safeFields fields, sensitive field.1 = false ∧ NoSecrets field.2 := by
      intro field hfield
      exact noSecrets_obj_iff.mp hsanitized field
        (mem_of_mem_filter (mem_of_mem_filter hfield))
    rw [safeEntry_obj, thinkingLevelMap_eq]
    split
    · rename_i map hmap
      split_ifs at hmap
      cases hmap
      have hname : sensitive "thinkingLevelMap" = false := by decide +kernel
      rw [noSecrets_obj_iff]
      intro field hfield
      rcases Fields.mem_insert hfield with rfl | hold
      · exact ⟨hname, noSecrets_importedLevels _⟩
      · exact hsafe field hold
    · exact noSecrets_obj_iff.mpr hsafe
  | _ => exact hsanitized

theorem noSecrets_capabilities_iff (providerId : String) (model : Value) :
    NoSecrets (capabilities providerId model) ↔
      ∀ reasoning, model.get "reasoning" = some reasoning → NoSecrets reasoning := by
  have hnames : ∀ name ∈ ["metadata", "reasoning", "source_provider"],
      sensitive name = false := by
    decide +kernel
  rw [capabilities, noSecrets_obj_iff]
  constructor
  · intro hfields reasoning hreasoning
    have hfield := (hfields ("reasoning", (model.get "reasoning").getD .null) (by simp)).2
    rw [hreasoning] at hfield
    exact hfield
  · intro hclean field hfield
    simp only [mem_cons, not_mem_nil, or_false] at hfield
    rcases hfield with rfl | rfl | rfl
    · exact ⟨hnames _ (by simp), noSecrets_safeEntry model⟩
    · refine ⟨hnames _ (by simp), ?_⟩
      cases hreasoning : model.get "reasoning" with
      | none =>
        intro key hkey
        cases hkey
      | some reasoning => exact hclean reasoning hreasoning
    · exact ⟨hnames _ (by simp), noSecrets_str _⟩

section

variable {Cost : Type} [Float64 Cost] [AsF64 Cost] [SerdeJson]

/-- The text that is stored for an accepted entry is that of a value without names of secrets
exactly if there are none in the `reasoning` of the entry. -/
theorem mapModel_stores_no_secret_iff {destination kind providerId : String} {model : Value}
    {mapped : MappedModel Cost}
    (hmapped : mapModel destination kind providerId model = .ok mapped) :
    ∃ stored, SerdeJson.toString stored = some mapped.caps ∧
      stored = capabilities providerId model ∧
      (NoSecrets stored ↔
        ∀ reasoning, model.get "reasoning" = some reasoning → NoSecrets reasoning) :=
  ⟨_, toString_capabilities_of_mapModel hmapped, rfl, noSecrets_capabilities_iff providerId model⟩

end

section

attribute [local instance] jsonText

def keyedEntry (reasoning : Value) : Value :=
  .obj [("api_key", .str "sk-1".toList),
    ("limit", .obj [("context", .num (.int 1000)), ("output", .num (.int 100))]),
    ("name", .str "M".toList), ("reasoning", reasoning)]

def keyedStored (reasoning : Value) : MappedModel ℚ where
  name := "M"
  vision := false
  tools := false
  jsonMode := false
  context := 1000
  output := 100
  inputPrice := none
  outputPrice := none
  caps := Json.print (capabilities "p" (keyedEntry reasoning))

theorem mapModel_keyedEntry (reasoning : Value) :
    mapModel "m" "openai" "p" (keyedEntry reasoning) = .ok (keyedStored reasoning) := rfl

theorem plain_reasoning_stored : NoSecrets (capabilities "p" (keyedEntry (.bool true))) := by
  obtain ⟨stored, -, rfl, hiff⟩ :=
    mapModel_stores_no_secret_iff (mapModel_keyedEntry (.bool true))
  refine hiff.mpr ?_
  intro reasoning hreasoning key hkey
  cases hreasoning
  cases hkey

/-- A name in the `reasoning` of an entry is stored though the same name is dropped beside it. -/
theorem reasoning_secret_stored :
    mapModel "m" "openai" "p" (keyedEntry (.obj [("api_key", .str "sk-2".toList)])) =
        .ok (keyedStored (.obj [("api_key", .str "sk-2".toList)])) ∧
      (keyedStored (.obj [("api_key", .str "sk-2".toList)])).caps =
        ("\x7b\"metadata\":\x7b\"limit\":\x7b\"context\":1000,\"output\":100\x7d," ++
          "\"reasoning\":\x7b\x7d\x7d,\"reasoning\":\x7b\"api_key\":\"sk-2\"\x7d," ++
          "\"source_provider\":\"p\"\x7d").toList ∧
      sensitive "api_key" = true :=
  ⟨rfl, by decide +kernel, by decide +kernel⟩

end

end ModelImport

end LlmProxy
