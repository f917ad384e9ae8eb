import LlmProxy.SentBody

/-!
# The prompt cache

`cache/mod.rs` keeps answers under a digest of some fields of a request: the model, the role and the
content of each message, the temperature and the tools.
-/

namespace LlmProxy

open Json List Utf8Bytes

/-! ## The key -/

def SerdeJson.TellsApart [SerdeJson] : Prop :=
  ∀ (v w : Value) (s : Text), SerdeJson.toString v = some s → SerdeJson.toString w = some s → v = w

theorem jsonText_tellsApart : @SerdeJson.TellsApart jsonText := by
  intro v w s hv hw
  apply print_injective
  rw [Option.some.inj hv, Option.some.inj hw]

def fieldSeparator : UInt8 := 0xff

def temperatureBytes (temperature : Option F64) : Bytes :=
  (temperature.map fun t => toBytes t.display).getD []

section

variable [SerdeJson]

/-- `serde_json::to_vec(v).unwrap_or_default()`. -/
def jsonBytes (v : Value) : Bytes := ((SerdeJson.toString v).map toBytes).getD []

def messageBytes (m : Message) : Bytes :=
  toBytes m.role ++ [fieldSeparator] ++ jsonBytes m.content ++ [fieldSeparator]

/-- The separator is a byte that no text contains, so the bytes determine the fields. -/
def keyInput (req : ChatCompletionRequest) : Bytes :=
  utf8 req.model ++ [fieldSeparator] ++ req.messages.flatMap messageBytes ++ [fieldSeparator] ++
    temperatureBytes req.temperature ++ [fieldSeparator] ++ jsonBytes (req.tools.getD .null)

def cacheKey {Key : Type} (digest : Bytes → Key) (req : ChatCompletionRequest) : Key :=
  digest (keyInput req)

end

/-- The digest of the cache: six bytes of SHA-256 in hexadecimal. -/
def shortDigest [Sha256] (bytes : Bytes) : String :=
  String.ofList (((Sha256.digest bytes).take 6).flatMap hexByte)

/-! ### What it determines -/

theorem fieldSeparator_not_mem (text : Text) : fieldSeparator ∉ toBytes text := by
  intro hmem
  exact absurd (toNat_lt_of_mem_toBytes hmem) (by decide)

theorem fieldSeparator_not_mem_temperature (temperature : Option F64) :
    fieldSeparator ∉ temperatureBytes temperature := by
  cases temperature with
  | none => simp [temperatureBytes]
  | some t => exact fieldSeparator_not_mem t.display

theorem temperatureBytes_injective : Function.Injective temperatureBytes := by
  have hsome : ∀ t : F64, temperatureBytes (some t) ≠ [] := by
    intro t hnil
    exact t.display_ne_nil (toBytes_injective hnil)
  intro a b heq
  cases a with
  | none =>
    cases b with
    | none => rfl
    | some u => exact absurd heq.symm (hsome u)
  | some t =>
    cases b with
    | none => exact absurd heq (hsome t)
    | some => rw [F64.display_injective (toBytes_injective heq)]

section

variable [SerdeJson]

theorem fieldSeparator_not_mem_json (v : Value) : fieldSeparator ∉ jsonBytes v := by
  unfold jsonBytes
  cases SerdeJson.toString v with
  | none => simp
  | some s => exact fieldSeparator_not_mem s

theorem jsonBytes_injective (hjson : SerdeJson.Lawful) (htells : SerdeJson.TellsApart) :
    Function.Injective jsonBytes := by
  intro v w heq
  obtain ⟨s, hs⟩ := hjson.prints v
  obtain ⟨t, ht⟩ := hjson.prints w
  unfold jsonBytes at heq
  rw [hs, ht] at heq
  obtain rfl := toBytes_injective heq
  exact htells v w s hs ht

def messageSegments (m : Message) : List Bytes := [toBytes m.role, jsonBytes m.content]

variable (req : ChatCompletionRequest)

def keySegments : List Bytes :=
  utf8 req.model :: req.messages.flatMap messageSegments ++
    [[], temperatureBytes req.temperature, jsonBytes (req.tools.getD .null)]

theorem intercalate_messageSegments (messages : List Message) {others : List Bytes}
    (hothers : others ≠ []) :
    [fieldSeparator].intercalate (messages.flatMap messageSegments ++ others) =
      messages.flatMap messageBytes ++ [fieldSeparator].intercalate others := by
  induction messages with
  | nil => rfl
  | cons m messages ih =>
    have hmore : messages.flatMap messageSegments ++ others ≠ [] := by simp [hothers]
    rw [flatMap_cons, flatMap_cons, messageSegments, append_assoc,
      cons_append, cons_append, nil_append, intercalate_cons_cons,
      intercalate_cons_of_ne_nil hmore, ih, messageBytes]
    simp only [append_assoc]

theorem keyInput_eq_intercalate :
    keyInput req = [fieldSeparator].intercalate (keySegments req) := by
  have hlater : req.messages.flatMap messageSegments ++
      [[], temperatureBytes req.temperature, jsonBytes (req.tools.getD .null)] ≠ [] := by simp
  rw [keySegments, cons_append, intercalate_cons_of_ne_nil hlater,
    intercalate_messageSegments _ (by simp), intercalate_cons_cons,
    intercalate_cons_cons, intercalate_singleton, keyInput]
  simp only [append_assoc, nil_append]

theorem fieldSeparator_not_mem_keySegments :
    ∀ segment ∈ keySegments req, fieldSeparator ∉ segment := by
  intro segment hsegment
  rcases mem_append.mp hsegment with hfirst | hlast
  · rcases mem_cons.mp hfirst with rfl | hmessage
    · exact fieldSeparator_not_mem _
    · obtain ⟨m, -, hm⟩ := mem_flatMap.mp hmessage
      simp only [messageSegments, mem_cons, not_mem_nil, or_false] at hm
      rcases hm with rfl | rfl
      · exact fieldSeparator_not_mem m.role
      · exact fieldSeparator_not_mem_json m.content
  · simp only [mem_cons, not_mem_nil, or_false] at hlast
    rcases hlast with rfl | rfl | rfl
    · simp
    · exact fieldSeparator_not_mem_temperature req.temperature
    · exact fieldSeparator_not_mem_json _

theorem keySegments_eq_of_keyInput_eq {r s : ChatCompletionRequest}
    (hinput : keyInput r = keyInput s) : keySegments r = keySegments s := by
  have hsplit : ∀ req : ChatCompletionRequest,
      (keyInput req).splitOn fieldSeparator = keySegments req := by
    intro req
    rw [keyInput_eq_intercalate]
    exact splitOn_intercalate _ (fieldSeparator_not_mem_keySegments req)
      (by simp [keySegments])
  rw [← hsplit, hinput, hsplit]

variable {b a : List Message}

theorem messageSegments_injective (heq : a.flatMap messageSegments = b.flatMap messageSegments) :
    a.map messageSegments = b.map messageSegments := by
  induction a generalizing b with
  | nil =>
    cases b with
    | nil => rfl
    | cons => cases heq
  | cons m a ih =>
    cases b with
    | nil => cases heq
    | cons n b =>
      have hparts : messageSegments m ++ a.flatMap messageSegments =
          messageSegments n ++ b.flatMap messageSegments := heq
      obtain ⟨hsame, hmore⟩ := append_inj hparts rfl
      rw [map_cons, map_cons, hsame, ih hmore]

theorem keyInput_eq {r s : ChatCompletionRequest} (hinput : keyInput r = keyInput s) :
    r.model = s.model ∧ r.messages.map messageSegments = s.messages.map messageSegments ∧
      r.temperature = s.temperature ∧
      jsonBytes (r.tools.getD .null) = jsonBytes (s.tools.getD .null) := by
  obtain ⟨hfirst, hlast⟩ := append_inj' (keySegments_eq_of_keyInput_eq hinput) rfl
  obtain ⟨hmodel, hmessages⟩ := List.cons.inj hfirst
  simp only [List.cons.injEq, true_and, and_true] at hlast
  exact ⟨String.toList_injective (toBytes_injective hmodel), messageSegments_injective hmessages,
    temperatureBytes_injective hlast.1, hlast.2⟩

def messageKey (m : Message) : Text × Bytes := (m.role, jsonBytes m.content)

theorem messageSegments_eq_iff {m n : Message} :
    messageSegments m = messageSegments n ↔ messageKey m = messageKey n := by
  have hrole : toBytes m.role = toBytes n.role ↔ m.role = n.role :=
    ⟨fun heq => toBytes_injective heq, congrArg toBytes⟩
  simp [messageSegments, messageKey, hrole]

theorem map_messageSegments_eq_iff :
    a.map messageSegments = b.map messageSegments ↔ a.map messageKey = b.map messageKey := by
  induction a generalizing b with
  | nil => simp
  | cons m a ih =>
    cases b with
    | nil => simp
    | cons => simp only [map_cons, List.cons.injEq, messageSegments_eq_iff, ih]

theorem flatMap_messageBytes_congr (hkeys : a.map messageKey = b.map messageKey) :
    a.flatMap messageBytes = b.flatMap messageBytes := by
  have hbytes : ∀ messages : List Message, messages.flatMap messageBytes =
      (messages.map messageKey).flatMap fun key =>
        toBytes key.1 ++ [fieldSeparator] ++ key.2 ++ [fieldSeparator] := by
    intro messages
    rw [flatMap_map]
    rfl
  rw [hbytes, hbytes, hkeys]

/-- The same bytes are hashed for exactly the requests that agree in the fields of the
key: neither a field nor a message can be taken for a part of another. -/
theorem keyInput_eq_iff (r s : ChatCompletionRequest) :
    keyInput r = keyInput s ↔
      r.model = s.model ∧ r.messages.length = s.messages.length ∧
        r.messages.map messageKey = s.messages.map messageKey ∧
        r.temperature.map F64.display = s.temperature.map F64.display ∧
        jsonBytes (r.tools.getD .null) = jsonBytes (s.tools.getD .null) := by
  constructor
  · intro hinput
    obtain ⟨hmodel, hmessages, htemperature, htools⟩ := keyInput_eq hinput
    have hlength : r.messages.length = s.messages.length := by
      simpa using congrArg List.length hmessages
    exact ⟨hmodel, hlength, map_messageSegments_eq_iff.mp hmessages, by rw [htemperature], htools⟩
  · rintro ⟨hmodel, -, hmessages, htemperature, htools⟩
    have hbytes : ∀ t : Option F64,
        temperatureBytes t = ((t.map F64.display).map toBytes).getD [] := by
      intro t
      rw [Option.map_map]
      rfl
    rw [keyInput, keyInput, hmodel, flatMap_messageBytes_congr hmessages, hbytes, htemperature,
      ← hbytes, htools]

end

/-! ## The cache -/

structure CacheEntry (α : Type) where
  response : α
  createdAt : ℕ

/-- Instants and durations are nanoseconds. -/
structure PromptCache (Key α : Type) where
  inner : AList fun _ : Key => CacheEntry α
  maxEntries : ℕ
  ttl : ℕ

namespace PromptCache

variable {Key α : Type}

def defaultMaxEntries : ℕ := 256

def new (maxEntries : ℕ) : PromptCache Key α where
  inner := ∅
  maxEntries := if maxEntries = 0 then defaultMaxEntries else maxEntries
  ttl := 300 * 10 ^ 9

variable [DecidableEq Key]

def oldest (cache : PromptCache Key α) (scan : List Key) : Option (Key × ℕ) :=
  scan.foldl (fun oldest key =>
    match cache.inner.lookup key with
    | none => oldest
    | some entry =>
      if oldest.all (entry.createdAt < ·.2) then some (key, entry.createdAt) else oldest) none

/-- A full cache loses its oldest entry. -/
def evictOldestIfNeeded (scan : List Key) (cache : PromptCache Key α) : PromptCache Key α :=
  if cache.inner.entries.length < cache.maxEntries then cache
  else
    match cache.oldest scan with
    | some (key, _) => { cache with inner := cache.inner.erase key }
    | none => cache

variable [SerdeJson] (digest : Bytes → Key)

/-- An answer that is too old is removed. -/
def get (now : ℕ) (req : ChatCompletionRequest) (cache : PromptCache Key α) :
    Option α × PromptCache Key α :=
  match cache.inner.lookup (cacheKey digest req) with
  | none => (none, cache)
  | some entry =>
    if cache.ttl < now - entry.createdAt then
      (none, { cache with inner := cache.inner.erase (cacheKey digest req) })
    else (some entry.response, cache)

def put (now : ℕ) (scan : List Key) (req : ChatCompletionRequest) (response : α)
    (cache : PromptCache Key α) : PromptCache Key α :=
  let cache := cache.evictOldestIfNeeded scan
  { cache with inner := cache.inner.insert (cacheKey digest req) ⟨response, now⟩ }

variable {cache : PromptCache Key α} {req : ChatCompletionRequest} {entry : CacheEntry α} {now : ℕ}
  {key : Key} {response : α}

omit [SerdeJson] in
theorem lookup_erase_eq_some {other : Key}
    (hlookup : (cache.inner.erase other).lookup key = some entry) :
    cache.inner.lookup key = some entry := by
  by_cases hkey : key = other
  · rw [hkey, AList.lookup_erase] at hlookup
    cases hlookup
  · rwa [AList.lookup_erase_ne hkey] at hlookup

omit [SerdeJson] in
theorem lookup_evict_eq_some {scan : List Key}
    (hlookup : (cache.evictOldestIfNeeded scan).inner.lookup key = some entry) :
    cache.inner.lookup key = some entry := by
  unfold evictOldestIfNeeded at hlookup
  split_ifs at hlookup
  · exact hlookup
  · split at hlookup
    · exact lookup_erase_eq_some hlookup
    · exact hlookup

theorem lookup_put_eq_some {scan : List Key}
    (hlookup : (cache.put digest now scan req response).inner.lookup key = some entry) :
    key = cacheKey digest req ∧ entry = ⟨response, now⟩ ∨
      key ≠ cacheKey digest req ∧ cache.inner.lookup key = some entry := by
  unfold put at hlookup
  by_cases hkey : key = cacheKey digest req
  · dsimp only at hlookup
    rw [hkey, AList.lookup_insert] at hlookup
    exact .inl ⟨hkey, (Option.some.inj hlookup).symm⟩
  · dsimp only at hlookup
    rw [AList.lookup_insert_ne hkey] at hlookup
    exact .inr ⟨hkey, lookup_evict_eq_some hlookup⟩

theorem lookup_get_eq_some (hlookup : (cache.get digest now req).2.inner.lookup key = some entry) :
    cache.inner.lookup key = some entry := by
  unfold get at hlookup
  split at hlookup
  · exact hlookup
  · split_ifs at hlookup
    · exact lookup_erase_eq_some hlookup
    · exact hlookup

omit [SerdeJson] in
@[simp] theorem ttl_evict (cache : PromptCache Key α) (scan : List Key) :
    (cache.evictOldestIfNeeded scan).ttl = cache.ttl := by
  unfold evictOldestIfNeeded
  split_ifs
  · rfl
  · split
    · rfl
    · rfl

@[simp] theorem ttl_get (cache : PromptCache Key α) (now : ℕ) (req : ChatCompletionRequest) :
    (cache.get digest now req).2.ttl = cache.ttl := by
  unfold get
  split
  · rfl
  · split_ifs
    · rfl
    · rfl

theorem get_fresh (hhit : (cache.get digest now req).1 = some response) :
    ∃ entry, cache.inner.lookup (cacheKey digest req) = some entry ∧
      entry.response = response ∧ now - entry.createdAt ≤ cache.ttl := by
  unfold get at hhit
  split at hhit
  · cases hhit
  · rename_i entry hlookup
    split_ifs at hhit with hold
    exact ⟨entry, hlookup, Option.some.inj hhit, Nat.le_of_not_lt hold⟩

theorem get_eq_some (hhit : (cache.get digest now req).1 = some response) :
    ∃ entry, cache.inner.lookup (cacheKey digest req) = some entry ∧ entry.response = response := by
  obtain ⟨entry, hlookup, hresponse, -⟩ := get_fresh digest hhit
  exact ⟨entry, hlookup, hresponse⟩

end PromptCache

end LlmProxy
