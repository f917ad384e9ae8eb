import LlmProxy.KeyedFold
import LlmProxy.KeyedTable
import LlmProxy.ProviderChat

/-!
# Managed configuration and the tables it is kept in

The configuration values of `config/mod.rs` that an administrator manages, the
tables of the database they are kept in, and the loaders of `config_store.rs` that
read the values back.
-/

namespace LlmProxy

open Json List

/-! ## Configuration values -/

structure ProviderConfig where
  id : String
  poolId : String
  baseUrl : String
  kind : ProviderKind
  metadata : Value
  deriving DecidableEq

inductive ModelRouting where
  | simple (pool : String)
  | withParams (pool : String) (defaultParams : Value) (upstreamModel : Option String)
  deriving DecidableEq

def isObject : Value → Bool
  | .obj _ => true
  | _ => false

/-- `name.map(str::trim).filter(|s| !s.is_empty())`. -/
def trimmedName (name : Option String) : Option String :=
  KeyEntry.nonEmpty (name.map fun s => String.ofList (trim s.toList))

theorem trim_trim (s : Text) : trim (trim s) = trim s := by
  have hstart : trimStart (trim s) = trim s := by
    unfold trim trimStart
    cases hkept : (s.dropWhile isWhitespace).rdropWhile isWhitespace with
    | nil => rfl
    | cons c =>
      have hfirst : (s.dropWhile isWhitespace).head? = some c := by
        obtain ⟨tail, htail⟩ := rdropWhile_prefix isWhitespace (s.dropWhile isWhitespace)
        rw [← htail, hkept]
        rfl
      have hvisible := head?_dropWhile_not isWhitespace s
      rw [hfirst] at hvisible
      exact dropWhile_cons_of_neg (by simpa using hvisible)
  rw [trim, hstart]
  exact rdropWhile_idempotent isWhitespace _

theorem trimmedName_trimmedName (name : Option String) :
    trimmedName (trimmedName name) = trimmedName name := by
  cases name with
  | none => rfl
  | some =>
    unfold trimmedName KeyEntry.nonEmpty
    simp only [Option.map_some, Option.filter_some]
    split_ifs with hblank
    · simp [trim_trim, hblank]
    · rfl

namespace ModelRouting

def poolId : ModelRouting → String
  | simple pool => pool
  | withParams pool _ _ => pool

/-- Parameters that are no object are ignored. -/
def defaultParams : ModelRouting → Option Value
  | simple _ => none
  | withParams _ params _ => if isObject params then some params else none

/-- A blank name counts as none. -/
def upstreamModel : ModelRouting → Option String
  | simple _ => none
  | withParams _ _ upstream => trimmedName upstream

def parts (route : ModelRouting) : String × Option Value × Option String :=
  (route.poolId, route.defaultParams, route.upstreamModel)

theorem parts_withParams (pool : String) (params : Value) (upstream : Option String) :
    (withParams pool params upstream).parts =
      (pool, if isObject params then some params else none, trimmedName upstream) := rfl

theorem isObject_of_defaultParams {route : ModelRouting} {params : Value}
    (hparams : route.defaultParams = some params) : isObject params = true := by
  cases route with
  | simple => cases hparams
  | withParams =>
    simp only [defaultParams] at hparams
    split_ifs at hparams with hobject
    cases hparams
    exact hobject

theorem trimmedName_upstreamModel (route : ModelRouting) :
    trimmedName route.upstreamModel = route.upstreamModel := by
  cases route with
  | simple => rfl
  | withParams pool params upstream => exact trimmedName_trimmedName upstream

end ModelRouting

/-! ## Rows -/

structure ProviderRow where
  id : String
  kind : String
  baseUrl : String
  poolId : String
  enabled : Bool := true
  metadata : Option Text
  deriving DecidableEq

structure PoolRow where
  id : String
  strategy : String := "weighted_random"
  enabled : Bool := true
  deriving DecidableEq

structure KeyRow where
  poolId : String
  keyHash : String
  keyPlain : String
  weight : ℤ
  enabled : Bool := true
  credType : Option String
  refreshToken : Option String
  expiresAt : Option ℤ
  issuer : Option String
  deriving DecidableEq

structure RoutingRow where
  logicalModel : String
  poolId : String
  defaultParams : Option Text
  upstreamModel : Option String
  enabled : Bool := true
  deriving DecidableEq

/-- A row of `model_registry`.  The limits are SQLite integers: a catalog import writes any
positive `i64` to them, the loaders read them as `i32`. -/
structure RegistryRow (Cost : Type) where
  id : String
  displayName : String
  providerKind : String
  providerConfigId : Option String := none
  supportsVision : Bool := false
  supportsToolCalling : Bool := false
  supportsJsonMode : Bool := false
  maxContextTokens : ℤ := 4096
  maxOutputTokens : ℤ := 4096
  inputPricePer1m : Option Cost
  outputPricePer1m : Option Cost
  capabilitiesJson : Option Text := none
  enabled : Bool := true
  deriving DecidableEq

structure PricingOverride (Cost : Type) where
  modelId : String
  tenantId : Option String
  inputPricePer1m : Cost
  outputPricePer1m : Cost
  effectiveFrom : ℤ
  effectiveUntil : Option ℤ
  deriving DecidableEq

structure Database (Cost : Type) where
  providers : KeyedTable ProviderRow.id
  pools : KeyedTable PoolRow.id
  keys : List KeyRow
  routing : List RoutingRow
  registry : KeyedTable fun row : RegistryRow Cost => row.id
  overrides : List (PricingOverride Cost)

def Database.empty {Cost : Type} : Database Cost where
  providers := .empty
  pools := .empty
  keys := []
  routing := []
  registry := .empty
  overrides := []

/-! ## Loaders -/

def providerKindToStr : ProviderKind → String
  | .openAi => "openai"
  | .anthropic => "anthropic"
  | .gemini => "gemini"

/-- OpenAI goes by two names. -/
def strToProviderKind (s : String) : Except AppError ProviderKind :=
  match s with
  | "openai" => .ok .openAi
  | "open_ai" => .ok .openAi
  | "anthropic" => .ok .anthropic
  | "gemini" => .ok .gemini
  | other => .error (.config s!"Unsupported provider kind '{other}'")

@[simp] theorem strToProviderKind_toStr (kind : ProviderKind) :
    strToProviderKind (providerKindToStr kind) = .ok kind := by
  cases kind <;> rfl

/-- `eq_ignore_ascii_case("oauth")` on the column. -/
def parseCredType (raw : Option String) : CredentialType :=
  match raw with
  | some s => if s.toLower == "oauth" then .oauth else .apiKey
  | none => .apiKey

def credTypeStr : CredentialType → String
  | .apiKey => "api_key"
  | .oauth => "oauth"

section

variable [SerdeJson]

/-- Metadata that does not parse is read as an empty object. -/
def ProviderRow.load (row : ProviderRow) : Except AppError ProviderConfig := do
  let metadata := (row.metadata.bind SerdeJson.fromStr).getD (.obj [])
  let kind ← strToProviderKind row.kind
  return { id := row.id, kind, baseUrl := row.baseUrl, poolId := row.poolId, metadata }

/-- One unknown kind fails the whole load. -/
def loadProviders (rows : List ProviderRow) : Except AppError (List ProviderConfig) :=
  (rows.filter ProviderRow.enabled).mapM ProviderRow.load

/-- The stored hash is the identity of the key. -/
def KeyRow.load (row : KeyRow) : KeyEntry where
  key := row.keyPlain
  weight := UInt32.ofInt row.weight
  credType := parseCredType row.credType
  refresh := row.refreshToken
  expires := row.expiresAt
  issuer := row.issuer
  identity := some row.keyHash

def keysByPool (rows : List KeyRow) : AList fun _ : String => List KeyEntry :=
  KeyedFold.upsertAll KeyRow.poolId (fun row old => old.getD [] ++ [row.load]) ∅
    (rows.filter KeyRow.enabled)

def takePool
    (loaded : (AList fun _ : String => List KeyEntry) × (AList fun _ : String => PoolConfig))
    (row : PoolRow) :
    (AList fun _ : String => List KeyEntry) × (AList fun _ : String => PoolConfig) :=
  (loaded.1.erase row.id, loaded.2.insert row.id ⟨(loaded.1.lookup row.id).getD []⟩)

/-- A disabled pool is left out, with its keys. -/
def loadPools (pools : List PoolRow) (keys : List KeyRow) : AList fun _ : String => PoolConfig :=
  ((pools.filter PoolRow.enabled).foldl takePool (keysByPool keys, ∅)).2

/-- A route without parameters and upstream name is a simple one. -/
def RoutingRow.load (row : RoutingRow) : ModelRouting :=
  let defaultParams := (row.defaultParams.bind SerdeJson.fromStr).getD .null
  let upstreamModel := trimmedName row.upstreamModel
  if isObject defaultParams || upstreamModel.isSome then
    .withParams row.poolId defaultParams upstreamModel
  else .simple row.poolId

/-- Of two enabled rows for a model the later one counts. -/
def loadRouting (rows : List RoutingRow) : AList fun _ : String => ModelRouting :=
  (rows.filter RoutingRow.enabled).foldl
    (fun routing row => routing.insert row.logicalModel row.load) ∅

end

def FitsI32 (n : ℤ) : Prop := -2 ^ 31 ≤ n ∧ n < 2 ^ 31

instance (n : ℤ) : Decidable (FitsI32 n) := inferInstanceAs (Decidable (_ ∧ _))

theorem fitsI32_toInt (n : Int32) : FitsI32 n.toInt := ⟨n.le_toInt, n.toInt_lt⟩

/-- sqlx decodes the column of an `i32` field, and fails on an integer that does not fit. -/
def decodeI32 (column : String) (n : ℤ) : Except String Unit :=
  if FitsI32 n then .ok ()
  else .error (s!"error occurred while decoding column \"{column}\": " ++
    "out of range integral type conversion attempted")

section

variable {Cost : Type} {row other : RegistryRow Cost}

def RegistryRow.decode (row : RegistryRow Cost) : Except String (RegistryRow Cost) := do
  decodeI32 "max_context_tokens" row.maxContextTokens
  decodeI32 "max_output_tokens" row.maxOutputTokens
  return row

/-- The limits of the row can be loaded. -/
def RegistryRow.Fits (row : RegistryRow Cost) : Prop :=
  FitsI32 row.maxContextTokens ∧ FitsI32 row.maxOutputTokens

instance : Decidable row.Fits := inferInstanceAs (Decidable (_ ∧ _))

theorem RegistryRow.decode_eq_ok_iff : row.decode = .ok other ↔ row.Fits ∧ other = row := by
  unfold RegistryRow.decode RegistryRow.Fits decodeI32
  by_cases hcontext : FitsI32 row.maxContextTokens
  · by_cases houtput : FitsI32 row.maxOutputTokens
    · simp [hcontext, houtput, bind, Except.bind, pure, Except.pure, eq_comm]
    · simp [hcontext, houtput, bind, Except.bind]
  · simp [hcontext, bind, Except.bind]

end

/-! ### What the loaders return for a name -/

def poolKeys (rows : List KeyRow) (pool : String) : List KeyEntry :=
  ((rows.filter KeyRow.enabled).filter fun row => row.poolId = pool).map KeyRow.load

theorem poolKeys_append (first second : List KeyRow) (pool : String) :
    poolKeys (first ++ second) pool = poolKeys first pool ++ poolKeys second pool := by
  unfold poolKeys
  rw [filter_append, filter_append, map_append]

theorem foldl_push {A B : Type} (f : A → B) (old : Option (List B)) (items : List A) :
    (items.foldl (fun old item => some (old.getD [] ++ [f item])) old).getD [] =
      old.getD [] ++ items.map f := by
  induction items generalizing old with
  | nil => simp
  | cons item rest ih => simp [ih]

theorem lookup_keysByPool (rows : List KeyRow) (pool : String) :
    ((keysByPool rows).lookup pool).getD [] = poolKeys rows pool := by
  rw [keysByPool, KeyedFold.lookup_upsertAll, foldl_push]
  rfl

theorem lookup_foldl_takePool (rows : List PoolRow) (hnodup : (rows.map PoolRow.id).Nodup)
    (loaded : (AList fun _ : String => List KeyEntry) × (AList fun _ : String => PoolConfig))
    (pool : String) :
    (rows.foldl takePool loaded).2.lookup pool =
      if pool ∈ rows.map PoolRow.id then some ⟨(loaded.1.lookup pool).getD []⟩
      else loaded.2.lookup pool := by
  induction rows generalizing loaded with
  | nil => rfl
  | cons row rest ih =>
    rw [map_cons, nodup_cons] at hnodup
    rw [foldl_cons, ih hnodup.2, takePool]
    by_cases hpool : pool = row.id
    · rw [if_neg (hpool ▸ hnodup.1), hpool, AList.lookup_insert, if_pos (by simp)]
    · rw [AList.lookup_erase_ne hpool]
      simp [hpool]

theorem lookup_loadPools (pools : KeyedTable PoolRow.id) (keys : List KeyRow) (pool : String) :
    (loadPools pools.rows keys).lookup pool =
      if pool ∈ (pools.rows.filter PoolRow.enabled).map PoolRow.id then
        some ⟨poolKeys keys pool⟩
      else none := by
  have hnodup : ((pools.rows.filter PoolRow.enabled).map PoolRow.id).Nodup :=
    (pools.filter PoolRow.enabled).nodup
  rw [loadPools, lookup_foldl_takePool _ hnodup, lookup_keysByPool]
  rfl

variable [SerdeJson]

theorem lookup_loadRouting (rows : List RoutingRow) (model : String) :
    (loadRouting rows).lookup model =
      ((rows.filter RoutingRow.enabled).filter fun row => row.logicalModel = model).getLast?.map
        RoutingRow.load := by
  have hfold : loadRouting rows = KeyedFold.upsertAll RoutingRow.logicalModel
      (fun row _ => row.load) ∅ (rows.filter RoutingRow.enabled) := rfl
  rw [hfold, KeyedFold.lookup_upsertAll, KeyedFold.foldl_some]
  simp

end LlmProxy
