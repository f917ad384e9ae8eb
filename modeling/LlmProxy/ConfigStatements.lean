import LlmProxy.ConfigTables
import LlmProxy.StatementScript

/-!
# Statements on the managed tables

The SQL statements that write the managed tables, with the constraints of the schema:
`provider_config`, `key_pool` and `model_registry` have a primary key, `key_entry` and
`routing_config` refer to `key_pool`, and the keys of a pool go with it.  A statement that
breaks a constraint fails and changes nothing.
-/

namespace LlmProxy

open Json

def primaryKeyError (column : String) : String :=
  s!"error returned from database: (code: 1555) UNIQUE constraint failed: {column}"

def foreignKeyError : String :=
  "error returned from database: (code: 787) FOREIGN KEY constraint failed"

/-- A key is stored under the hash of its identity. -/
def keyRow [Sha256] (poolId : String) (entry : KeyEntry) : KeyRow where
  poolId := poolId
  keyHash := entry.identityHash
  keyPlain := entry.key
  weight := entry.weight.toNat
  credType := some (credTypeStr entry.credType)
  refreshToken := entry.refresh
  expiresAt := entry.expires
  issuer := entry.issuer

namespace Database

variable {Cost : Type}

def HasPool (db : Database Cost) (poolId : String) : Prop := poolId ∈ db.pools.rows.map PoolRow.id

instance (db : Database Cost) (poolId : String) : Decidable (db.HasPool poolId) :=
  inferInstanceAs (Decidable (poolId ∈ db.pools.rows.map PoolRow.id))

def insertPool (row : PoolRow) (db : Database Cost) : Except String (Database Cost) :=
  match db.pools.insert row with
  | some pools => .ok { db with pools := pools }
  | none => .error (primaryKeyError "key_pool.id")

def insertKey (row : KeyRow) (db : Database Cost) : Except String (Database Cost) :=
  if db.HasPool row.poolId then .ok { db with keys := db.keys ++ [row] } else .error foreignKeyError

def insertProvider (row : ProviderRow) (db : Database Cost) : Except String (Database Cost) :=
  match db.providers.insert row with
  | some providers => .ok { db with providers := providers }
  | none => .error (primaryKeyError "provider_config.id")

/-- `INSERT INTO routing_config`; with `OR REPLACE` it does the same, as no column of a model is
unique. -/
def insertRouting (row : RoutingRow) (db : Database Cost) : Except String (Database Cost) :=
  if db.HasPool row.poolId then .ok { db with routing := db.routing ++ [row] }
  else .error foreignKeyError

def upsertRegistry (row : RegistryRow Cost) (db : Database Cost) : Except String (Database Cost) :=
  .ok { db with registry := db.registry.upsert row }

def deleteRouting (keep : RoutingRow → Bool) (db : Database Cost) : Except String (Database Cost) :=
  .ok { db with routing := db.routing.filter keep }

def deleteKeys (keep : KeyRow → Bool) (db : Database Cost) : Except String (Database Cost) :=
  .ok { db with keys := db.keys.filter keep }

/-- `DELETE FROM key_pool`: the keys of the pools are deleted as well, and a route to one of the
pools stands in the way. -/
def deletePools (keep : PoolRow → Bool) (db : Database Cost) : Except String (Database Cost) :=
  let kept := db.pools.filter keep
  if ∀ row ∈ db.routing, row.poolId ∈ kept.rows.map PoolRow.id then
    .ok { db with
      pools := kept
      keys := db.keys.filter fun row => row.poolId ∈ kept.rows.map PoolRow.id }
  else .error foreignKeyError

def deleteProviders (keep : ProviderRow → Bool) (db : Database Cost) :
    Except String (Database Cost) :=
  .ok { db with providers := db.providers.filter keep }

/-! ## Rows that are appended -/

structure Appends (before after : Database Cost) (pools : List PoolRow) (keys : List KeyRow)
    (providers : List ProviderRow) (routing : List RoutingRow) : Prop where
  pools : after.pools.rows = before.pools.rows ++ pools
  keys : after.keys = before.keys ++ keys
  providers : after.providers.rows = before.providers.rows ++ providers
  routing : after.routing = before.routing ++ routing
  registry : after.registry = before.registry
  overrides : after.overrides = before.overrides

theorem Appends.refl (db : Database Cost) : Appends db db [] [] [] [] := by
  constructor <;> simp

variable {before after : Database Cost}

theorem Appends.trans {middle : Database Cost} {pools pools' : List PoolRow}
    {keys keys' : List KeyRow} {providers providers' : List ProviderRow}
    {routing routing' : List RoutingRow}
    (hfirst : Appends before middle pools keys providers routing)
    (hsecond : Appends middle after pools' keys' providers' routing') :
    Appends before after (pools ++ pools') (keys ++ keys') (providers ++ providers')
      (routing ++ routing') := by
  constructor
  · rw [hsecond.pools, hfirst.pools, List.append_assoc]
  · rw [hsecond.keys, hfirst.keys, List.append_assoc]
  · rw [hsecond.providers, hfirst.providers, List.append_assoc]
  · rw [hsecond.routing, hfirst.routing, List.append_assoc]
  · rw [hsecond.registry, hfirst.registry]
  · rw [hsecond.overrides, hfirst.overrides]

theorem insertPool_eq_ok {row : PoolRow} (hinsert : insertPool row before = .ok after) :
    Appends before after [row] [] [] [] := by
  unfold insertPool at hinsert
  cases hpools : before.pools.insert row with
  | none => simp [hpools] at hinsert
  | some =>
    simp only [hpools, Except.ok.injEq] at hinsert
    subst hinsert
    constructor <;> simp [(KeyedTable.insert_eq_some_iff.mp hpools).2]

theorem insertKey_eq_ok {row : KeyRow} (hinsert : insertKey row before = .ok after) :
    Appends before after [] [row] [] [] := by
  unfold insertKey at hinsert
  split_ifs at hinsert
  cases hinsert
  constructor <;> simp

theorem insertProvider_eq_ok {row : ProviderRow} (hinsert : insertProvider row before = .ok after) :
    Appends before after [] [] [row] [] := by
  unfold insertProvider at hinsert
  cases hproviders : before.providers.insert row with
  | none => simp [hproviders] at hinsert
  | some =>
    simp only [hproviders, Except.ok.injEq] at hinsert
    subst hinsert
    constructor <;> simp [(KeyedTable.insert_eq_some_iff.mp hproviders).2]

theorem insertRouting_eq_ok {row : RoutingRow} (hinsert : insertRouting row before = .ok after) :
    Appends before after [] [] [] [row] := by
  unfold insertRouting at hinsert
  split_ifs at hinsert
  cases hinsert
  constructor <;> simp

theorem Appends.hasPool_iff {pools : List PoolRow} {keys : List KeyRow}
    {providers : List ProviderRow} {routing : List RoutingRow}
    (happends : Appends before after pools keys providers routing) (poolId : String) :
    after.HasPool poolId ↔ before.HasPool poolId ∨ poolId ∈ pools.map PoolRow.id := by
  unfold HasPool
  rw [happends.pools, List.map_append, List.mem_append]

theorem exists_insertPool (row : PoolRow) (hfresh : ¬before.HasPool row.id) :
    ∃ after, insertPool row before = .ok after := by
  unfold HasPool at hfresh
  unfold insertPool KeyedTable.insert
  rw [dif_neg hfresh]
  exact ⟨_, rfl⟩

theorem exists_insertKey (row : KeyRow) (hpool : before.HasPool row.poolId) :
    ∃ after, insertKey row before = .ok after :=
  ⟨_, if_pos hpool⟩

theorem exists_insertProvider (row : ProviderRow)
    (hfresh : row.id ∉ before.providers.rows.map ProviderRow.id) :
    ∃ after, insertProvider row before = .ok after := by
  unfold insertProvider KeyedTable.insert
  rw [dif_neg hfresh]
  exact ⟨_, rfl⟩

theorem exists_insertRouting (row : RoutingRow) (hpool : before.HasPool row.poolId) :
    ∃ after, insertRouting row before = .ok after :=
  ⟨_, if_pos hpool⟩

end Database

end LlmProxy
