import LlmProxy.RouterRebuild
import LlmProxy.TokenRotation

/-!
# The identity of a key while its tokens rotate

Rotations by `ensure_fresh`, reloads of the snapshot and rebuilds of the router, in any order,
without an import or an edit between them.
-/

namespace LlmProxy

open CredentialRuntime List Option StepSystem

variable {Cost : Type}

structure ReloadingGateway (Cost : Type) where
  tables : Database Cost
  credentials : CredentialRuntime.State
  snapshot : ConfigSnapshot Cost
  router : Router UpstreamProvider

namespace ReloadingGateway

def db (gateway : ReloadingGateway Cost) : Database Cost :=
  { gateway.tables with keys := gateway.credentials.keys }

def boot (db : Database Cost) (snapshot : ConfigSnapshot Cost) (router : Router UpstreamProvider) :
    ReloadingGateway Cost :=
  ⟨db, .boot db.keys, snapshot, router⟩

inductive Action
  | credential (action : CredentialRuntime.Action)
  | reload (nowMs : ℤ) (fault : ManagedTable → Option String)
  | rebuild

def Action.persists : Action → Bool
  | .credential action => action.persists
  | _ => true

variable [Sha256] [SerdeJson] [Float64 Cost]

def step (registry : ProviderRegistry) (badStatusCodes : List UInt16)
    (gateway : ReloadingGateway Cost) : Action → Option (ReloadingGateway Cost)
  | .credential action =>
    (CredentialRuntime.step gateway.credentials action).map fun credentials =>
      { gateway with credentials := credentials }
  | .reload nowMs fault =>
    match gateway.snapshot.refreshFromDb { db := gateway.db, nowMs := nowMs, fault := fault } with
    | .ok snapshot => some { gateway with snapshot := snapshot }
    | .error _ => some gateway
  | .rebuild =>
    match rebuildRouter registry badStatusCodes gateway.snapshot.sections with
    | .ok router => some { gateway with router := router }
    | .error _ => some gateway

end ReloadingGateway

/-! ## What a reload makes of the rows -/

theorem nonEmpty_identity_load {row : KeyRow} (hhash : row.keyHash ≠ "") :
    KeyEntry.nonEmpty row.load.identity = some row.keyHash := by
  simp [KeyEntry.nonEmpty, KeyRow.load, hhash]

theorem enabled_rotatedRow (log : List Event) (row : KeyRow) :
    (rotatedRow log row).enabled = row.enabled := by
  unfold rotatedRow KeyRow.rotate
  cases lastPersisted row.keyHash log <;> simp

theorem poolId_rotatedRow (log : List Event) (row : KeyRow) :
    (rotatedRow log row).poolId = row.poolId := by
  unfold rotatedRow KeyRow.rotate
  cases lastPersisted row.keyHash log <;> simp

section

variable [Sha256]

def PoolConfig.identities (pool : PoolConfig) : List String := pool.keys.map KeyEntry.identityHash

def rotatedEntry (log : List Event) (entry : KeyEntry) : KeyEntry :=
  match lastPersisted entry.identityHash log with
  | some live => applyLive entry live
  | none => entry

theorem identityHash_rotatedEntry (log : List Event) (entry : KeyEntry) :
    (rotatedEntry log entry).identityHash = entry.identityHash := by
  unfold rotatedEntry
  split
  · exact identityHash_applyLive entry _
  · rfl

variable {rows : List KeyRow} {row : KeyRow} (log : List Event)

theorem load_rotatedRow (hhash : row.keyHash ≠ "") :
    (rotatedRow log row).load = rotatedEntry log row.load := by
  unfold rotatedRow rotatedEntry
  rw [KeyEntry.identityHash, nonEmpty_identity_load hhash]
  cases lastPersisted row.keyHash log with
  | none => rfl
  | some =>
    simp only [KeyRow.rotate, applyLive, nonEmpty_identity_load hhash]
    simp [KeyRow.load]

theorem poolKeys_rotatedRow (hhash : ∀ row ∈ rows, row.keyHash ≠ "") (pool : String) :
    poolKeys (rows.map (rotatedRow log)) pool = (poolKeys rows pool).map (rotatedEntry log) := by
  have henabled : KeyRow.enabled ∘ rotatedRow log = KeyRow.enabled :=
    funext fun row => enabled_rotatedRow log row
  have hpool : (fun row : KeyRow => decide (row.poolId = pool)) ∘ rotatedRow log =
      fun row => decide (row.poolId = pool) :=
    funext fun row => by rw [Function.comp_apply, poolId_rotatedRow]
  unfold poolKeys
  rw [List.filter_map, henabled, List.filter_map, hpool, List.map_map, List.map_map]
  refine map_congr_left fun row hrow => load_rotatedRow log (hhash row ?_)
  exact mem_of_mem_filter (mem_of_mem_filter hrow)

theorem lookup_loadPools_rotatedRow (pools : KeyedTable PoolRow.id)
    (hhash : ∀ row ∈ rows, row.keyHash ≠ "") (pool : String) :
    (loadPools pools.rows (rows.map (rotatedRow log))).lookup pool =
      ((loadPools pools.rows rows).lookup pool).map fun config =>
        ⟨config.keys.map (rotatedEntry log)⟩ := by
  rw [lookup_loadPools, lookup_loadPools, poolKeys_rotatedRow log hhash]
  split_ifs <;> rfl

theorem identities_map_rotatedEntry (pool : PoolConfig) :
    PoolConfig.identities ⟨pool.keys.map (rotatedEntry log)⟩ = pool.identities := by
  unfold PoolConfig.identities
  rw [List.map_map]
  exact map_congr_left fun entry _ => identityHash_rotatedEntry log entry

/-! ## What is remembered of a key -/

structure Remembered where
  bad : Bool
  circuit : Option CircuitEntry
  live : Option LiveToken

def remembered (marks : BadKeyRegistry) (breaker : CircuitBreaker) (tokens : Tokens)
    (poolId : String) (entry : KeyEntry) : Remembered where
  bad := marks.isBad poolId entry.identityHash
  circuit := breaker.circuits.lookup (poolId, entry.identityHash)
  live := tokens.lookup entry.identityHash

theorem remembered_eq_of_identities {marks : BadKeyRegistry} {breaker : CircuitBreaker}
    {tokens : Tokens} {poolId : String} {pool other : PoolConfig}
    (hsame : pool.identities = other.identities) :
    pool.keys.map (remembered marks breaker tokens poolId) =
      other.keys.map (remembered marks breaker tokens poolId) := by
  have hhash (config : PoolConfig) : config.keys.map (remembered marks breaker tokens poolId) =
      config.identities.map fun hash =>
        ⟨marks.isBad poolId hash, breaker.circuits.lookup (poolId, hash), tokens.lookup hash⟩ := by
    rw [PoolConfig.identities, List.map_map]
    rfl
  rw [hhash, hhash, hsame]

end

section

variable [Sha256] [SerdeJson] [Float64 Cost]

/-- Imports and edits write the hash of the entry, which is not empty, and rotations leave it. -/
theorem keyHash_ne_empty_of_run {changes : List (StoreChange Cost)} {db : Database Cost}
    (hhistory : Run StoreChange.step .empty changes db) : ∀ row ∈ db.keys, row.keyHash ≠ "" := by
  have hwrites (change : StoreChange Cost) : change.Writes (fun _ => True)
      (fun row => row.keyHash ≠ "") (fun _ => True) := by
    cases change with
    | imported =>
      exact ⟨fun _ _ => trivial, fun _ _ key _ => key.identityHash_ne_empty, fun _ _ => trivial⟩
    | edited edit =>
      cases edit with
      | createProvider => exact fun _ _ _ => trivial
      | createPool => exact fun key _ => key.toKeyEntry.identityHash_ne_empty
      | addPoolKey poolId req => exact req.toKeyEntry.identityHash_ne_empty
      | ensureModelRouting => exact fun _ => trivial
      | deleteProvider | deletePool | createRouting | deleteRouting => trivial
    | priced => trivial
    | rotated =>
      intro row hrow
      rwa [keyHash_rotate]
  exact (rows_of_run (fun change _ => hwrites change) hhistory).keys

end

section

variable [Sha256] [SerdeJson] [Float64 Cost]

structure KeepsKeys (db : Database Cost) (gateway : ReloadingGateway Cost) : Prop where
  tables : gateway.tables = db
  locked : Locked gateway.credentials
  written : ∀ identity, Written gateway.credentials identity
  keys : gateway.credentials.keys = db.keys.map (rotatedRow gateway.credentials.log)
  snapshot : ∀ pool, (gateway.snapshot.poolConfigs.lookup pool).map PoolConfig.identities =
    ((loadPools db.pools.rows db.keys).lookup pool).map PoolConfig.identities
  router : ∀ model entry, gateway.router.modelMap.lookup model = some entry →
    ((loadPools db.pools.rows db.keys).lookup entry.poolId).map PoolConfig.identities =
      some entry.pool.identities

variable {db : Database Cost} {gateway after : ReloadingGateway Cost} {registry : ProviderRegistry}
  {badStatusCodes : List UInt16} {fault : ManagedTable → Option String}
  {refreshed : ConfigSnapshot Cost} {nowMs : ℤ}

theorem KeepsKeys.lookup_reload (hkeeps : KeepsKeys db gateway)
    (hhash : ∀ row ∈ db.keys, row.keyHash ≠ "") (hreload : gateway.snapshot.refreshFromDb
      { db := gateway.db, nowMs := nowMs, fault := fault } = .ok refreshed) (pool : String) :
    refreshed.poolConfigs.lookup pool = ((loadPools db.pools.rows db.keys).lookup pool).map
      fun config => ⟨config.keys.map (rotatedEntry gateway.credentials.log)⟩ := by
  obtain ⟨-, providers, -, rfl⟩ := ConfigSnapshot.refreshFromDb_eq_ok_iff.mp hreload
  show (loadPools gateway.tables.pools.rows gateway.credentials.keys).lookup pool = _
  rw [hkeeps.tables, hkeeps.keys]
  exact lookup_loadPools_rotatedRow _ _ hhash pool

theorem KeepsKeys.step {action : ReloadingGateway.Action} (hkeeps : KeepsKeys db gateway)
    (hhash : ∀ row ∈ db.keys, row.keyHash ≠ "") (hpersists : action.persists = true)
    (hstep : gateway.step registry badStatusCodes action = some after) : KeepsKeys db after := by
  cases action with
  | credential =>
    obtain ⟨credentials, hcredentials, rfl⟩ := map_eq_some_iff.mp hstep
    exact ⟨hkeeps.tables, hkeeps.locked.step hcredentials,
      fun identity => (hkeeps.written identity).step hkeeps.locked hpersists hcredentials,
      keys_step hkeeps.keys hcredentials, hkeeps.snapshot, hkeeps.router⟩
  | reload =>
    simp only [ReloadingGateway.step] at hstep
    split at hstep
    · next refreshed hreload =>
        cases hstep
        refine ⟨hkeeps.tables, hkeeps.locked, hkeeps.written, hkeeps.keys, fun pool => ?_,
          hkeeps.router⟩
        rw [hkeeps.lookup_reload hhash hreload, Option.map_map]
        congr 1
        funext config
        exact identities_map_rotatedEntry _ config
    · cases hstep
      exact hkeeps
  | rebuild =>
    simp only [ReloadingGateway.step] at hstep
    split at hstep
    · next router hrebuild =>
        cases hstep
        refine ⟨hkeeps.tables, hkeeps.locked, hkeeps.written, hkeeps.keys, hkeeps.snapshot,
          fun model entry hentry => ?_⟩
        have hpool : gateway.snapshot.poolConfigs.lookup entry.poolId = some entry.pool :=
          lookup_poolConfigs_of_rebuildRouter hrebuild hentry
        rw [← hkeeps.snapshot, hpool, map_some]
    · cases hstep
      exact hkeeps

theorem KeepsKeys.boot {current snapshot : ConfigSnapshot Cost} {router : Router UpstreamProvider}
    (hload : current.refreshFromDb { db := db, nowMs := nowMs } = .ok snapshot)
    (hbuild : rebuildRouter registry badStatusCodes snapshot.sections = .ok router) :
    KeepsKeys db (.boot db snapshot router) := by
  obtain ⟨-, providers, -, rfl⟩ := ConfigSnapshot.refreshFromDb_eq_ok_iff.mp hload
  have hwritten := fun identity => (written_of_run (.nil (State.boot db.keys)) identity).2
  refine ⟨rfl, locked_boot _, hwritten, (List.map_id _).symm, fun _ => rfl,
    fun model entry hentry => ?_⟩
  have hpool : (loadPools db.pools.rows db.keys).lookup entry.poolId = some entry.pool :=
    lookup_poolConfigs_of_rebuildRouter hbuild hentry
  rw [hpool, map_some]

structure RotatesTokensOnly (db : Database Cost) (gateway : ReloadingGateway Cost) : Prop where
  /-- The stored keys have the identities they had. -/
  stored : (gateway.credentials.keys.map fun row => row.load.identityHash) =
    db.keys.map fun row => row.load.identityHash
  /-- So have those of the snapshot. -/
  loaded : ∀ pool, (gateway.snapshot.poolConfigs.lookup pool).map PoolConfig.identities =
    ((loadPools db.pools.rows db.keys).lookup pool).map PoolConfig.identities
  /-- After the last rotation of an identity is written, a reload gives its tokens. -/
  reloaded : ∀ nowMs fault refreshed, gateway.snapshot.refreshFromDb
    { db := gateway.db, nowMs := nowMs, fault := fault } = .ok refreshed →
      ∀ pool config, refreshed.poolConfigs.lookup pool = some config → ∀ entry ∈ config.keys,
        ∀ live, lastIssued entry.identityHash gateway.credentials.log = some live →
          (∀ other, ¬ Writing gateway.credentials entry.identityHash other) →
            entry.key = live.access ∧ entry.refresh = some live.refresh ∧
              entry.expires = some live.expires
  /-- What was remembered for the keys of a pool applies to the keys a router has for it. -/
  remembers : ∀ marks breaker tokens model route,
    gateway.router.modelMap.lookup model = some route →
      ∃ config, (loadPools db.pools.rows db.keys).lookup route.poolId = some config ∧
        route.pool.keys.map (remembered marks breaker tokens route.poolId) =
          config.keys.map (remembered marks breaker tokens route.poolId)

theorem KeepsKeys.reloaded (hkeeps : KeepsKeys db gateway)
    (hhash : ∀ row ∈ db.keys, row.keyHash ≠ "") (hreload : gateway.snapshot.refreshFromDb
      { db := gateway.db, nowMs := nowMs, fault := fault } = .ok refreshed) {pool : String}
    {config : PoolConfig} (hpool : refreshed.poolConfigs.lookup pool = some config)
    {entry : KeyEntry} (hentry : entry ∈ config.keys) {live : LiveToken}
    (hlive : lastIssued entry.identityHash gateway.credentials.log = some live)
    (hsettled : ∀ other, ¬ Writing gateway.credentials entry.identityHash other) :
    entry.key = live.access ∧ entry.refresh = some live.refresh ∧
      entry.expires = some live.expires := by
  rw [hkeeps.lookup_reload hhash hreload] at hpool
  obtain ⟨loaded, -, rfl⟩ := map_eq_some_iff.mp hpool
  obtain ⟨stored, -, rfl⟩ := List.mem_map.mp hentry
  rw [(hkeeps.written _).settled hsettled, identityHash_rotatedEntry] at hlive
  rw [rotatedEntry, hlive]
  exact ⟨rfl, rfl, rfl⟩

/-- The hash of a row is never written, the loader puts it into the entry, and `apply_live` keeps it
there. -/
theorem rotatesTokensOnly_of_run {changes : List (StoreChange Cost)}
    {current snapshot : ConfigSnapshot Cost} {nowMs : ℤ} {router : Router UpstreamProvider}
    {actions : List ReloadingGateway.Action}
    (hhistory : Run StoreChange.step .empty changes db)
    (hload : current.refreshFromDb { db := db, nowMs := nowMs } = .ok snapshot)
    (hbuild : rebuildRouter registry badStatusCodes snapshot.sections = .ok router)
    (hpersists : ∀ action ∈ actions, action.persists = true)
    (hrun : Run (ReloadingGateway.step registry badStatusCodes) (.boot db snapshot router) actions
      gateway) : RotatesTokensOnly db gateway := by
  have hhash := keyHash_ne_empty_of_run hhistory
  have hkeeps : KeepsKeys db gateway :=
    (hrun.of_forall hpersists).invariant (KeepsKeys db)
      (fun _ _ _ hkeeps hpersists hstep => hkeeps.step hhash hpersists hstep)
      (KeepsKeys.boot hload hbuild)
  constructor
  · rw [hkeeps.keys, List.map_map]
    refine map_congr_left fun row hrow => ?_
    rw [Function.comp_apply, load_rotatedRow _ (hhash row hrow), identityHash_rotatedEntry]
  · exact hkeeps.snapshot
  · intro nowMs fault refreshed hreload pool config hpool entry hentry live hlive hsettled
    exact hkeeps.reloaded hhash hreload hpool hentry hlive hsettled
  · intro marks breaker tokens model route hroute
    obtain ⟨config, hconfig, hsame⟩ := map_eq_some_iff.mp (hkeeps.router model route hroute)
    exact ⟨config, hconfig, remembered_eq_of_identities hsame.symm⟩

end

section

attribute [local instance] jsonText zeroSha256

def oauthPoolRequest : CreatePoolRequest where
  id := "p"
  keys := [{ key := "a0", credType := .oauth, refresh := some "r0", expires := some 0,
             issuer := some "xai" }]

def oauthPoolHistory : List (StoreChange ℚ) :=
  [.edited (.createPool oauthPoolRequest),
    .edited (.createRouting { logicalModel := "m", poolId := "p" })]

def oauthPoolEntry (access refresh : String) (expires : ℤ) : KeyEntry where
  key := access
  weight := 1
  credType := .oauth
  refresh := some refresh
  expires := some expires
  issuer := some "xai"
  identity := some "000000000000"

def rotateAndReload : List ReloadingGateway.Action :=
  [.credential (.start 0 (oauthPoolEntry "a0" "r0" 0)), .credential (.acquire 0),
    .credential (.check 0 1 1),
    .credential (.answer 0 1
      (.response 200 { accessToken := some "a1", refreshToken := some "r1" })),
    .credential (.persist 0 true), .reload 5 fun _ => none, .rebuild]

def oauthPoolDb : Database ℚ :=
  { Database.empty with
    pools := .single { id := "p" }
    keys := [keyRow "p" (oauthPoolEntry "a0" "r0" 0)]
    routing := [{ logicalModel := "m", poolId := "p", defaultParams := none,
                  upstreamModel := none }] }

theorem run_oauthPoolHistory : Run StoreChange.step .empty oauthPoolHistory oauthPoolDb := by
  apply run_of_runActions
  rfl

def oauthPoolSnapshot : ConfigSnapshot ℚ :=
  ConfigSnapshot.default.publish [] (loadPools oauthPoolDb.pools.rows oauthPoolDb.keys)
    (loadRouting oauthPoolDb.routing) [] [] 0

def oauthPoolRouter (entry : KeyEntry) : Router UpstreamProvider where
  modelMap := AList.singleton "m" ⟨"p", ⟨[entry]⟩, none, none⟩
  providers := ∅

theorem rotatesTokensOnly_oauthPool : ∃ gateway,
    runActions (ReloadingGateway.step .boot [])
        (.boot oauthPoolDb oauthPoolSnapshot (oauthPoolRouter (oauthPoolEntry "a0" "r0" 0)))
        rotateAndReload = some gateway ∧
      gateway.snapshot.poolConfigs.lookup "p" = some ⟨[oauthPoolEntry "a1" "r1" 3300001]⟩ ∧
        RotatesTokensOnly oauthPoolDb gateway := by
  have hlast : (runActions (ReloadingGateway.step .boot [])
      (.boot oauthPoolDb oauthPoolSnapshot (oauthPoolRouter (oauthPoolEntry "a0" "r0" 0)))
      rotateAndReload).map (fun gateway => gateway.snapshot.poolConfigs.lookup "p") =
        some (some ⟨[oauthPoolEntry "a1" "r1" 3300001]⟩) := by decide +kernel
  obtain ⟨gateway, hrun, hpool⟩ := map_eq_some_iff.mp hlast
  have hload : ConfigSnapshot.default.refreshFromDb { db := oauthPoolDb, nowMs := 0 } =
      .ok oauthPoolSnapshot := rfl
  have hbuild : rebuildRouter .boot [] oauthPoolSnapshot.sections =
      .ok (oauthPoolRouter (oauthPoolEntry "a0" "r0" 0)) := by with_unfolding_all rfl
  exact ⟨gateway, hrun, hpool, rotatesTokensOnly_of_run run_oauthPoolHistory hload hbuild
    (by decide) (run_of_runActions hrun)⟩

end

end LlmProxy
