import LlmProxy.HealthLoop

/-!
# Revival of demoted keys

The health task is given the pools and the providers of the first snapshot (`bootstrap.rs`) and
keeps them.
-/

namespace LlmProxy

open List Option HealthTask

section

variable [Sha256]

namespace HealthTask

variable (task : HealthTask) (answers : UpstreamProvider → String → Bool)

def outcome (key : BadKey) : ProbeOutcome :=
  match task.target key with
  | some (_, provider) => if answers provider key.2 then .answered else .failed
  | none => .failed

/-- The second access of `remove_bad`, if the first one asks for it. -/
def settle (s : HealthState) : HealthState :=
  match s.dropping with
  | some pool => { s with bad := s.bad.dropPool pool, dropping := none }
  | none => s

def probeKey (s : HealthState) (key : BadKey) : HealthState :=
  settle (task.onProbe s key [] (task.outcome answers key))

def probeRound (s : HealthState) : HealthState :=
  s.bad.snapshot.foldl (task.probeKey answers) s

def revives (key : BadKey) : Bool :=
  match task.target key with
  | some (_, provider) => answers provider key.2
  | none => false

variable {task answers}

theorem idle_probeKey (s : HealthState) (key : BadKey) :
    (task.probeKey answers s key).dropping = none := by
  unfold probeKey settle
  cases hdropping : (task.onProbe s key [] (task.outcome answers key)).dropping with
  | some => rfl
  | none => exact hdropping

variable {s : HealthState}

theorem bad_probeKey (hidle : s.dropping = none) (key : BadKey) :
    (task.probeKey answers s key).bad =
      if task.revives answers key then s.bad.removeBad key.1 key.2 else s.bad := by
  unfold probeKey revives
  cases htarget : task.target key with
  | none => simp [onProbe, htarget, settle, hidle]
  | some target =>
    have houtcome : task.outcome answers key =
        if answers target.2 key.2 then .answered else .failed := by
      rw [outcome, htarget]
    unfold onProbe
    rw [houtcome, htarget]
    cases hanswer : answers target.2 key.2 with
    | false => simp [settle, hidle, hanswer]
    | true =>
      unfold BadKeyRegistry.removeBad
      cases hempty : (s.bad.retainOthers key.1 key.2).2 <;> simp [settle, hanswer, hempty]

theorem marked_probeKey_iff (hidle : s.dropping = none) (probed key : BadKey) :
    (task.probeKey answers s probed).Marked key ↔
      s.Marked key ∧ ¬ (key = probed ∧ task.revives answers probed = true) := by
  unfold HealthState.Marked
  rw [bad_probeKey hidle]
  cases task.revives answers probed with
  | false => simp
  | true => simp [BadKeyRegistry.isBad_removeBad_iff, Prod.ext_iff]

theorem marked_foldl_probeKey_iff (keys : List BadKey) (hidle : s.dropping = none) (key : BadKey) :
    (keys.foldl (task.probeKey answers) s).Marked key ↔
      s.Marked key ∧ ¬ (key ∈ keys ∧ task.revives answers key = true) := by
  induction keys generalizing s with
  | nil => simp
  | cons probed rest ih =>
    rw [foldl_cons, ih (idle_probeKey s probed), marked_probeKey_iff hidle]
    by_cases hkey : key = probed
    · subst hkey
      tauto
    · simp [hkey]

omit [Sha256] in
theorem marked_iff_mem_snapshot (s : HealthState) (key : BadKey) :
    s.Marked key ↔ key ∈ s.bad.snapshot := by
  obtain ⟨pool, hash⟩ := key
  unfold HealthState.Marked BadKeyRegistry.snapshot
  rw [BadKeyRegistry.isBad_iff, BadKeyRegistry.badList, mem_flatMap]
  constructor
  · intro hmem
    cases hlist : s.bad.bad.lookup pool with
    | none => simp [hlist] at hmem
    | some list =>
      rw [hlist, getD_some] at hmem
      exact ⟨⟨pool, list⟩, AList.mem_lookup_iff.mp hlist, List.mem_map_of_mem hmem⟩
  · rintro ⟨⟨owner, list⟩, hentry, hkey⟩
    obtain ⟨listed, hlisted, hpair⟩ := List.mem_map.mp hkey
    cases hpair
    have hlist : s.bad.bad.lookup owner = some list := AList.mem_lookup_iff.mpr hentry
    rw [hlist]
    exact hlisted

theorem marked_probeRound_iff (hidle : s.dropping = none) (key : BadKey) :
    (task.probeRound answers s).Marked key ↔ s.Marked key ∧ task.revives answers key = false := by
  unfold probeRound
  rw [marked_foldl_probeKey_iff _ hidle, ← marked_iff_mem_snapshot, ← Bool.not_eq_true]
  tauto

theorem idle_foldl_probeKey (keys : List BadKey) (hidle : s.dropping = none) :
    (keys.foldl (task.probeKey answers) s).dropping = none := by
  induction keys generalizing s with
  | nil => exact hidle
  | cons key rest ih => exact ih (idle_probeKey s key)

end HealthTask

/-! ## The gateway over its reloads -/

/-- Requests use the live router, which is rebuilt whenever the configuration changes. -/
structure Gateway where
  live : Router UpstreamProvider
  health : HealthState

/-- What happens to the gateway: the router is rebuilt from some content of the store, a
request demotes a key of the router it took, the health task makes a round. -/
inductive GatewayEvent
  | reload (sections : RoutingSnapshot)
  | demote (poolId : String) (pool : PoolConfig) (key : KeyEntry)
  | probeRound (answers : UpstreamProvider → String → Bool)

section

variable (registry : ProviderRegistry) (badStatusCodes : List UInt16)

/-- The health task has providers of its own. -/
def bootGateway (maxProbeRetries : ℕ) (boot : RoutingSnapshot) :
    Except AppError (HealthTask × Gateway) := do
  let router ← rebuildRouter registry badStatusCodes boot
  let healthProviders ← registry.buildAll badStatusCodes boot.providers
  return (⟨boot.poolConfigs, healthProviders, maxProbeRetries⟩, ⟨router, .initial⟩)

/-- A rebuild that fails leaves the live router. -/
def Gateway.step (task : HealthTask) (gateway : Gateway) : GatewayEvent → Gateway
  | .reload sections =>
    match rebuildRouter registry badStatusCodes sections with
    | .ok router => { gateway with live := router }
    | .error _ => gateway
  | .demote poolId pool key =>
    { gateway with health :=
      { gateway.health with
        bad := (Router.tryDemote gateway.health.bad pool poolId key).1 } }
  | .probeRound answers => { gateway with health := task.probeRound answers gateway.health }

def Gateway.after (task : HealthTask) (gateway : Gateway) (history : List GatewayEvent) : Gateway :=
  history.foldl (Gateway.step registry badStatusCodes task) gateway

variable {registry badStatusCodes} {task : HealthTask} {gateway : Gateway}

theorem Gateway.idle_after (hidle : gateway.health.dropping = none) (history : List GatewayEvent) :
    (gateway.after registry badStatusCodes task history).health.dropping = none := by
  induction history using List.reverseRecOn with
  | nil => exact hidle
  | append_singleton history event ih =>
    unfold Gateway.after at ih ⊢
    rw [foldl_append, foldl_cons]
    cases event with
    | reload sections =>
      rw [Gateway.step]
      cases rebuildRouter registry badStatusCodes sections with
      | ok => exact ih
      | error => exact ih
    | demote => exact ih
    | probeRound => exact idle_foldl_probeKey _ ih

structure Demotes (gateway : Gateway) (provider : UpstreamProvider) (entry : RouteEntry)
    (key : KeyEntry) (marked : BadKeyRegistry) : Prop where
  resolves : ∃ model, gateway.live.resolve model = .ok (provider, entry)
  member : key ∈ entry.pool.keys
  weight : 0 < key.weight
  demoted : Router.tryDemote gateway.health.bad entry.pool entry.poolId key = (marked, true)

/-- The task finds the key and its live provider, so that the key is selectable after the next
round if the provider answers for it. -/
structure Revivable (task : HealthTask) (gateway : Gateway) (provider : UpstreamProvider)
    (entry : RouteEntry) (key : KeyEntry) (marked : BadKeyRegistry) : Prop where
  found : ∃ known, known.identityHash = key.identityHash ∧
    task.target (entry.poolId, key.identityHash) = some (known, provider)
  selectable : ∀ answers : UpstreamProvider → String → Bool,
    answers provider key.identityHash = true →
      Router.selectable (task.probeRound answers { gateway.health with bad := marked }).bad
        entry.poolId key = true

structure KnownAtBoot (registry : ProviderRegistry) (badStatusCodes : List UInt16)
    (boot : RoutingSnapshot) (provider : UpstreamProvider) (entry : RouteEntry) (key : KeyEntry) :
    Prop where
  key : ∃ pool, boot.poolConfigs.lookup entry.poolId = some pool ∧
    ∃ known ∈ pool.keys, known.identityHash = key.identityHash
  provider : ((boot.providers.filter fun config => config.poolId = entry.poolId).getLast?.bind
    fun config => (registry.buildOne badStatusCodes config).toOption) = some provider

theorem HealthTask.identityHash_of_keyEntry {key : BadKey} {entry : KeyEntry}
    (hentry : task.keyEntry key = some entry) : entry.identityHash = key.2 := by
  obtain ⟨pool, -, hfind⟩ := bind_eq_some_iff.mp hentry
  simpa using find?_some hfind

theorem HealthTask.keyEntry_isSome_iff (task : HealthTask) (key : BadKey) :
    (task.keyEntry key).isSome = true ↔
      ∃ pool, task.pools.lookup key.1 = some pool ∧
        ∃ known ∈ pool.keys, known.identityHash = key.2 := by
  unfold HealthTask.keyEntry
  cases task.pools.lookup key.1 with
  | none => simp
  | some => simp [find?_isSome]

theorem target_eq_iff_knownAtBoot {maxProbeRetries : ℕ} {boot : RoutingSnapshot}
    (hboot : bootGateway registry badStatusCodes maxProbeRetries boot = .ok (task, gateway))
    (provider : UpstreamProvider) (entry : RouteEntry) (key : KeyEntry) :
    (∃ known, task.target (entry.poolId, key.identityHash) = some (known, provider)) ↔
      KnownAtBoot registry badStatusCodes boot provider entry key := by
  obtain ⟨router, -, hrest⟩ := Except.bind_eq_ok_iff.mp hboot
  obtain ⟨providers, hproviders, htask⟩ := Except.bind_eq_ok_iff.mp hrest
  cases htask
  have hlookup : providers.lookup entry.poolId =
      (boot.providers.filter fun config => config.poolId = entry.poolId).getLast?.bind
        fun config => (registry.buildOne badStatusCodes config).toOption := by
    rw [KeyedFold.lookup_insertAllM hproviders]
    simp
  have hknown := keyEntry_isSome_iff ⟨boot.poolConfigs, providers, maxProbeRetries⟩
    (entry.poolId, key.identityHash)
  unfold HealthTask.target
  constructor
  · rintro ⟨known, htarget⟩
    obtain ⟨found, hfound, hprovider⟩ := bind_eq_some_iff.mp htarget
    obtain ⟨owner, howner, hpair⟩ := map_eq_some_iff.mp hprovider
    cases hpair
    refine ⟨hknown.mp ?_, hlookup.symm.trans howner⟩
    rw [hfound]
    rfl
  · intro hboot
    obtain ⟨found, hfound⟩ := isSome_iff_exists.mp (hknown.mpr hboot.key)
    refine ⟨found, ?_⟩
    rw [hfound, bind_some]
    simp only [hlookup, hboot.provider, map_some]

theorem revivable_iff_knownAtBoot {maxProbeRetries : ℕ} {boot : RoutingSnapshot} {now : Gateway}
    (hboot : bootGateway registry badStatusCodes maxProbeRetries boot = .ok (task, gateway))
    (hidle : now.health.dropping = none) {provider : UpstreamProvider} {entry : RouteEntry}
    {key : KeyEntry} {marked : BadKeyRegistry} (hdemotes : Demotes now provider entry key marked) :
    Revivable task now provider entry key marked ↔
      KnownAtBoot registry badStatusCodes boot provider entry key := by
  rw [← target_eq_iff_knownAtBoot hboot]
  constructor
  · intro hrevivable
    obtain ⟨known, -, htarget⟩ := hrevivable.found
    exact ⟨known, htarget⟩
  · rintro ⟨known, htarget⟩
    constructor
    · obtain ⟨found, hfound, hprovider⟩ := bind_eq_some_iff.mp htarget
      obtain ⟨owner, -, hpair⟩ := map_eq_some_iff.mp hprovider
      cases hpair
      exact ⟨known, identityHash_of_keyEntry hfound, htarget⟩
    · intro answers hanswers
      have hrevives : task.revives answers (entry.poolId, key.identityHash) = true := by
        rw [HealthTask.revives, htarget]
        exact hanswers
      rw [Router.selectable_iff, ← Bool.not_eq_true]
      refine ⟨hdemotes.weight, fun hbad => ?_⟩
      have hdemotedIdle : ({ now.health with bad := marked } : HealthState).dropping = none := hidle
      have hmarked : (task.probeRound answers { now.health with bad := marked }).Marked
        (entry.poolId, key.identityHash) := hbad
      have hkept := ((marked_probeRound_iff hdemotedIdle _).mp hmarked).2
      rw [hrevives] at hkept
      cases hkept

/-- After any history every key of the live router that a request demotes can be revived
exactly if each of them, with its live provider, was known at boot. -/
theorem demoted_revivable_iff_knownAtBoot (registry : ProviderRegistry)
    (badStatusCodes : List UInt16) (maxProbeRetries : ℕ) (boot : RoutingSnapshot)
    (task : HealthTask) (gateway : Gateway)
    (hboot : bootGateway registry badStatusCodes maxProbeRetries boot = .ok (task, gateway))
    (history : List GatewayEvent) :
    (∀ provider entry key marked,
        Demotes (gateway.after registry badStatusCodes task history) provider entry key marked →
          Revivable task (gateway.after registry badStatusCodes task history) provider entry key
            marked) ↔
      ∀ provider entry key marked,
        Demotes (gateway.after registry badStatusCodes task history) provider entry key marked →
          KnownAtBoot registry badStatusCodes boot provider entry key := by
  have hinitial : gateway.health.dropping = none := by
    obtain ⟨router, -, hrest⟩ := Except.bind_eq_ok_iff.mp hboot
    obtain ⟨providers, -, hgateway⟩ := Except.bind_eq_ok_iff.mp hrest
    cases hgateway
    rfl
  have hidle : (gateway.after registry badStatusCodes task history).health.dropping = none :=
    Gateway.idle_after hinitial history
  refine forall₄_congr fun provider entry key marked => ?_
  exact forall_congr' fun hdemotes => revivable_iff_knownAtBoot hboot hidle hdemotes

end

end

section

attribute [local instance] zeroSha256

def addedKey : KeyEntry := { key := "sk-c", weight := 1, identity := some "c" }

def grownSections : RoutingSnapshot where
  providers := [poolProvider]
  poolConfigs := AList.singleton "p" ⟨addedKey :: twoKeyPool.keys⟩
  modelRouting := AList.singleton "m" (.simple "p")

def pooledProvider : UpstreamProvider := ⟨⟨.openAi, "u"⟩, "u", [401]⟩

def pooledTask : HealthTask :=
  ⟨AList.singleton "p" twoKeyPool, AList.singleton "p" pooledProvider, 3⟩

def pooledGateway : Gateway := ⟨pooledRouter (AList.singleton "p" pooledProvider), .initial⟩

def grownEntry : RouteEntry := ⟨"p", ⟨addedKey :: twoKeyPool.keys⟩, none, none⟩

/-- The router is rebuilt from the sections of the boot while a key is exiled. -/
def rebuiltGateway : Gateway :=
  pooledGateway.after .boot [401] pooledTask
    [.demote "p" twoKeyPool { key := "sk-a", weight := 1, identity := some "a" },
      .reload (pooledSections [poolProvider])]

theorem rebuiltGateway_revivable :
    Router.selectable rebuiltGateway.health.bad "p"
        { key := "sk-a", weight := 1, identity := some "a" } = false ∧
      ∀ provider entry key marked, Demotes rebuiltGateway provider entry key marked →
        Revivable pooledTask rebuiltGateway provider entry key marked := by
  refine ⟨by decide +kernel, ?_⟩
  refine (demoted_revivable_iff_knownAtBoot .boot [401] 3 (pooledSections [poolProvider])
    pooledTask pooledGateway rfl _).mpr fun provider entry key marked hdemotes => ?_
  obtain ⟨model, hresolve⟩ := hdemotes.resolves
  obtain ⟨hentry, hprovider⟩ := Router.resolve_eq_ok_iff.mp hresolve
  have hmember := hdemotes.member
  cases mem_singleton.mp (AList.mem_lookup_iff.mp hentry)
  cases hprovider
  exact ⟨⟨twoKeyPool, rfl, key, hmember, rfl⟩, rfl⟩

/-- The added key is demoted, and no round takes its mark away although its provider answers. -/
theorem added_key_not_revived :
    Demotes (pooledGateway.after .boot [401] pooledTask [.reload grownSections]) pooledProvider
        grownEntry addedKey (BadKeyRegistry.new.markBad "p" "c") ∧
      Router.selectable (pooledTask.probeRound (fun _ _ => true)
        { pooledGateway.health with bad := BadKeyRegistry.new.markBad "p" "c" }).bad "p"
          addedKey = false :=
  ⟨⟨⟨"m", rfl⟩, mem_cons_self, by decide, rfl⟩, by decide +kernel⟩

end

end LlmProxy
