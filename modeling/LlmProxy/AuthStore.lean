import LlmProxy.KeyPool
import LlmProxy.KeyedFold
import Mathlib.Data.Finmap

/-!
# The store of client keys

`AuthStore` keeps the records of the client keys under the raw keys, while its interface names a
record by the hash of its key.  As long as no two keys have the same hash, the store is a finite map
from raw keys to what is known of a client.
-/

namespace LlmProxy

open List Option AList

structure ClientKeyEntry where
  key : String
  tenantId : String

structure ClientKeyRecord where
  key : String
  tenantId : String
  keyHash : String
  createdAt : ℤ
  enabled : Bool
  label : String

structure CreateKeyRequest where
  key : String
  tenantId : String := "default"
  label : String := ""

structure UpdateKeyRequest where
  enabled : Option Bool := none
  label : Option String := none
  tenantId : Option String := none

/-- `hash` is `db::compute_key_hash`, `nowMs` the time of the conversion. -/
def ClientKeyEntry.toRecord (hash : String → String) (nowMs : ℤ) (entry : ClientKeyEntry) :
    ClientKeyRecord where
  key := entry.key
  tenantId := entry.tenantId
  keyHash := hash entry.key
  createdAt := nowMs
  enabled := true
  label := ""

/-- A tenant without a name is ignored. -/
def UpdateKeyRequest.newTenant (req : UpdateKeyRequest) (old : String) : String :=
  match req.tenantId with
  | some tenantId => if tenantId = "" then old else tenantId
  | none => old

def UpdateKeyRequest.over (req : UpdateKeyRequest) (record : ClientKeyRecord) : ClientKeyRecord :=
  { record with
    enabled := req.enabled.getD record.enabled
    label := req.label.getD record.label
    tenantId := req.newTenant record.tenantId }

/-- The records under the raw keys. -/
abbrev AuthStore := AList fun _ : String => ClientKeyRecord

def keyNotFound (keyHash : String) : AppError := .notFound s!"key '{keyHash}' not found"

namespace AuthStore

section

variable (hash : String → String)

/-- The entries of the start, each with the time it is read at. -/
def new (initial : List (ClientKeyEntry × ℤ)) : AuthStore :=
  initial.foldl (fun store one => store.insert one.1.key (one.1.toRecord hash one.2)) ∅

/-- A disabled key is unknown. -/
def validate (store : AuthStore) (rawKey : String) : Option ClientKeyEntry :=
  (store.lookup rawKey).bind fun r => if r.enabled then some ⟨r.key, r.tenantId⟩ else none

/-- `iter().find(..)`; `findKey_eq_some_iff` shows that the order of the scan does not matter. -/
def findKey (store : AuthStore) (keyHash : String) : Option String :=
  (store.entries.find? fun entry => entry.2.keyHash = keyHash).map Sigma.fst

/-- An empty or known key is refused. -/
def add (nowMs : ℤ) (req : CreateKeyRequest) (store : AuthStore) :
    AuthStore × Except AppError ClientKeyRecord :=
  if req.key = "" then (store, .error (.badRequest "key must not be empty"))
  else if (store.lookup req.key).isSome then (store, .error (.badRequest "key already exists"))
  else
    let record :=
      { ClientKeyEntry.toRecord hash nowMs ⟨req.key, req.tenantId⟩ with label := req.label }
    (store.insert req.key record, .ok record)

/-- Fields that are not given keep their values. -/
def update (keyHash : String) (req : UpdateKeyRequest) (store : AuthStore) :
    AuthStore × Except AppError ClientKeyRecord :=
  match store.findKey keyHash with
  | none => (store, .error (keyNotFound keyHash))
  | some rawKey =>
    match store.lookup rawKey with
    | none => (store, .error (keyNotFound keyHash))
    | some record => (store.insert rawKey (req.over record), .ok (req.over record))

/-- The record moves to the new key, which must not be in use. -/
def rotate (nowMs : ℤ) (keyHash newKey : String) (store : AuthStore) :
    AuthStore × Except AppError ClientKeyRecord :=
  match store.findKey keyHash with
  | none => (store, .error (keyNotFound keyHash))
  | some oldKey =>
    if (store.lookup newKey).isSome then
      (store, .error (.badRequest "new key already exists in the store"))
    else
      match store.lookup oldKey with
      | none => (store, .error (keyNotFound keyHash))
      | some oldRecord =>
        let record := { oldRecord with key := newKey, keyHash := hash newKey, createdAt := nowMs }
        ((store.erase oldKey).insert newKey record, .ok record)

/-- The record goes whose key has the hash. -/
def remove (keyHash : String) (store : AuthStore) : AuthStore × Except AppError ClientKeyRecord :=
  match store.findKey keyHash with
  | none => (store, .error (keyNotFound keyHash))
  | some key =>
    match store.lookup key with
    | none => (store, .error (keyNotFound keyHash))
    | some record => (store.erase key, .ok record)

end

end AuthStore

inductive KeyCall where
  | add (nowMs : ℤ) (req : CreateKeyRequest)
  | update (keyHash : String) (req : UpdateKeyRequest)
  | rotate (nowMs : ℤ) (keyHash newKey : String)
  | remove (keyHash : String)
  | validate (rawKey : String)

def KeyCall.wanted : KeyCall → Option String
  | .update keyHash _ => some keyHash
  | .rotate _ keyHash _ => some keyHash
  | .remove keyHash => some keyHash
  | _ => none

def KeyCall.brought : KeyCall → Option String
  | .add _ req => some req.key
  | .rotate _ _ newKey => some newKey
  | _ => none

inductive KeyAnswer (Record : Type) where
  | written (record : Record)
  | refused (error : AppError)
  | validated (entry : Option ClientKeyEntry)

namespace KeyAnswer

variable {Record Seen : Type}

def ofResult : Except AppError Record → KeyAnswer Record
  | .ok record => .written record
  | .error error => .refused error

def map (f : Record → Seen) : KeyAnswer Record → KeyAnswer Seen
  | .written record => .written (f record)
  | .refused error => .refused error
  | .validated entry => .validated entry

end KeyAnswer

structure Client where
  tenant : String
  enabled : Bool
  label : String

abbrev ClientMap := Finmap fun _ : String => Client

def UpdateKeyRequest.overClient (req : UpdateKeyRequest) (client : Client) : Client where
  tenant := req.newTenant client.tenant
  enabled := req.enabled.getD client.enabled
  label := req.label.getD client.label

namespace ClientMap

def validate (clients : ClientMap) (key : String) : Option ClientKeyEntry :=
  (clients.lookup key).bind fun client => if client.enabled then some ⟨key, client.tenant⟩ else none

inductive Step (hash : String → String) (clients : ClientMap) :
    KeyCall → KeyAnswer (String × Client) → ClientMap → Prop
  | added {nowMs : ℤ} {req : CreateKeyRequest} (hkey : req.key ≠ "") (hfree : req.key ∉ clients) :
      Step hash clients (.add nowMs req) (.written (req.key, ⟨req.tenantId, true, req.label⟩))
        (clients.insert req.key ⟨req.tenantId, true, req.label⟩)
  | nameless {nowMs : ℤ} {req : CreateKeyRequest} (hkey : req.key = "") :
      Step hash clients (.add nowMs req) (.refused (.badRequest "key must not be empty")) clients
  | taken {nowMs : ℤ} {req : CreateKeyRequest} (hkey : req.key ≠ "") (htaken : req.key ∈ clients) :
      Step hash clients (.add nowMs req) (.refused (.badRequest "key already exists")) clients
  | updated {key : String} {client : Client} {req : UpdateKeyRequest}
      (hclient : clients.lookup key = some client) :
      Step hash clients (.update (hash key) req) (.written (key, req.overClient client))
        (clients.insert key (req.overClient client))
  | rotated {nowMs : ℤ} {old newKey : String} {client : Client}
      (hclient : clients.lookup old = some client) (hfree : newKey ∉ clients) :
      Step hash clients (.rotate nowMs (hash old) newKey) (.written (newKey, client))
        ((clients.erase old).insert newKey client)
  | rotatedOnto {nowMs : ℤ} {old newKey : String} (hold : old ∈ clients)
      (htaken : newKey ∈ clients) :
      Step hash clients (.rotate nowMs (hash old) newKey)
        (.refused (.badRequest "new key already exists in the store")) clients
  | removed {key : String} {client : Client} (hclient : clients.lookup key = some client) :
      Step hash clients (.remove (hash key)) (.written (key, client)) (clients.erase key)
  | unknown {call : KeyCall} {keyHash : String} (hwanted : call.wanted = some keyHash)
      (hnone : ∀ key ∈ clients, hash key ≠ keyHash) :
      Step hash clients call (.refused (keyNotFound keyHash)) clients
  | validated {key : String} :
      Step hash clients (.validate key) (.validated (clients.validate key)) clients

/-- Only a call that succeeds and brings a key puts it into the map. -/
theorem Step.mem_of_mem {hash : String → String} {clients next : ClientMap} {call : KeyCall}
    {answer : KeyAnswer (String × Client)} (hstep : Step hash clients call answer next)
    {key : String} (hmem : key ∈ next) :
    key ∈ clients ∨ call.brought = some key ∧ ∃ client, answer = .written (key, client) := by
  cases hstep with
  | added =>
    rcases (Finmap.mem_insert).mp hmem with rfl | hold
    · exact .inr ⟨rfl, _, rfl⟩
    · exact .inl hold
  | updated hclient =>
    rcases (Finmap.mem_insert).mp hmem with rfl | hold
    · exact .inl (Finmap.mem_iff.mpr ⟨_, hclient⟩)
    · exact .inl hold
  | rotated =>
    rcases (Finmap.mem_insert).mp hmem with rfl | hold
    · exact .inr ⟨rfl, _, rfl⟩
    · exact .inl (Finmap.mem_erase.mp hold).2
  | removed => exact .inl (Finmap.mem_erase.mp hmem).2
  | nameless | taken | rotatedOnto | unknown | validated => exact .inl hmem

end ClientMap

def ClientKeyRecord.client (record : ClientKeyRecord) : Client :=
  ⟨record.tenantId, record.enabled, record.label⟩

namespace AuthStore

section

variable {hash : String → String} {store : AuthStore}

def call (hash : String → String) (store : AuthStore) :
    KeyCall → AuthStore × KeyAnswer ClientKeyRecord
  | .add nowMs req => (store.add hash nowMs req).map id .ofResult
  | .update keyHash req => (store.update keyHash req).map id .ofResult
  | .rotate nowMs keyHash newKey => (store.rotate hash nowMs keyHash newKey).map id .ofResult
  | .remove keyHash => (store.remove keyHash).map id .ofResult
  | .validate rawKey => (store, .validated (store.validate rawKey))

def after (hash : String → String) (store : AuthStore) (calls : List KeyCall) : AuthStore :=
  calls.foldl (fun store call => (store.call hash call).1) store

/-- The key stands in a record, and its hash with it, as the record stands under it. -/
def Consistent (hash : String → String) (store : AuthStore) : Prop :=
  ∀ key record, store.lookup key = some record → record.key = key ∧ record.keyHash = hash key

def clients (store : AuthStore) : ClientMap :=
  (KeyedFold.mapValues ClientKeyRecord.client store).toFinmap

theorem lookup_clients (store : AuthStore) (key : String) :
    store.clients.lookup key = (store.lookup key).map ClientKeyRecord.client := by
  rw [clients, Finmap.lookup_toFinmap, KeyedFold.lookup_mapValues]

variable {key keyHash : String}

theorem mem_clients : key ∈ store.clients ↔ (store.lookup key).isSome = true := by
  rw [← Finmap.lookup_isSome, lookup_clients, isSome_map]

theorem clients_insert (store : AuthStore) (key : String) (record : ClientKeyRecord) :
    clients (store.insert key record) = store.clients.insert key record.client := by
  refine Finmap.ext_lookup fun other => ?_
  rw [lookup_clients]
  by_cases hkey : other = key
  · rw [hkey, AList.lookup_insert, Finmap.lookup_insert]
    rfl
  · rw [lookup_insert_ne hkey, Finmap.lookup_insert_of_ne _ hkey, lookup_clients]

theorem clients_erase (store : AuthStore) (key : String) :
    clients (store.erase key) = store.clients.erase key := by
  refine Finmap.ext_lookup fun other => ?_
  rw [lookup_clients]
  by_cases hkey : other = key
  · rw [hkey, lookup_erase, Finmap.lookup_erase]
    rfl
  · rw [lookup_erase_ne hkey, Finmap.lookup_erase_ne hkey, lookup_clients]

theorem Consistent.insert (hstore : store.Consistent hash) {record : ClientKeyRecord}
    (hkey : record.key = key) (hhash : record.keyHash = hash key) :
    Consistent hash (store.insert key record) := by
  intro other found hfound
  rw [KeyedFold.lookup_insert] at hfound
  split_ifs at hfound with hother
  · cases hfound
    exact ⟨hother ▸ hkey, hother ▸ hhash⟩
  · exact hstore other found hfound

theorem Consistent.erase (hstore : store.Consistent hash) (key : String) :
    Consistent hash (store.erase key) := by
  intro other found hfound
  by_cases hother : other = key
  · rw [hother, lookup_erase] at hfound
    cases hfound
  · rw [lookup_erase_ne hother] at hfound
    exact hstore other found hfound

theorem consistent_new (hash : String → String) (initial : List (ClientKeyEntry × ℤ)) :
    (new hash initial).Consistent hash := by
  induction initial using List.reverseRecOn with
  | nil =>
    intro key record hrecord
    cases hrecord
  | append_singleton before one ih =>
    rw [new, foldl_append]
    exact Consistent.insert ih rfl rfl

theorem validate_clients (hstore : store.Consistent hash) (key : String) :
    store.clients.validate key = store.validate key := by
  rw [ClientMap.validate, lookup_clients, validate]
  cases hrecord : store.lookup key with
  | none => rfl
  | some record =>
    rw [← (hstore key record hrecord).1]
    rfl

def shown (record : ClientKeyRecord) : String × Client := (record.key, record.client)

theorem validate_isSome_imp (hvalid : store.validate key ≠ none) : key ∈ store.clients := by
  rw [mem_clients]
  cases hrecord : store.lookup key with
  | none => exact absurd (by rw [validate, hrecord]; rfl) hvalid
  | some => rfl

theorem validate_tenant_iff (key tenant : String) :
    (∃ entry, store.validate key = some entry ∧ entry.tenantId = tenant) ↔
      ∃ client, store.clients.lookup key = some client ∧ client.enabled = true ∧
        client.tenant = tenant := by
  rw [validate, lookup_clients]
  cases store.lookup key with
  | none => simp
  | some record =>
    cases henabled : record.enabled with
    | false => simp [ClientKeyRecord.client]
    | true => simp [ClientKeyRecord.client]

/-- The call removes the key, or rotates it away. -/
def Withdraws (hash : String → String) (key : String) (call : KeyCall) : Prop :=
  call = .remove (hash key) ∨ ∃ nowMs newKey, call = .rotate nowMs (hash key) newKey

section

variable (hinj : Function.Injective hash) (hstore : store.Consistent hash)

include hinj hstore

theorem findKey_eq_some_iff :
    store.findKey keyHash = some key ↔ (store.lookup key).isSome = true ∧ hash key = keyHash := by
  have hentry : ∀ entry ∈ store.entries, entry.2.keyHash = hash entry.1 := fun entry hentry =>
    (hstore entry.1 entry.2 (mem_lookup_iff.mpr hentry)).2
  rw [findKey, map_eq_some_iff]
  constructor
  · rintro ⟨entry, hfind, rfl⟩
    have hmem := mem_of_find?_eq_some hfind
    have hhash := find?_some hfind
    rw [decide_eq_true_iff, hentry entry hmem] at hhash
    exact ⟨isSome_iff_exists.mpr ⟨_, mem_lookup_iff.mpr hmem⟩, hhash⟩
  · rintro ⟨hsome, hhash⟩
    obtain ⟨record, hrecord⟩ := isSome_iff_exists.mp hsome
    have hmem : ⟨key, record⟩ ∈ store.entries := mem_lookup_iff.mp hrecord
    cases hfind : store.entries.find? fun entry => entry.2.keyHash = keyHash with
    | none =>
      have hnone := find?_eq_none.mp hfind _ hmem
      rw [decide_eq_true_iff, hentry _ hmem] at hnone
      exact absurd hhash hnone
    | some entry =>
      have hsame := find?_some hfind
      rw [decide_eq_true_iff, hentry entry (mem_of_find?_eq_some hfind), ← hhash] at hsame
      exact ⟨entry, rfl, hinj hsame⟩

theorem findKey_eq_none (hfind : store.findKey keyHash = none) :
    ∀ key ∈ store.clients, hash key ≠ keyHash := by
  intro key hkey hhash
  have hsome := (findKey_eq_some_iff hinj hstore).mpr ⟨mem_clients.mp hkey, hhash⟩
  rw [hfind] at hsome
  cases hsome

theorem exists_record (hfind : store.findKey keyHash = some key) :
    hash key = keyHash ∧ ∃ record, store.lookup key = some record ∧
      store.clients.lookup key = some record.client ∧ record.key = key ∧
      record.keyHash = hash key := by
  obtain ⟨hsome, hhash⟩ := (findKey_eq_some_iff hinj hstore).mp hfind
  obtain ⟨record, hrecord⟩ := isSome_iff_exists.mp hsome
  refine ⟨hhash, record, hrecord, ?_, hstore key record hrecord⟩
  rw [lookup_clients, hrecord]
  rfl

/-- What the store does, the map does; and the store stays consistent. -/
theorem step_call (call : KeyCall) :
    ClientMap.Step hash store.clients call ((store.call hash call).2.map shown)
        (store.call hash call).1.clients ∧
      (store.call hash call).1.Consistent hash := by
  cases call with
  | add nowMs req =>
    rw [AuthStore.call, add]
    by_cases hkey : req.key = ""
    · rw [if_pos hkey]
      exact ⟨.nameless hkey, hstore⟩
    · rw [if_neg hkey]
      split_ifs with htaken
      · exact ⟨.taken hkey (mem_clients.mpr htaken), hstore⟩
      · refine ⟨?_, hstore.insert rfl rfl⟩
        simp only [Prod.map, id, clients_insert]
        exact .added hkey (mt mem_clients.mp htaken)
  | update keyHash =>
    rw [AuthStore.call, update]
    cases hfind : store.findKey keyHash with
    | none => exact ⟨.unknown rfl (findKey_eq_none hinj hstore hfind), hstore⟩
    | some =>
      obtain ⟨rfl, record, hrecord, hclient, hkey, hhash⟩ := exists_record hinj hstore hfind
      simp only [hrecord]
      refine ⟨?_, hstore.insert hkey hhash⟩
      rw [Prod.map, id, clients_insert]
      subst hkey
      exact .updated hclient
  | rotate nowMs keyHash =>
    rw [AuthStore.call, rotate]
    cases hfind : store.findKey keyHash with
    | none => exact ⟨.unknown rfl (findKey_eq_none hinj hstore hfind), hstore⟩
    | some old =>
      obtain ⟨rfl, record, hrecord, hclient, -⟩ := exists_record hinj hstore hfind
      simp only [hrecord]
      split_ifs with htaken
      · exact ⟨.rotatedOnto (Finmap.mem_iff.mpr ⟨_, hclient⟩) (mem_clients.mpr htaken), hstore⟩
      · refine ⟨?_, (hstore.erase old).insert rfl rfl⟩
        simp only [Prod.map, id, clients_insert, clients_erase]
        exact .rotated hclient (mt mem_clients.mp htaken)
  | remove keyHash =>
    rw [AuthStore.call, remove]
    cases hfind : store.findKey keyHash with
    | none => exact ⟨.unknown rfl (findKey_eq_none hinj hstore hfind), hstore⟩
    | some key =>
      obtain ⟨rfl, record, hrecord, hclient, hkey, -⟩ := exists_record hinj hstore hfind
      simp only [hrecord]
      refine ⟨?_, hstore.erase key⟩
      rw [Prod.map, id, clients_erase]
      subst hkey
      exact .removed hclient
  | validate =>
    rw [AuthStore.call, ← validate_clients hstore]
    exact ⟨.validated, hstore⟩

theorem Consistent.after (calls : List KeyCall) : (store.after hash calls).Consistent hash := by
  induction calls generalizing store with
  | nil => exact hstore
  | cons call rest ih => exact ih (step_call hinj hstore call).2

/-- A key that was not in the map is there later only if a call has brought it. -/
theorem exists_brought (hgone : key ∉ store.clients) {later : List KeyCall}
    (hback : key ∈ (store.after hash later).clients) :
    ∃ before call rest record, later = before ++ call :: rest ∧ call.brought = some key ∧
      ((store.after hash before).call hash call).2 = .written record := by
  induction later generalizing store with
  | nil => exact absurd hback hgone
  | cons call rest ih =>
    by_cases hnext : key ∈ (store.call hash call).1.clients
    · have hstep := (step_call hinj hstore call).1
      obtain ⟨hbrought, client, hanswer⟩ := (hstep.mem_of_mem hnext).resolve_left hgone
      cases hwritten : (store.call hash call).2 with
      | written record => exact ⟨[], call, rest, record, rfl, hbrought, hwritten⟩
      | refused | validated =>
        rw [hwritten] at hanswer
        cases hanswer
    · obtain ⟨before, made, after, record, rfl, hmade⟩ :=
        ih (step_call hinj hstore call).2 hnext hback
      exact ⟨call :: before, made, after, record, rfl, hmade⟩

theorem not_mem_of_withdraws {call : KeyCall} (hcall : Withdraws hash key call)
    {record : ClientKeyRecord} (hwritten : (store.call hash call).2 = .written record) :
    key ∉ (store.call hash call).1.clients := by
  have hstep := (step_call hinj hstore call).1
  rw [hwritten] at hstep
  generalize (store.call hash call).1.clients = next at hstep
  rcases hcall with rfl | ⟨nowMs, newKey, rfl⟩
  · generalize hhash : hash key = keyHash at hstep
    cases hstep with
    | removed =>
      rw [hinj hhash, Finmap.mem_erase]
      exact fun hmem => hmem.1 rfl
  · generalize hhash : hash key = keyHash at hstep
    cases hstep with
    | rotated hclient hfree =>
      rw [hinj hhash, Finmap.mem_insert, Finmap.mem_erase]
      rintro (rfl | hmem)
      · exact hfree (Finmap.mem_iff.mpr ⟨_, hclient⟩)
      · exact hmem.1 rfl

end

structure BehavesAsMap (hash : String → String) (store : AuthStore) : Prop where
  consistent : store.Consistent hash
  step : ∀ call, ClientMap.Step hash store.clients call ((store.call hash call).2.map shown)
    (store.call hash call).1.clients
  valid : ∀ key tenant, (∃ entry, store.validate key = some entry ∧ entry.tenantId = tenant) ↔
    ∃ client, store.clients.lookup key = some client ∧ client.enabled = true ∧
      client.tenant = tenant
  refused : ∀ call error, (store.call hash call).2 = .refused error →
    (store.call hash call).1.clients = store.clients
  rotated : ∀ nowMs old newKey record,
    (store.call hash (.rotate nowMs (hash old) newKey)).2 = .written record →
      store.clients.lookup old = some record.client ∧
        (store.call hash (.rotate nowMs (hash old) newKey)).1.clients.lookup newKey =
          some record.client
  withdrawn : ∀ key call record later, Withdraws hash key call →
    (store.call hash call).2 = .written record →
    ((store.call hash call).1.after hash later).validate key ≠ none →
      ∃ before made rest other, later = before ++ made :: rest ∧ made.brought = some key ∧
        (((store.call hash call).1.after hash before).call hash made).2 = .written other

theorem Consistent.behavesAsMap (hinj : Function.Injective hash) (hstore : store.Consistent hash) :
    BehavesAsMap hash store where
  consistent := hstore
  step call := (step_call hinj hstore call).1
  valid := validate_tenant_iff
  refused call error hrefused := by
    have hstep := (step_call hinj hstore call).1
    rw [hrefused] at hstep
    generalize (store.call hash call).1.clients = next at hstep
    cases hstep with
    | nameless | taken | rotatedOnto | unknown => rfl
  rotated nowMs old newKey record hwritten := by
    have hstep := (step_call hinj hstore (.rotate nowMs (hash old) newKey)).1
    rw [hwritten] at hstep
    generalize (store.call hash (.rotate nowMs (hash old) newKey)).1.clients = next at hstep
    generalize hhash : hash old = keyHash at hstep
    cases hstep with
    | rotated hclient =>
      rw [hinj hhash]
      exact ⟨hclient, Finmap.lookup_insert _⟩
  withdrawn key call record later hcall hwritten hvalid :=
    exists_brought hinj (step_call hinj hstore call).2
      (not_mem_of_withdraws hinj hstore hcall hwritten) (validate_isSome_imp hvalid)

theorem clients_new (hash : String → String) (initial : List (ClientKeyEntry × ℤ)) :
    (new hash initial).clients =
      initial.foldl (fun clients one => clients.insert one.1.key ⟨one.1.tenantId, true, ""⟩) ∅ := by
  induction initial using List.reverseRecOn with
  | nil => rfl
  | append_singleton before one ih =>
    rw [new, foldl_append, foldl_append, ← ih]
    exact clients_insert _ _ _

/-- After any calls, made one after another, the store is the map. -/
theorem authStore_behaves_as_map (hash : String → String) (hinj : Function.Injective hash)
    (initial : List (ClientKeyEntry × ℤ)) :
    (new hash initial).clients =
        initial.foldl (fun clients one => clients.insert one.1.key ⟨one.1.tenantId, true, ""⟩) ∅ ∧
      ∀ calls, BehavesAsMap hash ((new hash initial).after hash calls) :=
  ⟨clients_new hash initial,
    fun calls => (Consistent.after hinj (consistent_new hash initial) calls).behavesAsMap hinj⟩

theorem rotated_key_behaves :
    let store := (new id [(⟨"a", "t"⟩, 0)]).after id [.rotate 1 "a" "b"]
    BehavesAsMap id store ∧ store.validate "b" = some ⟨"b", "t"⟩ ∧ store.validate "a" = none :=
  ⟨(authStore_behaves_as_map id Function.injective_id [(⟨"a", "t"⟩, 0)]).2 [.rotate 1 "a" "b"],
    rfl, rfl⟩

end

end AuthStore

end LlmProxy
