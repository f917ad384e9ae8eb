import LlmProxy.ChatHandler
import LlmProxy.RetryContract

/-!
# Accounting of requests

What the calls of the chat handler leave in the request log and in the counters, in whatever order
their accesses come.
-/

namespace LlmProxy

open Json List Utf8Bytes

variable {Cost : Type}

namespace Effect

def row? : Effect Cost → Option (RequestLog Cost)
  | .logRequest row => some row
  | _ => none

def isTotal : Effect Cost → Bool
  | .incTotalRequests => true
  | _ => false

def isFailed : Effect Cost → Bool
  | .incFailed => true
  | _ => false

end Effect

variable (effects : List (Effect Cost))

def rowsOf : List (RequestLog Cost) := effects.filterMap Effect.row?

def totalRequests : ℕ := effects.countP Effect.isTotal

def failedRequests : ℕ := effects.countP Effect.isFailed

def rowsFor (id : String) (effects : List (Effect Cost)) : List (RequestLog Cost) :=
  (rowsOf effects).filter fun row => row.id = id

def RequestLog.tenantId (row : RequestLog Cost) : String := row.audit.fromAuth.tenantId

def Handled.succeeded (h : Handled Cost) : Bool := h.answer.isOk

def Handled.fromCache (h : Handled Cost) : Bool :=
  match h.answer with
  | .ok (.cached _) => true
  | _ => false

structure Tally (effects : List (Effect Cost)) (total failed : ℕ)
    (rows : List (RequestLog Cost)) : Prop where
  total : totalRequests effects = total
  failed : failedRequests effects = failed
  rows : rowsOf effects = rows

theorem Tally.append {first second : List (Effect Cost)} {total total' failed failed' : ℕ}
    {rows rows' : List (RequestLog Cost)} (hfirst : Tally first total failed rows)
    (hsecond : Tally second total' failed' rows') :
    Tally (first ++ second) (total + total') (failed + failed') (rows ++ rows') where
  total := by rw [totalRequests, countP_append, ← hfirst.total, ← hsecond.total]; rfl
  failed := by rw [failedRequests, countP_append, ← hfirst.failed, ← hsecond.failed]; rfl
  rows := by rw [rowsOf, filterMap_append, ← hfirst.rows, ← hsecond.rows]; rfl

theorem countP_add_of_exclusive {α : Type} {p q : α → Bool} {xs : List α}
    (hexclusive : ∀ x ∈ xs, q x = true → p x = false) :
    xs.countP p + xs.countP q = xs.countP fun x => p x || q x := by
  induction xs with
  | nil => rfl
  | cons x xs ih =>
    have hrest := ih fun y hy => hexclusive y (mem_cons_of_mem _ hy)
    have hx := hexclusive x mem_cons_self
    rw [countP_cons, countP_cons, countP_cons]
    cases hq : q x with
    | true =>
      rw [hx hq]
      simp only [Bool.false_or, Bool.false_eq_true, if_false]
      omega
    | false =>
      simp only [Bool.or_false, Bool.false_eq_true, if_false]
      omega

theorem length_eq_countP_add_iff {α : Type} {p q : α → Bool} {xs : List α}
    (hexclusive : ∀ x ∈ xs, q x = true → p x = false) :
    xs.length = xs.countP p + xs.countP q ↔ ∀ x ∈ xs, p x = false → q x = true := by
  rw [countP_add_of_exclusive hexclusive, eq_comm, countP_eq_length]
  refine forall₂_congr fun x _ => ?_
  cases p x with
  | true => simp
  | false => simp

variable {row : RequestLog Cost}

namespace ChatCall

variable (call : ChatCall Cost)

theorem tally_admitted : Tally call.admittedEffects 1 0 [] := by
  unfold admittedEffects
  cases call.isStreaming with
  | true => exact ⟨rfl, rfl, rfl⟩
  | false => exact ⟨rfl, rfl, rfl⟩

theorem tally_demotions (final : RetryLoop.LoopState (ProviderResponse (List Poll))) :
    Tally (demotionEffects final : List (Effect Cost)) 0 0 [] := by
  have hall : ∀ effect ∈ (demotionEffects final : List (Effect Cost)),
      effect = .incKeyDemotion := by
    intro effect heffect
    obtain ⟨event, -, hevent⟩ := mem_filterMap.mp heffect
    split at hevent
    · exact (Option.some.inj hevent).symm
    · cases hevent
  refine ⟨?_, ?_, ?_⟩
  · apply countP_eq_zero.mpr
    intro effect heffect
    simp [hall effect heffect, Effect.isTotal]
  · apply countP_eq_zero.mpr
    intro effect heffect
    simp [hall effect heffect, Effect.isFailed]
  · apply filterMap_eq_nil_iff.mpr
    intro effect heffect
    simp [hall effect heffect, Effect.row?]

section

variable [SerdeJson] [Sha256]

theorem tally_loop (provider : Provider) (route : RouteEntry) (sent : ChatCompletionRequest) :
    Tally (call.loopEffects provider route sent) 1 0 [] :=
  call.tally_admitted.append (tally_demotions _)

/-- What an answer with status 200 takes: a permit, and an answer in the cache, or else a
model with a route, a level it has, and an attempt that the upstream answers. -/
def Answerable : Prop :=
  call.permit = true ∧ (call.lookup.1.isSome = true ∨
    ∃ provider route sent, call.router.resolve call.req.model = .ok (provider, route) ∧
      rewriteRequest call.registry route call.req = .ok sent ∧
      ∃ event ∈ (call.finalState provider route sent).log, event.succeeded = true)

theorem loopAnswer_ok_iff (provider : Provider) (route : RouteEntry)
    (sent : ChatCompletionRequest) :
    (∃ response, call.loopAnswer provider route sent = .ok response) ↔
      ∃ event ∈ (call.finalState provider route sent).log, event.succeeded = true :=
  RetryLoop.retryLoop_toResult_ok_iff (Option.some_get _).symm

theorem succeeded_iff : call.handle.succeeded = true ↔ call.Answerable := by
  constructor
  · intro hsucceeded
    have hpath := call.handle_path
    generalize call.handle = handled at hpath hsucceeded
    cases hpath with
    | cacheHit hpermit hhit => exact ⟨hpermit, .inl (by rw [hhit]; rfl)⟩
    | whole hsent hanswer =>
      exact ⟨hsent.permit, .inr ⟨_, _, _, hsent.resolve, hsent.rewrite,
        (call.loopAnswer_ok_iff _ _ _).mp ⟨_, hanswer⟩⟩⟩
    | streamed hsent hanswer =>
      exact ⟨hsent.permit, .inr ⟨_, _, _, hsent.resolve, hsent.rewrite,
        (call.loopAnswer_ok_iff _ _ _).mp ⟨_, hanswer⟩⟩⟩
    | _ => cases hsucceeded
  · rintro ⟨hpermit, hcase⟩
    unfold handle
    simp only [hpermit, Bool.not_true, Bool.false_eq_true, if_false]
    cases hhit : call.lookup.1 with
    | some => rfl
    | none =>
      rw [hhit] at hcase
      obtain ⟨provider, route, sent, hresolve, hrewrite, hevent⟩ :=
        hcase.resolve_left Bool.false_ne_true
      obtain ⟨response, hanswer⟩ := (call.loopAnswer_ok_iff provider route sent).mpr hevent
      simp only [hresolve, hrewrite, afterLoop, hanswer]
      cases response with
      | once => rfl
      | stream => rfl

theorem fromCache_iff :
    call.handle.fromCache = true ↔ call.permit = true ∧ call.lookup.1.isSome = true := by
  constructor
  · intro hcache
    have hpath := call.handle_path
    generalize call.handle = handled at hpath hcache
    cases hpath with
    | cacheHit hpermit hhit => exact ⟨hpermit, by rw [hhit]; rfl⟩
    | _ => cases hcache
  · rintro ⟨hpermit, hhit⟩
    obtain ⟨cached, hcached⟩ := Option.isSome_iff_exists.mp hhit
    unfold handle
    rw [hpermit]
    simp only [hcached]
    rfl

/-- The row of a call: logged for an answer with status 200, under the request's own
identification, and for the tenant of the client unless the cache answered. -/
structure Logged (row : Option (RequestLog Cost)) : Prop where
  tally : Tally call.handle.effects 1 (if call.permit then 0 else 1) row.toList
  some_iff : row.isSome = call.handle.succeeded
  id : ∀ r ∈ row, r.id = call.requestId
  tenant : ∀ r ∈ row, r.tenantId =
    if call.handle.fromCache then "default" else call.tenantId

variable {call} in
theorem logged_none {handled : Handled Cost} (hhandle : call.handle = handled)
    (htally : Tally handled.effects 1 (if call.permit then 0 else 1) [])
    (hfailed : handled.succeeded = false) : call.Logged none where
  tally := by
    rw [hhandle]
    exact htally
  some_iff := by
    rw [hhandle, hfailed]
    rfl
  id := by simp
  tenant := by simp

variable {call} in
theorem logged_some {handled : Handled Cost} (hhandle : call.handle = handled)
    (hpermit : call.permit = true) (htally : Tally handled.effects 1 0 [row])
    (hsucceeded : handled.succeeded = true) (hid : row.id = call.requestId)
    (htenant : row.tenantId = if handled.fromCache then "default" else call.tenantId) :
    call.Logged (some row) where
  tally := by
    rw [hhandle, hpermit]
    exact htally
  some_iff := by
    rw [hhandle, hsucceeded]
    rfl
  id := by simpa using hid
  tenant := by
    rw [hhandle]
    simpa using htenant

theorem exists_logged : ∃ row, call.Logged row := by
  have hpath := call.handle_path
  generalize hhandle : call.handle = handled at hpath
  cases hpath with
  | rejected hpermit =>
    refine ⟨none, logged_none hhandle ?_ rfl⟩
    rw [hpermit]
    exact ⟨rfl, rfl, rfl⟩
  | cacheHit hpermit =>
    exact ⟨_, logged_some hhandle hpermit (call.tally_admitted.append ⟨rfl, rfl, rfl⟩) rfl rfl rfl⟩
  | unknownModel hpermit =>
    refine ⟨none, logged_none hhandle ?_ rfl⟩
    rw [hpermit]
    exact call.tally_admitted
  | refusedLevel hpermit =>
    refine ⟨none, logged_none hhandle ?_ rfl⟩
    rw [hpermit]
    exact call.tally_admitted
  | failed hsent =>
    refine ⟨none, logged_none hhandle ?_ rfl⟩
    rw [hsent.permit]
    exact call.tally_loop _ _ _
  | whole hsent =>
    exact ⟨_, logged_some hhandle hsent.permit
      ((call.tally_loop _ _ _).append ⟨rfl, rfl, rfl⟩) rfl rfl rfl⟩
  | streamed hsent =>
    exact ⟨_, logged_some hhandle hsent.permit
      ((call.tally_loop _ _ _).append ⟨rfl, rfl, rfl⟩) rfl rfl rfl⟩

end

end ChatCall

section

variable [SerdeJson] [Sha256]

def ChatCall.rows (call : ChatCall Cost) : List (RequestLog Cost) := rowsOf call.handle.effects

def Trace (calls : List (ChatCall Cost)) (trace : List (Effect Cost)) : Prop :=
  trace.Perm (calls.flatMap fun call => call.handle.effects)

theorem tally_flatMap (calls : List (ChatCall Cost)) :
    Tally (calls.flatMap fun call => call.handle.effects) calls.length
      (calls.countP fun call => !call.permit) (calls.flatMap ChatCall.rows) := by
  induction calls with
  | nil => exact ⟨rfl, rfl, rfl⟩
  | cons call calls ih =>
    obtain ⟨row, hlogged⟩ := call.exists_logged
    have hrows : row.toList = call.rows := hlogged.tally.rows.symm
    have happend := hlogged.tally.append ih
    rw [hrows] at happend
    rw [flatMap_cons, length_cons, countP_cons]
    refine ⟨?_, ?_, happend.rows⟩
    · rw [happend.total, Nat.add_comm]
    · rw [happend.failed, Nat.add_comm]
      cases call.permit with
      | true => rfl
      | false => rfl

variable {calls : List (ChatCall Cost)} {trace : List (Effect Cost)}

namespace Trace

theorem totalRequests_eq (htrace : Trace calls trace) : totalRequests trace = calls.length := by
  rw [totalRequests, List.Perm.countP_eq _ htrace]
  exact (tally_flatMap calls).total

theorem failedRequests_eq (htrace : Trace calls trace) :
    failedRequests trace = calls.countP fun call => !call.permit := by
  rw [failedRequests, List.Perm.countP_eq _ htrace]
  exact (tally_flatMap calls).failed

theorem rowsOf_perm (htrace : Trace calls trace) :
    (rowsOf trace).Perm (calls.flatMap ChatCall.rows) := by
  rw [← (tally_flatMap calls).rows]
  exact List.Perm.filterMap _ htrace

end Trace

variable {call : ChatCall Cost}

theorem id_of_mem_rows (hrow : row ∈ call.rows) : row.id = call.requestId := by
  obtain ⟨logged, hlogged⟩ := call.exists_logged
  rw [ChatCall.rows, hlogged.tally.rows, Option.mem_toList] at hrow
  exact hlogged.id row hrow

theorem tenant_of_mem_rows (hrow : row ∈ call.rows) :
    row.tenantId = if call.handle.fromCache then "default" else call.tenantId := by
  obtain ⟨logged, hlogged⟩ := call.exists_logged
  rw [ChatCall.rows, hlogged.tally.rows, Option.mem_toList] at hrow
  exact hlogged.tenant row hrow

theorem length_rows (call : ChatCall Cost) :
    call.rows.length = if call.handle.succeeded then 1 else 0 := by
  obtain ⟨logged, hlogged⟩ := call.exists_logged
  rw [ChatCall.rows, hlogged.tally.rows, ← hlogged.some_iff]
  cases logged with
  | none => rfl
  | some => rfl

theorem filter_rows_of_nodup (hids : (calls.map ChatCall.requestId).Nodup) (hcall : call ∈ calls) :
    ((calls.flatMap ChatCall.rows).filter fun row => row.id = call.requestId) = call.rows := by
  induction calls with
  | nil => cases hcall
  | cons first calls ih =>
    rw [map_cons, nodup_cons] at hids
    rw [flatMap_cons, filter_append]
    have hother : ∀ other : ChatCall Cost, other.requestId ≠ call.requestId →
        (other.rows.filter fun row => row.id = call.requestId) = [] := by
      intro other hne
      apply filter_eq_nil_iff.mpr
      intro row hrow
      rw [id_of_mem_rows hrow]
      simpa using hne
    rcases mem_cons.mp hcall with rfl | hlater
    · have hself : (call.rows.filter fun row => row.id = call.requestId) = call.rows := by
        apply filter_eq_self.mpr
        intro row hrow
        simp [id_of_mem_rows hrow]
      have hrest : ((calls.flatMap ChatCall.rows).filter fun row => row.id = call.requestId) =
          [] := by
        rw [filter_flatMap]
        apply flatMap_eq_nil_iff.mpr
        intro other hmem
        apply hother other
        intro hsame
        exact hids.1 (mem_map.mpr ⟨other, hmem, hsame⟩)
      rw [hself, hrest, append_nil]
    · have hfirst := hother first fun hsame =>
        hids.1 (mem_map.mpr ⟨call, hlater, hsame.symm⟩)
      rw [hfirst]
      exact ih hids.2 hlater

theorem Trace.length_rowsFor (htrace : Trace calls trace)
    (hids : (calls.map ChatCall.requestId).Nodup) (hcall : call ∈ calls) :
    (rowsFor call.requestId trace).length = if call.handle.succeeded then 1 else 0 := by
  have hperm := htrace.rowsOf_perm.filter fun row => decide (row.id = call.requestId)
  rw [rowsFor, hperm.length_eq, filter_rows_of_nodup hids hcall, length_rows]

theorem not_succeeded_of_rejected (hrejected : call.permit = false) :
    call.handle.succeeded = false := by
  unfold ChatCall.handle
  rw [hrejected]
  rfl

theorem Trace.counters_iff (htrace : Trace calls trace) :
    totalRequests trace =
        (calls.countP fun call => call.handle.succeeded) + failedRequests trace ↔
      ∀ call ∈ calls, call.handle.succeeded = false → call.permit = false := by
  rw [htrace.totalRequests_eq, htrace.failedRequests_eq]
  have hexclusive : ∀ call ∈ calls, (!call.permit) = true → call.handle.succeeded = false := by
    intro call _ hrejected
    exact not_succeeded_of_rejected (by simpa using hrejected)
  rw [length_eq_countP_add_iff hexclusive]
  simp

/-- Every request has one row, and the counters add up, exactly if every request can be
answered. -/
theorem accounted_iff_all_answerable (calls : List (ChatCall Cost))
    (hids : (calls.map ChatCall.requestId).Nodup) (trace : List (Effect Cost))
    (htrace : Trace calls trace) :
    ((∀ call ∈ calls, (rowsFor call.requestId trace).length = 1) ∧
      totalRequests trace =
        (calls.countP fun call => call.handle.succeeded) + failedRequests trace) ↔
      ∀ call ∈ calls, call.Answerable := by
  simp only [← ChatCall.succeeded_iff]
  constructor
  · rintro ⟨hrows, -⟩ call hcall
    have hone := hrows call hcall
    rw [htrace.length_rowsFor hids hcall] at hone
    by_contra hfailed
    simp [hfailed] at hone
  · intro hall
    refine ⟨?_, ?_⟩
    · intro call hcall
      rw [htrace.length_rowsFor hids hcall, hall call hcall]
      rfl
    · rw [htrace.counters_iff]
      intro call hcall hfailed
      rw [hall call hcall] at hfailed
      cases hfailed

/-! ## Tenants -/

structure TenantsAccounted (calls : List (ChatCall Cost)) (trace : List (Effect Cost)) : Prop where
  own : ∀ call ∈ calls, ∀ row ∈ call.rows, row.tenantId = call.tenantId
  sums : ∀ tenant, ((rowsOf trace).filter fun row => row.tenantId = tenant).Perm
    ((calls.filter fun call => call.tenantId = tenant).flatMap ChatCall.rows)

theorem filter_tenant_flatMap {calls : List (ChatCall Cost)}
    (hown : ∀ call ∈ calls, ∀ row ∈ call.rows, row.tenantId = call.tenantId) (tenant : String) :
    ((calls.flatMap ChatCall.rows).filter fun row => row.tenantId = tenant) =
      (calls.filter fun call => call.tenantId = tenant).flatMap ChatCall.rows := by
  induction calls with
  | nil => rfl
  | cons call calls ih =>
    have hcall := hown call mem_cons_self
    rw [flatMap_cons, filter_append, ih fun other hother => hown other (mem_cons_of_mem _ hother)]
    by_cases htenant : call.tenantId = tenant
    · have hkeep : (call.rows.filter fun row => row.tenantId = tenant) = call.rows := by
        apply filter_eq_self.mpr
        intro row hrow
        simp [hcall row hrow, htenant]
      rw [hkeep]
      simp [htenant]
    · have hdrop : (call.rows.filter fun row => row.tenantId = tenant) = [] := by
        apply filter_eq_nil_iff.mpr
        intro row hrow
        simp [hcall row hrow, htenant]
      rw [hdrop]
      simp [htenant]

theorem exists_row_of_hit (hpermit : call.permit = true) (hhit : call.lookup.1.isSome = true) :
    ∃ row, row ∈ call.rows := by
  have hlength := length_rows call
  rw [call.succeeded_iff.mpr ⟨hpermit, .inl hhit⟩] at hlength
  exact exists_mem_of_length_pos (by simp [hlength])

/-- The log gives each tenant its requests exactly if only requests of the default
tenant are found in the cache. -/
theorem tenantsAccounted_iff (calls : List (ChatCall Cost)) (trace : List (Effect Cost))
    (htrace : Trace calls trace) :
    TenantsAccounted calls trace ↔
      ∀ call ∈ calls, call.permit = true → call.lookup.1.isSome = true →
        call.tenantId = "default" := by
  constructor
  · intro hkept call hcall hpermit hhit
    obtain ⟨row, hrow⟩ := exists_row_of_hit hpermit hhit
    have htenant := tenant_of_mem_rows hrow
    rw [hkept.own call hcall row hrow, call.fromCache_iff.mpr ⟨hpermit, hhit⟩] at htenant
    exact htenant
  · intro hdefault
    have hown : ∀ call ∈ calls, ∀ row ∈ call.rows, row.tenantId = call.tenantId := by
      intro call hcall row hrow
      rw [tenant_of_mem_rows hrow]
      split_ifs with hcache
      · obtain ⟨hpermit, hhit⟩ := call.fromCache_iff.mp hcache
        exact (hdefault call hcall hpermit hhit).symm
      · rfl
    refine ⟨hown, ?_⟩
    intro tenant
    rw [← filter_tenant_flatMap hown]
    exact htrace.rowsOf_perm.filter _

end

section

attribute [local instance] jsonText zeroSha256

def askCall (tenant : String) (cache : ResponseCache) : ChatCall ℕ where
  requestId := "r1"
  tenantId := tenant
  headers := fun _ => none
  req := askRequest
  permit := true
  cache := cache
  router := ⟨∅, ∅⟩
  registry := []
  policy := ⟨⟨0, []⟩, 256⟩
  stripThinkTags := false
  pricing := ⟨fun _ _ _ _ => none⟩
  shared := ⟨.new, .new ⟨1, 0, 1⟩⟩
  attempts := fun _ =>
    { chosen := 0
      refresh := .unchanged
      allowAt := 0
      failedAt := 0
      exchange := ⟨.error "", ""⟩
      provider := ⟨[], id, [], 0⟩ }
  scan := []
  itemsRead := 0
  times := ⟨0, 0, 0, 0, 0, 0, fun _ => 0, 0⟩

def askedCache : ResponseCache :=
  (PromptCache.new 256).put shortDigest 0 [] askRequest bareAnswer

def twoHits : List (ChatCall ℕ) :=
  [askCall "acme" askedCache, { askCall "default" askedCache with requestId := "r2" }]

theorem hits_accounted :
    (∀ call ∈ twoHits,
        (rowsFor call.requestId (twoHits.flatMap fun call => call.handle.effects)).length = 1) ∧
      totalRequests (twoHits.flatMap fun call => call.handle.effects) =
        (twoHits.countP fun call => call.handle.succeeded) +
          failedRequests (twoHits.flatMap fun call => call.handle.effects) :=
  (accounted_iff_all_answerable twoHits (by decide) _ (.refl _)).mpr
    (forall_mem_cons.mpr ⟨⟨rfl, .inl rfl⟩, forall_mem_singleton.mpr ⟨rfl, .inl rfl⟩⟩)

/-- A request for an unknown model is neither logged nor counted as failed. -/
theorem unknown_model_unaccounted :
    rowsFor "r1" (askCall "acme" (.new 256)).handle.effects = [] ∧
      totalRequests (askCall "acme" (.new 256)).handle.effects = 1 ∧
      (askCall "acme" (.new 256)).handle.succeeded = false ∧
      failedRequests (askCall "acme" (.new 256)).handle.effects = 0 :=
  ⟨rfl, rfl, rfl, rfl⟩

theorem default_hit_accounted :
    TenantsAccounted [askCall "acme" (.new 256), askCall "default" askedCache]
      ([askCall "acme" (.new 256), askCall "default" askedCache].flatMap fun call =>
        call.handle.effects) :=
  (tenantsAccounted_iff _ _ (.refl _)).mpr (by decide)

/-- A request of another tenant is logged for the default one. -/
theorem hit_logged_for_default :
    (askCall "acme" askedCache).handle.fromCache = true ∧
      (askCall "acme" askedCache).rows.map RequestLog.tenantId = ["default"] :=
  ⟨rfl, rfl⟩

end

end LlmProxy
