import Mathlib.Data.List.AList
import Mathlib.Tactic
import LlmProxy.GuardedRun

/-!
# The concurrency limiter

A request takes a permit of its tenant and then a global one (`concurrency.rs`); the two are taken
one after the other, and other requests come in between.
-/

namespace LlmProxy

open List Option

/-! ## Permits -/

/-- The semaphores by their available permits; one is created when its tenant is first
seen. -/
structure ConcurrencyLimiter where
  semaphores : AList fun _ : String => ℕ
  maxPerTenant : ℕ
  global : ℕ

namespace ConcurrencyLimiter

def new (maxPerTenant totalMax : ℕ) : ConcurrencyLimiter := ⟨∅, maxPerTenant, totalMax⟩

variable (limiter : ConcurrencyLimiter) (tenant : String)

/-- A tenant without a semaphore has all its permits. -/
def available : ℕ :=
  (limiter.semaphores.lookup tenant).getD limiter.maxPerTenant

def setAvailable (n : ℕ) : ConcurrencyLimiter :=
  { limiter with semaphores := limiter.semaphores.insert tenant n }

/-- The first half of `acquire`. -/
def takeTenant : Option ConcurrencyLimiter :=
  if 0 < limiter.available tenant then
    some (limiter.setAvailable tenant (limiter.available tenant - 1))
  else none

/-- The second half of `acquire`. -/
def takeGlobal : Option ConcurrencyLimiter :=
  if 0 < limiter.global then some { limiter with global := limiter.global - 1 } else none

def giveTenant : ConcurrencyLimiter :=
  limiter.setAvailable tenant (limiter.available tenant + 1)

/-- Both permits of a guard go back. -/
def release : ConcurrencyLimiter :=
  { limiter.giveTenant tenant with global := limiter.global + 1 }

variable (other : String)

theorem available_setAvailable (n : ℕ) :
    (limiter.setAvailable tenant n).available other =
      if other = tenant then n else limiter.available other := by
  unfold available setAvailable
  split_ifs with hsame
  · rw [hsame, AList.lookup_insert]
    rfl
  · rw [AList.lookup_insert_ne hsame]

theorem available_giveTenant :
    (limiter.giveTenant tenant).available other =
      limiter.available other + if other = tenant then 1 else 0 := by
  rw [giveTenant, available_setAvailable]
  split_ifs with hsame
  · rw [hsame]
  · rfl

theorem available_release :
    (limiter.release tenant).available other =
      limiter.available other + if other = tenant then 1 else 0 :=
  available_giveTenant limiter tenant other

end ConcurrencyLimiter

namespace RequestFlow

/-- How far a request has come: it has its tenant permit, its handler runs, or its
body is read. -/
inductive Phase
  | entered
  | handling
  | streaming
  deriving DecidableEq, Repr

structure Request where
  id : ℕ
  tenant : String
  phase : Phase
  deriving DecidableEq, Repr

namespace Request

def holds (tenant : String) (r : Request) : Bool := tenant = r.tenant && r.phase != .streaming

def isHandling (r : Request) : Bool := r.phase == .handling

def isInFlight (r : Request) : Bool := r.phase != .entered

end Request

structure State where
  limiter : ConcurrencyLimiter
  requests : List Request

inductive Action
  | arrive (id : ℕ) (tenant : String)
  | acquireGlobal (id : ℕ)
  /-- The handler returns, with a stream or with anything else. -/
  | respond (id : ℕ) (streamed : Bool)
  | chunk (id : ℕ)
  | disconnect (id : ℕ)
  | finish (id : ℕ)
  deriving DecidableEq, Repr

def initial (maxPerTenant totalMax : ℕ) : State := ⟨.new maxPerTenant totalMax, []⟩

namespace State

variable (s : State)

def find (id : ℕ) (phase : Phase) : Option Request :=
  s.requests.find? fun r => r.id = id ∧ r.phase = phase

def inFlight (tenant : String) : ℕ :=
  s.requests.countP fun r => tenant = r.tenant && r.isInFlight

def inFlightTotal : ℕ := s.requests.countP Request.isInFlight

def held (tenant : String) : ℕ := s.requests.countP (Request.holds tenant)

def handling : ℕ := s.requests.countP Request.isHandling

def enter (id : ℕ) (tenant : String) : State :=
  match s.limiter.takeTenant tenant with
  | some limiter => ⟨limiter, ⟨id, tenant, .entered⟩ :: s.requests⟩
  | none => s

variable (r : Request)

def acquireGlobal : State :=
  match s.limiter.takeGlobal with
  | some limiter => ⟨limiter, { r with phase := .handling } :: s.requests.erase r⟩
  | none => ⟨s.limiter.giveTenant r.tenant, s.requests.erase r⟩

/-- The guard with both permits lives as long as the chat handler runs. A streamed answer outlives
it: the handler returns the response, and the body is read afterwards. -/
def respond (streamed : Bool) : State where
  limiter := s.limiter.release r.tenant
  requests :=
    if streamed then { r with phase := .streaming } :: s.requests.erase r else s.requests.erase r

def finish : State := { s with requests := s.requests.erase r }

end State

def step (s : State) : Action → Option State
  | .arrive id tenant =>
    if s.requests.any fun r => r.id = id then none else some (s.enter id tenant)
  | .acquireGlobal id => (s.find id .entered).map s.acquireGlobal
  | .respond id streamed => (s.find id .handling).map fun r => s.respond r streamed
  | .chunk id => (s.find id .streaming).map fun _ => s
  | .disconnect id =>
    match s.find id .handling with
    | some r => some (s.respond r false)
    | none => (s.find id .streaming).map s.finish
  | .finish id => (s.find id .streaming).map s.finish

/-! ### What a step can do -/

def Action.streams : Action → Bool
  | .respond _ streamed => streamed
  | _ => false

inductive StepPath (s : State) : Bool → State → Prop
  | unchanged : StepPath s false s
  | entered (id : ℕ) (tenant : String) (hfree : 0 < s.limiter.available tenant) :
      StepPath s false ⟨s.limiter.setAvailable tenant (s.limiter.available tenant - 1),
        ⟨id, tenant, .entered⟩ :: s.requests⟩
  | admitted (r : Request) (hr : r ∈ s.requests) (hphase : r.phase = .entered)
      (hfree : 0 < s.limiter.global) :
      StepPath s false ⟨{ s.limiter with global := s.limiter.global - 1 },
        { r with phase := .handling } :: s.requests.erase r⟩
  | turnedAway (r : Request) (hr : r ∈ s.requests) (hphase : r.phase = .entered) :
      StepPath s false ⟨s.limiter.giveTenant r.tenant, s.requests.erase r⟩
  | responded (r : Request) (hr : r ∈ s.requests) (hphase : r.phase = .handling)
      (streamed : Bool) : StepPath s streamed (s.respond r streamed)
  | finished (r : Request) (hr : r ∈ s.requests) (hphase : r.phase = .streaming) :
      StepPath s false (s.finish r)

variable {r : Request} {streams : Bool} {s : State}

theorem mem_of_find {id : ℕ} {phase : Phase} (hfind : s.find id phase = some r) :
    r ∈ s.requests ∧ r.phase = phase := by
  refine ⟨mem_of_find?_eq_some hfind, ?_⟩
  have hpred := find?_some hfind
  exact (of_decide_eq_true hpred).2

theorem enter_path (s : State) (id : ℕ) (tenant : String) :
    StepPath s false (s.enter id tenant) := by
  unfold State.enter ConcurrencyLimiter.takeTenant
  split_ifs with hfree
  · exact .entered id tenant hfree
  · exact .unchanged

theorem acquireGlobal_path (hr : r ∈ s.requests) (hphase : r.phase = .entered) :
    StepPath s false (s.acquireGlobal r) := by
  unfold State.acquireGlobal ConcurrencyLimiter.takeGlobal
  split_ifs with hfree
  · exact .admitted r hr hphase hfree
  · exact .turnedAway r hr hphase

theorem step_path {t : State} {action : Action} (hstep : step s action = some t) :
    StepPath s action.streams t := by
  cases action with
  | arrive id tenant =>
    rw [step] at hstep
    split_ifs at hstep
    cases hstep
    exact enter_path s id tenant
  | acquireGlobal =>
    obtain ⟨r, hfind, rfl⟩ := map_eq_some_iff.mp hstep
    obtain ⟨hr, hphase⟩ := mem_of_find hfind
    exact acquireGlobal_path hr hphase
  | respond id streamed =>
    obtain ⟨r, hfind, rfl⟩ := map_eq_some_iff.mp hstep
    obtain ⟨hr, hphase⟩ := mem_of_find hfind
    exact .responded r hr hphase streamed
  | chunk =>
    obtain ⟨r, hfind, rfl⟩ := map_eq_some_iff.mp hstep
    exact .unchanged
  | disconnect id =>
    rw [step] at hstep
    cases hfind : s.find id .handling with
    | some r =>
      rw [hfind] at hstep
      cases hstep
      obtain ⟨hr, hphase⟩ := mem_of_find hfind
      exact .responded r hr hphase false
    | none =>
      rw [hfind] at hstep
      obtain ⟨r, hstreaming, rfl⟩ := map_eq_some_iff.mp hstep
      obtain ⟨hr, hphase⟩ := mem_of_find hstreaming
      exact .finished r hr hphase
  | finish =>
    obtain ⟨r, hfind, rfl⟩ := map_eq_some_iff.mp hstep
    obtain ⟨hr, hphase⟩ := mem_of_find hfind
    exact .finished r hr hphase

section

variable {r : Request} {rs : List Request}

theorem countP_erase_add (p : Request → Bool) (hr : r ∈ rs) :
    (rs.erase r).countP p + (if p r then 1 else 0) = rs.countP p := by
  rw [(perm_cons_erase hr).countP_eq, countP_cons]

theorem holds_iff (hphase : r.phase ≠ .streaming) (tenant : String) :
    r.holds tenant = true ↔ tenant = r.tenant := by
  simp [Request.holds, hphase]

theorem countP_holds_cons (hphase : r.phase ≠ .streaming) (tenant : String) :
    (r :: rs).countP (Request.holds tenant) =
      rs.countP (Request.holds tenant) + if tenant = r.tenant then 1 else 0 := by
  rw [countP_cons]
  simp only [holds_iff hphase]

theorem countP_holds_erase (hr : r ∈ rs) (hphase : r.phase ≠ .streaming) (tenant : String) :
    (rs.erase r).countP (Request.holds tenant) + (if tenant = r.tenant then 1 else 0) =
      rs.countP (Request.holds tenant) := by
  rw [← countP_erase_add (Request.holds tenant) hr]
  simp only [holds_iff hphase]

theorem countP_isHandling_erase (hr : r ∈ rs) (hphase : r.phase ≠ .handling) :
    (rs.erase r).countP Request.isHandling = rs.countP Request.isHandling := by
  rw [← countP_erase_add Request.isHandling hr, if_neg (by simpa [Request.isHandling] using hphase),
    Nat.add_zero]

end

structure PermitsKept (maxPerTenant totalMax : ℕ) (s : State) : Prop where
  perTenant : ∀ tenant, s.limiter.available tenant + s.held tenant = maxPerTenant
  global : s.limiter.global + s.handling = totalMax

variable {maxPerTenant totalMax : ℕ} {s t : State}

theorem permitsKept_initial :
    PermitsKept maxPerTenant totalMax (initial maxPerTenant totalMax) where
  perTenant _ := rfl
  global := rfl

theorem held_respond (streamed : Bool) (tenant : String) :
    (s.respond r streamed).held tenant = (s.requests.erase r).countP (Request.holds tenant) := by
  unfold State.held State.respond
  cases streamed with
  | false => rfl
  | true =>
    rw [if_pos rfl, countP_cons, if_neg (by simp [Request.holds]), Nat.add_zero]

theorem handling_respond (streamed : Bool) :
    (s.respond r streamed).handling = (s.requests.erase r).countP Request.isHandling := by
  unfold State.handling State.respond
  cases streamed with
  | false => rfl
  | true =>
    rw [if_pos rfl, countP_cons, if_neg (by simp [Request.isHandling]), Nat.add_zero]

theorem PermitsKept.step (hkept : PermitsKept maxPerTenant totalMax s)
    (hpath : StepPath s streams t) : PermitsKept maxPerTenant totalMax t := by
  have htenants := hkept.perTenant
  have hglobal := hkept.global
  unfold State.held at htenants
  unfold State.handling at hglobal
  cases hpath with
  | unchanged => exact hkept
  | entered id tenant hfree =>
    refine ⟨?_, hglobal⟩
    intro other
    have hother := htenants other
    rw [State.held, countP_holds_cons (by simp), ConcurrencyLimiter.available_setAvailable]
    split_ifs with hsame
    · rw [hsame] at hother ⊢
      omega
    · exact hother
  | admitted r hr hphase hfree =>
    refine ⟨?_, ?_⟩
    · intro other
      have hother := htenants other
      rw [← countP_holds_erase hr (by simp [hphase])] at hother
      rw [State.held, countP_holds_cons (by simp)]
      exact hother
    · rw [← countP_isHandling_erase hr (by simp [hphase])] at hglobal
      have hone : (({ r with phase := .handling } : Request) :: s.requests.erase r).countP
          Request.isHandling = (s.requests.erase r).countP Request.isHandling + 1 :=
        countP_cons_of_pos rfl
      rw [State.handling]
      dsimp only
      omega
  | turnedAway r hr hphase =>
    refine ⟨?_, ?_⟩
    · intro other
      have hother := htenants other
      rw [← countP_holds_erase hr (by simp [hphase])] at hother
      rw [State.held, ConcurrencyLimiter.available_giveTenant]
      dsimp only
      omega
    · rw [State.handling, countP_isHandling_erase hr (by simp [hphase])]
      exact hglobal
  | responded r hr hphase =>
    refine ⟨?_, ?_⟩
    · intro other
      have hother := htenants other
      rw [← countP_holds_erase hr (by simp [hphase])] at hother
      rw [held_respond, State.respond, ConcurrencyLimiter.available_release]
      omega
    · rw [← countP_erase_add Request.isHandling hr,
        if_pos (by simp [Request.isHandling, hphase])] at hglobal
      rw [handling_respond]
      have hrelease : (s.respond r streams).limiter.global = s.limiter.global + 1 := rfl
      omega
  | finished r hr hphase =>
    have hheld : ∀ tenant, (s.finish r).held tenant = s.held tenant := by
      intro tenant
      rw [State.held, State.held, ← countP_erase_add (Request.holds tenant) hr,
        if_neg (by simp [Request.holds, hphase])]
      rfl
    refine ⟨?_, ?_⟩
    · intro other
      rw [hheld]
      exact hkept.perTenant other
    · rw [State.handling, State.finish, countP_isHandling_erase hr (by simp [hphase])]
      exact hglobal

/-! ## Requests in flight -/

def Bounded (maxPerTenant totalMax : ℕ) (s : State) : Prop :=
  (∀ tenant, s.inFlight tenant ≤ maxPerTenant) ∧ s.inFlightTotal ≤ totalMax

def NoStreams (s : State) : Prop := ∀ r ∈ s.requests, r.phase ≠ .streaming

theorem bounded_of_noStreams (hkept : PermitsKept maxPerTenant totalMax s) (hnone : NoStreams s) :
    Bounded maxPerTenant totalMax s := by
  refine ⟨?_, ?_⟩
  · intro tenant
    have hle : s.inFlight tenant ≤ s.held tenant := by
      apply countP_mono_left
      intro r hr hflight
      rw [Bool.and_eq_true, decide_eq_true_iff] at hflight
      exact (holds_iff (hnone r hr) tenant).mpr hflight.1
    have hkeeps := hkept.perTenant tenant
    omega
  · have hle : s.inFlightTotal ≤ s.handling := by
      apply countP_mono_left
      intro r hr hflight
      have hnostream := hnone r hr
      cases hphase : r.phase with
      | entered => simp [Request.isInFlight, hphase] at hflight
      | handling => simp [Request.isHandling, hphase]
      | streaming => exact absurd hphase hnostream
    have hkeeps := hkept.global
    omega

theorem not_handling_of_zero (hkept : PermitsKept maxPerTenant totalMax s)
    (hzero : maxPerTenant = 0 ∨ totalMax = 0) (hr : r ∈ s.requests) : r.phase ≠ .handling := by
  intro hphase
  rcases hzero with htenant | htotal
  · have hheld : 0 < s.held r.tenant :=
      countP_pos_iff.mpr ⟨r, hr, (holds_iff (by simp [hphase]) r.tenant).mpr rfl⟩
    have hkeeps := hkept.perTenant r.tenant
    omega
  · have hhandling : 0 < s.handling :=
      countP_pos_iff.mpr ⟨r, hr, by simp [Request.isHandling, hphase]⟩
    have hkeeps := hkept.global
    omega

theorem NoStreams.step (hnone : NoStreams s) (hkept : PermitsKept maxPerTenant totalMax s)
    (hpath : StepPath s streams t) (hcase : streams = false ∨ maxPerTenant = 0 ∨ totalMax = 0) :
    NoStreams t := by
  have herase : ∀ r : Request, ∀ other ∈ s.requests.erase r, other.phase ≠ .streaming :=
    fun _ other hother => hnone other (mem_of_mem_erase hother)
  cases hpath with
  | unchanged => exact hnone
  | entered => exact forall_mem_cons.mpr ⟨by simp, hnone⟩
  | admitted r => exact forall_mem_cons.mpr ⟨by simp, herase r⟩
  | turnedAway r => exact herase r
  | responded r hr hphase =>
    rcases hcase with hquiet | hzero
    · subst hquiet
      exact herase r
    · exact absurd hphase (not_handling_of_zero hkept hzero hr)
  | finished r hr hphase => exact absurd hphase (hnone r hr)

def Streaming (streams : Bool) : State → Action → Prop :=
  fun _ action => action.streams = true → streams = true

open StepSystem

variable {actions : List Action} {tenant : String} {n : ℕ}

theorem bounded_of_run (hcase : streams = false ∨ maxPerTenant = 0 ∨ totalMax = 0)
    (hrun : GuardedRun step (Streaming streams) (initial maxPerTenant totalMax) actions s) :
    Bounded maxPerTenant totalMax s := by
  have hboth : PermitsKept maxPerTenant totalMax s ∧ NoStreams s := by
    refine hrun.invariant (fun s => PermitsKept maxPerTenant totalMax s ∧ NoStreams s) ?_
      ⟨permitsKept_initial, by simp [NoStreams, initial]⟩
    intro before action after hinv hok hstep
    have hpath := step_path hstep
    refine ⟨hinv.1.step hpath, hinv.2.step hinv.1 hpath ?_⟩
    rcases hcase with hquiet | hzero
    · left
      by_contra hstreams
      rw [hok (by simpa using hstreams)] at hquiet
      cases hquiet
    · exact .inr hzero
  exact bounded_of_noStreams hboth.1 hboth.2

/-! ### Streams one after the other -/

def streamsOf (tenant : String) : ℕ → List Request
  | 0 => []
  | n + 1 => ⟨n, tenant, .streaming⟩ :: streamsOf tenant n

theorem id_lt_of_mem_streamsOf (hr : r ∈ streamsOf tenant n) : r.id < n := by
  induction n with
  | zero => cases hr
  | succ n ih =>
    rcases mem_cons.mp hr with rfl | hlater
    · exact Nat.lt_succ_self n
    · exact Nat.lt_succ_of_lt (ih hlater)

theorem countP_streamsOf {p : Request → Bool} (hp : ∀ id, p ⟨id, tenant, .streaming⟩ = true)
    (n : ℕ) : (streamsOf tenant n).countP p = n := by
  induction n with
  | zero => rfl
  | succ n ih =>
    rw [streamsOf, countP_cons_of_pos (hp n), ih]

theorem find_cons {limiter : ConcurrencyLimiter} {rs : List Request} (r : Request) :
    (⟨limiter, r :: rs⟩ : State).find r.id r.phase = some r :=
  find?_cons_of_pos (by simp)

theorem run_one_stream (tenant : String) (htenant : 0 < s.limiter.available tenant)
    (hglobal : 0 < s.limiter.global) (hfresh : ∀ r ∈ s.requests, r.id ≠ n) :
    ∃ t, GuardedRun step (Streaming true) s
        [.arrive n tenant, .acquireGlobal n, .respond n true] t ∧
      t.limiter.available tenant = s.limiter.available tenant ∧
      t.limiter.global = s.limiter.global ∧
      t.requests = ⟨n, tenant, .streaming⟩ :: s.requests := by
  let entered : State := ⟨s.limiter.setAvailable tenant (s.limiter.available tenant - 1),
    ⟨n, tenant, .entered⟩ :: s.requests⟩
  let handling : State := ⟨{ entered.limiter with global := s.limiter.global - 1 },
    ⟨n, tenant, .handling⟩ :: s.requests⟩
  have hnew : (s.requests.any fun r => r.id = n) = false := by simpa using hfresh
  have harrive : step s (.arrive n tenant) = some entered := by
    rw [step, hnew, State.enter, ConcurrencyLimiter.takeTenant, if_pos htenant]
    rfl
  have hacquire : step entered (.acquireGlobal n) = some handling := by
    have hfind : entered.find n .entered = some ⟨n, tenant, .entered⟩ := find_cons _
    have htake : entered.limiter.takeGlobal =
        some { entered.limiter with global := s.limiter.global - 1 } := if_pos hglobal
    rw [step, hfind, map_some, State.acquireGlobal, htake]
    rw [erase_cons_head]
  have hrespond : step handling (.respond n true) =
      some (handling.respond ⟨n, tenant, .handling⟩ true) := by
    have hfind : handling.find n .handling = some ⟨n, tenant, .handling⟩ := find_cons _
    rw [step, hfind, map_some]
  refine ⟨handling.respond ⟨n, tenant, .handling⟩ true, ?_, ?_, ?_, ?_⟩
  · have hstart : GuardedRun step (Streaming true) s [] s := .nil s
    exact ((hstart.snoc (fun _ => rfl) harrive).snoc (fun _ => rfl) hacquire).snoc (fun _ => rfl)
      hrespond
  · rw [State.respond, ConcurrencyLimiter.available_release, if_pos rfl]
    change (s.limiter.setAvailable tenant _).available tenant + 1 = _
    rw [ConcurrencyLimiter.available_setAvailable, if_pos rfl]
    omega
  · change s.limiter.global - 1 + 1 = _
    omega
  · rw [State.respond, if_pos rfl, erase_cons_head]

theorem exists_run_streams (hper : 0 < maxPerTenant) (htotal : 0 < totalMax) (tenant : String)
    (n : ℕ) :
    ∃ actions s, GuardedRun step (Streaming true) (initial maxPerTenant totalMax) actions s ∧
      s.limiter.available tenant = maxPerTenant ∧ s.limiter.global = totalMax ∧
      s.requests = streamsOf tenant n := by
  induction n with
  | zero => exact ⟨[], initial maxPerTenant totalMax, .nil _, rfl, rfl, rfl⟩
  | succ n ih =>
    obtain ⟨actions, s, hrun, havailable, hglobal, hrequests⟩ := ih
    have hfresh : ∀ r ∈ s.requests, r.id ≠ n := by
      intro r hr
      rw [hrequests] at hr
      exact (id_lt_of_mem_streamsOf hr).ne
    obtain ⟨t, hmore, havailable', hglobal', hrequests'⟩ :=
      run_one_stream tenant (by omega) (by omega) hfresh
    refine ⟨_, t, hrun.trans hmore, havailable'.trans havailable, hglobal'.trans hglobal, ?_⟩
    rw [hrequests', hrequests]
    rfl

/-- The requests in flight stay within the limits in every run exactly if nothing is
streamed or a limit lets no request in. -/
theorem always_bounded_iff (maxPerTenant totalMax : ℕ) (streams : Bool) :
    (∀ actions s, GuardedRun step (Streaming streams) (initial maxPerTenant totalMax) actions s →
      Bounded maxPerTenant totalMax s) ↔
      streams = false ∨ maxPerTenant = 0 ∨ totalMax = 0 := by
  constructor
  · intro hbounded
    by_contra hnot
    rw [not_or, not_or, Bool.not_eq_false] at hnot
    obtain ⟨hstreams, hper, htotal⟩ := hnot
    obtain ⟨actions, s, hrun, -, -, hrequests⟩ := exists_run_streams (Nat.pos_of_ne_zero hper)
      (Nat.pos_of_ne_zero htotal) "default" (maxPerTenant + 1)
    rw [← hstreams] at hrun
    have hle := (hbounded actions s hrun).1 "default"
    have hcount : s.inFlight "default" = maxPerTenant + 1 := by
      rw [State.inFlight, hrequests]
      exact countP_streamsOf (fun _ => rfl) _
    omega
  · intro hcase actions s hrun
    exact bounded_of_run hcase hrun

/-- Two streams of a tenant that may have one request in flight. -/
theorem two_streams_in_flight :
    ((runActions step (initial 1 1)
      [.arrive 0 "a", .acquireGlobal 0, .respond 0 true,
        .arrive 1 "a", .acquireGlobal 1, .respond 1 true, .chunk 0]).map
      fun s => (s.inFlight "a", s.inFlightTotal)) =
      some (2, 2) := by
  decide +kernel

end RequestFlow

end LlmProxy
