import LlmProxy.ConcurrencyLimiter

/-!
# The capacity of the limiter

The two ways to ask for permits in `concurrency.rs`.
-/

namespace LlmProxy

namespace ConcurrencyLimiter

variable (limiter : ConcurrencyLimiter) (tenant : String)

/-- Gives a guard or puts back what it has taken. -/
def acquire : Bool × ConcurrencyLimiter :=
  match limiter.takeTenant tenant with
  | none => (false, limiter)
  | some taken =>
    match taken.takeGlobal with
    | none => (false, taken.giveTenant tenant)
    | some both => (true, both)

/-- `Semaphore::try_acquire(&tenant_sem).is_ok()`: the permit is dropped when the
statement ends. -/
def probeTenant : Bool × ConcurrencyLimiter :=
  match limiter.takeTenant tenant with
  | none => (false, limiter)
  | some taken => (true, taken.giveTenant tenant)

def probeGlobal : Bool × ConcurrencyLimiter :=
  match limiter.takeGlobal with
  | none => (false, limiter)
  | some taken => (true, { taken with global := taken.global + 1 })

/-- Only looks: the permits it takes are temporaries of their statements, which are back before the
next statement runs. -/
def tryAcquire : Bool × ConcurrencyLimiter :=
  -- `or_insert_with` stores the semaphore of a tenant that was not seen before.
  let entered := limiter.setAvailable tenant (limiter.available tenant)
  let (tenantOk, probed) := entered.probeTenant tenant
  let (globalOk, probed) := probed.probeGlobal
  if tenantOk && globalOk then (true, probed)
  else
    -- `add_permits(1)`
    (false, if tenantOk then probed.giveTenant tenant else probed)

def Refunds : Prop :=
  0 < limiter.available tenant ∧ limiter.global = 0

instance (limiter : ConcurrencyLimiter) (tenant : String) : Decidable (limiter.Refunds tenant) :=
  inferInstanceAs (Decidable (_ ∧ _))

variable {limiter taken : ConcurrencyLimiter} {tenant : String}

theorem takeTenant_eq_some (htake : limiter.takeTenant tenant = some taken) :
    0 < limiter.available tenant ∧ taken.global = limiter.global ∧
      ∀ other, taken.available other + (if other = tenant then 1 else 0) =
        limiter.available other := by
  unfold takeTenant at htake
  split_ifs at htake with hfree
  cases htake
  refine ⟨hfree, rfl, ?_⟩
  intro other
  rw [available_setAvailable]
  split_ifs with hsame
  · rw [hsame]
    omega
  · rfl

theorem takeTenant_eq_none (htake : limiter.takeTenant tenant = none) :
    limiter.available tenant = 0 := by
  unfold takeTenant at htake
  split_ifs at htake with hfree
  omega

theorem takeGlobal_eq_some (htake : limiter.takeGlobal = some taken) :
    taken.global + 1 = limiter.global ∧
      ∀ other, taken.available other = limiter.available other := by
  unfold takeGlobal at htake
  split_ifs at htake with hfree
  cases htake
  refine ⟨?_, fun _ => rfl⟩
  dsimp only
  omega

theorem takeGlobal_eq_none (htake : limiter.takeGlobal = none) : limiter.global = 0 := by
  unfold takeGlobal at htake
  split_ifs at htake with hfree
  omega

variable (limiter tenant)

theorem acquire_cases :
    (∃ after, limiter.acquire tenant = (false, after) ∧ after.global = limiter.global ∧
      ∀ other, after.available other = limiter.available other) ∨
    ∃ after, limiter.acquire tenant = (true, after) ∧ after.global + 1 = limiter.global ∧
      ∀ other, after.available other + (if other = tenant then 1 else 0) =
        limiter.available other := by
  unfold acquire
  cases htenant : limiter.takeTenant tenant with
  | none => exact .inl ⟨limiter, rfl, rfl, fun _ => rfl⟩
  | some taken =>
    obtain ⟨-, hsame, havailable⟩ := takeTenant_eq_some htenant
    dsimp only
    cases hglobal : taken.takeGlobal with
    | none =>
      refine .inl ⟨taken.giveTenant tenant, rfl, hsame, ?_⟩
      intro other
      rw [available_giveTenant]
      exact havailable other
    | some both =>
      obtain ⟨hless, hkept⟩ := takeGlobal_eq_some hglobal
      refine .inr ⟨both, rfl, hless.trans hsame, ?_⟩
      intro other
      rw [hkept]
      exact havailable other

theorem probeTenant_spec :
    (limiter.probeTenant tenant).1 = decide (0 < limiter.available tenant) ∧
      (limiter.probeTenant tenant).2.global = limiter.global ∧
      ∀ other, (limiter.probeTenant tenant).2.available other = limiter.available other := by
  unfold probeTenant
  cases htake : limiter.takeTenant tenant with
  | none => exact ⟨by simp [takeTenant_eq_none htake], rfl, fun _ => rfl⟩
  | some =>
    obtain ⟨hfree, hsame, havailable⟩ := takeTenant_eq_some htake
    refine ⟨(decide_eq_true hfree).symm, hsame, ?_⟩
    intro other
    rw [available_giveTenant, havailable]

theorem probeGlobal_spec :
    limiter.probeGlobal.1 = decide (0 < limiter.global) ∧
      limiter.probeGlobal.2.global = limiter.global ∧
      ∀ other, limiter.probeGlobal.2.available other = limiter.available other := by
  unfold probeGlobal
  cases htake : limiter.takeGlobal with
  | none => exact ⟨by simp [takeGlobal_eq_none htake], rfl, fun _ => rfl⟩
  | some taken =>
    obtain ⟨hless, havailable⟩ := takeGlobal_eq_some htake
    exact ⟨(decide_eq_true (by omega)).symm, hless, havailable⟩

theorem tryAcquire_capacity (other : String) :
    (limiter.tryAcquire tenant).2.available other =
        limiter.available other + (if other = tenant ∧ limiter.Refunds tenant then 1 else 0) ∧
      (limiter.tryAcquire tenant).2.global = limiter.global := by
  have hentered : ∀ other,
      (limiter.setAvailable tenant (limiter.available tenant)).available other =
        limiter.available other := by
    intro other
    rw [available_setAvailable]
    split_ifs with hsame
    · rw [hsame]
    · rfl
  unfold tryAcquire
  dsimp only
  generalize hentry : limiter.setAvailable tenant (limiter.available tenant) = entered at hentered ⊢
  have hentryGlobal : entered.global = limiter.global := by rw [← hentry]; rfl
  obtain ⟨htenantOk, hglobal, havailable⟩ := entered.probeTenant_spec tenant
  generalize entered.probeTenant tenant = probe at htenantOk hglobal havailable ⊢
  obtain ⟨hglobalOk, hglobal', havailable'⟩ := probe.2.probeGlobal_spec
  generalize probe.2.probeGlobal = both at hglobalOk hglobal' havailable' ⊢
  have hboth : ∀ other, both.2.available other = limiter.available other := by
    intro other
    rw [havailable', havailable, hentered]
  have hsame : both.2.global = limiter.global := (hglobal'.trans hglobal).trans hentryGlobal
  rw [hentered] at htenantOk
  rw [hglobal, hentryGlobal] at hglobalOk
  rw [htenantOk, hglobalOk]
  by_cases htenant : 0 < limiter.available tenant
  · by_cases hfree : 0 < limiter.global
    · have hnot : ¬ limiter.Refunds tenant := fun hrefund => hfree.ne' hrefund.2
      simp [htenant, hfree, hnot, hboth, hsame]
    · have hrefund : limiter.Refunds tenant := ⟨htenant, by omega⟩
      simp only [htenant, hfree, decide_true, decide_false, Bool.and_false, Bool.false_eq_true,
        if_false, if_true, hrefund, and_true]
      refine ⟨?_, hsame⟩
      rw [available_giveTenant, hboth]
  · have hnot : ¬ limiter.Refunds tenant := fun hrefund => htenant hrefund.1
    simp [htenant, hnot, hboth, hsame]

end ConcurrencyLimiter

namespace PermitAccounting

structure State where
  limiter : ConcurrencyLimiter
  guards : List String

inductive Operation
  | acquire (tenant : String)
  | dropGuard (tenant : String)
  | tryAcquire (tenant : String)
  deriving DecidableEq, Repr

def initial (maxPerTenant totalMax : ℕ) : State := ⟨.new maxPerTenant totalMax, []⟩

def step (s : State) : Operation → Option State
  | .acquire tenant =>
    let (granted, limiter) := s.limiter.acquire tenant
    some ⟨limiter, if granted then tenant :: s.guards else s.guards⟩
  | .dropGuard tenant =>
    if tenant ∈ s.guards then some ⟨s.limiter.release tenant, s.guards.erase tenant⟩ else none
  | .tryAcquire tenant => some { s with limiter := (s.limiter.tryAcquire tenant).2 }

namespace State

def tenantCapacity (s : State) (tenant : String) : ℕ :=
  s.limiter.available tenant + s.guards.count tenant

def globalCapacity (s : State) : ℕ := s.limiter.global + s.guards.length

end State

def Mints (s : State) (operation : Operation) (tenant : String) : Prop :=
  operation = .tryAcquire tenant ∧ s.limiter.Refunds tenant

instance (s : State) (operation : Operation) (tenant : String) :
    Decidable (Mints s operation tenant) :=
  inferInstanceAs (Decidable (_ ∧ _))

variable {s t : State} {operation : Operation}

/-- What an operation does to the capacities. -/
theorem step_capacity (hstep : step s operation = some t) :
    (∀ tenant, t.tenantCapacity tenant =
        s.tenantCapacity tenant + if Mints s operation tenant then 1 else 0) ∧
      t.globalCapacity = s.globalCapacity := by
  unfold State.tenantCapacity State.globalCapacity
  cases operation with
  | acquire tenant =>
    have hnone : ∀ other, ¬ Mints s (.acquire tenant) other := fun _ hmints => by cases hmints.1
    rcases s.limiter.acquire_cases tenant with ⟨after, hrefused, hglobal, havailable⟩ |
      ⟨after, hgranted, hglobal, havailable⟩
    · rw [step, hrefused] at hstep
      cases hstep
      refine ⟨?_, by rw [← hglobal]; rfl⟩
      intro other
      rw [← havailable]
      rfl
    · rw [step, hgranted] at hstep
      cases hstep
      refine ⟨?_, ?_⟩
      · intro other
        change after.available other + (tenant :: s.guards).count other = _
        rw [if_neg (hnone other), ← havailable]
        by_cases hsame : other = tenant
        · rw [if_pos hsame, hsame, List.count_cons_self]
          omega
        · rw [if_neg hsame, List.count_cons_of_ne (Ne.symm hsame), Nat.add_zero, Nat.add_zero]
      · change after.global + (tenant :: s.guards).length = _
        rw [List.length_cons]
        omega
  | dropGuard tenant =>
    have hnone : ∀ other, ¬ Mints s (.dropGuard tenant) other := fun _ hmints => by cases hmints.1
    simp only [step] at hstep
    split_ifs at hstep with hlive
    cases hstep
    refine ⟨?_, ?_⟩
    · intro other
      rw [if_neg (hnone other), ConcurrencyLimiter.available_release]
      by_cases hsame : other = tenant
      · have hpos : 0 < s.guards.count tenant := List.count_pos_iff.mpr hlive
        rw [if_pos hsame, hsame, List.count_erase_self]
        omega
      · rw [if_neg hsame, List.count_erase_of_ne hsame, Nat.add_zero, Nat.add_zero]
    · have hpos : 0 < s.guards.length := List.length_pos_of_mem hlive
      have hglobal : (s.limiter.release tenant).global = s.limiter.global + 1 := rfl
      rw [List.length_erase_of_mem hlive, hglobal]
      omega
  | tryAcquire tenant =>
    cases hstep
    refine ⟨?_, ?_⟩
    · intro other
      rw [(s.limiter.tryAcquire_capacity tenant other).1]
      have hmints : Mints s (.tryAcquire tenant) other ↔
          other = tenant ∧ s.limiter.Refunds tenant := by
        constructor
        · rintro ⟨hsame, hrefund⟩
          cases hsame
          exact ⟨rfl, hrefund⟩
        · rintro ⟨rfl, hrefund⟩
          exact ⟨rfl, hrefund⟩
      simp only [hmints]
      omega
    · rw [(s.limiter.tryAcquire_capacity tenant tenant).2]

structure CapacityKept (maxPerTenant totalMax : ℕ) (s : State) : Prop where
  perTenant : ∀ tenant, s.tenantCapacity tenant = maxPerTenant
  global : s.globalCapacity = totalMax

def MintsNothing (s : State) (operation : Operation) : Prop := ∀ tenant, ¬ Mints s operation tenant

open StepSystem

variable {maxPerTenant totalMax : ℕ} {operations : List Operation}

theorem capacity_of_run (hrun : Run step (initial maxPerTenant totalMax) operations s) :
    (∀ tenant, maxPerTenant ≤ s.tenantCapacity tenant) ∧ s.globalCapacity = totalMax := by
  refine hrun.invariant
    (fun s => (∀ tenant, maxPerTenant ≤ s.tenantCapacity tenant) ∧ s.globalCapacity = totalMax)
    ?_ ⟨fun _ => le_rfl, rfl⟩
  intro before action after hinv _ hstep
  obtain ⟨htenants, hglobal⟩ := step_capacity hstep
  refine ⟨?_, hglobal.trans hinv.2⟩
  intro tenant
  rw [htenants]
  exact (hinv.1 tenant).trans (Nat.le_add_right _ _)

theorem CapacityKept.step_iff (hrun : Run step (initial maxPerTenant totalMax) operations s)
    (hstep : step s operation = some t) :
    CapacityKept maxPerTenant totalMax t ↔
      CapacityKept maxPerTenant totalMax s ∧ MintsNothing s operation := by
  obtain ⟨hleast, hglobal⟩ := capacity_of_run hrun
  obtain ⟨htenants, hsame⟩ := step_capacity hstep
  constructor
  · intro hkept
    have hboth : ∀ tenant,
        s.tenantCapacity tenant = maxPerTenant ∧ ¬ Mints s operation tenant := by
      intro tenant
      have hafter := hkept.perTenant tenant
      have hbefore := hleast tenant
      rw [htenants] at hafter
      split_ifs at hafter with hmints
      · omega
      · exact ⟨hafter, hmints⟩
    exact ⟨⟨fun tenant => (hboth tenant).1, hglobal⟩, fun tenant => (hboth tenant).2⟩
  · rintro ⟨hkept, hnothing⟩
    refine ⟨?_, hsame.trans hglobal⟩
    intro tenant
    rw [htenants, if_neg (hnothing tenant)]
    exact hkept.perTenant tenant

/-- After every sequence of operations the capacities are those of the start exactly if
no `try_acquire` has found a permit of its tenant and none of the gateway. -/
theorem capacityKept_iff_mintsNothing
    (hrun : Run step (initial maxPerTenant totalMax) operations s) :
    CapacityKept maxPerTenant totalMax s ↔
      GuardedRun step MintsNothing (initial maxPerTenant totalMax) operations s := by
  induction hrun with
  | nil => exact ⟨fun _ => .nil _, fun _ => ⟨fun _ => rfl, rfl⟩⟩
  | snoc hbefore _ hstep ih =>
    rw [CapacityKept.step_iff hbefore hstep, hbefore.concat_iff hstep, ih]

/-- A guard is taken, `try_acquire` finds nothing left for the tenant, the guard is
dropped. -/
theorem capacityKept_of_busy_tenant :
    ∃ s, Run step (initial 1 1) [.acquire "a", .tryAcquire "a", .dropGuard "a"] s ∧
      CapacityKept 1 1 s := by
  have hacquire : MintsNothing (initial 1 1) (.acquire "a") := fun _ hmints => by cases hmints.1
  have hdrop : ∀ s, MintsNothing s (.dropGuard "a") := fun _ _ hmints => by cases hmints.1
  let busy : State := ⟨(ConcurrencyLimiter.acquire (.new 1 1) "a").2, ["a"]⟩
  have hbusy : ¬ busy.limiter.Refunds "a" := by decide +kernel
  have htry : MintsNothing busy (.tryAcquire "a") := by
    rintro tenant ⟨hsame, hrefund⟩
    cases hsame
    exact hbusy hrefund
  have hrun : GuardedRun step MintsNothing (initial 1 1)
      [.acquire "a", .tryAcquire "a", .dropGuard "a"]
      ⟨(busy.limiter.tryAcquire "a").2.release "a", []⟩ :=
    (((GuardedRun.nil (initial 1 1)).snoc hacquire (by rfl)).snoc htry (by rfl)).snoc (hdrop _)
      (by rfl)
  have hplain : Run step (initial 1 1) [.acquire "a", .tryAcquire "a", .dropGuard "a"] _ :=
    hrun.mono fun _ _ _ => trivial
  exact ⟨_, hplain, (capacityKept_iff_mintsNothing hplain).mpr hrun⟩

/-- Two other tenants hold the permits of the gateway while `try_acquire` is refused.  It
leaves two permits for a tenant that may have one, and both are given away later. -/
theorem refused_tryAcquire_adds_permit :
    ((runActions step (initial 1 2) [.acquire "b", .acquire "c", .tryAcquire "a"]).map
        fun s => (s.limiter.available "a", s.guards)) = some (2, ["c", "b"]) ∧
      ((runActions step (initial 1 2) [.acquire "b", .acquire "c", .tryAcquire "a",
          .dropGuard "b", .dropGuard "c", .acquire "a", .acquire "a"]).map
        fun s => s.guards) = some ["a", "a"] := by
  decide +kernel

end PermitAccounting

end LlmProxy
