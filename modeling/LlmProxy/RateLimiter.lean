import Mathlib.Data.List.AList
import Mathlib.Data.Rat.Defs
import Mathlib.Tactic
import LlmProxy.JsonValue
import LlmProxy.MeteredGrants

/-!
# The rate limiter

`ratelimit/mod.rs` keeps a token bucket for each tenant.  The doubles of the source are rational
numbers here, and instants are seconds on one clock.
-/

namespace LlmProxy

open Json List

/-! ## Buckets -/

structure TokenBucket where
  tokens : ℚ
  lastRefill : ℚ
  capacity : ℚ

namespace TokenBucket

def new (now capacity : ℚ) : TokenBucket := ⟨capacity, now, capacity⟩

/-- An empty bucket is full after a minute. -/
def refill (now : ℚ) (bucket : TokenBucket) : TokenBucket :=
  -- `duration_since` is zero for an instant that is not earlier.
  let elapsed := max 0 (now - bucket.lastRefill)
  if 0 < elapsed then
    { bucket with
      tokens := min (bucket.tokens + elapsed * (bucket.capacity / 60)) bucket.capacity
      lastRefill := now }
  else bucket

/-- A request takes a token after the refill. -/
def consume (now : ℚ) (bucket : TokenBucket) : Bool × TokenBucket :=
  let bucket := bucket.refill now
  if 1 ≤ bucket.tokens then (true, { bucket with tokens := bucket.tokens - 1 }) else (false, bucket)

structure Valid (capacity : ℚ) (bucket : TokenBucket) : Prop where
  capacity_eq : bucket.capacity = capacity
  nonneg : 0 ≤ bucket.tokens
  le_capacity : bucket.tokens ≤ capacity

variable {capacity now : ℚ} {bucket : TokenBucket}

theorem valid_new (hcapacity : 0 ≤ capacity) (now : ℚ) : (new now capacity).Valid capacity :=
  ⟨rfl, hcapacity, le_rfl⟩

theorem Valid.capacity_nonneg (hvalid : bucket.Valid capacity) : 0 ≤ capacity :=
  hvalid.nonneg.trans hvalid.le_capacity

theorem Valid.refill (hvalid : bucket.Valid capacity) (now : ℚ) :
    (bucket.refill now).Valid capacity := by
  have hcapacity := hvalid.capacity_nonneg
  unfold TokenBucket.refill
  dsimp only
  split_ifs with helapsed
  · refine ⟨hvalid.capacity_eq, ?_, (min_le_right _ _).trans_eq hvalid.capacity_eq⟩
    rw [hvalid.capacity_eq]
    have hflow : 0 ≤ max 0 (now - bucket.lastRefill) * (capacity / 60) := by positivity
    exact le_min (add_nonneg hvalid.nonneg hflow) hcapacity
  · exact hvalid

theorem Valid.consume (hvalid : bucket.Valid capacity) (now : ℚ) :
    (bucket.consume now).2.Valid capacity := by
  have hrefilled := hvalid.refill now
  unfold TokenBucket.consume
  dsimp only
  split_ifs with htoken
  · refine ⟨hrefilled.capacity_eq, ?_, ?_⟩
    · exact sub_nonneg.mpr htoken
    · dsimp only
      linarith [hrefilled.le_capacity]
  · exact hrefilled

theorem Valid.refill_eq (hvalid : bucket.Valid capacity) (hlater : bucket.lastRefill ≤ now) :
    (bucket.refill now).tokens =
        MeteredGrants.levelAt capacity (capacity / 60) bucket.tokens bucket.lastRefill now ∧
      (bucket.refill now).lastRefill = now := by
  unfold TokenBucket.refill MeteredGrants.levelAt
  have hmax : max 0 (now - bucket.lastRefill) = now - bucket.lastRefill :=
    max_eq_right (sub_nonneg.mpr hlater)
  dsimp only
  rw [hmax, hvalid.capacity_eq]
  split_ifs with helapsed
  · exact ⟨rfl, rfl⟩
  · have hsame : bucket.lastRefill = now := by linarith
    refine ⟨?_, hsame⟩
    rw [hsame, sub_self, zero_mul, add_zero, min_eq_left hvalid.le_capacity]

theorem consume_granted_iff : (bucket.consume now).1 = true ↔ 1 ≤ (bucket.refill now).tokens := by
  unfold consume
  dsimp only
  split_ifs with htoken
  · simp [htoken]
  · simp [htoken]

theorem consume_tokens (now : ℚ) (bucket : TokenBucket) :
    (bucket.consume now).2.tokens + (if (bucket.consume now).1 then 1 else 0) =
        (bucket.refill now).tokens ∧
      (bucket.consume now).2.lastRefill = (bucket.refill now).lastRefill := by
  unfold consume
  by_cases htoken : 1 ≤ (bucket.refill now).tokens
  · simp [htoken]
  · simp [htoken]

end TokenBucket

/-! ## The middleware -/

structure RateLimiter where
  buckets : AList fun _ : String => TokenBucket
  capacity : ℚ

/-- `AlertEvent::RateLimited`. -/
structure RateLimitedAlert where
  ts : ℤ
  tenantId : String

structure Refusal where
  status : ℕ
  body : Value
  alert : RateLimitedAlert

inductive Verdict
  /-- The request is handed to the next layer. -/
  | passed
  | refused (refusal : Refusal)

def Verdict.isPassed : Verdict → Bool
  | .passed => true
  | .refused _ => false

/-- A request with the readings of the clock the middleware makes for it: one if it adds
a bucket, a later one when it takes a token, and the wall clock of an alert. -/
structure Arrival where
  /-- The tenant of the `AuthedClient` extension. -/
  client : Option String
  addedAt : ℚ
  now : ℚ
  ordered : addedAt ≤ now
  wallClock : ℤ

def Arrival.tenantId (arrival : Arrival) : String := arrival.client.getD ""

namespace RateLimiter

def new (requestsPerMinute : ℕ) : RateLimiter := ⟨∅, requestsPerMinute⟩

def refusalBody : Value :=
  .obj [("error", .obj [("code", .num (.int 429)), ("message", .str "rate limited".toList),
    ("type", .str "rate_limit".toList)])]

/-- `entry(tenant_id).or_insert_with(..)`. -/
def bucketOf (limiter : RateLimiter) (arrival : Arrival) : TokenBucket :=
  (limiter.buckets.lookup arrival.tenantId).getD (.new arrival.addedAt limiter.capacity)

/-- A request without a tenant is not limited; a refusal has status 429 and sends an alert. -/
def rateLimitMiddleware (limiter : RateLimiter) (arrival : Arrival) : Verdict × RateLimiter :=
  if arrival.tenantId = "" then (.passed, limiter)
  else
    let (granted, bucket) := (limiter.bucketOf arrival).consume arrival.now
    let limiter := { limiter with buckets := limiter.buckets.insert arrival.tenantId bucket }
    if granted then (.passed, limiter)
    else (.refused ⟨429, refusalBody, ⟨arrival.wallClock, arrival.tenantId⟩⟩, limiter)

def after (limiter : RateLimiter) (arrivals : List Arrival) : RateLimiter :=
  arrivals.foldl (fun limiter arrival => (limiter.rateLimitMiddleware arrival).2) limiter

def decisions (limiter : RateLimiter) : List Arrival → List (Arrival × Verdict)
  | [] => []
  | arrival :: later =>
    (arrival, (limiter.rateLimitMiddleware arrival).1) ::
      decisions (limiter.rateLimitMiddleware arrival).2 later

def admittedIn (tenant : String) (start stop : ℚ) (decided : List (Arrival × Verdict)) : ℕ :=
  decided.countP fun d =>
    decide (d.1.tenantId = tenant) && d.2.isPassed && decide (start ≤ d.1.now) &&
      decide (d.1.now ≤ stop)

variable {limiter : RateLimiter} {arrival : Arrival} {tenant : String}

@[simp] theorem capacity_middleware (limiter : RateLimiter) (arrival : Arrival) :
    (limiter.rateLimitMiddleware arrival).2.capacity = limiter.capacity := by
  unfold rateLimitMiddleware
  dsimp only
  split_ifs
  · rfl
  · rfl
  · rfl

theorem lookup_middleware_self (htenant : arrival.tenantId ≠ "") :
    (limiter.rateLimitMiddleware arrival).2.buckets.lookup arrival.tenantId =
      some ((limiter.bucketOf arrival).consume arrival.now).2 := by
  unfold rateLimitMiddleware
  rw [if_neg htenant]
  dsimp only
  split_ifs
  · exact AList.lookup_insert _
  · exact AList.lookup_insert _

theorem lookup_middleware_of_ne (hother : tenant ≠ arrival.tenantId) :
    (limiter.rateLimitMiddleware arrival).2.buckets.lookup tenant =
      limiter.buckets.lookup tenant := by
  unfold rateLimitMiddleware
  dsimp only
  split_ifs
  · rfl
  · exact AList.lookup_insert_ne hother
  · exact AList.lookup_insert_ne hother

theorem isPassed_middleware (htenant : arrival.tenantId ≠ "") :
    (limiter.rateLimitMiddleware arrival).1.isPassed =
      ((limiter.bucketOf arrival).consume arrival.now).1 := by
  unfold rateLimitMiddleware
  rw [if_neg htenant]
  dsimp only
  split_ifs with hgranted
  · exact hgranted.symm
  · exact (Bool.not_eq_true _ ▸ hgranted).symm

def Sound (limiter : RateLimiter) : Prop :=
  0 ≤ limiter.capacity ∧
    ∀ tenant bucket, limiter.buckets.lookup tenant = some bucket → bucket.Valid limiter.capacity

theorem sound_new (requestsPerMinute : ℕ) : (new requestsPerMinute).Sound :=
  ⟨Nat.cast_nonneg _, fun tenant bucket hlookup => by cases hlookup⟩

theorem Sound.bucketOf (hsound : limiter.Sound) (arrival : Arrival) :
    (limiter.bucketOf arrival).Valid limiter.capacity := by
  unfold RateLimiter.bucketOf
  cases hlookup : limiter.buckets.lookup arrival.tenantId with
  | none => exact TokenBucket.valid_new hsound.1 arrival.addedAt
  | some bucket => exact hsound.2 arrival.tenantId bucket hlookup

theorem Sound.middleware (hsound : limiter.Sound) (arrival : Arrival) :
    (limiter.rateLimitMiddleware arrival).2.Sound := by
  refine ⟨?_, ?_⟩
  · rw [capacity_middleware]
    exact hsound.1
  · intro tenant bucket hlookup
    rw [capacity_middleware]
    by_cases hempty : arrival.tenantId = ""
    · rw [rateLimitMiddleware, if_pos hempty] at hlookup
      exact hsound.2 tenant bucket hlookup
    · by_cases hsame : tenant = arrival.tenantId
      · rw [hsame, lookup_middleware_self hempty] at hlookup
        cases hlookup
        exact (hsound.bucketOf arrival).consume arrival.now
      · rw [lookup_middleware_of_ne hsame] at hlookup
        exact hsound.2 tenant bucket hlookup

theorem Sound.after (hsound : limiter.Sound) (arrivals : List Arrival) :
    (limiter.after arrivals).Sound := by
  induction arrivals generalizing limiter with
  | nil => exact hsound
  | cons arrival later ih => exact ih (hsound.middleware arrival)

@[simp] theorem capacity_after (limiter : RateLimiter) (arrivals : List Arrival) :
    (limiter.after arrivals).capacity = limiter.capacity := by
  induction arrivals generalizing limiter with
  | nil => rfl
  | cons arrival later ih =>
    exact (ih (limiter.rateLimitMiddleware arrival).2).trans (capacity_middleware limiter arrival)

structure AgreeOn (tenant : String) (limiter other : RateLimiter) : Prop where
  capacity : limiter.capacity = other.capacity
  bucket : limiter.buckets.lookup tenant = other.buckets.lookup tenant

variable {other : RateLimiter}

theorem AgreeOn.bucketOf (hagree : AgreeOn arrival.tenantId limiter other) :
    limiter.bucketOf arrival = other.bucketOf arrival := by
  rw [RateLimiter.bucketOf, RateLimiter.bucketOf, hagree.capacity, hagree.bucket]

theorem AgreeOn.verdict (hagree : AgreeOn arrival.tenantId limiter other) :
    (limiter.rateLimitMiddleware arrival).1 = (other.rateLimitMiddleware arrival).1 := by
  unfold rateLimitMiddleware
  rw [hagree.bucketOf]
  dsimp only
  split_ifs
  · rfl
  · rfl
  · rfl

theorem AgreeOn.middleware (hagree : AgreeOn arrival.tenantId limiter other) :
    AgreeOn arrival.tenantId (limiter.rateLimitMiddleware arrival).2
      (other.rateLimitMiddleware arrival).2 := by
  refine ⟨by simp [hagree.capacity], ?_⟩
  by_cases hempty : arrival.tenantId = ""
  · rw [rateLimitMiddleware, rateLimitMiddleware, if_pos hempty, if_pos hempty]
    exact hagree.bucket
  · rw [lookup_middleware_self hempty, lookup_middleware_self hempty, hagree.bucketOf]

theorem AgreeOn.skip (hagree : AgreeOn tenant limiter other) (hother : tenant ≠ arrival.tenantId) :
    AgreeOn tenant (limiter.rateLimitMiddleware arrival).2 other := by
  refine ⟨by simp [hagree.capacity], ?_⟩
  rw [lookup_middleware_of_ne hother]
  exact hagree.bucket

theorem AgreeOn.decisions_filter (hagree : AgreeOn tenant limiter other) (arrivals : List Arrival) :
    (limiter.decisions arrivals).filter (fun d => decide (d.1.tenantId = tenant)) =
      other.decisions (arrivals.filter fun arrival => decide (arrival.tenantId = tenant)) := by
  induction arrivals generalizing limiter other with
  | nil => rfl
  | cons arrival later ih =>
    by_cases hsame : arrival.tenantId = tenant
    · subst hsame
      rw [decisions, filter_cons_of_pos (by simp), filter_cons_of_pos (by simp),
        decisions, hagree.verdict, ih hagree.middleware]
    · rw [decisions, filter_cons_of_neg (by simpa using hsame),
        filter_cons_of_neg (by simpa using hsame), ih (hagree.skip (Ne.symm hsame))]

/-! ### What a tenant gets in a window -/

def Chronological (arrivals : List Arrival) : Prop :=
  arrivals.Pairwise fun earlier later => earlier.now ≤ later.addedAt

def tenantEvents (tenant : String) (decided : List (Arrival × Verdict)) : List (ℚ × Bool) :=
  (decided.filter fun d => decide (d.1.tenantId = tenant)).map fun d => (d.1.now, d.2.isPassed)

theorem admittedIn_eq_grantsIn (tenant : String) (start stop : ℚ)
    (decided : List (Arrival × Verdict)) :
    admittedIn tenant start stop decided =
      MeteredGrants.grantsIn start stop (tenantEvents tenant decided) := by
  unfold MeteredGrants.grantsIn tenantEvents
  rw [countP_map, countP_filter]
  refine countP_congr ?_
  simp only [Function.comp_apply, Bool.and_eq_true]
  tauto

/-- The bucket of a tenant has this level since some time; one that is not there yet is
full. -/
def HasLevel (limiter : RateLimiter) (tenant : String) (level since : ℚ) : Prop :=
  match limiter.buckets.lookup tenant with
  | some bucket => bucket.tokens = level ∧ bucket.lastRefill = since
  | none => limiter.capacity = level

variable {arrivals : List Arrival} {since level : ℚ}

theorem refill_bucketOf (hsound : limiter.Sound)
    (hlevel : limiter.HasLevel arrival.tenantId level since) (hsince : since ≤ arrival.addedAt) :
    ((limiter.bucketOf arrival).refill arrival.now).tokens =
        MeteredGrants.levelAt limiter.capacity (limiter.capacity / 60) level since arrival.now ∧
      ((limiter.bucketOf arrival).refill arrival.now).lastRefill = arrival.now := by
  have hnow : since ≤ arrival.now := hsince.trans arrival.ordered
  have hvalid := hsound.bucketOf arrival
  unfold HasLevel at hlevel
  unfold RateLimiter.bucketOf at hvalid ⊢
  cases hlookup : limiter.buckets.lookup arrival.tenantId with
  | some bucket =>
    rw [hlookup] at hlevel hvalid
    obtain ⟨rfl, rfl⟩ := hlevel
    exact hvalid.refill_eq hnow
  | none =>
    rw [hlookup] at hlevel hvalid
    have hfull : ∀ t ≤ arrival.now, MeteredGrants.levelAt limiter.capacity
        (limiter.capacity / 60) limiter.capacity t arrival.now = limiter.capacity := by
      intro t ht
      have hflow : 0 ≤ (arrival.now - t) * (limiter.capacity / 60) :=
        mul_nonneg (sub_nonneg.mpr ht) (div_nonneg hsound.1 (by norm_num))
      exact min_eq_right (by linarith)
    obtain ⟨htokens, hlast⟩ := hvalid.refill_eq arrival.ordered
    refine ⟨?_, hlast⟩
    rw [← hlevel, hfull since hnow]
    exact htokens.trans (hfull arrival.addedAt arrival.ordered)

theorem metered_decisions (htenant : tenant ≠ "") (hclock : Chronological arrivals)
    (hsound : limiter.Sound) (hlevel : limiter.HasLevel tenant level since)
    (hsince : ∀ arrival ∈ arrivals, since ≤ arrival.addedAt) :
    MeteredGrants.Metered limiter.capacity (limiter.capacity / 60) level since
      (tenantEvents tenant (limiter.decisions arrivals)) := by
  induction arrivals generalizing limiter level since with
  | nil => exact .nil level since
  | cons arrival later ih =>
    obtain ⟨hlater, hclock'⟩ := pairwise_cons.mp hclock
    rw [forall_mem_cons] at hsince
    have hsound' := hsound.middleware arrival
    unfold tenantEvents at ih ⊢
    rw [decisions]
    by_cases hsame : arrival.tenantId = tenant
    · subst hsame
      rw [filter_cons_of_pos (by simp)]
      obtain ⟨hrefilled, hlast⟩ := refill_bucketOf hsound hlevel hsince.1
      obtain ⟨htokens, hstamp⟩ :=
        TokenBucket.consume_tokens arrival.now (limiter.bucketOf arrival)
      have hnext : (limiter.rateLimitMiddleware arrival).2.HasLevel arrival.tenantId
          ((limiter.bucketOf arrival).consume arrival.now).2.tokens arrival.now := by
        unfold HasLevel
        rw [lookup_middleware_self htenant]
        exact ⟨rfl, hstamp.trans hlast⟩
      have hrest := ih hclock' hsound' hnext hlater
      rw [capacity_middleware] at hrest
      refine .cons (hsince.1.trans arrival.ordered)
        ((hsound.bucketOf arrival).consume arrival.now).nonneg ?_ hrest
      rw [isPassed_middleware htenant, htokens, hrefilled]
    · rw [filter_cons_of_neg (by simpa using hsame)]
      have hnext : (limiter.rateLimitMiddleware arrival).2.HasLevel tenant level since := by
        unfold HasLevel at hlevel ⊢
        rw [lookup_middleware_of_ne (Ne.symm hsame), capacity_middleware]
        exact hlevel
      have hrest := ih hclock' hsound' hnext hsince.2
      rwa [capacity_middleware] at hrest

theorem admittedIn_le (requestsPerMinute : ℕ) (hclock : Chronological arrivals)
    (htenant : tenant ≠ "") (start : ℚ) {length : ℚ} (hlength : 0 ≤ length) :
    (admittedIn tenant start (start + length) ((new requestsPerMinute).decisions arrivals) : ℚ) ≤
      requestsPerMinute + length * requestsPerMinute / 60 := by
  have hcapacity : (0 : ℚ) ≤ requestsPerMinute := Nat.cast_nonneg _
  have hexists : ∃ since, ∀ arrival ∈ arrivals, since ≤ arrival.addedAt := by
    cases arrivals with
    | nil => exact ⟨0, by simp⟩
    | cons arrival later =>
      refine ⟨arrival.addedAt, forall_mem_cons.mpr ⟨le_rfl, ?_⟩⟩
      intro next hnext
      exact arrival.ordered.trans ((pairwise_cons.mp hclock).1 next hnext)
  obtain ⟨since, hsince⟩ := hexists
  have hmetered := metered_decisions htenant hclock (sound_new requestsPerMinute)
    (show (new requestsPerMinute).HasLevel tenant requestsPerMinute since from rfl) hsince
  rw [admittedIn_eq_grantsIn, mul_div_assoc]
  exact hmetered.grantsIn_window_le (div_nonneg hcapacity (by norm_num)) hcapacity hlength

/-- Every bucket stays between empty and full, a window of time lets a tenant have its
capacity and what flows in meanwhile, a request is refused exactly if less than one token
is there for its tenant, and what is decided for a tenant does not depend on the others. -/
theorem rateLimiter_meters (requestsPerMinute : ℕ) (arrivals : List Arrival)
    (hclock : Chronological arrivals) :
    (∀ tenant bucket,
      ((new requestsPerMinute).after arrivals).buckets.lookup tenant = some bucket →
        0 ≤ bucket.tokens ∧ bucket.tokens ≤ requestsPerMinute) ∧
      (∀ tenant start length, tenant ≠ "" → 0 ≤ length →
        (admittedIn tenant start (start + length)
          ((new requestsPerMinute).decisions arrivals) : ℚ) ≤
          requestsPerMinute + length * requestsPerMinute / 60) ∧
      (∀ arrival : Arrival, arrival.tenantId ≠ "" →
        ((((new requestsPerMinute).after arrivals).rateLimitMiddleware arrival).1.isPassed = false ↔
          ((((new requestsPerMinute).after arrivals).bucketOf arrival).refill arrival.now).tokens <
            1)) ∧
      ∀ tenant,
        ((new requestsPerMinute).decisions arrivals).filter
            (fun d => decide (d.1.tenantId = tenant)) =
          (new requestsPerMinute).decisions
            (arrivals.filter fun arrival => decide (arrival.tenantId = tenant)) := by
  refine ⟨?_, ?_, ?_, ?_⟩
  · intro tenant bucket hlookup
    have hvalid := ((sound_new requestsPerMinute).after arrivals).2 tenant bucket hlookup
    rw [capacity_after] at hvalid
    exact ⟨hvalid.nonneg, hvalid.le_capacity⟩
  · intro tenant start length htenant hlength
    exact admittedIn_le requestsPerMinute hclock htenant start hlength
  · intro arrival htenant
    rw [isPassed_middleware htenant, ← Bool.not_eq_true, TokenBucket.consume_granted_iff, not_le]
  · intro tenant
    exact AgreeOn.decisions_filter ⟨rfl, rfl⟩ arrivals

def burst : List Arrival :=
  [⟨some "t-a", 0, 0, le_rfl, 0⟩, ⟨some "t-a", 0, 0, le_rfl, 0⟩, ⟨some "t-b", 0, 1, zero_le_one, 0⟩]

theorem rateLimiter_meters_burst :
    Chronological burst ∧
      ((new 1).decisions burst).map (fun d => d.2.isPassed) = [true, false, true] ∧
      (admittedIn "t-a" 0 (0 + 60) ((new 1).decisions burst) : ℚ) ≤
        (1 : ℕ) + 60 * (1 : ℕ) / 60 := by
  have hclock : Chronological burst := by simp [Chronological, burst]
  exact ⟨hclock, by decide +kernel,
    (rateLimiter_meters 1 burst hclock).2.1 "t-a" 0 60 (by decide) (by norm_num)⟩

end RateLimiter

end LlmProxy
