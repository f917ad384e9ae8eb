import LlmProxy.AdminEdits
import LlmProxy.KeyedMutex

/-!
# The credential runtime

`CredentialRuntime::ensure_fresh` with the token cache, the locks it makes for each identity and the
`key_entry` table it writes to (`credential/mod.rs`, `credential/xai.rs`).  Any number of calls run
at once.
-/

namespace LlmProxy

open Function StepSystem KeyedMutex

structure TokenResponse where
  accessToken : Option String := none
  refreshToken : Option String := none
  expiresIn : Option ℤ := none
  error : Option String := none
  errorDescription : Option String := none
  deriving DecidableEq

/-- What comes back for a refresh request: no response, a body that is not JSON, or a token
response with its status. -/
inductive TokenReply
  | failed (message : String)
  | invalidJson (message : String)
  | response (status : UInt16) (body : TokenResponse)
  deriving DecidableEq

def refreshSkewMs : ℤ := 5 * 60 * 1000

def defaultTokenLifetimeSecs : ℤ := 3600

/-- `expires` is an `i64`, and release builds wrap. -/
def credentialsFromToken (body : TokenResponse) (previousRefresh : Option String) (nowMs : ℤ) :
    Except RefreshError LiveToken :=
  match KeyEntry.nonEmpty body.accessToken with
  | none => .error (.upstream "xAI token response missing access_token")
  | some access =>
    match (KeyEntry.nonEmpty body.refreshToken).or (KeyEntry.nonEmpty previousRefresh) with
    | none => .error (.upstream "xAI token response missing refresh_token")
    | some refresh =>
      let lifetime := (body.expiresIn.filter fun secs => 0 < secs).getD defaultTokenLifetimeSecs
      .ok ⟨access, refresh, (Int64.ofInt (nowMs + lifetime * 1000 - refreshSkewMs)).toInt⟩

/-- `xai::refresh_token`, given what came back for the request. -/
def refreshToken (refresh : String) (reply : TokenReply) (nowMs : ℤ) :
    Except RefreshError LiveToken :=
  match reply with
  | .failed message => .error (.upstream s!"xAI token refresh request failed: {message}")
  | .invalidJson message =>
    .error (.upstream s!"xAI token refresh returned invalid JSON: {message}")
  | .response status body =>
    if 200 ≤ status ∧ status < 300 then credentialsFromToken body (some refresh) nowMs
    else .error (.denied status body.error body.errorDescription)

namespace CredentialRuntime

/-! ## The tokens a call finds -/

abbrev Tokens := AList fun _ : String => LiveToken

/-- A token expires at its instant. -/
def tokenExpired (nowMs expiresMs : ℤ) : Bool := expiresMs ≤ nowMs

variable {now : ℤ} {A : Type} {expires : A → ℤ} {found : Option A}

theorem filter_tokenExpired_eq_none_iff :
    (found.filter fun token => !tokenExpired now (expires token)) = none ↔
      ∀ token, found = some token → expires token ≤ now := by
  cases found <;> simp [tokenExpired]

theorem filter_tokenExpired_eq_some_iff {token : A} :
    (found.filter fun token => !tokenExpired now (expires token)) = some token ↔
      found = some token ∧ now < expires token := by
  simp [tokenExpired]

/-- What a call does when it has its lock: it returns, leaving the cache in some state, or it
asks the issuer with a refresh token. -/
inductive Checked
  | finished (result : Except AppError KeyEntry) (tokens : Tokens)
  | refresh (token : String)

section

variable [Sha256] (tokens : Tokens) (entry : KeyEntry)

def remember (expires : ℤ) : Tokens :=
  match entry.refresh with
  | some refresh => tokens.insert entry.identityHash ⟨entry.key, refresh, expires⟩
  | none => tokens

/-- `ensure_fresh` from the lock to the request.  The clock is read once for the cached token
and once for the entry. -/
def check (liveNow entryNow : ℤ) : Checked :=
  match (tokens.lookup entry.identityHash).filter fun live =>
      !tokenExpired liveNow live.expires with
  | some live => .finished (.ok (applyLive entry live)) tokens
  | none =>
    match entry.expires.filter fun expires => !tokenExpired entryNow expires with
    | some expires => .finished (.ok entry) (remember tokens entry expires)
    | none =>
      match KeyEntry.nonEmpty entry.refresh with
      | none =>
        .finished (.error (RefreshError.upstream
          "oauth credential is missing a refresh token").toAppError) tokens
      | some refresh =>
        let issuer := entry.issuer.getD ""
        if issuer = "xai" then .refresh refresh
        else .finished (.error (RefreshError.unsupportedIssuer issuer).toAppError) tokens

structure Expired (tokens : Tokens) (entry : KeyEntry) (liveNow entryNow : ℤ) : Prop where
  live : ∀ live, tokens.lookup entry.identityHash = some live → live.expires ≤ liveNow
  entry : ∀ expires, entry.expires = some expires → expires ≤ entryNow

inductive CheckPath (tokens : Tokens) (entry : KeyEntry) (liveNow entryNow : ℤ) : Checked → Prop
  | cached (live : LiveToken) (hlookup : tokens.lookup entry.identityHash = some live)
      (hforce : liveNow < live.expires) :
      CheckPath tokens entry liveNow entryNow (.finished (.ok (applyLive entry live)) tokens)
  | kept (expires : ℤ)
      (hlive : ∀ live, tokens.lookup entry.identityHash = some live → live.expires ≤ liveNow)
      (hexpires : entry.expires = some expires) (hforce : entryNow < expires) :
      CheckPath tokens entry liveNow entryNow
        (.finished (.ok entry) (remember tokens entry expires))
  | refused (error : RefreshError) (hexpired : Expired tokens entry liveNow entryNow) :
      CheckPath tokens entry liveNow entryNow (.finished (.error error.toAppError) tokens)
  | asks (token : String) (hexpired : Expired tokens entry liveNow entryNow)
      (hrefresh : KeyEntry.nonEmpty entry.refresh = some token)
      (hissuer : entry.issuer = some "xai") :
      CheckPath tokens entry liveNow entryNow (.refresh token)

theorem check_path (liveNow entryNow : ℤ) :
    CheckPath tokens entry liveNow entryNow (check tokens entry liveNow entryNow) := by
  unfold check
  split
  · next live hlive =>
      obtain ⟨hlookup, hforce⟩ := filter_tokenExpired_eq_some_iff.mp hlive
      exact .cached live hlookup hforce
  · next hnone =>
      have hlive := filter_tokenExpired_eq_none_iff.mp hnone
      split
      · next expires hexpires =>
          obtain ⟨hfound, hforce⟩ := filter_tokenExpired_eq_some_iff.mp hexpires
          exact .kept expires hlive hfound hforce
      · next hentry =>
          have hexpired : Expired tokens entry liveNow entryNow :=
            ⟨hlive, filter_tokenExpired_eq_none_iff.mp hentry⟩
          split
          · exact .refused _ hexpired
          · next token hrefresh =>
              simp only
              split_ifs with hissuer
              · refine .asks token hexpired hrefresh ?_
                cases hfound : entry.issuer with
                | none => simp [hfound] at hissuer
                | some => simpa [hfound] using hissuer
              · exact .refused _ hexpired

variable {entry : KeyEntry} {tokens : Tokens} {entryNow liveNow : ℤ}

theorem check_eq_refresh_iff {token : String} :
    check tokens entry liveNow entryNow = .refresh token ↔
      Expired tokens entry liveNow entryNow ∧ KeyEntry.nonEmpty entry.refresh = some token ∧
        entry.issuer = some "xai" := by
  constructor
  · intro hcheck
    have hpath := check_path tokens entry liveNow entryNow
    rw [hcheck] at hpath
    cases hpath with
    | asks _ hexpired hrefresh hissuer => exact ⟨hexpired, hrefresh, hissuer⟩
  · rintro ⟨hexpired, hrefresh, hissuer⟩
    unfold check
    rw [filter_tokenExpired_eq_none_iff.mpr hexpired.live,
      filter_tokenExpired_eq_none_iff.mpr hexpired.entry, hrefresh, hissuer]
    rfl

theorem exists_answer_of_check {after : Tokens} {result : Except AppError KeyEntry}
    (hoauth : entry.isOauth = true)
    (hcheck : check tokens entry liveNow entryNow = .finished result after) :
    ∃ answer, ensureFresh entry answer = result := by
  have hpath := check_path tokens entry liveNow entryNow
  rw [hcheck] at hpath
  cases hpath with
  | cached live => exact ⟨.live live, by simp [ensureFresh, hoauth]⟩
  | kept => exact ⟨.unchanged, by simp [ensureFresh]⟩
  | refused error => exact ⟨.failed error, by simp [ensureFresh, hoauth]⟩

end

/-! ## Calls -/

inductive Phase
  | waiting (lock : ℕ)
  | checking (lock : ℕ)
  | refreshing (lock : ℕ) (token : String)
  | persisting (lock : ℕ) (live : LiveToken)
  | done (result : Except AppError KeyEntry)
  | dropped

namespace Phase

def lock : Phase → Option ℕ
  | waiting lock | checking lock | refreshing lock _ | persisting lock _ => some lock
  | done _ | dropped => none

def guarded : Phase → Bool
  | checking _ | refreshing _ _ | persisting _ _ => true
  | waiting _ | done _ | dropped => false

def asking : Phase → Bool
  | refreshing _ _ => true
  | _ => false

def writing : Phase → Option LiveToken
  | persisting _ live => some live
  | _ => none

variable {phase : Phase}

theorem guarded_of_writing {live : LiveToken} (hwriting : phase.writing = some live) :
    phase.guarded = true := by
  cases phase <;> first | rfl | cases hwriting

theorem guarded_of_asking (hasking : phase.asking = true) : phase.guarded = true := by
  cases phase <;> first | rfl | cases hasking

end Phase

structure Call where
  entry : KeyEntry
  phase : Phase

/-- What the log records: a request to the issuer, the token it brought, a request that
brought none, and a token that was written to the table. -/
inductive Event
  | sent (task : ℕ) (identity refresh : String)
  | issued (identity : String) (live : LiveToken)
  | ended (identity : String)
  | persisted (identity : String) (live : LiveToken)
  deriving DecidableEq

structure State where
  tokens : Tokens
  mutex : KeyedMutex String ℕ
  calls : ℕ → Option Call
  keys : List KeyRow
  log : List Event

def State.boot (keys : List KeyRow) : State := ⟨∅, .empty, fun _ => none, keys, []⟩

/-- A call is named by a number.  `answer` has the clock at which the lifetime of the token
starts; `success` and `written` say if the table was updated. -/
inductive Action
  | start (task : ℕ) (entry : KeyEntry)
  | acquire (task : ℕ)
  | check (task : ℕ) (liveNow entryNow : ℤ)
  | answer (task : ℕ) (nowMs : ℤ) (reply : TokenReply)
  | persist (task : ℕ) (success : Bool)
  | drop (task : ℕ) (written : Bool)

namespace State

variable (s : State)

def put (task : ℕ) (entry : KeyEntry) (phase : Phase) : State :=
  { s with calls := Function.update s.calls task (some ⟨entry, phase⟩) }

def finish (task : ℕ) (entry : KeyEntry) (lock : ℕ) (phase : Phase) : State :=
  { s.put task entry phase with mutex := s.mutex.release lock }

def record (event : Event) : State := { s with log := s.log ++ [event] }

/-- `CredentialRuntime::persist`, which only logs its errors. -/
def persist (identity : String) (live : LiveToken) (success : Bool) : State :=
  if success then
    { s with keys := s.keys.map (KeyRow.rotate identity live) }.record (.persisted identity live)
  else s

section

variable {s : State} {task lock : ℕ} {entry : KeyEntry} {phase : Phase} {event : Event}
  {identity : String} {live : LiveToken} {success : Bool}

@[simp] theorem put_mutex : (s.put task entry phase).mutex = s.mutex := rfl

@[simp] theorem finish_mutex : (s.finish task entry lock phase).mutex = s.mutex.release lock := rfl

@[simp] theorem finish_calls : (s.finish task entry lock phase).calls =
    Function.update s.calls task (some ⟨entry, phase⟩) := rfl

@[simp] theorem persist_tokens : (s.persist identity live success).tokens = s.tokens := by
  cases success <;> rfl

@[simp] theorem persist_mutex : (s.persist identity live success).mutex = s.mutex := by
  cases success <;> rfl

@[simp] theorem persist_calls : (s.persist identity live success).calls = s.calls := by
  cases success <;> rfl

theorem calls_finish_persist :
    ((s.persist identity live success).finish task entry lock phase).calls =
      Function.update s.calls task (some ⟨entry, phase⟩) := by
  rw [finish_calls, persist_calls]

end

end State

section

variable [Sha256]

/-- Each step is what a call does between two points where it can be suspended: it asks for its
lock, takes it, looks at the tokens, gets the issuer's answer, has written the new token. -/
def step (s : State) : Action → Option State
  | .start task entry =>
    match s.calls task with
    | some _ => none
    | none =>
      if !entry.isOauth then some (s.put task entry (.done (.ok entry)))
      else
        some { s.put task entry (.waiting (s.mutex.lockOf entry.identityHash)) with
          mutex := s.mutex.demand entry.identityHash }
  | .acquire task =>
    match s.calls task with
    | some ⟨entry, .waiting lock⟩ =>
      (s.mutex.acquire task lock).map fun mutex =>
        { s.put task entry (.checking lock) with mutex := mutex }
    | _ => none
  | .check task liveNow entryNow =>
    match s.calls task with
    | some ⟨entry, .checking lock⟩ =>
      match check s.tokens entry liveNow entryNow with
      | .finished result tokens =>
        some ({ s with tokens := tokens }.finish task entry lock (.done result))
      | .refresh token =>
        some ((s.put task entry (.refreshing lock token)).record
          (.sent task entry.identityHash token))
    | _ => none
  | .answer task nowMs reply =>
    match s.calls task with
    | some ⟨entry, .refreshing lock token⟩ =>
      match refreshToken token reply nowMs with
      | .error error =>
        some ((s.finish task entry lock (.done (.error error.toAppError))).record
          (.ended entry.identityHash))
      | .ok live =>
        some ({ s.put task entry (.persisting lock live) with
          tokens := s.tokens.insert entry.identityHash live }.record
          (.issued entry.identityHash live))
    | _ => none
  | .persist task success =>
    match s.calls task with
    | some ⟨entry, .persisting lock live⟩ =>
      some ((s.persist entry.identityHash live success).finish task entry lock
        (.done (.ok (applyLive entry live))))
    | _ => none
  | .drop task written =>
    match s.calls task with
    | some ⟨entry, .waiting _⟩ => some (s.put task entry .dropped)
    | some ⟨entry, .refreshing lock _⟩ =>
      some ((s.finish task entry lock .dropped).record (.ended entry.identityHash))
    | some ⟨entry, .persisting lock live⟩ =>
      some ((s.persist entry.identityHash live written).finish task entry lock .dropped)
    | _ => none

inductive Step (s : State) : Action → State → Prop
  | plain {task entry} (hnew : s.calls task = none) (hplain : entry.isOauth = false) :
      Step s (.start task entry) (s.put task entry (.done (.ok entry)))
  | wait {task entry} (hnew : s.calls task = none) (hoauth : entry.isOauth = true) :
      Step s (.start task entry)
        { s.put task entry (.waiting (s.mutex.lockOf entry.identityHash)) with
          mutex := s.mutex.demand entry.identityHash }
  | acquire {task entry lock mutex} (hcall : s.calls task = some ⟨entry, .waiting lock⟩)
      (hacquire : s.mutex.acquire task lock = some mutex) :
      Step s (.acquire task) { s.put task entry (.checking lock) with mutex := mutex }
  | finish {task entry lock liveNow entryNow result tokens}
      (hcall : s.calls task = some ⟨entry, .checking lock⟩)
      (hcheck : check s.tokens entry liveNow entryNow = .finished result tokens) :
      Step s (.check task liveNow entryNow)
        ({ s with tokens := tokens }.finish task entry lock (.done result))
  | send {task entry lock liveNow entryNow token}
      (hcall : s.calls task = some ⟨entry, .checking lock⟩)
      (hcheck : check s.tokens entry liveNow entryNow = .refresh token) :
      Step s (.check task liveNow entryNow)
        ((s.put task entry (.refreshing lock token)).record
          (.sent task entry.identityHash token))
  | fail {task entry lock token nowMs reply error}
      (hcall : s.calls task = some ⟨entry, .refreshing lock token⟩)
      (hreply : refreshToken token reply nowMs = .error error) :
      Step s (.answer task nowMs reply)
        ((s.finish task entry lock (.done (.error error.toAppError))).record
          (.ended entry.identityHash))
  | issue {task entry lock token nowMs reply live}
      (hcall : s.calls task = some ⟨entry, .refreshing lock token⟩)
      (hreply : refreshToken token reply nowMs = .ok live) :
      Step s (.answer task nowMs reply)
        ({ s.put task entry (.persisting lock live) with
          tokens := s.tokens.insert entry.identityHash live }.record
          (.issued entry.identityHash live))
  | persist {task entry lock live success}
      (hcall : s.calls task = some ⟨entry, .persisting lock live⟩) :
      Step s (.persist task success)
        ((s.persist entry.identityHash live success).finish task entry lock
          (.done (.ok (applyLive entry live))))
  | dropWaiting {task entry lock written} (hcall : s.calls task = some ⟨entry, .waiting lock⟩) :
      Step s (.drop task written) (s.put task entry .dropped)
  | dropAsking {task entry lock token written}
      (hcall : s.calls task = some ⟨entry, .refreshing lock token⟩) :
      Step s (.drop task written)
        ((s.finish task entry lock .dropped).record (.ended entry.identityHash))
  | dropPersisting {task entry lock live written}
      (hcall : s.calls task = some ⟨entry, .persisting lock live⟩) :
      Step s (.drop task written)
        ((s.persist entry.identityHash live written).finish task entry lock .dropped)

variable {action : Action} {call : Call}

theorem step_path {s t : State} (hstep : step s action = some t) : Step s action t := by
  cases action with
  | start =>
    simp only [step] at hstep
    split at hstep
    · cases hstep
    · next hnew =>
        split_ifs at hstep with hplain
        · cases hstep
          exact .plain hnew (by simpa using hplain)
        · cases hstep
          exact .wait hnew (by simpa using hplain)
  | acquire =>
    simp only [step] at hstep
    split at hstep
    · next hcall =>
        obtain ⟨mutex, hacquire, rfl⟩ := Option.map_eq_some_iff.mp hstep
        exact .acquire hcall hacquire
    · cases hstep
  | check =>
    simp only [step] at hstep
    split at hstep
    · next hcall =>
        split at hstep
        · next hcheck =>
            cases hstep
            exact .finish hcall hcheck
        · next hcheck =>
            cases hstep
            exact .send hcall hcheck
    · cases hstep
  | answer =>
    simp only [step] at hstep
    split at hstep
    · next hcall =>
        split at hstep
        · next hreply =>
            cases hstep
            exact .fail hcall hreply
        · next hreply =>
            cases hstep
            exact .issue hcall hreply
    · cases hstep
  | persist =>
    simp only [step] at hstep
    split at hstep
    · next hcall =>
        cases hstep
        exact .persist hcall
    · cases hstep
  | drop =>
    simp only [step] at hstep
    split at hstep
    · next hcall =>
        cases hstep
        exact .dropWaiting hcall
    · next hcall =>
        cases hstep
        exact .dropAsking hcall
    · next hcall =>
        cases hstep
        exact .dropPersisting hcall
    · cases hstep

/-! ## The locks of the calls -/

/-- A call and what the locks say of its task.  A finished call has a result that `ensureFresh`
gives for some answer. -/
structure Call.Fits (mutex : KeyedMutex String ℕ) (task : ℕ) (call : Call) : Prop where
  lock : ∀ lock, call.phase.lock = some lock →
    call.entry.isOauth = true ∧ mutex.locks.lookup call.entry.identityHash = some lock
  holds : ∀ key, mutex.Holds task key ↔
    call.phase.guarded = true ∧ key = call.entry.identityHash
  result : ∀ result, call.phase = .done result → ∃ answer, ensureFresh call.entry answer = result

structure Locked (s : State) : Prop where
  fits : ∀ task call, s.calls task = some call → call.Fits s.mutex task
  free : ∀ task, s.calls task = none → ∀ key, ¬ s.mutex.Holds task key

variable {s t : State}

theorem Locked.update {task : ℕ} (hlocked : Locked s) (call : Call)
    (hchanged : KeyedMutex.ChangedBy task s.mutex t.mutex)
    (hcalls : t.calls = Function.update s.calls task (some call))
    (hcall : call.Fits t.mutex task) : Locked t := by
  constructor
  · intro who other hother
    rw [hcalls] at hother
    by_cases hwho : who = task
    · subst hwho
      rw [update_self, Option.some.injEq] at hother
      exact hother ▸ hcall
    · rw [update_of_ne hwho] at hother
      have hfits := hlocked.fits who other hother
      constructor
      · intro lock hlock
        obtain ⟨hoauth, hlookup⟩ := hfits.lock lock hlock
        exact ⟨hoauth, hchanged.locks _ _ hlookup⟩
      · intro key
        rw [hchanged.holds who hwho, hfits.holds]
      · exact hfits.result
  · intro who hnone key
    rw [hcalls] at hnone
    by_cases hwho : who = task
    · subst hwho
      rw [update_self] at hnone
      cases hnone
    · rw [update_of_ne hwho] at hnone
      rw [hchanged.holds who hwho]
      exact hlocked.free who hnone key

section

variable {task lock : ℕ} {entry : KeyEntry} {phase : Phase} (hlocked : Locked s)
  (hcall : s.calls task = some ⟨entry, phase⟩) (next : Phase)
  (hcalls : t.calls = Function.update s.calls task (some ⟨entry, next⟩))
include hlocked hcall hcalls

theorem Locked.move (hmutex : t.mutex = s.mutex)
    (hlock : ∀ lock, next.lock = some lock → phase.lock = some lock)
    (hguarded : next.guarded = phase.guarded) (hgoing : ∀ result, next ≠ .done result) :
    Locked t := by
  have hfits := hlocked.fits task _ hcall
  refine hlocked.update _ (hmutex ▸ .refl task _) hcalls
    ⟨fun lock hfound => ?_, fun key => ?_, fun result hdone => absurd hdone (hgoing result)⟩
  · rw [hmutex]
    exact hfits.lock lock (hlock lock hfound)
  · rw [hmutex, hfits.holds key, hguarded]

theorem Locked.release (hmutex : t.mutex = s.mutex.release lock) (hlock : phase.lock = some lock)
    (hguarded : phase.guarded = true) (hnext : next.lock = none) (hfree : next.guarded = false)
    (hresult : ∀ result, next = .done result → entry.isOauth = true →
      ∃ answer, ensureFresh entry answer = result) : Locked t := by
  have hfits := hlocked.fits task _ hcall
  obtain ⟨hoauth, hlookup⟩ := hfits.lock lock hlock
  have hchanged := changedBy_release hlookup ((hfits.holds _).mpr ⟨hguarded, rfl⟩)
  refine hlocked.update _ (hmutex ▸ hchanged) hcalls
    ⟨by simp [hnext], fun key => ?_, fun result hdone => hresult result hdone hoauth⟩
  rw [hmutex, holds_release_iff hlookup, hfits.holds, hfree]
  simp

end

theorem Locked.step (hlocked : Locked s) (hstep : step s action = some t) : Locked t := by
  cases step_path hstep with
  | @plain task entry hnew =>
    refine hlocked.update _ (.refl task _) rfl ⟨by simp [Phase.lock], fun key => ?_, ?_⟩
    · simpa [Phase.guarded] using hlocked.free task hnew key
    · intro result hresult
      cases hresult
      exact ⟨.unchanged, by simp [ensureFresh]⟩
  | @wait task entry hnew hoauth =>
    refine hlocked.update _ (changedBy_demand task _ _) rfl
      ⟨fun lock hlock => ⟨hoauth, ?_⟩, fun key => ?_, by simp⟩
    · cases hlock
      exact lookup_demand
    · show (s.mutex.demand _).Holds task key ↔ _
      rw [holds_demand_iff]
      simpa [Phase.guarded] using hlocked.free task hnew key
  | @acquire task entry lock mutex hcall hacquire =>
    have hfits := hlocked.fits task _ hcall
    obtain ⟨hoauth, hlookup⟩ := hfits.lock lock rfl
    have hchanged := changedBy_acquire hacquire hlookup
    refine hlocked.update _ hchanged rfl ⟨fun found hfound => ⟨hoauth, ?_⟩, fun key => ?_, by simp⟩
    · cases hfound
      exact hchanged.locks _ _ hlookup
    · show mutex.Holds task key ↔ _
      rw [holds_acquire_iff hacquire hlookup, hfits.holds]
      simp [Phase.guarded]
  | finish hcall hcheck =>
    refine hlocked.release hcall _ rfl rfl rfl rfl rfl rfl fun found hfound hoauth => ?_
    cases hfound
    exact exists_answer_of_check hoauth hcheck
  | send hcall => exact hlocked.move hcall _ rfl rfl (fun _ hfound => hfound) rfl (by simp)
  | @fail _ _ _ _ _ _ error hcall =>
    refine hlocked.release hcall _ rfl rfl rfl rfl rfl rfl fun found hfound hoauth => ?_
    cases hfound
    exact ⟨.failed error, by simp [ensureFresh, hoauth]⟩
  | issue hcall => exact hlocked.move hcall _ rfl rfl (fun _ hfound => hfound) rfl (by simp)
  | @persist _ _ _ live success hcall =>
    refine hlocked.release hcall _ State.calls_finish_persist (by simp) rfl rfl rfl rfl
      fun found hfound hoauth => ?_
    cases hfound
    exact ⟨.live live, by simp [ensureFresh, hoauth]⟩
  | dropWaiting hcall => exact hlocked.move hcall _ rfl rfl (by simp [Phase.lock]) rfl (by simp)
  | dropAsking hcall => exact hlocked.release hcall _ rfl rfl rfl rfl rfl rfl (by simp)
  | dropPersisting hcall =>
    exact hlocked.release hcall _ State.calls_finish_persist (by simp) rfl rfl rfl rfl (by simp)

theorem locked_boot (keys : List KeyRow) : Locked (.boot keys) := by
  constructor
  · simp [State.boot]
  · simp [State.boot, KeyedMutex.empty, KeyedMutex.Holds]

theorem locked_of_run {keys : List KeyRow} {actions : List Action}
    (hrun : Run step (.boot keys) actions s) : Locked s :=
  hrun.invariant Locked (fun _ _ _ hlocked _ hstep => hlocked.step hstep) (locked_boot keys)

theorem Locked.unique {first second : ℕ} {one two : Call} (hlocked : Locked s)
    (hfirst : s.calls first = some one) (hsecond : s.calls second = some two)
    (hone : one.phase.guarded = true) (htwo : two.phase.guarded = true)
    (hsame : one.entry.identityHash = two.entry.identityHash) : first = second := by
  have hholds := ((hlocked.fits first one hfirst).holds _).mpr ⟨hone, rfl⟩
  have hother := ((hlocked.fits second two hsecond).holds _).mpr ⟨htwo, rfl⟩
  rw [hsame] at hholds
  exact hholds.unique hother

def HasCall (s : State) (identity : String) (P : Phase → Prop) : Prop :=
  ∃ task call, s.calls task = some call ∧ P call.phase ∧ call.entry.identityHash = identity

variable {identity : String} {P : Phase → Prop} {task : ℕ}

theorem hasCall_update_iff (hcalls : t.calls = Function.update s.calls task (some call)) :
    HasCall t identity P ↔ (P call.phase ∧ call.entry.identityHash = identity) ∨
      ∃ other found, other ≠ task ∧ s.calls other = some found ∧ P found.phase ∧
        found.entry.identityHash = identity := by
  unfold HasCall
  rw [hcalls]
  constructor
  · rintro ⟨other, found, hfound, hphase, hidentity⟩
    by_cases hother : other = task
    · subst hother
      rw [update_self, Option.some.injEq] at hfound
      subst hfound
      exact .inl ⟨hphase, hidentity⟩
    · rw [update_of_ne hother] at hfound
      exact .inr ⟨other, found, hother, hfound, hphase, hidentity⟩
  · rintro (⟨hphase, hidentity⟩ | ⟨other, found, hother, hfound, hphase, hidentity⟩)
    · exact ⟨task, call, update_self .., hphase, hidentity⟩
    · exact ⟨other, found, by rw [update_of_ne hother, hfound], hphase, hidentity⟩

theorem hasCall_iff_of_same (hcalls : t.calls = Function.update s.calls task (some call))
    (hsame : (P call.phase ∧ call.entry.identityHash = identity) ↔
      ∃ old, s.calls task = some old ∧ P old.phase ∧ old.entry.identityHash = identity) :
    HasCall t identity P ↔ HasCall s identity P := by
  rw [hasCall_update_iff hcalls, hsame]
  constructor
  · rintro (⟨old, hold, hphase, hidentity⟩ | ⟨other, found, -, hfound, hphase, hidentity⟩)
    · exact ⟨task, old, hold, hphase, hidentity⟩
    · exact ⟨other, found, hfound, hphase, hidentity⟩
  · rintro ⟨other, found, hfound, hphase, hidentity⟩
    by_cases hother : other = task
    · exact .inl ⟨found, hother ▸ hfound, hphase, hidentity⟩
    · exact .inr ⟨other, found, hother, hfound, hphase, hidentity⟩

theorem Locked.hasCall_iff_of_guarded {entry : KeyEntry} {phase next : Phase}
    (hlocked : Locked s) (hguarded : ∀ phase, P phase → phase.guarded = true)
    (hcall : s.calls task = some ⟨entry, phase⟩) (hheld : phase.guarded = true)
    (hcalls : t.calls = Function.update s.calls task (some ⟨entry, next⟩)) :
    HasCall t entry.identityHash P ↔ P next := by
  rw [hasCall_update_iff hcalls]
  constructor
  · rintro (⟨hphase, -⟩ | ⟨other, found, hother, hfound, hphase, hidentity⟩)
    · exact hphase
    · exact absurd (hlocked.unique hfound hcall (hguarded _ hphase) hheld hidentity) hother
  · exact fun hphase => .inl ⟨hphase, rfl⟩

end

end CredentialRuntime

end LlmProxy
