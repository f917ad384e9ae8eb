import LlmProxy.CredentialRuntime

/-!
# One refresh for many callers

The requests that the calls of one identity send to the issuer: they do not overlap, each is sent
when no token is in force, and as long as the token it brought is in force there is no second one.
-/

namespace LlmProxy
namespace CredentialRuntime

open List StepSystem

namespace Event

def flight : Event → Option String
  | sent _ identity _ | issued identity _ | ended identity => some identity
  | persisted _ _ => none

def isSent : Event → Bool
  | sent _ _ _ => true
  | _ => false

def isIssued : Event → Bool
  | issued _ _ => true
  | _ => false

def isEnded : Event → Bool
  | ended _ => true
  | _ => false

end Event

def tally (kind : Event → Bool) (identity : String) (log : List Event) : ℕ :=
  log.countP fun event => event.flight = some identity && kind event

section

variable {kind : Event → Bool} {identity : String} {log events : List Event} {event : Event}

theorem tally_append : tally kind identity (log ++ events) =
    tally kind identity log + tally kind identity events := countP_append

theorem tally_append_of_ne (hevents : ∀ event ∈ events, event.flight ≠ some identity) :
    tally kind identity (log ++ events) = tally kind identity log := by
  have hzero : tally kind identity events = 0 := by
    rw [tally]
    simpa using fun event hevent hflight => absurd hflight (hevents event hevent)
  rw [tally_append, hzero, Nat.add_zero]

theorem tally_concat (hflight : event.flight = some identity) :
    tally kind identity (log ++ [event]) =
      tally kind identity log + if kind event = true then 1 else 0 := by
  simp [tally, hflight]

end

theorem persist_log (s : State) (identity : String) (live : LiveToken) (success : Bool) :
    ∃ events, (s.persist identity live success).log = s.log ++ events ∧
      ∀ event ∈ events, event.flight = none := by
  cases success with
  | false => exact ⟨[], (append_nil _).symm, by simp⟩
  | true => exact ⟨[.persisted identity live], rfl, by simp [Event.flight]⟩

section

variable [Sha256] {s t : State} {identity : String}

abbrev Asking (s : State) (identity : String) : Prop :=
  HasCall s identity fun phase => phase.asking = true

def FindsExpired (s : State) (identity : String) (action : Action) : Prop :=
  ∃ task call liveNow entryNow, action = .check task liveNow entryNow ∧
    s.calls task = some call ∧ call.entry.identityHash = identity ∧
      ∀ live, s.tokens.lookup identity = some live → live.expires ≤ liveNow

/-- The action is a check of the task that finds neither the cached token of the identity nor
that of its entry in force. -/
def ChecksExpired (s : State) (task : ℕ) (identity : String) (action : Action) : Prop :=
  ∃ entry lock liveNow entryNow, action = .check task liveNow entryNow ∧
    s.calls task = some ⟨entry, .checking lock⟩ ∧ entry.identityHash = identity ∧
      Expired s.tokens entry liveNow entryNow

variable {action : Action} {entry : KeyEntry} {task : ℕ} {start : State} {phase : Phase}

theorem ChecksExpired.findsExpired (hchecks : ChecksExpired s task identity action) :
    FindsExpired s identity action := by
  obtain ⟨entry, lock, liveNow, entryNow, haction, hcall, rfl, hexpired⟩ := hchecks
  exact ⟨task, _, liveNow, entryNow, haction, hcall, rfl, hexpired.live⟩

inductive Flight (s : State) (identity : String) (action : Action) (t : State) : Prop
  | other (events : List Event) (hlog : t.log = s.log ++ events)
      (hevents : ∀ event ∈ events, event.flight ≠ some identity)
      (hasking : Asking t identity ↔ Asking s identity)
      (htokens : t.tokens.lookup identity = s.tokens.lookup identity ∨
        FindsExpired s identity action)
  | sent (task : ℕ) (token : String) (hlog : t.log = s.log ++ [.sent task identity token])
      (hbefore : ¬ Asking s identity) (hafter : Asking t identity)
      (hchecks : ChecksExpired s task identity action)
  | issued (live : LiveToken) (hlog : t.log = s.log ++ [.issued identity live])
      (hbefore : Asking s identity) (hafter : ¬ Asking t identity)
      (htokens : t.tokens.lookup identity = some live)
  | ended (hlog : t.log = s.log ++ [.ended identity]) (hbefore : Asking s identity)
      (hafter : ¬ Asking t identity)

variable {result : Except AppError KeyEntry} {rest : List Action} {token : String} {event : Event}
  {next : Phase} {n : ℕ}

theorem lookup_of_check_finished {tokens after : Tokens} {liveNow entryNow : ℤ}
    (hcheck : check tokens entry liveNow entryNow = .finished result after) (identity : String) :
    after.lookup identity = tokens.lookup identity ∨
      entry.identityHash = identity ∧
        ∀ live, tokens.lookup identity = some live → live.expires ≤ liveNow := by
  have hpath := check_path tokens entry liveNow entryNow
  rw [hcheck] at hpath
  cases hpath with
  | kept expires hlive =>
    by_cases hidentity : entry.identityHash = identity
    · subst hidentity
      exact .inr ⟨rfl, hlive⟩
    · left
      unfold remember
      split
      · exact AList.lookup_insert_ne (Ne.symm hidentity)
      · rfl
  | _ => exact .inl rfl

theorem Flight.unlogged (hlog : t.log = s.log) (hasking : Asking t identity ↔ Asking s identity)
    (htokens : t.tokens.lookup identity = s.tokens.lookup identity ∨
      FindsExpired s identity action) : Flight s identity action t :=
  .other [] (by rw [hlog, append_nil]) (by simp) hasking htokens

theorem Flight.elsewhere (hlog : t.log = s.log ++ [event]) (hevent : event.flight ≠ some identity)
    (hasking : Asking t identity ↔ Asking s identity)
    (htokens : t.tokens.lookup identity = s.tokens.lookup identity) : Flight s identity action t :=
  .other [event] hlog (by simpa using hevent) hasking (.inl htokens)

theorem Locked.asking_iff (hlocked : Locked s) (hcall : s.calls task = some ⟨entry, phase⟩)
    (hheld : phase.guarded = true)
    (hcalls : t.calls = Function.update s.calls task (some ⟨entry, next⟩)) :
    Asking t entry.identityHash ↔ next.asking = true :=
  hlocked.hasCall_iff_of_guarded (fun _ => Phase.guarded_of_asking) hcall hheld hcalls

theorem Locked.not_asking_of_guarded (hlocked : Locked s)
    (hcall : s.calls task = some ⟨entry, phase⟩) (hheld : phase.guarded = true)
    (hphase : phase.asking = false) : ¬ Asking s entry.identityHash := by
  have hsame : s.calls = Function.update s.calls task (some ⟨entry, phase⟩) := by
    rw [← hcall, Function.update_eq_self]
  rw [hlocked.asking_iff hcall hheld hsame, hphase]
  exact Bool.false_ne_true

theorem Locked.flight_of_ended {lock : ℕ} (hlocked : Locked s)
    (hcall : s.calls task = some ⟨entry, .refreshing lock token⟩)
    (hcalls : t.calls = Function.update s.calls task (some ⟨entry, next⟩))
    (hnext : next.asking = false) (hlog : t.log = s.log ++ [.ended entry.identityHash])
    (htokens : t.tokens = s.tokens) (identity : String) : Flight s identity action t := by
  by_cases hidentity : entry.identityHash = identity
  · subst hidentity
    refine .ended hlog ⟨task, _, hcall, rfl, rfl⟩ ?_
    exact mt (hlocked.asking_iff hcall rfl hcalls).mp (by simp [hnext])
  · refine .elsewhere hlog (by simpa [Event.flight] using hidentity) ?_ (by rw [htokens])
    exact hasCall_iff_of_same hcalls (by simp [hcall, hidentity])

theorem flight_of_persist {lock : ℕ} {live : LiveToken} (success : Bool)
    (hcall : s.calls task = some ⟨entry, .persisting lock live⟩) (hnext : next.asking = false)
    (identity : String) : Flight s identity action
      ((s.persist entry.identityHash live success).finish task entry lock next) := by
  have hidle : (Phase.persisting lock live).asking = false := rfl
  obtain ⟨events, hlog, hevents⟩ := persist_log s entry.identityHash live success
  exact .other events hlog (fun event hevent => by simp [hevents event hevent])
    (hasCall_iff_of_same State.calls_finish_persist (by simp [hcall, hnext, hidle]))
    (.inl (by simp [State.finish, State.put]))

theorem flight_of_step (hlocked : Locked s) (hstep : step s action = some t) (identity : String) :
    Flight s identity action t := by
  cases step_path hstep with
  | plain hnew =>
    exact .unlogged rfl (hasCall_iff_of_same rfl (by simp [hnew, Phase.asking])) (.inl rfl)
  | wait hnew =>
    exact .unlogged rfl (hasCall_iff_of_same rfl (by simp [hnew, Phase.asking])) (.inl rfl)
  | acquire hcall =>
    exact .unlogged rfl (hasCall_iff_of_same rfl (by simp [hcall, Phase.asking])) (.inl rfl)
  | finish hcall hcheck =>
    refine .unlogged rfl (hasCall_iff_of_same rfl (by simp [hcall, Phase.asking])) ?_
    refine (lookup_of_check_finished hcheck identity).imp_right fun hexpired => ?_
    exact ⟨_, _, _, _, rfl, hcall, hexpired⟩
  | @send task entry lock liveNow entryNow token hcall hcheck =>
    by_cases hidentity : entry.identityHash = identity
    · subst hidentity
      refine .sent task token rfl (hlocked.not_asking_of_guarded hcall rfl rfl) ?_ ?_
      · exact (hlocked.asking_iff hcall rfl rfl).mpr rfl
      · exact ⟨entry, lock, liveNow, entryNow, rfl, hcall, rfl, (check_eq_refresh_iff.mp hcheck).1⟩
    · exact .elsewhere rfl (by simpa [Event.flight] using hidentity)
        (hasCall_iff_of_same rfl (by simp [hcall, hidentity])) rfl
  | fail hcall hreply =>
    exact hlocked.flight_of_ended hcall (by rfl) (by rfl) (by rfl) (by rfl) identity
  | @issue task entry lock token nowMs reply live hcall =>
    by_cases hidentity : entry.identityHash = identity
    · subst hidentity
      refine .issued live rfl ⟨task, _, hcall, rfl, rfl⟩ ?_ (AList.lookup_insert _)
      exact mt (hlocked.asking_iff hcall rfl rfl).mp (by simp [Phase.asking])
    · exact .elsewhere rfl (by simpa [Event.flight] using hidentity)
        (hasCall_iff_of_same rfl (by simp [hcall, hidentity]))
        (AList.lookup_insert_ne (Ne.symm hidentity))
  | persist hcall => exact flight_of_persist _ hcall rfl identity
  | dropWaiting hcall =>
    exact .unlogged rfl (hasCall_iff_of_same rfl (by simp [hcall, Phase.asking])) (.inl rfl)
  | dropAsking hcall =>
    exact hlocked.flight_of_ended hcall (by rfl) (by rfl) (by rfl) (by rfl) identity
  | dropPersisting hcall => exact flight_of_persist _ hcall rfl identity

structure Balanced (s : State) (identity : String) : Prop where
  asking : Asking s identity → tally Event.isSent identity s.log =
    tally Event.isIssued identity s.log + tally Event.isEnded identity s.log + 1
  quiet : ¬ Asking s identity → tally Event.isSent identity s.log =
    tally Event.isIssued identity s.log + tally Event.isEnded identity s.log

theorem Balanced.close (hbalanced : Balanced s identity) (hlog : t.log = s.log ++ [event])
    (hflight : event.flight = some identity) (hsent : event.isSent = false)
    (hone : (if event.isIssued then 1 else 0) + (if event.isEnded then 1 else 0) = 1)
    (hbefore : Asking s identity) (hafter : ¬ Asking t identity) : Balanced t identity := by
  have hcount := hbalanced.asking hbefore
  refine ⟨fun hasking => absurd hasking hafter, fun _ => ?_⟩
  rw [hlog, tally_concat hflight, tally_concat hflight, tally_concat hflight, hsent,
    if_neg Bool.false_ne_true]
  omega

theorem Balanced.step (hbalanced : Balanced s identity) (hlocked : Locked s)
    (hstep : step s action = some t) : Balanced t identity := by
  cases flight_of_step hlocked hstep identity with
  | other events hlog hevents hasking =>
    constructor
    · rw [hasking, hlog, tally_append_of_ne hevents, tally_append_of_ne hevents,
        tally_append_of_ne hevents]
      exact hbalanced.asking
    · rw [hasking, hlog, tally_append_of_ne hevents, tally_append_of_ne hevents,
        tally_append_of_ne hevents]
      exact hbalanced.quiet
  | sent task token hlog hbefore hafter =>
    have hcount := hbalanced.quiet hbefore
    refine ⟨fun _ => ?_, fun hquiet => absurd hafter hquiet⟩
    rw [hlog, tally_concat rfl, tally_concat rfl, tally_concat rfl]
    simp [Event.isSent, Event.isIssued, Event.isEnded, hcount]
  | issued live hlog hbefore hafter =>
    exact hbalanced.close hlog rfl rfl rfl hbefore hafter
  | ended hlog hbefore hafter => exact hbalanced.close hlog rfl rfl rfl hbefore hafter

theorem Flight.log_append (hflight : Flight s identity action t) :
    ∃ events, t.log = s.log ++ events := by
  cases hflight with
  | other events hlog => exact ⟨events, hlog⟩
  | sent task token hlog => exact ⟨_, hlog⟩
  | issued live hlog => exact ⟨_, hlog⟩
  | ended hlog => exact ⟨_, hlog⟩

def TokenLasts (identity : String) (n : ℕ) (s : State) : Action → Prop
  | .check task liveNow _ => ∀ call, s.calls task = some call →
      call.entry.identityHash = identity →
        ∀ live, .issued identity live ∈ s.log.drop n → liveNow < live.expires
  | _ => True

/-- No token has been issued after the first `n` events, or one that is cached, with no request
open. -/
structure Covered (identity : String) (n : ℕ) (s : State) : Prop where
  length : n ≤ s.log.length
  issued : tally Event.isIssued identity (s.log.drop n) = 0 ∨
    tally Event.isIssued identity (s.log.drop n) = 1 ∧ ¬ Asking s identity ∧
      ∃ live, s.tokens.lookup identity = some live ∧ .issued identity live ∈ s.log.drop n

theorem Covered.issued_eq_zero (hcovered : Covered identity n s)
    (hlasts : TokenLasts identity n s action) (hfinds : FindsExpired s identity action) :
    tally Event.isIssued identity (s.log.drop n) = 0 := by
  obtain ⟨task, call, liveNow, entryNow, rfl, hcall, hidentity, hexpired⟩ := hfinds
  refine hcovered.issued.resolve_right ?_
  rintro ⟨-, -, live, hlookup, hissued⟩
  have hforce := hlasts call hcall hidentity live hissued
  exact absurd (hexpired live hlookup) (not_le.mpr hforce)

theorem Covered.step (hcovered : Covered identity n s) (hlocked : Locked s)
    (hlasts : TokenLasts identity n s action) (hstep : step s action = some t) :
    Covered identity n t := by
  have hdrop (events : List Event) (hlog : t.log = s.log ++ events) :
      n ≤ t.log.length ∧ t.log.drop n = s.log.drop n ++ events := by
    rw [hlog, drop_append_of_le_length hcovered.length, length_append]
    exact ⟨hcovered.length.trans (Nat.le_add_right _ _), rfl⟩
  have hflight := flight_of_step hlocked hstep identity
  obtain ⟨events, hlog⟩ := hflight.log_append
  refine ⟨(hdrop events hlog).1, ?_⟩
  cases hflight with
  | other events hlog hevents hasking htokens =>
    rw [(hdrop events hlog).2, tally_append_of_ne hevents, hasking]
    rcases htokens with hsame | hfinds
    · refine hcovered.issued.imp_right ?_
      rintro ⟨hone, hquiet, live, hlookup, hissued⟩
      exact ⟨hone, hquiet, live, hsame.trans hlookup, mem_append_left _ hissued⟩
    · exact .inl (hcovered.issued_eq_zero hlasts hfinds)
  | sent task token hlog hbefore hafter hchecks =>
    left
    rw [(hdrop _ hlog).2, tally_concat rfl, hcovered.issued_eq_zero hlasts hchecks.findsExpired]
    rfl
  | issued live hlog hbefore hafter htokens =>
    have hzero := hcovered.issued.resolve_right fun hissued => hissued.2.1 hbefore
    right
    rw [(hdrop _ hlog).2, tally_concat rfl, hzero]
    exact ⟨rfl, hafter, live, htokens, by simp⟩
  | ended hlog hbefore =>
    have hzero := hcovered.issued.resolve_right fun hissued => hissued.2.1 hbefore
    left
    rw [(hdrop _ hlog).2, tally_concat rfl, hzero]
    rfl

theorem balanced_of_run {keys : List KeyRow} {actions : List Action}
    (hrun : Run step (.boot keys) actions s) (identity : String) : Balanced s identity := by
  refine (hrun.invariant (fun s => Locked s ∧ Balanced s identity)
    (fun _ _ _ hbefore _ hstep => ⟨hbefore.1.step hstep, hbefore.2.step hbefore.1 hstep⟩)
    ⟨locked_boot keys, ?_, fun _ => rfl⟩).2
  rintro ⟨task, call, hcall, -⟩
  cases hcall

theorem sent_le_of_tokenLasts (hlocked : Locked s) (hbalanced : Balanced s identity)
    (hquiet : ¬ Asking s identity)
    (hrun : GuardedRun step (TokenLasts identity s.log.length) s rest t) :
    tally Event.isSent identity (t.log.drop s.log.length) ≤
      1 + tally Event.isEnded identity (t.log.drop s.log.length) := by
  have hstart : Covered identity s.log.length s := ⟨le_rfl, .inl (by simp [tally])⟩
  obtain ⟨-, hafter, hcovered, new, hlog⟩ := hrun.invariant
    (fun t => Locked t ∧ Balanced t identity ∧ Covered identity s.log.length t ∧
      ∃ new, t.log = s.log ++ new)
    (fun before action after ⟨hlocked, hbalanced, hcovered, new, hlog⟩ hlasts hstep => by
      obtain ⟨events, hevents⟩ := (flight_of_step hlocked hstep identity).log_append
      refine ⟨hlocked.step hstep, hbalanced.step hlocked hstep,
        hcovered.step hlocked hlasts hstep, new ++ events, ?_⟩
      rw [hevents, hlog, append_assoc])
    ⟨hlocked, hbalanced, hstart, [], (append_nil _).symm⟩
  have hbefore := hbalanced.quiet hquiet
  have hasking := hafter.asking
  have hidle := hafter.quiet
  have hissued := hcovered.issued
  rw [hlog, tally_append, tally_append, tally_append] at hasking hidle
  rw [hlog, drop_left] at hissued ⊢
  by_cases hopen : Asking t identity
  · have hcount := hasking hopen
    have hzero := hissued.resolve_right fun hone => hone.2.1 hopen
    omega
  · have hcount := hidle hopen
    omega

/-! ## The first of the callers -/

def Phase.early : Phase → Bool
  | .waiting _ | .checking _ | .dropped => true
  | .refreshing _ _ | .persisting _ _ | .done _ => false

/-- Each check of the identity is due: the entry has expired, so has the token that was cached
in `start`, and the entry can be refreshed. -/
def ChecksDue (start : State) (identity : String) (s : State) : Action → Prop
  | .check task liveNow entryNow => ∀ call, s.calls task = some call →
      call.entry.identityHash = identity → Expired start.tokens call.entry liveNow entryNow ∧
        (KeyEntry.nonEmpty call.entry.refresh).isSome ∧ call.entry.issuer = some "xai"
  | _ => True

def Unlocked (s : State) (identity : String) : Prop :=
  ∀ task call, s.calls task = some call → call.entry.identityHash = identity →
    call.phase.guarded = false

/-- As long as no request has been sent, the cached token is that of `start` and no call has
come further than its check. -/
structure Unasked (start : State) (identity : String) (s : State) : Prop where
  tokens : s.tokens.lookup identity = start.tokens.lookup identity
  calls : ∀ task call, s.calls task = some call → call.entry.isOauth = true →
    call.entry.identityHash = identity →
      call.phase.early = true ∨ start.calls task = some call ∧ call.phase.guarded = false

theorem Unasked.update {call : Call} (hunasked : Unasked start identity s)
    (htokens : t.tokens.lookup identity = s.tokens.lookup identity)
    (hcalls : t.calls = Function.update s.calls task (some call))
    (hcall : call.entry.isOauth = true → call.entry.identityHash = identity →
      call.phase.early = true) : Unasked start identity t := by
  refine ⟨htokens.trans hunasked.tokens, fun other found hfound hoauth hidentity => ?_⟩
  rw [hcalls] at hfound
  by_cases hother : other = task
  · subst hother
    rw [Function.update_self, Option.some.injEq] at hfound
    subst hfound
    exact .inl (hcall hoauth hidentity)
  · rw [Function.update_of_ne hother] at hfound
    exact hunasked.calls other found hfound hoauth hidentity

theorem Unasked.identity_ne (hunasked : Unasked start identity s) (hlocked : Locked s)
    (hcall : s.calls task = some ⟨entry, phase⟩) (hguarded : phase.guarded = true)
    (hearly : phase.early = false) : entry.identityHash ≠ identity := by
  intro hidentity
  obtain ⟨lock, hlock⟩ : ∃ lock, phase.lock = some lock := by
    cases phase <;> first | exact ⟨_, rfl⟩ | cases hguarded
  have hoauth := ((hlocked.fits task _ hcall).lock lock hlock).1
  rcases hunasked.calls task _ hcall hoauth hidentity with hfound | ⟨-, hfree⟩
  · exact absurd (hfound.symm.trans hearly) (by simp)
  · exact absurd (hguarded.symm.trans hfree) (by simp)

theorem Unasked.step (hunasked : Unasked start identity s) (hlocked : Locked s)
    (hdue : ChecksDue start identity s action) (hstep : step s action = some t)
    (hlog : tally Event.isSent identity t.log = tally Event.isSent identity s.log) :
    Unasked start identity t := by
  cases step_path hstep with
  | plain hnew hplain =>
    exact hunasked.update rfl rfl fun hoauth => absurd (hoauth.symm.trans hplain) (by simp)
  | @finish task entry lock liveNow entryNow result tokens hcall hcheck =>
    -- a check of the identity itself is due, so it would send a request instead
    have hne : entry.identityHash ≠ identity := by
      intro hidentity
      obtain ⟨hexpired, hrefresh, hissuer⟩ := hdue _ hcall hidentity
      obtain ⟨token, htoken⟩ := Option.isSome_iff_exists.mp hrefresh
      have hlive : Expired s.tokens entry liveNow entryNow := by
        refine ⟨fun live hlookup => hexpired.live live ?_, hexpired.entry⟩
        rw [hidentity] at hlookup ⊢
        exact hunasked.tokens ▸ hlookup
      rw [check_eq_refresh_iff.mpr ⟨hlive, htoken, hissuer⟩] at hcheck
      cases hcheck
    refine hunasked.update ?_ rfl fun _ hidentity => absurd hidentity hne
    exact (lookup_of_check_finished hcheck identity).resolve_right fun hfound => hne hfound.1
  | @send task entry lock liveNow entryNow token =>
    have hne : entry.identityHash ≠ identity := by
      rintro rfl
      have hcount : tally Event.isSent entry.identityHash (s.log ++ [.sent task _ token]) =
          tally Event.isSent entry.identityHash s.log + 1 := tally_concat rfl
      exact absurd (hcount.symm.trans hlog) (Nat.succ_ne_self _)
    exact hunasked.update rfl rfl fun _ hidentity => absurd hidentity hne
  | fail hcall =>
    have hne := hunasked.identity_ne hlocked hcall rfl rfl
    exact hunasked.update rfl rfl fun _ hidentity => absurd hidentity hne
  | issue hcall =>
    have hne := hunasked.identity_ne hlocked hcall rfl rfl
    exact hunasked.update (AList.lookup_insert_ne hne.symm) rfl
      fun _ hidentity => absurd hidentity hne
  | persist hcall =>
    have hne := hunasked.identity_ne hlocked hcall rfl rfl
    exact hunasked.update (by simp [State.finish, State.put]) State.calls_finish_persist
      fun _ hidentity => absurd hidentity hne
  | dropPersisting =>
    exact hunasked.update (by simp [State.finish, State.put]) State.calls_finish_persist
      fun _ _ => rfl
  | _ => exact hunasked.update rfl rfl fun _ _ => rfl

theorem one_le_sent_of_done (hlocked : Locked s) (hunlocked : Unlocked s identity)
    (hrun : GuardedRun step (ChecksDue s identity) s rest t)
    (hdone : t.calls task = some ⟨entry, .done result⟩) (hoauth : entry.isOauth = true)
    (hidentity : entry.identityHash = identity) (hnew : s.calls task ≠ t.calls task) :
    1 ≤ tally Event.isSent identity (t.log.drop s.log.length) := by
  have hstart : Unasked s identity s :=
    ⟨rfl, fun task call hcall _ hfound => .inr ⟨hcall, hunlocked task call hcall hfound⟩⟩
  obtain ⟨-, ⟨new, hlog⟩, hunasked⟩ := hrun.invariant
    (fun t => Locked t ∧ (∃ new, t.log = s.log ++ new) ∧
      (tally Event.isSent identity t.log = tally Event.isSent identity s.log →
        Unasked s identity t))
    (fun before action after ⟨hlocked, ⟨new, hlog⟩, hunasked⟩ hdue hstep => by
      obtain ⟨events, hevents⟩ := (flight_of_step hlocked hstep identity).log_append
      refine ⟨hlocked.step hstep, ⟨new ++ events, ?_⟩, fun hcount => ?_⟩
      · rw [hevents, hlog, append_assoc]
      · -- the count only grows, so it was the same before the step
        have hafter := congrArg (tally Event.isSent identity) hevents
        have hbefore := congrArg (tally Event.isSent identity) hlog
        rw [tally_append] at hafter hbefore
        have hsame : tally Event.isSent identity before.log =
            tally Event.isSent identity s.log := by omega
        exact (hunasked hsame).step hlocked hdue hstep (by omega))
    ⟨hlocked, ⟨[], (append_nil _).symm⟩, fun _ => hstart⟩
  rw [hlog, drop_left]
  by_contra hnone
  have hzero : tally Event.isSent identity t.log = tally Event.isSent identity s.log := by
    rw [hlog, tally_append]
    omega
  rcases (hunasked hzero).calls task _ hdone hoauth hidentity with hearly | ⟨hsame, -⟩
  · cases hearly
  · exact hnew (hsame.trans hdone.symm)

/-! ## Concurrent calls -/

def Simultaneous (start : State) (identity : String) (s : State) (action : Action) : Prop :=
  TokenLasts identity start.log.length s action ∧ ChecksDue start identity s action

structure SingleFlight (s : State) : Prop where
  /-- Requests of one identity do not overlap. -/
  exclusive : ∀ first second one two, s.calls first = some one → s.calls second = some two →
    one.phase.asking = true → two.phase.asking = true →
      one.entry.identityHash = two.entry.identityHash → first = second
  /-- A request is sent by a check that finds neither the cached token nor that of the entry in
  force. -/
  expired : ∀ action t task identity token, step s action = some t →
    t.log = s.log ++ [.sent task identity token] → ChecksExpired s task identity action
  /-- While the issued tokens last, each further request follows one that brought none. -/
  bounded : ∀ identity rest later, ¬ Asking s identity →
    GuardedRun step (TokenLasts identity s.log.length) s rest later →
      tally Event.isSent identity (later.log.drop s.log.length) ≤
        1 + tally Event.isEnded identity (later.log.drop s.log.length)
  /-- If one of the simultaneous callers has returned and no request brought nothing, there was
  exactly one request. -/
  single : ∀ identity rest later, Unlocked s identity →
    GuardedRun step (Simultaneous s identity) s rest later →
      ∀ task entry result, later.calls task = some ⟨entry, .done result⟩ →
        s.calls task ≠ later.calls task → entry.isOauth = true → entry.identityHash = identity →
          tally Event.isEnded identity (later.log.drop s.log.length) = 0 →
            tally Event.isSent identity (later.log.drop s.log.length) = 1
  /-- What a call returns is its entry with other tokens. -/
  kept : ∀ task entry fresh, s.calls task = some ⟨entry, .done (.ok fresh)⟩ →
    fresh.identityHash = entry.identityHash ∧ fresh.weight = entry.weight ∧
      fresh.credType = entry.credType ∧ fresh.issuer = entry.issuer

theorem fields_of_ensureFresh {fresh : KeyEntry} {answer : RefreshAnswer}
    (hfresh : ensureFresh entry answer = .ok fresh) :
    fresh.weight = entry.weight ∧ fresh.credType = entry.credType ∧
      fresh.issuer = entry.issuer := by
  unfold ensureFresh at hfresh
  split_ifs at hfresh
  · cases hfresh
    exact ⟨rfl, rfl, rfl⟩
  · cases answer with
    | failed => cases hfresh
    | _ =>
      cases hfresh
      exact ⟨rfl, rfl, rfl⟩

theorem Locked.checksExpired_of_sent (hlocked : Locked s)
    (hstep : CredentialRuntime.step s action = some t)
    (hlog : t.log = s.log ++ [.sent task identity token]) :
    ChecksExpired s task identity action := by
  cases flight_of_step hlocked hstep identity with
  | other events hother hevents =>
    have hsame := append_cancel_left (hother.symm.trans hlog)
    exact absurd rfl (hevents (.sent task identity token) (by simp [hsame]))
  | sent who found hsent hbefore hafter hchecks =>
    have hsame := append_cancel_left (hsent.symm.trans hlog)
    cases hsame
    exact hchecks
  | issued live hissued =>
    cases append_cancel_left (hissued.symm.trans hlog)
  | ended hended => cases append_cancel_left (hended.symm.trans hlog)

/-- In every run, calls for one identity share a refresh. -/
theorem ensureFresh_singleFlight {keys : List KeyRow} {actions : List Action}
    (hrun : Run step (.boot keys) actions s) : SingleFlight s := by
  have hlocked := locked_of_run hrun
  constructor
  · intro first second one two hfirst hsecond hone htwo hsame
    exact hlocked.unique hfirst hsecond (Phase.guarded_of_asking hone)
      (Phase.guarded_of_asking htwo) hsame
  · intro action t task identity token hstep hlog
    exact hlocked.checksExpired_of_sent hstep hlog
  · intro identity rest later hquiet hrest
    exact sent_le_of_tokenLasts hlocked (balanced_of_run hrun identity) hquiet hrest
  · intro identity rest later hunlocked hrest task entry result hdone hnew hoauth hidentity hended
    have hquiet : ¬ Asking s identity := by
      rintro ⟨other, call, hcall, hasking, hfound⟩
      have hguarded := Phase.guarded_of_asking hasking
      exact absurd (hguarded.symm.trans (hunlocked other call hcall hfound)) (by simp)
    have hle := sent_le_of_tokenLasts hlocked (balanced_of_run hrun identity) hquiet
      (hrest.mono fun _ _ hguard => hguard.1)
    have hge := one_le_sent_of_done hlocked hunlocked (hrest.mono fun _ _ hguard => hguard.2)
      hdone hoauth hidentity hnew
    omega
  · intro task entry fresh hcall
    obtain ⟨answer, hanswer⟩ := (hlocked.fits task _ hcall).result _ rfl
    exact ⟨identityHash_ensureFresh hanswer, fields_of_ensureFresh hanswer⟩

end

section

attribute [local instance] zeroSha256

def expiredEntry : KeyEntry where
  key := "a0"
  weight := 1
  credType := .oauth
  refresh := some "r0"
  expires := some 0
  issuer := some "xai"
  identity := some "id"

def twoCallers : List Action :=
  [.start 0 expiredEntry, .start 1 expiredEntry, .acquire 0, .check 0 1 1,
    .answer 0 1 (.response 200 { accessToken := some "a1", refreshToken := some "r1" }),
    .persist 0 true, .acquire 1, .check 1 2 2]

theorem singleFlight_twoCallers : ∃ s, runActions step (.boot []) twoCallers = some s ∧
    tally Event.isSent "id" s.log = 1 ∧
      s.calls 1 = some ⟨expiredEntry, .done (.ok (applyLive expiredEntry ⟨"a1", "r1", 3300001⟩))⟩ ∧
        SingleFlight s := by
  have hlast : (runActions step (.boot []) twoCallers).map
      (fun s => (tally Event.isSent "id" s.log, s.calls 1)) =
        some (1, some ⟨expiredEntry,
          .done (.ok (applyLive expiredEntry ⟨"a1", "r1", 3300001⟩))⟩) := rfl
  obtain ⟨s, hs, hvalues⟩ := Option.map_eq_some_iff.mp hlast
  obtain ⟨hsent, hsecond⟩ := Prod.mk.inj hvalues
  exact ⟨s, hs, hsent, hsecond, ensureFresh_singleFlight (run_of_runActions hs)⟩

end

end CredentialRuntime
end LlmProxy
