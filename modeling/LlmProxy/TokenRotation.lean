import LlmProxy.SingleRefresh

/-!
# Which refresh token a request presents

The issuer gives a new refresh token with each refresh, and the old one is superseded.  A call
presents the token of its own entry, although the cache may hold a newer one.
-/

namespace LlmProxy
namespace CredentialRuntime

open List Option StepSystem

/-! ## The tokens in the log -/

variable (identity : String)

def Event.issuedFor : Event → Option LiveToken
  | .issued found live => if found = identity then some live else none
  | _ => none

def Event.persistedFor : Event → Option LiveToken
  | .persisted found live => if found = identity then some live else none
  | _ => none

def lastIssued (log : List Event) : Option LiveToken :=
  (log.filterMap (Event.issuedFor identity)).getLast?

def lastPersisted (log : List Event) : Option LiveToken :=
  (log.filterMap (Event.persistedFor identity)).getLast?

def newest (stored : String) (log : List Event) : String :=
  ((lastIssued identity log).map LiveToken.refresh).getD stored

/-- Every request of the identity presents the refresh token that was the newest when it was
sent. -/
def NewestSent (stored : String) (log : List Event) : Prop :=
  ∀ before task refresh after, log = before ++ .sent task identity refresh :: after →
    refresh = newest identity stored before

section

variable {identity stored : String} {log : List Event} {event : Event}

theorem lastIssued_concat : lastIssued identity (log ++ [event]) =
    (event.issuedFor identity).or (lastIssued identity log) := by
  rw [lastIssued]
  cases hevent : event.issuedFor identity with
  | none => simp [hevent, lastIssued]
  | some => simp [hevent]

theorem lastPersisted_concat : lastPersisted identity (log ++ [event]) =
    (event.persistedFor identity).or (lastPersisted identity log) := by
  rw [lastPersisted]
  cases hevent : event.persistedFor identity with
  | none => simp [hevent, lastPersisted]
  | some => simp [hevent]

theorem newestSent_concat_iff : NewestSent identity stored (log ++ [event]) ↔
    NewestSent identity stored log ∧
      ∀ task refresh, event = .sent task identity refresh →
        refresh = newest identity stored log := by
  constructor
  · intro hall
    refine ⟨fun before task refresh after hlog => ?_, fun task refresh hevent => ?_⟩
    · exact hall before task refresh (after ++ [event]) (by simp [hlog])
    · exact hall log task refresh [] (by rw [hevent])
  · rintro ⟨hlog, hlast⟩ before task refresh after hsplit
    rcases eq_nil_or_concat after with rfl | ⟨rest, last, rfl⟩
    · obtain ⟨rfl, hevent⟩ := append_inj' hsplit rfl
      exact hlast task refresh (List.cons.inj hevent).1
    · rw [concat_eq_append, ← cons_append, ← append_assoc] at hsplit
      obtain ⟨hbefore, -⟩ := append_inj' hsplit rfl
      exact hlog before task refresh rest hbefore

end

/-! ## The table -/

variable (log : List Event)

def rotatedRow (row : KeyRow) : KeyRow :=
  match lastPersisted row.keyHash log with
  | some live => row.rotate row.keyHash live
  | none => row

theorem keyHash_rotate (identity : String) (live : LiveToken) (row : KeyRow) :
    (row.rotate identity live).keyHash = row.keyHash := by
  unfold KeyRow.rotate
  split_ifs <;> rfl

@[simp] theorem keyHash_rotatedRow (row : KeyRow) : (rotatedRow log row).keyHash = row.keyHash := by
  unfold rotatedRow
  split
  · exact keyHash_rotate _ _ _
  · rfl

theorem rotate_rotatedRow (identity : String) (live : LiveToken) (row : KeyRow) :
    (rotatedRow log row).rotate identity live =
      rotatedRow (log ++ [.persisted identity live]) row := by
  have hlast : lastPersisted row.keyHash (log ++ [.persisted identity live]) =
      if identity = row.keyHash then some live else lastPersisted row.keyHash log := by
    rw [lastPersisted_concat, Event.persistedFor]
    split_ifs <;> rfl
  by_cases hidentity : row.keyHash = identity
  · subst hidentity
    unfold rotatedRow
    rw [hlast]
    cases lastPersisted row.keyHash log <;> simp [KeyRow.rotate]
  · rw [KeyRow.rotate, keyHash_rotatedRow, if_neg hidentity, rotatedRow, rotatedRow, hlast,
      if_neg (Ne.symm hidentity)]

theorem refreshToken_rotatedRow {stored : String} (row : KeyRow)
    (hstored : row.refreshToken = some stored) :
    (rotatedRow log row).refreshToken =
      some (((lastPersisted row.keyHash log).map LiveToken.refresh).getD stored) := by
  unfold rotatedRow
  cases lastPersisted row.keyHash log with
  | none => exact hstored
  | some => simp [KeyRow.rotate]

variable {live : LiveToken}

theorem keys_persist {s : State} {keys : List KeyRow} {identity : String} {success : Bool}
    (hkeys : s.keys = keys.map (rotatedRow s.log)) :
    (s.persist identity live success).keys =
      keys.map (rotatedRow (s.persist identity live success).log) := by
  cases success with
  | false => exact hkeys
  | true =>
    show s.keys.map _ = keys.map (rotatedRow (s.log ++ [_]))
    rw [hkeys, List.map_map]
    exact map_congr_left fun row _ => rotate_rotatedRow s.log identity live row

section

variable [Sha256] {s t : State} {identity stored : String} {keys : List KeyRow} {entry : KeyEntry}
  {action : Action} {task : ℕ} {phase : Phase}

theorem keys_step (hkeys : s.keys = keys.map (rotatedRow s.log)) (hstep : step s action = some t) :
    t.keys = keys.map (rotatedRow t.log) := by
  have hconcat {event : Event} (hevent : ∀ identity, event.persistedFor identity = none) :
      s.keys = keys.map (rotatedRow (s.log ++ [event])) := by
    rw [hkeys]
    exact map_congr_left fun row _ => by
      rw [rotatedRow, rotatedRow, lastPersisted_concat, hevent, none_or]
  cases step_path hstep with
  | plain | wait | acquire | finish | dropWaiting => exact hkeys
  | send | fail | issue | dropAsking => exact hconcat fun _ => rfl
  | persist | dropPersisting => exact keys_persist hkeys

theorem keys_of_run {ok : State → Action → Prop} {actions : List Action}
    (hrun : GuardedRun step ok (.boot keys) actions s) : s.keys = keys.map (rotatedRow s.log) := by
  refine hrun.invariant (fun s => s.keys = keys.map (rotatedRow s.log))
    (fun _ _ _ hkeys _ hstep => keys_step hkeys hstep) ?_
  exact (List.map_id keys).symm

/-! ## Written tokens -/

def Action.persists : Action → Bool
  | .persist _ success => success
  | .drop _ written => written
  | _ => true

abbrev Writing (s : State) (identity : String) (live : LiveToken) : Prop :=
  HasCall s identity fun phase => phase.writing = some live

structure Written (s : State) (identity : String) : Prop where
  pending : ∀ live, Writing s identity live → lastIssued identity s.log = some live
  settled : (∀ live, ¬ Writing s identity live) →
    lastIssued identity s.log = lastPersisted identity s.log

theorem Locked.writing_iff {next : Phase} (hlocked : Locked s)
    (hcall : s.calls task = some ⟨entry, phase⟩) (hheld : phase.guarded = true)
    (hcalls : t.calls = Function.update s.calls task (some ⟨entry, next⟩)) :
    Writing t entry.identityHash live ↔ next.writing = some live :=
  hlocked.hasCall_iff_of_guarded (fun _ => Phase.guarded_of_writing) hcall hheld hcalls

/-- While a call holds its lock without writing, the table has the newest token. -/
theorem Written.lastIssued_eq (hwritten : Written s entry.identityHash) (hlocked : Locked s)
    (hcall : s.calls task = some ⟨entry, phase⟩) (hguarded : phase.guarded = true)
    (hphase : phase.writing = none) :
    lastIssued entry.identityHash s.log = lastPersisted entry.identityHash s.log := by
  refine hwritten.settled fun live hwriting => ?_
  have hsame : s.calls = Function.update s.calls task (some ⟨entry, phase⟩) := by
    rw [← hcall, Function.update_eq_self]
  have hlive := (hlocked.writing_iff hcall hguarded hsame).mp hwriting
  cases hphase.symm.trans hlive

theorem Written.update {call : Call} (hwritten : Written s identity)
    (hissued : lastIssued identity t.log = lastIssued identity s.log)
    (hpersisted : lastPersisted identity t.log = lastPersisted identity s.log)
    (hcalls : t.calls = Function.update s.calls task (some call))
    (hsame : ∀ live, (call.phase.writing = some live ∧ call.entry.identityHash = identity) ↔
      ∃ old, s.calls task = some old ∧ old.phase.writing = some live ∧
        old.entry.identityHash = identity) : Written t identity := by
  have hwriting live : Writing t identity live ↔ Writing s identity live :=
    hasCall_iff_of_same hcalls (hsame live)
  constructor
  · intro live hlive
    rw [hissued]
    exact hwritten.pending live ((hwriting live).mp hlive)
  · intro hnone
    rw [hissued, hpersisted]
    exact hwritten.settled fun live => mt (hwriting live).mpr (hnone live)

theorem Written.persist {lock : ℕ} {next : Phase} (hwritten : Written s identity)
    (hlocked : Locked s) (hcall : s.calls task = some ⟨entry, .persisting lock live⟩)
    (hnext : next.writing = none) :
    Written ((s.persist entry.identityHash live true).finish task entry lock next) identity := by
  have hissued : lastIssued identity (s.log ++ [.persisted entry.identityHash live]) =
      lastIssued identity s.log := lastIssued_concat
  by_cases hidentity : entry.identityHash = identity
  · subst hidentity
    have hpersisted : lastPersisted entry.identityHash
        (s.log ++ [.persisted entry.identityHash live]) = some live := by
      rw [lastPersisted_concat, Event.persistedFor, if_pos rfl]
      rfl
    have hlast := hwritten.pending live ⟨task, _, hcall, rfl, rfl⟩
    constructor
    · intro other hother
      have hlive := (hlocked.writing_iff hcall rfl State.calls_finish_persist).mp hother
      cases hnext.symm.trans hlive
    · exact fun _ => hissued.trans (hlast.trans hpersisted.symm)
  · refine hwritten.update hissued ?_ State.calls_finish_persist (by simp [hcall, hidentity])
    refine lastPersisted_concat.trans ?_
    rw [Event.persistedFor, if_neg hidentity, none_or]

theorem Written.step (hwritten : Written s identity) (hlocked : Locked s)
    (hpersists : action.persists = true) (hstep : step s action = some t) : Written t identity := by
  cases step_path hstep with
  | plain hnew | wait hnew => exact hwritten.update rfl rfl rfl (by simp [hnew, Phase.writing])
  | acquire hcall | finish hcall | dropWaiting hcall =>
    exact hwritten.update rfl rfl rfl (by simp [hcall, Phase.writing])
  | send hcall | fail hcall | dropAsking hcall =>
    exact hwritten.update lastIssued_concat lastPersisted_concat rfl
      (by simp [hcall, Phase.writing])
  | @issue task entry lock token nowMs reply live hcall =>
    by_cases hidentity : entry.identityHash = identity
    · subst hidentity
      have hissued : lastIssued entry.identityHash
          (s.log ++ [.issued entry.identityHash live]) = some live := by
        rw [lastIssued_concat, Event.issuedFor, if_pos rfl]
        rfl
      constructor
      · intro other hother
        have hlive := (hlocked.writing_iff hcall rfl rfl).mp hother
        exact hissued.trans hlive
      · intro hnone
        exact absurd ((hlocked.writing_iff hcall rfl rfl).mpr rfl) (hnone live)
    · refine hwritten.update ?_ lastPersisted_concat rfl (by simp [hcall, hidentity])
      refine lastIssued_concat.trans ?_
      rw [Event.issuedFor, if_neg hidentity]
      rfl
  | @persist task entry lock live success hcall =>
    cases hpersists
    exact hwritten.persist hlocked hcall rfl
  | @dropPersisting task entry lock live written hcall =>
    cases hpersists
    exact hwritten.persist hlocked hcall rfl

theorem written_of_run {actions : List Action}
    (hrun : GuardedRun step (fun _ action => action.persists = true) (.boot keys) actions s)
    (identity : String) : Locked s ∧ Written s identity := by
  refine hrun.invariant (fun s => Locked s ∧ Written s identity)
    (fun _ _ _ hbefore hpersists hstep =>
      ⟨hbefore.1.step hstep, hbefore.2.step hbefore.1 hpersists hstep⟩)
    ⟨locked_boot keys, ?_, fun _ => rfl⟩
  rintro live ⟨task, call, hcall, -⟩
  cases hcall

/-! ## What a request presents -/

def CarriesStored (identity : String) (s : State) : Action → Prop
  | .check task liveNow entryNow => ∀ entry lock token,
      s.calls task = some ⟨entry, .checking lock⟩ → entry.identityHash = identity →
        check s.tokens entry liveNow entryNow = .refresh token →
          ∃ row ∈ s.keys, row.keyHash = identity ∧ row.refreshToken = some token
  | _ => True

theorem log_of_step (hstep : step s action = some t) :
    (∃ task entry lock liveNow entryNow token, action = .check task liveNow entryNow ∧
      s.calls task = some ⟨entry, .checking lock⟩ ∧
        check s.tokens entry liveNow entryNow = .refresh token ∧
          t.log = s.log ++ [.sent task entry.identityHash token]) ∨
      (∀ identity, CarriesStored identity s action) ∧
        (t.log = s.log ∨ ∃ event, t.log = s.log ++ [event] ∧ event.isSent = false) := by
  cases step_path hstep with
  | @send task entry lock liveNow entryNow token hcall hcheck =>
    exact .inl ⟨task, entry, lock, liveNow, entryNow, token, rfl, hcall, hcheck, rfl⟩
  | finish hcall hcheck =>
    refine .inr ⟨fun identity entry lock token hfound _ hsends => ?_, .inl rfl⟩
    rw [hcall, some.injEq, Call.mk.injEq] at hfound
    rw [← hfound.1, hcheck] at hsends
    cases hsends
  | plain | wait | acquire | dropWaiting => exact .inr ⟨fun _ => trivial, .inl rfl⟩
  | fail | issue | dropAsking => exact .inr ⟨fun _ => trivial, .inr ⟨_, rfl, rfl⟩⟩
  | @persist task entry lock live success =>
    refine .inr ⟨fun _ => trivial, ?_⟩
    cases success with
    | false => exact .inl rfl
    | true => exact .inr ⟨_, rfl, rfl⟩
  | @dropPersisting task entry lock live written =>
    refine .inr ⟨fun _ => trivial, ?_⟩
    cases written with
    | false => exact .inl rfl
    | true => exact .inr ⟨_, rfl, rfl⟩

theorem Written.refreshToken_eq_newest (hwritten : Written s entry.identityHash)
    (hlocked : Locked s) (hkeys : s.keys = keys.map (rotatedRow s.log))
    (hstored : ∀ row ∈ keys, row.keyHash = entry.identityHash → row.refreshToken = some stored)
    (hcall : s.calls task = some ⟨entry, phase⟩) (hguarded : phase.guarded = true)
    (hphase : phase.writing = none) :
    ∀ row ∈ s.keys, row.keyHash = entry.identityHash →
      row.refreshToken = some (newest entry.identityHash stored s.log) := by
  have hlast := hwritten.lastIssued_eq hlocked hcall hguarded hphase
  rw [hkeys]
  intro found hfound hhash
  obtain ⟨row, hmem, rfl⟩ := List.mem_map.mp hfound
  rw [keyHash_rotatedRow] at hhash
  rw [refreshToken_rotatedRow _ _ (hstored row hmem hhash), newest, hlast, hhash]

theorem newestSent_step_iff (hlocked : Locked s) (hwritten : Written s identity)
    (hkeys : s.keys = keys.map (rotatedRow s.log)) (hrow : ∃ row ∈ keys, row.keyHash = identity)
    (hstored : ∀ row ∈ keys, row.keyHash = identity → row.refreshToken = some stored)
    (hstep : step s action = some t) :
    NewestSent identity stored t.log ↔
      NewestSent identity stored s.log ∧ CarriesStored identity s action := by
  rcases log_of_step hstep with
    ⟨task, entry, lock, liveNow, entryNow, token, rfl, hcall, hcheck, hlog⟩ | ⟨hcarries, hlog⟩
  · rw [hlog, newestSent_concat_iff]
    refine and_congr_right fun _ => ?_
    by_cases hidentity : entry.identityHash = identity
    · subst hidentity
      have htable := hwritten.refreshToken_eq_newest hlocked hkeys hstored hcall rfl rfl
      constructor
      · intro hnewest other found value hother _ hsends
        rw [hcall, some.injEq, Call.mk.injEq] at hother
        rw [← hother.1, hcheck, Checked.refresh.injEq] at hsends
        obtain ⟨row, hmem, hhash⟩ := hrow
        have hmem' : rotatedRow s.log row ∈ s.keys := by
          rw [hkeys]
          exact List.mem_map_of_mem hmem
        have hhash' := (keyHash_rotatedRow s.log row).trans hhash
        refine ⟨_, hmem', hhash', ?_⟩
        rw [htable _ hmem' hhash', ← hsends, hnewest task token rfl]
      · intro hcarries who refresh hevent
        cases hevent
        obtain ⟨row, hmem, hhash, hrefresh⟩ := hcarries entry lock token hcall rfl hcheck
        rw [htable row hmem hhash, some.injEq] at hrefresh
        exact hrefresh.symm
    · refine iff_of_true (fun who refresh hevent => ?_) fun other found value hother hsame _ => ?_
      · cases hevent
        exact absurd rfl hidentity
      · rw [hcall, some.injEq, Call.mk.injEq] at hother
        exact absurd (hother.1 ▸ hsame) hidentity
  · rw [and_iff_left (hcarries identity)]
    rcases hlog with hlog | ⟨event, hlog, hevent⟩
    · rw [hlog]
    · rw [hlog, newestSent_concat_iff]
      refine and_iff_left fun task refresh hsent => ?_
      rw [hsent] at hevent
      cases hevent

/-- Every request presents the newest token if and only if every call that sends one carries the
token which the table has for its identity at that moment. -/
theorem newestSent_iff_carriesStored {actions : List Action}
    (hrow : ∃ row ∈ keys, row.keyHash = identity)
    (hstored : ∀ row ∈ keys, row.keyHash = identity → row.refreshToken = some stored)
    (hpersists : ∀ action ∈ actions, action.persists = true)
    (hrun : Run step (.boot keys) actions s) :
    NewestSent identity stored s.log ↔
      GuardedRun step (CarriesStored identity) (.boot keys) actions s := by
  have hwritten : GuardedRun step (fun _ action => action.persists = true) (.boot keys) actions s :=
    hrun.of_forall hpersists
  clear hrun hpersists
  induction hwritten with
  | nil =>
    refine iff_of_true (fun before task refresh after hlog => ?_) (.nil _)
    simp [State.boot] at hlog
  | snoc hrun hok hstep ih =>
    obtain ⟨hlocked, hwritten⟩ := written_of_run hrun identity
    rw [newestSent_step_iff hlocked hwritten (keys_of_run hrun) hrow hstored hstep,
      hrun.concat_iff hstep]
    exact and_congr_left fun _ => ih

end

section

attribute [local instance] zeroSha256

def expiredRow : KeyRow where
  poolId := "p"
  keyHash := "id"
  keyPlain := "a0"
  weight := 1
  credType := some "oauth"
  refreshToken := some "r0"
  expiresAt := some 0
  issuer := some "xai"

/-- The token `r1` has been issued and written; then a caller comes whose entry has the refresh
token `refresh`, when the access token of `r1` has expired. -/
def laterCaller (refresh : String) : List Action :=
  [.start 0 expiredEntry, .acquire 0, .check 0 1 1,
    .answer 0 1 (.response 200 { accessToken := some "a1", refreshToken := some "r1" }),
    .persist 0 true, .start 1 { expiredEntry with refresh := some refresh }, .acquire 1,
    .check 1 3300001 3300001]

theorem newestSent_current_caller : ∃ s,
    runActions step (.boot [expiredRow]) (laterCaller "r1") = some s ∧
      s.log = [.sent 0 "id" "r0", .issued "id" ⟨"a1", "r1", 3300001⟩,
        .persisted "id" ⟨"a1", "r1", 3300001⟩, .sent 1 "id" "r1"] ∧
      NewestSent "id" "r0" s.log ∧
        GuardedRun step (CarriesStored "id") (.boot [expiredRow]) (laterCaller "r1") s := by
  have hlast : (runActions step (.boot [expiredRow]) (laterCaller "r1")).map State.log =
      some [.sent 0 "id" "r0", .issued "id" ⟨"a1", "r1", 3300001⟩,
        .persisted "id" ⟨"a1", "r1", 3300001⟩, .sent 1 "id" "r1"] := rfl
  obtain ⟨s, hs, hlog⟩ := map_eq_some_iff.mp hlast
  have hnewest : NewestSent "id" "r0" s.log := by
    have hevents : s.log = [] ++ [Event.sent 0 "id" "r0"] ++
        [Event.issued "id" ⟨"a1", "r1", 3300001⟩] ++
        [Event.persisted "id" ⟨"a1", "r1", 3300001⟩] ++ [Event.sent 1 "id" "r1"] := by simp [hlog]
    rw [hevents]
    simp only [newestSent_concat_iff]
    refine ⟨⟨⟨⟨by simp [NewestSent], ?_⟩, by simp⟩, by simp⟩, ?_⟩
    · rintro task refresh ⟨⟩
      rfl
    · rintro task refresh ⟨⟩
      rfl
  refine ⟨s, hs, hlog, hnewest, (newestSent_iff_carriesStored ?_ ?_ (by decide)
    (run_of_runActions hs)).mp hnewest⟩
  · exact ⟨expiredRow, mem_singleton_self _, rfl⟩
  · intro row hrow _
    rw [mem_singleton.mp hrow]
    rfl

theorem stale_caller_sends_superseded :
    expiredRow.load = expiredEntry ∧
      ∃ s, runActions step (.boot [expiredRow]) (laterCaller "r0") = some s ∧
        s.log = [.sent 0 "id" "r0", .issued "id" ⟨"a1", "r1", 3300001⟩,
          .persisted "id" ⟨"a1", "r1", 3300001⟩, .sent 1 "id" "r0"] ∧
        ¬ NewestSent "id" "r0" s.log := by
  refine ⟨by decide +kernel, ?_⟩
  have hlast : (runActions step (.boot [expiredRow]) (laterCaller "r0")).map State.log =
      some [.sent 0 "id" "r0", .issued "id" ⟨"a1", "r1", 3300001⟩,
        .persisted "id" ⟨"a1", "r1", 3300001⟩, .sent 1 "id" "r0"] := rfl
  obtain ⟨s, hs, hlog⟩ := map_eq_some_iff.mp hlast
  refine ⟨s, hs, hlog, fun hnewest => ?_⟩
  have hsecond := hnewest (s.log.take 3) 1 "r0" [] (by rw [hlog]; rfl)
  rw [hlog] at hsecond
  exact absurd hsecond (by decide)

end

end CredentialRuntime
end LlmProxy
