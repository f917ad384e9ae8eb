import LlmProxy.RequestAccounting

/-!
# The retries that a row shows

The row of a request shows the length of the list `retries`, while the loop counts its attempts
separately.
-/

namespace LlmProxy

open List

namespace RetryLoop

variable {Response : Type}

/-- Whether the attempt pushes its key on the list: an open circuit does, an error does if it
demotes the key. -/
def AttemptEvent.counted : AttemptEvent Response → Bool
  | .noKey => false
  | .refreshFailed _ _ demoted => demoted
  | .denied _ => true
  | .called _ _ demoted => demoted

def AttemptEvent.ErrorBlamesKey (failover : FailoverPolicy) : AttemptEvent Response → Prop
  | .called _ (.error (.upstream status _ badKeyHint _)) _ =>
    badKeyHint = true ∧ ∃ code, status = some code ∧ code ∈ failover.badStatusCodes
  | _ => True

section

variable [Sha256] {ctx : RetryContext} {attempts : ℕ} {input : AttemptInput Response}
  {shared : Shared} {result : AttemptResult Response}

theorem AttemptPath.retried_isSome (hpath : AttemptPath ctx attempts input shared result) :
    result.retried.isSome = result.event.counted := by
  cases hpath <;> rfl

theorem AttemptPath.counted_iff (hpath : AttemptPath ctx attempts input shared result)
    (hagain : result.exit = none) :
    result.event.counted = true ↔ result.event.ErrorBlamesKey ctx.failover := by
  cases hpath with
  | refreshDemoted => exact iff_of_true rfl trivial
  | denied => exact iff_of_true rfl trivial
  | upstreamError hasked hchat hblame =>
    refine iff_of_false Bool.false_ne_true ?_
    intro hblames
    rw [blamesKey_iff.mpr hblames] at hblame
    cases hblame
  | upstreamDemoted hasked hchat hblame =>
    exact iff_of_true rfl (blamesKey_iff.mp hblame)
  | _ => cases hagain

/-- The list has one entry for each attempt that is counted, and the attempts so far all went
round again. -/
structure Counting (ctx : RetryContext) (state : LoopState Response) : Prop where
  length : state.retries.length = state.log.countP AttemptEvent.counted
  again : ∀ event ∈ state.log, event.counted = true ↔ event.ErrorBlamesKey ctx.failover

theorem retries_length_after {state : LoopState Response}
    (hpath : AttemptPath ctx attempts input shared result)
    (hlength : state.retries.length = state.log.countP AttemptEvent.counted) :
    (state.after result).retries.length = (state.after result).log.countP AttemptEvent.counted := by
  have hpushed := hpath.retried_isSome
  simp only [LoopState.after, length_append, countP_append, countP_singleton, ← hpushed, hlength]
  cases result.retried <;> rfl

theorem Counting.after {state : LoopState Response} (hcounting : Counting ctx state)
    (hpath : AttemptPath ctx attempts input shared result) (hagain : result.exit = none) :
    Counting ctx (state.after result) := by
  refine ⟨retries_length_after hpath hcounting.length, ?_⟩
  intro event hevent
  rcases mem_append.mp hevent with hold | hnew
  · exact hcounting.again event hold
  · rw [mem_singleton.mp hnew]
    exact hpath.counted_iff hagain

theorem retryLoop_retries_eq_iff {inputs : ℕ → AttemptInput Response} {exit : LoopExit Response}
    {final : LoopState Response} (hrun : retryLoop ctx inputs shared = some (exit, final))
    {response : Response} (hanswer : exit.toResult ctx = .ok response) :
    final.retries.length ≤ final.log.dropLast.length ∧
      (final.retries.length = final.log.dropLast.length ↔
        ∀ event ∈ final.log.dropLast, event.ErrorBlamesKey ctx.failover) := by
  refine retryLoop_rule (I := Counting ctx)
    (Q := fun exit final => exit.toResult ctx = .ok response →
      final.retries.length ≤ final.log.dropLast.length ∧
        (final.retries.length = final.log.dropLast.length ↔
          ∀ event ∈ final.log.dropLast, event.ErrorBlamesKey ctx.failover))
    ⟨rfl, by simp [LoopState.start]⟩
    (fun state result hstate hpath hagain => hstate.after hpath hagain) ?_ hrun hanswer
  intro state result exit hstate hpath hexit hok
  have hlast : result.event.counted = false := by
    have hsucceeded := (hpath.toResult_ok_iff hexit).mp ⟨response, hok⟩
    cases hpath <;> first | rfl | cases hsucceeded
  have hlength := retries_length_after hpath hstate.length
  have hlog : (state.after result).log = state.log ++ [result.event] := rfl
  rw [hlength, hlog, dropLast_concat, countP_append, countP_singleton, hlast]
  refine ⟨countP_le_length, ?_⟩
  rw [if_neg Bool.false_ne_true, Nat.add_zero, countP_eq_length]
  exact forall₂_congr hstate.again

end

end RetryLoop

theorem ChatCall.asI32_eq_iff {retries attempts : ℕ} (hle : retries ≤ attempts) :
    asI32 retries = attempts ↔ attempts < 2 ^ 31 ∧ retries = attempts := by
  have hsize : Int32.size = 2 ^ 32 := rfl
  rw [asI32, Int32.toInt_ofNat', hsize, Int.bmod_def]
  split_ifs with hhalf
  · omega
  · omega

namespace ChatCall

variable {Cost : Type} {call : ChatCall Cost} [SerdeJson] [Sha256]

theorem retries_success_iff {provider : Provider} {route : RouteEntry}
    {sent : ChatCompletionRequest} {response : ProviderResponse (List Poll)}
    (hanswer : call.loopAnswer provider route sent = .ok response) :
    (asI32 (call.success provider route sent).retries =
        (call.finalState provider route sent).log.dropLast.length ↔
      (call.finalState provider route sent).log.dropLast.length < 2 ^ 31 ∧
        ∀ event ∈ (call.finalState provider route sent).log.dropLast,
          event.ErrorBlamesKey call.policy.failover) := by
  have hrun : RetryLoop.retryLoop (call.retryContext route) (call.attemptInput provider sent)
      call.shared =
        some ((call.loopResult provider route sent).1, call.finalState provider route sent) :=
    (Option.some_get _).symm
  obtain ⟨hle, hiff⟩ := RetryLoop.retryLoop_retries_eq_iff hrun hanswer
  have hpolicy : (call.retryContext route).failover = call.policy.failover := rfl
  rw [← hpolicy, ← hiff]
  exact asI32_eq_iff hle

/-- On either path the row of a successful request shows its attempts before the last, unless
they are too many for 32 bits or an upstream error among them was retried without blaming its
key. -/
theorem retryCount_eq_attempts_iff (call : ChatCall Cost) (reply : Reply)
    (hanswer : call.handle.answer = .ok reply) :
    ∃ row, call.rows = [row] ∧
      (row.audit.fromRouter.retryCount = call.handle.attempts.dropLast.length ↔
        call.handle.attempts.dropLast.length < 2 ^ 31 ∧
          ∀ event ∈ call.handle.attempts.dropLast,
            event.ErrorBlamesKey call.policy.failover) := by
  have hpath := call.handle_path
  unfold rows
  generalize call.handle = handled at hpath hanswer ⊢
  cases hpath with
  | cacheHit =>
    refine ⟨_, (call.tally_admitted.append ⟨rfl, rfl, rfl⟩).rows, ?_⟩
    exact iff_of_true rfl ⟨Nat.two_pow_pos 31, by simp [answeredFromCache]⟩
  | whole hsent hloop =>
    refine ⟨call.onceRow (call.success _ _ _) _,
      ((call.tally_loop _ _ _).append ⟨rfl, rfl, rfl⟩).rows, ?_⟩
    exact retries_success_iff hloop
  | streamed hsent hloop =>
    refine ⟨call.streamRow (call.success _ _ _) _,
      ((call.tally_loop _ _ _).append ⟨rfl, rfl, rfl⟩).rows, ?_⟩
    exact retries_success_iff hloop
  | _ => cases hanswer

end ChatCall

section

attribute [local instance] jsonText zeroSha256

def retriedCall (stream : Bool) (status : StatusCode) : ChatCall ℕ :=
  { askCall "acme" (.new 256) with
    req := { askRequest with stream := some stream }
    router := ⟨AList.singleton "m" ⟨"p", twoKeyPool, none, none⟩,
      AList.singleton "p" ⟨.openAi, "u"⟩⟩
    policy := ⟨⟨1, [401, 402, 403, 429]⟩, 0⟩
    attempts := fun n =>
      { chosen := 0
        refresh := .unchanged
        allowAt := 0
        failedAt := 0
        exchange :=
          if n = 0 then ⟨.ok ⟨status, none, [], []⟩, ""⟩
          else ⟨.ok ⟨.ok, if stream then some "text/event-stream".toList else none,
            Json.print bareBody, [.finished]⟩, ""⟩
        provider := ⟨[401, 402, 403, 429], id, [], 0⟩ } }

theorem retryCount_unauthorized :
    ∃ row, (retriedCall true ⟨401, by decide⟩).rows = [row] ∧
      row.audit.fromRouter.retryCount =
        (retriedCall true ⟨401, by decide⟩).handle.attempts.dropLast.length := by
  have hanswer : ∃ reply, (retriedCall true ⟨401, by decide⟩).handle.answer = .ok reply := ⟨_, rfl⟩
  have hlog : ∃ entry msg, (retriedCall true ⟨401, by decide⟩).handle.attempts.dropLast =
      [.called entry (.error (.upstream (some 401) true true msg)) true] := ⟨_, _, rfl⟩
  obtain ⟨reply, hreply⟩ := hanswer
  obtain ⟨entry, msg, hlog⟩ := hlog
  obtain ⟨row, hrow, hcount⟩ := ChatCall.retryCount_eq_attempts_iff _ reply hreply
  rw [hlog, forall_mem_singleton] at hcount
  refine ⟨row, hrow, ?_⟩
  exact hcount.mpr ⟨by simp, rfl, 401, rfl, by decide⟩

/-- A server error is retried and not counted, on either path. -/
theorem retryCount_misses_server_error :
    (retriedCall false ⟨503, by decide⟩).handle.attempts.length = 2 ∧
      (retriedCall false ⟨503, by decide⟩).rows.map
        (fun row => (row.statusCode, row.isStream, row.audit.fromRouter.retryCount)) =
        [(some 200, false, 0)] ∧
      (retriedCall true ⟨503, by decide⟩).handle.attempts.length = 2 ∧
      (retriedCall true ⟨503, by decide⟩).rows.map
        (fun row => (row.statusCode, row.isStream, row.audit.fromRouter.retryCount)) =
        [(some 200, true, 0)] :=
  ⟨by decide +kernel, by decide +kernel, by decide +kernel, by decide +kernel⟩

end

end LlmProxy
