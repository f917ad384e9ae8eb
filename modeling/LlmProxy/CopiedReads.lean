import LlmProxy.GuardedRun
import Mathlib.Tactic

/-!
# Copies that are read piece by piece

Writers replace the content of a store as a whole.  A reader copies it in a fixed number of reads,
each of which sees the content of its own moment, and publishes something it makes of the copy.  If
no content is written in the middle of a copy and readers take turns, each publication is made of
one content, and the moments of these contents do not decrease.
-/

namespace CopiedReads

open Function List Option StepSystem

variable {D P X : Type*}

structure Call (D : Type*) where
  begun : ℕ
  reads : List D

structure State (D P : Type*) where
  history : List D
  calls : ℕ → Option (Call D)
  published : List (P × ℕ)

inductive Action (D X : Type*)
  | commit (content : D)
  | start (reader : ℕ)
  | read (reader : ℕ)
  | publish (reader : ℕ) (input : X)
  | fail (reader : ℕ)

def State.initial (content : D) : State D P := ⟨[content], fun _ => none, []⟩

def State.set (s : State D P) (reader : ℕ) (call : Option (Call D)) : State D P :=
  { s with calls := Function.update s.calls reader call }

variable (n : ℕ) (assemble : List P → X → List D → Option P)

def step (s : State D P) : Action D X → Option (State D P)
  | .commit content => some { s with history := s.history ++ [content] }
  | .start reader =>
    if (s.calls reader).isNone then some (s.set reader (some ⟨s.history.length - 1, []⟩)) else none
  | .read reader =>
    (s.calls reader).bind fun call =>
      if call.reads.length < n then
        s.history.getLast?.map fun content =>
          s.set reader (some { call with reads := call.reads ++ [content] })
      else none
  | .publish reader input =>
    (s.calls reader).bind fun call =>
      if call.reads.length = n then
        (assemble (s.published.map Prod.fst) input call.reads).map fun value =>
          { s.set reader none with published := s.published ++ [(value, call.begun)] }
      else none
  | .fail reader => (s.calls reader).map fun _ => s.set reader none

/-- No content is written in the middle of a copy, and readers take turns. -/
def Serial (s : State D P) : Action D X → Prop
  | .commit _ => ∀ reader call, s.calls reader = some call →
      call.reads = [] ∨ call.reads.length = n
  | .start _ => ∀ reader, s.calls reader = none
  | _ => True

/-! ## What holds while readers take turns -/

/-- Moments are positions in the list of all contents so far. -/
structure Dated (s : State D P) (moments : List ℕ) : Prop where
  length : moments.length = s.published.length
  sorted : moments.Pairwise (· ≤ ·)
  past : ∀ m ∈ moments, m < s.history.length
  made : ∀ i entry, s.published[i]? = some entry →
    ∃ m content input, moments[i]? = some m ∧ s.history[m]? = some content ∧ entry.2 ≤ m ∧
      assemble ((s.published.take i).map Prod.fst) input (List.replicate n content) = some entry.1

structure Uniform (s : State D P) (moments : List ℕ) (call : Call D) : Prop where
  begun : call.begun < s.history.length
  reads : call.reads ≠ [] → ∃ m content, s.history[m]? = some content ∧ call.begun ≤ m ∧
    (∀ read ∈ call.reads, read = content) ∧ (∀ earlier ∈ moments, earlier ≤ m) ∧
      (call.reads.length < n → m + 1 = s.history.length)

structure Inv (s : State D P) (moments : List ℕ) : Prop where
  started : s.history ≠ []
  dated : Dated n assemble s moments
  alone : ∀ reader other call otherCall, s.calls reader = some call →
    s.calls other = some otherCall → reader = other
  uniform : ∀ reader call, s.calls reader = some call → Uniform n s moments call

variable {n assemble} {s : State D P} {moments : List ℕ}

theorem inv_initial (content : D) : Inv n assemble (State.initial content : State D P) [] where
  started := by simp [State.initial]
  dated := ⟨rfl, .nil, by simp, by simp [State.initial]⟩
  alone := by simp [State.initial]
  uniform := by simp [State.initial]

variable {call : Call D} {reader : ℕ} {content : D}

theorem getElem?_history_append {history : List D} {m : ℕ} (hm : history[m]? = some content)
    (later : D) : (history ++ [later])[m]? = some content := by
  have hlt : m < history.length := (List.getElem?_eq_some_iff.mp hm).1
  rw [getElem?_append_left hlt]
  exact hm

theorem Dated.commit (hdated : Dated n assemble s moments) (content : D) :
    Dated n assemble { s with history := s.history ++ [content] } moments where
  length := hdated.length
  sorted := hdated.sorted
  past := by
    intro m hm
    have hlt := hdated.past m hm
    simp only [length_append]
    omega
  made := by
    intro i entry hentry
    obtain ⟨m, made, input, hmoment, hmade, hbegun, hassemble⟩ := hdated.made i entry hentry
    exact ⟨m, made, input, hmoment, getElem?_history_append hmade content, hbegun, hassemble⟩

theorem Dated.publish (hdated : Dated n assemble s moments) {value : P} {begun m : ℕ} {input : X}
    (hcontent : s.history[m]? = some content) (hbegun : begun ≤ m)
    (hlatest : ∀ earlier ∈ moments, earlier ≤ m)
    (hassemble : assemble (s.published.map Prod.fst) input (List.replicate n content) =
      some value) :
    Dated n assemble { s with published := s.published ++ [(value, begun)] } (moments ++ [m]) where
  length := by simp [hdated.length]
  sorted := by
    rw [pairwise_append]
    exact ⟨hdated.sorted, pairwise_singleton _ _, by simpa using hlatest⟩
  past := by
    intro moment hmoment
    rcases mem_append.mp hmoment with hold | hnew
    · exact hdated.past moment hold
    · rw [mem_singleton.mp hnew]
      exact (List.getElem?_eq_some_iff.mp hcontent).1
  made := by
    intro i entry hentry
    rcases Nat.lt_or_ge i s.published.length with hlt | hge
    · rw [getElem?_append_left hlt] at hentry
      obtain ⟨moment, made, given, hmoment, hmade, hstart, hold⟩ := hdated.made i entry hentry
      refine ⟨moment, made, given, ?_, hmade, hstart, ?_⟩
      · rw [getElem?_append_left (by rw [hdated.length]; exact hlt)]
        exact hmoment
      · rw [take_append_of_le_length hlt.le]
        exact hold
    · have hi : i = s.published.length := by
        have hbound := (List.getElem?_eq_some_iff.mp hentry).1
        simp only [length_append, length_singleton] at hbound
        omega
      subst hi
      have hsame : (value, begun) = entry := by simpa using hentry
      subst hsame
      refine ⟨m, content, input, ?_, hcontent, hbegun, ?_⟩
      · rw [← hdated.length]
        simp
      · simpa using hassemble

section

variable (hinv : Inv n assemble s moments)

include hinv

theorem Inv.commit (content : D)
    (hserial : ∀ reader call, s.calls reader = some call → call.reads = [] ∨ call.reads.length = n)
    :
    Inv n assemble { s with history := s.history ++ [content] } moments where
  started := by simp
  dated := hinv.dated.commit content
  alone := hinv.alone
  uniform := by
    intro reader call hcall
    have huniform := hinv.uniform reader call hcall
    refine ⟨?_, fun hreads => ?_⟩
    · have hlt := huniform.begun
      simp only [length_append]
      omega
    · obtain ⟨m, seen, hseen, hbegun, hall, hlatest, -⟩ := huniform.reads hreads
      refine ⟨m, seen, getElem?_history_append hseen content, hbegun, hall, hlatest, ?_⟩
      rcases hserial reader call hcall with hnone | hfull
      · exact absurd hnone hreads
      · omega

theorem Inv.set (hothers : ∀ other, other ≠ reader → s.calls other = none)
    (huniform : Uniform n s moments call) : Inv n assemble (s.set reader (some call)) moments where
  started := hinv.started
  dated := ⟨hinv.dated.length, hinv.dated.sorted, hinv.dated.past, hinv.dated.made⟩
  alone := by
    intro first second firstCall secondCall hfirst hsecond
    have honly : ∀ other otherCall, (s.set reader (some call)).calls other = some otherCall →
        other = reader := by
      intro other otherCall hother
      by_contra hne
      simp only [State.set, update_of_ne hne, hothers other hne] at hother
      cases hother
    rw [honly first firstCall hfirst, honly second secondCall hsecond]
  uniform := by
    intro other otherCall hother
    by_cases hsame : other = reader
    · subst hsame
      simp only [State.set, update_self, some.injEq] at hother
      subst hother
      exact ⟨huniform.begun, huniform.reads⟩
    · simp only [State.set, update_of_ne hsame, hothers other hsame] at hother
      cases hother

theorem Inv.unset (reader : ℕ) : Inv n assemble (s.set reader none) moments := by
  have hkept : ∀ other call, (s.set reader none).calls other = some call →
      s.calls other = some call := by
    intro other call hcall
    by_cases hsame : other = reader
    · subst hsame
      simp [State.set] at hcall
    · simpa [State.set, update_of_ne hsame] using hcall
  constructor
  · exact hinv.started
  · exact ⟨hinv.dated.length, hinv.dated.sorted, hinv.dated.past, hinv.dated.made⟩
  · intro first second firstCall secondCall hfirst hsecond
    exact hinv.alone _ _ _ _ (hkept _ _ hfirst) (hkept _ _ hsecond)
  · intro other call hcall
    have huniform := hinv.uniform other call (hkept _ _ hcall)
    exact ⟨huniform.begun, huniform.reads⟩

theorem Inv.others (hcall : s.calls reader = some call) :
    ∀ other, other ≠ reader → s.calls other = none := by
  intro other hne
  cases hother : s.calls other with
  | none => rfl
  | some => exact absurd (hinv.alone _ _ _ _ hother hcall) hne

theorem Uniform.read {call : Call D} (huniform : Uniform n s moments call)
    (hmore : call.reads.length < n) {content : D} (hlast : s.history.getLast? = some content) :
    Uniform n s moments { call with reads := call.reads ++ [content] } := by
  refine ⟨huniform.begun, fun _ => ?_⟩
  have hpos := length_pos_of_ne_nil hinv.started
  rw [List.getLast?_eq_getElem?] at hlast
  by_cases hfirst : call.reads = []
  · refine ⟨s.history.length - 1, content, hlast, ?_, by simp [hfirst], ?_, fun _ => by omega⟩
    · exact Nat.le_sub_one_of_lt huniform.begun
    · intro earlier hearlier
      exact Nat.le_sub_one_of_lt (hinv.dated.past earlier hearlier)
  · obtain ⟨m, seen, hseen, hbegun, hall, hlatest, hcurrent⟩ := huniform.reads hfirst
    have hm : m = s.history.length - 1 := by
      omega
    have hsame : content = seen := by
      rw [hm, hlast] at hseen
      exact some.inj hseen
    refine ⟨m, seen, hseen, hbegun, ?_, hlatest, fun _ => hcurrent hmore⟩
    intro read hread
    rcases mem_append.mp hread with hold | hnew
    · exact hall read hold
    · rw [mem_singleton.mp hnew, hsame]

theorem Inv.publish (hn : 0 < n) {input : X} {value : P} (hcall : s.calls reader = some call)
    (hfull : call.reads.length = n)
    (hassemble : assemble (s.published.map Prod.fst) input call.reads = some value) :
    ∃ later, Inv n assemble
      { s.set reader none with published := s.published ++ [(value, call.begun)] } later := by
  have hreads : call.reads ≠ [] := by
    intro hnone
    rw [hnone] at hfull
    exact absurd hfull hn.ne
  obtain ⟨m, content, hcontent, hbegun, hall, hlatest, -⟩ :=
    (hinv.uniform reader call hcall).reads hreads
  have hcopy : call.reads = List.replicate n content := eq_replicate_iff.mpr ⟨hfull, hall⟩
  rw [hcopy] at hassemble
  have hended := hinv.unset reader
  refine ⟨moments ++ [m], hended.started,
    hended.dated.publish hcontent hbegun hlatest hassemble, hended.alone, ?_⟩
  -- the reader was the only one
  intro other otherCall hother
  have hnone : (s.set reader none).calls other = none := by
    by_cases hsame : other = reader
    · simp [State.set, hsame]
    · simp [State.set, update_of_ne hsame, hinv.others hcall other hsame]
  have hsome : (s.set reader none).calls other = some otherCall := hother
  rw [hnone] at hsome
  cases hsome

end

theorem exists_inv_step (hn : 0 < n) {t : State D P} {action : Action D X}
    (hinv : ∃ moments, Inv n assemble s moments) (hserial : Serial n s action)
    (hstep : step n assemble s action = some t) : ∃ moments, Inv n assemble t moments := by
  obtain ⟨moments, hinv⟩ := hinv
  cases action with
  | commit content =>
    cases hstep
    exact ⟨moments, hinv.commit content hserial⟩
  | start =>
    obtain ⟨-, hset⟩ := ite_none_right_eq_some.mp hstep
    cases hset
    refine ⟨moments, hinv.set (fun other _ => hserial other) ⟨?_, by simp⟩⟩
    exact Nat.sub_one_lt (length_pos_of_ne_nil hinv.started).ne'
  | read reader =>
    obtain ⟨call, hcall, hread⟩ := bind_eq_some_iff.mp hstep
    obtain ⟨hmore, hset⟩ := ite_none_right_eq_some.mp hread
    obtain ⟨content, hlast, rfl⟩ := map_eq_some_iff.mp hset
    exact ⟨moments, hinv.set (hinv.others hcall)
      ((hinv.uniform reader call hcall).read hinv hmore hlast)⟩
  | publish =>
    obtain ⟨call, hcall, hpublish⟩ := bind_eq_some_iff.mp hstep
    obtain ⟨hfull, hvalue⟩ := ite_none_right_eq_some.mp hpublish
    obtain ⟨value, hassemble, rfl⟩ := map_eq_some_iff.mp hvalue
    exact hinv.publish hn hcall hfull hassemble
  | fail reader =>
    obtain ⟨call, -, rfl⟩ := map_eq_some_iff.mp hstep
    exact ⟨moments, hinv.unset reader⟩

theorem exists_dated_of_serial (hn : 0 < n) {actions : List (Action D X)} {t : State D P}
    (hrun : GuardedRun (step n assemble) (Serial n) (State.initial content) actions t) :
    ∃ moments, Dated n assemble t moments := by
  obtain ⟨moments, hinv⟩ := hrun.invariant (fun s => ∃ moments, Inv n assemble s moments)
    (fun _ _ _ hinv hserial hstep => exists_inv_step hn hinv hserial hstep)
    ⟨[], inv_initial content⟩
  exact ⟨moments, hinv.dated⟩

end CopiedReads
