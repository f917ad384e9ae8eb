import LlmProxy.GuardedRun
import Mathlib.Tactic

/-!
# A product that is rebuilt when its source has changed

A store publishes contents.  A poller keeps something built from the content: on every tick it reads
the sections of the content one after the other, compares this copy with the copy it remembers, and
if they differ it builds again from a content that it reads anew.

If they are the same at every build, the product follows the store once the content no longer
changes.
-/

namespace PolledRebuild

open List StepSystem

variable {C B : Type*}

structure Poller (C B : Type*) where
  /-- The number of reads of a copy. -/
  sections : ℕ
  copy : List C → C
  same : C → C → Prop
  decidableSame : DecidableRel same
  build : C → Option B
  alike : B → B → Prop

attribute [instance] Poller.decidableSame

inductive Phase (C B : Type*)
  | boot (reads : List C)
  | idle
  | reading (reads : List C)
  | rebuilding (seen : C)
  | swapping (seen : C) (built : B)
  | stopped

structure State (C B : Type*) where
  content : C
  live : B
  last : Option C
  phase : Phase C B

inductive Action (C : Type*)
  | refresh (content : C)
  | tick
  | read
  | rebuild
  | swap
  | shutdown

def Phase.atRest : Phase C B → Bool
  | .idle => true
  | .stopped => true
  | _ => false

def Action.own : Action C → Bool
  | .read => true
  | .rebuild => true
  | .swap => true
  | _ => false

namespace Poller

variable (p : Poller C B)

def changed (last : Option C) (seen : C) : Bool :=
  match last with
  | none => true
  | some remembered => ¬ p.same remembered seen

def readNext (s : State C B) : Option (State C B) :=
  match s.phase with
  | .boot reads =>
    if (reads ++ [s.content]).length = p.sections then
      some { s with last := some (p.copy (reads ++ [s.content])), phase := .idle }
    else some { s with phase := .boot (reads ++ [s.content]) }
  | .reading reads =>
    if (reads ++ [s.content]).length = p.sections then
      if p.changed s.last (p.copy (reads ++ [s.content])) then
        some { s with phase := .rebuilding (p.copy (reads ++ [s.content])) }
      else some { s with phase := .idle }
    else some { s with phase := .reading (reads ++ [s.content]) }
  | _ => none

def step (s : State C B) : Action C → Option (State C B)
  | .refresh content => some { s with content := content }
  | .tick =>
    match s.phase with
    | .idle => some { s with phase := .reading [] }
    | _ => none
  | .read => p.readNext s
  | .rebuild =>
    match s.phase with
    | .rebuilding seen =>
      match p.build s.content with
      | some built => some { s with phase := .swapping seen built }
      | none => some { s with phase := .idle }
    | _ => none
  | .swap =>
    match s.phase with
    | .swapping seen built =>
      some { s with live := built, last := some seen, phase := .idle }
    | _ => none
  | .shutdown =>
    match s.phase with
    | .idle => some { s with phase := .stopped }
    | _ => none

def initial (content : C) (live : B) : State C B := ⟨content, live, none, .boot []⟩

structure Lawful : Prop where
  sections : 0 < p.sections
  same : Equivalence p.same
  alike : Equivalence p.alike
  copy : ∀ {reads : List C} {content : C}, reads.length = p.sections →
    (∀ read ∈ reads, p.same read content) → p.same (p.copy reads) content
  build : ∀ {first second : C} {built : B}, p.same first second → p.build first = some built →
    ∃ other, p.build second = some other ∧ p.alike built other

inductive Move (s : State C B) : Action C → State C B → Prop
  | refresh (content : C) : Move s (.refresh content) { s with content := content }
  | tick : s.phase = .idle → Move s .tick { s with phase := .reading [] }
  | bootRead {reads : List C} : s.phase = .boot reads →
      (reads ++ [s.content]).length ≠ p.sections →
      Move s .read { s with phase := .boot (reads ++ [s.content]) }
  | bootDone {reads : List C} : s.phase = .boot reads →
      (reads ++ [s.content]).length = p.sections →
      Move s .read { s with last := some (p.copy (reads ++ [s.content])), phase := .idle }
  | sectionRead {reads : List C} : s.phase = .reading reads →
      (reads ++ [s.content]).length ≠ p.sections →
      Move s .read { s with phase := .reading (reads ++ [s.content]) }
  | differs {reads : List C} : s.phase = .reading reads →
      (reads ++ [s.content]).length = p.sections →
      p.changed s.last (p.copy (reads ++ [s.content])) = true →
      Move s .read { s with phase := .rebuilding (p.copy (reads ++ [s.content])) }
  | unchanged {reads : List C} : s.phase = .reading reads →
      (reads ++ [s.content]).length = p.sections →
      p.changed s.last (p.copy (reads ++ [s.content])) = false →
      Move s .read { s with phase := .idle }
  | built {seen : C} {built : B} : s.phase = .rebuilding seen → p.build s.content = some built →
      Move s .rebuild { s with phase := .swapping seen built }
  | kept {seen : C} : s.phase = .rebuilding seen → p.build s.content = none →
      Move s .rebuild { s with phase := .idle }
  | swap {seen : C} {built : B} : s.phase = .swapping seen built →
      Move s .swap { s with live := built, last := some seen, phase := .idle }
  | shutdown : s.phase = .idle → Move s .shutdown { s with phase := .stopped }

variable {p} {s t : State C B}

theorem changed_eq_false_iff {last : Option C} {seen : C} :
    p.changed last seen = false ↔
      ∃ remembered, last = some remembered ∧ p.same remembered seen := by
  cases last with
  | none => simp [changed]
  | some => simp [changed]

theorem move_of_readNext (hread : p.readNext s = some t) : p.Move s .read t := by
  unfold readNext at hread
  cases hphase : s.phase with
  | boot =>
    simp only [hphase] at hread
    split_ifs at hread with hfull
    · cases hread
      exact .bootDone hphase hfull
    · cases hread
      exact .bootRead hphase hfull
  | reading =>
    simp only [hphase] at hread
    split_ifs at hread with hfull hchanged
    · cases hread
      exact .differs hphase hfull hchanged
    · cases hread
      exact .unchanged hphase hfull (Bool.eq_false_of_not_eq_true hchanged)
    · cases hread
      exact .sectionRead hphase hfull
  | _ => simp [hphase] at hread

variable {action : Action C} {content : C}

theorem move_of_step (hstep : p.step s action = some t) : p.Move s action t := by
  cases action with
  | refresh content =>
    cases hstep
    exact .refresh content
  | read => exact move_of_readNext hstep
  | tick =>
    cases hphase : s.phase <;> simp only [step, hphase, reduceCtorEq] at hstep
    cases hstep
    exact .tick hphase
  | rebuild =>
    cases hphase : s.phase <;> simp only [step, hphase, reduceCtorEq] at hstep
    cases hbuild : p.build s.content <;> simp only [hbuild] at hstep <;> cases hstep
    · exact .kept hphase hbuild
    · exact .built hphase hbuild
  | swap =>
    cases hphase : s.phase <;> simp only [step, hphase, reduceCtorEq] at hstep
    cases hstep
    exact .swap hphase
  | shutdown =>
    cases hphase : s.phase <;> simp only [step, hphase, reduceCtorEq] at hstep
    cases hstep
    exact .shutdown hphase

/-! ## The product of the remembered copy -/

variable (p)

/-- The first content stays until the first copy is made, and a build reads the content that
was compared. -/
def Undisturbed (s : State C B) : Action C → Prop
  | .refresh content => ∀ reads, s.phase = .boot reads → p.same content s.content
  | .rebuild => ∀ seen, s.phase = .rebuilding seen → p.same seen s.content
  | _ => True

def Builds (content : C) (product : B) : Prop :=
  ∃ built, p.build content = some built ∧ p.alike product built

def Bounded (s : State C B) : Prop :=
  match s.phase with
  | .boot reads => reads.length < p.sections
  | .reading reads => reads.length < p.sections
  | _ => True

def Remembers (s : State C B) : Prop :=
  match s.phase with
  | .boot reads => p.Builds s.content s.live ∧ ∀ read ∈ reads, p.same read s.content
  | .swapping seen built =>
    (∃ remembered, s.last = some remembered ∧ p.Builds remembered s.live) ∧
      p.Builds seen built
  | _ => ∃ remembered, s.last = some remembered ∧ p.Builds remembered s.live

variable {p}

theorem Builds.congr (hp : p.Lawful) {first second : C} {product : B}
    (hsame : p.same first second) (hbuilds : p.Builds first product) : p.Builds second product := by
  obtain ⟨built, hbuild, halike⟩ := hbuilds
  obtain ⟨other, hother, hboth⟩ := hp.build hsame hbuild
  exact ⟨other, hother, hp.alike.trans halike hboth⟩

theorem builds_of_build (hp : p.Lawful) {built : B} (hbuild : p.build content = some built) :
    p.Builds content built :=
  ⟨built, hbuild, hp.alike.refl built⟩

theorem same_append {reads : List C} (hreads : ∀ read ∈ reads, p.same read content) {next : C}
    (hnext : p.same next content) : ∀ read ∈ reads ++ [next], p.same read content := by
  intro read hread
  rcases mem_append.mp hread with hold | hnew
  · exact hreads read hold
  · rw [mem_singleton.mp hnew]
    exact hnext

theorem Remembers.last (hremembers : p.Remembers s) (hphase : ∀ reads, s.phase ≠ .boot reads) :
    ∃ remembered, s.last = some remembered ∧ p.Builds remembered s.live := by
  unfold Remembers at hremembers
  cases hcase : s.phase with
  | boot reads => exact absurd hcase (hphase reads)
  | swapping =>
    rw [hcase] at hremembers
    exact hremembers.1
  | _ => rwa [hcase] at hremembers

theorem remembers_refresh (hp : p.Lawful) (content : C) (hremembers : p.Remembers s)
    (hboot : ∀ reads, s.phase = .boot reads → p.same content s.content) :
    p.Remembers { s with content := content } := by
  unfold Remembers at hremembers ⊢
  cases hcase : s.phase with
  | boot reads =>
    have hsame := hp.same.symm (hboot reads hcase)
    rw [hcase] at hremembers
    exact ⟨hremembers.1.congr hp hsame,
      fun read hread => hp.same.trans (hremembers.2 read hread) hsame⟩
  | _ => rwa [hcase] at hremembers

theorem remembers_step (hp : p.Lawful) (hremembers : p.Remembers s) (hok : p.Undisturbed s action)
    (hstep : p.step s action = some t) : p.Remembers t := by
  cases move_of_step hstep with
  | refresh content => exact remembers_refresh hp content hremembers hok
  | tick hphase => exact hremembers.last (by simp [hphase])
  | bootRead hphase =>
    simp only [Remembers, hphase] at hremembers
    exact ⟨hremembers.1, same_append hremembers.2 (hp.same.refl _)⟩
  | bootDone hphase hfull =>
    simp only [Remembers, hphase] at hremembers
    have hcopy := hp.copy hfull (same_append hremembers.2 (hp.same.refl _))
    exact ⟨_, rfl, hremembers.1.congr hp (hp.same.symm hcopy)⟩
  | sectionRead hphase => exact hremembers.last (by simp [hphase])
  | differs hphase => exact hremembers.last (by simp [hphase])
  | unchanged hphase => exact hremembers.last (by simp [hphase])
  | built hphase hbuild =>
    have hsame := hp.same.symm (hok _ hphase)
    exact ⟨hremembers.last (by simp [hphase]), (builds_of_build hp hbuild).congr hp hsame⟩
  | kept hphase => exact hremembers.last (by simp [hphase])
  | swap hphase =>
    simp only [Remembers, hphase] at hremembers
    exact ⟨_, rfl, hremembers.2⟩
  | shutdown hphase => exact hremembers.last (by simp [hphase])

theorem bounded_step (hp : p.Lawful) (hbounded : p.Bounded s) (hstep : p.step s action = some t) :
    p.Bounded t := by
  unfold Bounded at hbounded
  cases move_of_step hstep with
  | refresh content => exact hbounded
  | tick => exact hp.sections
  | bootRead hphase hmore =>
    simp only [hphase, length_append, length_singleton] at hbounded hmore
    simp only [Bounded, length_append, length_singleton]
    omega
  | sectionRead hphase hmore =>
    simp only [hphase, length_append, length_singleton] at hbounded hmore
    simp only [Bounded, length_append, length_singleton]
    omega
  | _ => exact trivial

structure Sound (p : Poller C B) (s : State C B) : Prop where
  remembers : p.Remembers s
  bounded : p.Bounded s

theorem sound_initial (hp : p.Lawful) {live : B} (hbuild : p.build content = some live) :
    p.Sound (initial content live) :=
  ⟨⟨builds_of_build hp hbuild, by simp⟩, hp.sections⟩

theorem sound_step (hp : p.Lawful) (hsound : p.Sound s) (hok : p.Undisturbed s action)
    (hstep : p.step s action = some t) : p.Sound t :=
  ⟨remembers_step hp hsound.remembers hok hstep, bounded_step hp hsound.bounded hstep⟩

/-! ## After the content has settled -/

variable (p)

def Quiet (content : C) : Action C → Prop
  | .refresh next => p.same next content
  | _ => True

def Fresh (content : C) (s : State C B) : Prop :=
  (∃ remembered, s.last = some remembered ∧ p.same remembered content) ∧ p.Builds content s.live

def Following (content : C) (s : State C B) : Prop :=
  p.same s.content content ∧
    match s.phase with
    | .boot _ => False
    | .reading reads => ∀ read ∈ reads, p.same read content
    | .rebuilding seen => p.same seen content
    | .swapping seen built => p.same seen content ∧ p.Builds content built
    | .idle => p.Fresh content s
    | .stopped => p.Fresh content s

def CaughtUp (content : C) (s : State C B) : Prop :=
  p.same s.content content ∧ p.Fresh content s ∧
    match s.phase with
    | .reading reads => ∀ read ∈ reads, p.same read content
    | .idle => True
    | .stopped => True
    | _ => False

variable {p} {content : C}

theorem following_step (hp : p.Lawful) (hbuild : (p.build content).isSome = true)
    (hremembers : p.Remembers s) (hfollowing : p.Following content s)
    (hquiet : p.Quiet content action) (hstep : p.step s action = some t) :
    p.Following content t := by
  obtain ⟨hcontent, hcase⟩ := hfollowing
  cases move_of_step hstep with
  | refresh => exact ⟨hquiet, hcase⟩
  | tick => exact ⟨hcontent, by simp⟩
  | bootRead hphase => simp [hphase] at hcase
  | bootDone hphase => simp [hphase] at hcase
  | sectionRead hphase =>
    simp only [hphase] at hcase
    exact ⟨hcontent, same_append hcase hcontent⟩
  | differs hphase hfull =>
    simp only [hphase] at hcase
    exact ⟨hcontent, hp.copy hfull (same_append hcase hcontent)⟩
  | unchanged hphase hfull hchanged =>
    -- the remembered copy was compared with a copy of the settled content
    simp only [hphase] at hcase
    obtain ⟨remembered, hlast, hsame⟩ := changed_eq_false_iff.mp hchanged
    have hcopy := hp.same.trans hsame (hp.copy hfull (same_append hcase hcontent))
    obtain ⟨known, hknown, hbuilds⟩ := hremembers.last (by simp [hphase])
    rw [hlast, Option.some.injEq] at hknown
    subst hknown
    exact ⟨hcontent, ⟨_, hlast, hcopy⟩, hbuilds.congr hp hcopy⟩
  | built hphase hbuilt =>
    simp only [hphase] at hcase
    exact ⟨hcontent, hcase, (builds_of_build hp hbuilt).congr hp hcontent⟩
  | kept hphase hfailed =>
    obtain ⟨built, hbuilt⟩ := Option.isSome_iff_exists.mp hbuild
    obtain ⟨other, hother, -⟩ := hp.build (hp.same.symm hcontent) hbuilt
    rw [hfailed] at hother
    cases hother
  | swap hphase =>
    simp only [hphase] at hcase
    exact ⟨hcontent, ⟨_, rfl, hcase.1⟩, hcase.2⟩
  | shutdown hphase =>
    simp only [hphase] at hcase
    exact ⟨hcontent, hcase⟩

theorem caughtUp_step (hp : p.Lawful) (hcaught : p.CaughtUp content s)
    (hquiet : p.Quiet content action) (hstep : p.step s action = some t) :
    p.CaughtUp content t := by
  obtain ⟨hcontent, hfresh, hcase⟩ := hcaught
  cases move_of_step hstep with
  | refresh => exact ⟨hquiet, hfresh, hcase⟩
  | tick => exact ⟨hcontent, hfresh, by simp⟩
  | bootRead hphase => simp [hphase] at hcase
  | bootDone hphase => simp [hphase] at hcase
  | sectionRead hphase =>
    simp only [hphase] at hcase
    exact ⟨hcontent, hfresh, same_append hcase hcontent⟩
  | differs hphase hfull hchanged =>
    simp only [hphase] at hcase
    obtain ⟨⟨remembered, hlast, hsame⟩, -⟩ := hfresh
    have hcopy := hp.copy hfull (same_append hcase hcontent)
    have hunchanged := changed_eq_false_iff.mpr
      ⟨remembered, hlast, hp.same.trans hsame (hp.same.symm hcopy)⟩
    rw [hchanged] at hunchanged
    cases hunchanged
  | built hphase => simp [hphase] at hcase
  | kept hphase => simp [hphase] at hcase
  | swap hphase => simp [hphase] at hcase
  | _ => exact ⟨hcontent, hfresh, trivial⟩

theorem Following.caughtUp (hfollowing : p.Following content s) (hrest : s.phase.atRest = true) :
    p.CaughtUp content s := by
  obtain ⟨hcontent, hcase⟩ := hfollowing
  unfold CaughtUp
  cases hphase : s.phase with
  | idle =>
    rw [hphase] at hcase
    exact ⟨hcontent, hcase, trivial⟩
  | stopped =>
    rw [hphase] at hcase
    exact ⟨hcontent, hcase, trivial⟩
  | _ => simp [hphase, Phase.atRest] at hrest

theorem following_of_tick (hp : p.Lawful) {first : C} {live : B}
    {past before during : List (Action C)} {ready ticking u : State C B}
    (hfirst : p.build first = some live)
    (hpast : GuardedRun p.step p.Undisturbed (initial first live) past s)
    (hbuild : (p.build s.content).isSome = true) (hbefore : GuardedRun p.step
      (fun u action => p.Undisturbed u action ∧ p.Quiet s.content action) s before ready)
    (htick : p.step ready .tick = some ticking) (hduring : GuardedRun p.step
      (fun u action => p.Undisturbed u action ∧ p.Quiet s.content action) ticking during u) :
    p.Sound u ∧ p.Following s.content u := by
  have hstart := hpast.invariant p.Sound (fun _ _ _ => sound_step hp) (sound_initial hp hfirst)
  have hready := hbefore.invariant (fun u => p.Sound u ∧ p.same u.content s.content)
    (fun u action v hinv hok hstep => ⟨sound_step hp hinv.1 hok.1 hstep, by
      cases move_of_step hstep with
      | refresh => exact hok.2
      | _ => exact hinv.2⟩)
    ⟨hstart, hp.same.refl _⟩
  have hticking : p.Sound ticking ∧ p.Following s.content ticking := by
    have hok : p.Undisturbed ready .tick := trivial
    refine ⟨sound_step hp hready.1 hok htick, ?_⟩
    cases move_of_step htick
    exact ⟨hready.2, by simp⟩
  exact hduring.invariant (fun u => p.Sound u ∧ p.Following s.content u)
    (fun u action v hinv hok hstep => ⟨sound_step hp hinv.1 hok.1 hstep,
      following_step hp hbuild hinv.1.remembers hinv.2 hok.2 hstep⟩) hticking

theorem Following.builds (hp : p.Lawful) (hfollowing : p.Following content s)
    (hrest : s.phase.atRest = true) {later : List (Action C)}
    (hlater : GuardedRun p.step (fun _ => p.Quiet content) s later t) :
    p.Builds content t.live := by
  have hcaught := hlater.invariant (p.CaughtUp content) (fun _ _ _ => caughtUp_step hp)
    (hfollowing.caughtUp hrest)
  exact hcaught.2.1.2

variable (p)

def stepsLeft : Phase C B → ℕ
  | .boot reads => p.sections - reads.length
  | .reading reads => p.sections - reads.length + 2
  | .rebuilding _ => 2
  | .swapping _ _ => 1
  | .idle => 0
  | .stopped => 0

variable {p}

theorem stepsLeft_le (phase : Phase C B) : p.stepsLeft phase ≤ p.sections + 2 := by
  cases phase <;> simp only [stepsLeft] <;> omega

theorem exists_next (hbounded : p.Bounded s) (hbusy : s.phase.atRest = false) :
    ∃ action t, action.own = true ∧ p.step s action = some t ∧
      p.stepsLeft t.phase < p.stepsLeft s.phase := by
  unfold Bounded at hbounded
  cases hphase : s.phase with
  | boot reads =>
    simp only [hphase] at hbounded
    refine ⟨.read, ?_⟩
    simp only [step, readNext, hphase]
    split_ifs
    · exact ⟨_, rfl, rfl, by simp only [stepsLeft]; omega⟩
    · exact ⟨_, rfl, rfl, by simp only [stepsLeft, length_append, length_singleton]; omega⟩
  | reading reads =>
    simp only [hphase] at hbounded
    refine ⟨.read, ?_⟩
    simp only [step, readNext, hphase]
    split_ifs
    · exact ⟨_, rfl, rfl, by simp only [stepsLeft]; omega⟩
    · exact ⟨_, rfl, rfl, by simp only [stepsLeft]; omega⟩
    · exact ⟨_, rfl, rfl, by simp only [stepsLeft, length_append, length_singleton]; omega⟩
  | rebuilding seen =>
    refine ⟨.rebuild, ?_⟩
    simp only [step, hphase]
    cases p.build s.content with
    | none => exact ⟨_, rfl, rfl, by simp [stepsLeft]⟩
    | some built => exact ⟨_, rfl, rfl, by simp [stepsLeft]⟩
  | swapping seen built =>
    refine ⟨.swap, ?_⟩
    simp only [step, hphase]
    exact ⟨_, rfl, rfl, by simp [stepsLeft]⟩
  | _ => simp [hphase, Phase.atRest] at hbusy

theorem exists_rest (hp : p.Lawful) (hbounded : p.Bounded s) :
    ∃ actions t, (∀ action ∈ actions, action.own = true) ∧
      actions.length ≤ p.stepsLeft s.phase ∧ runActions p.step s actions = some t ∧
      t.phase.atRest = true := by
  induction hleft : p.stepsLeft s.phase using Nat.strong_induction_on generalizing s with
  | _ n ih =>
    cases hbusy : s.phase.atRest with
    | true => exact ⟨[], s, by simp, by simp, rfl, hbusy⟩
    | false =>
      obtain ⟨action, u, hown, hstep, hless⟩ := exists_next hbounded hbusy
      obtain ⟨rest, t, hrest, hlength, hrun, hdone⟩ :=
        ih _ (hleft ▸ hless) (bounded_step hp hbounded hstep) rfl
      refine ⟨action :: rest, t, ?_, ?_, ?_, hdone⟩
      · simpa [hown] using hrest
      · simp only [length_cons]
        omega
      · simpa [runActions, hstep] using hrun

end Poller
end PolledRebuild
