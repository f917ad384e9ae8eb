import Mathlib.Tactic.Common

/-!
# Scripts without a transaction

A script reads and writes a store call by call and stops at the first call that fails.  What was
written before stays, unless the script itself takes it back.
-/

/-- A script over a store `S` that answers with an `A` or an error. -/
abbrev Attempt (S E A : Type) := ExceptT E (StateM S) A

namespace Attempt

variable {S E A B : Type} (script : Attempt S E A)

def call (s : S) : S × Except E A :=
  ((StateT.run script.run s).2, (StateT.run script.run s).1)

def check (f : S → Except E A) : Attempt S E A := ExceptT.mk fun s => (f s, s)

variable (f : S → Except E S)

/-- A call that writes, or fails and writes nothing. -/
def execute : Attempt S E Unit :=
  ExceptT.mk fun s =>
    match f s with
    | .ok next => (.ok (), next)
    | .error e => (.error e, s)

variable (undo : S → S)

/-- After an error of the script something is taken back; the error is the answer. -/
def orUndo : Attempt S E A :=
  ExceptT.mk fun s =>
    ((call script s).2,
      match (call script s).2 with
      | .ok _ => (call script s).1
      | .error _ => undo (call script s).1)

@[simp] theorem call_check (f : S → Except E A) (s : S) : call (check f) s = (s, f s) := rfl

theorem call_bind (rest : A → Attempt S E B) (s : S) :
    call (script >>= rest) s =
      match call script s with
      | (next, .ok a) => call (rest a) next
      | (next, .error e) => (next, .error e) := by
  have hrun : StateT.run (script >>= rest).run s =
      ExceptT.bindCont rest (StateT.run script.run s).1 (StateT.run script.run s).2 := rfl
  unfold call
  rw [hrun]
  cases (StateT.run script.run s).1 with
  | ok => rfl
  | error => rfl

theorem call_check_bind (f : S → Except E A) (rest : A → Attempt S E B) (s : S) :
    call (check f >>= rest) s =
      match f s with
      | .ok a => call (rest a) s
      | .error e => (s, .error e) := by
  rw [call_bind, call_check]
  cases f s with
  | ok => rfl
  | error => rfl

theorem call_execute (s : S) :
    call (execute f) s =
      match f s with
      | .ok next => (next, .ok ())
      | .error e => (s, .error e) := by
  have hrun : StateT.run (execute f).run s =
      match f s with
      | .ok next => (.ok (), next)
      | .error e => (.error e, s) := rfl
  unfold call
  rw [hrun]
  cases f s with
  | ok => rfl
  | error => rfl

variable (rest : Unit → Attempt S E B)

theorem call_execute_bind (s : S) :
    call (execute f >>= rest) s =
      match f s with
      | .ok next => call (rest ()) next
      | .error e => (s, .error e) := by
  rw [call_bind, call_execute]
  cases f s with
  | ok => rfl
  | error => rfl

theorem call_orUndo (s : S) :
    call (script.orUndo undo) s =
      (match (call script s).2 with
        | .ok _ => (call script s).1
        | .error _ => undo (call script s).1, (call script s).2) := rfl

/-- A statement that is taken back at an error writes nothing, so the undoing meets the store as
it was before. -/
theorem call_orUndo_bind (s : S) :
    call ((execute f).orUndo undo >>= rest) s =
      match f s with
      | .ok next => call (rest ()) next
      | .error e => (undo s, .error e) := by
  rw [call_bind, call_orUndo, call_execute]
  cases f s with
  | ok => rfl
  | error => rfl

end Attempt
