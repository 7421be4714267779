import PacketReplay.Lib.Proc
import PacketReplay.Replay.HttpReplay

/-!
# How a program ends

Both `main`s run their body in a `try` block: an exception is written to `std::cerr`, and
so is the usage where the arguments are not those of the program.
-/

namespace PacketReplay

open Lib

/-- `what()`. -/
def whatOf : Exn → Bytes
  | .runtimeError what => what
  | .invalidArgument what => what
  | .outOfRange what => what
  | .badArrayNewLength => ascii "std::bad_array_new_length"

/-- What `main` returns, and what it has written to `std::cerr`. -/
structure Exit : Type where
  code : Int
  cerr : Bytes
  deriving DecidableEq, Repr

/-- A call that does not touch the state. -/
def call {σ α : Type} (x : Outcome α) : Proc Stop σ α := fun s => (x.mapError .fault, s)

theorem call_of_ok {σ α : Type} {x : Outcome α} {a : α} (returned : x = .ok a) (s : σ) :
    call x s = (.ok a, s) := by
  rw [call, returned]
  rfl

theorem call_of_error {σ α : Type} {x : Outcome α} {f : Fault} (failed : x = .error f) (s : σ) :
    call x s = (.error (.fault f), s) := by
  rw [call, failed]
  rfl

theorem ok_of_call {σ α : Type} {x : Outcome α} {a : α} {s t : σ}
    (returned : call x s = (.ok a, t)) : x = .ok a := by
  cases x with
  | error f => cases returned
  | ok b =>
      cases returned
      rfl

/-- What becomes of the way out of a `try` block that says whether it came to its end. The
other way out of it is that of the usage. -/
def exitOf (usage : Bytes) : Except Stop Bool → Except Stop Exit
  | .ok true => .ok ⟨0, []⟩
  | .ok false => .ok ⟨-1, usage⟩
  | .error (.fault (.thrown e)) => .ok ⟨-1, whatOf e ++ ascii "\n"⟩
  | .error stop => .error stop

/-- What becomes of a `try` block that ends as a run does, without a usage. -/
def exitOfRun (r : Except Stop Unit) : Except Stop Exit := exitOf [] (r.map fun _ => true)

theorem exitOf_map_true (usage : Bytes) (r : Except Stop Unit) :
    exitOf usage (r.map fun _ => true) = exitOfRun r := by
  rcases r with ((exn | u) | _) | _ <;> rfl

/-- Only a body that comes to its end has the program end with 0. -/
theorem exitOf_eq_zero {usage cerr : Bytes} {r : Except Stop Unit} :
    exitOf usage (r.map fun _ => true) = .ok ⟨0, cerr⟩ → r = .ok () := by
  rcases r with ((exn | u) | _) | _
  · intro zero
    cases zero
  · intro zero
    cases zero
  · intro zero
    cases zero
  · exact fun _ => rfl

end PacketReplay
