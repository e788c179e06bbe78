import BlockScript.Block

/-!
# Hosts

A routine touches the outside world only through its host: sprites, variables, the clock, and blocks
that were not compiled. A host is any collection of answers to these calls. It has a state of its
own, which each call may change, and during any call it may ask the thread to stop.
-/

namespace BlockScript

/-- The number of a host call whose result has not come yet. -/
abbrev PendingId := Nat

/-- The answer to the call of a primitive. -/
inductive CallAnswer where
  | ready (v : Value)
  /-- The result comes later, and has to be asked for. -/
  | pending (id : PendingId)
deriving DecidableEq

/-- The answer to a call, the state of the host after it, and whether the thread is to stop. -/
structure Reply (σ α : Type) where
  answer : α
  host : σ
  stop : Bool := false

/-- The answers of a host whose state is of type `σ`. -/
structure Host (σ : Type) where
  /-- Runs a block whose inputs have been computed. -/
  evaluate : σ → BlockId → String → List (String × Value) → Reply σ Value
  /-- Calls a primitive. -/
  callPrimitive : σ → String → List Value → Reply σ CallAnswer
  /-- The result of an earlier call, if it has come. -/
  poll : σ → PendingId → Reply σ (Option Value)
  getVariable : σ → String → Reply σ Value
  setVariable : σ → String → Value → Reply σ Unit
  /-- The clock, in milliseconds. -/
  now : σ → Reply σ Number
  /-- The time for this frame is used up. -/
  deadlineElapsed : σ → Reply σ Bool

/-- The state of a host, and whether the thread has been asked to stop. -/
structure World (σ : Type) where
  host : σ
  stop : Bool := false

/-- The world after a call. A request to stop is never taken back. -/
def World.after {σ α : Type} (w : World σ) (r : Reply σ α) : World σ := ⟨r.host, w.stop || r.stop⟩

end BlockScript
