import BlockScript.Machine.Host

/-!
# Scripted hosts

A host whose answers are laid down beforehand and which keeps a record of the calls made to it. It
serves to rehearse a program: the clock stands still until it is moved, answers are handed out in
order, and chosen primitives take a number of polls to come back.
-/

namespace BlockScript

/-- A call that a routine made. -/
inductive HostEvent where
  | escape (block : BlockId) (opcode : String) (inputs : List (String × Value))
  | primitive (name : String) (args : List Value)
  | poll (id : PendingId)
  | get (name : String)
  | set (name : String) (v : Value)
  | now
  | deadline (elapsed : Bool)
deriving DecidableEq

/-- A result that comes after some more polls. -/
structure PendingCall where
  id : PendingId
  polls : Nat
  result : Value

/-- The state of a scripted host. -/
structure ScriptedHost where
  clock : Number := Number.zero
  /-- What is added to the clock after each frame. -/
  frameTime : Number := 25
  /-- The answers about the deadline; the last one is given for ever. -/
  deadlines : List Bool := []
  vars : List (String × Value) := []
  /-- The answers for each name; the last one is given for ever. -/
  results : List (String × List Value) := []
  /-- The primitives that take so many polls. -/
  slow : List (String × Nat) := []
  /-- The names at whose call the thread is asked to stop. -/
  stopOn : List String := []
  pending : List PendingCall := []
  nextId : PendingId := 0
  /-- The calls made, the latest first. -/
  events : List HostEvent := []

namespace ScriptedHost

/-- The first of a row of answers, and the row without it unless it is the last. -/
def takeNext {α : Type} : List α → Option (α × List α)
  | [] => none
  | [a] => some (a, [a])
  | a :: as => some (a, as)

/-- A list of pairs with a new value for a name. -/
def put {α : Type} (name : String) (a : α) : List (String × α) → List (String × α)
  | [] => [(name, a)]
  | (n, b) :: rest => if n = name then (name, a) :: rest else (n, b) :: put name a rest

/-- Records a call. -/
def record (s : ScriptedHost) (e : HostEvent) : ScriptedHost := { s with events := e :: s.events }

/-- The next answer for a name; the empty text if there is none. -/
def takeResult (s : ScriptedHost) (name : String) : Value × ScriptedHost :=
  match (s.results.lookup name).bind takeNext with
  | some (v, rest) => (v, { s with results := put name rest s.results })
  | none => (.empty, s)

/-- The next answer about the deadline; false if there is none. -/
def takeDeadline (s : ScriptedHost) : Bool × ScriptedHost :=
  match takeNext s.deadlines with
  | some (b, rest) => (b, { s with deadlines := rest })
  | none => (false, s)

/-- Runs a block. -/
def evaluate (s : ScriptedHost) (block : BlockId) (opcode : String)
    (inputs : List (String × Value)) : Reply ScriptedHost Value :=
  let (v, t) := (s.record (.escape block opcode inputs)).takeResult opcode
  ⟨v, t, s.stopOn.contains opcode⟩

/-- Calls a primitive. -/
def callPrimitive (s : ScriptedHost) (name : String) (args : List Value) :
    Reply ScriptedHost CallAnswer :=
  let (v, t) := (s.record (.primitive name args)).takeResult name
  match s.slow.lookup name with
  | none => ⟨.ready v, t, s.stopOn.contains name⟩
  | some polls =>
    ⟨.pending s.nextId,
      { t with nextId := s.nextId + 1, pending := ⟨s.nextId, polls, v⟩ :: s.pending },
      s.stopOn.contains name⟩

/-- Asks for the result of a call: it comes with the last poll. -/
def poll (s : ScriptedHost) (id : PendingId) : Reply ScriptedHost (Option Value) :=
  let t := s.record (.poll id)
  match s.pending.find? fun p => p.id == id with
  | some p =>
    if p.polls ≤ 1 then
      ⟨some p.result, { t with pending := s.pending.filter fun q => q.id != id },
        s.stopOn.contains "poll"⟩
    else
      ⟨none,
        { t with pending := s.pending.map fun q =>
            if q.id == id then { q with polls := q.polls - 1 } else q },
        s.stopOn.contains "poll"⟩
  | none => ⟨none, t, s.stopOn.contains "poll"⟩

/-- Reads a variable; zero if it was never set. -/
def getVariable (s : ScriptedHost) (name : String) : Reply ScriptedHost Value :=
  ⟨(s.vars.lookup name).getD (.number Number.zero), s.record (.get name), false⟩

/-- Gives a variable a value, without a record. -/
def assign (s : ScriptedHost) (name : String) (v : Value) : ScriptedHost :=
  { s with vars := put name v s.vars }

/-- Sets a variable. -/
def setVariable (s : ScriptedHost) (name : String) (v : Value) : Reply ScriptedHost Unit :=
  ⟨(), (s.record (.set name v)).assign name v, false⟩

/-- Reads the clock. -/
def now (s : ScriptedHost) : Reply ScriptedHost Number := ⟨s.clock, s.record .now, false⟩

/-- Asks about the deadline. -/
def deadlineElapsed (s : ScriptedHost) : Reply ScriptedHost Bool :=
  let (b, t) := s.takeDeadline
  ⟨b, t.record (.deadline b), false⟩

/-- Moves the clock. -/
def advance (s : ScriptedHost) (time : Number) : ScriptedHost :=
  { s with clock := s.clock.add time }

/-- The calls since the record was last taken, in order, and the host with an empty record. -/
def takeEvents (s : ScriptedHost) : List HostEvent × ScriptedHost :=
  (s.events.reverse, { s with events := [] })

/-- The answers of scripted hosts. -/
def host : Host ScriptedHost where
  evaluate := evaluate
  callPrimitive := callPrimitive
  poll := poll
  getVariable := getVariable
  setVariable := setVariable
  now := now
  deadlineElapsed := deadlineElapsed

end ScriptedHost

end BlockScript
