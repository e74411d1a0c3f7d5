import Tda596Labs.Lib.Bytes
import Tda596Labs.Lib.Gate
import Tda596Labs.Lib.Pool

/-! # Accepting connections

The HTTP server (`httpserver.go`) and the proxy (`proxy.go`) have the same accept loop: it counts a
connection in `numConnections`, starts a `connectionHandler` for it, and waits on `serverCondition`
while `MAX_CONNECTIONS` connections are counted.  This file has that loop, over an arbitrary type `H`
of handlers, and the messages that both programs exchange.

A section of code under `serverCondition.L` is one step.  The `go` statement after the section that
counts a connection belongs to that step: it only makes the first step of the handler possible.
-/

namespace Tda596Labs.Http

/-! ## Messages -/

/-- What the two programs read of an `http.Request`. -/
structure Request where
  method : String
  requestURI : String
  host : String
  proto : String
  protoMajor : Nat
  protoMinor : Nat
  /-- what `Body` yields until its end; a body that breaks off ends in an error -/
  body : Bytes
  deriving DecidableEq, Repr

/-- What the two programs set of an `http.Response`, apart from its body. -/
structure Response where
  proto : String
  protoMajor : Nat
  protoMinor : Nat
  status : String
  statusCode : Nat
  close : Bool
  header : List (String × String)
  deriving DecidableEq, Repr

def internalErrorResponse : Response where
  proto := "HTTP/1.1"
  protoMajor := 1
  protoMinor := 1
  status := "500 Internal Server Error"
  statusCode := 500
  close := true
  header := []

/-! ## The accept loop -/

/-- `MAX_CONNECTIONS` -/
def maxConnections : Int := 10

/-- The accept loop of `main` with the handlers it has started, in this order. -/
structure Listener (H : Type) where
  gate : Gate
  numTotal : Int
  handlers : List H
  /-- `log.Fatal` has ended the process -/
  exploded : Bool

namespace Listener

variable {H : Type}

def numConnections (listener : Listener H) : Int := listener.gate.count

def start : Listener H := ⟨.empty, 0, [], false⟩

/-- `listen.Accept()`; when it fails the loop goes on. -/
def accept (listener : Listener H) (ok : Bool) : Option (Listener H) :=
  if listener.gate.keeper = .away then
    some (if ok then { listener with gate := listener.gate.arrive } else listener)
  else none

/-- The loop around `Wait` and what follows it up to the `go` statement. -/
def pass (handler : H) (listener : Listener H) : Listener H :=
  match listener.gate.passage maxConnections with
  | .parks => { listener with gate := listener.gate.park }
  -- `log.Fatal` comes after the increment
  | .overflows => { listener with gate := listener.gate.enter, exploded := true }
  | .admits =>
    { listener with gate := listener.gate.enter, handlers := listener.handlers ++ [handler] }

/-- The locked section of the accept loop, from its beginning. -/
def enter (handler : H) (listener : Listener H) : Option (Listener H) :=
  if listener.gate.keeper = .arriving then
    some (pass handler { listener with numTotal := listener.numTotal + 1 })
  else none

/-- The locked section of the accept loop, from the end of `Wait`. -/
def wake (handler : H) (listener : Listener H) : Option (Listener H) :=
  if listener.gate.keeper = .signalled then some (pass handler listener) else none

/-- `numConnections--`, with the signal to the accept loop. -/
def decrement (listener : Listener H) : Listener H :=
  { listener with gate := listener.gate.leave maxConnections }

def setHandler (listener : Listener H) (k : Nat) (handler : H) : Listener H :=
  { listener with handlers := listener.handlers.set k handler }

/-! ## The handlers -/

section Handlers

variable {listener listener' : Listener H} {handler : H}

theorem accept_handlers {ok : Bool} (moved : listener.accept ok = some listener') :
    listener'.handlers = listener.handlers := by
  simp only [accept, Option.ite_none_right_eq_some] at moved
  obtain ⟨_, same⟩ := moved
  cases same
  cases ok <;> rfl

theorem pass_handlers : (listener.pass handler).handlers = listener.handlers ∨
    (listener.pass handler).handlers = listener.handlers ++ [handler] := by
  unfold pass
  split <;> simp

theorem enter_handlers (moved : listener.enter handler = some listener') :
    listener'.handlers = listener.handlers ∨ listener'.handlers = listener.handlers ++ [handler] := by
  simp only [enter, Option.ite_none_right_eq_some] at moved
  obtain ⟨_, same⟩ := moved
  cases same
  exact pass_handlers

theorem wake_handlers (moved : listener.wake handler = some listener') :
    listener'.handlers = listener.handlers ∨ listener'.handlers = listener.handlers ++ [handler] := by
  simp only [wake, Option.ite_none_right_eq_some] at moved
  obtain ⟨_, same⟩ := moved
  cases same
  exact pass_handlers

end Handlers

/-! ## What the limiter keeps -/

variable (counted : H → Bool)

/-- The handlers that are counted in `numConnections`, when `counted` says which are. -/
def inside (listener : Listener H) : Nat := listener.handlers.countP counted

/-- The count is right and within the limit, the process runs, and no wakeup is lost. -/
structure Limited (listener : Listener H) : Prop where
  sound : Gate.Sound maxConnections (listener.inside counted) listener.gate
  running : listener.exploded = false

variable {counted} {listener listener' : Listener H} {handler handler' : H}

theorem limited_start : Limited counted (start : Listener H) where
  sound := Gate.sound_empty (by decide)
  running := rfl

theorem Limited.accept (limited : Limited counted listener) {ok : Bool}
    (moved : listener.accept ok = some listener') : Limited counted listener' := by
  simp only [Listener.accept, Option.ite_none_right_eq_some] at moved
  obtain ⟨_, same⟩ := moved
  cases same
  cases ok with
  | true => exact ⟨limited.sound.arrive, limited.running⟩
  | false => exact limited

theorem Limited.pass (limited : Limited counted listener) (new : counted handler = true) :
    Limited counted (listener.pass handler) := by
  cases found : listener.gate.passage maxConnections with
  | parks =>
    simp only [Listener.pass, found]
    exact ⟨limited.sound.park found, limited.running⟩
  -- The loop around `Wait` is left only below the limit.
  | overflows => exact absurd found limited.sound.not_overflows
  | admits =>
    simp only [Listener.pass, found]
    constructor
    · have sound := limited.sound.enter found
      simpa [inside, new] using sound
    · exact limited.running

theorem Limited.enter (limited : Limited counted listener) (new : counted handler = true)
    (moved : listener.enter handler = some listener') : Limited counted listener' := by
  simp only [Listener.enter, Option.ite_none_right_eq_some] at moved
  obtain ⟨_, same⟩ := moved
  cases same
  apply Limited.pass _ new
  exact ⟨limited.sound, limited.running⟩

theorem Limited.wake (limited : Limited counted listener) (new : counted handler = true)
    (moved : listener.wake handler = some listener') : Limited counted listener' := by
  simp only [Listener.wake, Option.ite_none_right_eq_some] at moved
  obtain ⟨_, same⟩ := moved
  cases same
  exact limited.pass new

/-- A handler that stays counted, or stays uncounted, moves on. -/
theorem Limited.setHandler (limited : Limited counted listener) {k : Nat}
    (found : listener.handlers[k]? = some handler) (same : counted handler' = counted handler) :
    Limited counted (listener.setHandler k handler') := by
  constructor
  · have sound := limited.sound
    rwa [inside, ← Pool.countP_set_same found same] at sound
  · exact limited.running

/-- A handler gives its place back. -/
theorem Limited.decrement (limited : Limited counted listener) {k : Nat}
    (found : listener.handlers[k]? = some handler) (old : counted handler = true)
    (new : counted handler' = false) :
    Limited counted (listener.setHandler k handler').decrement := by
  constructor
  · have sound := limited.sound
    rw [inside, ← Pool.countP_set_old found old new] at sound
    exact sound.leave
  · exact limited.running

/-- What `Limited` says of `numConnections`. -/
theorem Limited.numConnections (limited : Limited counted listener) :
    listener.numConnections = listener.inside counted ∧ 0 ≤ listener.numConnections ∧
      listener.numConnections ≤ maxConnections := by
  have count : listener.numConnections = listener.inside counted := limited.sound.count
  exact ⟨count, by omega, limited.sound.bound⟩

end Listener

end Tda596Labs.Http
