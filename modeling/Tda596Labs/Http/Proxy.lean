import Tda596Labs.Lib.Transition
import Tda596Labs.Http.Connections

/-! # The proxy

`proxy.go`: a handler reads one request, forwards it if it is a `GET`, and gives its place back at the
end of `connectionHandler`.  The two `return`s before that, for a request that cannot be read and for
another method, keep the place.
-/

namespace Tda596Labs.Http

open Transition

/-! ## Requests and responses -/

def validGETRequest (request : Request) : Bool := request.method = "GET"

/-- A response of the proxy itself. -/
def proxyResponse (request : Request) (status : String) (statusCode : Nat) : Response where
  proto := request.proto
  protoMajor := request.protoMajor
  protoMinor := request.protoMinor
  status := status
  statusCode := statusCode
  close := false
  header := []

def badRequest (request : Request) : Response := proxyResponse request "400 Bad Request" 400

def notFound (request : Request) : Response := proxyResponse request "404 Not Found" 404

def notImplemented (request : Request) : Response := proxyResponse request "501 Not Implemented" 501

/-- What happens outside of the proxy during one `requestAndForward`. -/
structure Upstream where
  /-- `clientCon.LocalAddr().String()` -/
  localAddr : String
  dials : Bool
  writes : Bool
  answer : Option (Response × Bytes)
  deriving DecidableEq, Repr

/-- What `requestAndForward` writes back to the client, if it writes. -/
def requestAndForward (port : String) (request : Request) (upstream : Upstream) :
    Option (Response × Bytes) :=
  if request.host = "" then some (badRequest request, [])
  -- a request for the proxy itself would come back to it
  else if request.host = upstream.localAddr ∨ request.host = "localhost:" ++ port then
    some (badRequest request, [])
  else if upstream.dials = false then some (notFound request, [])
  -- the one way out on which no response is written
  else if upstream.writes = false then none
  else
    match upstream.answer with
    | none => some (badRequest request, [])
    | some answer => some answer

/-! ## Handlers -/

/-- Where a `connectionHandler` stands. -/
inductive Forwarder where
  /-- before the check of the capacity -/
  | started
  | reading
  /-- about to write a response and to return early -/
  | refusing (response : Response)
  | forwarding (request : Request)
  /-- before the last locked section, with what the client was sent -/
  | leaving (sent : Option (Response × Bytes))
  /-- returned early -/
  | refused (response : Response)
  /-- returned at the end -/
  | returned (sent : Option (Response × Bytes))
  deriving DecidableEq, Repr

namespace Forwarder

/-- The handler has not returned. -/
def running : Forwarder → Bool
  | refused _ | returned _ => false
  | _ => true

/-- The handler returned at one of the two early `return`s. -/
def keptPlace : Forwarder → Bool
  | refused _ => true
  | _ => false

/-- The handler has not given its place back. -/
def counted (handler : Forwarder) : Bool := handler.running || handler.keptPlace

/-- What a handler does with the request it has read; `none`: it could not be read. -/
def judge : Option Request → Forwarder
  | none => refusing internalErrorResponse
  | some request =>
    if validGETRequest request then forwarding request else refusing (notImplemented request)

end Forwarder

/-! ## The process -/

structure Proxy where
  port : String
  listener : Listener Forwarder

namespace Proxy

inductive Event where
  /-- the accept loop -/
  | accept (ok : Bool)
  | enter
  | wake
  /-- handler `k` -/
  | check (k : Nat)
  | read (k : Nat) (request : Option Request)
  | refuse (k : Nat)
  | forward (k : Nat) (upstream : Upstream)
  | leave (k : Nat)
  deriving DecidableEq, Repr

def start (port : String) : Proxy := ⟨port, .start⟩

/-- The accept loop moves. -/
def loop (proxy : Proxy) (listener : Option (Listener Forwarder)) : Option Proxy :=
  listener.map fun listener => { proxy with listener := listener }

/-- Handler `k` moves to another place in its code. -/
def move (proxy : Proxy) (k : Nat) (handler : Forwarder) : Proxy :=
  { proxy with listener := proxy.listener.setHandler k handler }

def step (proxy : Proxy) (event : Event) : Option Proxy :=
  if proxy.listener.exploded then none
  else
    match event with
    | .accept ok => proxy.loop (proxy.listener.accept ok)
    | .enter => proxy.loop (proxy.listener.enter .started)
    | .wake => proxy.loop (proxy.listener.wake .started)
    | .check k =>
      match proxy.listener.handlers[k]? with
      | some .started =>
        if proxy.listener.numConnections > maxConnections then
          some { proxy with listener := { proxy.listener with exploded := true } }
        else some (proxy.move k .reading)
      | _ => none
    | .read k request =>
      match proxy.listener.handlers[k]? with
      | some .reading => some (proxy.move k (.judge request))
      | _ => none
    | .refuse k =>
      match proxy.listener.handlers[k]? with
      | some (.refusing response) => some (proxy.move k (.refused response))
      | _ => none
    | .forward k upstream =>
      match proxy.listener.handlers[k]? with
      | some (.forwarding request) =>
        some (proxy.move k (.leaving (requestAndForward proxy.port request upstream)))
      | _ => none
    | .leave k =>
      match proxy.listener.handlers[k]? with
      | some (.leaving sent) =>
        some { proxy with listener := (proxy.listener.setHandler k (.returned sent)).decrement }
      | _ => none

abbrev ProxyRun (port : String) := Run step (start port)

/-! ## What a step does -/

inductive Effect (proxy : Proxy) : Event → Proxy → Prop where
  | accept {ok : Bool} {listener : Listener Forwarder} (moved : proxy.listener.accept ok = some listener) :
      Effect proxy (.accept ok) { proxy with listener := listener }
  | enter {listener : Listener Forwarder} (moved : proxy.listener.enter .started = some listener) :
      Effect proxy .enter { proxy with listener := listener }
  | wake {listener : Listener Forwarder} (moved : proxy.listener.wake .started = some listener) :
      Effect proxy .wake { proxy with listener := listener }
  | explodes {k : Nat} (tooMany : proxy.listener.numConnections > maxConnections) :
      Effect proxy (.check k) { proxy with listener := { proxy.listener with exploded := true } }
  | moves {e : Event} {k : Nat} {handler handler' : Forwarder}
      (found : proxy.listener.handlers[k]? = some handler) (before : handler.running = true)
      (after : handler'.running = true) (other : ∀ k, e ≠ .refuse k) :
      Effect proxy e (proxy.move k handler')
  | refuses {k : Nat} {response : Response}
      (found : proxy.listener.handlers[k]? = some (.refusing response)) :
      Effect proxy (.refuse k) (proxy.move k (.refused response))
  | leaves {k : Nat} {sent : Option (Response × Bytes)}
      (found : proxy.listener.handlers[k]? = some (.leaving sent)) :
      Effect proxy (.leave k)
        { proxy with listener := (proxy.listener.setHandler k (.returned sent)).decrement }

theorem judge_running (request : Option Request) : (Forwarder.judge request).running = true := by
  cases request with
  | none => rfl
  | some request =>
    simp only [Forwarder.judge]
    split <;> rfl

theorem step_effect {proxy next : Proxy} {e : Event} (moved : proxy.step e = some next) :
    Effect proxy e next := by
  simp only [step, Option.ite_none_left_eq_some] at moved
  replace moved := moved.2
  cases e with
  | accept ok =>
    obtain ⟨listener, accepted, rfl⟩ := Option.map_eq_some_iff.mp moved
    exact .accept accepted
  | enter =>
    obtain ⟨listener, admitted, rfl⟩ := Option.map_eq_some_iff.mp moved
    exact .enter admitted
  | wake =>
    obtain ⟨listener, woken, rfl⟩ := Option.map_eq_some_iff.mp moved
    exact .wake woken
  | check k =>
    dsimp only at moved
    split at moved
    · next found =>
      split at moved
      · next tooMany =>
        cases moved
        exact .explodes tooMany
      · cases moved
        exact .moves found rfl rfl (by simp)
    · cases moved
  | read k request =>
    dsimp only at moved
    split at moved
    · next found =>
      cases moved
      exact .moves found rfl (judge_running request) (by simp)
    · cases moved
  | refuse k =>
    dsimp only at moved
    split at moved
    · next found =>
      cases moved
      exact .refuses found
    · cases moved
  | forward k upstream =>
    dsimp only at moved
    split at moved
    · next found =>
      cases moved
      exact .moves found rfl rfl (by simp)
    · cases moved
  | leave k =>
    dsimp only at moved
    split at moved
    · next found =>
      cases moved
      exact .leaves found
    · cases moved

/-! ## The count -/

/-- The handlers that have been started and have not returned. -/
def running (proxy : Proxy) : Nat := proxy.listener.handlers.countP Forwarder.running

/-- The handlers that returned without giving their place back. -/
def lost (proxy : Proxy) : Nat := proxy.listener.handlers.countP Forwarder.keptPlace

/-- `numConnections` is the number of running handlers, and the accept loop is blocked only while all
places are taken by running handlers. -/
structure Balanced (proxy : Proxy) : Prop where
  count : proxy.listener.numConnections = proxy.running
  blocked : proxy.listener.gate.keeper = .parked → proxy.running = maxConnections

variable {proxy next : Proxy} {e : Event}

theorem counted_of_running {handler : Forwarder} (runs : handler.running = true) :
    handler.counted = true ∧ handler.keptPlace = false := by
  cases handler <;> simp_all [Forwarder.running, Forwarder.counted, Forwarder.keptPlace]

/-- The limiter itself works: the places given away are the handlers that did not give theirs back. -/
theorem limited_step (limited : proxy.listener.Limited Forwarder.counted) (effect : Effect proxy e next) :
    next.listener.Limited Forwarder.counted := by
  cases effect with
  | accept moved => exact limited.accept moved
  | enter moved => exact limited.enter rfl moved
  | wake moved => exact limited.wake rfl moved
  | explodes tooMany =>
    -- `connectionHandler` checks the count once more, which the accept loop has kept within the limit.
    have bound := limited.numConnections.2.2
    omega
  | moves found before after =>
    apply limited.setHandler found
    rw [(counted_of_running before).1, (counted_of_running after).1]
  | refuses found => exact limited.setHandler found rfl
  | leaves found => exact limited.decrement found rfl rfl

theorem counted_eq (handlers : List Forwarder) :
    handlers.countP Forwarder.counted =
      handlers.countP Forwarder.running + handlers.countP Forwarder.keptPlace := by
  induction handlers with
  | nil => rfl
  | cons handler handlers ih =>
    simp only [List.countP_cons, ih]
    cases handler <;> simp [Forwarder.counted, Forwarder.running, Forwarder.keptPlace] <;> omega

/-- The accept loop loses no place. -/
theorem lost_started {handlers handlers' : List Forwarder}
    (more : handlers' = handlers ∨ handlers' = handlers ++ [.started]) :
    handlers'.countP Forwarder.keptPlace = handlers.countP Forwarder.keptPlace := by
  obtain rfl | rfl := more
  · rfl
  · simp [Forwarder.keptPlace]

/-- A place is lost in every step that returns early, and in no other. -/
theorem lost_step (effect : Effect proxy e next) :
    ((∀ k, e ≠ .refuse k) → next.lost = proxy.lost) ∧ proxy.lost ≤ next.lost ∧
      ((∃ k, e = .refuse k) → next.lost = proxy.lost + 1) := by
  cases effect with
  | accept moved => simp [lost, Listener.accept_handlers moved]
  | enter moved => simp [lost, lost_started (Listener.enter_handlers moved)]
  | wake moved => simp [lost, lost_started (Listener.wake_handlers moved)]
  | explodes => simp [lost]
  | moves found before after other =>
    have same := Pool.countP_set_same (p := Forwarder.keptPlace) found
      ((counted_of_running after).2.trans (counted_of_running before).2.symm)
    simp only [lost, move, Listener.setHandler, same]
    simp [other]
  | @refuses k response found =>
    have more := Pool.countP_set_new (p := Forwarder.keptPlace) found (b := .refused response) rfl rfl
    simp only [lost, move, Listener.setHandler, more]
    simp
  | @leaves k sent found =>
    have same := Pool.countP_set_same (p := Forwarder.keptPlace) found (b := .returned sent) rfl
    simp only [lost, Listener.decrement, Listener.setHandler, same]
    simp

/-! ## Runs -/

variable {port : String} {taken : List (Taken Proxy Event)} {final : Proxy}

theorem limited_of_run (run : ProxyRun port taken final) : final.listener.Limited Forwarder.counted :=
  run.invariant (fun _ _ => trivial) Listener.limited_start fun _ _ _ limited (_ : True) moved =>
    limited_step limited (step_effect moved)

/-- No handler returns early. -/
def ReturnsAtEnd (_ : Proxy) : Event → Prop
  | .refuse _ => False
  | _ => True

instance (proxy : Proxy) (e : Event) : Decidable (ReturnsAtEnd proxy e) :=
  match e with
  | .refuse _ => .isFalse id
  | .accept _ | .enter | .wake | .check _ | .read _ _ | .forward _ _ | .leave _ => .isTrue trivial

theorem returnsAtEnd_iff : ReturnsAtEnd proxy e ↔ ∀ k, e ≠ .refuse k := by
  cases e <;> simp [ReturnsAtEnd]

theorem lost_eq_zero_iff (run : ProxyRun port taken final) :
    final.lost = 0 ↔ AllMeet ReturnsAtEnd taken := by
  induction run with
  | nil => simp [lost, start, Listener.start, AllMeet]
  | @snoc taken s t e run moved ih =>
    obtain ⟨kept, grows, more⟩ := lost_step (step_effect moved)
    constructor
    · intro none_
      have earlier := ih.mp (by omega)
      intro τ member
      simp only [List.mem_append, List.mem_singleton] at member
      obtain inside | rfl := member
      · exact earlier τ inside
      · apply returnsAtEnd_iff.mpr
        rintro k rfl
        have oneMore := more ⟨k, rfl⟩
        omega
    · intro all
      have before := ih.mpr all.earlier
      rw [kept (returnsAtEnd_iff.mp all.last), before]

/-- The proxy's count is right in a state if and only if no handler has returned early on the way to
it. -/
theorem balanced_iff_returns_at_end (run : ProxyRun port taken final) :
    Balanced final ↔ AllMeet ReturnsAtEnd taken := by
  have limited := limited_of_run run
  -- A place is taken by a handler that runs or by one that returned without giving it back.
  have count : final.listener.numConnections = final.running + final.lost := by
    rw [limited.numConnections.1, Listener.inside, counted_eq]
    exact Int.natCast_add _ _
  rw [← lost_eq_zero_iff run]
  constructor
  · intro balanced
    have right := balanced.count
    omega
  · intro none_
    have right : final.listener.numConnections = final.running := by omega
    constructor
    · exact right
    · intro parked
      rw [← right]
      exact limited.sound.full parked

/-- A client that connects and closes the connection without a request. -/
def silentClient (k : Nat) : List Event := [.accept true, .enter, .check k, .read k none, .refuse k]

/-- After ten silent clients the accept loop is blocked, and no handler is running. -/
theorem blocked_by_silent_clients : ∃ taken final, ProxyRun "1234" taken final ∧
    final.listener.gate.keeper = .parked ∧ final.running = 0 ∧ ¬ Balanced final := by
  let events := (List.range 10).flatMap silentClient ++ [.accept true, .enter]
  have idle : (outcome step (start "1234") events).running = 0 := by decide
  have count : (outcome step (start "1234") events).listener.numConnections = 10 := by decide
  refine ⟨_, _, run_trace step (start "1234") events, by decide, idle, fun balanced => ?_⟩
  have right := balanced.count
  rw [idle, count] at right
  cases right

def aGet : Request := ⟨"GET", "http://b:80/", "b:80", "HTTP/1.1", 1, 1, []⟩

/-- A client whose server does not answer the dial. -/
def unreachableServer (k : Nat) : List Event :=
  [.accept true, .enter, .check k, .read k (some aGet), .forward k ⟨"a:1234", false, false, none⟩, .leave k]

theorem balanced_with_unreachable_servers :
    (trace step (start "1234") ((List.range 12).flatMap unreachableServer)).length = 72 ∧
      Balanced (outcome step (start "1234") ((List.range 12).flatMap unreachableServer)) :=
  ⟨by decide, (balanced_iff_returns_at_end (run_trace _ _ _)).mpr (by decide)⟩

end Proxy

end Tda596Labs.Http
