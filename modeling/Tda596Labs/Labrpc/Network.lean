import Tda596Labs.Lib.Transition
import Tda596Labs.Lib.Pool
import Mathlib.Logic.Function.Basic

/-! # The simulated network

`labrpc` connects client ends to servers through one network that can lose requests and replies, delay them,
and cut off ends and servers.  `ClientEnd.Call` sends its request to the network and waits; for every request
the network runs `processReq`, which starts the handler in a goroutine of its own and stops waiting for it when
the server is gone.  Each section of code between two locks or channel operations is one event; what
`math/rand` decides, the event decides.  Arguments and replies are values, as `labgob` copies them.
-/

namespace Tda596Labs.Labrpc

open Transition

/-! ## Calls -/

/-- What `readEndnameInfo` returns for an end that leads to a server. -/
structure Route (Name Srv : Type) where
  servername : Name
  server : Srv
  reliable : Bool
  deriving DecidableEq

/-- Where a `Call` stands, with the goroutine `processReq` that works for it.  A reply of `none` is a message
with `ok` false. -/
inductive Stage (Name Srv Reply : Type) where
  /-- at the `select` that sends the request -/
  | sending
  /-- at the head of `processReq` -/
  | accepted
  /-- the end leads nowhere: the reply is sent by a timer -/
  | unreachable
  | routed (route : Route Name Srv)
  /-- in the loop that waits for the handler -/
  | waiting (route : Route Name Srv)
  /-- past the loop, with the reply if there is one -/
  | left (route : Route Name Srv) (reply : Option Reply)
  /-- the server has been found alive -/
  | passed (route : Route Name Srv) (reply : Reply)
  | replying (reply : Option Reply)
  /-- `Call` has returned -/
  | returned (reply : Option Reply)
  deriving DecidableEq

/-- The goroutine that calls `dispatch`. -/
inductive Handler (Srv Reply : Type) where
  | idle
  | running (server : Srv)
  | finished (server : Srv) (reply : Reply)
  deriving DecidableEq

structure Call (End Name Srv Args Reply : Type) where
  endname : End
  svcMeth : String
  args : Args
  stage : Stage Name Srv Reply
  handler : Handler Srv Reply
  deriving DecidableEq

/-- A method of a service: it changes the receiver and makes a reply.  A method that panics, as the reflected call
of one does with arguments of another type, ends the process. -/
abbrev Method (Args Reply St : Type) := St → Args → Option (St × Reply)

/-- The services of a server, by name, with their methods, by name. -/
abbrev Services (Args Reply St : Type) := String → Option (String → Option (Method Args Reply St))

/-- `svcMeth[:dot]` and `svcMeth[dot+1:]`; without a dot the first of them is out of range. -/
def splitMethod (svcMeth : String) : Option (String × String) :=
  match svcMeth.toList.reverse.dropWhile (· ≠ '.') with
  | [] => none
  | _ :: front =>
    some (String.ofList front.reverse, String.ofList (svcMeth.toList.reverse.takeWhile (· ≠ '.')).reverse)

/-- The two `dispatch` functions and the method they find.  Where there is none the process ends. -/
def dispatch {Args Reply St : Type} (services : Services Args Reply St) (svcMeth : String) (rcvr : St) (args : Args) :
    Option (St × Reply) := do
  let (serviceName, methodName) ← splitMethod svcMeth
  let methods ← services serviceName
  let method ← methods methodName
  method rcvr args

/-! ## The network -/

structure Network (End Name Srv Args Reply St : Type) where
  reliable : Bool
  ends : End → Bool
  enabled : End → Bool
  connections : End → Option Name
  /-- a deleted server is `nil` -/
  servers : Name → Option Srv
  /-- `done` is closed; the goroutine that accepts requests still runs -/
  closed : Bool
  looping : Bool
  /-- the number of requests accepted -/
  count : Nat
  calls : List (Call End Name Srv Args Reply)
  /-- the server objects: services, number of requests dispatched, receiver -/
  services : Srv → Services Args Reply St
  counts : Srv → Nat
  rcvrs : Srv → St
  /-- `log.Fatalf` or a panic has ended the process -/
  exited : Bool

inductive Event (End Name Srv Args Reply St : Type) where
  | makeEnd (endname : End)
  | connect (endname : End) (servername : Name)
  | enable (endname : End) (enabled : Bool)
  | addService (server : Srv) (name : String) (methods : String → Option (Method Args Reply St))
  | addServer (servername : Name) (server : Srv)
  | deleteServer (servername : Name)
  | setReliable (yes : Bool)
  | cleanup
  /-- the goroutine that accepts requests finds `done` closed -/
  | loopEnds
  | call (endname : End) (svcMeth : String) (args : Args)
  /-- call `k` is sent, or finds `done` closed -/
  | accept (k : Nat)
  | refuse (k : Nat)
  | route (k : Nat)
  | timeout (k : Nat)
  | dropRequest (k : Nat)
  | start (k : Nat)
  /-- the handler runs -/
  | execute (k : Nat)
  /-- the loop gets the reply, or its timer fires -/
  | receive (k : Nat)
  | tick (k : Nat)
  | check (k : Nat)
  | dropReply (k : Nat)
  | pass (k : Nat)
  | deliver (k : Nat)

namespace Network

variable {End Name Srv Args Reply St : Type}

/-- `MakeNetwork`, with the server objects that will be added to it. -/
def make (rcvrs : Srv → St) : Network End Name Srv Args Reply St where
  reliable := true
  ends := fun _ => false
  enabled := fun _ => false
  connections := fun _ => none
  servers := fun _ => none
  closed := false
  looping := true
  count := 0
  calls := []
  services := fun _ _ => none
  counts := fun _ => 0
  rcvrs := rcvrs
  exited := false

def setCall (net : Network End Name Srv Args Reply St) (k : Nat) (call : Call End Name Srv Args Reply) :
    Network End Name Srv Args Reply St :=
  { net with calls := net.calls.set k call }

/-- Call `k` enters the stage. -/
def enter (net : Network End Name Srv Args Reply St) (k : Nat) (call : Call End Name Srv Args Reply)
    (stage : Stage Name Srv Reply) : Network End Name Srv Args Reply St :=
  net.setCall k { call with stage := stage }

variable [DecidableEq End] [DecidableEq Name] [DecidableEq Srv]

def isServerDead (net : Network End Name Srv Args Reply St) (endname : End) (servername : Name) (server : Srv) :
    Bool :=
  !net.enabled endname || net.servers servername ≠ some server

/-- `readEndnameInfo` and the test after it. -/
def readEndnameInfo (net : Network End Name Srv Args Reply St) (endname : End) : Option (Route Name Srv) :=
  if net.enabled endname then do
    let servername ← net.connections endname
    let server ← net.servers servername
    some ⟨servername, server, net.reliable⟩
  else none

/-- The handler of call `k` runs at a server. -/
def execute (net : Network End Name Srv Args Reply St) (k : Nat) (call : Call End Name Srv Args Reply)
    (server : Srv) : Network End Name Srv Args Reply St :=
  let net := { net with counts := Function.update net.counts server (net.counts server + 1) }
  match dispatch (net.services server) call.svcMeth (net.rcvrs server) call.args with
  | none => { net with exited := true }
  | some (rcvr, reply) =>
    { net with rcvrs := Function.update net.rcvrs server rcvr }.setCall k
      { call with handler := .finished server reply }

/-- The steps that `Call` and `processReq` make for call `k`. -/
def callStep (net : Network End Name Srv Args Reply St) (k : Nat) (call : Call End Name Srv Args Reply) :
    Event End Name Srv Args Reply St → Option (Network End Name Srv Args Reply St)
  | .accept _ =>
    match call.stage with
    | .sending => if net.looping then some { net.enter k call .accepted with count := net.count + 1 } else none
    | _ => none
  | .refuse _ =>
    match call.stage with
    | .sending => if net.closed then some (net.enter k call (.returned none)) else none
    | _ => none
  | .route _ =>
    match call.stage with
    | .accepted => some (net.enter k call (((net.readEndnameInfo call.endname).map Stage.routed).getD .unreachable))
    | _ => none
  | .timeout _ =>
    match call.stage with
    | .unreachable => some (net.enter k call (.replying none))
    | _ => none
  | .dropRequest _ =>
    match call.stage with
    | .routed route => if route.reliable then none else some (net.enter k call (.replying none))
    | _ => none
  | .start _ =>
    match call.stage with
    | .routed route => some (net.setCall k { call with stage := .waiting route, handler := .running route.server })
    | _ => none
  | .execute _ =>
    match call.handler with
    -- the handler may also run after `processReq` has given up on it
    | .running server => some (net.execute k call server)
    | _ => none
  | .receive _ =>
    match call.stage, call.handler with
    | .waiting route, .finished _ reply => some (net.enter k call (.left route (some reply)))
    | _, _ => none
  | .tick _ =>
    match call.stage with
    | .waiting route =>
      if net.isServerDead call.endname route.servername route.server then
        some (net.enter k call (.left route none))
      else some net
    | _ => none
  | .check _ =>
    match call.stage with
    | .left route (some reply) =>
      if net.isServerDead call.endname route.servername route.server then
        some (net.enter k call (.replying none))
      else some (net.enter k call (.passed route reply))
    | .left _ none => some (net.enter k call (.replying none))
    | _ => none
  | .dropReply _ =>
    match call.stage with
    | .passed route _ => if route.reliable then none else some (net.enter k call (.replying none))
    | _ => none
  | .pass _ =>
    -- at once, or from a timer
    match call.stage with
    | .passed _ reply => some (net.enter k call (.replying (some reply)))
    | _ => none
  | .deliver _ =>
    match call.stage with
    | .replying reply => some (net.enter k call (.returned reply))
    | _ => none
  | _ => none

end Network

/-- The call that an event is a step of. -/
def Event.site {End Name Srv Args Reply St : Type} : Event End Name Srv Args Reply St → Option Nat
  | .accept k | .refuse k | .route k | .timeout k | .dropRequest k | .start k | .execute k | .receive k
  | .tick k | .check k | .dropReply k | .pass k | .deliver k => some k
  | _ => none

namespace Network

variable {End Name Srv Args Reply St : Type} [DecidableEq End] [DecidableEq Name] [DecidableEq Srv]

/-- What the tests and the owner of the network do. -/
def control (net : Network End Name Srv Args Reply St) :
    Event End Name Srv Args Reply St → Option (Network End Name Srv Args Reply St)
  | .makeEnd endname =>
    if net.ends endname then some { net with exited := true }
    else some { net with
      ends := Function.update net.ends endname true
      enabled := Function.update net.enabled endname false
      connections := Function.update net.connections endname none }
  | .connect endname servername =>
    some { net with connections := Function.update net.connections endname (some servername) }
  | .enable endname enabled => some { net with enabled := Function.update net.enabled endname enabled }
  | .addService server name methods =>
    some { net with services :=
      Function.update net.services server (Function.update (net.services server) name (some methods)) }
  | .addServer servername server => some { net with servers := Function.update net.servers servername (some server) }
  | .deleteServer servername => some { net with servers := Function.update net.servers servername none }
  | .setReliable yes => some { net with reliable := yes }
  -- closing a channel a second time panics
  | .cleanup => if net.closed then some { net with exited := true } else some { net with closed := true }
  | .loopEnds => if net.closed && net.looping then some { net with looping := false } else none
  | .call endname svcMeth args =>
    if net.ends endname then
      some { net with calls := net.calls ++ [⟨endname, svcMeth, args, .sending, .idle⟩] }
    else none
  | _ => none

def step (net : Network End Name Srv Args Reply St) (e : Event End Name Srv Args Reply St) :
    Option (Network End Name Srv Args Reply St) :=
  if net.exited then none
  else
    match e.site with
    | some k => (net.calls[k]?).bind fun call => net.callStep k call e
    | none => net.control e

/-- A transition of the network. -/
abbrev Record (End Name Srv Args Reply St : Type) :=
  Taken (Network End Name Srv Args Reply St) (Event End Name Srv Args Reply St)

/-! ## What a step can do -/

section Execute

omit [DecidableEq End] [DecidableEq Name]

variable {net : Network End Name Srv Args Reply St} {call : Call End Name Srv Args Reply} {server : Srv}

theorem execute_fatal (unknown : dispatch (net.services server) call.svcMeth (net.rcvrs server) call.args = none)
    (k : Nat) :
    net.execute k call server =
      { net with
        counts := Function.update net.counts server (net.counts server + 1)
        exited := true } := by
  simp [execute, unknown]

theorem execute_handled {rcvr : St} {reply : Reply}
    (handled : dispatch (net.services server) call.svcMeth (net.rcvrs server) call.args = some (rcvr, reply))
    (k : Nat) :
    net.execute k call server =
      { net with
        counts := Function.update net.counts server (net.counts server + 1)
        rcvrs := Function.update net.rcvrs server rcvr
        calls := net.calls.set k { call with handler := .finished server reply } } := by
  simp [execute, setCall, handled]

end Execute

/-- What becomes of call `k` in a step of its own. -/
inductive Progress (net : Network End Name Srv Args Reply St) (k : Nat) (call : Call End Name Srv Args Reply) :
    Event End Name Srv Args Reply St → Call End Name Srv Args Reply → Prop where
  | accept (sending : call.stage = .sending) (looping : net.looping = true) :
      Progress net k call (.accept k) { call with stage := .accepted }
  | refuse (sending : call.stage = .sending) (closed : net.closed = true) :
      Progress net k call (.refuse k) { call with stage := .returned none }
  | route {route : Route Name Srv} (accepted : call.stage = .accepted)
      (found : net.readEndnameInfo call.endname = some route) :
      Progress net k call (.route k) { call with stage := .routed route }
  | nowhere (accepted : call.stage = .accepted) (lost : net.readEndnameInfo call.endname = none) :
      Progress net k call (.route k) { call with stage := .unreachable }
  | timeout (unreachable : call.stage = .unreachable) :
      Progress net k call (.timeout k) { call with stage := .replying none }
  | dropRequest {route : Route Name Srv} (routed : call.stage = .routed route)
      (unreliable : route.reliable = false) :
      Progress net k call (.dropRequest k) { call with stage := .replying none }
  | start {route : Route Name Srv} (routed : call.stage = .routed route) :
      Progress net k call (.start k) { call with stage := .waiting route, handler := .running route.server }
  | receive {route : Route Name Srv} {server : Srv} {reply : Reply} (waiting : call.stage = .waiting route)
      (finished : call.handler = .finished server reply) :
      Progress net k call (.receive k) { call with stage := .left route (some reply) }
  | givesUp {route : Route Name Srv} (waiting : call.stage = .waiting route)
      (dead : net.isServerDead call.endname route.servername route.server = true) :
      Progress net k call (.tick k) { call with stage := .left route none }
  | checked {route : Route Name Srv} {reply : Reply} (left : call.stage = .left route (some reply))
      (alive : net.isServerDead call.endname route.servername route.server = false) :
      Progress net k call (.check k) { call with stage := .passed route reply }
  | gone {route : Route Name Srv} {reply : Option Reply} (left : call.stage = .left route reply)
      (dead : reply = none ∨ net.isServerDead call.endname route.servername route.server = true) :
      Progress net k call (.check k) { call with stage := .replying none }
  | dropReply {route : Route Name Srv} {reply : Reply} (passed : call.stage = .passed route reply)
      (unreliable : route.reliable = false) :
      Progress net k call (.dropReply k) { call with stage := .replying none }
  | pass {route : Route Name Srv} {reply : Reply} (passed : call.stage = .passed route reply) :
      Progress net k call (.pass k) { call with stage := .replying (some reply) }
  | deliver {reply : Option Reply} (replying : call.stage = .replying reply) :
      Progress net k call (.deliver k) { call with stage := .returned reply }

/-- The step function read backwards. -/
inductive Effect (net : Network End Name Srv Args Reply St) :
    Event End Name Srv Args Reply St → Network End Name Srv Args Reply St → Prop where
  | control {e : Event End Name Srv Args Reply St} {next : Network End Name Srv Args Reply St}
      (outside : e.site = none) (moved : net.control e = some next) (calls : next.calls = net.calls) :
      Effect net e next
  | call {endname : End} {svcMeth : String} {args : Args} (made : net.ends endname = true) :
      Effect net (.call endname svcMeth args)
        { net with calls := net.calls ++ [⟨endname, svcMeth, args, .sending, .idle⟩] }
  | progress {e : Event End Name Srv Args Reply St} {k : Nat} {call call' : Call End Name Srv Args Reply}
      {count : Nat} (found : net.calls[k]? = some call) (progress : Progress net k call e call') :
      Effect net e { net.setCall k call' with count := count }
  | idles {k : Nat} {call : Call End Name Srv Args Reply} {route : Route Name Srv}
      (found : net.calls[k]? = some call) (waiting : call.stage = .waiting route)
      (alive : net.isServerDead call.endname route.servername route.server = false) :
      Effect net (.tick k) net
  | execute {k : Nat} {call : Call End Name Srv Args Reply} {server : Srv} (found : net.calls[k]? = some call)
      (running : call.handler = .running server) : Effect net (.execute k) (net.execute k call server)

section Inversion

variable {net next : Network End Name Srv Args Reply St} {e : Event End Name Srv Args Reply St} {k : Nat}
  {call : Call End Name Srv Args Reply}

theorem callStep_effect (found : net.calls[k]? = some call) (site : e.site = some k)
    (moved : net.callStep k call e = some next) : Effect net e next := by
  -- every step below changes nothing but the stage of the call
  have stage : ∀ {call' : Call End Name Srv Args Reply}, Progress net k call e call' →
      some (net.setCall k call') = some next → Effect net e next := by
    rintro call' progress same
    obtain rfl := Option.some.inj same
    show Effect net e { net.setCall k call' with count := net.count }
    exact .progress found progress
  cases e <;> cases site <;> simp only [callStep] at moved
  case accept =>
    split at moved
    · next sending =>
      split at moved
      · next looping =>
        obtain rfl := Option.some.inj moved
        exact .progress found (.accept sending looping)
      · cases moved
    · cases moved
  case refuse =>
    split at moved
    · next sending =>
      split at moved
      · next closed => exact stage (.refuse sending closed) moved
      · cases moved
    · cases moved
  case route =>
    split at moved
    · next accepted =>
      cases info : net.readEndnameInfo call.endname with
      | none =>
        rw [info] at moved
        exact stage (.nowhere accepted info) moved
      | some route =>
        rw [info] at moved
        exact stage (.route accepted info) moved
    · cases moved
  case timeout =>
    split at moved
    · next unreachable => exact stage (.timeout unreachable) moved
    · cases moved
  case dropRequest =>
    split at moved
    · next routed =>
      split at moved
      · cases moved
      · next unreliable => exact stage (.dropRequest routed (by simpa using unreliable)) moved
    · cases moved
  case start =>
    split at moved
    · next routed => exact stage (.start routed) moved
    · cases moved
  case execute =>
    split at moved
    · next running =>
      obtain rfl := Option.some.inj moved
      exact .execute found running
    · cases moved
  case receive =>
    split at moved
    · next waiting finished => exact stage (.receive waiting finished) moved
    · cases moved
  case tick =>
    split at moved
    · next waiting =>
      split at moved
      · next dead => exact stage (.givesUp waiting dead) moved
      · next alive =>
        obtain rfl := Option.some.inj moved
        exact .idles found waiting (by simpa using alive)
    · cases moved
  case check =>
    split at moved
    · next left =>
      split at moved
      · next dead => exact stage (.gone left (.inr dead)) moved
      · next alive => exact stage (.checked left (by simpa using alive)) moved
    · next left => exact stage (.gone left (.inl rfl)) moved
    · cases moved
  case dropReply =>
    split at moved
    · next passed =>
      split at moved
      · cases moved
      · next unreliable => exact stage (.dropReply passed (by simpa using unreliable)) moved
    · cases moved
  case pass =>
    split at moved
    · next passed => exact stage (.pass passed) moved
    · cases moved
  case deliver =>
    split at moved
    · next replying => exact stage (.deliver replying) moved
    · cases moved

theorem control_effect (outside : e.site = none) (moved : net.control e = some next) : Effect net e next := by
  cases e with
  | call endname svcMeth args =>
    simp only [control, Option.ite_none_right_eq_some] at moved
    obtain ⟨made, same⟩ := moved
    obtain rfl := Option.some.inj same
    exact .call made
  | makeEnd | cleanup =>
    refine .control outside moved ?_
    simp only [control] at moved
    split at moved <;> cases moved <;> rfl
  | loopEnds =>
    refine .control outside moved ?_
    simp only [control] at moved
    split at moved <;> cases moved
    rfl
  | connect | enable | addService | addServer | deleteServer | setReliable =>
    refine .control outside moved ?_
    cases moved
    rfl
  | _ => cases outside

theorem step_effect (moved : net.step e = some next) : Effect net e next := by
  simp only [step] at moved
  split at moved
  · cases moved
  · split at moved
    · next k site =>
      obtain ⟨call, found, moved⟩ := Option.bind_eq_some_iff.mp moved
      exact callStep_effect found site moved
    · next outside => exact control_effect outside moved

end Inversion

end Network

end Tda596Labs.Labrpc
