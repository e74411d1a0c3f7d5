import Tda596Labs.Labrpc.Network

/-! # What a call is worth

A `Call` that returns true has been handled exactly once, with its own arguments, and returns what the handler
returned; after that the server was still there.  One that returns false may have been handled once, or may
still be.  With a reliable network and a server that stays, no call returns false, and every call returns unless
its handler does not.
-/

namespace Tda596Labs.Labrpc

open Transition

variable {End Name Srv Args Reply St : Type}

/-- The handler of call `k` runs. -/
def Event.executes (k : Nat) : Event End Name Srv Args Reply St → Bool
  | .execute j => j = k
  | _ => false

/-- A step of call `k` that is not a tick of its timer. -/
def Event.advances (k : Nat) : Event End Name Srv Args Reply St → Bool
  | .tick _ => false
  | e => e.site = some k

def Handler.runs : Handler Srv Reply → Nat
  | .finished _ _ => 1
  | _ => 0

def Handler.reply : Handler Srv Reply → Option Reply
  | .finished _ reply => some reply
  | _ => none

/-- The reply that a call has after its server was found alive. -/
def Stage.carries : Stage Name Srv Reply → Option Reply
  | .passed _ reply => some reply
  | .replying reply | .returned reply => reply
  | _ => none

/-- The handler goroutine that belongs to a stage. -/
def Stage.Fits : Stage Name Srv Reply → Handler Srv Reply → Prop
  | .sending, handler | .accepted, handler | .unreachable, handler | .routed _, handler => handler = .idle
  | .waiting route, handler | .left route none, handler =>
    handler = .running route.server ∨ ∃ reply, handler = .finished route.server reply
  | .left route (some reply), handler | .passed route reply, handler => handler = .finished route.server reply
  | .replying (some reply), handler | .returned (some reply), handler => ∃ server, handler = .finished server reply
  | .replying none, _ | .returned none, _ => True

/-- How many steps a call can still make. -/
def Stage.remaining : Stage Name Srv Reply → Nat
  | .sending => 8
  | .accepted => 7
  | .routed _ => 6
  | .waiting _ => 4
  | .left _ _ => 3
  | .passed _ _ | .unreachable => 2
  | .replying _ => 1
  | .returned _ => 0

def Handler.remaining : Handler Srv Reply → Nat
  | .running _ => 1
  | _ => 0

def Call.remaining (call : Call End Name Srv Args Reply) : Nat := call.stage.remaining + call.handler.remaining

/-- In this transition the handler of call `k` ran at the server and made the reply. -/
structure Ran (k : Nat) (svcMeth : String) (args : Args) (server : Srv) (reply : Reply)
    (τ : Network.Record End Name Srv Args Reply St) : Prop where
  event : τ.event = .execute k
  handled : dispatch (τ.before.services server) svcMeth (τ.before.rcvrs server) args =
    some (τ.after.rcvrs server, reply)

/-- In this transition the server was found under its name, and the end enabled. -/
structure FoundAlive (k : Nat) (endname : End) (server : Srv) (τ : Network.Record End Name Srv Args Reply St) :
    Prop where
  event : τ.event = .check k
  enabled : τ.before.enabled endname = true
  server : ∃ servername, τ.before.servers servername = some server

/-- The handler of call `k` ran at the server and made the reply, and then the server was found alive. -/
def Confirmed (taken : List (Network.Record End Name Srv Args Reply St)) (k : Nat)
    (call : Call End Name Srv Args Reply) (server : Srv) (reply : Reply) : Prop :=
  ∃ earlier τ between τ' later, taken = earlier ++ τ :: (between ++ τ' :: later) ∧
    Ran k call.svcMeth call.args server reply τ ∧ FoundAlive k call.endname server τ'

/-- What a run says about one of its calls. -/
structure Account (taken : List (Network.Record End Name Srv Args Reply St))
    (exited : Bool) (k : Nat) (call : Call End Name Srv Args Reply) : Prop where
  atMost : taken.countP (fun τ => τ.event.executes k) ≤ 1
  exactly : exited = false → taken.countP (fun τ => τ.event.executes k) = call.handler.runs
  ran : ∀ server reply, call.handler = .finished server reply →
    ∃ τ ∈ taken, Ran k call.svcMeth call.args server reply τ
  fits : call.stage.Fits call.handler
  confirmed : ∀ reply, call.stage.carries = some reply → ∃ server, Confirmed taken k call server reply
  advanced : taken.countP (fun τ => τ.event.advances k) + (if exited then 0 else call.remaining) ≤ 8

/-! ## Accounts -/

section Accounts

variable {taken : List (Network.Record End Name Srv Args Reply St)} {τ : Network.Record End Name Srv Args Reply St}
  {net next : Network End Name Srv Args Reply St} {e : Event End Name Srv Args Reply St} {k : Nat}
  {call call' : Call End Name Srv Args Reply} {server : Srv} {reply : Reply}

theorem Confirmed.snoc (confirmed : Confirmed taken k call server reply)
    (τ : Network.Record End Name Srv Args Reply St) : Confirmed (taken ++ [τ]) k call server reply := by
  obtain ⟨earlier, τ₁, between, τ₂, later, rfl, ran, alive⟩ := confirmed
  exact ⟨earlier, τ₁, between, τ₂, later ++ [τ], by simp, ran, alive⟩

/-- A handler that ran, and a server found alive now. -/
theorem Confirmed.of_ran {τ' : Network.Record End Name Srv Args Reply St} (inside : τ ∈ taken)
    (ran : Ran k call.svcMeth call.args server reply τ) (alive : FoundAlive k call.endname server τ') :
    Confirmed (taken ++ [τ']) k call server reply := by
  obtain ⟨earlier, later, rfl⟩ := List.append_of_mem inside
  exact ⟨earlier, τ, later, τ', [], by simp, ran, alive⟩

theorem countP_snoc (p : Event End Name Srv Args Reply St → Bool) :
    (taken ++ [τ]).countP (fun τ => p τ.event) =
      taken.countP (fun τ => p τ.event) + (if p τ.event then 1 else 0) := by
  simp [List.countP_append, List.countP_singleton]

/-- A step that is not one of call `k` leaves its account as it is. -/
theorem Account.other (account : Account taken false k call) (executes : τ.event.executes k = false)
    (advances : τ.event.advances k = false) (exited : Bool) : Account (taken ++ [τ]) exited k call where
  atMost := by simpa [countP_snoc (Event.executes k), executes] using account.atMost
  exactly _ := by simpa [countP_snoc (Event.executes k), executes] using account.exactly rfl
  ran server reply finished := by
    obtain ⟨τ', inside, ran⟩ := account.ran server reply finished
    exact ⟨τ', List.mem_append_left _ inside, ran⟩
  fits := account.fits
  confirmed reply carries := by
    obtain ⟨server, confirmed⟩ := account.confirmed reply carries
    exact ⟨server, confirmed.snoc _⟩
  advanced := by
    have bound := account.advanced
    rw [countP_snoc (Event.advances k), advances]
    simp only [Bool.false_eq_true, if_false] at bound ⊢
    split <;> omega

theorem Stage.Fits.finished {stage : Stage Name Srv Reply} (fits : stage.Fits (.running server)) (reply : Reply) :
    stage.Fits (.finished server reply) ∧ stage.carries = none := by
  cases stage with
  | waiting route =>
    obtain same | ⟨_, same⟩ := fits <;> cases same
    exact ⟨.inr ⟨reply, rfl⟩, rfl⟩
  | left route answer =>
    cases answer with
    | none =>
      obtain same | ⟨_, same⟩ := fits <;> cases same
      exact ⟨.inr ⟨reply, rfl⟩, rfl⟩
    | some _ => cases fits
  | replying answer | returned answer =>
    cases answer with
    | none => exact ⟨trivial, rfl⟩
    | some _ =>
      obtain ⟨_, same⟩ := fits
      cases same
  | _ => cases fits

theorem Account.counted (account : Account taken false k call) (running : call.handler = .running server)
    (event : τ.event = .execute k) : (taken ++ [τ]).countP (fun τ => τ.event.executes k) = 1 := by
  have executes : (Event.execute k : Event End Name Srv Args Reply St).executes k = true := by
    simp [Event.executes]
  rw [countP_snoc (Event.executes k), event, account.exactly rfl, running, executes]
  rfl

theorem Account.fatal (account : Account taken false k call) (running : call.handler = .running server)
    (event : τ.event = .execute k) : Account (taken ++ [τ]) true k call where
  atMost := Nat.le_of_eq (account.counted running event)
  exactly exited := by cases exited
  ran _ _ finished := by
    rw [running] at finished
    cases finished
  fits := account.fits
  confirmed reply carries := by
    obtain ⟨server, confirmed⟩ := account.confirmed reply carries
    exact ⟨server, confirmed.snoc _⟩
  advanced := by
    have bound := account.advanced
    simp only [Bool.false_eq_true, if_false, Call.remaining, running, Handler.remaining] at bound
    simp only [countP_snoc (Event.advances k), event, if_true]
    split <;> omega

theorem Account.execute (account : Account taken false k call) (running : call.handler = .running server)
    (ran : Ran k call.svcMeth call.args server reply τ) :
    Account (taken ++ [τ]) false k { call with handler := .finished server reply } := by
  have fits := account.fits
  rw [running] at fits
  have counted := account.counted running ran.event
  refine ⟨Nat.le_of_eq counted, fun _ => counted, fun _ _ same => ?_, (fits.finished reply).1, fun _ carries => ?_, ?_⟩
  · cases same
    exact ⟨τ, List.mem_append_right _ (List.mem_singleton.mpr rfl), ran⟩
  · rw [(fits.finished reply).2] at carries
    cases carries
  · have bound := account.advanced
    simp only [Bool.false_eq_true, if_false, Call.remaining, running, Handler.remaining] at bound ⊢
    simp only [countP_snoc (Event.advances k), ran.event]
    split <;> omega

/-- Every call has its account, and no call that has not been made has taken a step. -/
structure Accounts (taken : List (Network.Record End Name Srv Args Reply St))
    (net : Network End Name Srv Args Reply St) : Prop where
  made : ∀ k call, net.calls[k]? = some call → Account taken net.exited k call
  unmade : ∀ k, net.calls.length ≤ k → taken.countP (fun τ => τ.event.advances k) = 0 ∧
    taken.countP (fun τ => τ.event.executes k) = 0

/-- What is left to show of a step: the accounts of the calls it is a step of, or makes. -/
theorem Accounts.of_made {exited : Bool} (accounts : Accounts taken net) (ends : next.exited = exited)
    (length : net.calls.length ≤ next.calls.length)
    (own : ∀ j, net.calls.length ≤ j → e.executes j = false ∧ e.advances j = false)
    (made : ∀ j call, next.calls[j]? = some call → Account (taken ++ [⟨net, e, next⟩]) exited j call) :
    Accounts (taken ++ [⟨net, e, next⟩]) next where
  made := ends ▸ made
  unmade j beyond := by
    have unmade := Nat.le_trans length beyond
    obtain ⟨executes, advances⟩ := own j unmade
    obtain ⟨advanced, executed⟩ := accounts.unmade j unmade
    exact ⟨by simp [countP_snoc (Event.advances j), advances, advanced],
      by simp [countP_snoc (Event.executes j), executes, executed]⟩

theorem account_call (accounts : Accounts taken net) (endname : End) (svcMeth : String) (args : Args)
    (executes : τ.event.executes net.calls.length = false) (advances : τ.event.advances net.calls.length = false) :
    Account (taken ++ [τ]) false net.calls.length
      (⟨endname, svcMeth, args, .sending, .idle⟩ : Call End Name Srv Args Reply) := by
  obtain ⟨advanced, executed⟩ := accounts.unmade net.calls.length (Nat.le_refl _)
  have never : (taken ++ [τ]).countP (fun τ => τ.event.executes net.calls.length) = 0 := by
    rw [countP_snoc (Event.executes _), executes, executed]
    rfl
  refine ⟨?_, fun _ => never, fun _ _ finished => ?_, rfl, fun _ carries => ?_, ?_⟩
  · rw [never]
    exact Nat.zero_le 1
  · cases finished
  · cases carries
  · rw [countP_snoc (Event.advances _), advances, advanced]
    exact Nat.le_refl 8

theorem accounts_make (rcvrs : Srv → St) : Accounts [] (.make rcvrs : Network End Name Srv Args Reply St) where
  made _ _ found := by cases found
  unmade _ _ := ⟨rfl, rfl⟩

variable [DecidableEq Srv]

theorem isServerDead_eq_false {endname : End} {servername : Name}
    (alive : net.isServerDead endname servername server = false) :
    net.enabled endname = true ∧ net.servers servername = some server := by
  simpa [Network.isServerDead] using alive

theorem Progress.own (progress : Network.Progress net k call e call') :
    e.site = some k ∧ (∀ j, e.executes j = false) ∧ ∀ j, j ≠ k → e.advances j = false := by
  cases progress <;> simp [Event.site, Event.executes, Event.advances, eq_comm]

theorem Progress.fits (progress : Network.Progress net k call e call') (fits : call.stage.Fits call.handler) :
    call'.stage.Fits call'.handler := by
  cases progress with
  | accept stage | nowhere stage | route stage => rw [stage] at fits; exact fits
  | start => exact .inl rfl
  | receive waiting finished =>
    rw [waiting, finished] at fits
    obtain running | ⟨reply, same⟩ := fits
    · cases running
    · cases same
      exact finished
  | givesUp waiting => rw [waiting] at fits; exact fits
  | checked left => rw [left] at fits; exact fits
  | pass passed => rw [passed] at fits; exact ⟨_, fits⟩
  | @deliver reply replying =>
    rw [replying] at fits
    cases reply <;> exact fits
  | _ => trivial

theorem Progress.remaining (progress : Network.Progress net k call e call') : call'.remaining < call.remaining := by
  cases progress with
  | accept stage | refuse stage | route stage | nowhere stage | timeout stage | dropRequest stage
  | givesUp stage | checked stage | gone stage | dropReply stage | pass stage | deliver stage
  | receive stage => simp [Call.remaining, stage, Stage.remaining]
  | start stage =>
    simp only [Call.remaining, stage, Stage.remaining, Handler.remaining]
    omega

/-- A step of the call brings no reply that was not there, unless it finds the server alive. -/
theorem Progress.carries (progress : Network.Progress net k call e call') (carries : call'.stage.carries = some reply) :
    call.stage.carries = some reply ∨ ∃ route, call.stage = .left route (some reply) ∧ e = .check k ∧
      net.isServerDead call.endname route.servername route.server = false := by
  cases progress with
  | checked left alive =>
    obtain rfl := Option.some.inj carries
    exact .inr ⟨_, left, rfl, alive⟩
  | pass passed => exact .inl (by rw [passed]; exact carries)
  | deliver replying => exact .inl (by rw [replying]; exact carries)
  | _ => cases carries

theorem Account.progress (account : Account taken false k call) (progress : Network.Progress net k call e call') :
    Account (taken ++ [⟨net, e, next⟩]) false k call' := by
  obtain ⟨_, executes, _⟩ := Progress.own progress
  have sameCall : call'.endname = call.endname ∧ call'.svcMeth = call.svcMeth ∧ call'.args = call.args := by
    cases progress <;> exact ⟨rfl, rfl, rfl⟩
  obtain ⟨endname, svcMeth, args⟩ := sameCall
  have handler : call'.handler = call.handler ∨ (call.handler = .idle ∧ ∃ server, call'.handler = .running server) := by
    cases progress with
    | start routed =>
      have fits := account.fits
      rw [routed] at fits
      exact .inr ⟨fits, _, rfl⟩
    | _ => exact .inl rfl
  refine ⟨?_, fun _ => ?_, fun server reply finished => ?_, Progress.fits progress account.fits,
    fun reply carries => ?_, ?_⟩
  · simpa [countP_snoc (Event.executes k), executes] using account.atMost
  · have exactly := account.exactly rfl
    rw [countP_snoc (Event.executes k), executes]
    obtain same | ⟨idle, server, running⟩ := handler
    · simpa [same] using exactly
    · simpa [idle, running, Handler.runs] using exactly
  · obtain same | ⟨_, _, running⟩ := handler
    · obtain ⟨τ, inside, ran⟩ := account.ran server reply (same ▸ finished)
      exact ⟨τ, List.mem_append_left _ inside, by rw [svcMeth, args]; exact ran⟩
    · rw [running] at finished
      cases finished
  · obtain before | ⟨route, left, rfl, alive⟩ := Progress.carries progress carries
    · obtain ⟨server, confirmed⟩ := account.confirmed reply before
      refine ⟨server, ?_⟩
      rw [Confirmed, endname, svcMeth, args]
      exact confirmed.snoc _
    · have fits := account.fits
      rw [left] at fits
      obtain ⟨τ, inside, ran⟩ := account.ran _ _ fits
      obtain ⟨enabled, found⟩ := isServerDead_eq_false alive
      refine ⟨route.server, ?_⟩
      rw [Confirmed, endname, svcMeth, args]
      exact Confirmed.of_ran inside ran ⟨rfl, enabled, route.servername, found⟩
  · have bound := account.advanced
    have lower := Progress.remaining progress
    rw [countP_snoc (Event.advances k)]
    simp only [Bool.false_eq_true, if_false] at bound ⊢
    split <;> omega

variable [DecidableEq End] [DecidableEq Name]

theorem not_exited_of_step (moved : net.step e = some next) : net.exited = false := by
  cases exited : net.exited with
  | false => rfl
  | true => simp [Network.step, exited] at moved

theorem Accounts.step (accounts : Accounts taken net) (moved : net.step e = some next) :
    Accounts (taken ++ [⟨net, e, next⟩]) next := by
  have live := not_exited_of_step moved
  have made : ∀ {j : Nat} {call : Call End Name Srv Args Reply}, net.calls[j]? = some call →
      Account taken false j call := fun found => live ▸ accounts.made _ _ found
  cases Network.step_effect moved with
  | control outside _ calls =>
    have nobody : ∀ j, e.executes j = false ∧ e.advances j = false := by
      intro j
      cases e <;> simp_all [Event.site, Event.executes, Event.advances]
    refine accounts.of_made rfl (Nat.le_of_eq (congrArg List.length calls.symm)) (fun j _ => nobody j) fun j call found => ?_
    rw [calls] at found
    exact (made found).other (nobody j).1 (nobody j).2 _
  | call =>
    refine accounts.of_made live (by simp) (fun j _ => ⟨rfl, rfl⟩) fun j call found => ?_
    obtain old | ⟨beyond, new⟩ := Pool.found_of_append found
    · exact (made old).other rfl rfl _
    · obtain ⟨small, _⟩ := List.getElem?_eq_some_iff.mp new
      obtain rfl : j = net.calls.length := by
        rw [List.length_singleton] at small
        omega
      rw [Nat.sub_self] at new
      obtain rfl := Option.some.inj new
      exact account_call accounts _ _ _ rfl rfl
  | @progress _ k call call' _ found progress =>
    obtain ⟨_, executes, others⟩ := Progress.own progress
    have inside : k < net.calls.length := (List.getElem?_eq_some_iff.mp found).1
    refine accounts.of_made live (by simp [Network.setCall])
      (fun j beyond => ⟨executes j, others j (by omega)⟩) fun j other found' => ?_
    obtain ⟨rfl, rfl⟩ | ⟨different, old⟩ := Pool.found_of_set found'
    · exact (made found).progress progress
    · exact (made old).other (executes j) (others j different) _
  | idles =>
    refine accounts.of_made live (Nat.le_refl _) (fun j _ => ⟨rfl, rfl⟩) fun j call found => ?_
    exact (made found).other rfl rfl _
  | @execute k call server found running =>
    have inside : k < net.calls.length := (List.getElem?_eq_some_iff.mp found).1
    have others : ∀ j, j ≠ k → (Event.execute k : Event End Name Srv Args Reply St).executes j = false ∧
        (Event.execute k : Event End Name Srv Args Reply St).advances j = false := by
      intro j different
      simp [Event.executes, Event.advances, Event.site, Ne.symm different]
    cases handled : dispatch (net.services server) call.svcMeth (net.rcvrs server) call.args with
    | none =>
      rw [Network.execute_fatal handled]
      refine accounts.of_made rfl (Nat.le_refl _) (fun j beyond => others j (by omega)) fun j other found' => ?_
      by_cases same : j = k
      · subst same
        obtain rfl : call = other := Option.some.inj (found.symm.trans found')
        exact (made found).fatal running rfl
      · exact (made found').other (others j same).1 (others j same).2 _
    | some result =>
      rw [Network.execute_handled handled]
      refine accounts.of_made live (by simp) (fun j beyond => others j (by omega)) fun j other found' => ?_
      obtain ⟨rfl, rfl⟩ | ⟨different, old⟩ := Pool.found_of_set found'
      · exact (made found).execute running ⟨rfl, by simp [handled]⟩
      · exact (made old).other (others j different).1 (others j different).2 _

theorem accounts_of_run {rcvrs : Srv → St} (run : Run Network.step (.make rcvrs) taken net) :
    Accounts taken net := by
  induction run with
  | nil => exact accounts_make rcvrs
  | snoc _ moved ih => exact ih.step moved

/-- At most once: the handler of a call runs at most once in any run, and a call that returned true has been
handled, with its own arguments, has the reply of its handler, and after the handler had ended the server was
still installed and the end enabled. -/
theorem at_most_once {rcvrs : Srv → St} (run : Run Network.step (.make rcvrs) taken net) (k : Nat) :
    taken.countP (fun τ => τ.event.executes k) ≤ 1 ∧
      ∀ call reply, net.calls[k]? = some call → call.stage = .returned (some reply) →
        ∃ server, Confirmed taken k call server reply := by
  have accounts := accounts_of_run run
  constructor
  · by_cases made : k < net.calls.length
    · exact (accounts.made k _ (List.getElem?_eq_getElem made)).atMost
    · rw [(accounts.unmade k (Nat.le_of_not_lt made)).2]
      exact Nat.zero_le 1
  · intro call reply found returned
    exact (accounts.made k call found).confirmed reply (by rw [returned]; rfl)

end Accounts

/-- A server that adds up, behind an enabled end, and a call to it. -/
def oneCall : List (Event Nat Nat Unit Nat Nat Nat) :=
  [.makeEnd 0, .connect 0 7,
    .addService () "Counter" (fun name => if name = "Add" then some fun sum n => some (sum + n, sum + n) else none),
    .addServer 7 (), .enable 0 true, .call 0 "Counter.Add" 5]

/-- What happens to the call where nothing is lost. -/
def wholeCall : List (Event Nat Nat Unit Nat Nat Nat) :=
  [.accept 0, .route 0, .start 0, .execute 0, .receive 0, .check 0, .pass 0, .deliver 0]

theorem oneCall_handled :
    (trace Network.step (.make fun _ => 10) (oneCall ++ wholeCall)).countP (fun τ => τ.event.executes 0) ≤ 1 ∧
      ∃ server, Confirmed (trace Network.step (.make fun _ => 10) (oneCall ++ wholeCall)) 0
        ⟨0, "Counter.Add", 5, .returned (some 15), .finished () 15⟩ server 15 := by
  have once := at_most_once (run_trace Network.step (.make fun _ => 10) (oneCall ++ wholeCall)) 0
  exact ⟨once.1, once.2 _ 15 (by decide +kernel) rfl⟩

/-! ## Calls that succeed -/

section Success

variable {taken : List (Network.Record End Name Srv Args Reply St)}
  {net next : Network End Name Srv Args Reply St} {e : Event End Name Srv Args Reply St} {k : Nat}
  {call : Call End Name Srv Args Reply}

/-- Nothing stands between the end and the server. -/
structure Up (endname : End) (servername : Name) (server : Srv) (net : Network End Name Srv Args Reply St) : Prop where
  reliable : net.reliable = true
  enabled : net.enabled endname = true
  connected : net.connections endname = some servername
  installed : net.servers servername = some server
  isOpen : net.closed = false

instance instDecidableUp [DecidableEq Name] [DecidableEq Srv] (endname : End) (servername : Name) (server : Srv)
    (net : Network End Name Srv Args Reply St) : Decidable (Up endname servername server net) :=
  decidable_of_iff (net.reliable = true ∧ net.enabled endname = true ∧ net.connections endname = some servername ∧
      net.servers servername = some server ∧ net.closed = false)
    ⟨fun up => ⟨up.1, up.2.1, up.2.2.1, up.2.2.2.1, up.2.2.2.2⟩,
      fun up => ⟨up.reliable, up.enabled, up.connected, up.installed, up.isOpen⟩⟩

/-- The stages of a call that has met no failure on its way to the server. -/
def Stage.Unfailed (servername : Name) (server : Srv) : Stage Name Srv Reply → Prop
  | .sending | .accepted => True
  | .routed route | .waiting route | .left route (some _) | .passed route _ => route = ⟨servername, server, true⟩
  | .replying (some _) | .returned (some _) => True
  | _ => False

def callRemaining (k : Nat) (net : Network End Name Srv Args Reply St) : Nat :=
  ((net.calls[k]?).map Call.remaining).getD 0

theorem callRemaining_eq (found : net.calls[k]? = some call) : callRemaining k net = call.remaining := by
  simp [callRemaining, found]

variable [DecidableEq End] [DecidableEq Name] [DecidableEq Srv]

/-- What a step does to call `k`: nothing, a step of its own, or its handler runs. -/
theorem step_call (found : net.calls[k]? = some call) (moved : net.step e = some next) :
    ∃ call', next.calls[k]? = some call' ∧ (call' = call ∨ Network.Progress net k call e call' ∨
      ∃ server reply, call.handler = .running server ∧
        call' = { call with handler := .finished server reply }) := by
  cases Network.step_effect moved with
  | control _ _ calls => exact ⟨call, by rw [calls]; exact found, .inl rfl⟩
  | call => exact ⟨call, Pool.found_append found _, .inl rfl⟩
  | @progress _ j other call' _ found' progress =>
    by_cases same : j = k
    · subst same
      obtain rfl : other = call := Option.some.inj (found'.symm.trans found)
      exact ⟨call', Pool.found_set_self found _, .inr (.inl progress)⟩
    · exact ⟨call, (List.getElem?_set_ne same).trans found, .inl rfl⟩
  | idles => exact ⟨call, found, .inl rfl⟩
  | @execute j other server found' running =>
    cases handled : dispatch (net.services server) other.svcMeth (net.rcvrs server) other.args with
    | none => exact ⟨call, by rw [Network.execute_fatal handled]; exact found, .inl rfl⟩
    | some result =>
      rw [Network.execute_handled handled]
      by_cases same : j = k
      · subst same
        obtain rfl : other = call := Option.some.inj (found'.symm.trans found)
        exact ⟨_, Pool.found_set_self found _, .inr (.inr ⟨server, _, running, rfl⟩)⟩
      · exact ⟨call, (List.getElem?_set_ne same).trans found, .inl rfl⟩

omit [DecidableEq End] [DecidableEq Name] in
theorem Up.isServerDead {endname : End} {servername : Name} {server : Srv} (up : Up endname servername server net) :
    net.isServerDead endname servername server = false := by
  simp [Network.isServerDead, up.enabled, up.installed]

omit [DecidableEq End] [DecidableEq Name] in
theorem Progress.unfailed {call' : Call End Name Srv Args Reply} {servername : Name} {server : Srv}
    (progress : Network.Progress net k call e call') (up : Up call.endname servername server net)
    (unfailed : call.stage.Unfailed servername server) : call'.stage.Unfailed servername server := by
  have info : net.readEndnameInfo call.endname = some ⟨servername, server, true⟩ := by
    simp [Network.readEndnameInfo, up.enabled, up.connected, up.installed, up.reliable]
  cases progress with
  | accept => trivial
  | refuse _ closed => exact absurd (closed.symm.trans up.isOpen) (by simp)
  | route _ found => exact Option.some.inj (found.symm.trans info)
  | nowhere _ lost => exact absurd (lost.symm.trans info) (by simp)
  | timeout stage =>
    rw [stage] at unfailed
    exact unfailed
  | dropRequest stage unreliable | dropReply stage unreliable =>
    rw [stage] at unfailed
    obtain rfl := unfailed
    cases unreliable
  | start stage | receive stage | checked stage =>
    rw [stage] at unfailed
    exact unfailed
  | givesUp stage dead =>
    rw [stage] at unfailed
    obtain rfl := unfailed
    exact absurd (dead.symm.trans up.isServerDead) (by simp)
  | @gone _ reply stage dead =>
    rw [stage] at unfailed
    cases reply with
    | none => exact unfailed
    | some reply =>
      obtain rfl := unfailed
      obtain missing | dead := dead
      · cases missing
      · exact absurd (dead.symm.trans up.isServerDead) (by simp)
  | pass => trivial
  | @deliver reply stage =>
    rw [stage] at unfailed
    cases reply <;> exact unfailed

/-- Call `k` goes through the end and has met no failure. -/
def Unfailing (k : Nat) (endname : End) (servername : Name) (server : Srv)
    (net : Network End Name Srv Args Reply St) : Prop :=
  ∃ call, net.calls[k]? = some call ∧ call.endname = endname ∧ call.stage.Unfailed servername server

theorem Unfailing.step {endname : End} {servername : Name} {server : Srv}
    (unfailing : Unfailing k endname servername server net) (up : Up endname servername server net)
    (moved : net.step e = some next) : Unfailing k endname servername server next := by
  obtain ⟨call, found, rfl, unfailed⟩ := unfailing
  obtain ⟨after, found', rfl | progress | ⟨_, _, _, rfl⟩⟩ := step_call found moved
  · exact ⟨after, found', rfl, unfailed⟩
  · refine ⟨after, found', ?_, Progress.unfailed progress up unfailed⟩
    cases progress <;> rfl
  · exact ⟨_, found', rfl, unfailed⟩

/-- A call made through an enabled end to a server that stays, over a network that is reliable and not cleaned up,
does not return false, whatever happens to other ends, servers and calls. -/
theorem call_succeeds {servername : Name} {server : Srv} (found : net.calls[k]? = some call)
    (fresh : call.stage = .sending) {final : Network End Name Srv Args Reply St}
    (run : Run Network.step net taken final)
    (up : AllMeet (fun net _ => Up call.endname servername server net) taken) :
    ∃ call', final.calls[k]? = some call' ∧ call'.stage ≠ .returned none := by
  have start : Unfailing k call.endname servername server net := ⟨call, found, rfl, by rw [fresh]; trivial⟩
  obtain ⟨call', found', _, unfailed⟩ :=
    run.invariant up start fun _ _ _ unfailing up moved => unfailing.step up moved
  refine ⟨call', found', fun returned => ?_⟩
  rw [returned] at unfailed
  exact unfailed

/-- The call is under way while the end of another process is made. -/
theorem oneCall_unfailed :
    ∃ call', (outcome Network.step (outcome Network.step (.make fun _ => 10) oneCall)
      (.makeEnd 1 :: wholeCall)).calls[0]? = some call' ∧ call'.stage ≠ .returned none := by
  have found : (outcome Network.step (.make fun _ => 10) oneCall).calls[0]? =
      some ⟨0, "Counter.Add", 5, .sending, .idle⟩ := by decide +kernel
  have up : AllMeet (fun net _ => Up 0 7 () net)
      (trace Network.step (outcome Network.step (.make fun _ => 10) oneCall) (.makeEnd 1 :: wholeCall)) := by
    decide +kernel
  exact call_succeeds found rfl (run_trace Network.step _ (.makeEnd 1 :: wholeCall)) up

/-! ## Calls that return -/

/-- The server that a call still needs: the one its handler runs at or, before that, the one it is routed to or
its end leads to. -/
def needs (net : Network End Name Srv Args Reply St) (call : Call End Name Srv Args Reply) : Option Srv :=
  match call.handler with
  | .running server => some server
  | .finished _ _ => none
  | .idle =>
    match call.stage with
    | .sending | .accepted => (net.readEndnameInfo call.endname).map (·.server)
    | .routed route => some route.server
    | _ => none

/-- The server that the call needs has the method, and the method ends. -/
def Handled (net : Network End Name Srv Args Reply St) (call : Call End Name Srv Args Reply) : Prop :=
  ∀ server ∈ needs net call, (dispatch (net.services server) call.svcMeth (net.rcvrs server) call.args).isSome = true

omit [DecidableEq End] [DecidableEq Name] in
/-- A step of the call makes it need no other server. -/
theorem Progress.needs {call' : Call End Name Srv Args Reply} (progress : Network.Progress net k call e call')
    (fits : call.stage.Fits call.handler) {server : Srv} (needed : server ∈ Labrpc.needs net call') :
    server ∈ Labrpc.needs net call := by
  -- where the handler was started before, the stage does not count
  have started : call'.handler = call.handler → call.handler ≠ .idle → server ∈ Labrpc.needs net call := by
    intro same started
    simp only [Labrpc.needs, same] at needed ⊢
    cases handler : call.handler with
    | idle => exact absurd handler started
    | running | finished => rwa [handler] at needed
  cases progress with
  | accept stage =>
    simp only [Labrpc.needs, stage] at needed ⊢
    exact needed
  | route stage info =>
    simp only [Labrpc.needs, stage, info, Option.map_some] at needed ⊢
    exact needed
  | start stage =>
    rw [stage] at fits
    have idle : call.handler = .idle := fits
    simp only [Labrpc.needs, stage, idle] at needed ⊢
    exact needed
  | _ =>
    refine started rfl fun idle => ?_
    simp [Labrpc.needs, idle] at needed

/-- Call `k` can go on. -/
structure Underway (k : Nat) (net : Network End Name Srv Args Reply St) : Prop where
  live : net.exited = false
  served : net.looping = true ∨ net.closed = true
  made : ∃ call, net.calls[k]? = some call ∧ call.stage.Fits call.handler ∧ Handled net call

/-- Every step of the call but an idle tick brings it nearer to its end. -/
theorem Underway.step (underway : Underway k net) (own : e.advances k = true) (moved : net.step e = some next) :
    Underway k next ∧ callRemaining k next < callRemaining k net := by
  obtain ⟨live, served, call, found, fits, handled⟩ := underway
  cases Network.step_effect moved with
  | control outside =>
    cases e <;> simp_all [Event.advances, Event.site]
  | call => simp [Event.advances, Event.site] at own
  | @progress _ j other call' _ found' progress =>
    obtain ⟨_, _, others⟩ := Progress.own progress
    obtain rfl : k = j := by
      by_contra different
      rw [others k different] at own
      cases own
    obtain rfl : other = call := Option.some.inj (found'.symm.trans found)
    have after : (net.calls.set k call')[k]? = some call' := Pool.found_set_self found _
    have same : call'.svcMeth = other.svcMeth ∧ call'.args = other.args := by
      cases progress <;> exact ⟨rfl, rfl⟩
    refine ⟨⟨live, served, call', after, Progress.fits progress fits, fun server needed => ?_⟩, ?_⟩
    · rw [same.1, same.2]
      exact handled server (Progress.needs progress fits needed)
    · rw [callRemaining_eq found, callRemaining_eq after]
      exact Progress.remaining progress
  | idles => cases own
  | @execute j other server found' running =>
    obtain rfl : j = k := by simpa [Event.advances, Event.site] using own
    obtain rfl : other = call := Option.some.inj (found'.symm.trans found)
    obtain ⟨result, replies⟩ := Option.isSome_iff_exists.mp (handled server (by simp [needs, running]))
    rw [Network.execute_handled replies]
    have after : (net.calls.set j { other with handler := .finished server result.2 })[j]? = some _ :=
      Pool.found_set_self found _
    rw [running] at fits
    refine ⟨⟨live, served, _, after, (fits.finished _).1, fun server needed => ?_⟩, ?_⟩
    · -- a handler that has ended needs no server
      cases needed
    · rw [callRemaining_eq found, callRemaining_eq after, Call.remaining, Call.remaining, running]
      exact Nat.lt_succ_self _

/-- A call that has not returned can make a step. -/
theorem Underway.enabled (underway : Underway k net) (found : net.calls[k]? = some call)
    (pending : ∀ reply, call.stage ≠ .returned reply) :
    ∃ e next, e.advances k = true ∧ net.step e = some next := by
  obtain ⟨live, served, other, found', fits, _⟩ := underway
  obtain rfl : other = call := Option.some.inj (found'.symm.trans found)
  have takes : ∀ e : Event End Name Srv Args Reply St, e.advances k = true → e.site = some k →
      (net.callStep k other e).isSome = true → ∃ e next, e.advances k = true ∧ net.step e = some next := by
    intro e own site runs
    obtain ⟨next, ran⟩ := Option.isSome_iff_exists.mp runs
    exact ⟨e, next, own, by simp [Network.step, live, site, found, ran]⟩
  cases stage : other.stage with
  | sending =>
    obtain looping | closed := served
    · exact takes (.accept k) (decide_eq_true rfl) rfl (by simp [Network.callStep, stage, looping])
    · exact takes (.refuse k) (decide_eq_true rfl) rfl (by simp [Network.callStep, stage, closed])
  | accepted => exact takes (.route k) (decide_eq_true rfl) rfl (by simp [Network.callStep, stage])
  | unreachable => exact takes (.timeout k) (decide_eq_true rfl) rfl (by simp [Network.callStep, stage])
  | routed => exact takes (.start k) (decide_eq_true rfl) rfl (by simp [Network.callStep, stage])
  | waiting route =>
    rw [stage] at fits
    obtain running | ⟨reply, finished⟩ := fits
    · exact takes (.execute k) (decide_eq_true rfl) rfl (by simp [Network.callStep, running])
    · exact takes (.receive k) (decide_eq_true rfl) rfl (by simp [Network.callStep, stage, finished])
  | left route reply =>
    refine takes (.check k) (decide_eq_true rfl) rfl ?_
    cases reply <;> simp only [Network.callStep, stage]
    · rfl
    · split <;> rfl
  | passed => exact takes (.pass k) (decide_eq_true rfl) rfl (by simp [Network.callStep, stage])
  | replying => exact takes (.deliver k) (decide_eq_true rfl) rfl (by simp [Network.callStep, stage])
  | returned reply => exact absurd stage (pending reply)

/-- Requests are accepted or the network has been cleaned up. -/
def Served (net : Network End Name Srv Args Reply St) : Prop := net.looping = true ∨ net.closed = true

theorem Served.step (served : Served net) (moved : net.step e = some next) : Served next := by
  cases Network.step_effect moved with
  | control outside moved =>
    cases e with
    | loopEnds =>
      simp only [Network.control, Option.ite_none_right_eq_some, Bool.and_eq_true] at moved
      obtain ⟨⟨closed, _⟩, same⟩ := moved
      cases same
      exact .inr closed
    | makeEnd =>
      simp only [Network.control] at moved
      split at moved <;> cases moved <;> exact served
    | cleanup =>
      simp only [Network.control] at moved
      split at moved <;> cases moved
      · exact served
      · exact .inr rfl
    | call =>
      simp only [Network.control, Option.ite_none_right_eq_some] at moved
      obtain ⟨_, same⟩ := moved
      cases same
      exact served
    | connect | enable | addService | addServer | deleteServer | setReliable =>
      cases moved
      exact served
    | _ => cases outside
  | call | progress | idles => exact served
  | @execute k call server =>
    cases handled : dispatch (net.services server) call.svcMeth (net.rcvrs server) call.args with
    | none => rw [Network.execute_fatal handled]; exact served
    | some result => rw [Network.execute_handled handled]; exact served

theorem served_of_run {rcvrs : Srv → St} (run : Run Network.step (.make rcvrs) taken net) : Served net := by
  have all : AllMeet (fun _ _ => True) taken := fun _ _ => trivial
  have start : Served (.make rcvrs : Network End Name Srv Args Reply St) := .inl rfl
  exact run.invariant all start fun _ _ _ served _ moved => served.step moved

/-- Every call that its server can handle returns: in any state that a run reaches it can come to its end by steps
of its own, and apart from ticks of its timer it never makes more than eight. -/
theorem calls_return {rcvrs : Srv → St} (run : Run Network.step (.make rcvrs) taken net)
    (live : net.exited = false) (found : net.calls[k]? = some call) (handled : Handled net call) :
    taken.countP (fun τ => τ.event.advances k) ≤ 8 ∧
      ∃ later final returned reply, Run Network.step net later final ∧
        AllMeet (fun _ e => e.advances k = true) later ∧ final.calls[k]? = some returned ∧
        returned.stage = .returned reply := by
  have account := (accounts_of_run run).made k call found
  refine ⟨Nat.le_trans (Nat.le_add_right _ _) account.advanced, ?_⟩
  have underway : Underway k net := ⟨live, served_of_run run, call, found, account.fits, handled⟩
  have descends : ∀ net : Network End Name Srv Args Reply St, Underway k net →
      ¬ (∃ returned reply, net.calls[k]? = some returned ∧ returned.stage = .returned reply) →
      ∃ e next, e.advances k = true ∧ net.step e = some next ∧ Underway k next ∧
        callRemaining k next < callRemaining k net := by
    intro net underway pending
    obtain ⟨call', found', _⟩ := underway.made
    obtain ⟨e, next, own, moved⟩ := underway.enabled found'
      fun reply returned => pending ⟨call', reply, found', returned⟩
    exact ⟨e, next, own, moved, underway.step own moved⟩
  obtain ⟨later, final, onward, own, returned, reply, found', stage⟩ :=
    exists_run_of_descent (callRemaining k) descends underway
  exact ⟨later, final, returned, reply, onward, own, found', stage⟩

end Success

theorem oneCall_returns :
    ∃ later final returned reply,
      Run Network.step (outcome Network.step (.make fun _ => 10) oneCall) later final ∧
        AllMeet (fun _ e => e.advances 0 = true) later ∧ final.calls[0]? = some returned ∧
        returned.stage = .returned reply := by
  have found : (outcome Network.step (.make fun _ => 10) oneCall).calls[0]? =
      some ⟨0, "Counter.Add", 5, .sending, .idle⟩ := by decide +kernel
  have handled : Handled (outcome Network.step (.make fun _ => 10) oneCall) ⟨0, "Counter.Add", 5, .sending, .idle⟩ :=
    fun _ _ => by rfl
  exact (calls_return (run_trace Network.step (.make fun _ => 10) oneCall) (by decide +kernel) found handled).2

end Tda596Labs.Labrpc
