import Tda596Labs.Lib.Transition
import Tda596Labs.Http.Connections
import Mathlib.Logic.Function.Basic

/-! # The HTTP server

`httpserver.go`: a handler reads one request and answers it.  A `GET` opens a file and sends what it
reads from it, a `POST` truncates a file and copies the body of the request into it.  Handlers run at
the same time and share the files; each operation on a file is one step.

The body of a response is read while the response is written into a buffer; the buffer is then written on
the connection, as far as that goes within five seconds.
-/

namespace Tda596Labs.Http

open Transition

/-! ## Names -/

/-- The loop of `path.Ext`, over the path from its end, with the characters passed so far. -/
def extFrom : List Char → List Char → List Char
  | [], _ => []
  | char :: rest, passed =>
    if char = '/' then []
    else if char = '.' then '.' :: passed
    else extFrom rest (char :: passed)

/-- `path.Ext` -/
def ext (path : String) : List Char := extFrom path.toList.reverse []

/-- The name that `Stat` reports for a path. -/
def baseName (path : String) : String :=
  String.ofList (path.toList.reverse.takeWhile (· ≠ '/')).reverse

/-- The type that `performGet` gives to a file; `none`: the file is not served. -/
def contentType (requestURI : String) : Option String :=
  if ext requestURI = ['.', 'h', 't', 'm', 'l'] then some "text/html"
  else if ext requestURI = ['.', 't', 'x', 't'] then some "text/plain"
  else if ext requestURI = ['.', 'g', 'i', 'f'] then some "image/gif"
  else if ext requestURI = ['.', 'j', 'p', 'e', 'g'] then some "image/jpeg"
  else if ext requestURI = ['.', 'j', 'p', 'g'] then some "image/jpeg"
  else if ext requestURI = ['.', 'c', 's', 's'] then some "text/css"
  else none

/-- Where the server runs: its working directory, and the file that a path names. -/
structure Host (F : Type) where
  workingDir : String
  locate : String → F

/-- The file that a request is about. -/
def Host.file {F : Type} (host : Host F) (request : Request) : F :=
  host.locate (host.workingDir ++ request.requestURI)

def defaultResponse (request : Request) : Response where
  proto := request.proto
  protoMajor := request.protoMajor
  protoMinor := request.protoMinor
  status := "200 OK"
  statusCode := 200
  close := true
  header := []

def Response.addHeader (response : Response) (key value : String) : Response :=
  { response with header := response.header ++ [(key, value)] }

/-! ## Handlers -/

/-- Where a `connectionHandler` stands. -/
inductive Handler where
  | reading
  | handling (request : Request)
  /-- `performGet`, the file open -/
  | opened (request : Request) (response : Response)
  /-- `Response.Write`, with what has been read from the file -/
  | sending (request : Request) (response : Response) (got : Bytes)
  /-- `io.Copy` in `performPost`, with how much of the body has been copied into the file -/
  | copying (request : Request) (copied : Nat)
  /-- about to write the buffer on the connection; `none` says that the buffer ends after the status line -/
  | answering (request : Request) (response : Response) (body : Option Bytes)
  /-- before `decrement` -/
  | leaving
  | returned
  deriving DecidableEq, Repr

/-- The handler is not past `decrement`. -/
def Handler.counted : Handler → Bool
  | returned => false
  | _ => true

/-- What was written on a connection, for which request; `none` says that it ends before the body. -/
structure Answer where
  request : Request
  response : Response
  body : Option Bytes
  deriving DecidableEq, Repr

/-- How much of the buffer `con.Write` writes. -/
inductive Sent where
  | all
  /-- the header and at most `n` bytes of the body -/
  | part (n : Nat)
  /-- the status line, and not all of the header -/
  | head
  /-- not even the status line -/
  | nothing
  deriving DecidableEq, Repr

/-- What is written of a body; the outer `none` says that there is no answer. -/
def Sent.written (body : Option Bytes) : Sent → Option (Option Bytes)
  | all => some body
  | part n => some (body.map fun bytes => bytes.take n)
  | head => some none
  | nothing => none

/-! ## The process -/

structure Server (F : Type) where
  listener : Listener Handler
  files : F → Option Bytes
  /-- what has been written on the connections -/
  answered : List Answer
  /-- not in the source: the `POST` that truncated the file last, until it has been answered 200 -/
  pending : F → Option Nat

namespace Server

variable {F : Type} [DecidableEq F]

inductive Event where
  /-- the accept loop -/
  | accept (ok : Bool)
  | enter
  | wake
  /-- handler `k`: `http.ReadRequest` -/
  | read (k : Nat) (request : Option Request)
  /-- `handleHTTPRequest` up to `os.Open` or `os.Create`; `os.Getwd` and that call may fail -/
  | begin (k : Nat) (getwd ok : Bool)
  | stat (k : Nat) (ok : Bool)
  /-- a read of at most `n` bytes from the file, the end of the file, a failed read -/
  | readFile (k n : Nat)
  | readEnd (k : Nat)
  | readFails (k : Nat)
  /-- at most `n` bytes of the body written to the file, the end of the body, a failed read or write -/
  | copy (k n : Nat)
  | copyEnd (k : Nat)
  | copyFails (k : Nat)
  /-- `con.Write` of the buffer -/
  | answer (k : Nat) (sent : Sent)
  | leave (k : Nat)
  deriving DecidableEq, Repr

def start (files : F → Option Bytes) : Server F := ⟨.start, files, [], fun _ => none⟩

def loop (s : Server F) (listener : Option (Listener Handler)) : Option (Server F) :=
  listener.map fun listener => { s with listener := listener }

def move (s : Server F) (k : Nat) (handler : Handler) : Server F :=
  { s with listener := s.listener.setHandler k handler }

/-- The content of the file that a request is about. -/
def content (host : Host F) (s : Server F) (request : Request) : Bytes :=
  (s.files (host.file request)).getD []

/-- `performGet` up to `os.Open`. -/
def performGet (host : Host F) (s : Server F) (request : Request) (getwd ok : Bool) : Handler :=
  match contentType request.requestURI with
  | none =>
    .answering request
      { defaultResponse request with status := "400 Bad Request", statusCode := 400 } (some [])
  | some type =>
    let response := (defaultResponse request).addHeader "Content-Type" type
    if getwd = false then .answering request internalErrorResponse (some [])
    else if ok = false ∨ s.files (host.file request) = none then
      -- the type of the missing file stays in the header
      .answering request
        ({ response with status := "404 Not Found", statusCode := 404 }.addHeader "Content-Length" "0")
        (some [])
    else .opened request response

/-- `performGet` from `Stat` on. -/
def statFile (host : Host F) (s : Server F) (request : Request) (response : Response) (ok : Bool) :
    Handler :=
  if ok then
    .sending request
      ((response.addHeader "Content-Length" (toString (s.content host request).length)).addHeader
        "Content-Disposition" ("attachment; filename=\"" ++ baseName request.requestURI ++ "\"")) []
  else .answering request internalErrorResponse (some [])

/-- `performPost` up to `os.Create`. -/
def performPost (host : Host F) (s : Server F) (k : Nat) (request : Request) (getwd ok : Bool) :
    Server F :=
  if getwd = false ∨ ok = false then s.move k (.answering request internalErrorResponse (some []))
  else
    { s.move k (.copying request 0) with
      files := Function.update s.files (host.file request) (some [])
      pending := Function.update s.pending (host.file request) (some k) }

def handleHTTPRequest (host : Host F) (s : Server F) (k : Nat) (request : Request) (getwd ok : Bool) :
    Server F :=
  if request.method = "GET" then s.move k (s.performGet host request getwd ok)
  else if request.method = "POST" then s.performPost host k request getwd ok
  else
    s.move k (.answering request
      { defaultResponse request with status := "501 Not Implemented", statusCode := 501 } (some []))

/-- One chunk of `io.Copy`, written behind what this handler has written before. -/
def copyChunk (host : Host F) (s : Server F) (k : Nat) (request : Request) (copied : Nat) (chunk : Bytes) :
    Server F :=
  { s.move k (.copying request (copied + chunk.length)) with
    files := Function.update s.files (host.file request)
      (some (writeAt (s.content host request) copied chunk)) }

/-- The history of a file once a `POST` to it has been answered. -/
def settle (host : Host F) (pending : F → Option Nat) (k : Nat) (answer : Answer) : F → Option Nat :=
  if answer.response.statusCode = 200 ∧ pending (host.file answer.request) = some k then
    Function.update pending (host.file answer.request) none
  else pending

/-- `con.Write`; an error is only logged. -/
def write (host : Host F) (s : Server F) (k : Nat) (request : Request) (response : Response)
    (body : Option Bytes) (sent : Sent) : Server F :=
  match sent.written body with
  | some written =>
    { s.move k .leaving with
      answered := s.answered ++ [⟨request, response, written⟩]
      pending := settle host s.pending k ⟨request, response, written⟩ }
  | none => s.move k .leaving

def step (host : Host F) (s : Server F) (event : Event) : Option (Server F) :=
  if s.listener.exploded then none
  else
    match event with
    | .accept ok => s.loop (s.listener.accept ok)
    | .enter => s.loop (s.listener.enter .reading)
    | .wake => s.loop (s.listener.wake .reading)
    | .read k request =>
      match s.listener.handlers[k]? with
      -- Without a request only `decrement` is left.
      | some .reading => some (s.move k (request.elim .leaving .handling))
      | _ => none
    | .begin k getwd ok =>
      match s.listener.handlers[k]? with
      | some (.handling request) => some (s.handleHTTPRequest host k request getwd ok)
      | _ => none
    | .stat k ok =>
      match s.listener.handlers[k]? with
      | some (.opened request response) => some (s.move k (s.statFile host request response ok))
      | _ => none
    | .readFile k n =>
      match s.listener.handlers[k]? with
      | some (.sending request response got) =>
        let chunk := ((s.content host request).drop got.length).take n
        if chunk = [] then none else some (s.move k (.sending request response (got ++ chunk)))
      | _ => none
    | .readEnd k =>
      match s.listener.handlers[k]? with
      | some (.sending request response got) =>
        if (s.content host request).length ≤ got.length then
          some (s.move k (.answering request response (some got)))
        else none
      | _ => none
    | .readFails k =>
      match s.listener.handlers[k]? with
      | some (.sending request response got) =>
        -- The first byte is read before the header is written.
        some (s.move k (.answering request response (if got = [] then none else some got)))
      | _ => none
    | .copy k n =>
      match s.listener.handlers[k]? with
      | some (.copying request copied) =>
        let chunk := (request.body.drop copied).take n
        if chunk = [] then none else some (s.copyChunk host k request copied chunk)
      | _ => none
    | .copyEnd k =>
      match s.listener.handlers[k]? with
      | some (.copying request copied) =>
        if request.body.length ≤ copied then
          some (s.move k (.answering request (defaultResponse request) (some [])))
        else none
      | _ => none
    | .copyFails k =>
      match s.listener.handlers[k]? with
      | some (.copying request _) => some (s.move k (.answering request internalErrorResponse (some [])))
      | _ => none
    | .answer k sent =>
      match s.listener.handlers[k]? with
      | some (.answering request response body) => some (s.write host k request response body sent)
      | _ => none
    | .leave k =>
      match s.listener.handlers[k]? with
      | some .leaving => some { s with listener := (s.listener.setHandler k .returned).decrement }
      | _ => none

abbrev ServerRun (host : Host F) (files : F → Option Bytes) := Run (step host) (start files)

/-! ## What a step does -/

/-- The steps of handler `k` that change no file and write no answer. -/
inductive Goes (host : Host F) (s : Server F) (k : Nat) : Event → Handler → Handler → Prop where
  | unread : Goes host s k (.read k none) .reading .leaving
  | reads {request : Request} : Goes host s k (.read k (some request)) .reading (.handling request)
  | refuses {getwd ok : Bool} {request : Request} {response : Response}
      (failed : response.statusCode ≠ 200) :
      Goes host s k (.begin k getwd ok) (.handling request) (.answering request response (some []))
  | opens {getwd ok : Bool} {request : Request} {response : Response} (isGet : request.method = "GET")
      (exists_ : s.files (host.file request) ≠ none) :
      Goes host s k (.begin k getwd ok) (.handling request) (.opened request response)
  | stats {ok : Bool} {request : Request} {response response' : Response} :
      Goes host s k (.stat k ok) (.opened request response) (.sending request response' [])
  | unknown {ok : Bool} {request : Request} {response : Response} :
      Goes host s k (.stat k ok) (.opened request response)
        (.answering request internalErrorResponse (some []))
  | readsFile {n : Nat} {request : Request} {response : Response} {got chunk : Bytes}
      (next : chunk = ((s.content host request).drop got.length).take n) :
      Goes host s k (.readFile k n) (.sending request response got)
        (.sending request response (got ++ chunk))
  | readsEnd {request : Request} {response : Response} {got : Bytes}
      (end_ : (s.content host request).length ≤ got.length) :
      Goes host s k (.readEnd k) (.sending request response got)
        (.answering request response (some got))
  | readFails {request : Request} {response : Response} {got : Bytes} :
      Goes host s k (.readFails k) (.sending request response got)
        (.answering request response (if got = [] then none else some got))
  | copiesEnd {request : Request} {copied : Nat} (end_ : request.body.length ≤ copied) :
      Goes host s k (.copyEnd k) (.copying request copied)
        (.answering request (defaultResponse request) (some []))
  | copyFails {request : Request} {copied : Nat} :
      Goes host s k (.copyFails k) (.copying request copied)
        (.answering request internalErrorResponse (some []))

inductive Effect (host : Host F) (s : Server F) : Event → Server F → Prop where
  | accept {ok : Bool} {listener : Listener Handler} (moved : s.listener.accept ok = some listener) :
      Effect host s (.accept ok) { s with listener := listener }
  | enter {listener : Listener Handler} (moved : s.listener.enter .reading = some listener) :
      Effect host s .enter { s with listener := listener }
  | wake {listener : Listener Handler} (moved : s.listener.wake .reading = some listener) :
      Effect host s .wake { s with listener := listener }
  | goes {e : Event} {k : Nat} {handler handler' : Handler}
      (found : s.listener.handlers[k]? = some handler) (goes : Goes host s k e handler handler') :
      Effect host s e (s.move k handler')
  | creates {k : Nat} {getwd ok : Bool} {request : Request}
      (found : s.listener.handlers[k]? = some (.handling request)) (isPost : request.method = "POST") :
      Effect host s (.begin k getwd ok)
        { s.move k (.copying request 0) with
          files := Function.update s.files (host.file request) (some [])
          pending := Function.update s.pending (host.file request) (some k) }
  | copies {k n : Nat} {request : Request} {copied : Nat}
      (found : s.listener.handlers[k]? = some (.copying request copied)) :
      Effect host s (.copy k n) (s.copyChunk host k request copied ((request.body.drop copied).take n))
  | writes {k : Nat} {sent : Sent} {request : Request} {response : Response} {body : Option Bytes}
      (found : s.listener.handlers[k]? = some (.answering request response body)) :
      Effect host s (.answer k sent) (s.write host k request response body sent)
  | leaves {k : Nat} (found : s.listener.handlers[k]? = some .leaving) :
      Effect host s (.leave k)
        { s with listener := (s.listener.setHandler k .returned).decrement }

variable {host : Host F} {s t : Server F} {e : Event}

omit [DecidableEq F] in
theorem performGet_goes {k : Nat} {request : Request} {getwd ok : Bool} (isGet : request.method = "GET") :
    Goes host s k (.begin k getwd ok) (.handling request) (s.performGet host request getwd ok) := by
  unfold performGet
  split
  · exact .refuses (by simp)
  · dsimp only
    split_ifs with noDirectory noFile
    · exact .refuses (by simp [internalErrorResponse])
    · exact .refuses (by simp [Response.addHeader])
    · exact .opens isGet (by simp_all)

theorem handleHTTPRequest_effect {k : Nat} {request : Request} {getwd ok : Bool}
    (found : s.listener.handlers[k]? = some (.handling request)) :
    Effect host s (.begin k getwd ok) (s.handleHTTPRequest host k request getwd ok) := by
  unfold handleHTTPRequest
  split_ifs with isGet isPost
  · exact .goes found (performGet_goes isGet)
  · unfold performPost
    split_ifs with failed
    · exact .goes found (.refuses (by simp [internalErrorResponse]))
    · exact .creates found isPost
  · exact .goes found (.refuses (by simp))

omit [DecidableEq F] in
theorem statFile_goes {k : Nat} {request : Request} {response : Response} (ok : Bool) :
    Goes host s k (.stat k ok) (.opened request response) (s.statFile host request response ok) := by
  cases ok with
  | true => exact .stats
  | false => exact .unknown

theorem step_effect (moved : s.step host e = some t) : Effect host s e t := by
  simp only [step, Option.ite_none_left_eq_some] at moved
  replace moved := moved.2
  cases e with
  | accept ok =>
    obtain ⟨listener, accepted, rfl⟩ := Option.map_eq_some_iff.mp moved
    exact .accept accepted
  | enter =>
    obtain ⟨listener, admitted, rfl⟩ := Option.map_eq_some_iff.mp moved
    exact .enter admitted
  | wake =>
    obtain ⟨listener, woken, rfl⟩ := Option.map_eq_some_iff.mp moved
    exact .wake woken
  | read k request =>
    dsimp only at moved
    split at moved <;> cases moved
    next found =>
      cases request with
      | none => exact .goes found .unread
      | some request => exact .goes found .reads
  | begin k getwd ok =>
    dsimp only at moved
    split at moved <;> cases moved
    next found => exact handleHTTPRequest_effect found
  | stat k ok =>
    dsimp only at moved
    split at moved <;> cases moved
    next found => exact .goes found (statFile_goes ok)
  | readFile k n =>
    dsimp only at moved
    split at moved
    · next found =>
      split at moved <;> cases moved
      exact .goes found (.readsFile rfl)
    · cases moved
  | readEnd k =>
    dsimp only at moved
    split at moved
    · next found =>
      split at moved <;> cases moved
      next end_ => exact .goes found (.readsEnd end_)
    · cases moved
  | readFails k =>
    dsimp only at moved
    split at moved <;> cases moved
    next found => exact .goes found .readFails
  | copy k n =>
    dsimp only at moved
    split at moved
    · next found =>
      split at moved <;> cases moved
      exact .copies found
    · cases moved
  | copyEnd k =>
    dsimp only at moved
    split at moved
    · next found =>
      split at moved <;> cases moved
      next end_ => exact .goes found (.copiesEnd end_)
    · cases moved
  | copyFails k =>
    dsimp only at moved
    split at moved <;> cases moved
    next found => exact .goes found .copyFails
  | answer k sent =>
    dsimp only at moved
    split at moved <;> cases moved
    next found => exact .writes found
  | leave k =>
    dsimp only at moved
    split at moved <;> cases moved
    next found => exact .leaves found

/-! ## The limiter -/

omit [DecidableEq F] in
theorem Goes.counted {k : Nat} {handler handler' : Handler} (goes : Goes host s k e handler handler') :
    handler.counted = true ∧ handler'.counted = true := by
  cases goes <;> simp [Handler.counted]

theorem write_listener (k : Nat) (request : Request) (response : Response) (body : Option Bytes) (sent : Sent) :
    (s.write host k request response body sent).listener = s.listener.setHandler k .leaving := by
  unfold write
  split <;> rfl

theorem limited_step (limited : s.listener.Limited Handler.counted) (effect : Effect host s e t) :
    t.listener.Limited Handler.counted := by
  cases effect with
  | accept moved => exact limited.accept moved
  | enter moved => exact limited.enter rfl moved
  | wake moved => exact limited.wake rfl moved
  | goes found goes =>
    -- The handler is not past `decrement`, so its place stays taken.
    apply limited.setHandler found
    rw [goes.counted.1, goes.counted.2]
  | creates found => exact limited.setHandler found rfl
  | copies found => exact limited.setHandler found rfl
  | writes found =>
    rw [write_listener]
    exact limited.setHandler found rfl
  | leaves found => exact limited.decrement found rfl rfl

/-- The number of handlers that are started and not past `decrement`. -/
def active (s : Server F) : Nat := s.listener.inside Handler.counted

/-- In every state that the server reaches `numConnections` is the number of active handlers and within
the limit, the check after `numConnections++` has not failed, and the accept loop waits without a signal
only while all places are taken. -/
theorem connections_limited {files : F → Option Bytes} {taken : List (Taken (Server F) Event)}
    {final : Server F} (run : ServerRun host files taken final) :
    final.listener.numConnections = final.active ∧ 0 ≤ final.listener.numConnections ∧
      final.listener.numConnections ≤ maxConnections ∧ final.listener.exploded = false ∧
      (final.listener.gate.keeper = .parked → final.listener.numConnections = maxConnections) := by
  have limited : final.listener.Limited Handler.counted :=
    run.invariant (fun _ _ => trivial) Listener.limited_start fun _ _ _ limited (_ : True) moved =>
      limited_step limited (step_effect moved)
  obtain ⟨count, nonnegative, bound⟩ := limited.numConnections
  exact ⟨count, nonnegative, bound, limited.running, limited.sound.full⟩

/-- One file under each path. -/
def plainHost : Host String := ⟨"/srv", id⟩

/-- Ten clients that send nothing and an eleventh one. -/
def crowd : List Event :=
  (List.range 10).flatMap (fun _ => [.accept true, .enter]) ++ [.accept true, .enter]

/-- The accept loop is parked at a crowded server, and goes on after one of the clients has closed its
connection. -/
theorem connections_limited_crowd :
    (outcome (step plainHost) (start fun _ => none) crowd).listener.gate.keeper = .parked ∧
      (outcome (step plainHost) (start fun _ => none) crowd).listener.numConnections = maxConnections ∧
      (outcome (step plainHost) (start fun _ => none)
        (crowd ++ [.read 3 none, .leave 3])).listener.gate.keeper = .signalled := by
  have parked :
      (outcome (step plainHost) (start fun _ => none) crowd).listener.gate.keeper = .parked := by decide
  refine ⟨parked, ?_, by decide⟩
  exact (connections_limited (run_trace _ _ crowd)).2.2.2.2 parked

end Server

end Tda596Labs.Http
