import Tda596Labs.Lib.Path
import Tda596Labs.Http.Server

/-! # Paths of requests

The server appends the URI of a request to its working directory and opens, or creates, the file at that path.
It looks at the extension of the URI before a `GET`, and at nothing before a `POST`.  The path leads to a file
inside the working directory exactly if the URI does: it has to begin with a slash, and where it goes up by
`..` it has to come down along the names of the working directory again.
-/

namespace Tda596Labs.Http

open Transition

/-- What `os.Getwd` returns: the path of a directory. -/
structure WorkingDir where
  names : List (List Char)
  isName : ∀ name ∈ names, Path.IsName name

def WorkingDir.path (dir : WorkingDir) : String := String.ofList (Path.render dir.names)

/-- The path resolves to something below the working directory. -/
def WorkingDir.Inside (dir : WorkingDir) (path : String) : Prop :=
  Path.Below dir.names (Path.resolve path.toList)

instance (dir : WorkingDir) (path : String) : Decidable (dir.Inside path) :=
  inferInstanceAs (Decidable (Path.Below _ _))

/-- The path that a request makes `performGet` open or `performPost` create. -/
def opened (workingDir : String) (request : Request) : Option String :=
  if request.method = "GET" then
    (contentType request.requestURI).map fun _ => workingDir ++ request.requestURI
  else if request.method = "POST" then some (workingDir ++ request.requestURI)
  else none

theorem opened_eq_some_iff {workingDir path : String} {request : Request} :
    opened workingDir request = some path ↔
      (request.method = "GET" ∧ contentType request.requestURI ≠ none ∨ request.method = "POST") ∧
        path = workingDir ++ request.requestURI := by
  unfold opened
  split_ifs with isGet isPost
  · cases contentType request.requestURI <;> simp [isGet, eq_comm]
  · simp [isPost, eq_comm]
  · simp [isGet, isPost]

/-- Handling a request reads and writes no other file. -/
theorem handleHTTPRequest_congr {F : Type} [DecidableEq F] {host host' : Host F} (s : Server F) (k : Nat)
    (request : Request) (getwd ok : Bool) (same : host'.workingDir = host.workingDir)
    (agree : ∀ path, opened host.workingDir request = some path → host'.locate path = host.locate path) :
    s.handleHTTPRequest host' k request getwd ok = s.handleHTTPRequest host k request getwd ok := by
  have file : request.method = "GET" ∧ contentType request.requestURI ≠ none ∨ request.method = "POST" →
      host'.file request = host.file request := fun opens => by
    rw [Host.file, Host.file, same]
    exact agree _ (opened_eq_some_iff.mpr ⟨opens, rfl⟩)
  unfold Server.handleHTTPRequest
  split_ifs with isGet isPost
  · unfold Server.performGet
    cases served : contentType request.requestURI with
    | none => rfl
    | some type => rw [file (.inl ⟨isGet, by simp [served]⟩)]
  · rw [Server.performPost, Server.performPost, file (.inr isPost)]
  · rfl

theorem inside_iff (dir : WorkingDir) (uri : String) :
    dir.Inside (dir.path ++ uri) ↔ Path.Contained dir.names uri.toList := by
  rw [← Path.below_resolve_iff dir.isName, WorkingDir.Inside, WorkingDir.path, String.toList_append,
    String.toList_ofList]

/-- What a request opens or creates is inside the working directory exactly if its URI is contained there;
the extension only spares a `GET` that is refused. -/
theorem opened_inside_iff (dir : WorkingDir) (request : Request) :
    (∀ path, opened dir.path request = some path → dir.Inside path) ↔
      (request.method = "GET" → contentType request.requestURI ≠ none →
        Path.Contained dir.names request.requestURI.toList) ∧
      (request.method = "POST" → Path.Contained dir.names request.requestURI.toList) := by
  rw [← inside_iff]
  simp only [opened_eq_some_iff]
  constructor
  · intro inside
    exact ⟨fun isGet served => inside _ ⟨.inl ⟨isGet, served⟩, rfl⟩, fun isPost => inside _ ⟨.inr isPost, rfl⟩⟩
  · rintro ⟨get, post⟩ _ ⟨⟨isGet, served⟩ | isPost, rfl⟩
    · exact get isGet served
    · exact post isPost

def srvWww : WorkingDir where
  names := ["srv".toList, "www".toList]
  isName := by decide +kernel

def requestFor (method requestURI : String) : Request := ⟨method, requestURI, "localhost", "HTTP/1.1", 1, 1, []⟩

/-- A URI that leaves the directory and comes back to it. -/
theorem opened_inside_way_back : srvWww.Inside "/srv/www/css/../../www/index.html" :=
  (opened_inside_iff srvWww (requestFor "GET" "/css/../../www/index.html")).mpr (by decide +kernel)
    "/srv/www/css/../../www/index.html" (by decide +kernel)

/-- A `GET` of a text file in the parent of the working directory. -/
theorem opened_outside :
    ¬ ∀ (dir : WorkingDir) (request : Request) (path : String),
      opened dir.path request = some path → dir.Inside path := by
  intro always
  have inside := always srvWww (requestFor "GET" "/../notes.txt") "/srv/www/../notes.txt" (by decide +kernel)
  exact absurd inside (by decide +kernel)

/-! ## Files outside the working directory -/

namespace Server

variable {F : Type} [DecidableEq F] {host : Host F} {dir : WorkingDir} {s t : Server F} {e : Event}

/-- The request opens and creates nothing outside the working directory. -/
def Safe (dir : WorkingDir) (request : Request) : Prop :=
  ∀ path, opened dir.path request = some path → dir.Inside path

/-- The handler works on a safe request; where it copies a body, the request is a `POST`. -/
def Fits (dir : WorkingDir) : Handler → Prop
  | .handling request => Safe dir request
  | .copying request _ => Safe dir request ∧ request.method = "POST"
  | _ => True

/-- No path inside the working directory leads to the file. -/
def Outside (host : Host F) (dir : WorkingDir) (file : F) : Prop :=
  ∀ path, dir.Inside path → host.locate path ≠ file

/-- Every handler fits, and the files outside the working directory are as they were. -/
structure Confined (host : Host F) (dir : WorkingDir) (files : F → Option Bytes) (s : Server F) : Prop where
  fits : ∀ handler ∈ s.listener.handlers, Fits dir handler
  kept : ∀ file, Outside host dir file → s.files file = files file

/-- A request that is read is safe. -/
def readsSafe (dir : WorkingDir) (e : Event) : Prop := ∀ k request, e = .read k (some request) → Safe dir request

omit [DecidableEq F] in
theorem file_ne_of_outside {request : Request} {file : F} (here : host.workingDir = dir.path)
    (safe : Safe dir request) (isPost : request.method = "POST") (outside : Outside host dir file) :
    file ≠ host.file request := by
  rw [Host.file, here]
  exact (outside _ (safe _ (opened_eq_some_iff.mpr ⟨.inr isPost, rfl⟩))).symm

omit [DecidableEq F] in
theorem Goes.fits {k : Nat} {handler handler' : Handler} (goes : Goes host s k e handler handler')
    (safe : readsSafe dir e) : Fits dir handler' := by
  cases goes with
  | reads => exact safe k _ rfl
  | _ => trivial

theorem confined_step {files : F → Option Bytes} (here : host.workingDir = dir.path)
    (confined : Confined host dir files s) (safe : readsSafe dir e) (effect : Effect host s e t) :
    Confined host dir files t := by
  obtain ⟨fits, kept⟩ := confined
  have fitsAfter : ∀ {k : Nat} {handler : Handler}, Fits dir handler →
      ∀ other ∈ s.listener.handlers.set k handler, Fits dir other := fun fit => Pool.forall_set fits fit
  have started : ∀ {handlers : List Handler}, handlers = s.listener.handlers ∨
      handlers = s.listener.handlers ++ [.reading] → ∀ other ∈ handlers, Fits dir other := by
    rintro _ (rfl | rfl) other member
    · exact fits other member
    · obtain before | last := List.mem_append.mp member
      · exact fits other before
      · rw [List.mem_singleton.mp last]
        trivial
  cases effect with
  | accept moved => exact ⟨started (.inl (Listener.accept_handlers moved)), kept⟩
  | enter moved => exact ⟨started (Listener.enter_handlers moved), kept⟩
  | wake moved => exact ⟨started (Listener.wake_handlers moved), kept⟩
  | goes found goes => exact ⟨fitsAfter (goes.fits safe), kept⟩
  | creates found isPost =>
    have fit : Safe dir _ := fits _ (Pool.mem_of_found found)
    refine ⟨fitsAfter ⟨fit, isPost⟩, fun file outside => ?_⟩
    dsimp only
    rw [Function.update_of_ne (file_ne_of_outside here fit isPost outside), kept file outside]
  | copies found =>
    obtain ⟨fit, isPost⟩ := fits _ (Pool.mem_of_found found)
    refine ⟨fitsAfter ⟨fit, isPost⟩, fun file outside => ?_⟩
    simp only [copyChunk]
    rw [Function.update_of_ne (file_ne_of_outside here fit isPost outside), kept file outside]
  | writes found =>
    refine ⟨?_, fun file outside => ?_⟩
    · rw [write_listener]
      exact fitsAfter trivial
    · unfold write
      split <;> exact kept file outside
  | leaves found => exact ⟨fitsAfter trivial, kept⟩

/-- As long as only safe requests are read, no file outside the working directory changes. -/
theorem confined_run {files : F → Option Bytes} {taken : List (Taken (Server F) Event)} {final : Server F}
    (here : host.workingDir = dir.path) (run : ServerRun host files taken final)
    (safe : AllMeet (fun _ e => readsSafe dir e) taken) : Confined host dir files final :=
  run.invariant safe ⟨nofun, fun _ _ => rfl⟩ fun _ _ _ confined safe moved =>
    confined_step here confined safe (step_effect moved)

end Server

end Tda596Labs.Http
