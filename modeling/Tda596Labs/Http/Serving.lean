import Tda596Labs.Http.Server

/-! # What a `GET` is answered with

`performPost` writes a file in place, and nothing keeps a `performGet` of the same file, or another
`performPost`, from running at the same time.  So a `GET` can be answered 200 with a part of a body, or
with a mix of two.  It can also be answered 200 with a part of a body, or with none, because a read of the file
fails or the connection does not take the whole response: the length of the file is not sent.  It is answered
with a whole body as long as no two handlers get in each other's way on a file and neither of these happens
(`undisturbed`).
-/

namespace Tda596Labs.Http.Server

open Transition

variable {F : Type}

/-- The whole content of a file: the one it had at the start, or the body of a `POST` to it that was
answered 200. -/
def Whole (host : Host F) (initial : F → Option Bytes) (answered : List Answer) (file : F)
    (body : Bytes) : Prop :=
  initial file = some body ∨
    ∃ post ∈ answered, post.request.method = "POST" ∧ host.file post.request = file ∧
      post.response.statusCode = 200 ∧ post.request.body = body

/-- Every `GET` that was answered 200 was sent the whole content of the file. -/
def ServesWhole (host : Host F) (initial : F → Option Bytes) (s : Server F) : Prop :=
  ∀ get ∈ s.answered, get.request.method = "GET" → get.response.statusCode = 200 →
    ∃ body, get.body = some body ∧ Whole host initial s.answered (host.file get.request) body

/-- The handler has read a part of the file. -/
def midRead [DecidableEq F] (host : Host F) (file : F) : Handler → Bool
  | .sending request _ got => host.file request = file ∧ got ≠ []
  | _ => false

/-- Handlers do not get in each other's way: a file is written only by the `POST` that truncated it
last, it is read only after that `POST` has been answered 200, and it is not truncated under a handler that
reads it.  No read of a file fails, and the response to a `GET` is written as a whole or not at all. -/
def undisturbed [DecidableEq F] (host : Host F) (s : Server F) : Event → Bool
  | .begin k _ _ =>
    match s.listener.handlers[k]? with
    | some (.handling request) =>
      request.method ≠ "POST" ∨
        ∀ handler ∈ s.listener.handlers, midRead host (host.file request) handler = false
    | _ => true
  | .readFile k _ | .readEnd k =>
    match s.listener.handlers[k]? with
    | some (.sending request _ _) => s.pending (host.file request) = none
    | _ => true
  | .readFails _ => false
  | .copy k _ =>
    match s.listener.handlers[k]? with
    | some (.copying request _) => s.pending (host.file request) = some k
    | _ => true
  | .answer k sent =>
    match s.listener.handlers[k]? with
    | some (.answering request response _) =>
      request.method ≠ "GET" ∨ response.statusCode ≠ 200 ∨ sent = .all ∨ sent = .nothing
    | _ => true
  | _ => true

/-! ## The invariant -/

section Invariant

variable (host : Host F) (initial : F → Option Bytes) (s : Server F)

/-- What the handler of the `POST` that truncated a file last has to do with its content. -/
def Owns (file : F) : Handler → Prop
  | .copying request copied =>
    host.file request = file ∧ s.files file = some (request.body.take copied) ∧ copied ≤ request.body.length
  | .answering request response _ =>
    request.method = "POST" ∧ host.file request = file ∧
      (response.statusCode = 200 → s.files file = some request.body)
  | .leaving | .returned => True
  | _ => False

/-- What a handler knows of the file it is about. -/
def Knows : Handler → Prop
  | .opened request _ => request.method = "GET" ∧ s.files (host.file request) ≠ none
  | .sending request _ got =>
    request.method = "GET" ∧ s.files (host.file request) ≠ none ∧
      (got ≠ [] → s.pending (host.file request) = none ∧ got <+: s.content host request)
  | .copying request _ => request.method = "POST"
  | .answering request response body =>
    request.method = "GET" → response.statusCode = 200 →
      ∃ sent, body = some sent ∧ Whole host initial s.answered (host.file request) sent
  | _ => True

structure Serves : Prop where
  /-- a file that no `POST` is about to change is whole -/
  settled : ∀ file content, s.pending file = none → s.files file = some content →
    Whole host initial s.answered file content
  owner : ∀ file k, s.pending file = some k →
    ∃ handler, s.listener.handlers[k]? = some handler ∧ Owns host s file handler
  knows : ∀ handler ∈ s.listener.handlers, Knows host initial s handler
  served : ServesWhole host initial s

end Invariant

variable {host : Host F} {initial : F → Option Bytes} {s t : Server F} {e : Event}
  {handler handler' : Handler} {k : Nat}

theorem Whole.mono {answered more : List Answer} {file : F} {body : Bytes}
    (whole : Whole host initial answered file body) :
    Whole host initial (answered ++ more) file body := by
  obtain atStart | ⟨post, member, isPost, same, answered200, equal⟩ := whole
  · exact .inl atStart
  · exact .inr ⟨post, List.mem_append_left _ member, isPost, same, answered200, equal⟩

theorem serves_start (files : F → Option Bytes) : Serves host files (start files) where
  settled _ _ _ found := .inl found
  owner _ _ claimed := by simp [start] at claimed
  knows _ member := by simp [start, Listener.start] at member
  served _ member := by simp [start] at member

/-! ## Steps that touch no file -/

/-- The accept loop moves. -/
theorem Serves.loop (serves : Serves host initial s) {listener : Listener Handler}
    (more : listener.handlers = s.listener.handlers ∨
      listener.handlers = s.listener.handlers ++ [.reading]) :
    Serves host initial { s with listener := listener } where
  settled := serves.settled
  owner file k claimed := by
    obtain ⟨handler, found, owns⟩ := serves.owner file k claimed
    refine ⟨handler, ?_, owns⟩
    obtain same | grown := more
    · rw [same]
      exact found
    · rw [grown]
      exact Pool.found_append found _
  knows handler member := by
    obtain same | grown := more
    · exact serves.knows handler (same ▸ member)
    · rw [grown, List.mem_append, List.mem_singleton] at member
      obtain old | rfl := member
      · exact serves.knows handler old
      · trivial
  served := serves.served

/-- Handler `k` moves, and all files stay as they are. -/
theorem Serves.move (serves : Serves host initial s) {listener : Listener Handler}
    (found : s.listener.handlers[k]? = some handler)
    (moved : listener.handlers = s.listener.handlers.set k handler')
    (owns : ∀ file, Owns host s file handler → Owns host s file handler')
    (knows : Knows host initial s handler') :
    Serves host initial { s with listener := listener } where
  settled := serves.settled
  owner file i claimed := by
    obtain ⟨owner, isOwner, owned⟩ := serves.owner file i claimed
    show ∃ handler, listener.handlers[i]? = some handler ∧ _
    rw [moved]
    by_cases equal : k = i
    · subst equal
      obtain rfl : handler = owner := Option.some.inj (found.symm.trans isOwner)
      exact ⟨handler', Pool.found_set_self found handler', owns file owned⟩
    · exact ⟨owner, (List.getElem?_set_ne equal).trans isOwner, owned⟩
  knows := by
    show ∀ handler ∈ listener.handlers, _
    rw [moved]
    exact Pool.forall_set serves.knows knows
  served := serves.served

/-- The owner of a file stays its owner when it goes on without touching the file. -/
theorem Goes.owns (goes : Goes host s k e handler handler') (knows : Knows host initial s handler)
    {file : F} (owns : Owns host s file handler) : Owns host s file handler' := by
  cases goes with
  | copiesEnd end_ => exact ⟨knows, owns.1, fun _ => by rw [owns.2.1, List.take_of_length_le end_]⟩
  | copyFails => exact ⟨knows, owns.1, by simp [internalErrorResponse]⟩
  | unread => exact owns.elim
  | reads => exact owns.elim
  | refuses => exact owns.elim
  | opens => exact owns.elim
  | stats => exact owns.elim
  | unknown => exact owns.elim
  | readsFile => exact owns.elim
  | readsEnd => exact owns.elim
  | readFails => exact owns.elim

/-- The owner of a file that is not written stays its owner. -/
theorem Owns.frame {file : F} (owns : Owns host s file handler) (same : t.files file = s.files file) :
    Owns host t file handler := by
  cases handler with
  | copying request copied => exact ⟨owns.1, same.trans owns.2.1, owns.2.2⟩
  | answering request response body =>
    exact ⟨owns.1, owns.2.1, fun answered200 => same.trans (owns.2.2 answered200)⟩
  | _ => exact owns

theorem content_eq {request : Request} {content : Bytes}
    (found : s.files (host.file request) = some content) : s.content host request = content := by
  simp [Server.content, found]

/-- What a handler has read of an undisturbed file is a prefix of its content. -/
theorem prefix_of_knows {request : Request} {response : Response} {got : Bytes}
    (knows : Knows host initial s (.sending request response got)) :
    got <+: s.content host request := by
  by_cases nothing : got = []
  · subst nothing
    exact List.nil_prefix
  · exact (knows.2.2 nothing).2

variable [DecidableEq F]

theorem Goes.knows (serves : Serves host initial s) (goes : Goes host s k e handler handler')
    (found : s.listener.handlers[k]? = some handler) (quiet : undisturbed host s e = true) :
    Knows host initial s handler' := by
  have knew := serves.knows handler (Pool.mem_of_found found)
  cases goes with
  | opens isGet exists_ => exact ⟨isGet, exists_⟩
  | stats => exact ⟨knew.1, knew.2, by simp⟩
  | @readsFile n request response got chunk next =>
    simp only [undisturbed, found, decide_eq_true_eq] at quiet
    refine ⟨knew.1, knew.2.1, fun _ => ⟨quiet, ?_⟩⟩
    -- What was read before is a prefix of the file as it is now, so the read goes on behind it.
    obtain ⟨rest, split⟩ := prefix_of_knows knew
    rw [next, ← split]
    simp only [List.drop_left]
    exact (List.prefix_append_right_inj got).mpr (List.take_prefix n rest)
  | @readsEnd request response got end_ =>
    simp only [undisturbed, found, decide_eq_true_eq] at quiet
    obtain ⟨content, isContent⟩ := Option.ne_none_iff_exists'.mp knew.2.1
    -- A prefix that is not shorter is all of it.
    have all := (prefix_of_knows knew).eq_of_length_le end_
    rw [content_eq isContent] at all
    intro _ _
    refine ⟨got, rfl, ?_⟩
    rw [all]
    exact serves.settled _ content quiet isContent
  | readFails => cases quiet
  | refuses failed => exact fun _ answered200 => absurd answered200 failed
  | unknown => simp [Knows, internalErrorResponse]
  | copiesEnd =>
    intro isGet
    rw [show _ = "POST" from knew] at isGet
    simp at isGet
  | copyFails => simp [Knows, internalErrorResponse]
  | unread => trivial
  | reads => trivial

/-! ## Steps that write to a file -/

/-- A handler that did not move knows what it knew, if nothing has happened to the file it reads. -/
theorem Knows.frame (knows : Knows host initial s handler)
    (kept : ∀ file, s.files file ≠ none → t.files file ≠ none)
    (unchanged : ∀ file, midRead host file handler = true → s.pending file = none →
      t.pending file = none ∧ t.files file = s.files file)
    (more : ∃ later, t.answered = s.answered ++ later) : Knows host initial t handler := by
  cases handler with
  | opened request response => exact ⟨knows.1, kept _ knows.2⟩
  | sending request response got =>
    obtain ⟨isGet, exists_, started⟩ := knows
    refine ⟨isGet, kept _ exists_, fun some_ => ?_⟩
    obtain ⟨free, isPrefix⟩ := started some_
    obtain ⟨free', same⟩ := unchanged _ (by simp [midRead, some_]) free
    refine ⟨free', ?_⟩
    rw [content, same]
    exact isPrefix
  | answering request response body =>
    obtain ⟨later, grown⟩ := more
    intro isGet answered200
    obtain ⟨sent, isSent, whole⟩ := knows isGet answered200
    rw [grown]
    exact ⟨sent, isSent, whole.mono⟩
  | copying request copied => exact knows
  | reading => trivial
  | handling => trivial
  | leaving => trivial
  | returned => trivial

/-- Handler `k` writes a file of which it is the owner from now on. -/
theorem Serves.own (serves : Serves host initial s) {request : Request} {copied : Nat}
    (short : copied ≤ request.body.length) (found : s.listener.handlers[k]? = some handler) (isPost : request.method = "POST")
    (unread : ∀ reader ∈ s.listener.handlers, midRead host (host.file request) reader = false)
    (only : ∀ file, Owns host s file handler → file = host.file request) :
    Serves host initial
      { s.move k (.copying request copied) with
        files := Function.update s.files (host.file request) (some (request.body.take copied))
        pending := Function.update s.pending (host.file request) (some k) } where
  settled file content free isContent := by
    by_cases equal : file = host.file request
    · subst equal
      simp at free
    · simp only [Function.update_of_ne equal] at free isContent
      exact serves.settled file content free isContent
  owner file i claimed := by
    show ∃ owner, (s.listener.handlers.set k _)[i]? = some owner ∧ _
    by_cases equal : file = host.file request
    · subst equal
      simp only [Function.update_self, Option.some.injEq] at claimed
      subst claimed
      exact ⟨_, Pool.found_set_self found _, rfl, by simp, short⟩
    · simp only [Function.update_of_ne equal] at claimed
      obtain ⟨owner, isOwner, owns⟩ := serves.owner file i claimed
      -- The owner of another file is another handler.
      have other : k ≠ i := by
        rintro rfl
        obtain rfl : handler = owner := Option.some.inj (found.symm.trans isOwner)
        exact equal (only file owns)
      exact ⟨owner, (List.getElem?_set_ne other).trans isOwner,
        owns.frame (Function.update_of_ne equal _ _)⟩
  knows := by
    apply Pool.forall_set
    · intro reader member
      apply (serves.knows reader member).frame
      · intro file exists_
        by_cases equal : file = host.file request <;> simp [equal, exists_]
      · intro file reads free
        have equal : file ≠ host.file request := by
          rintro rfl
          simp [unread reader member] at reads
        simp [Function.update_of_ne equal, free]
      · exact ⟨[], (List.append_nil _).symm⟩
    · exact isPost
  served := serves.served

/-- The next chunk of a body, written behind those before it. -/
theorem writeAt_take (body : Bytes) {copied : Nat} (short : copied ≤ body.length) (n : Nat) :
    writeAt (body.take copied) copied ((body.drop copied).take n) =
      body.take (copied + ((body.drop copied).take n).length) := by
  have all : (body.take copied).length = copied := List.length_take_of_le short
  have written := writeAt_end (body.take copied) ((body.drop copied).take n)
  rw [all] at written
  rw [written, List.take_add, List.length_take, ← List.take_eq_take_min]

/-- The owner of a file goes on writing it: nobody is reading it. -/
theorem Serves.copies (serves : Serves host initial s) {request : Request} {copied : Nat}
    (found : s.listener.handlers[k]? = some (.copying request copied))
    (owner : s.pending (host.file request) = some k) (n : Nat) :
    Serves host initial (s.copyChunk host k request copied ((request.body.drop copied).take n)) := by
  have isPost : request.method = "POST" := serves.knows _ (Pool.mem_of_found found)
  obtain ⟨handler, isOwner, owns⟩ := serves.owner _ _ owner
  obtain rfl := Option.some.inj (found.symm.trans isOwner)
  have short : copied + ((request.body.drop copied).take n).length ≤ request.body.length := by
    have few := owns.2.2
    simp only [List.length_take, List.length_drop]
    omega
  have goesOn := serves.own short found isPost
    (by
      intro reader member
      by_contra reads
      have knows := serves.knows reader member
      cases reader with
      | sending other response got =>
        -- a reader in the middle of the file knows that no `POST` is about to change it
        simp only [midRead, Bool.not_eq_false, decide_eq_true_eq] at reads
        have free := (knows.2.2 reads.2).1
        rw [reads.1, owner] at free
        cases free
      | _ => simp [midRead] at reads)
    (fun file owns => owns.1.symm)
  rw [← owner, Function.update_eq_self] at goesOn
  rw [copyChunk, content_eq owns.2.1, writeAt_take _ owns.2.2]
  exact goesOn

/-! ## Answers -/

theorem settle_eq_none {pending : F → Option Nat} {answer : Answer} {file : F}
    (free : pending file = none) : settle host pending k answer file = none := by
  unfold settle
  split_ifs
  · by_cases equal : file = host.file answer.request <;> simp [equal, free]
  · exact free

theorem settle_eq_some {pending : F → Option Nat} {answer : Answer} {file : F} {i : Nat}
    (claimed : settle host pending k answer file = some i) : pending file = some i := by
  unfold settle at claimed
  split_ifs at claimed
  · by_cases equal : file = host.file answer.request
    · simp [equal] at claimed
    · rwa [Function.update_of_ne equal] at claimed
  · exact claimed

/-- An answer frees the file only of its owner, and with status 200. -/
theorem settled_of_settle {pending : F → Option Nat} {answer : Answer} {file : F}
    (free : settle host pending k answer file = none) :
    pending file = none ∨
      pending file = some k ∧ file = host.file answer.request ∧ answer.response.statusCode = 200 := by
  unfold settle at free
  split_ifs at free with owner
  · by_cases equal : file = host.file answer.request
    · exact .inr ⟨equal ▸ owner.2, equal, owner.1⟩
    · rw [Function.update_of_ne equal] at free
      exact .inl free
  · exact .inl free

/-- An answer is written; if it is a `GET` answered 200, as a whole. -/
theorem Serves.answers (serves : Serves host initial s) {request : Request} {response : Response}
    {body : Option Bytes} (found : s.listener.handlers[k]? = some (.answering request response body))
    {written : Option Bytes}
    (whole : request.method = "GET" → response.statusCode = 200 → written = body) :
    Serves host initial
      { s.move k .leaving with
        answered := s.answered ++ [⟨request, response, written⟩]
        pending := settle host s.pending k ⟨request, response, written⟩ } where
  settled file content free isContent := by
    obtain freeBefore | ⟨claimed, rfl, answered200⟩ := settled_of_settle free
    · exact (serves.settled file content freeBefore isContent).mono
    · -- the file is the one that this `POST` has just finished
      obtain ⟨owner, isOwner, owns⟩ := serves.owner _ _ claimed
      obtain rfl := Option.some.inj (found.symm.trans isOwner)
      obtain ⟨isPost, _, holds⟩ := owns
      obtain rfl : request.body = content := Option.some.inj ((holds answered200).symm.trans isContent)
      exact .inr ⟨_, List.mem_append_right _ (List.mem_singleton.mpr rfl), isPost, rfl, answered200, rfl⟩
  owner file i claimed := by
    show ∃ owner, (s.listener.handlers.set k _)[i]? = some owner ∧ _
    obtain ⟨owner, isOwner, owns⟩ := serves.owner file i (settle_eq_some claimed)
    by_cases equal : k = i
    · subst equal
      exact ⟨.leaving, Pool.found_set_self found _, trivial⟩
    · exact ⟨owner, (List.getElem?_set_ne equal).trans isOwner, owns⟩
  knows := by
    apply Pool.forall_set
    · intro reader member
      apply (serves.knows reader member).frame
      · exact fun _ exists_ => exists_
      · exact fun file _ free => ⟨settle_eq_none free, rfl⟩
      · exact ⟨_, rfl⟩
    · trivial
  served := by
    intro get member isGet answered200
    obtain old | new := List.mem_append.mp member
    · obtain ⟨sent, isSent, isWhole⟩ := serves.served get old isGet answered200
      exact ⟨sent, isSent, isWhole.mono⟩
    · obtain rfl := List.mem_singleton.mp new
      obtain ⟨sent, isSent, isWhole⟩ := serves.knows _ (Pool.mem_of_found found) isGet answered200
      exact ⟨sent, (whole isGet answered200).trans isSent, isWhole.mono⟩

/-! ## Runs -/

theorem serves_step (serves : Serves host initial s) (quiet : undisturbed host s e = true)
    (effect : Effect host s e t) : Serves host initial t := by
  cases effect with
  | accept moved => exact serves.loop (.inl (Listener.accept_handlers moved))
  | enter moved => exact serves.loop (Listener.enter_handlers moved)
  | wake moved => exact serves.loop (Listener.wake_handlers moved)
  | goes found goes =>
    have knew := serves.knows _ (Pool.mem_of_found found)
    exact serves.move found rfl (fun file => goes.owns knew) (goes.knows serves found quiet)
  | creates found isPost =>
    simp only [undisturbed, found, decide_eq_true_eq] at quiet
    exact serves.own (Nat.zero_le _) found isPost (quiet.resolve_left (not_not.mpr isPost)) fun _ owns =>
      owns.elim
  | copies found =>
    simp only [undisturbed, found, decide_eq_true_eq] at quiet
    exact serves.copies found quiet _
  | @writes k sent request response body found =>
    simp only [undisturbed, found, decide_eq_true_eq] at quiet
    unfold write
    split
    · next written isWritten =>
      refine serves.answers found fun isGet answered200 => ?_
      obtain rfl | rfl := (quiet.resolve_left (not_not.mpr isGet)).resolve_left (not_not.mpr answered200)
      · exact (Option.some.inj isWritten).symm
      · cases isWritten
    · exact serves.move found rfl (fun _ _ => trivial) trivial
  | leaves found => exact serves.move found rfl (fun _ _ => trivial) trivial

/-- In a run in which handlers do not get in each other's way, no read fails and no response to a `GET` is
written in part, every `GET` answered 200 carries the whole body of a `POST` to the same file that was answered
200, or the content at the start. -/
theorem serves_whole_of_undisturbed {files : F → Option Bytes}
    {taken : List (Taken (Server F) Event)} {final : Server F} (run : ServerRun host files taken final)
    (quiet : AllMeet (fun s e => undisturbed host s e = true) taken) :
    ServesWhole host files final :=
  (run.invariant quiet (serves_start files) fun _ _ _ serves undisturbed moved =>
    serves_step serves undisturbed (step_effect moved)).served

def aGetRequest : Request := ⟨"GET", "/a.txt", "", "HTTP/1.1", 1, 1, []⟩

def aPostRequest : Request := ⟨"POST", "/a.txt", "", "HTTP/1.1", 1, 1, [3, 4]⟩

/-- The directory of a server with one file. -/
def oneFile (file : String) : Option Bytes := if file = "/srv/a.txt" then some [1, 2] else none

/-- A connection with its request read. -/
def client (k : Nat) (request : Request) : List Event :=
  [.accept true, .enter, .read k (some request), .begin k true true]

/-- A `POST` and a `GET`, one after the other. -/
def inTurn : List Event :=
  client 0 aPostRequest ++ [.copy 0 1, .copy 0 512, .copyEnd 0, .answer 0 .all] ++
    client 1 aGetRequest ++
      [.stat 1 true, .readFile 1 1, .readFile 1 512, .readEnd 1, .answer 1 .all]

theorem serves_whole_in_turn :
    (∃ get ∈ (outcome (step plainHost) (start oneFile) inTurn).answered,
      get.request = aGetRequest ∧ get.response.statusCode = 200 ∧ get.body = some [3, 4]) ∧
    ServesWhole plainHost oneFile (outcome (step plainHost) (start oneFile) inTurn) :=
  ⟨by decide, serves_whole_of_undisturbed (run_trace _ _ inTurn) (by decide)⟩

/-- A `GET` that begins when a `POST` has truncated the file. -/
def overlapping : List Event :=
  client 0 aPostRequest ++ client 1 aGetRequest ++
    [.stat 1 true, .readEnd 1, .answer 1 .all, .copy 0 512, .copyEnd 0, .answer 0 .all]

/-- The `GET` is answered 200 with nothing, though neither the file at the start nor the body of the
`POST` was empty. -/
theorem empty_get_in_overlap : ∃ taken final, ServerRun plainHost oneFile taken final ∧
    ¬ ServesWhole plainHost oneFile final := by
  refine ⟨_, _, run_trace (step plainHost) (start oneFile) overlapping, fun serves => ?_⟩
  have empty : ∃ get ∈ (outcome (step plainHost) (start oneFile) overlapping).answered,
      get.request = aGetRequest ∧ get.response.statusCode = 200 ∧ get.body = some [] := by decide
  have noPost : ¬ ∃ post ∈ (outcome (step plainHost) (start oneFile) overlapping).answered,
      post.request.method = "POST" ∧ plainHost.file post.request = plainHost.file aGetRequest ∧
        post.response.statusCode = 200 ∧ post.request.body = [] := by decide
  obtain ⟨get, member, isGet, answered200, sent⟩ := empty
  obtain ⟨body, isBody, whole⟩ := serves get member (by rw [isGet]; rfl) answered200
  obtain rfl : [] = body := Option.some.inj (sent.symm.trans isBody)
  rw [isGet] at whole
  obtain atStart | posted := whole
  · exact absurd atStart (by decide)
  · exact noPost posted

end Tda596Labs.Http.Server
