import Mathlib.Data.List.Induction
import Mathlib.Data.List.Infix

/-! # Lexical resolution of paths

A path is a text of segments between slashes.  An empty segment and `.` stay where they are, `..` goes up,
any other segment goes down to the name it is.  At the root there is no way up.

What a list of moves does does not depend on where it begins: it goes up a number of directories and from
there down a list of names (`Route`).  So the question whether a text that is appended to the path of a
directory leads to something below that directory is decided by the text and the last names of the
directory: after going up, it has to come down along these names again.
-/

namespace Tda596Labs.Path

/-! ## Moves and routes -/

section Moves

variable {α : Type*}

inductive Move (α : Type*) where
  | stay
  | up
  | down (name : α)
  deriving DecidableEq, Repr

/-- One move, from a directory given by its names from the root on. -/
def Move.apply (dir : List α) : Move α → List α
  | stay => dir
  | up => dir.dropLast
  | down name => dir ++ [name]

def walk (dir : List α) (moves : List (Move α)) : List α := moves.foldl Move.apply dir

theorem walk_append (dir : List α) (moves more : List (Move α)) :
    walk dir (moves ++ more) = walk (walk dir moves) more := List.foldl_append

theorem walk_down (dir names : List α) : walk dir (names.map .down) = dir ++ names := by
  induction names using List.reverseRecOn with
  | nil => simp [walk]
  | append_singleton names name ih => rw [List.map_append, walk_append, ih, ← List.append_assoc]; rfl

/-- Where moves lead from an unknown directory: so many directories up, and then down along names. -/
structure Route (α : Type*) where
  ups : Nat
  names : List α
  deriving DecidableEq, Repr

def Route.add [DecidableEq α] (route : Route α) : Move α → Route α
  | .stay => route
  | .up => if route.names = [] then ⟨route.ups + 1, []⟩ else ⟨route.ups, route.names.dropLast⟩
  | .down name => ⟨route.ups, route.names ++ [name]⟩

/-- `path` is something below the directory `dir`. -/
def Below (dir path : List α) : Prop := dir <+: path ∧ dir ≠ path

theorem below_append_iff (dir rest path : List α) : Below (dir ++ rest) (dir ++ path) ↔ Below rest path := by
  unfold Below
  rw [List.prefix_append_right_inj, ne_eq, ne_eq, List.append_cancel_left_eq]

theorem below_take_append_iff (dir path : List α) (n : Nat) :
    Below dir (dir.take n ++ path) ↔ Below (dir.drop n) path := by
  have parts := below_append_iff (dir.take n) (dir.drop n) path
  rwa [List.take_append_drop] at parts

variable [DecidableEq α]

instance (dir path : List α) : Decidable (Below dir path) := inferInstanceAs (Decidable (_ ∧ _))

def route (moves : List (Move α)) : Route α := moves.foldl Route.add ⟨0, []⟩

theorem walk_eq_route (dir : List α) (moves : List (Move α)) :
    walk dir moves = dir.take (dir.length - (route moves).ups) ++ (route moves).names := by
  induction moves using List.reverseRecOn with
  | nil => simp [walk, route]
  | append_singleton moves move ih =>
    have added : route (moves ++ [move]) = (route moves).add move := by simp [route]
    rw [walk_append, ih, added]
    cases move with
    | stay => rfl
    | down name => exact List.append_assoc ..
    | up =>
      change List.dropLast (_ ++ _) = _
      by_cases none_ : (route moves).names = []
      · rw [Route.add, if_pos none_, none_, List.append_nil, List.append_nil, List.dropLast_eq_take,
          List.length_take, List.take_take]
        congr 1
        dsimp only
        omega
      · rw [Route.add, if_neg none_, List.dropLast_append_of_ne_nil none_]

/-- Moves that begin at `other` in place of `dir` lead below `dir`, if the two differ in their last name
only. -/
theorem below_walk_sibling_iff {parent : List α} {name other : α} (differ : name ≠ other)
    (moves : List (Move α)) :
    Below (parent ++ [name]) (walk (parent ++ [other]) moves) ↔
      0 < (route moves).ups ∧
        Below ((parent ++ [name]).drop ((parent ++ [name]).length - (route moves).ups)) (route moves).names := by
  rw [walk_eq_route, ← below_take_append_iff]
  by_cases climbs : 0 < (route moves).ups
  · have same : (parent ++ [other]).take ((parent ++ [other]).length - (route moves).ups) =
        (parent ++ [name]).take ((parent ++ [name]).length - (route moves).ups) := by
      rw [List.length_append, List.length_append, List.length_singleton, List.length_singleton,
        List.take_append_of_le_length (by omega), List.take_append_of_le_length (by omega)]
    rw [same, and_iff_right climbs]
  · have never : (route moves).ups = 0 := by omega
    refine iff_of_false (fun below => differ ?_) fun both => climbs both.1
    rw [never, Nat.sub_zero, List.take_length, List.append_assoc, below_append_iff] at below
    simpa using below.1

end Moves

/-! ## Texts -/

/-- The segments of a path. -/
def segments (path : List Char) : List (List Char) := path.splitOn '/'

def move (segment : List Char) : Move (List Char) :=
  if segment = [] ∨ segment = ['.'] then .stay else if segment = ['.', '.'] then .up else .down segment

/-- Where an absolute path leads. -/
def resolve (path : List Char) : List (List Char) := walk [] ((segments path).map move)

/-- The name of a file or a directory. -/
structure IsName (segment : List Char) : Prop where
  nonempty : segment ≠ []
  notDot : segment ≠ ['.']
  notDots : segment ≠ ['.', '.']
  noSlash : '/' ∉ segment

instance (segment : List Char) : Decidable (IsName segment) :=
  decidable_of_iff (segment ≠ [] ∧ segment ≠ ['.'] ∧ segment ≠ ['.', '.'] ∧ '/' ∉ segment)
    ⟨fun ⟨a, b, c, d⟩ => ⟨a, b, c, d⟩, fun name => ⟨name.nonempty, name.notDot, name.notDots, name.noSlash⟩⟩

theorem IsName.move {segment : List Char} (name : IsName segment) : move segment = .down segment := by
  simp [Path.move, name.nonempty, name.notDot, name.notDots]

/-- A name stays one with anything appended to it. -/
theorem IsName.move_append {segment : List Char} (name : IsName segment) (text : List Char) :
    Path.move (segment ++ text) = .down (segment ++ text) := by
  obtain ⟨nonempty, notDot, notDots, _⟩ := name
  match segment with
  | [] => exact absurd rfl nonempty
  | [a] =>
    have other : a ≠ '.' := by simpa using notDot
    simp [Path.move, other]
  | [a, b] =>
    have other : a = '.' → b ≠ '.' := by simpa using notDots
    simp only [Path.move, List.cons_append, List.nil_append, reduceCtorEq, List.cons.injEq, and_false, or_self,
      if_false]
    exact if_neg fun same => other same.1 same.2.1
  | a :: b :: c :: rest => simp [Path.move]

/-- The path of a directory. -/
def render (names : List (List Char)) : List Char :=
  if names = [] then ['/'] else names.flatMap fun name => '/' :: name

theorem segments_slash (text : List Char) : segments ('/' :: text) = [] :: segments text := by
  have split := List.splitOn_append_cons_self_of_not_mem (List.not_mem_nil (a := '/')) text
  rwa [List.nil_append] at split

theorem segments_append {name : List Char} (free : '/' ∉ name) (text : List Char) :
    segments (name ++ text) = (segments text).modifyHead (name ++ ·) := by
  unfold segments
  by_cases more : '/' ∈ text
  · obtain ⟨first, rest, rfl, free'⟩ := List.eq_append_cons_of_mem more
    have whole : '/' ∉ name ++ first := fun inside => (List.mem_append.mp inside).elim free free'
    rw [← List.append_assoc, List.splitOn_append_cons_self_of_not_mem whole,
      List.splitOn_append_cons_self_of_not_mem free', List.modifyHead_cons]
  · have whole : '/' ∉ name ++ text := fun inside => (List.mem_append.mp inside).elim free more
    rw [List.splitOn_eq_singleton whole, List.splitOn_eq_singleton more, List.modifyHead_cons]

/-- The segments of a path that goes down along names before a text. -/
theorem segments_flatMap {names : List (List Char)} (free : ∀ name ∈ names, '/' ∉ name) (text : List Char) :
    segments ((names.flatMap fun name => '/' :: name) ++ '/' :: text) = [] :: (names ++ segments text) := by
  induction names with
  | nil => exact segments_slash text
  | cons name names ih =>
    rw [List.forall_mem_cons] at free
    rw [List.flatMap_cons, List.cons_append, List.cons_append, List.append_assoc, segments_slash,
      segments_append free.1, ih free.2, List.modifyHead_cons, List.append_nil, List.cons_append]

/-! ## A text after the path of a directory -/

section After

variable {dir : List (List Char)} {uri first : List Char} {rest : List (List Char)}

theorem walk_names {names : List (List Char)} (isName : ∀ name ∈ names, IsName name) (dir : List (List Char)) :
    walk dir (names.map move) = dir ++ names := by
  have moves : names.map move = names.map .down := List.map_congr_left fun name member => (isName name member).move
  rw [moves, walk_down]

/-- After the root every segment of the text is a move. -/
theorem resolve_root (uri : List Char) : resolve (render [] ++ uri) = (route ((segments uri).map move)).names := by
  have path : segments (render [] ++ uri) = [] :: segments uri := segments_slash uri
  rw [resolve, path, List.map_cons, walk, List.foldl_cons]
  change walk [] _ = _
  rw [walk_eq_route, List.take_nil, List.nil_append]

/-- Elsewhere the first segment is glued to the last name of the directory. -/
theorem resolve_append {parent : List (List Char)} {last : List Char} (isName : ∀ name ∈ parent ++ [last], IsName name)
    (split : segments uri = first :: rest) :
    resolve (render (parent ++ [last]) ++ uri) = walk (parent ++ [last ++ first]) (rest.map move) := by
  have path : render (parent ++ [last]) ++ uri =
      (parent.flatMap fun name => '/' :: name) ++ '/' :: (last ++ uri) := by
    simp [render]
  have name := isName last (by simp)
  rw [resolve, path, segments_flatMap fun name member => (isName name (by simp [member])).noSlash,
    segments_append name.noSlash, split, List.modifyHead_cons, List.map_cons, List.map_append, List.map_cons,
    name.move_append, walk, List.foldl_cons]
  change walk [] _ = _
  rw [walk_append, walk_names fun name member => isName name (by simp [member])]
  rfl

/-- What a text has to be so that it leads below the directory whose path it follows.  It begins with a slash,
or it goes up at least once: otherwise its first segment changes the last name of the directory.  And where
it has gone up, it comes down along the names of the directory again. -/
def Contained (dir : List (List Char)) (uri : List Char) : Prop :=
  if dir = [] then (route ((segments uri).map move)).names ≠ []
  else
    let taken := route ((segments uri).tail.map move)
    ((segments uri).head? = some [] ∨ 0 < taken.ups) ∧ Below (dir.drop (dir.length - taken.ups)) taken.names

instance (dir : List (List Char)) (uri : List Char) : Decidable (Contained dir uri) := by
  unfold Contained
  infer_instance

theorem below_resolve_iff (isName : ∀ name ∈ dir, IsName name) (uri : List Char) :
    Below dir (resolve (render dir ++ uri)) ↔ Contained dir uri := by
  obtain ⟨first, rest, split⟩ := List.exists_cons_of_ne_nil (List.splitOn_ne_nil '/' uri)
  obtain rfl | ⟨parent, last, rfl⟩ := dir.eq_nil_or_concat'
  · rw [resolve_root, Contained, if_pos rfl]
    exact ⟨fun below => below.2.symm, fun some_ => ⟨List.nil_prefix, some_.symm⟩⟩
  · rw [resolve_append isName split, Contained, if_neg (by simp)]
    have parts : segments uri = first :: rest := split
    simp only [parts, List.head?_cons, List.tail_cons, Option.some.injEq]
    by_cases glued : first = []
    · subst glued
      rw [List.append_nil, walk_eq_route, below_take_append_iff]
      simp
    · have differ : last ≠ last ++ first := by simpa using glued
      rw [below_walk_sibling_iff differ]
      simp [glued]

end After

/-! ## Cleaned paths

Two paths that are appended to the path of one directory lead to the same place if they have the same route, and
the route is known from the cleaned path.  A name is its own cleaned path. -/

section Clean

theorem route_snoc {α : Type*} [DecidableEq α] (moves : List (Move α)) (last : Move α) :
    route (moves ++ [last]) = (route moves).add last := by
  simp [route]

/-- The segments that spell a route. -/
def Route.spelling (route : Route (List Char)) : List (List Char) :=
  List.replicate route.ups ['.', '.'] ++ route.names

/-- The shortest path that leads where the path leads. -/
@[irreducible] def clean (path : String) : String :=
  String.ofList (['/'].intercalate (route ((segments path.toList).map move)).spelling)

theorem isName_of_move {segment name : List Char} (free : '/' ∉ segment) (down : move segment = .down name) :
    IsName name := by
  unfold move at down
  split at down
  · cases down
  · next some_ =>
    split at down
    · cases down
    · next notDots =>
      obtain rfl := Move.down.inj down
      rw [not_or] at some_
      exact ⟨some_.1, some_.2, notDots, free⟩

theorem isName_of_mem_route {path : List (List Char)} (free : ∀ segment ∈ path, '/' ∉ segment) :
    ∀ name ∈ (route (path.map move)).names, IsName name := by
  induction path using List.reverseRecOn with
  | nil => simp [route]
  | append_singleton path last ih =>
    have before := ih fun segment member => free segment (List.mem_append_left _ member)
    rw [List.map_append, List.map_singleton, route_snoc]
    cases moved : move last with
    | stay => exact before
    | up =>
      rw [Route.add]
      split
      · simp
      · exact fun name member => before name (List.mem_of_mem_dropLast member)
    | down name =>
      have isName := isName_of_move (free last (by simp)) moved
      exact List.forall_mem_append.mpr ⟨before, List.forall_mem_singleton.mpr isName⟩

theorem route_ups (n : Nat) : route ((List.replicate n ['.', '.']).map move) = ⟨n, []⟩ := by
  induction n with
  | zero => rfl
  | succ n ih =>
    rw [List.replicate_succ', List.map_append, List.map_singleton, route_snoc, ih]
    rfl

/-- A route is spelled by its spelling. -/
theorem route_spelling {taken : Route (List Char)} (isName : ∀ name ∈ taken.names, IsName name) :
    route (taken.spelling.map move) = taken := by
  obtain ⟨ups, names⟩ := taken
  simp only [Route.spelling] at isName ⊢
  induction names using List.reverseRecOn with
  | nil => rw [List.append_nil, route_ups]
  | append_singleton names last ih =>
    obtain ⟨before, here⟩ := List.forall_mem_append.mp isName
    rw [← List.append_assoc, List.map_append, List.map_singleton, route_snoc, ih before,
      (here last (List.mem_singleton.mpr rfl)).move]
    rfl

theorem not_mem_segments (path : List Char) : ∀ segment ∈ segments path, '/' ∉ segment := by
  induction length : path.length using Nat.strongRecOn generalizing path with
  | _ n ih =>
    unfold segments
    by_cases more : '/' ∈ path
    · obtain ⟨first, rest, rfl, free⟩ := List.eq_append_cons_of_mem more
      rw [List.splitOn_append_cons_self_of_not_mem free]
      have shorter : rest.length < n := by
        rw [← length, List.length_append, List.length_cons]
        omega
      exact List.forall_mem_cons.mpr ⟨free, ih rest.length shorter rest rfl⟩
    · rw [List.splitOn_eq_singleton more]
      exact List.forall_mem_singleton.mpr more

theorem segments_intercalate {parts : List (List Char)} (free : ∀ part ∈ parts, '/' ∉ part) (some_ : parts ≠ []) :
    segments (['/'].intercalate parts) = parts :=
  List.splitOn_intercalate '/' free some_

theorem clean_clean (path : String) : clean (clean path) = clean path := by
  have isName := isName_of_mem_route (not_mem_segments path.toList)
  simp only [clean]
  generalize route ((segments path.toList).map move) = taken at isName
  have free : ∀ part ∈ taken.spelling, '/' ∉ part := by
    refine List.forall_mem_append.mpr ⟨fun part member => ?_, fun part member => (isName part member).noSlash⟩
    rw [List.eq_of_mem_replicate member]
    decide
  rw [String.toList_ofList]
  by_cases nothing : taken.spelling = []
  · simp only [nothing]
    rfl
  · rw [segments_intercalate free nothing, route_spelling isName]

theorem clean_of_isName {name : String} (isName : IsName name.toList) : clean name = name := by
  have single : segments name.toList = [name.toList] := List.splitOn_eq_singleton isName.noSlash
  have here : route ((segments name.toList).map move) = ⟨0, [name.toList]⟩ := by
    rw [single, List.map_singleton, isName.move]
    rfl
  rw [clean, here]
  simp [Route.spelling]

end Clean

end Tda596Labs.Path
