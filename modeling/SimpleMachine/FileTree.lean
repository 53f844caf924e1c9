import SimpleMachine.Machine.Loading

/-!
# SimpleMachine.FileTree

A tree of files and directories, and the two ways in which a relative path finds a file in it.

- `FileTree.walk`: name by name through directories that exist.
- `FileTree.shorten`: on the path alone, where `..` takes back the name before it.
- `FileTree.find`, `FileTree.findShortened`: the bytes of the file at a path, found in these ways.

A path that leaves the tree finds nothing. The only symbolic links in a tree are those that lead back
to themselves; every file can be read by everybody, and nothing changes while a path is followed.
-/

namespace SimpleMachine

/-- The names along a path: the pieces between its slashes, some of which may be empty. -/
def pathNames (path : String) : List String :=
  let (first, more) := path.toList.foldr
    (fun c (piece, more) => if c = '/' then ([], piece :: more) else (c :: piece, more))
    (([] : List Char), ([] : List (List Char)))
  (first :: more).map String.ofList

inductive FileTree.Entry where
  | file (bytes : ByteArray)
  | directory
  /-- A symbolic link that leads back to itself. -/
  | loop
  deriving Inhabited

/-- Files and directories, by their places: the names that lead to them from the root. The root
and every directory on the way to an entry exist as well. -/
structure FileTree where
  entries : List (List String × FileTree.Entry) := []
  deriving Inhabited

namespace FileTree

/-- The longest path, in bytes, that can be opened. -/
def maxPathBytes : Nat := 4095

def insert (t : FileTree) (path : String) (e : Entry) : FileTree :=
  ⟨t.entries ++ [((pathNames path).filter (· ≠ ""), e)]⟩

def entry? (t : FileTree) (place : List String) : Option Entry :=
  match t.entries.lookup place with
  | some e => some e
  | none =>
    if place = [] ∨ t.entries.any (fun (p, _) => place.isPrefixOf p) then some .directory else none

/-- The place that is reached from a place by following names one after the other. Every place on
the way must be a directory; an empty name or `.` stays, and `..` goes back. -/
def walk (t : FileTree) : List String → List String → Option (List String)
  | place, [] => some place
  | place, name :: names =>
    match t.entry? place with
    | some .directory =>
      if name = "" ∨ name = "." then walk t place names
      else if name = ".." then
        if place = [] then none else walk t place.dropLast names
      else walk t (place ++ [name]) names
    | _ => none

/-- The place that names lead to when `..` takes back the name before it, whether or not that name
is a directory. -/
def shorten : List String → List String → Option (List String)
  | place, [] => some place
  | place, name :: names =>
    if name = "" ∨ name = "." then shorten place names
    else if name = ".." then
      if place = [] then none else shorten place.dropLast names
    else shorten (place ++ [name]) names

/-- Whether the way from a place along names runs into a link that leads back to itself before it
ends anywhere else. -/
def runsIntoLoop (t : FileTree) (place names : List String) : Bool :=
  match t.entry? place, names with
  | some .loop, _ => true
  | some .directory, name :: names => runsIntoLoop t (place ++ [name]) names
  | _, _ => false

def contents (t : FileTree) (place : Option (List String)) : Except OpenError ByteArray :=
  match place.bind t.entry? with
  | some (.file bytes) => .ok bytes
  | _ => .error .unreadable

def find (t : FileTree) (path : String) : Except OpenError ByteArray :=
  if '\x00' ∈ path.toList then .error .nulInPath
  else if path = "" ∨ path.startsWith "/" ∨ maxPathBytes < path.utf8ByteSize then
    .error .unreadable
  else t.contents (t.walk [] (pathNames path))

def place? (path : String) : Option (List String) :=
  if path.startsWith "/" then none else shorten [] (pathNames path)

/-- The bytes of the file that a relative path leads to when it is shortened first. Links that lead
back to themselves are looked for on the shortened path. -/
def findShortened (t : FileTree) (path : String) : Except OpenError ByteArray :=
  if '\x00' ∈ path.toList then .error .nulInPath
  else if (place? path).any (t.runsIntoLoop []) then .error .linkLoop
  else t.contents (place? path)

end FileTree

def Machine.read (files : FileTree) (path : String) (encoding : String := "utf-8") (m : Machine) :
    ReadResult :=
  m.readContents path encoding (files.find path)

end SimpleMachine
