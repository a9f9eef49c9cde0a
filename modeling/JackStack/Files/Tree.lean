import JackStack.Error
import JackStack.Files.Path

/-!
# Files/Tree — files and directories below a working directory

A tree is a table of entries by location, the names that lead to an entry from the working
directory. Paths are followed piece by piece: every piece but the last has to lead to a directory, a
dot stays where it is, two dots go up. Names and paths have a largest length, in bytes. The faults
are those that a file system reports.
-/

namespace JackStack

/-- **A file with its bytes, or a directory.** -/
inductive Entry where
  | file (content : ByteArray)
  | directory
  deriving Inhabited

/-- **Where an entry stands**: the names from the working directory down to it. -/
abbrev Location := List String

/-- **A tree of files.** The working directory is in it without an entry; `base` is its path. -/
structure FileTree where
  entries : List (Location × Entry) := []
  base : String := "/"
  deriving Inhabited

namespace FileTree

/-! ## Entries -/

/-- **The entry at a location.** -/
def entry? (t : FileTree) : Location → Option Entry
  | [] => some .directory
  | here => t.entries.lookup here

/-- The tree without the entry at a location. -/
def erase (t : FileTree) (here : Location) : FileTree :=
  { t with entries := t.entries.filter (·.1 ≠ here) }

/-- **The tree with an entry put at a location**, in place of one that was there. -/
def insert (t : FileTree) (here : Location) (e : Entry) : FileTree :=
  { t with entries := (here, e) :: (t.erase here).entries }

/-- The name of a location inside a directory, if it is directly inside. -/
def nameIn? : Location → Location → Option String
  | [], [name] => some name
  | d :: directory, h :: here => if d = h then nameIn? directory here else none
  | _, _ => none

/-- **The names directly inside a directory** and their entries, in the order of their characters.
-/
def children (t : FileTree) (directory : Location) : List (String × Entry) :=
  let inside := t.entries.filterMap fun (here, e) => (nameIn? directory here).map (·, e)
  inside.mergeSort fun a b => decide (a.1 ≤ b.1)

/-! ## Following paths -/

/-- **The largest length of a name**, in bytes. -/
def nameLimit : Nat := 255

/-- **The largest length of a path**, in bytes. -/
def pathLimit : Nat := 4095

/-- A name may be looked for in a directory. -/
def checkName (name : String) : Except FileFault Unit :=
  if nameLimit < name.utf8ByteSize then .error .nameTooLong else .ok ()

/-- A path may be followed. One that holds a NUL is refused with the fault `onNul`. -/
def checkPath (onNul : FileFault) (path : String) : Except FileFault Unit :=
  if '\x00' ∈ path.toList then .error onNul
  else if pathLimit < path.utf8ByteSize then .error .nameTooLong
  else .ok ()

/-- **Follows the pieces of a path** from a location on. -/
def walk (t : FileTree) : Location → List String → Except FileFault Location
  | here, [] => .ok here
  | here, piece :: rest =>
    match t.entry? here with
    | none => .error .notFound
    | some (.file _) => .error .notADirectory
    | some .directory =>
      if piece = "" ∨ piece = "." then t.walk here rest
      else if piece = ".." then t.walk here.dropLast rest
      else do
        checkName piece
        t.walk (here ++ [piece]) rest

/-- The pieces of a path, as texts. -/
def piecesOf (path : String) : List String :=
  (Path.pieces path.toList).map String.ofList

/-- **The entry that a path leads to**, with its location. The empty path leads nowhere. -/
def lookup (t : FileTree) (path : String) : Except FileFault (Location × Entry) :=
  if path = "" then .error .notFound
  else do
    checkPath .nulInPath path
    let here ← t.walk [] (piecesOf path)
    match t.entry? here with
    | some e => return (here, e)
    | none => throw .notFound

/-- The path leads to an entry. -/
def exists? (t : FileTree) (path : String) : Bool :=
  (t.lookup path).isOk

/-! ## Reading and writing -/

/-- **The bytes of a file.** -/
def read (t : FileTree) (path : String) : Except FileFault ByteArray := do
  match ← t.lookup path with
  | (_, .file content) => return content
  | (_, .directory) => throw .isADirectory

/-- **The text of a file**, which has to be well-formed. -/
def readText (t : FileTree) (path : String) : Except FileFault String := do
  match String.fromUTF8? (← t.read path) with
  | some text => return text
  | none => throw .notUtf8

/-- **Where a file is to be put**: the directory, and the last piece of the path. -/
def target (t : FileTree) (path : String) : Except FileFault (Location × String) := do
  let pieces := ((piecesOf path).reverse.dropWhile (· = "")).reverse
  let directory ← t.walk [] pieces.dropLast
  match t.entry? directory with
  | some .directory => return (directory, pieces.getLast?.getD "")
  | some (.file _) => throw .notADirectory
  | none => throw .notFound

/-- **The path of a temporary file** in a directory, from the root. Its name ends in six characters
that are drawn at random; each is an `X` here. -/
def temporaryIn (t : FileTree) (directory : String) : String :=
  Path.join (Path.resolve t.base directory) ".tmpXXXXXX"

/-- **Where a temporary file is made** that is to become the file at a path: in the directory of
that file, if the path of the temporary file is not too long. -/
def stage (t : FileTree) (path : String) : Except FileFault Location :=
  let temporary := t.temporaryIn (Path.directoryOf path)
  if pathLimit < temporary.utf8ByteSize then .error (.temporaryTooLong temporary)
  else do
    let (directory, _) ← t.target path
    return directory

/-- A piece names an entry of its directory, and is not a way to another place. -/
def isName (piece : String) : Bool :=
  piece ≠ "" && piece ≠ "." && piece ≠ ".."

/-- **The tree with a file put in a directory**, in place of a file of that name. -/
def put (t : FileTree) (directory : Location) (name : String) (content : ByteArray) :
    Except FileFault FileTree := do
  checkName name
  match t.entry? (directory ++ [name]) with
  | some .directory => throw .isADirectory
  | _ => return t.insert (directory ++ [name]) (.file content)

/-- **Creates a file**, or replaces what it holds. -/
def create (t : FileTree) (path : String) (content : ByteArray) : Except FileFault FileTree :=
  if path = "" then .error .notFound
  else do
    checkPath .nulInPath path
    let (directory, name) ← t.target path
    if isName name && !path.endsWith "/" then t.put directory name content
    else throw .isADirectory

/-- **Puts a finished file at a path**, in place of a file that was there. -/
def replace (t : FileTree) (path : String) (content : ByteArray) : Except FileFault FileTree := do
  checkPath .invalidArgument path
  let (directory, name) ← t.target path
  if isName name then t.put directory name content
  else throw .busy

/-- **Removes the file** that a path leads to, if there is one. -/
def remove (t : FileTree) (path : String) : FileTree :=
  match t.lookup path with
  | .ok (here, _) => t.erase here
  | .error _ => t

/-- The tree with directories on the way from a location down the names. -/
def addDirectories (t : FileTree) : Location → List String → FileTree
  | _, [] => t
  | here, name :: rest =>
    let next := if name = "" ∨ name = "." then here
      else if name = ".." then here.dropLast
      else here ++ [name]
    let t := match t.entry? next with
      | some _ => t
      | none => t.insert next .directory
    t.addDirectories next rest

/-- **The tree with a directory** at a path, and those above it. -/
def makeDirectory (t : FileTree) (path : String) : FileTree :=
  t.addDirectories [] (piecesOf path)

/-- **The tree with a file** at a path, and the directories above it. -/
def makeFile (t : FileTree) (path : String) (content : ByteArray) : FileTree :=
  let t := t.addDirectories [] (piecesOf path).dropLast
  match t.create path content with
  | .ok t => t
  | .error _ => t

end FileTree

end JackStack
