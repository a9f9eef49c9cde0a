import JackStack.Text.Position

/-!
# Files/Path — the parts of a path

A path is a text in which slashes divide pieces. Its file name is its last piece, where trailing
slashes and pieces that are a single dot do not count; a path whose last piece is `..`, or that has
no piece, has none. The stem of a file name ends before its last dot, and its extension starts
behind it; a dot at the start of the name starts no extension.

* `Path.withExtension?` — the path of an output file.
* `Path.directoryOf` — the directory that a file is in.
-/

namespace JackStack.Path

/-! ## Pieces -/

/-- **The pieces of a path**, empty ones included. -/
def pieces : List Char → List (List Char)
  | [] => [[]]
  | c :: cs =>
    if c = '/' then [] :: pieces cs
    else
      match pieces cs with
      | [] => [[c]]
      | p :: ps => (c :: p) :: ps

/-- A path without what may stand behind its file name: slashes, and dots that are pieces. Both the
path and the result are read from the end. -/
def trimReversed : List Char → List Char
  | '/' :: cs => trimReversed cs
  | '.' :: '/' :: cs => trimReversed cs
  | cs => cs

/-! ## File names -/

/-- **A path up to its file name**: what stands before the name, and the name. -/
structure Parts where
  lead : List Char
  name : List Char
  deriving DecidableEq, Repr

/-- **The parts of a path** that has a file name. -/
def parts? (path : List Char) : Option Parts :=
  let trimmed := trimReversed path.reverse
  let name := (trimmed.takeWhile (· ≠ '/')).reverse
  if name = [] ∨ name = ['.'] ∨ name = ['.', '.'] then none
  else some ⟨(trimmed.dropWhile (· ≠ '/')).reverse, name⟩

/-- **The stem and the extension of a file name.** -/
def splitName (name : List Char) : List Char × Option (List Char) :=
  let extension := (name.reverse.takeWhile (· ≠ '.')).reverse
  let stem := ((name.reverse.dropWhile (· ≠ '.')).drop 1).reverse
  if stem = [] then (name, none) else (stem, some extension)

/-- **The stem of the file name** of a path. -/
def stem? (path : List Char) : Option (List Char) :=
  (parts? path).map fun p => (splitName p.name).1

/-- **The extension of the file name** of a path. -/
def extension? (path : List Char) : Option (List Char) :=
  (parts? path).bind fun p => (splitName p.name).2

/-! ## Directories -/

/-- **A path without slashes and single dots at its end.** The root stays a slash. -/
def trimmed (path : String) : String :=
  match trimReversed path.toList.reverse with
  | [] => "/"
  | rest => String.ofList rest.reverse

/-- **The directory of a path**: what stands before its last piece, or a dot if nothing does. -/
def directoryOf (path : String) : String :=
  match (trimReversed path.toList.reverse).dropWhile (· ≠ '/') with
  | [] => "."
  | lead => trimmed (String.ofList lead.reverse)

/-- **The path of a file in a directory.** -/
def join (directory name : String) : String :=
  if directory.toList.getLast?.all (· = '/') then directory ++ name
  else directory ++ "/" ++ name

/-- **A path seen from a directory.** One that starts with a slash is the same from everywhere. -/
def resolve (directory path : String) : String :=
  if path.toList.head? = some '/' then path else join directory path

/-! ## Output files -/

/-- The characters left when `n` bytes are cut off, of a text that is read from the end. A character
that would be cut in two stays. -/
def dropBytes : Nat → List Char → List Char
  | _, [] => []
  | n, c :: cs => if c.utf8Size ≤ n then dropBytes (n - c.utf8Size) cs else c :: cs

/-- **A path without its extension**: as many bytes as it has are cut off at the end of the path. -/
def cutExtension (path : List Char) : List Char :=
  match extension? path with
  | none => path
  | some extension =>
    (dropBytes (Text.byteLength extension) path.reverse).reverse

/-- **A path with an extension put behind the stem** of its file name. -/
def putExtension (path extension : List Char) : List Char :=
  match parts? path with
  | none => path
  | some p =>
    p.lead ++ (splitName p.name).1 ++ if extension = [] then [] else '.' :: extension

/-- **A path with another extension.** The old one is cut off before the new one is put behind the
stem, so a name whose stem is a single dot becomes `..`, which takes no extension. An extension is
part of a name, so there is no path with one that holds a slash. -/
def withExtension? (path extension : String) : Option String :=
  if '/' ∈ extension.toList then none
  else some (String.ofList (putExtension (cutExtension path.toList) extension.toList))

end JackStack.Path
