import JackStack.CommandLine.Run

/-!
# Main — the command `jackc`

The command works on a picture of the files that its arguments name. What it writes is put on disk
afterwards.
-/

namespace JackStack.Main

/-- A path as the file system takes it. -/
def onDisk (path : String) : IO.FS.DirEntry :=
  { root := path, fileName := "" }

/-- The path of the directory above. -/
def above (path : String) : String :=
  String.intercalate "/" (FileTree.piecesOf path).dropLast

/-- **Adds what is on disk at a path**: a file, or a directory and what is directly inside it. At a
path where nothing is, the directory above is added. -/
def addPath (t : FileTree) (path : String) : IO FileTree := do
  let place := (onDisk path).root
  if ← place.isDir then
    let mut t := t.makeDirectory path
    for e in ← place.readDir do
      let inside := Path.join path e.fileName
      if ← e.path.isDir then t := t.makeDirectory inside
      else t := t.makeFile inside (← IO.FS.readBinFile inside)
    return t
  else if ← place.pathExists then
    return t.makeFile path (← IO.FS.readBinFile path)
  else if ← (onDisk (above path)).root.isDir then
    return t.makeDirectory (above path)
  else return t

/-- **Puts a written file on disk.** -/
def store (t : FileTree) (path : String) : IO Unit := do
  match t.read path with
  | .ok content => IO.FS.writeBinFile path content
  | .error _ => pure ()

end JackStack.Main

def main (args : List String) : IO UInt32 := do
  let base := (← IO.currentDir).toString
  let files ← (JackStack.CommandLine.pathsOf args).foldlM JackStack.Main.addPath { base }
  let setting ← IO.getEnv "RUST_LOG"
  let effect := JackStack.CommandLine.run args setting files
  effect.written.forM (JackStack.Main.store effect.files)
  IO.print effect.output
  for event in effect.log do
    IO.println event.taggedRecord
  IO.eprint effect.diagnostic
  return effect.status.toUInt32
