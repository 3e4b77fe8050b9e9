import ScriptEngine.Builtin
import ScriptEngine.Builtin.Arguments
/-!
# Builtins on files

Files are read and written whole by path, or line by line through a handle. A handle reads ahead up to
4096 bytes and keeps as many written bytes back; both move the one place of the handle in its file.
-/

namespace ScriptEngine

/-- The fault of an operation on a path that fails in a step of its own. -/
def FileTree.Trouble.fault (op path step : Text) (t : FileTree.Trouble) : Fault :=
  if t = .notFound then
    Fault.raised Fault.notFoundError (op ++ " " ++ path ++ ": file not found")
  else
    Fault.raised Fault.ioError
      (op ++ " " ++ path ++ ": " ++ step ++ " " ++ path ++ ": " ++ t.message)

namespace OpenFile

/-- The number of bytes read ahead and kept back. -/
def bufferSize : Nat := 4096

/-- Whether a file can be read. -/
def readable (f : OpenFile) : Bool := f.mode = .read || f.mode = .both

/-- Whether a file can be written. -/
def writable (f : OpenFile) : Bool := f.mode ≠ .read

/-- Reads ahead as far as the buffer allows. -/
def fill (t : FileTree) (f : OpenFile) : OpenFile :=
  match f.content with
  | some n =>
    let chunk := ((t.content n).bytes.drop f.offset).take (bufferSize - f.ahead.length)
    { f with ahead := f.ahead ++ chunk, offset := f.offset + chunk.length }
  | none => f

/-- The bytes up to and including the next line end, or all that are left; `line` was read before. -/
def readLine (t : FileTree) : Nat → List UInt8 → OpenFile → List UInt8 × OpenFile
  | 0, line, f => (line, f)
  | fuel + 1, line, f =>
    let here := f.ahead.takeWhile (· ≠ 10)
    if here.length < f.ahead.length then
      (line ++ here ++ [10], { f with ahead := f.ahead.drop (here.length + 1) })
    else if bufferSize ≤ f.ahead.length then
      readLine t fuel (line ++ f.ahead) { f with ahead := [] }
    else
      let g := f.fill t
      if g.ahead.length = f.ahead.length then (line ++ f.ahead, { f with ahead := [] })
      else readLine t fuel line g

/-- Stores bytes in the file, at its end or at the place of the handle. -/
def store (t : FileTree) (f : OpenFile) (bytes : List UInt8) : FileTree × OpenFile :=
  match f.content with
  | some n =>
    let old := (t.content n).bytes
    if f.mode = .append then (t.setContent n ⟨old ++ bytes⟩, f)
    else
      let gap := List.replicate (f.offset - old.length) 0
      let new := old.take f.offset ++ gap ++ bytes ++ old.drop (f.offset + bytes.length)
      (t.setContent n ⟨new⟩, { f with offset := f.offset + bytes.length })
  | none => (t, f)

/-- Stores the bytes kept back. -/
def flush (t : FileTree) (f : OpenFile) : FileTree × OpenFile :=
  let (t, f) := store t f f.behind
  (t, { f with behind := [] })

/-- Writes bytes: they are kept back as long as the buffer has room. -/
def write (t : FileTree) (f : OpenFile) (bytes : List UInt8) : FileTree × OpenFile :=
  let room := bufferSize - f.behind.length
  if bytes.length ≤ room then (t, { f with behind := f.behind ++ bytes })
  else if f.behind.isEmpty then store t f bytes
  else
    let (t, f) := flush t { f with behind := f.behind ++ bytes.take room }
    let rest := bytes.drop room
    if rest.length ≤ bufferSize then (t, { f with behind := rest }) else store t f rest

end OpenFile

namespace Exec

/-- The open file of a handle. -/
def openFile (handle : Text) : Exec OpenFile := do ofExcept ((← host).openFiles.get handle)

/-- Changes an open file and the files. -/
def updateFile (handle : Text) (r : FileTree × OpenFile) : Exec Unit :=
  onHost fun h => { h with files := r.1, openFiles := h.openFiles.set handle r.2 }

end Exec

/-- Lets go of all files and connections; what files keep back is stored. -/
def Host.release (h : Host) : Host :=
  { h with
    files := h.openFiles.items.foldl (fun t (_, f) => (f.flush t).1) h.files
    openFiles := h.openFiles.clear
    sockets := h.sockets.clear }

namespace FileOp

/-- Opens a file in a mode. -/
def openIn (path modeName : Text) : Exec Value := do
  let fault (t : FileTree.Trouble) : Fault := t.fault "open" path "open"
  let mode? : Option OpenFile.Mode :=
    if modeName = "r" then some .read
    else if modeName = "w" then some .write
    else if modeName = "a" then some .append
    else if modeName = "rw" || modeName = "r+" then some .both
    else none
  match mode? with
  | none =>
    throw (Fault.raised Fault.ioError ("open " ++ path ++ ": mode must be one of r, w, a or rw"))
  | some mode =>
    let files := (← Exec.host).files
    let (content, files) ←
      if mode = .read then
        match files.stat path with
        | .ok .directory => pure (none, files)
        | .ok (.file n) => pure (some n, files)
        | .error t => throw (fault t)
      else
        match files.openOrCreate path with
        | .ok (n, files) =>
          pure (some n, if mode = .write then files.setContent n "" else files)
        | .error t => throw (fault t)
    let f : OpenFile := ⟨path, modeName, mode, content, 0, [], []⟩
    let (handle, handles) := (← Exec.host).openFiles.add f
    Exec.onHost fun h => { h with files := files, openFiles := handles }
    pure (.string handle)

/-- The next line of a file without its line end, or null at the end. -/
def readLineOf (handle : Text) : Exec Value := do
  let f ← Exec.openFile handle
  if !f.readable then
    throw (Fault.raised Fault.accessError ("file " ++ f.path ++ " is not open for reading"))
  if f.content.isNone then throw (FileTree.Trouble.isDirectory.fault "read" f.path "read")
  let files := (← Exec.host).files
  let size := (f.content.map fun n => (files.content n).size).getD 0
  let (line, f) := f.readLine files (size + f.ahead.length + 2) []
  Exec.updateFile handle (files, f)
  if line.isEmpty then pure .null
  else
    pure (.string ⟨(line.reverse.dropWhile fun b => b = 10 || b = 13).reverse⟩)

/-- Whether nothing is left to read. -/
def atEndOf (handle : Text) : Exec Bool := do
  let f ← Exec.openFile handle
  if !f.readable then pure true
  else
    let files := (← Exec.host).files
    let f := if f.ahead.isEmpty then f.fill files else f
    Exec.updateFile handle (files, f)
    pure f.ahead.isEmpty

/-- The size of what a path or handle stands for. -/
def sizeOf (name : Text) : Exec Value := do
  let path ← match (← Exec.host).openFiles.get name with
    | .ok f => do
      Exec.updateFile name (f.flush (← Exec.host).files)
      pure f.path
    | .error _ => pure name
  let files := (← Exec.host).files
  match files.stat path with
  | .ok (.file n) => pure (.long (Int64.ofNat (files.content n).size))
  | .ok .directory => pure (.long 4096)
  | .error t => throw (t.fault "stat" path "stat")

/-- Changes the files by an operation on a path. -/
def change (op path step : Text) (f : FileTree → Except FileTree.Trouble FileTree) : Exec Value := do
  match f (← Exec.host).files with
  | .ok files =>
    Exec.onHost fun h => { h with files := files }
    pure (.bool true)
  | .error t => throw (t.fault op path step)

/-- What json data tells of a name in a directory. -/
def entryJson (files : FileTree) (stamp : Int) (dir name : Text) (e : FileTree.Entry) : Json :=
  let size := match e with
    | .file n => (files.content n).size
    | .directory => 4096
  .object [("isDir", .bool (e = .directory)), ("modifiedMs", .int (Int64.ofInt stamp)),
    ("name", .text name), ("path", .text (FileName.join [dir, name])),
    ("size", .int (Int64.ofNat size))]

/-- Runs an operation. -/
def run (op : FileOp) (args : Args) : Exec Value := do
  match op with
  | .openFile => openIn (← args.text 0) (← args.textOr 1 "r").lower
  | .close =>
    let (f, handles) := (← Exec.host).openFiles.remove (← args.text 0)
    match f with
    | none => pure (.bool false)
    | some f =>
      Exec.onHost fun h => { h with openFiles := handles, files := (f.flush h.files).1 }
      pure (.bool true)
  | .listOpenFiles =>
    let rows := (← Exec.host).openFiles.items.map fun (handle, f) =>
      Json.object [("handle", .text handle), ("mode", .text f.modeName), ("path", .text f.path)]
    Exec.onStore do StoreM.newBox (← StoreM.ofTree (.list rows))
  | .readLine => readLineOf (← args.text 0)
  | .writeLine =>
    let handle ← args.text 0
    let f ← Exec.openFile handle
    if !f.writable then
      throw (Fault.raised Fault.accessError ("file " ++ f.path ++ " is not open for writing"))
    let line := (← args.text 1) ++ "\n"
    Exec.updateFile handle (f.write (← Exec.host).files line.bytes)
    pure (.bool true)
  | .atEnd => do pure (.bool (← atEndOf (← args.text 0)))
  | .size => sizeOf (← args.text 0)
  | .readText =>
    let path ← args.text 0
    match (← Exec.host).files.read path with
    | .ok t => pure (.string t)
    | .error t => throw (t.fault "read" path (if t = .isDirectory then "read" else "open"))
  | .writeText =>
    let path ← args.text 0
    let content ← args.text 1
    change "write" path "open" (·.write path content)
  | .appendText =>
    let path ← args.text 0
    let content ← args.text 1
    change "append" path "open" (·.append path content)
  | .pathExists =>
    let path ← args.text 0
    pure (.bool (match (← Exec.host).files.stat path with
      | .ok _ => true
      | .error _ => false))
  | .delete =>
    let path ← args.text 0
    match (← Exec.host).files.remove path with
    | .error .notFound => pure (.bool false)
    | _ => change "delete" path "remove" (·.remove path)
  | .listFiles =>
    let dir ← args.textOr 0 "."
    let h ← Exec.host
    match h.files.list dir with
    | .ok entries =>
      let rows := entries.map fun (name, e) => entryJson h.files h.wallClock.millis dir name e
      Exec.onStore do StoreM.newBox (← StoreM.newList (← StoreM.ofTrees rows))
    | .error t => throw (t.fault "list" dir "open")

end FileOp

end ScriptEngine
