import ScriptEngine.Text
/-!
# Files

The files that scripts reach lie below a working directory. A path names a place by the names on the
way to it. Of what lies outside of the working directory only what every host has is known.
-/

namespace ScriptEngine

namespace FileName

/-- Whether a path begins at the root of all files. -/
def isAbsolute (path : Text) : Bool := path.startsWith "/"

/-- Names on a path without those that lead nowhere; `rooted` tells whether they begin at the root,
and the names before are kept latest first. -/
def reduce (rooted : Bool) : List Text → List Text → List Text
  | [], before => before.reverse
  | name :: rest, before =>
    if name.isEmpty || name = "." then reduce rooted rest before
    else if name = ".." then
      match before with
      | [] => reduce rooted rest (if rooted then [] else [".."])
      | last :: outer =>
        if last = ".." then reduce rooted rest (".." :: before) else reduce rooted rest outer
    else reduce rooted rest (name :: before)

/-- The shortest path with the same meaning. -/
def clean (path : Text) : Text :=
  let rooted := isAbsolute path
  let joined := Text.join "/" (reduce rooted (path.splitOn "/") [])
  if rooted then "/" ++ joined else if joined.isEmpty then "." else joined

/-- Paths one after the other, shortened; empty ones are left out. -/
def join (parts : List Text) : Text :=
  let parts := parts.filter (!·.isEmpty)
  if parts.isEmpty then "" else clean (Text.join "/" parts)

/-- The path of the directory that a path is in. -/
def directory (path : Text) : Text :=
  match path.findLast? "/" with
  | none => "."
  | some n => clean (path.take (n + 1))

end FileName

/-- What a name in a directory stands for. -/
inductive FileTree.Entry where
  | directory
  /-- A file, whose content is kept under a number. -/
  | file (content : Nat)
deriving DecidableEq

/-- The directories and files below the working directory, whose own path is the root. Entries are named by
their paths from it, in rising order; a path that begins with a slash lies outside. The content with the
number 0 stays empty whatever is written to it. -/
structure FileTree where
  root : Text
  entries : List (Text × FileTree.Entry)
  contents : Array Text
deriving Inhabited

namespace FileTree

/-- Why an operation on a path fails. -/
inductive Trouble where
  | notFound | notDirectory | isDirectory | notEmpty | invalid | tooLong | busy
deriving DecidableEq, Repr

/-- The wording of a trouble. -/
def Trouble.message : Trouble → Text
  | notFound => "no such file or directory"
  | notDirectory => "not a directory"
  | isDirectory => "is a directory"
  | notEmpty => "directory not empty"
  | invalid => "invalid argument"
  | tooLong => "file name too long"
  | busy => "device or resource busy"

/-- No files. -/
def empty (root : Text) : FileTree := ⟨root, [], #[""]⟩

/-- The directory that the working directory lies in. -/
def outerDirectory : Text := "/tmp"

/-- The main directories of every host. -/
def outermost : List Text :=
  ["/", "/bin", "/dev", "/etc", "/home", "/lib", "/proc", "/sys", outerDirectory, "/usr", "/var"]

/-- What every host has outside of the working directory: its main directories, and the file that swallows
what is written. -/
def surroundings : List (Text × Entry) :=
  ("/dev/null", .file 0) ::
    outermost.map fun path => (path, .directory)

/-- What a path from the working directory stands for; the empty path is the working directory. -/
def lookup? (t : FileTree) (path : Text) : Option Entry :=
  if path.isEmpty then some .directory else (surroundings.lookup path).or (t.entries.lookup path)

/-- A path with one more name. -/
def child (path name : Text) : Text :=
  if path.isEmpty then name else if path = "/" then path ++ name else path ++ "/" ++ name

/-- The path without its last name. -/
def parent (path : Text) : Text :=
  match path.findLast? "/" with
  | none => ""
  | some n => if n = 0 then "/" else path.take n

/-- The directory that a directory lies in; the root of all files lies in itself. -/
def above (path : Text) : Text := if path.isEmpty then outerDirectory else parent path

/-- Where a path leads: a path from the working directory and what it stands for. -/
abbrev Place := Text × Option Entry

/-- The longest name, in bytes. -/
def maxName : Nat := 255

/-- The longest path, in bytes. -/
def maxPath : Nat := 4095

/-- Follows names from a place. -/
def follow (t : FileTree) : Text → List Text → Except Trouble Place
  | here, [] => .ok (here, t.lookup? here)
  | here, name :: rest =>
    match t.lookup? here with
    | none => .error .notFound
    | some (.file _) => .error .notDirectory
    | some .directory =>
      if name.isEmpty || name = "." then follow t here rest
      else if name = ".." then follow t (above here) rest
      else if name.size > maxName then .error .tooLong
      else follow t (child here name) rest

/-- A path as seen from the root of all files. -/
def absolute (t : FileTree) (path : Text) : Text :=
  if FileName.isAbsolute path || path.startsWith (t.root ++ "/") then path else FileName.join [t.root, path]

/-- The home directory of the user. -/
def home : Text := "/root"

/-- A path of a command line as seen from the root of all files; a tilde stands for the home directory. -/
def expanded (t : FileTree) (path : Text) : Text :=
  if path.startsWith "~/" then FileName.join [home, path.drop 2] else t.absolute path

/-- The place where a path begins and the names on it. -/
def names (t : FileTree) (path : Text) : Except Trouble (Text × List Text) :=
  if path.isEmpty then .error .notFound
  else if path.bytes.contains 0 then .error .invalid
  else if path.size > maxPath then .error .tooLong
  else if path = t.root then .ok ("", [])
  else if path.startsWith (t.root ++ "/") then .ok ("", (path.drop (t.root.size + 1)).splitOn "/")
  else if FileName.isAbsolute path then .ok ("/", path.splitOn "/")
  else .ok ("", path.splitOn "/")

/-- Where a path leads. -/
def locate (t : FileTree) (path : Text) : Except Trouble Place := do
  let (start, names) ← t.names path
  t.follow start names

/-- The end of a path: the directory it lies in, its last name, and whether slashes follow that. There is no
last name when the path is made of slashes. -/
structure Tip where
  directory : Text
  name? : Option Text
  hasSlash : Bool

/-- The end of a path whose directory exists. -/
def tip (t : FileTree) (path : Text) : Except Trouble Tip := do
  let (start, names) ← t.names path
  let hasSlash := names.getLast?.any (·.isEmpty)
  match (names.filter (!·.isEmpty)).reverse with
  | [] => .ok ⟨start, none, hasSlash⟩
  | last :: before =>
    match ← t.follow start before.reverse with
    | (_, none) => .error .notFound
    | (_, some (.file _)) => .error .notDirectory
    | (here, some .directory) =>
      if last.size > maxName then .error .tooLong else .ok ⟨here, some last, hasSlash⟩

/-- What a path stands for. -/
def stat (t : FileTree) (path : Text) : Except Trouble Entry := do
  match ← t.locate path with
  | (_, some e) => .ok e
  | (_, none) => .error .notFound

/-- The content of an open file. -/
def content (t : FileTree) (n : Nat) : Text := (t.contents[n]?).getD ""

/-- Replaces the content of an open file. -/
def setContent (t : FileTree) (n : Nat) (c : Text) : FileTree :=
  if n = 0 then t else { t with contents := t.contents.setIfInBounds n c }

/-- Puts an entry at its place. -/
def insertEntry (path : Text) (e : Entry) : List (Text × Entry) → List (Text × Entry)
  | [] => [(path, e)]
  | (p, f) :: rest =>
    match compare path p with
    | .lt => (path, e) :: (p, f) :: rest
    | .eq => (path, e) :: rest
    | .gt => (p, f) :: insertEntry path e rest

/-- The file at a path, made empty if there is none. A path that ends in a slash can only name a directory. -/
def openOrCreate (t : FileTree) (path : Text) : Except Trouble (Nat × FileTree) := do
  let tip ← t.tip path
  match tip.name? with
  | none => .error .isDirectory
  | some name =>
    if name = "." || name = ".." || tip.hasSlash then .error .isDirectory
    else
      let here := child tip.directory name
      match t.lookup? here with
      | some .directory => .error .isDirectory
      | some (.file n) => .ok (n, t)
      | none =>
        let n := t.contents.size
        .ok (n, ⟨t.root, insertEntry here (.file n) t.entries, t.contents.push ""⟩)

/-- Makes a directory and those it is in. -/
def makeDirectory (t : FileTree) (path : Text) : FileTree :=
  let names := FileName.reduce false (path.splitOn "/") []
  (names.foldl (fun (acc : Text × FileTree) name =>
    let here := child acc.1 name
    (here, if (acc.2.lookup? here).isSome then acc.2
      else { acc.2 with entries := insertEntry here .directory acc.2.entries })) ("", t)).2

/-- The content of the file at a path. -/
def read (t : FileTree) (path : Text) : Except Trouble Text := do
  match ← t.stat path with
  | .directory => .error .isDirectory
  | .file n => .ok (t.content n)

/-- The tree with the file at a path holding a content. -/
def write (t : FileTree) (path c : Text) : Except Trouble FileTree := do
  let (n, t) ← t.openOrCreate path
  .ok (t.setContent n c)

/-- The tree with a text added to the file at a path. -/
def append (t : FileTree) (path c : Text) : Except Trouble FileTree := do
  let (n, t) ← t.openOrCreate path
  .ok (t.setContent n (t.content n ++ c))

/-- Writes a file and makes the directories it is in. -/
def place (t : FileTree) (path c : Text) : FileTree :=
  if path.endsWith "/" then t.makeDirectory path
  else
    let t := match path.findLast? "/" with
      | some n => t.makeDirectory (path.take n)
      | none => t
    match t.write path c with
    | .ok t => t
    | .error _ => t

/-- The paths in a directory, with what they stand for. -/
def inside (t : FileTree) (here : Text) : List (Text × Entry) :=
  t.entries.filter fun (p, _) => parent p = here && !p.isEmpty

/-- The tree without what is at a path; a directory must be empty, and must be named. -/
def remove (t : FileTree) (path : Text) : Except Trouble FileTree := do
  let tip ← t.tip path
  match tip.name? with
  | none => .error .busy
  | some name =>
    if name = "." then .error .invalid
    else if name = ".." then .error .notEmpty
    else
      let here := child tip.directory name
      let without : FileTree := { t with entries := t.entries.filter (·.1 ≠ here) }
      match t.lookup? here with
      | none => .error .notFound
      | some (.file _) => if tip.hasSlash then .error .notDirectory else .ok without
      | some .directory =>
        if (t.inside here).isEmpty && !FileName.isAbsolute here then .ok without else .error .notEmpty

/-- The name of an entry in its directory. -/
def lastName (path : Text) : Text :=
  match path.findLast? "/" with
  | none => path
  | some n => path.drop (n + 1)

/-- The names in the directory at a path, with what they stand for, in rising order. -/
def list (t : FileTree) (path : Text) : Except Trouble (List (Text × Entry)) := do
  match ← t.locate path with
  | (_, none) => .error .notFound
  | (_, some (.file _)) => .error .notDirectory
  | (here, some .directory) => .ok ((t.inside here).map fun (p, e) => (lastName p, e))

/-- All files below the working directory with their contents, in rising order of paths. -/
def files (t : FileTree) : List (Text × Text) :=
  t.entries.filterMap fun (p, e) => match e with
    | .file n => if FileName.isAbsolute p then none else some (p, t.content n)
    | .directory => none

end FileTree

end ScriptEngine
