import FiniteStructures.Process.Bytes

/-!
Files and directories.  A path is the list of the names that lead from the root to a file; a file
name given by a program is followed from the current directory, name by name, and each of them
but the last must be that of a directory.
-/

namespace FiniteStructures

/-- Names from the root on. -/
abbrev Path := List Bytes

/-- Why a file cannot be used. -/
inductive FileError where
  | notFound
  | notADirectory
  | isADirectory
  | permissionDenied
  | nameTooLong
  | exists
  | badDescriptor
  | noSpace
  | tooLarge
deriving DecidableEq, Repr

def FileError.message : FileError → String
  | .notFound => "No such file or directory"
  | .notADirectory => "Not a directory"
  | .isADirectory => "Is a directory"
  | .permissionDenied => "Permission denied"
  | .nameTooLong => "File name too long"
  | .exists => "File exists"
  | .badDescriptor => "Bad file descriptor"
  | .noSpace => "No space left on device"
  | .tooLarge => "File too large"

/-- The programs there are. -/
inductive Tool where
  | shell
  | concatenate
  | succeed
  | fail
deriving DecidableEq, Repr

/-- What a path leads to. -/
inductive FileNode where
  | directory
  | regular (content : Bytes)
  | program (tool : Tool)
  /-- Always empty, whatever is written to it. -/
  | null
  /-- Refuses what is written to it. -/
  | full
deriving DecidableEq, Repr

/-- All files by their paths; the root needs no entry. -/
structure FileTree where
  nodes : List (Path × FileNode)

namespace Path

/-- The path as text. -/
def render (path : Path) : Bytes := if path.isEmpty then ['/'] else path.flatMap ('/' :: ·)

/-- The names between the slashes of a text. -/
def names (text : Bytes) : List Bytes := (pieces text []).filter (!·.isEmpty)
where
  /-- The current piece is kept last character first. -/
  pieces : Bytes → Bytes → List Bytes
    | [], piece => [piece.reverse]
    | c :: rest, piece =>
      if c == '/' then piece.reverse :: pieces rest [] else pieces rest (c :: piece)

/-- The directories at the root that are other names for those below `/usr`. -/
def links : List Bytes := ["bin", "lib", "lib64", "sbin"].map String.toList

/-- The path without such a name at its beginning. -/
def follow : Path → Path
  | name :: rest => if links.contains name then "usr".toList :: name :: rest else name :: rest
  | [] => []

end Path

namespace FileTree

def find? (tree : FileTree) (path : Path) : Option FileNode :=
  if path.isEmpty then some .directory else tree.nodes.lookup path.follow

/-- Replaces or adds a file. -/
def insert (tree : FileTree) (path : Path) (node : FileNode) : FileTree :=
  ⟨(path.follow, node) :: tree.nodes.filter fun n => n.1 ≠ path.follow⟩

/-- The longest name of a file. -/
def longestName : Nat := 255

/-- File names have fewer bytes than this. -/
def nameLimit : Nat := 4096

/-- Follows names from a path. -/
def walk (tree : FileTree) : (here : Path) → List Bytes → Except FileError Path
  | here, [] => .ok here
  | here, name :: rest =>
    match tree.find? here with
    | none => .error .notFound
    | some .directory =>
      if longestName < name.length then .error .nameTooLong
      else if name = ".".toList then walk tree here rest
      else if name = "..".toList then walk tree here.dropLast rest
      else walk tree (here ++ [name]) rest
    | some _ => .error .notADirectory

/-- The path of a file name, whose last name need not exist. -/
def resolve (tree : FileTree) (current : Path) (name : Bytes) : Except FileError Path :=
  if name.isEmpty then .error .notFound
  else if nameLimit ≤ name.length then .error .nameTooLong
  else
    let names := Path.names name ++ if name.getLast? = some '/' then [".".toList] else []
    tree.walk (if name.head? = some '/' then [] else current) names

/-- What a file name leads to. -/
def look (tree : FileTree) (current : Path) (name : Bytes) : Except FileError FileNode := do
  match tree.find? (← tree.resolve current name) with
  | some node => return node
  | none => .error .notFound

/-- The names in a directory, in order. -/
def children (tree : FileTree) (path : Path) : List Bytes :=
  (tree.nodes.filterMap fun n =>
    if n.1.dropLast = path.follow then n.1.getLast? else none).mergeSort Bytes.le

/-- The program of a file name. -/
def program (tree : FileTree) (current : Path) (name : Bytes) : Except FileError Tool := do
  match ← tree.look current name with
  | .program tool => return tool
  | _ => .error .permissionDenied

/-! ## The files of a system -/

def directories : List String :=
  ["boot", "dev", "dev/shm", "etc", "home", "media", "mnt", "opt", "proc", "root", "run", "srv",
    "sys", "tmp", "usr", "usr/bin", "usr/include", "usr/lib", "usr/lib64", "usr/local", "usr/local/bin",
    "usr/local/lib", "usr/local/sbin", "usr/sbin", "usr/share", "usr/src", "var", "var/cache",
    "var/lib", "var/log", "var/tmp", "work"]

/-- Files with a content that does not matter here. -/
def plainFiles : List String :=
  ["etc/fstab", "etc/group", "etc/hostname", "etc/hosts", "etc/os-release", "etc/passwd",
    "etc/profile", "etc/resolv.conf", "etc/shadow"]

def tools : List (String × Tool) :=
  [("sh", .shell), ("dash", .shell), ("cat", .concatenate), ("true", .succeed), ("false", .fail)]

/-- The path of a text without a slash at its beginning. -/
def pathOf (text : String) : Path := Path.names text.toList

/-- The files before any program has run. -/
def initial : FileTree :=
  ⟨directories.map (fun d => (pathOf d, .directory)) ++
    plainFiles.map (fun f => (pathOf f, .regular [])) ++
    tools.map (fun t => (pathOf ("usr/bin/" ++ t.1), .program t.2)) ++
    [(pathOf "dev/null", .null), (pathOf "dev/full", .full)]⟩

/-- The directory in which programs start. -/
def home : Path := pathOf "work"

/-- The directories in which programs are looked for. -/
def searchPath : String := "/usr/local/sbin:/usr/local/bin:/usr/sbin:/usr/bin:/sbin:/bin"

end FileTree

end FiniteStructures
