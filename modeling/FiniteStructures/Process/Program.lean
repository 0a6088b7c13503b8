import FiniteStructures.Process.Shell.Run
import FiniteStructures.Sat.External

/-!
Programs as functions.  A program gets arguments and files and ends with a code or by being
killed, having written to two channels and to files.  The programs there are: `true`, `false`,
`cat` and the shell `sh`.  With these few, it is one platform for backends that run programs
(`Emulation`).
-/

namespace FiniteStructures

namespace Program

open Shell

/-- Why a program cannot be launched. -/
def systemError : FileError → SystemError
  | .notFound => .notFound
  | .notADirectory => .notADirectory
  | .nameTooLong => .nameTooLong
  | _ => .permissionDenied

/-- The files before a program runs: those of the system and some more, with their directories. -/
def filesWith (files : List (String × List UInt8)) : FileTree :=
  files.foldl (fun tree (name, content) =>
    let path := Path.names (Bytes.ofText name)
    (tree.insert path.dropLast .directory).insert path (.regular (Bytes.ofList content)))
    FileTree.initial

/-- The world before a program runs, with its streams 0, 1 and 2. -/
def world (tree : FileTree) (process : Nat) : World where
  tree
  output := []
  complaints := []
  pipes := []
  streams :=
    [(0, ⟨.null, 0, false, true, false⟩), (1, ⟨.output, 0, false, false, true⟩),
      (2, ⟨.complaints, 0, false, false, true⟩)]
  fresh := 3
  nextProcess := process + 1
  processes := [process]
  dispositions := []
  arrived := []
  doomed := []

/-- The number of the process of a program. -/
def process : Nat := 1000

/-- What programs inherit. -/
def environment : List (Bytes × Bytes) :=
  [("HOME".toList, "/root".toList), ("PATH".toList, FileTree.searchPath.toList)]

/-- A shell about to take the place of which a program is run. -/
def launcher (tree : FileTree) (name : Bytes) : Shell :=
  start (world tree process) process (process - 1) name environment FileTree.home
    [(0, 0), (1, 1), (2, 2)]

/-- The program that a name stands for. -/
def tool? (s : Shell) (name : Bytes) : Except FileError Tool :=
  if FileTree.longestName < name.length && !name.contains '/' then .error .nameTooLong
  else if name.isEmpty then .error .notFound
  else toolOf s false name

/-- The step by which programs run commands. -/
def run : Step := execute deepestCommand

/-- What a program does with its arguments. -/
def body (tool : Tool) (name : Bytes) (args : List Bytes) : Action Nat :=
  match tool with
  | .shell => runCommandLine run args
  | tool => runTool run false tool name args

/-- The content of a file in a tree. -/
def content? (tree : FileTree) (name : String) : Option (List UInt8) :=
  match tree.find? (Path.names (Bytes.ofText name)) with
  | some (.regular content) => some content.toList
  | _ => none

/-- Runs a program on arguments and files. -/
def launch (name : String) (args : List String) (files : List (String × List UInt8)) :
    Except SystemError Finish :=
  let hasNul (text : String) : Bool := text.toList.contains (Char.ofNat 0)
  if hasNul name || args.any hasNul then .error .nulByte
  else
    let name := Bytes.ofText name
    let s := launcher (filesWith files) name
    match tool? s name with
    | .error e => .error (systemError e)
    | .ok tool =>
      let (result, s) := (always (toEnd run (body tool name (args.map Bytes.ofText))) (settle run)).run s
      let code :=
        match result with
        | .error (.killed _) | .error .endless => none
        | _ => some (s.status % 256)
      let w := s.world
      .ok ⟨code, Bytes.toList w.output.reverse, Bytes.toList w.complaints.reverse, content? w.tree⟩

end Program

/-- The platform of the programs above. -/
structure Emulation where

instance : Platform Emulation := ⟨Program.launch⟩

end FiniteStructures
