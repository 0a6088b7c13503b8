import FiniteStructures.Process.Shell.Option

/-!
What names of commands stand for: words of the language, aliases, functions, commands of the shell,
and programs, which are looked for in the directories of `PATH`.
-/

namespace FiniteStructures

namespace Shell

open Script

/-- The commands of the shell that are not special. -/
def ordinaryNames : List String :=
  ["[", "alias", "bg", "cd", "chdir", "command", "echo", "false", "fg", "getopts", "hash", "jobs",
    "kill", "printf", "pwd", "read", "test", "true", "type", "ulimit", "umask", "unalias", "wait"]

def isSpecialCommand (name : Bytes) : Bool := specialNames.contains (String.ofList name)

/-- The name of a command of the shell. -/
def isOwnCommand (name : Bytes) : Bool :=
  isSpecialCommand name || ordinaryNames.contains (String.ofList name)

/-- The directories of a search path. -/
def directoriesOf : Bytes → Bytes → List Bytes
  | [], directory => [directory.reverse]
  | c :: rest, directory =>
    if c == ':' then directory.reverse :: directoriesOf rest []
    else directoriesOf rest (c :: directory)

/-- Looks for a file of a kind in directories; the reason why one cannot be used is kept. -/
def searchIn (s : Shell) (isWanted : FileNode → Bool) (name : Bytes) :
    FileError → List Bytes → Except FileError Bytes
  | e, [] => .error e
  | e, directory :: rest =>
    let file := if directory.isEmpty then name else directory ++ ['/'] ++ name
    match s.world.tree.look s.current file with
    | .ok node =>
      if isWanted node then .ok file else searchIn s isWanted name .permissionDenied rest
    | .error .notFound | .error .notADirectory => searchIn s isWanted name e rest
    | .error e => searchIn s isWanted name e rest

def isProgram : FileNode → Bool
  | .program _ => true
  | _ => false

/-- A script or a program. -/
def isScript : FileNode → Bool
  | .regular _ | .program _ => true
  | _ => false

/-- The search path of the shell, or the usual one. -/
def searchPathOf (s : Shell) (usual : Bool) : Bytes :=
  if usual then FileTree.searchPath.toList else (s.value? "PATH".toList).getD []

/-- The file of a program; a name with a slash is that of a file. -/
def programFile (s : Shell) (usual : Bool) (name : Bytes) : Except FileError Bytes :=
  if name.contains '/' then (s.world.tree.look s.current name).map fun _ => name
  else searchIn s isProgram name .notFound (directoriesOf (searchPathOf s usual) [])

/-- What is wrong with a program that cannot be run. -/
def programFault : FileError → String
  | .notFound | .notADirectory => "not found"
  | e => e.message

/-- The status of a command whose program cannot be run. -/
def programStatus : FileError → Nat
  | .notFound | .notADirectory | .nameTooLong => 127
  | _ => 126

/-- Notes that a program was found. -/
def remember (name : Bytes) : Action Unit := do
  if !name.contains '/' then
    modify fun s =>
      if s.remembered.contains name then s else { s with remembered := name :: s.remembered }

/-- What an alias is, in words or as the command that makes it. -/
def aliasDescription (inWords : Bool) (a : Alias) : Bytes :=
  if inWords then a.name ++ " is an alias for ".toList ++ a.text
  else "alias ".toList ++ a.name ++ '=' :: Bytes.quote a.text

/-- What a name stands for, in words or as what would be run; nothing if it stands for nothing. -/
def description? (s : Shell) (inWords usual : Bool) (name : Bytes) : Option Bytes :=
  let said (text : String) : Option Bytes :=
    some (if inWords then name ++ " is a ".toList ++ text.toList else name)
  if reserved.contains (String.ofList name) then said "shell keyword"
  else if let some a := s.aliases.find? name then some (aliasDescription inWords a)
  else if (s.functions.lookup name).isSome then said "shell function"
  else if isSpecialCommand name then said "special shell builtin"
  else if isOwnCommand name then said "shell builtin"
  else
    match programFile s usual name with
    | .ok file =>
      let how := if !usual && s.remembered.contains name then " is a tracked alias for " else " is "
      some (if inWords then name ++ how.toList ++ file else file)
    | .error _ => none

/-- Describes a name. -/
def describe (inWords usual : Bool) (name : Bytes) : Action (Nat × Bytes) := do
  let s ← get
  match description? s inWords usual name with
  | some text =>
    if (programFile s usual name).isOk && !isOwnCommand name then remember name
    return (0, text ++ ['\n'])
  | none => return (127, if inWords then name ++ ": not found\n".toList else [])

/-- The command `type`. -/
def typeCommand (args : List Bytes) : Action Nat := do
  let described ← args.mapM (describe true false)
  let failure ← print (described.flatMap (·.2))
  return max failure (described.foldl (fun status d => max status d.1) 0)

/-- The command `command`, where it runs nothing. -/
def commandCommand (args : List Bytes) : Action Nat := do
  let (options, names) ← commandOptions "pvV" args
  let inWords := options.any (·.1 = 'V')
  match names with
  | name :: _ =>
    if !inWords && !options.any (·.1 = 'v') then return 0
    let (status, text) ← describe inWords (options.any (·.1 = 'p')) name
    return max status (← print text)
  | [] => return 0

/-- Looks for programs again. -/
def searchAgain : (status : Nat) → List Bytes → Action Nat
  | status, [] => return status
  | status, name :: rest => do
    let s ← get
    set { s with remembered := s.remembered.filter (· ≠ name) }
    if isOwnCommand name || (s.functions.lookup name).isSome then searchAgain status rest
    else
      match programFile s false name with
      | .ok _ =>
        remember name
        searchAgain status rest
      | .error e =>
        warn (name ++ ": ".toList ++ (programFault e).toList)
        searchAgain 1 rest

/-- The command `hash`, which lists or looks for programs. -/
def hashCommand (args : List Bytes) : Action Nat := do
  let (options, names) ← commandOptions "rv" args
  if options.any (·.1 = 'r') then
    modify fun s => { s with remembered := [] }
    return 0
  if !names.isEmpty then return ← searchAgain 0 names
  let s ← get
  print (s.remembered.reverse.flatMap fun name =>
    match programFile s false name with
    | .ok file => file ++ ['\n']
    | .error _ => [])

end Shell

end FiniteStructures
