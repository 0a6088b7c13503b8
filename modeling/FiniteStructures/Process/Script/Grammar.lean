import FiniteStructures.Process.Script.Reader

/-!
Reading commands.  The grammar goes from lists of commands over connected ones and pipelines down
to simple and compound commands; a compound command holds lists again, which are read by a function
that is given, so that only `commands` recurses.
-/

namespace FiniteStructures

namespace Script

namespace Reader

/-- Words and operators that end a list of commands. -/
def closes (t : Token) : Bool :=
  match t with
  | .endOfFile => true
  | .op text => text = ")" || text = ";;"
  | .word _ =>
    match keyword? t with
    | some r => ["then", "elif", "else", "fi", "do", "done", "esac", "\x7d"].contains r
    | none => false
  | _ => false

/-- The next token is the given operator. -/
def isOp (t : Token) (text : String) : Bool :=
  match t with
  | .op s => s = text
  | _ => false

def isNewline (t : Token) : Bool :=
  match t with
  | .newline => true
  | _ => false

def isEnd (t : Token) : Bool :=
  match t with
  | .endOfFile => true
  | _ => false

section

/-! Below, `commands` reads the commands of an extent. -/

variable (commands : Extent → Parse Command)

/-- Puts a token back. -/
def backToken (t : Token) : Parse Unit := modify fun s => { s with ahead := some t }

/-- Passes over the next token, which was looked at. -/
def skipToken : Parse Unit := modify fun s => { s with ahead := none }

/-- Passes over line ends, at most `n`. -/
def skipLines (lookup : Lookup) : (n : Nat) → Parse Unit
  | 0 => return
  | n + 1 => do
    if isNewline (← peek commands lookup) then
      skipToken
      skipLines lookup n

/-- Passes over all line ends. -/
def skipAllLines : Parse Unit := skipLines commands .all most

/-- Passes over a word of the language. -/
def expect (r : String) : Parse Unit := do
  let t ← token commands .nothing
  if keyword? t ≠ some r then unexpected t true (some ("\"" ++ r ++ "\""))

/-! ## Redirections -/

/-- The text of a word without its quotes. -/
def bareText (w : Word) : Bytes :=
  w.filterMap fun p =>
    match p with
    | .char c _ => some c
    | _ => none

/-- The word after a redirection, and what the redirection is. -/
def redirection (channel : Nat) (kind : RedirectKind) : Parse Redirection := do
  let delimiter :=
    match kind with
    | .document _ => true
    | _ => false
  match ← expandedToken commands delimiter most .nothing with
  | .word w =>
    match kind with
    | .file how => return .file channel how w
    | .copy => return .copy channel w
    | .document indented =>
      let number := (← get).fresh
      modify fun s => { s with
        fresh := number + 1
        pending := s.pending ++ [⟨number, bareText w, isQuoted w, indented⟩] }
      return .document channel number
  | t => unexpected t false none

/-- Redirections after a compound command, at most `n`. -/
def redirections : (n : Nat) → Lookup → Parse (List Redirection)
  | 0, _ => return []
  | n + 1, lookup => do
    match ← peek commands lookup with
    | .redirect channel kind =>
      skipToken
      let r ← redirection commands channel kind
      return r :: (← redirections n .nothing)
    | _ => return []

/-! ## Simple commands -/

/-- What was read of a simple command, last part first. -/
structure Simple where
  assignments : List (Bytes × Word)
  words : List Word
  redirections : List Redirection

/-- A function: its name was read, and the opening parenthesis. -/
def function (name : Word) : Parse Command := do
  let t ← token commands .nothing
  if !isOp t ")" then unexpected t false (some "\")\"")
  match plainText? name with
  | some name =>
    if !Bytes.isName name || specialNames.contains (String.ofList name) then
      refuse "Bad function name"
    skipAllLines commands
    return .define name (← commands .single)
  | none => refuse "Bad function name"

/-- The parts of a simple command, at most `n`. -/
def simple (line : Nat) : (n : Nat) → Simple → Parse Command
  | 0, _ => refuse "command too long"
  | n + 1, read => do
    match ← peek commands ⟨false, read.words.isEmpty⟩ with
    | .word w =>
      skipToken
      match read.words, assignment? w with
      | [], some a => simple line n { read with assignments := a :: read.assignments }
      | _, _ => simple line n { read with words := w :: read.words }
    | .redirect channel kind =>
      skipToken
      let r ← redirection commands channel kind
      simple line n { read with redirections := r :: read.redirections }
    | t =>
      match isOp t "(", read with
      | true, ⟨[], [name], []⟩ =>
        skipToken
        function commands name
      | _, _ =>
        return .simple line read.assignments.reverse read.words.reverse read.redirections.reverse

/-! ## Compound commands -/

/-- The rest of a case distinction of conditions, after `if` or `elif`; at most `n` of them. -/
def conditional : (n : Nat) → Parse Command
  | 0 => refuse "command too long"
  | n + 1 => do
    let condition ← commands .body
    expect commands "then"
    let body ← commands .body
    let t ← token commands .nothing
    match keyword? t with
    | some "elif" => return .conditional condition body (← conditional n)
    | some "else" =>
      let otherwise ← commands .body
      expect commands "fi"
      return .conditional condition body otherwise
    | some "fi" => return .conditional condition body .skip
    | _ => unexpected t true (some "\"fi\"")

/-- The body of a loop. -/
def loopBody : Parse Command := do
  let body ← commands .body
  expect commands "done"
  return body

/-- The words of a loop up to the end of the command, at most `n`. -/
def loopWords : (n : Nat) → Parse (List Word)
  | 0 => return []
  | n + 1 => do
    let t ← token commands .nothing
    match t with
    | .word w => return w :: (← loopWords n)
    | _ => if isNewline t || isOp t ";" then return [] else unexpected t false none

/-- The rest of a loop over words. -/
def each (line : Nat) : Parse Command := do
  let name? : Option Bytes :=
    match ← token commands .nothing with
    | .word w => plainText? w
    | _ => none
  match name?.filter Bytes.isName with
  | none => refuse "Bad for loop variable"
  | some name =>
    skipAllLines commands
    let t ← token commands .nothing
    let words ←
      if keyword? t = some "in" then
        pure (some (← loopWords commands most))
      else do
        if !isOp t ";" then backToken t
        pure none
    skipAllLines commands
    expect commands "do"
    return .each line name words (← loopBody commands)

/-- The patterns of an arm, at most `n`, up to the closing parenthesis. -/
def patterns : (n : Nat) → Token → Parse (List Word)
  | 0, _ => return []
  | n + 1, t => do
    let w : Word :=
      match t with
      | .word w => w
      | _ => []
    let next ← token commands .nothing
    if isOp next "|" then return w :: (← patterns n (← token commands .nothing))
    else if isOp next ")" then return [w]
    else unexpected next false (some "\")\"")

/-- The arms of a choice up to its end, at most `n`. -/
def arms : (n : Nat) → Parse (List (List Word × Command))
  | 0 => return []
  | n + 1 => do
    skipLines commands .words most
    let t ← token commands .nothing
    if keyword? t = some "esac" then return []
    let t ← if isOp t "(" then token commands .nothing else pure t
    let ps ← patterns commands most t
    let body ← commands .optional
    skipLines commands .words most
    let t ← token commands .nothing
    if keyword? t = some "esac" then return [(ps, body)]
    else if isOp t ";;" then return (ps, body) :: (← arms n)
    else unexpected t true (some "\";;\"")

/-- The rest of a choice. -/
def choice (line : Nat) : Parse Command := do
  match ← token commands .nothing with
  | .word subject =>
    skipAllLines commands
    expect commands "in"
    return .choice line subject (← arms commands most)
  | t => unexpected t false (some "word")

/-- The compound command that a word of the language begins. -/
def compound? (line : Nat) (r : String) : Option (Parse Command) :=
  match r with
  | "if" => some do conditional commands most
  | "while" => some do
    let condition ← commands .body
    expect commands "do"
    return .loop true condition (← loopBody commands)
  | "until" => some do
    let condition ← commands .body
    expect commands "do"
    return .loop false condition (← loopBody commands)
  | "for" => some (each commands line)
  | "case" => some (choice commands line)
  | "\x7b" => some do
    let body ← commands .body
    expect commands "\x7d"
    return body
  | _ => none

/-- Takes a word that comes next for an ordinary one. -/
def takeAsOrdinary : Parse Unit := do
  if let .word w ← peek commands .all then backToken (.word (w ++ [.quotes]))

/-- A compound command with the redirections after it, which no word of the language can follow. -/
def withRedirections (line : Nat) (body : Command) : Parse Command := do
  match ← redirections commands most .all with
  | [] => return body
  | rs =>
    takeAsOrdinary commands
    match body with
    | .isolated line body _ => return .isolated line body rs
    | body => return .redirected line body rs

/-- A command without operators. -/
def command : Parse Command := do
  let t ← peek commands .all
  let line := (← get).line
  match t with
  | .word _ =>
    match keyword? t with
    | none => simple commands line most ⟨[], [], []⟩
    | some r =>
      skipToken
      match compound? commands line r with
      | some read => withRedirections commands line (← read)
      | none => unexpected t true none
  | .redirect _ _ => simple commands line most ⟨[], [], []⟩
  | _ =>
    skipToken
    if isOp t "(" then
      let body ← commands .body
      let t ← token commands .nothing
      if !isOp t ")" then unexpected t true (some "\")\"")
      withRedirections commands line (.isolated line body [])
    else unexpected t true none

/-! ## Lists -/

/-- The commands of a pipeline after its first one, at most `n`. -/
def piped : (n : Nat) → Parse (List Command)
  | 0 => return []
  | n + 1 => do
    if isOp (← peek commands .all) "|" then
      skipToken
      skipAllLines commands
      let c ← command commands
      return c :: (← piped n)
    else return []

/-- A pipeline, which may be negated. -/
def pipeline : Parse Command := do
  let negated := keyword? (← peek commands .all) = some "!"
  if negated then skipToken
  let first ← command commands
  let rest ← piped commands most
  let body := if rest.isEmpty then first else .pipeline (first :: rest)
  return if negated then .negated body else body

/-- Pipelines connected by `&&` and `||`, which group to the left; at most `n` more. -/
def connected : (n : Nat) → Command → Parse Command
  | 0, first => return first
  | n + 1, first => do
    let t ← peek commands .all
    if isOp t "&&" || isOp t "||" then
      skipToken
      skipAllLines commands
      let second ← pipeline commands
      connected n (if isOp t "&&" then .andThen first second else .orElse first second)
    else return first

/-- Connected pipelines. -/
def chain : Parse Command := do
  connected commands most (← pipeline commands)

/-- Puts a command after those read. -/
def join : Option Command → Command → Command
  | none, c => c
  | some first, c => .sequence first c

/-- Commands one after another, at most `n`.  The extent `line` ends at a line end; any other
extent ends at what closes it, but `body` not before the first command.  The last line of a script
gives no command. -/
def list (extent : Extent) : (n : Nat) → Option Command → Parse (Option Command)
  | 0, read => return read
  | n + 1, read => do
    if extent ≠ .line then skipAllLines commands
    let t ← peek commands .all
    if isNewline t then
      skipToken
      return some (read.getD .skip)
    else if isEnd t then return read
    else if extent ≠ .line && (extent ≠ .body || read.isSome) && closes t then return read
    else
      let c ← chain commands
      let t ← token commands .nothing
      let read := join read (if isOp t "&" then .background c else c)
      if isNewline t || isEnd t then
        backToken t
        list extent n (some read)
      else if isOp t "&" || isOp t ";" then list extent n (some read)
      else if extent = .line then unexpected t true none
      else
        backToken t
        return some read

/-- The commands of an extent. -/
def listAll (extent : Extent) : Parse (Option Command) := do
  list commands extent most none

end

/-- The commands of an extent, nested at most `n` deep. -/
def commands : (n : Nat) → Extent → Parse Command
  | 0, _ => refuse "command too deep"
  | n + 1, .single => command (commands n)
  | n + 1, .closed => do
    let read ← listAll (commands n) .optional
    let t ← token (commands n) .nothing
    if isOp t ")" then return read.getD .skip else unexpected t true (some "\")\"")
  | n + 1, extent => do return (← listAll (commands n) extent).getD .skip

/-- How deep commands may be nested. -/
def deepest : Nat := 10000

/-- The commands of the next line; nothing at the end of the script. -/
def line? : Parse (Option Command) := listAll (commands deepest) .line

end Reader

end Script

end FiniteStructures
