import FiniteStructures.Process.Shell.Simple

/-!
Running commands.

    perform   a command, whose parts are run by a given step
    step      a command, with what is done before and after each of them
    execute   steps within steps, as deep as the budget allows
-/

namespace FiniteStructures

namespace Shell

open Script

/-- What a loop does after a command in it. -/
inductive Turn where
  | goOn
  /-- Begins the next turn. -/
  | next
  | stop
  /-- Ends because the function ends. -/
  | leave
deriving DecidableEq, Repr

/-- Finds out what a loop does; a loop that is left counts. -/
def turn : Action Turn := do
  let leave (leaving : Leaving) : Action Unit := modify fun s => { s with leaving }
  match (← get).leaving with
  | .nothing => return .goOn
  | .function => return .leave
  | .loops n =>
    leave (if n ≤ 1 then .nothing else .loops (n - 1))
    return .stop
  | .turn n =>
    leave (if n ≤ 1 then .nothing else .turn (n - 1))
    return if n ≤ 1 then .next else .stop

/-- Does something as a loop. -/
def inLoop (body : Action Nat) : Action Nat := do
  modify fun s => { s with loops := s.loops + 1 }
  let status ← body
  modify fun s => { s with loops := s.loops - 1 }
  return status

/-- The turns of a loop with a condition, at most `n`; `status` is that of the last turn.  After
many turns, the jobs have had the time to run. -/
def turns (again : Step) (tested whileTrue : Bool) (condition body : Command) :
    (n : Nat) → (status : Nat) → Action Nat
  | 0, _ => throw .endless
  | n + 1, status => do
    if n % shortPatience = 0 then
      goOn again
      checkDoomed
    let result ← again true condition
    match ← turn with
    | .leave => return result
    | .stop => return status
    | .next => turns again tested whileTrue condition body n status
    | .goOn =>
      if (result = 0) ≠ whileTrue then return status
      let status ← again tested body
      match ← turn with
      | .goOn | .next => turns again tested whileTrue condition body n status
      | .stop | .leave => return status

/-- The turns of a loop over values. -/
def turnsOver (again : Step) (tested : Bool) (name : Bytes) (body : Command) :
    (status : Nat) → List Bytes → Action Nat
  | status, [] => return status
  | _, value :: rest => do
    assign name value
    let status ← again tested body
    match ← turn with
    | .goOn | .next => turnsOver again tested name body status rest
    | .stop | .leave => return status

/-- One of some patterns matches a text; they are expanded one after another. -/
def matchesOne (again : Step) (text : Bytes) : List Word → Action Bool
  | [] => return false
  | w :: rest => do
    if (← pattern again w).accepts text then return true else matchesOne again text rest

/-- The command of the first arm that matches a text. -/
def chosen (again : Step) (text : Bytes) : List (List Word × Command) → Action Command
  | [] => return .skip
  | (ps, body) :: rest => do
    if ← matchesOne again text ps then return body else chosen again text rest

/-- Runs the parts of a pipeline; each reads what the one before it has written. -/
def pipelineFrom (again : Step) (tested : Bool) : Option Nat → List Command → Action Nat
  | _, [] => return 0
  | input, c :: rest => do
    let (_, reading, writing) ← pipe []
    let status ← runPart again do
      if input.isSome then connect 0 input
      if !rest.isEmpty then connect 1 (some writing)
      again tested c
    if rest.isEmpty then return status else pipelineFrom again tested (some reading) rest

/-- The end of a command whose channels cannot be connected. -/
def unconnected (tested : Bool) : Action Nat := do
  if !tested && (← get).hasOption 'e' then
    modify fun s => { s with status := 2 }
    throw .exit
  return 2

/-- Notes the line of a command. -/
def atLine (line : Nat) : Action Unit := modify fun s => { s with line }

/-- Runs a command, whose parts are run by `again`.  It may be the last one, and so may a command
with which it ends. -/
def perform (again : Step) (isLast tested : Bool) (c : Command) : Action Nat := do
  let goesOn : Action Bool := do return (← get).leaving = .nothing
  let endWith (c : Command) : Action Nat := do
    modify fun s => { s with isLast }
    again tested c
  match c with
  | .skip => return 0
  | .simple line assignments words redirections =>
    atLine line
    simple again isLast tested assignments words redirections
  | .sequence first second =>
    let status ← again tested first
    if ← goesOn then endWith second else return status
  | .andThen first second =>
    let status ← again true first
    if status = 0 && (← goesOn) then endWith second else return status
  | .orElse first second =>
    let status ← again true first
    if status ≠ 0 && (← goesOn) then endWith second else return status
  | .negated body =>
    let status ← again true body
    if !(← goesOn) then return status else return if status = 0 then 1 else 0
  | .pipeline parts => asProcess again (pipelineFrom again tested none parts)
  | .background body => inBackground body
  | .conditional condition body otherwise =>
    let status ← again true condition
    if !(← goesOn) then return status
    else if status = 0 then endWith body
    else
      match otherwise with
      | .skip => return 0
      | otherwise => endWith otherwise
  | .loop whileTrue condition body =>
    inLoop do turns again tested whileTrue condition body (← get).patience 0
  | .each line name words body =>
    atLine line
    let values ← match words with
      | some words => allFields again words
      | none => do pure (← get).arguments
    inLoop (turnsOver again tested name body 0 values)
  | .choice line subject arms =>
    atLine line
    match ← chosen again (← pathText again subject) arms with
    | .skip => return 0
    | body => endWith body
  | .redirected line body redirections =>
    atLine line
    let connections ← redirections.mapM (prepare again)
    connected again connections false (again tested body) (unconnected tested)
  | .isolated line body redirections =>
    atLine line
    let connections ← redirections.mapM (prepare again)
    split again do
      if ← establishAll again connections then again tested body else throw .failure
  | .define name body =>
    modify fun s => { s with functions := put s.functions name body }
    return 0

/-- A failure of the command can end the shell. -/
def isChecked : Command → Bool
  | .simple .. | .pipeline _ | .isolated .. | .background _ => true
  | _ => false

/-- Runs a command, and what is to be run for signals before and after it.  A command that fails
ends the shell if the option for that is on, unless the failure decides something. -/
def step (again : Step) (tested : Bool) (c : Command) : Action Nat := do
  let isLast := (← get).isLast
  modify fun s => { s with isLast := false }
  if (← get).hasOption 'n' then return 0
  runTraps again
  let status ← perform again isLast tested c
  modify fun s => { s with status }
  runTraps again
  if status ≠ 0 && !tested && isChecked c && (← get).hasOption 'e' then throw .exit
  return status

/-- Runs commands nested at most `n` deep; deeper ones exhaust the memory of the shell. -/
def execute : (n : Nat) → Step
  | 0, _, _ => throw (.killed 11)
  | n + 1, tested, c => step (execute n) tested c

/-- How deep commands may be nested. -/
def deepestCommand : Nat := 20000

end Shell

end FiniteStructures
