import FiniteStructures.Process.Shell.Option

/-!
Jobs in the background: how they begin, and the commands `jobs`, `fg`, `bg` and `wait`.
-/

namespace FiniteStructures

namespace Shell

open Script

/-- The number of processes that run a command. -/
def processCount : Command → Nat
  | .pipeline parts => parts.length
  | _ => 1

/-- Begins to run a command in the background, without input. -/
def inBackground (body : Command) : Action Nat := do
  let number ← takeJobNumber
  let input ← openStream ⟨.null, 0, false, true, true⟩
  let s ← get
  let inner := part s
  let situation := { inner.toSituation with
    channels := (0, input) :: s.channels.filter fun c => c.1 ≠ 0 }
  let job : Job := ⟨number, inner.self, processCount body, .running situation body, false⟩
  set { s with world := inner.world, jobs := job :: s.jobs, lastJob := some inner.self }
  return 0

/-! ## Names of jobs -/

/-- The job that a word names, or the current one.  No job can be brought to the foreground, since
there is no terminal. -/
def jobOf (foreground : Bool) (name : Option Bytes) : Action Job := do
  let jobs := (← get).jobs
  let text := name.getD ['%']
  let unknown : Action Job := refuseText "No such job: " text ""
  let orElse (found : Option Job) (otherwise : Action Job) : Action Job := do
    match found with
    | some job =>
      if foreground then
        refuseText "job " (name.getD "(null)".toList) " not created under job control"
      return job
    | none => otherwise
  match text with
  | '%' :: rest =>
    if rest.isEmpty || rest = ['+'] || rest = ['%'] then
      orElse jobs.head? (refuse "No current job".toList)
    else if rest = ['-'] then orElse jobs[1]? (refuse "No previous job".toList)
    else if rest.all Char.isDigit then
      orElse (jobs.find? (·.number = Numeral.ofDigits 10 rest)) unknown
    else if rest = ['?'] && 1 < jobs.length then refuseText "" text ": ambiguous"
    else if rest = ['?'] then orElse jobs.head? unknown
    else unknown
  | _ => unknown

/-- The job that a word names. -/
def jobNamed (name : Bytes) : Action Job := jobOf false (some name)

/-! ## Listing -/

/-- Where a job is, in words. -/
def jobStateText : JobState → String
  | .running .. => "Running"
  | .ended _ (some signal) => signalMeaning signal
  | .ended 0 none => "Done"
  | .ended status none => "Done(" ++ toString status ++ ")"

/-- A job as it is listed; `mark` says whether it is the current one or the one before it. -/
def jobLine (withProcess : Bool) (mark : Char) (job : Job) : Bytes :=
  let text := "[".toList ++ Bytes.ofNat job.number ++ "] ".toList ++ [mark, ' '] ++
    (if withProcess then Bytes.ofNat job.process ++ [' '] else []) ++
    (jobStateText job.state).toList
  text ++ List.replicate (max 1 (33 - text.length)) ' ' ++
    (List.replicate (if withProcess then 0 else job.size - 1) " | ".toList).flatten ++ ['\n']

/-- Lists a job, which is forgotten if it has ended. -/
def listJob (options : Bytes) (job : Job) : Action Bytes := do
  let jobs := (← get).jobs
  let mark :=
    if jobs.head?.any (·.number = job.number) then '+'
    else if jobs[1]?.any (·.number = job.number) then '-'
    else ' '
  if options.getLast? = some 'p' then return Bytes.ofNat job.process ++ ['\n']
  if !job.isRunning then
    modify fun s => { s with jobs := s.jobs.filter (·.number ≠ job.number) }
  return jobLine (options.getLast? = some 'l') mark job

/-- The command `jobs`. -/
def jobsCommand (args : List Bytes) : Action Nat := do
  let (options, names) ← commandOptions "lp" args
  let letters := options.map (·.1)
  if names.isEmpty then
    print (← (← get).jobs.mapM (listJob letters)).flatten
  else
    let lines ← names.mapM fun name => do print (← listJob letters (← jobNamed name))
    return lines.foldl max 0

/-- The commands `fg` and `bg`. -/
def continueCommand (args : List Bytes) : Action Nat := do
  discard <| jobOf true (← noOptions args).head?
  return 0

/-! ## Waiting -/

/-- The signal that has just arrived. -/
def interruption? (s : Shell) : Option Nat :=
  ((s.world.arrived.filter (·.1 = s.self)).getLast?).map (·.2)

/-- Waits until all jobs have ended; gives the signal that arrived meanwhile. -/
def await (again : Step) : Action (Option Nat) := do
  settle again
  checkDoomed
  return (← get).interruption?

/-- Marks jobs as waited for. -/
def markAwaited (isMeant : Job → Bool) : Action Unit :=
  modify fun s => { s with
    jobs := s.jobs.map fun job => if isMeant job then { job with awaited := true } else job }

/-- The job that a word names, with a percent sign or by the number of its process. -/
def awaitedJob? (name : Bytes) : Action (Option Job) := do
  if name.head? = some '%' then return some (← jobNamed name)
  let process ← number name
  return (← get).jobs.find? (·.process = process)

/-- Waits for jobs one after another, and gives the status of the last one that there is. -/
def awaitAll (again : Step) : (status : Nat) → List Bytes → Action Nat
  | status, [] => return status
  | status, name :: rest => do
    match ← awaitedJob? name with
    | none => awaitAll again status rest
    | some job =>
      if job.isRunning then
        if let some signal := ← await again then return 128 + signal
      markAwaited (·.number = job.number)
      let jobs := (← get).jobs
      match (jobs.find? fun (other : Job) => other.number = job.number).map Job.state with
      | some (.ended status signal) =>
        if job.isRunning then reportSignal signal
        awaitAll again status rest
      | _ => awaitAll again status rest

/-- The command `wait`. -/
def waitCommand (again : Step) (args : List Bytes) : Action Nat := do
  match ← noOptions args with
  | [] =>
    if (← get).jobs.any (·.isRunning) then
      if let some signal := ← await again then return 128 + signal
    markAwaited (!·.isRunning)
    return 0
  | names => awaitAll again 127 names

end Shell

end FiniteStructures
