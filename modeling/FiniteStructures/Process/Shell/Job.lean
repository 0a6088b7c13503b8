import FiniteStructures.Process.Shell.Part

/-!
Processes of a shell: parts whose end it waits for, and jobs in the background.  A job begins when
the shell has to wait for something, since its own next commands are faster than the beginning of a
process.  A job that has then run for too long goes on later, as if it had not begun yet.
-/

namespace FiniteStructures

namespace Job

def isRunning (job : Job) : Bool := job.state matches .running ..

/-- The job was waited for and has ended, so that it can be forgotten. -/
def isOver (job : Job) : Bool := job.awaited && !job.isRunning

end Job

namespace Shell

open Script

/-! ## Signals that ended a process -/

/-- What signals mean. -/
def signalMeanings : List String :=
  ["Hangup", "Interrupt", "Quit", "Illegal instruction", "Trace/breakpoint trap", "Aborted",
    "Bus error", "Floating point exception", "Killed", "User defined signal 1",
    "Segmentation fault", "User defined signal 2", "Broken pipe", "Alarm clock", "Terminated",
    "Stack fault", "Child exited", "Continued", "Stopped (signal)", "Stopped",
    "Stopped (tty input)", "Stopped (tty output)", "Urgent I/O condition",
    "CPU time limit exceeded", "File size limit exceeded", "Virtual timer expired",
    "Profiling timer expired", "Window changed", "I/O possible", "Power failure",
    "Bad system call"]

/-- What a signal means. -/
def signalMeaning (signal : Nat) : String :=
  match signalMeanings[signal - 1]? with
  | some text => text
  | none =>
    if 34 ≤ signal then "Real-time signal " ++ toString (signal - 34)
    else "Unknown signal " ++ toString signal

/-- Reports the signal that ended a process; two signals are not worth it. -/
def reportSignal (signal : Option Nat) : Action Unit := do
  if let some signal := signal then
    unless signal = 2 || signal = 13 do complainLine (signalMeaning signal).toList

/-! ## Jobs -/

/-- The number for the next job: the first one that no job needs. -/
def nextJobNumber (jobs : List Job) : Nat :=
  let isFree (n : Nat) : Bool := jobs.all fun job => job.number ≠ n || job.isOver
  (((List.range (jobs.length + 1)).map (· + 1)).find? isFree).getD (jobs.length + 1)

/-- Takes the number for a process, whose job with that number is forgotten. -/
def takeJobNumber : Action Nat := do
  let number := nextJobNumber (← get).jobs
  modify fun s => { s with jobs := s.jobs.filter (·.number ≠ number) }
  return number

/-- Notes that a process has ended, if there is an answer to the signal for that. -/
def noteChild : Action Unit :=
  modify fun s =>
    match s.traps.lookup 17 with
    | some (_ :: _) => { s with childEnded := true }
    | _ => s

/-- What becomes of a running job, whose loops may have so many turns. -/
def runJob (settle : Action Unit) (again : Step) (patience : Nat) (job : Job)
    (situation : Situation) (body : Command) : Action JobState := do
  let s ← get
  match s.world.doomed.lookup job.process with
  | some signal => return .ended (128 + signal) (some signal)
  | none =>
    let inner : Shell := { situation with patience, world := s.world, jobs := [] }
    match ← ExceptT.lift (runInner settle again inner (again false body)).run with
    | .ok (status, signal) => return .ended status signal
    | .error .endless =>
      let ignored := [2, 3].map fun signal => ((job.process, signal), Disposition.ignored)
      set { s with world := { s.world with dispositions := ignored ++ s.world.dispositions } }
      return job.state
    | .error stop => throw stop

/-- Brings jobs to their end, if they get there. -/
def settleEach (settle : Action Unit) (again : Step) (patience : Nat) : List Job → Action Unit
  | [] => return
  | job :: rest => do
    if let .running situation body := job.state then
      let state ← runJob settle again patience job situation body
      if state matches .ended .. then
        modify fun s => { s with
          jobs := s.jobs.map fun other =>
            if other.number = job.number then { job with state } else other
          world := { s.world with
            processes := s.world.processes.filter (· ≠ job.process) } }
        noteChild
    settleEach settle again patience rest

/-- Brings all jobs to their end, if they get there; jobs of jobs at most `n` deep. -/
def settleUpTo (again : Step) (patience : Nat) : (n : Nat) → Action Unit
  | 0 => return
  | n + 1 => do settleEach (settleUpTo again patience n) again patience (← get).jobs.reverse

/-- How deep jobs may begin other jobs. -/
def deepestJob : Nat := 1000

/-- The number of turns that no loop reaches. -/
def mostTurns : Nat := 100000000

/-- The number of turns that a loop of a job has in the time of another process. -/
def shortPatience : Nat := 2000

/-- Brings all jobs to their end. -/
def settle (again : Step) : Action Unit := settleUpTo again mostTurns deepestJob

/-- Runs the jobs while another process runs. -/
def goOn (again : Step) : Action Unit := settleUpTo again shortPatience deepestJob

/-- Ends the jobs to which a signal was sent that ends them. -/
def reap (again : Step) : Action Unit := do
  let s ← get
  settleEach (settle again) again 0
    (s.jobs.filter fun job => (s.world.doomed.lookup job.process).isSome)

/-- Does something in the time of processes that the shell waits for and that are a job. -/
def asProcess {α : Type} (again : Step) (body : Action α) : Action α := do
  goOn again
  discard takeJobNumber
  let a ← body
  reap again
  noteChild
  checkDoomed
  return a

/-! ## Parts -/

/-- Runs an action as a process that is a part of the shell. -/
def runPart (again : Step) (body : Action Nat) : Action Nat := do
  let (status, signal) ← runInner (settle again) again (part (← get)) body
  reportSignal signal
  return status

/-- Runs an action as a part of the shell, which waits for its end. -/
def split (again : Step) (body : Action Nat) : Action Nat := asProcess again (runPart again body)

/-- A text without line ends at its end. -/
def chomp (text : Bytes) : Bytes := (text.reverse.dropWhile (· == '\n')).reverse

/-- What a command writes, without line ends at the end. -/
def capture (again : Step) (c : Command) : Action Bytes := do
  match c with
  | .skip =>
    modify fun s => { s with innerStatus := 0 }
    return []
  | c =>
    let (number, _, writing) ← pipe []
    let innerStatus ← split again do
      connect 1 (some writing)
      again false c
    modify fun s => { s with innerStatus }
    return chomp ((pipeOf (← get).world number).content.filter (·.toNat ≠ 0))

end Shell

end FiniteStructures
