import MetalPool.Power.Error
import MetalPool.Text.Blank
import MetalPool.Text.Bytes
/-!
# Running command line tools

Machines are probed and driven through tools of the system. A `Toolbox` says
which tools there are and how their runs to come end, and notes what was run, so
that a backend is a function from toolbox to toolbox.
-/

namespace MetalPool

/-- One command line with the variables added to its environment. -/
structure Invocation where
  program : String
  arguments : List String
  environment : List (String × String) := []
deriving DecidableEq, Repr

inductive ExitStatus where
  | code (n : UInt8)
  | signal (n : Nat)
deriving DecidableEq, Repr

namespace ExitStatus

def success : ExitStatus := .code 0

/-- Names of the signals from 1 on. -/
def signalNames : List String :=
  ["HUP", "INT", "QUIT", "ILL", "TRAP", "ABRT", "BUS", "FPE", "KILL", "USR1", "SEGV", "USR2",
    "PIPE", "ALRM", "TERM", "STKFLT", "CHLD", "CONT", "STOP", "TSTP", "TTIN", "TTOU", "URG",
    "XCPU", "XFSZ", "VTALRM", "PROF", "WINCH", "IO", "PWR", "SYS"]

/-- The name of a signal, if it has one. -/
def signalName? : Nat → Option String
  | 0 => none
  | n + 1 => signalNames[n]?

def text : ExitStatus → String
  | .code n => "exit status: " ++ n.toNat.repr
  | .signal n =>
    "signal: " ++ n.repr ++ ((signalName? n).map (" (SIG" ++ · ++ ")")).getD ""

example : (signal 9).text = "signal: 9 (SIGKILL)" := by decide
example : (signal 31).text = "signal: 31 (SIGSYS)" := by decide
example : (signal 40).text = "signal: 40" := by decide

end ExitStatus

/-- What a tool that ended left behind. -/
structure ToolOutput where
  status : ExitStatus := .success
  stdout : Bytes := []
  stderr : Bytes := []
deriving DecidableEq, Repr

namespace ToolOutput

def succeeded (o : ToolOutput) : Bool := o.status == .success

def stdoutText (o : ToolOutput) : String := Bytes.ofUtf8Lossy o.stdout
def stderrText (o : ToolOutput) : String := Bytes.ofUtf8Lossy o.stderr

/-- What a tool complained of, or how it ended if it said nothing. -/
def complaint (o : ToolOutput) : String :=
  let said := Text.trim o.stderrText
  if said = "" then "exited with " ++ o.status.text else said

def failure (o : ToolOutput) (program : String) : PowerError :=
  .commandFailed program o.complaint

end ToolOutput

/-- How one run ends. -/
inductive RunEnd where
  | finished (output : ToolOutput)
  /-- It was still running at the deadline. -/
  | overdue
  | notStarted (reason : String)
deriving DecidableEq, Repr

namespace RunEnd

/-- The output of a run that was given until `deadline`. -/
def output (deadline : Span) : RunEnd → Except PowerError ToolOutput
  | .finished o => .ok o
  | .overdue => .error (.timeout deadline)
  | .notStarted reason => .error (.io reason)

def succeeded : RunEnd → Bool
  | .finished o => o.succeeded
  | _ => false

def started : RunEnd → Bool
  | .notStarted _ => false
  | _ => true

end RunEnd

inductive ToolEvent where
  | ran (invocation : Invocation) (ending : RunEnd)
  | paused (length : Span)
deriving DecidableEq, Repr

structure Toolbox where
  installed : List String
  /-- How the runs to come end. The last goes on for good; no entry is success without output. -/
  script : List RunEnd := []
  log : List ToolEvent := []
deriving DecidableEq, Repr

namespace Toolbox

def nulMessage : String := "nul byte found in provided data"
def missingMessage : String := "No such file or directory (os error 2)"

/-- No word of a command line can hold the character that ends it. -/
def holdsNul (i : Invocation) : Bool :=
  (i.program :: i.arguments ++ i.environment.map (·.2)).any (·.toList.contains '\x00')

/-- How the next run ends, and the script after it. -/
def next : List RunEnd → RunEnd × List RunEnd
  | [] => (.finished {}, [])
  | [e] => (e, [e])
  | e :: rest => (e, rest)

/-- How a run of the command line ends, and the toolbox after it. -/
def run (t : Toolbox) (i : Invocation) : RunEnd × Toolbox :=
  if holdsNul i then
    let e := RunEnd.notStarted nulMessage
    (e, { t with log := t.log ++ [.ran i e] })
  else if i.program ∉ t.installed then
    let e := RunEnd.notStarted missingMessage
    (e, { t with log := t.log ++ [.ran i e] })
  else
    let (e, script) := next t.script
    (e, { t with script, log := t.log ++ [.ran i e] })

def pause (t : Toolbox) (d : Span) : Toolbox := { t with log := t.log ++ [.paused d] }

/-- The command lines that were started. -/
def runs (t : Toolbox) : List Invocation :=
  t.log.filterMap fun
    | .ran i e => if e.started then some i else none
    | .paused _ => none

end Toolbox

end MetalPool
