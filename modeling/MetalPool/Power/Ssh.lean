import MetalPool.Power.Tool
/-!
# Shutting machines down

A machine is shut down by a command over SSH with a key. The machine may drop
the connection before it reports success, which counts as success too.
-/

namespace MetalPool

structure SshShutdown where
  program : String := "ssh"
  keyPath : Option String
  defaultUser : String
  timeout : Span
deriving DecidableEq, Repr

namespace SshShutdown

/-- The user and host that the machine is shut down as. -/
def target (s : SshShutdown) (host : String) (user : Option String) : String :=
  (user.filter (· ≠ "")).getD s.defaultUser ++ "@" ++ host

def invocation (s : SshShutdown) (key host : String) (user : Option String) : Invocation where
  program := s.program
  arguments :=
    ["-i", key, "-o", "BatchMode=yes", "-o", "StrictHostKeyChecking=no",
      "-o", "UserKnownHostsFile=/dev/null",
      "-o", "ConnectTimeout=" ++ (max 1 s.timeout.wholeSeconds).repr,
      s.target host user, "sudo shutdown -h now"]

/-- When a run is given up: some time after the connection must stand. -/
def deadline (s : SshShutdown) : Except TimeOverflow Span := s.timeout.add? (.ofSeconds 5)

/-- The phrase stands somewhere in the text. -/
def mentions (phrase : List Char) : List Char → Bool
  | [] => phrase.isEmpty
  | c :: rest => phrase.isPrefixOf (c :: rest) || mentions phrase rest

/-- The remote end closed the connection, as it does while it goes down. -/
def droppedByShutdown (o : ToolOutput) : Bool :=
  o.status == .code 255 && mentions "closed by remote host".toList o.stderrText.toList

/-- What the output of a run says. -/
def read (s : SshShutdown) (o : ToolOutput) : Except PowerError Unit :=
  if o.succeeded || droppedByShutdown o then .ok () else .error (o.failure s.program)

def missingKey : PowerError := .configuration "SSH private key is required"

/-- Shuts a machine down; a run is given up at the deadline. -/
def shutdownBy (s : SshShutdown) (deadline : Span) (host : String) (user : Option String) (t : Toolbox) :
    Except PowerError Unit × Toolbox :=
  match s.keyPath with
  | none => (.error missingKey, t)
  | some key =>
    let (ending, t) := t.run (s.invocation key host user)
    ((ending.output deadline).bind s.read, t)

/-- Shuts a machine down, unless the deadline is no time that can be waited for. -/
def shutdown (s : SshShutdown) (host : String) (user : Option String) (t : Toolbox) :
    Except TimeOverflow (Except PowerError Unit × Toolbox) :=
  match s.keyPath with
  | none => .ok (.error missingKey, t)
  | some _ => do return s.shutdownBy (← s.deadline) host user t

theorem shutdown_of_deadline {s : SshShutdown} {deadline : Span} (h : s.deadline = .ok deadline)
    (host : String) (user : Option String) (t : Toolbox) :
    s.shutdown host user t = .ok (s.shutdownBy deadline host user t) := by
  unfold shutdown
  cases hkey : s.keyPath with
  | none => simp [shutdownBy, hkey]
  | some key => rw [h]; rfl

end SshShutdown

end MetalPool
