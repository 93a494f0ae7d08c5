import MetalPool.Span
/-!
# Failures of power actions

Why a machine's power could not be switched or asked for.
-/

namespace MetalPool

inductive PowerError where
  /-- A socket or a process could not be used. -/
  | io (text : String)
  | invalidMac (mac : String)
  /-- A command ended without success. -/
  | commandFailed (command detail : String)
  /-- A command did not end in time. -/
  | timeout (after : Span)
  /-- Something that must be configured is not. -/
  | configuration (text : String)
deriving DecidableEq, Repr

def PowerError.message : PowerError → String
  | .io text => "IO error: " ++ text
  | .invalidMac mac => "Invalid MAC address: " ++ mac
  | .commandFailed command detail => "Command `" ++ command ++ "` failed: " ++ detail
  | .timeout after => "Timed out after " ++ after.text
  | .configuration text => "Configuration error: " ++ text

/-- Why an action toward the desired state was not carried out. -/
inductive ActionError where
  /-- The record's control parameters do not say how. -/
  | config (text : String)
  | power (error : PowerError)
deriving DecidableEq, Repr

def ActionError.message : ActionError → String
  | .config text => text
  | .power error => error.message

end MetalPool
