import MetalPool.Power.Backends
import MetalPool.Power.Ipmi
import MetalPool.Power.Ping
import MetalPool.Power.Ssh
import MetalPool.Power.Wake
/-!
# Backends for real machines

Real machines are pinged, shut down and talked to over their management controllers
by tools of the system, and woken by datagrams.
-/

namespace MetalPool

structure Rig where
  waker : WakeSender
  ssh : SshShutdown
  /-- When a shutdown is given up. -/
  sshDeadline : Span
  sshDeadline_eq : ssh.deadline = .ok sshDeadline
  ipmi : IpmiClient
  resolve : Resolver
  tools : Toolbox
  /-- Datagrams sent, each with its destination. -/
  sent : List (SocketAddress × Bytes) := []

namespace Rig

def withTools {α : Type} (r : Rig) (answer : α × Toolbox) : α × Rig :=
  (answer.1, { r with tools := answer.2 })

def probe (r : Rig) (address : String) : Bool × Rig :=
  r.withTools (({} : PingProbe).isReachable address r.tools)

def wake (r : Rig) (mac : String) (port : UInt16) (broadcastAddress : Option String) :
    Except PowerError Unit × Rig :=
  let (result, sent) := r.waker.wake r.resolve mac port broadcastAddress
  (result, { r with sent := r.sent ++ sent })

def shutdown (r : Rig) (host : String) (user : Option String) : Except PowerError Unit × Rig :=
  r.withTools (r.ssh.shutdownBy r.sshDeadline host user r.tools)

instance : Backends Rig where
  probe := probe
  wake := wake
  shutdown := shutdown
  powerOn r address username password := r.withTools (r.ipmi.powerOn address username password r.tools)
  powerOff r address username password := r.withTools (r.ipmi.powerOff address username password r.tools)

/-- No ping is given more time than can be waited for. -/
theorem probe_fits (r : Rig) (address : String) :
    ({} : PingProbe).probe address r.tools = .ok ((r.probe address).1, (r.probe address).2.tools) := by
  have hdeadline : ({} : PingProbe).deadline = .ok (.ofSeconds 3) := rfl
  unfold PingProbe.probe
  rw [hdeadline]
  rfl

theorem shutdown_fits (r : Rig) (host : String) (user : Option String) :
    r.ssh.shutdown host user r.tools = .ok ((r.shutdown host user).1, (r.shutdown host user).2.tools) :=
  SshShutdown.shutdown_of_deadline r.sshDeadline_eq host user r.tools

end Rig

end MetalPool
