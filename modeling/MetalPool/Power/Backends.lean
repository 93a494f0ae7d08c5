import MetalPool.Power.Command
/-!
# Backends

What a controller reaches machines through: a probe, a sender of wake-ups, a way to
shut machines down, and a client of management controllers. A backend answers a call,
and the call may leave it in another state.
-/

namespace MetalPool

class Backends (σ : Type) where
  /-- Whether the address answers. -/
  probe (b : σ) (address : String) : Bool × σ
  wake (b : σ) (mac : String) (port : UInt16) (broadcastAddress : Option String) :
    Except PowerError Unit × σ
  shutdown (b : σ) (host : String) (user : Option String) : Except PowerError Unit × σ
  powerOn (b : σ) (address username password : String) : Except PowerError Unit × σ
  powerOff (b : σ) (address username password : String) : Except PowerError Unit × σ

/-- Carries out a command. -/
def Backends.execute {σ : Type} [Backends σ] (b : σ) : PowerCommand → Except PowerError Unit × σ
  | .wake mac port broadcastAddress => wake b mac port broadcastAddress
  | .shutdown host user => shutdown b host user
  | .bmcOn address username password => powerOn b address username password
  | .bmcOff address username password => powerOff b address username password

end MetalPool
