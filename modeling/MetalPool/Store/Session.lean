import MetalPool.Server.Basic
import MetalPool.Store.Error
/-!
# Talking to the record store

A client of the store asks for one thing at a time and goes on with the answer.
A `Session` is such a conversation, apart from the store that answers: the same
session can be held with records in memory or with a cluster, alone or between
the requests of other clients.
-/

namespace MetalPool

/-- What a client may ask. -/
inductive StoreRequest where
  | get (name : String)
  | list
  /-- With a version, the write goes through only if the record is at it. -/
  | updatePowerState (name : String) (version : Option String) (state : PowerState)
  | updateStatus (name : String) (version : Option String) (status : ServerStatus)
deriving DecidableEq, Repr

/-- What is answered unless the request is refused. -/
def StoreRequest.Answer : StoreRequest → Type
  | .get _ => Option Server
  | .list => List Server
  | .updatePowerState .. => Unit
  | .updateStatus .. => Unit

/-- A conversation that ends with a value. -/
inductive Session (α : Type) where
  | done (value : α)
  | ask (request : StoreRequest) (next : Except StoreError request.Answer → Session α)

namespace Session

/-- One conversation after the other. -/
def bind {α β : Type} : Session α → (α → Session β) → Session β
  | .done a, f => f a
  | .ask r next, f => .ask r fun answer => (next answer).bind f

instance : Monad Session where
  pure := .done
  bind := bind

/-- The conversation of one request. -/
def request (r : StoreRequest) : Session (Except StoreError r.Answer) := .ask r .done

/-- Holds a conversation with whatever answers requests and keeps the state `σ`. -/
def hold {σ α : Type} (serve : (r : StoreRequest) → σ → Except StoreError r.Answer × σ) :
    Session α → σ → α × σ
  | .done a, s => (a, s)
  | .ask r next, s => (next (serve r s).1).hold serve (serve r s).2

end Session

end MetalPool
