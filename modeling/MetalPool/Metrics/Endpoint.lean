import MetalPool.Metrics.Exposition
import MetalPool.Target
/-!
# The health and metrics endpoint

Three pages to read: whether the process runs, whether it is ready, and the
counters.
-/

namespace MetalPool

structure HttpReply where
  status : Nat
  contentType : Option String := none
  body : String := ""
deriving DecidableEq, Repr

namespace Metrics

def plainText : String := "text/plain; charset=utf-8"
def expositionText : String := "text/plain; version=0.0.4; charset=utf-8"

/-- What a page says, if there is one at the path. -/
def page? (m : Metrics) (path : String) : Option HttpReply :=
  if path = "/healthz" then some ⟨200, some plainText, "ok"⟩
  else if path = "/readyz" then
    some (if m.ready then ⟨200, some plainText, "ready"⟩ else ⟨503, some plainText, "not ready"⟩)
  else if path = "/metrics" then some ⟨200, some expositionText, m.text⟩
  else none

/-- Pages can be read in whole or without their body, and nothing else. -/
def respond (m : Metrics) (method target : String) : HttpReply :=
  match m.page? (Target.ofText target).path with
  | none => { status := 404 }
  | some page =>
    if method = "GET" then page
    else if method = "HEAD" then { page with body := "" }
    else { status := 405 }

end Metrics

end MetalPool
