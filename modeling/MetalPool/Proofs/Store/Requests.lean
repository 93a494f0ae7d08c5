import MetalPool.Proofs.Store.Write
/-!
# What a session asks for

`Session.Asks p` says that every request a session can make satisfies `p`,
whatever it is answered. What such requests keep of a store, the session keeps
from its first request to its last (`trail_keeps`).

The records' owners share the store by what they ask for: `Server.adapterView`
is all of a record that a request other than a status write leaves alone.
-/

namespace MetalPool

namespace Session

variable {α β σ : Type} {p : StoreRequest → Prop}

/-- All requests of the session satisfy `p`. -/
def Asks (p : StoreRequest → Prop) : Session α → Prop
  | .done _ => True
  | .ask r next => p r ∧ ∀ answer, (next answer).Asks p

theorem asks_bind {session : Session α} {next : α → Session β} (h : session.Asks p)
    (hn : ∀ a, (next a).Asks p) : (session >>= next).Asks p := by
  induction session with
  | done a => exact hn a
  | ask r rest ih => exact ⟨h.1, fun answer => ih answer (h.2 answer)⟩

variable (serve : (r : StoreRequest) → σ → Except StoreError r.Answer × σ)

/-- A session goes on where the one before it ended. -/
theorem hold_bind (session : Session α) (next : α → Session β) (s : σ) :
    (session >>= next).hold serve s = (next (session.hold serve s).1).hold serve (session.hold serve s).2 := by
  induction session generalizing s with
  | done a => rfl
  | ask r rest ih => exact ih (serve r s).1 (serve r s).2

theorem run_bind (session : Session α) (next : α → Session β) (s : Store) :
    (session >>= next).run s = (next (session.run s).1).run (session.run s).2 :=
  hold_bind Store.serve session next s

/-- The requests of a session in order, each with whether it is answered and not refused. -/
def log : Session α → σ → List (StoreRequest × Bool)
  | .done _, _ => []
  | .ask r next, s => (r, (serve r s).1.isOk) :: (next (serve r s).1).log (serve r s).2

theorem log_bind (session : Session α) (next : α → Session β) (s : σ) :
    (session >>= next).log serve s =
      session.log serve s ++ (next (session.hold serve s).1).log serve (session.hold serve s).2 := by
  induction session generalizing s with
  | done a => rfl
  | ask r rest ih => exact congrArg (_ :: ·) (ih (serve r s).1 (serve r s).2)

/-- The states that the requests of a session leave behind, one after the other. -/
def trail : Session α → σ → List σ
  | .done _, _ => []
  | .ask r next, s => (serve r s).2 :: (next (serve r s).1).trail (serve r s).2

/-- A session ends in the state that its last request left. -/
theorem hold_eq_getLast (session : Session α) (s : σ) :
    (session.hold serve s).2 = (s :: session.trail serve s).getLast (by simp) := by
  induction session generalizing s with
  | done a => rfl
  | ask r next ih =>
    rw [hold, ih]
    simp only [trail, List.getLast_cons_cons]

variable {serve}

/-- What every request keeps, the whole session keeps. -/
theorem trail_keeps (view : σ → β) (hp : ∀ r s, p r → view (serve r s).2 = view s)
    {session : Session α} (h : session.Asks p) (s : σ) :
    ∀ s' ∈ session.trail serve s, view s' = view s := by
  induction session generalizing s with
  | done a => intro s' hs; cases hs
  | ask r next ih =>
    intro s' hs
    have hr := hp r s h.1
    rcases List.mem_cons.1 hs with rfl | hs
    · exact hr
    · exact (ih _ (h.2 _) _ s' hs).trans hr

end Session

/-! ## Requests that are no status write -/

/-- The request writes no status. -/
def StoreRequest.SparesStatus : StoreRequest → Prop
  | .updateStatus .. => False
  | _ => True

/-- The record without its version. -/
def Server.unversioned (s : Server) : Server :=
  { s with metadata := { s.metadata with resourceVersion := none } }

theorem Server.unversioned_withVersion (s : Server) (version : String) :
    (s.withVersion version).unversioned = s.unversioned := rfl

/-- A record without its desired state and its version. -/
def Server.adapterView (s : Server) : Server :=
  { s with
    metadata := { s.metadata with resourceVersion := none }
    spec := { s.spec with powerState := none } }

theorem Server.status_eq_of_adapterView {a b : Server} (h : a.adapterView = b.adapterView) :
    a.status = b.status :=
  (congrArg Server.status h :)

namespace Store

/-- What is left of the records without desired states and versions, by name. -/
def adapterView (s : Store) (name : String) : Option Server := (s.get name).map Server.adapterView

theorem serve_adapterView (r : StoreRequest) (s : Store) (h : r.SparesStatus) :
    (serve r s).2.adapterView = s.adapterView := by
  cases r with
  | get name => rfl
  | list => rfl
  | updateStatus => cases h
  | updatePowerState name version state =>
    funext n
    unfold adapterView
    rcases get_write s name version (·.withPowerState state) with hw | ⟨server, hg, hw⟩
    · exact congrArg _ (hw n)
    · refine (congrArg (Option.map Server.adapterView) (hw n)).trans ?_
      by_cases hn : n = name
      · subst hn; rw [if_pos rfl, hg]; rfl
      · rw [if_neg hn]

/-- Records with equal views have equal statuses. -/
theorem status_of_adapterView {s s' : Store} (h : s'.adapterView = s.adapterView) {name : String}
    {server : Server} (hg : s.get name = some server) :
    ∃ server', s'.get name = some server' ∧ server'.adapterView = server.adapterView := by
  have hn : s'.adapterView name = some server.adapterView := by
    rw [h]; unfold adapterView; rw [hg]; rfl
  exact Option.map_eq_some_iff.1 hn

end Store

end MetalPool
