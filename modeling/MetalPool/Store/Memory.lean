import MetalPool.Store.Session
/-!
# Records in memory

Records by name. Every insert and every write that is not refused by a pending
conflict takes the next version number; a write that names a version other than
the record's is refused.
-/

namespace MetalPool

structure Store where
  records : SortedMap Server := .empty
  /-- The last version number given out. -/
  lastVersion : Nat := 0
  /-- Successful writes so far. -/
  writes : Nat := 0
  /-- Names whose next write is refused, once for each time they stand here. -/
  conflicts : List String := []
deriving DecidableEq, Repr, Inhabited

namespace Store

def get (s : Store) (name : String) : Option Server := s.records.get? name

/-- All records, by name. -/
def list (s : Store) : List Server := s.records.values

/-- Puts a record in, at a new version, in place of one of its name. -/
def insert (s : Store) (server : Server) : Store :=
  { s with
    records := s.records.insert server.name (server.withVersion (s.lastVersion + 1).repr)
    lastVersion := s.lastVersion + 1 }

/-- Has the next write to `name` refused. -/
def conflictNext (s : Store) (name : String) : Store :=
  { s with conflicts := s.conflicts ++ [name] }

/-- Changes the record called `name`, if it is at `expected` where that is given. -/
def write (s : Store) (name : String) (expected : Option String) (change : Server → Server) :
    Except StoreError Unit × Store :=
  if name ∈ s.conflicts then
    (.error (.conflict name), { s with conflicts := s.conflicts.erase name })
  else
    let s := { s with lastVersion := s.lastVersion + 1 }
    match s.records.get? name with
    | none => (.error (.notFound name), s)
    | some server =>
      if expected.isSome ∧ server.version? ≠ expected then (.error (.conflict name), s)
      else
        let changed := (change server).withVersion s.lastVersion.repr
        (.ok (), { s with records := s.records.insert name changed, writes := s.writes + 1 })

def updatePowerState (s : Store) (name : String) (expected : Option String) (state : PowerState) :
    Except StoreError Unit × Store :=
  s.write name expected (·.withPowerState state)

def updateStatus (s : Store) (name : String) (expected : Option String) (status : ServerStatus) :
    Except StoreError Unit × Store :=
  s.write name expected (·.withStatus status)

/-- The answer to a request, and the store after it. -/
def serve : (r : StoreRequest) → Store → Except StoreError r.Answer × Store
  | .get name, s => (.ok (s.get name), s)
  | .list, s => (.ok s.list, s)
  | .updatePowerState name version state, s => s.updatePowerState name version state
  | .updateStatus name version status, s => s.updateStatus name version status

/-- The names of the records, in order. -/
def names (s : Store) : List String := s.records.keys

/-- The records that are not as they were in `before`. -/
def changedSince (s before : Store) : List Server :=
  (s.records.entries.filter fun e => before.records.get? e.1 ≠ some e.2).map Prod.snd

end Store

/-- Holds a session with records in memory. -/
def Session.run {α : Type} (session : Session α) (s : Store) : α × Store :=
  session.hold Store.serve s

end MetalPool
