import MetalPool.Watch.Watcher
import MetalPool.World.Step
/-!
# A watch second by second

Reports on records do not start a turn at once: each puts the record's next turn
off to a few seconds later, in place of the turn it had coming, so that a burst
of reports makes one turn. A `Timeline` holds the turns to come. In every second
the turns that are due run first and then what happens in that second is applied.

Only so many turns can go on at once: those due in one second are taken in rounds.
The turns of a round go on side by side, so that one that stops the watch leaves
the others of its round to end and keeps only the later rounds from starting.
-/

namespace MetalPool

/-- What a watch reports, or something else that happens while it goes on. -/
inductive WatchEvent where
  | reported (name : String) (generation : Option Int64)
  | deleted (name : String)
  | happened (step : Step)
  | shutdown

/-- What can be seen of the turns. -/
inductive WatchNote where
  | reconciliation (second : Nat) (name : String)
  | statusWritten (second : Nat) (name : String) (phase : Option Phase) (failureCount : UInt32)
deriving DecidableEq, Repr

namespace WatchNote

def second : WatchNote → Nat
  | .reconciliation second _ => second
  | .statusWritten second .. => second

def name : WatchNote → String
  | .reconciliation _ name => name
  | .statusWritten _ name .. => name

end WatchNote

structure Timeline where
  watcher : Watcher
  world : World
  /-- The date of second 0. -/
  origin : Timestamp
  /-- The records that exist by the last report on each, with the generation reported. -/
  reported : SortedMap (Option Int64) := .empty
  /-- The records with a turn to come and its second, the turn set last at the head. -/
  due : List (String × Nat) := []
  stopped : Bool := false
  notes : List WatchNote := []

namespace Timeline

/-- How many seconds turns are put off. -/
def debounce : Nat := 5

/-- Sets the turn of a record, in place of the one it had coming. -/
def schedule (t : Timeline) (name : String) (second : Nat) : Timeline :=
  { t with due := (name, second + debounce) :: t.due.filter (·.1 != name) }

/-- A report on a record that exists. -/
def report (t : Timeline) (second : Nat) (name : String) (generation : Option Int64) : Timeline :=
  { t.schedule name second with reported := t.reported.insert name generation }

/-- What a turn shows: its reconciliation, and the status if one was written. -/
def notesOf (second : Nat) (name : String) (reconciled : Bool) (before after : Store) :
    List WatchNote :=
  if reconciled then
    .reconciliation second name ::
      (if before.writes < after.writes then
        ((after.get name).map fun server =>
          .statusWritten second name server.statusOrDefault.phase
            server.statusOrDefault.failureCount).toList
      else [])
  else []

/-- Takes a turn. One that ends with a delay too long to be noted stops the watch. -/
def takeTurn (t : Timeline) (second : Nat) (name : String) (generation : Option Int64) : Timeline :=
  let now := Instant.ofSeconds second
  let times : TurnTimes := { start := now, finish := now, date := t.origin.addSeconds second }
  let (turn, watcher, world) := t.watcher.turn t.world name generation times
  match turn with
  | .error _ =>
    { t with
      watcher := watcher
      world := world
      stopped := true
      notes := t.notes ++ notesOf second name true t.world.store world.store }
  | .ok turn =>
    { t.schedule name (second + turn.delay.wholeSeconds) with
      watcher := watcher
      world := world
      notes := t.notes ++ notesOf second name turn.result.isSome t.world.store world.store }

/-- Runs what is due for `name`: nothing for a record that is gone. -/
def runDue (t : Timeline) (second : Nat) (name : String) : Timeline :=
  let t := { t with due := t.due.filter (·.1 != name) }
  match t.reported.get? name with
  | some generation => t.takeTurn second name generation
  | none => t

/-! ## Rounds -/

/-- How many turns can go on at once. -/
def width : Nat := 8

/-- The names in rounds, each but the last one full. -/
def roundsOf : List String → List (List String)
  | [] => []
  | name :: rest => (name :: rest.take (width - 1)) :: roundsOf (rest.drop (width - 1))
termination_by names => names.length
decreasing_by simp only [List.length_drop, List.length_cons]; omega

/-- Takes the turns of a round, all of them to their end. -/
def takeRound (t : Timeline) (second : Nat) (names : List String) : Timeline :=
  names.foldl (fun t name => t.runDue second name) t

/-- Takes the rounds in order, until the watch has stopped. -/
def takeRounds (t : Timeline) (second : Nat) (rounds : List (List String)) : Timeline :=
  rounds.foldl (fun t names => if t.stopped then t else t.takeRound second names) t

/-- The names whose turn is due, the turn set last first. -/
def dueAt (t : Timeline) (second : Nat) : List String :=
  (t.due.filter (·.2 ≤ second)).map (·.1)

/-! ## Seconds -/

def apply (t : Timeline) (second : Nat) : WatchEvent → Timeline
  | .reported name generation => t.report second name generation
  | .deleted name => { t with reported := t.reported.erase name }
  | .happened step => { t with world := (t.world.step step).2 }
  | .shutdown => { t with stopped := true }

/-- One second: the turns that are due and then the events of that second. -/
def tick (events : List (Nat × WatchEvent)) (t : Timeline) (second : Nat) : Timeline :=
  let t := t.takeRounds second (roundsOf (t.dueAt second))
  (events.filter (·.1 == second)).foldl (fun t e => t.apply second e.2) t

/-- The seconds from 0 up to and with `last`. -/
def run (t : Timeline) (events : List (Nat × WatchEvent)) (last : Nat) : Timeline :=
  (List.range (last + 1)).foldl (tick events) t

/-- A watch of a world in which the records listed exist from the start. -/
def start (world : World) (resync : Span) (origin : Timestamp)
    (existing : List (String × Option Int64)) : Timeline :=
  existing.foldl (fun t e => t.report 0 e.1 e.2)
    { watcher := { resync }, world, origin }

/-- What was seen of the turns, by second and in a second by name. -/
def log (t : Timeline) : List WatchNote :=
  t.notes.mergeSort fun a b =>
    a.second < b.second || a.second == b.second && decide (a.name ≤ b.name)

end Timeline

end MetalPool
