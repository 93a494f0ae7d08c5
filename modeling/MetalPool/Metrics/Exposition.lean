import MetalPool.Metrics.Basic
/-!
# Counters as text

The text form of Prometheus: each family with a help and a type line, then a
line for each series, in the order of the label values. A family without series
is left out.
-/

namespace MetalPool.Metrics

/-- A character inside a label value. -/
def escapeLabel : Char → List Char
  | '\\' => ['\\', '\\']
  | '\n' => ['\\', 'n']
  | '"' => ['\\', '"']
  | c => [c]

structure Label where
  name : String
  value : String

def Label.text (l : Label) : String :=
  l.name ++ "=\"" ++ .ofList (l.value.toList.flatMap escapeLabel) ++ "\""

structure Series where
  labels : List Label
  count : Nat

structure Family where
  name : String
  help : String
  series : List Series

def Family.line (f : Family) (s : Series) : String :=
  f.name ++ "\x7b" ++ ",".intercalate (s.labels.map Label.text) ++ "\x7d " ++ s.count.repr ++ "\n"

def Family.text (f : Family) : String :=
  if f.series.isEmpty then ""
  else
    "# HELP " ++ f.name ++ " " ++ f.help ++ "\n# TYPE " ++ f.name ++ " counter\n" ++
      String.join (f.series.map f.line)

/-- The series of one kind of action: failures, then successes, each if there were any. -/
def actionSeries (kind : String) (tally : ActionTally) : List Series :=
  [("error", tally.errors), ("success", tally.successes)].filterMap fun (result, count) =>
    if count = 0 then none else some ⟨[⟨"kind", kind⟩, ⟨"result", result⟩], count⟩

/-- The families by name. -/
def families (m : Metrics) : List Family :=
  [{ name := "server_power_actions_total"
     help := "Power actions issued by kind and result"
     series := m.actions.entries.flatMap fun e => actionSeries e.1 e.2 },
   { name := "server_power_reconciliations_total"
     help := "Server reconciliations by result"
     series := m.reconciliations.entries.map fun e => ⟨[⟨"result", e.1⟩], e.2⟩ }]

def text (m : Metrics) : String := String.join (m.families.map Family.text)

end MetalPool.Metrics
