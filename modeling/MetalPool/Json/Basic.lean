/-!
# JSON values

Values as a reader meets them. An object is the list of its members in the
order written, so that a name written twice can be told from one written once.
An integer that fits 64 bits and is written without fraction or exponent is an
`int`; every other number is kept as its text.
-/

namespace MetalPool

inductive Json where
  | null
  | bool (value : Bool)
  | int (value : Int)
  | decimal (text : String)
  | str (value : String)
  | arr (items : List Json)
  | obj (members : List (String × Json))
  /-- A string whose escapes spell no text, an object where the name of a member
  spells none, a number that is too large, or an array or object that lies too deep.
  It can be passed over but stands for nothing. -/
  | garbled
deriving Repr, Inhabited

namespace Json

/-- The members of an object; any other value has none. -/
def members : Json → List (String × Json)
  | .obj ms => ms
  | _ => []

/-- The first member called `name`. -/
def get? (j : Json) (name : String) : Option Json := j.members.lookup name

mutual

/-- All of the value stands for something. -/
def isClear : Json → Bool
  | .garbled => false
  | .arr items => areItemsClear items
  | .obj members => areMembersClear members
  | _ => true

def areItemsClear : List Json → Bool
  | [] => true
  | j :: rest => j.isClear && areItemsClear rest

def areMembersClear : List (String × Json) → Bool
  | [] => true
  | (_, j) :: rest => j.isClear && areMembersClear rest

end

/-! ## Reading plain values -/

def asText? : Json → Option String
  | .str s => some s
  | _ => none

def isText (j : Json) : Bool := j.asText?.isSome

def isBool : Json → Bool
  | .bool _ => true
  | _ => false

/-- An integer between `low` and `high`. -/
def asInt? (low high : Int) : Json → Option Int
  | .int n => if low ≤ n ∧ n ≤ high then some n else none
  | _ => none

def asUInt16? (j : Json) : Option UInt16 := (j.asInt? 0 65535).map fun n => UInt16.ofNat n.toNat

def asUInt32? (j : Json) : Option UInt32 :=
  (j.asInt? 0 4294967295).map fun n => UInt32.ofNat n.toNat

def asInt64? (j : Json) : Option Int64 :=
  (j.asInt? (-9223372036854775808) 9223372036854775807).map Int64.ofInt

def isInt64 (j : Json) : Bool := j.asInt64?.isSome

/-- One of the named choices: its name, or an object with that name alone and
nothing in it. -/
def asChoice? {α : Type} (choices : List (String × α)) : Json → Option α
  | .str s => choices.lookup s
  | .obj [(s, .null)] => choices.lookup s
  | _ => none

/-! ## Reading records

A record is read from an object, where each of its fields may stand once and
other members are passed over, or from an array of its fields in order. -/

/-- The fields of a record in the order of `names`, none for one that is not there. -/
def fields? (names : List String) : Json → Option (List (Option Json))
  | .obj ms =>
    if names.all fun name => ms.countP (·.1 == name) ≤ 1 then some (names.map (List.lookup · ms))
    else none
  | .arr items =>
    if items.length ≤ names.length then some (names.mapIdx fun i _ => items[i]?) else none
  | _ => none

/-- A field that may be missing or null. -/
def optional {α : Type} (read : Json → Option α) : Option Json → Option (Option α)
  | none | some .null => some none
  | some j => (read j).map some

/-- A field that stands for `default` where it is missing. -/
def withDefault {α : Type} (default : α) (read : Json → Option α) : Option Json → Option α
  | none => some default
  | some j => read j

/-- An object in which every member that `checks` names is null or passes its check. -/
def isObjectOf (checks : List (String × (Json → Bool))) : Json → Bool
  | .obj ms =>
    ms.all fun m => (m.2 matches .null) || checks.all fun check => check.1 != m.1 || check.2 m.2
  | _ => false

/-- An array of which every item passes. -/
def isArrayOf (check : Json → Bool) : Json → Bool
  | .arr items => items.all check
  | _ => false

/-- A member for a value that is there, and none for one that is not. -/
def member? {α : Type} (name : String) (write : α → Json) : Option α → List (String × Json)
  | none => []
  | some a => [(name, write a)]

end Json

end MetalPool
