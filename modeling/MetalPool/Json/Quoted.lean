import MetalPool.Json.Reader
/-!
# Values given as their text

An object can hold the JSON text of a value and stand for that value: its one
member is a string under a name kept for this. `resolve` puts the values in the
place of such objects, also where one value's text holds the text of another.
-/

namespace MetalPool.Json

/-- The name under which an object holds the text of the value it stands for. -/
def quotedName : String := "$serde_json::private::RawValue"

mutual

/-- The value with what `read` makes of the text in the place of each object that
holds one. The first name in an object decides what the object is: after
`quotedName` anything but one string stands for nothing. -/
def resolveWith (read : String → Json) : Json → Json
  | .arr items => .arr (resolveItems read items)
  | .obj members =>
    if members.head?.any (·.1 == quotedName) then
      match members with
      | [(_, .str text)] => read text
      | _ => .garbled
    else .obj (resolveMembers read members)
  | j => j

def resolveItems (read : String → Json) : List Json → List Json
  | [] => []
  | j :: rest => resolveWith read j :: resolveItems read rest

def resolveMembers (read : String → Json) : List (String × Json) → List (String × Json)
  | [] => []
  | (name, j) :: rest => (name, resolveWith read j) :: resolveMembers read rest

end

/-- The value of a text, resolved. Each text that is read on the way costs one unit of
fuel, and walking through a value costs none. -/
def resolveText : Nat → String → Json
  | 0, _ => .garbled
  | fuel + 1, text => (parse? text).elim .garbled (resolveWith (resolveText fuel))

/-- The value with those it holds as text in their places. A text is longer than the
texts in it, so its length is enough fuel. -/
def resolve : Json → Json := resolveWith fun text => resolveText text.length text

example : (resolve (.obj [(quotedName, .str "[1]")]) matches .arr [.int 1]) = true := by
  decide +kernel
example : (resolve (.obj [(quotedName, .str "")]) matches .garbled) = true := by
  decide +kernel
example : (resolve (.obj [(quotedName, .int 1)]) matches .garbled) = true := by
  decide +kernel
example : (resolve (.obj [("a", .null), (quotedName, .int 1)]) matches .obj [_, _]) = true := by
  decide +kernel

end MetalPool.Json
