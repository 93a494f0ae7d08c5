import MetalPool.Json.Basic
/-!
# Values as YAML

Values in YAML's block style, one member or item a line, each level of members
set in by two blanks; the items of a member start below its name. Texts stand as
themselves, so this suits those that read as nothing else; an empty text is
quoted.
-/

namespace MetalPool.Json

/-- A value that has nothing in it, on one line. -/
def flat : Json → String
  | .bool true => "true"
  | .bool false => "false"
  | .int n => toString n
  | .decimal text => text
  | .str s => if s = "" then "''" else s
  | .arr _ => "[]"
  | .obj _ => "\x7b\x7d"
  | .null | .garbled => "null"

/-- Lines set in below the one before. -/
def setIn (lines : List String) : List String := lines.map ("  " ++ ·)

/-- The lines of an item, the first with its dash. -/
def dashed : List String → List String
  | [] => []
  | l :: rest => ("- " ++ l) :: setIn rest

mutual

def yamlLines : Json → List String
  | .obj (m :: rest) => yamlMembers (m :: rest)
  | .arr (j :: rest) => yamlItems (j :: rest)
  | j => [j.flat]

def yamlMembers : List (String × Json) → List String
  | [] => []
  | (name, j) :: rest =>
    (match j with
      | .obj (_ :: _) => (name ++ ":") :: setIn j.yamlLines
      | .arr (_ :: _) => (name ++ ":") :: j.yamlLines
      | _ => [name ++ ": " ++ j.flat]) ++ yamlMembers rest

def yamlItems : List Json → List String
  | [] => []
  | j :: rest => dashed j.yamlLines ++ yamlItems rest

end

/-- A document, each line ended. -/
def toYaml (j : Json) : String := String.join (j.yamlLines.map (· ++ "\n"))

end MetalPool.Json
