/-!
# Request targets

What a request asks for: a path, with a query after the first `?` in front of
any `#`. What follows the first `#` is no part of a target and is dropped
unread. A target can be written after a scheme and a host, `scheme://host/path`.
-/

namespace MetalPool

structure Target where
  path : String
  query : Option String := none
deriving DecidableEq, Repr

namespace Target

/-- Divides characters at the first `?`, and drops those from the first `#` on. -/
def ofChars (cs : List Char) : Target :=
  let cs := cs.takeWhile (· != '#')
  { path := .ofList (cs.takeWhile (· != '?'))
    query :=
      match cs.dropWhile (· != '?') with
      | [] => none
      | _ :: query => some (.ofList query) }

/-- What follows the host in `scheme://host/path`, and nothing in any other text. -/
def afterHost (cs : List Char) : List Char :=
  match cs.dropWhile (· != ':') with
  | ':' :: '/' :: '/' :: rest => rest.dropWhile fun c => c != '/' && c != '?' && c != '#'
  | _ => []

/-- A target that starts with its path, or with a scheme and a host. -/
def ofText (text : String) : Target :=
  match text.toList with
  | '/' :: cs => ofChars ('/' :: cs)
  | cs => ofChars (afterHost cs)

/-- Neither a space nor an ASCII control character. -/
def isVisible (c : Char) : Bool := 0x20 < c.toNat && c.toNat != 0x7F

/-- The character can stand in a path. -/
def isPathChar (c : Char) : Bool := isVisible c && c != '<' && c != '>' && c != '\x60'

/-- The character can stand in a query. -/
def isQueryChar (c : Char) : Bool := isVisible c && c != '<' && c != '>' && c != '"'

/-- No character of the target has to be written in another way. -/
def isPlain (t : Target) : Bool :=
  t.path.toList.all isPathChar && t.query.all (·.toList.all isQueryChar)

example : ofText "/a?b?c#d" = ⟨"/a", some "b?c"⟩ := by decide +kernel
example : ofText "http://h:80/a#b?c" = ⟨"/a", none⟩ := by decide +kernel
example : ofText "h:80" = ⟨"", none⟩ := by decide +kernel

end Target

end MetalPool
