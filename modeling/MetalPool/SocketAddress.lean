import MetalPool.Text.Bytes
import MetalPool.Text.Decimal
/-!
# Internet addresses

IPv4 and IPv6 addresses, alone and with a port, as text. The readers take the
strict forms only: four decimal numbers without leading zeros, or eight groups
of up to four hexadecimal digits with at most one run of zeros left out and the
last two groups written as an IPv4 address if at all.
-/

namespace MetalPool

structure Ipv4 where
  a : UInt8
  b : UInt8
  c : UInt8
  d : UInt8
deriving DecidableEq, Repr

structure Ipv6 where
  groups : List UInt16
  length_groups : groups.length = 8
deriving DecidableEq, Repr

inductive IpAddress where
  | v4 (ip : Ipv4)
  | v6 (ip : Ipv6)
deriving DecidableEq, Repr

inductive SocketAddress where
  | v4 (ip : Ipv4) (port : UInt16)
  | v6 (ip : Ipv6) (scope : UInt32) (port : UInt16)
deriving DecidableEq, Repr

/-! ## Reading -/

namespace IpAddress

/-- The digits at the head of the text as a number of some base, at most `limit`. -/
def readNumber? (digit? : Char → Option Nat) (base limit : Nat) (cs : List Char) :
    Option (Nat × List Char) :=
  let digits := cs.takeWhile fun c => (digit? c).isSome
  let n := digits.foldl (fun n c => n * base + (digit? c).getD 0) 0
  if digits ≠ [] ∧ n ≤ limit then some (n, cs.drop digits.length) else none

def mark? (c : Char) : List Char → Option (List Char)
  | c' :: rest => if c' = c then some rest else none
  | [] => none

/-- A number up to 255 of at most three digits, without leading zeros. -/
def readOctet? (cs : List Char) : Option (UInt8 × List Char) := do
  let (n, rest) ← readNumber? Text.digit? 10 255 cs
  let width := cs.length - rest.length
  if width ≤ 3 ∧ (width = 1 ∨ cs.head? ≠ some '0') then some (UInt8.ofNat n, rest) else none

def readIpv4? (cs : List Char) : Option (Ipv4 × List Char) := do
  let (a, cs) ← readOctet? cs
  let (b, cs) ← readOctet? (← mark? '.' cs)
  let (c, cs) ← readOctet? (← mark? '.' cs)
  let (d, cs) ← readOctet? (← mark? '.' cs)
  return (⟨a, b, c, d⟩, cs)

/-- A group of one to four hexadecimal digits. -/
def readGroup? (cs : List Char) : Option (UInt16 × List Char) := do
  let (n, rest) ← readNumber? Bytes.hexDigit? 16 65535 cs
  if cs.length - rest.length ≤ 4 then some (UInt16.ofNat n, rest) else none

/-- The two groups that an IPv4 address stands for. -/
def groupsOf (ip : Ipv4) : List UInt16 :=
  [UInt16.ofNat (ip.a.toNat * 256 + ip.b.toNat), UInt16.ofNat (ip.c.toNat * 256 + ip.d.toNat)]

/-- Up to `left` groups with colons between them, whether an IPv4 address ended
them, and the text after them. A colon comes before each group but the `first`. -/
def readGroups : (left : Nat) → (first : Bool) → List Char → List UInt16 × Bool × List Char
  | 0, _, cs => ([], false, cs)
  | left + 1, first, cs =>
    match if first then some cs else mark? ':' cs with
    | none => ([], false, cs)
    | some inner =>
      match if 1 ≤ left then readIpv4? inner else none with
      | some (ip, rest) => (groupsOf ip, true, rest)
      | none =>
        match readGroup? inner with
        | none => ([], false, cs)
        | some (g, rest) =>
          let (gs, ended, rest) := readGroups left false rest
          (g :: gs, ended, rest)

def ofGroups? (groups : List UInt16) : Option Ipv6 :=
  if h : groups.length = 8 then some ⟨groups, h⟩ else none

/-- Eight groups, or fewer around a double colon that stands for one or more
groups of zeros. -/
def readIpv6? (cs : List Char) : Option (Ipv6 × List Char) :=
  let (front, ended, rest) := readGroups 8 true cs
  if front.length = 8 then (ofGroups? front).map (·, rest)
  else if ended then none
  else do
    let rest ← mark? ':' rest
    let rest ← mark? ':' rest
    let (back, _, rest) := readGroups (7 - front.length) true rest
    let zeros := List.replicate (8 - front.length - back.length) 0
    let ip ← ofGroups? (front ++ zeros ++ back)
    return (ip, rest)

/-- The address that a text writes. -/
def parse? (s : String) : Option IpAddress :=
  match readIpv4? s.toList with
  | some (ip, []) => some (.v4 ip)
  | _ =>
    match readIpv6? s.toList with
    | some (ip, []) => some (.v6 ip)
    | _ => none

end IpAddress

namespace SocketAddress

open IpAddress

def readPort? (cs : List Char) : Option (UInt16 × List Char) := do
  let (n, rest) ← readNumber? Text.digit? 10 65535 (← mark? ':' cs)
  return (UInt16.ofNat n, rest)

/-- A number after a percent sign, zero if there is none. -/
def readScope (cs : List Char) : Nat × List Char :=
  match (mark? '%' cs).bind (readNumber? Text.digit? 10 4294967295) with
  | some (n, rest) => (n, rest)
  | none => (0, cs)

def readV4? (cs : List Char) : Option (SocketAddress × List Char) := do
  let (ip, cs) ← readIpv4? cs
  let (port, cs) ← readPort? cs
  return (.v4 ip port, cs)

def readV6? (cs : List Char) : Option (SocketAddress × List Char) := do
  let (ip, cs) ← readIpv6? (← mark? '[' cs)
  let (scope, cs) := readScope cs
  let (port, cs) ← readPort? (← mark? ']' cs)
  return (.v6 ip (UInt32.ofNat scope) port, cs)

/-- The address that a text writes: an IPv4 address and a port, or an IPv6
address in brackets and a port. -/
def parse? (s : String) : Option SocketAddress :=
  match readV4? s.toList with
  | some (a, []) => some a
  | _ =>
    match readV6? s.toList with
    | some (a, []) => some a
    | _ => none

def syntaxMessage : String := "invalid socket address syntax"

end SocketAddress

/-! ## Writing -/

def Ipv4.text (ip : Ipv4) : String :=
  ".".intercalate ([ip.a, ip.b, ip.c, ip.d].map fun n => n.toNat.repr)

namespace Ipv6

def groupText (g : UInt16) : String := .ofList (Nat.toDigits 16 g.toNat)

def groupsText (gs : List UInt16) : String := ":".intercalate (gs.map groupText)

/-- How many zeros the groups start with. -/
def leadingZeros (gs : List UInt16) : Nat := (gs.takeWhile (· == 0)).length

/-- Start and length of the first of the longest runs of zeros. -/
def longestZeros : List UInt16 → Nat × Nat
  | [] => (0, 0)
  | g :: gs =>
    let (start, length) := longestZeros gs
    let here := leadingZeros (g :: gs)
    if length ≤ here then (0, here) else (start + 1, length)

/-- The groups in hexadecimal with the longest run of two or more zeros left
out; an IPv4 address in the form of IPv6 ends as an IPv4 address. -/
def text (ip : Ipv6) : String :=
  match ip.groups with
  | [0, 0, 0, 0, 0, 0xFFFF, g, h] =>
    "::ffff:" ++ (Ipv4.mk (UInt8.ofNat (g.toNat / 256)) (UInt8.ofNat (g.toNat % 256))
      (UInt8.ofNat (h.toNat / 256)) (UInt8.ofNat (h.toNat % 256))).text
  | gs =>
    let (start, length) := longestZeros gs
    if 2 ≤ length then groupsText (gs.take start) ++ "::" ++ groupsText (gs.drop (start + length))
    else groupsText gs

end Ipv6

def SocketAddress.text : SocketAddress → String
  | .v4 ip port => ip.text ++ ":" ++ port.toNat.repr
  | .v6 ip scope port =>
    "[" ++ ip.text ++ (if scope = 0 then "" else "%" ++ scope.toNat.repr) ++ "]:" ++ port.toNat.repr

end MetalPool
