import MetalPool.Text.Bytes
/-!
# Hardware addresses

The six bytes of a network card's address, as text and in the packet that wakes
the card. Readers take twelve hexadecimal digits in either case, with separators
wherever they stand; the three usual ways to write an address are read back.
-/

namespace MetalPool

structure MacAddress where
  bytes : Bytes
  length_bytes : bytes.length = 6
deriving DecidableEq, Repr

namespace MacAddress

/-- A character that only groups digits. -/
def isSeparator (c : Char) : Bool := c == ':' || c == '-' || c == '.'

def ofBytes? (bs : Bytes) : Option MacAddress :=
  if h : bs.length = 6 then some ⟨bs, h⟩ else none

/-- The address of twelve hexadecimal digits, separators left out. -/
def parse? (s : String) : Option MacAddress :=
  (Bytes.ofHexDigits? (s.toList.filter (!isSeparator ·))).bind ofBytes?

/-- The usual ways to write an address. -/
inductive Style where
  /-- As in `aa:bb:cc:dd:ee:ff`. -/
  | colons
  /-- As in `aa-bb-cc-dd-ee-ff`. -/
  | hyphens
  /-- As in `aabb.ccdd.eeff`. -/
  | dots
deriving DecidableEq, Repr

/-- The digits of two bytes at a time. -/
def pairs : Bytes → List (List Char)
  | a :: b :: rest => (Bytes.hexPair a ++ Bytes.hexPair b) :: pairs rest
  | [a] => [Bytes.hexPair a]
  | [] => []

def text (m : MacAddress) : Style → String
  | .colons => .ofList ([':'].intercalate (m.bytes.map Bytes.hexPair))
  | .hyphens => .ofList (['-'].intercalate (m.bytes.map Bytes.hexPair))
  | .dots => .ofList (['.'].intercalate (pairs m.bytes))

/-- What a card in standby waits for: six bytes `FF` and its address sixteen times. -/
def magicPacket (m : MacAddress) : Bytes :=
  List.replicate 6 0xFF ++ (List.replicate 16 m.bytes).flatten

theorem length_magicPacket (m : MacAddress) : m.magicPacket.length = 102 := by
  simp [magicPacket, m.length_bytes]

example : (parse? "AA-bb.cC:ddee-ff").map (·.text .dots) = some "aabb.ccdd.eeff" := by decide
example : parse? "aa:bb:cc:dd:ee:f" = none := by decide
example : parse? "aa:bb:cc:dd:ee:ff:00" = none := by decide
example : parse? "aa bb cc dd ee ff" = none := by decide

end MacAddress

end MetalPool
