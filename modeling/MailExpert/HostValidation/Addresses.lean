import MailExpert.Lib.Numbers
import MailExpert.Lib.Texts

/-!
# Private addresses

`ipv4ToLong`, `inCidr`, `isPrivateIPv4`, `ipv6Groups`, `ipv4FromGroups` and `isPrivateIPv6` of `services/hostValidation.js`. Texts are lists of
characters; `none` stands for a call that throws. `IPv4` and `IPv6Text` are the texts that `net.isIPv4` and `net.isIPv6` accept.
-/

namespace MailExpert.HostValidation

open Numbers Texts

structure IPv4 where
  a : Fin 256
  b : Fin 256
  c : Fin 256
  d : Fin 256
deriving DecidableEq

def IPv4.octets (ip : IPv4) : List Nat := [ip.a, ip.b, ip.c, ip.d]

def IPv4.value (ip : IPv4) : Nat := ((ip.a * 256 + ip.b) * 256 + ip.c) * 256 + ip.d

/-- The only text of the address: four decimal numbers without leading zeros. -/
def IPv4.text (ip : IPv4) : List Char := ['.'].intercalate (ip.octets.map (Nat.toDigits 10))

/-- The halves of the address. -/
def IPv4.groups (ip : IPv4) : List Nat := [ip.a * 256 + ip.b, ip.c * 256 + ip.d]

structure Cidr where
  base : IPv4
  bits : Nat

def Cidr.contains (block : Cidr) (ip : IPv4) : Bool := ip.value / 2 ^ (32 - block.bits) = block.base.value / 2 ^ (32 - block.bits)

structure Address where
  groups : List Nat
  eight : groups.length = 8
  bits : ∀ g ∈ groups, g < 65536
deriving DecidableEq

def Address.value (address : Address) : Nat := address.groups.foldl (fun n g => n * 65536 + g) 0

structure Subnet where
  network : Address
  bits : Nat

/-- The leading bits agree. -/
def Subnet.contains (subnet : Subnet) (address : Address) : Bool :=
  address.value / 2 ^ (128 - subnet.bits) = subnet.network.value / 2 ^ (128 - subnet.bits)

/-- One to four hexadecimal digits. -/
structure Group where
  digits : List Char
  hex : ∀ c ∈ digits, isHexDigit c = true
  nonempty : digits ≠ []
  short : digits.length ≤ 4

def Group.value (group : Group) : Nat := ofDigits 16 group.digits

/-- The number of groups that a dotted end stands for. -/
def dottedGroups (dotted : Option IPv4) : List Nat := dotted.elim [] IPv4.groups

/-- What `net.isIPv6` accepts. -/
structure IPv6Text where
  head : List Group
  /-- The groups after `::`. -/
  tail : Option (List Group)
  dotted : Option IPv4
  zone : Option (List Char)
  count : match tail with
    | none => head.length + (dottedGroups dotted).length = 8
    | some tail => head.length + (tail.length + (dottedGroups dotted).length) ≤ 7
  zoned : ∀ z, zone = some z → z ≠ [] ∧ ∀ c ∈ z, c.isAlphanum ∨ c = '-' ∨ c = '.' ∨ c = ':'

/-- Parts before and after `::`. -/
def joined (head : List (List Char)) : Option (List (List Char)) → List Char
  | none => [':'].intercalate head
  | some tail => [':'].intercalate head ++ ':' :: ':' :: [':'].intercalate tail

/-- The parts before and after `::`, the dotted end as `last` writes it. -/
def IPv6Text.parts (t : IPv6Text) (last : IPv4 → List (List Char)) : List (List Char) × Option (List (List Char)) :=
  match t.tail with
  | none => (t.head.map Group.digits ++ t.dotted.elim [] last, none)
  | some tail => (t.head.map Group.digits, some (tail.map Group.digits ++ t.dotted.elim [] last))

def IPv6Text.body (t : IPv6Text) : List Char :=
  let parts := t.parts fun ip => [ip.text]
  joined parts.1 parts.2

def IPv6Text.text (t : IPv6Text) : List Char := t.body ++ t.zone.elim [] ('%' :: ·)

def IPv6Text.groups (t : IPv6Text) : List Nat :=
  match t.tail with
  | none => t.head.map Group.value ++ dottedGroups t.dotted
  | some tail =>
    let left := t.head.map Group.value
    let right := tail.map Group.value ++ dottedGroups t.dotted
    left ++ List.replicate (8 - left.length - right.length) 0 ++ right

/-- Element `i`, or `NaN` as what an absent one converts to. -/
def part (parts : List Number) (i : Nat) : Number := (parts[i]?).join

def ipv4ToLong (ip : List Char) : Number :=
  let parts := (ip.splitOn '.').map number
  unsigned (or (or (or (shl (part parts 0) 24) (shl (part parts 1) 16)) (shl (part parts 2) 8)) (part parts 3))

def inCidr (ip base : List Char) (bits : Nat) : Bool :=
  let mask := if bits = 0 then some 0 else unsigned (shl (not (some 0)) (32 - bits))
  and (ipv4ToLong ip) mask = and (ipv4ToLong base) mask

def isPrivateIPv4 (ip : List Char) : Bool :=
  inCidr ip "0.0.0.0".toList 8 ||
  inCidr ip "10.0.0.0".toList 8 ||
  inCidr ip "100.64.0.0".toList 10 ||
  inCidr ip "127.0.0.0".toList 8 ||
  inCidr ip "169.254.0.0".toList 16 ||
  inCidr ip "172.16.0.0".toList 12 ||
  inCidr ip "192.0.0.0".toList 24 ||
  inCidr ip "192.168.0.0".toList 16 ||
  inCidr ip "198.18.0.0".toList 15 ||
  inCidr ip "240.0.0.0".toList 4 ||
  ip = "255.255.255.255".toList

/-- `text ? text.split(':') : []` -/
def splitColon (text : List Char) : List (List Char) := if text = [] then [] else text.splitOn ':'

/-- `ipv6Groups` up to the cut at the zone. -/
def lowered (ip : List Char) : List Char := (ip.map Char.toLower).takeWhile (· ≠ '%')

/-- A dotted end, after the last colon, is written as two groups. -/
def undot (text : List Char) : List Char :=
  if '.' ∈ text then
    let v4 := ((text.rtakeWhile (· ≠ ':')).splitOn '.').map number
    text.rdropWhile (· ≠ ':') ++ toText 16 (or (shl (part v4 0) 8) (part v4 1)) ++
      ':' :: toText 16 (or (shl (part v4 2) 8) (part v4 3))
  else text

/-- The texts of the groups; `Array` throws for a negative length. -/
def splitGroups (text : List Char) : Option (List (List Char)) :=
  let parts := splitPair ':' text
  let head := parts.headD []
  let tail := parts[1]?
  let left := splitColon head
  let right := tail.elim [] splitColon
  if tail = none then some left
  else if left.length + right.length ≤ 8 then some (left ++ List.replicate (8 - left.length - right.length) ['0'] ++ right)
  else none

def ipv6Groups (ip : List Char) : Option (List Number) :=
  (splitGroups (undot (lowered ip))).map (·.map fun g => parseHex (if g = [] then ['0'] else g))

def ipv4FromGroups (hi lo : Number) : List Char :=
  ['.'].intercalate [toText 10 (shr hi 8), toText 10 (and hi (some 0xff)), toText 10 (shr lo 8), toText 10 (and lo (some 0xff))]

def PRIVATE_IPV6 : List Subnet := [
  ⟨⟨[0, 0, 0, 0, 0, 0, 0, 0], rfl, by decide⟩, 96⟩,
  ⟨⟨[0, 0, 0, 0, 0xffff, 0, 0, 0], rfl, by decide⟩, 96⟩,
  ⟨⟨[0x64, 0xff9b, 1, 0, 0, 0, 0, 0], rfl, by decide⟩, 48⟩,
  ⟨⟨[0x100, 0, 0, 0, 0, 0, 0, 0], rfl, by decide⟩, 64⟩,
  ⟨⟨[0x2001, 0, 0, 0, 0, 0, 0, 0], rfl, by decide⟩, 32⟩,
  ⟨⟨[0xfc00, 0, 0, 0, 0, 0, 0, 0], rfl, by decide⟩, 7⟩,
  ⟨⟨[0xfe80, 0, 0, 0, 0, 0, 0, 0], rfl, by decide⟩, 10⟩,
  ⟨⟨[0xfec0, 0, 0, 0, 0, 0, 0, 0], rfl, by decide⟩, 10⟩,
  ⟨⟨[0xff00, 0, 0, 0, 0, 0, 0, 0], rfl, by decide⟩, 8⟩]

/-- The address of a text with all eight groups, as `BlockList` reads it. -/
def address? (text : List Char) : Option Address :=
  let parts := text.splitOn ':'
  let groups := parts.map (ofDigits 16)
  if h : (∀ part ∈ parts, part ≠ [] ∧ part.length ≤ 4 ∧ ∀ c ∈ part, isHexDigit c = true) ∧ groups.length = 8 ∧ ∀ g ∈ groups, g < 65536 then
    some ⟨groups, h.2.1, h.2.2⟩
  else none

/-- `BlockList.check` of a list of subnets: whether one contains the address. -/
def check (subnets : List Subnet) (text : List Char) : Option Bool := (address? text).map fun address => subnets.any (·.contains address)

def isPrivateIPv6 (ip : List Char) : Option Bool := do
  let g ← ipv6Groups ip
  if (g.take 5).all (· = some 0) ∧ part g 5 = some 0xffff then return isPrivateIPv4 (ipv4FromGroups (part g 6) (part g 7))
  if part g 0 = some 0x64 ∧ part g 1 = some 0xff9b ∧ ((g.drop 2).take 4).all (· = some 0) then
    return isPrivateIPv4 (ipv4FromGroups (part g 6) (part g 7))
  if part g 0 = some 0x2002 ∧ isPrivateIPv4 (ipv4FromGroups (part g 1) (part g 2)) then return true
  check PRIVATE_IPV6 ([':'].intercalate (g.map (toText 16)))

end MailExpert.HostValidation
