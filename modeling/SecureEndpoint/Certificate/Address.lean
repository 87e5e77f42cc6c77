/-
The text of an internet address.

Four bytes are an IPv4 address, sixteen bytes an IPv6 address, anything else is none. An IPv6 address that stands for an
IPv4 address ends in the text of that one. In any other the longest run of zero groups, the first one of several, is
left out if it has at least two groups.
-/
import SecureEndpoint.Text.Quoted

namespace SecureEndpoint.Certificate

/-- four bytes, separated by points -/
def ipv4Text (bytes : List UInt8) : String := Text.joinWith "." (bytes.map fun b => toString b.toNat)

/-- the groups of sixteen bits, the most significant byte first -/
def ipv6Groups : List UInt8 → List Nat
  | a :: b :: rest => (a.toNat * 256 + b.toNat) :: ipv6Groups rest
  | _ => []

/-- the number of zero groups at the front -/
def zeroRun (groups : List Nat) : Nat := (groups.takeWhile (· = 0)).length

/-- the start and the length of the longest run of zero groups, the first one of several -/
def longestZeroRun (groups : List Nat) : Nat × Nat :=
  (List.range groups.length).foldl (fun best i =>
    let n := zeroRun (groups.drop i)
    if best.2 < n then (i, n) else best) (0, 0)

/-- groups in hexadecimal digits, separated by colons -/
def groupsText (groups : List Nat) : String := Text.joinWith ":" (groups.map Text.hex)

/-- the text of sixteen bytes -/
def ipv6Text (bytes : List UInt8) : String :=
  let groups := ipv6Groups bytes
  if groups.take 6 = [0, 0, 0, 0, 0, 0xffff] then "::ffff:" ++ ipv4Text (bytes.drop 12)
  else
    let (start, n) := longestZeroRun groups
    if 1 < n then groupsText (groups.take start) ++ "::" ++ groupsText (groups.drop (start + n))
    else groupsText groups

/-- the entry of an address among the alternative names -/
def entryOfAddress? (bytes : List UInt8) : Option String :=
  if bytes.length = 4 then some ("IP:" ++ ipv4Text bytes)
  else if bytes.length = 16 then some ("IP:" ++ ipv6Text bytes)
  else none

end SecureEndpoint.Certificate
