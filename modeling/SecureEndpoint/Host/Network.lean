/-
The network as a host sees it: which addresses can be listened at, and which can be reached.

On an isolated host no interface is up. The addresses of the older kind can still be listened at, but nothing can be
reached, not even the host itself.
-/
import SecureEndpoint.Host.OsError

namespace SecureEndpoint.Host

/-- an address on the network, without its port -/
structure Address where
  ip : String
  /-- an address of sixteen bytes -/
  long : Bool
  deriving DecidableEq, Repr

/-- the address in a text with a port behind it; a long address stands in square brackets -/
def Address.ofText (s : String) : Address :=
  match s.toList with
  | '[' :: rest => { ip := String.ofList (rest.takeWhile (· ≠ ']')), long := true }
  | cs => { ip := String.ofList (cs.takeWhile (· ≠ ':')), long := false }

/-- a network -/
structure Network where
  /-- listening at an address gives the address that was taken -/
  listen : Address → Except OsError Address
  /-- reaching somebody at an address -/
  dial : Address → Except OsError Unit

/-- the network of an isolated host -/
def Network.isolated : Network where
  listen a := if a.long then .error .addressNotAvailable else .ok a
  dial _ := .error .networkUnreachable

end SecureEndpoint.Host
