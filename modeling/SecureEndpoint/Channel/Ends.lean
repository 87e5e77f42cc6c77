/-
The two ends of a channel: listening for connections, and dialling.

Listening needs a server's context and dialling a client's. An error is one of the network or one of TLS.
-/
import SecureEndpoint.Host.Network
import SecureEndpoint.Tls.Error

namespace SecureEndpoint.Channel

open Host Tls

/-- an end needs the context of a role -/
def needRole (who : String) (needed role : Role) : Except TransportError Unit :=
  if role = needed then .ok ()
  else .error (.tls (.misuse
    (who ++ " requires a " ++ needed.name ++ " context, got a " ++ role.name ++ " context")))

/-- the end that listens, with the address that it took -/
structure Listening where
  address : Address
  deriving DecidableEq, Repr

/-- listens at an address -/
def Listening.start (n : Network) (role : Role) (a : Address) : Except TransportError Listening := do
  let address ← (n.listen a).mapError .network
  needRole "acceptor" .server role
  return { address }

/-- the end that dials needs the context of a client -/
def dialling (role : Role) : Except TransportError Unit := needRole "connector" .client role

/-- reaches the end that listens at an address -/
def reach (n : Network) (a : Address) : Except TransportError Unit := (n.dial a).mapError .network

end SecureEndpoint.Channel
