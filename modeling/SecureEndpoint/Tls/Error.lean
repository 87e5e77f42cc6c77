/-
What can go wrong with TLS material, contexts and handshakes.

`TlsError` lists the causes and `TlsError.message` their wording; `TlsError.kind` sorts them into five categories.
`TransportError` is what the listening and the dialling side report: an error of the network or an error of TLS.
-/
import SecureEndpoint.Host.Files

namespace SecureEndpoint.Tls

/-- which end of a connection a context serves -/
inductive Role where
  | client
  | server
  deriving DecidableEq, Repr

/-- the printed name of a role -/
def Role.name : Role → String
  | .client => "client"
  | .server => "server"

/-- reads a role by its printed name -/
def Role.ofName? (s : String) : Option Role :=
  [Role.client, .server].find? fun r => r.name == s

/-- what went wrong -/
inductive TlsError where
  /-- a file could not be read; the path as it is shown -/
  | unreadable (path : String) (cause : Host.AccessError)
  /-- a file holds no usable material -/
  | invalidContent (detail : String)
  /-- the native builder refused; the text is its own -/
  | native (detail : String)
  /-- the credential library refused; the text is its own -/
  | credentials (detail : String)
  /-- the backend lacks the feature -/
  | notImplemented (detail : String)
  /-- a setting has a value that the role does not allow -/
  | badValue (detail : String)
  /-- a context was used in a way that its role or material does not support -/
  | misuse (detail : String)
  /-- the peer could not be authenticated or the exchange failed -/
  | handshakeFailed (detail : String)
  deriving DecidableEq, Repr

/-- the category of an error -/
inductive ErrorKind where
  /-- a bad file or bad content -/
  | config
  | notImplemented
  | badValue
  | programming
  | handshake
  deriving DecidableEq, Repr

/-- the printed name of a category -/
def ErrorKind.name : ErrorKind → String
  | .config => "Config"
  | .notImplemented => "NotImplemented"
  | .badValue => "BadValue"
  | .programming => "Programming"
  | .handshake => "Handshake"

namespace TlsError

/-- the category of an error -/
def kind : TlsError → ErrorKind
  | .unreadable .. | .invalidContent _ | .native _ | .credentials _ => .config
  | .notImplemented _ => .notImplemented
  | .badValue _ => .badValue
  | .misuse _ => .programming
  | .handshakeFailed _ => .handshake

/-- the wording of an error -/
def message : TlsError → String
  | .unreadable path cause => "unable to read '" ++ path ++ "': " ++ cause.message
  | .invalidContent t => "invalid TLS material: " ++ t
  | .native t => "OpenSSL error: " ++ t
  | .credentials t => "rustls error: " ++ t
  | .notImplemented t => "not implemented: " ++ t
  | .badValue t => "bad value: " ++ t
  | .misuse t => "invalid use of TLS context: " ++ t
  | .handshakeFailed t => "handshake failed: " ++ t

/-- the text of the error underneath, where there is one -/
def source? : TlsError → Option String
  | .unreadable _ cause => some cause.message
  | .native t => some t
  | .credentials t => some t
  | _ => none

/-- a failure of the credential library that has no name of its own -/
def unexpected (detail : String) : TlsError := .credentials ("unexpected error: " ++ detail)

end TlsError

/-- what the listening and the dialling side report -/
inductive TransportError where
  | network (e : Host.OsError)
  | tls (e : TlsError)
  deriving DecidableEq, Repr

namespace TransportError

/-- an error of TLS is shown as it is -/
def message : TransportError → String
  | .network e => "I/O error: " ++ e.message
  | .tls e => e.message

/-- the category, where the error is one of TLS -/
def tlsKind? : TransportError → Option ErrorKind
  | .network _ => none
  | .tls e => some e.kind

end TransportError

end SecureEndpoint.Tls
