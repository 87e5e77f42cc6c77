/-
The TLS settings of a control socket and how they are read from a JSON document.

The trust anchor, the certificate and the key are given together or not at all: `TlsSettings.paths` refuses anything
else. A peer certificate is required unless the document says otherwise.
-/
import SecureEndpoint.Json.Record
import SecureEndpoint.Tls.Error

namespace SecureEndpoint.Tls

/-- the TLS settings of a control socket or a peer -/
structure TlsSettings where
  /-- a file or a directory of certificates -/
  trustAnchor : Option String := none
  certFile : Option String := none
  keyFile : Option String := none
  certRequired : Bool := true
  deriving DecidableEq, Repr

namespace TlsSettings

/-- the fields of a settings document -/
def shape : Json.Shape where
  title := "TlsSettings"
  fields := [
    ⟨"trust-anchor", .text "path string", some .null⟩,
    ⟨"cert-file", .text "path string", some .null⟩,
    ⟨"key-file", .text "path string", some .null⟩,
    ⟨"cert-required", .flag, some (.flag true)⟩]

/-- a text field as an optional path -/
def path? : Json.Scalar → Option String
  | .text s => some s
  | _ => none

/-- the settings that the values of the fields stand for -/
def ofScalars? : List Json.Scalar → Option TlsSettings
  | [ca, cert, key, .flag required] => some ⟨path? ca, path? cert, path? key, required⟩
  | _ => none

/-- reads settings from a JSON document -/
def ofJson (text : String) : Except TlsError TlsSettings :=
  match shape.parse text with
  | .error t => .error (.badValue ("bad TLS settings: " ++ t))
  | .ok vs => (ofScalars? vs).elim (.error (.badValue "bad TLS settings: ")) .ok

/-- some TLS parameter was given -/
def isEnabled (s : TlsSettings) : Bool := s.trustAnchor.isSome || s.certFile.isSome || s.keyFile.isSome

/-- the names of the paths that are not given -/
def missing (s : TlsSettings) : List String :=
  [("trust-anchor", s.trustAnchor), ("cert-file", s.certFile), ("key-file", s.keyFile)].filterMap fun p =>
    if p.2.isNone then some p.1 else none

/-- the three paths, all of which must be given -/
def paths (s : TlsSettings) : Except TlsError (String × String × String) :=
  match s.trustAnchor, s.certFile, s.keyFile with
  | some ca, some cert, some key => .ok (ca, cert, key)
  | _, _, _ => .error (.badValue ("missing TLS parameters: " ++ Text.joinWith ", " s.missing))

end TlsSettings

end SecureEndpoint.Tls
