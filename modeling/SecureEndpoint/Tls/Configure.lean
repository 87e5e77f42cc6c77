/-
A fully configured context in one go.

The trust anchor is loaded from a directory if its path leads to one and from a file otherwise; then the certificate, the
key and the requirement follow. The first failure ends it.
-/
import SecureEndpoint.Tls.Endpoint
import SecureEndpoint.Tls.Settings

namespace SecureEndpoint.Tls

open Host (Path Files)

/-- how the trust anchor at a path is loaded -/
def anchorCall (files : Files) (p : Path) : Call :=
  match files.isDirectory p with
  | .ok true => .anchorDirectory p
  | _ => .anchorFile p

/-- the calls that configure a context, in order -/
def configureCalls (files : Files) (anchor certificate key : Path) (required : Bool) : List Call :=
  [anchorCall files anchor, .certificateFile certificate, .keyFile key, .certRequired required]

/-- a configured context, with what was done -/
def configure (C : Type) [Endpoint C] (files : Files) (role : Role) (anchor certificate key : Path) (required : Bool) :
    List Event × Except TlsError C :=
  match (Endpoint.fresh role : Except TlsError C) with
  | .error e => ([], .error e)
  | .ok c =>
    match apply files c (configureCalls files anchor certificate key required) with
    | (events, .error e) => (events, .error e)
    | (events, .ok c) => (events ++ [.configured role anchor.shown required], .ok c)

/-- a context configured from settings, which have to give all three paths -/
def configureFrom (C : Type) [Endpoint C] (files : Files) (role : Role) (s : TlsSettings) :
    List Event × Except TlsError C :=
  match s.paths with
  | .error e => ([], .error e)
  | .ok (anchor, certificate, key) =>
    configure C files role (Path.ofText anchor) (Path.ofText certificate) (Path.ofText key) s.certRequired

end SecureEndpoint.Tls
