/-
What can be done with a TLS context, whatever stands behind it.

A context has a role for life and is fed with material and settings by calls. A call is an `Operation`: it goes on step by
step, reads files and changes the context, and may fail at any step. What was changed before it failed stays changed; that
nothing was, is for each kind of context to show. `attempt` makes a single call, `history` any number of them; `apply` makes
a list of calls and stops at the first that fails.
-/
import SecureEndpoint.Tls.Error
import SecureEndpoint.Tls.Signature

namespace SecureEndpoint.Tls

open Host (Path Files)

/-- a call on a context -/
inductive Call where
  /-- trust the certificates in a file -/
  | anchorFile (p : Path)
  /-- trust the certificates in a directory -/
  | anchorDirectory (p : Path)
  /-- present the certificates in a file, the own one first -/
  | certificateFile (p : Path)
  /-- use the private key in a file -/
  | keyFile (p : Path)
  /-- require a certificate of the peer, or not -/
  | certRequired (b : Bool)
  deriving DecidableEq, Repr

/-- something worth a line in the diagnostics -/
inductive Event where
  | anchorsLoaded (role : Role) (path : String) (count : Nat)
  | directoryLoaded (role : Role) (path : String)
  | certificateLoaded (role : Role) (path : String) (count : Nat)
  | keyLoaded (role : Role) (path : String) (family : Option KeyFamily)
  | configured (role : Role) (anchor : String) (required : Bool)
  deriving DecidableEq, Repr

/-- the family of a key in an event -/
def familyText : Option KeyFamily → String
  | some f => "Some(" ++ f.label ++ ")"
  | none => "None"

/-- the line of an event: its level, its message and its fields -/
def Event.text : Event → String
  | .anchorsLoaded r p n => "DEBUG loaded CA file role=" ++ r.name ++ " path=" ++ p ++ " count=" ++ toString n
  | .directoryLoaded r p => "DEBUG loaded CA path role=" ++ r.name ++ " path=" ++ p
  | .certificateLoaded r p n => "DEBUG loaded certificate role=" ++ r.name ++ " path=" ++ p ++ " chain=" ++ toString n
  | .keyLoaded r p f => "DEBUG loaded private key role=" ++ r.name ++ " path=" ++ p ++ " family=" ++ familyText f
  | .configured r p b =>
    "DEBUG TLS context configured role=" ++ r.name ++ " trust_anchor=" ++ p ++ " cert_required=" ++ toString b

/-- steps that read and change a context and end with a result or an error; the context is there in either case -/
abbrev Operation (C α : Type) := ExceptT TlsError (StateM C) α

namespace Operation

variable {C α β : Type}

/-- how an operation ends on a context, with the context behind it -/
def on (x : Operation C α) (c : C) : Except TlsError α × C := (x.run.run c).run

@[simp] theorem on_pure (a : α) (c : C) : (pure a : Operation C α).on c = (.ok a, c) := rfl

@[simp] theorem on_get (c : C) : (get : Operation C C).on c = (.ok c, c) := rfl

@[simp] theorem on_modify (f : C → C) (c : C) : (modify f : Operation C Unit).on c = (.ok (), f c) := rfl

@[simp] theorem on_lift (r : Except TlsError α) (c : C) : (liftM r : Operation C α).on c = (r, c) := rfl

/-- what follows a success goes on from there, and nothing follows a failure -/
theorem on_bind (x : Operation C α) (f : α → Operation C β) (c : C) :
    (x >>= f).on c = match x.on c with
      | (.ok a, d) => (f a).on d
      | (.error e, d) => (.error e, d) := by
  unfold on
  rw [ExceptT.run_bind, StateT.run_bind]
  rcases x.run.run c with ⟨_ | a, d⟩ <;> rfl

end Operation

/-- a kind of TLS context -/
class Endpoint (C : Type) where
  /-- a context without material, which requires a certificate of the peer -/
  fresh : Role → Except TlsError C
  role : C → Role
  /-- the last accepted setting -/
  certRequired : C → Bool
  /-- a call on the context, which tells what it did -/
  call : Files → Call → Operation C (List Event)

/-- a client always authenticates its server -/
def refuseUnverified (role : Role) (required : Bool) : Except TlsError Unit :=
  if role = .client ∧ required = false then .error (.badValue "'cert-required' must be true for a TLS client")
  else .ok ()

/-- the contents of a file -/
def readFile (files : Files) (p : Path) : Except TlsError (List UInt8) :=
  match files.read p with
  | .ok s => .ok s
  | .error e => .error (.unreadable p.shown e)

/-- what an error says about a file: a text, the path between quotes, and a text -/
def aboutFile (before : String) (p : Path) (behind : String) : TlsError :=
  .invalidContent (before ++ "'" ++ p.shown ++ "'" ++ behind)

/-- a file without a certificate where one is needed -/
def noCertificate (p : Path) : TlsError := aboutFile "no certificate found in " p ""

section

variable {C : Type} [Endpoint C]

/-- makes a call: the context behind it, and what it did or why it failed -/
def attempt (files : Files) (c : C) (x : Call) : C × Except TlsError (List Event) :=
  ((Endpoint.call files x).on c).swap

/-- the context behind a list of calls, each with the files of its moment; some of the calls may fail -/
def history (c : C) (xs : List (Files × Call)) : C := xs.foldl (fun c x => (attempt x.1 c x.2).1) c

/-- makes calls up to the first that fails, with what they did -/
def apply (files : Files) (c : C) : List Call → List Event × Except TlsError C
  | [] => ([], .ok c)
  | x :: rest =>
    match attempt files c x with
    | (_, .error e) => ([], .error e)
    | (d, .ok events) => (events ++ (apply files d rest).1, (apply files d rest).2)

end

end SecureEndpoint.Tls
