/-
The context whose handles are snapshots.

Such a context records the material of the last successful load of each kind. From it, and from the role and the
requirement, `Builder.build` makes a native context step by step; a step that fails makes the build fail. Every change
builds anew from the changed material. The new native context is put in use at a place of its own, and a handle is the
place of the native context that was in use when it was taken.

A `Builder` is any native library: each of its steps is a function of what was built so far and of what the step is given,
and may fail. `Native.builder` is the one that endpoints run with. It keeps a certificate and a key for every kind of key
and remembers the kind that was used last. It refuses certificates that may not be presented, keys that cannot sign, and a
key that does not belong to the certificate of its kind. The text of its own errors is not part of this library;
`nativeText` stands for it.
-/
import SecureEndpoint.Certificate.File
import SecureEndpoint.Certificate.Info
import SecureEndpoint.Certificate.Presentable
import SecureEndpoint.Key.PrivateKey
import SecureEndpoint.Tls.Endpoint
import SecureEndpoint.Tls.Shelf

namespace SecureEndpoint.Tls.Snapshot

open Certificate Key
open Host (Path Files)

/-- stands for a text of the native library -/
def nativeText : String := "<openssl>"

/-- how a native context treats the certificate of the peer -/
structure VerifyMode where
  /-- ask for a certificate and verify it -/
  peer : Bool
  /-- a peer without a certificate is refused -/
  failIfNone : Bool
  deriving DecidableEq, Repr

/-- a client verifies its server; a server verifies its clients if and only if they have to present a certificate -/
def VerifyMode.of (role : Role) (required : Bool) : VerifyMode :=
  match role, required with
  | .server, true => ⟨true, true⟩
  | .server, false => ⟨false, false⟩
  | .client, _ => ⟨true, false⟩

/-- the recorded material -/
structure Material where
  anchors : List Certificate := []
  directory : Option Path := none
  chain : List Certificate := []
  key : Option PrivateKey := none
  deriving DecidableEq, Repr

/-- the family of the recorded key -/
def Material.family? (m : Material) : Option KeyFamily := m.key.bind fun k => k.publicKey.family?

/-- a version of the protocol -/
inductive ProtocolVersion where
  | tls12
  | tls13
  deriving DecidableEq, Repr

/-- a native library: the steps in which it makes a native context -/
structure Builder (N : Type) where
  /-- begins for a role -/
  start : Role → Except TlsError N
  /-- refuses older versions of the protocol -/
  setMinVersion : N → ProtocolVersion → Except TlsError N
  setVerify : N → VerifyMode → N
  /-- trusts a certificate -/
  addAnchor : N → Certificate → Except TlsError N
  /-- gets ready to look for trusted certificates in directories -/
  addLookup : N → Except TlsError N
  /-- trusts the certificates in a directory -/
  addDirectory : N → String → Except TlsError N
  /-- presents a certificate -/
  setCertificate : N → Certificate → Except TlsError N
  /-- presents a further certificate -/
  addExtra : N → Certificate → Except TlsError N
  /-- uses a private key -/
  setKey : N → PrivateKey → Except TlsError N
  /-- allows the signature schemes of a policy that prefers this family -/
  setSchemes : N → KeyFamily → Except TlsError N

/-- does something if there is something to do it with -/
def whenSome {N α : Type} (step : N → α → Except TlsError N) (a : Option α) (n : N) : Except TlsError N :=
  match a with
  | some a => step n a
  | none => .ok n

/-- the path of a directory, which has to be text -/
def directoryText (p : Path) : Except TlsError String :=
  match String.fromUTF8? ⟨p.toArray⟩ with
  | some s => .ok s
  | none => .error (aboutFile "CA path " p " is not valid UTF-8")

namespace Builder

variable {N : Type} (b : Builder N)

/-- trusts the certificates in the directory at a path -/
def trustDirectory (n : N) (p : Path) : Except TlsError N := do
  let s ← directoryText p
  let n ← b.addLookup n
  b.addDirectory n s

/-- presents a chain, the own certificate first -/
def presentChain (n : N) (chain : List Certificate) : Except TlsError N :=
  match chain with
  | [] => .ok n
  | leaf :: rest => do
    let n ← b.setCertificate n leaf
    rest.foldlM b.addExtra n

/-- uses a private key, whose family comes first among the signature schemes -/
def useKey (n : N) (k : PrivateKey) : Except TlsError N := do
  let n ← b.setKey n k
  whenSome b.setSchemes k.publicKey.family? n

/-- a native context from material -/
def build (role : Role) (required : Bool) (m : Material) : Except TlsError N := do
  let n ← b.start role
  let n ← b.setMinVersion n .tls12
  let n := b.setVerify n (.of role required)
  let n ← m.anchors.foldlM b.addAnchor n
  let n ← whenSome b.trustDirectory m.directory n
  let n ← b.presentChain n m.chain
  whenSome b.useKey m.key n

end Builder

/-- a native context -/
structure Native where
  role : Role
  minVersion : Option ProtocolVersion := none
  verify : VerifyMode := ⟨false, false⟩
  anchors : List Certificate := []
  directory : Option String := none
  certificates : List (Slot × Certificate) := []
  keys : List (Slot × PrivateKey) := []
  /-- the kind of key that was used last -/
  current : Slot := .rsa
  extra : List Certificate := []
  /-- the family whose signature schemes come first -/
  preferred : Option KeyFamily := none
  deriving DecidableEq, Repr

namespace Native

/-- presents a certificate -/
def setCertificate (n : Native) (c : Certificate) : Except TlsError Native :=
  match c.key?.bind PublicKey.slot? with
  | none => .error (.native nativeText)
  | some slot =>
    if c.isPresentable then .ok { n with certificates := n.certificates ++ [(slot, c)], current := slot }
    else .error (.native nativeText)

/-- the certificate for a kind of key -/
def certificate? (n : Native) (slot : Slot) : Option Certificate :=
  (n.certificates.find? fun p => p.1 == slot).map Prod.snd

/-- uses a private key -/
def setKey (n : Native) (k : PrivateKey) : Except TlsError Native :=
  match k.publicKey.slot? with
  | none => .error (.native nativeText)
  | some slot =>
    if (n.certificate? slot).all fun c => c.key? == some k.publicKey then
      .ok { n with keys := n.keys ++ [(slot, k)], current := slot }
    else .error (.native nativeText)

/-- the native library that endpoints run with -/
def builder : Builder Native where
  start role := .ok { role }
  setMinVersion n v := .ok { n with minVersion := some v }
  setVerify n v := { n with verify := v }
  addAnchor n c := .ok { n with anchors := n.anchors ++ [c] }
  addLookup n := .ok n
  addDirectory n s := .ok { n with directory := some s }
  setCertificate := setCertificate
  addExtra n c := .ok { n with extra := n.extra ++ [c] }
  setKey := setKey
  setSchemes n f := .ok { n with preferred := some f }

/-- the certificate that is presented with the kind of key used last -/
def currentCertificate? (n : Native) : Option Certificate := n.certificate? n.current

/-- there is a key of the kind used last -/
def hasKey (n : Native) : Bool := n.keys.any fun p => p.1 == n.current

/-- the common name of a certificate -/
def nameOf (c : Certificate) : String := (CertInfo.ofCertificate c).subject

/-- the names of the trusted certificates, sorted and each once -/
def anchorNames (n : Native) : List String := ((n.anchors.map nameOf).mergeSort (fun a b => a ≤ b)).eraseDups

end Native

/-- what a call brings to a context -/
inductive Load where
  | anchors (cs : List Certificate)
  | directory (p : Path)
  | chain (cs : List Certificate)
  | key (k : PrivateKey)
  | certRequired (b : Bool)
  deriving DecidableEq, Repr

/-- the material with a load in place of the last one of its kind -/
def Load.into (l : Load) (m : Material) : Material :=
  match l with
  | .anchors cs => { m with anchors := cs }
  | .directory p => { m with directory := some p }
  | .chain cs => { m with chain := cs }
  | .key k => { m with key := some k }
  | .certRequired _ => m

/-- the certificates in a file, at least one -/
def readCertificates (files : Files) (p : Path) : Except TlsError (List Certificate) :=
  match readFile files p with
  | .error e => .error e
  | .ok s =>
    match Certificate.Lenient.certificatesOfFile s with
    | none => .error (aboutFile "unable to parse " p (": " ++ nativeText))
    | some [] => .error (noCertificate p)
    | some cs => .ok cs

/-- the private key in a file -/
def readKey (files : Files) (p : Path) : Except TlsError PrivateKey :=
  match readFile files p with
  | .error e => .error e
  | .ok s =>
    match Key.Lenient.privateKey s with
    | none => .error (aboutFile "no private key found in " p (": " ++ nativeText))
    | some k => .ok k

/-- a path that leads to a directory -/
def readDirectory (files : Files) (p : Path) : Except TlsError Path :=
  match files.isDirectory p with
  | .error e => .error (.unreadable p.shown e)
  | .ok true => .ok p
  | .ok false => .error (aboutFile "" p " is not a directory")

/-- what a call brings -/
def read (files : Files) : Call → Except TlsError Load
  | .anchorFile p => (readCertificates files p).map .anchors
  | .anchorDirectory p => (readDirectory files p).map .directory
  | .certificateFile p => (readCertificates files p).map .chain
  | .keyFile p => (readKey files p).map .key
  | .certRequired b => .ok (.certRequired b)

/-- what is reported about a call that brought this -/
def events (role : Role) : Call → Load → List Event
  | .anchorFile p, .anchors cs => [.anchorsLoaded role p.shown cs.length]
  | .anchorDirectory p, .directory _ => [.directoryLoaded role p.shown]
  | .certificateFile p, .chain cs => [.certificateLoaded role p.shown cs.length]
  | .keyFile p, .key k => [.keyLoaded role p.shown k.publicKey.family?]
  | _, _ => []

/-- a context whose handles are snapshots, made by this native library -/
structure Context {N : Type} (b : Builder N) where
  role : Role
  certRequired : Bool
  material : Material
  /-- the native contexts that were ever in use; a handle is a place among them -/
  natives : Shelf N

namespace Context

variable {N : Type} {b : Builder N}

/-- a context without material -/
def fresh (role : Role) : Except TlsError (Context b) :=
  (b.build role true {}).map fun n => { role, certRequired := true, material := {}, natives := .single n }

/-- the family of the recorded key -/
def family? (c : Context b) : Option KeyFamily := c.material.family?

/-- the native context in use, which a handle taken now leads to -/
def handle (c : Context b) : N := c.natives.value

/-- changes a copy of the material and builds anew; nothing is recorded before the build has succeeded -/
def update (required : Bool) (change : Material → Material) : Operation (Context b) Unit := do
  let c ← get
  let material := change c.material
  let n ← b.build c.role required material
  modify fun c => { c with natives := c.natives.renew n }
  modify fun c => { c with material }
  modify fun c => { c with certRequired := required }

/-- sets the requirement; the same requirement again needs no new native context -/
def setCertRequired (required : Bool) : Operation (Context b) Unit := do
  let c ← get
  refuseUnverified c.role required
  if required = c.certRequired then return
  update required id

/-- takes what a call brings -/
def take : Load → Operation (Context b) Unit
  | .certRequired required => setCertRequired required
  | l => do update (← get).certRequired l.into

/-- makes a call -/
def call (files : Files) (x : Call) : Operation (Context b) (List Event) := do
  let l ← read files x
  take l
  return events (← get).role x l

instance : Endpoint (Context b) where
  fresh := fresh
  role := role
  certRequired := certRequired
  call := call

end Context

end Snapshot

/-- a context whose handles are snapshots, made by the native library that endpoints run with -/
abbrev SnapshotContext := Snapshot.Context Snapshot.Native.builder

end SecureEndpoint.Tls
