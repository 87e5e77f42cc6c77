/-
What a context with live handles remembers.

Such a context keeps its requirement in two places, its material with the credentials, the pair of chain and key beside the
two, and the preferred family with the policy; every call writes some of it. All of it is determined by the calls that were
accepted: of each kind, the last thing that was brought is what is there (`foldl_put_getD`, `foldl_put_or`), and the pair is
always that of the chain and the key (`refreshed_put`).
- `history_eq_foldl`: a context behind a history is that behind its loads.
- `read_nonempty`: neither trust anchors nor a chain are ever brought empty.
- `loads_server`: a server takes whatever can be read.
- `remembers_last_of_each_kind`: all of it, for every history. So no verifier of clients ever meets an empty trust store.
-/
import SecureEndpoint.Proofs.Tls.Configuration

namespace SecureEndpoint.Tls

open Key
open Der (Bytes)
open Certificate
open Host (Path Files)

namespace Terms

variable {j : Judge TrustAnchor} {t : Terms} {anchors : List TrustAnchor} {chain : List Bytes}

/-- no verifier of clients is made of an empty trust store -/
theorem verifyClient_of_empty (h : t.trustedClients = some []) : t.verifyClient j chain = .error .emptyStore := by
  rw [verifyClient, h]
  rfl

/-- where there are trust anchors, the judge decides -/
theorem verifyClient_of_anchors (h : t.trustedClients = some anchors) (hne : anchors ≠ []) :
    t.verifyClient j chain = if j.verifies .clientAuth anchors chain then .ok () else .error .unverified := by
  have hverifier : clientVerifier j anchors = .ok (j.verifies .clientAuth anchors) := if_neg hne
  rw [verifyClient, h]
  exact congrArg (· >>= fun accepts => if accepts chain then .ok () else .error .unverified) hverifier

/-- a client whose chain is accepted is one that is verified, and the other way round -/
theorem verifyClient_ok_iff (j : Judge TrustAnchor) (t : Terms) (chain : List Bytes) :
    t.verifyClient j chain = .ok () ↔ t.verify j .clientAuth chain = .ok () := by
  have htrusted : t.trusted? .clientAuth = t.trustedClients := rfl
  rw [verify, htrusted]
  cases h : t.trustedClients with
  | none => simp [verifyClient, h]
  | some anchors =>
    by_cases hnone : anchors = []
    · subst hnone
      simp [verifyClient_of_empty h, j.verifies_nil]
    · cases hj : j.verifies .clientAuth anchors chain <;> simp [verifyClient_of_anchors h hnone, hj]

/-- the only trust store of which no verifier can be made is the empty one -/
theorem emptyStore_iff : t.verifyClient j chain = .error .emptyStore ↔ t.trustedClients = some [] := by
  refine ⟨fun hempty => ?_, verifyClient_of_empty⟩
  cases h : t.trustedClients with
  | none =>
    rw [verifyClient, h] at hempty
    cases hempty
  | some anchors =>
    by_contra hne
    rw [verifyClient_of_anchors h fun hnone => hne (congrArg _ hnone)] at hempty
    split at hempty <;> cases hempty

end Terms

namespace LiveContext

/-! ## The kinds of load -/

namespace Load

def anchors? : Load → Option (List TrustAnchor)
  | .anchors as => some as
  | _ => none

def chain? : Load → Option (List Bytes)
  | .chain cs => some cs
  | _ => none

def key? : Load → Option SigningKey
  | .key k => some k
  | _ => none

/-- the family of a key that has one -/
def family? : Load → Option KeyFamily
  | .key k => k.algorithm.family?
  | _ => none

def required? : Load → Option Bool
  | .certRequired b => some b
  | _ => none

end Load

/-- trust anchors are taken from certificates one by one -/
theorem anchorsOf_length {p : Path} {cs : List Bytes} {as : List TrustAnchor} (h : anchorsOf p cs = .ok as) :
    as.length = cs.length := by
  unfold anchorsOf at h
  induction cs generalizing as with
  | nil =>
    cases h
    rfl
  | cons c cs ih =>
    rw [List.mapM_cons] at h
    obtain ⟨a, -, h⟩ := exists_of_bind_ok h
    obtain ⟨as', has, h⟩ := exists_of_bind_ok h
    cases h
    rw [List.length_cons, List.length_cons, ih has]

theorem readCertificates_ne_nil {files : Files} {p : Path} {cs : List Bytes} (h : readCertificates files p = .ok cs) :
    cs ≠ [] := by
  unfold readCertificates at h
  split at h
  · cases h
  · split at h <;> cases h
    assumption

/-- what is brought is never empty -/
theorem read_nonempty {files : Files} {x : Call} {l : Load} (h : read files x = .ok l) :
    (∀ as, l.anchors? = some as → as ≠ []) ∧ ∀ cs, l.chain? = some cs → cs ≠ [] := by
  cases x with
  | anchorFile p =>
    obtain ⟨as, has, rfl⟩ := exists_of_map_ok h
    obtain ⟨cs, hcs, has⟩ := exists_of_bind_ok has
    refine ⟨fun as' heq hnil => ?_, nofun⟩
    obtain rfl : as = as' := Option.some.inj heq
    have hlength := anchorsOf_length has
    rw [hnil] at hlength
    exact readCertificates_ne_nil hcs (List.length_eq_zero_iff.1 hlength.symm)
  | anchorDirectory p => cases h
  | certificateFile p =>
    obtain ⟨cs, hcs, rfl⟩ := exists_of_map_ok h
    refine ⟨nofun, fun cs' heq => ?_⟩
    obtain rfl : cs = cs' := Option.some.inj heq
    exact readCertificates_ne_nil hcs
  | keyFile p =>
    obtain ⟨k, -, rfl⟩ := exists_of_map_ok h
    exact ⟨nofun, nofun⟩
  | certRequired b =>
    cases h
    exact ⟨nofun, nofun⟩

/-! ## A history is its loads -/

/-- what the accepted calls of a history brought -/
def loads (c : LiveContext) (xs : List (Files × Call)) : List Load :=
  (accepted c xs).filterMap fun x => (read x.1 x.2).toOption

/-- a call that is accepted brings something, and that is what changes the context -/
theorem brings_of_ok {files : Files} {c d : LiveContext} {x : Call} {events : List Event}
    (h : attempt files c x = (d, .ok events)) : ∃ l, read files x = .ok l ∧ d = c.put l := by
  rw [attempt_eq] at h
  cases hread : read files x with
  | error e =>
    rw [hread] at h
    cases h
  | ok l =>
    cases check : l.check c.role with
    | error e =>
      simp only [hread, check] at h
      cases h
    | ok u =>
      simp only [hread, check] at h
      cases h
      exact ⟨l, rfl, rfl⟩

theorem loads_cons_ok {c d : LiveContext} {x : Files × Call} {events : List Event} {l : Load}
    (hx : attempt x.1 c x.2 = (d, .ok events)) (hl : read x.1 x.2 = .ok l) (xs : List (Files × Call)) :
    loads c (x :: xs) = l :: loads d xs := by
  rw [loads, accepted_cons_ok hx, List.filterMap_cons_some (by rw [hl]; rfl), loads]

theorem loads_cons_error {c : LiveContext} {x : Files × Call} {e : TlsError} (hx : attempt x.1 c x.2 = (c, .error e))
    (xs : List (Files × Call)) : loads c (x :: xs) = loads c xs := by
  rw [loads, accepted_cons_error hx, loads]

/-- a server takes whatever can be read -/
theorem loads_server {c : LiveContext} (server : c.role = .server) (xs : List (Files × Call)) :
    loads c xs = xs.filterMap fun x => (read x.1 x.2).toOption := by
  induction xs generalizing c with
  | nil => rfl
  | cons x xs ih =>
    have hx := attempt_eq x.1 c x.2
    cases hread : read x.1 x.2 with
    | error e =>
      simp only [hread] at hx
      rw [loads_cons_error hx, ih server, List.filterMap_cons_none (by rw [hread]; rfl)]
    | ok l =>
      have hcheck : l.check c.role = .ok () := by
        rw [server]
        cases l <;> rfl
      simp only [hread, hcheck] at hx
      rw [loads_cons_ok hx hread, ih ((role_put c l).trans server), List.filterMap_cons_some (by rw [hread]; rfl)]

/-- each accepted call brings one load, and the loads make the context -/
theorem history_eq_foldl (c : LiveContext) (xs : List (Files × Call)) :
    (accepted c xs).map (fun x => read x.1 x.2) = (loads c xs).map .ok ∧ history c xs = (loads c xs).foldl put c := by
  induction xs generalizing c with
  | nil => exact ⟨rfl, rfl⟩
  | cons x xs ih =>
    rw [history_cons]
    obtain ⟨d, events, hx⟩ | ⟨e, hx⟩ := atomic.cases x.1 c x.2
    · obtain ⟨l, hl, rfl⟩ := brings_of_ok hx
      rw [loads_cons_ok hx hl, accepted_cons_ok hx, hx, List.map_cons, List.map_cons, (ih _).1, hl]
      exact ⟨rfl, (ih _).2⟩
    · rw [loads_cons_error hx, accepted_cons_error hx, hx]
      exact ih c

/-! ## What the loads leave -/

section

variable {β : Type}

/-- what one kind of load replaces ends as the last of that kind -/
theorem foldl_put_getD (get : LiveContext → β) (kind : Load → Option β)
    (replaces : ∀ c l, get (put c l) = (kind l).getD (get c)) (ls : List Load) (c : LiveContext) :
    get (ls.foldl put c) = (last? kind ls).getD (get c) := by
  induction ls generalizing c with
  | nil => rfl
  | cons l ls ih => rw [List.foldl_cons, ih, replaces, getD_last?_cons]

/-- what one kind of load fills in ends as the last of that kind -/
theorem foldl_put_or (get : LiveContext → Option β) (kind : Load → Option β)
    (fills : ∀ c l, get (put c l) = (kind l).or (get c)) (ls : List Load) (c : LiveContext) :
    get (ls.foldl put c) = (last? kind ls).or (get c) := by
  induction ls generalizing c with
  | nil => rfl
  | cons l ls ih => rw [List.foldl_cons, ih, fills, last?_cons, Option.or_assoc]

end

/-- the pair is that of the chain and the key -/
def Refreshed (c : LiveContext) : Prop := c.credentials.refresh = c.credentials

theorem refreshed_put {c : LiveContext} (h : c.Refreshed) (l : Load) : (c.put l).Refreshed := by
  unfold Refreshed at h ⊢
  rw [credentials_put]
  cases l with
  | anchors as => exact congrArg (Credentials.setTrustStore · as) h
  | certRequired required => exact congrArg (Credentials.setCertRequired · required) h
  | chain cs => rfl
  | key k => rfl

theorem refreshed_foldl {c : LiveContext} (h : c.Refreshed) (ls : List Load) : (ls.foldl put c).Refreshed := by
  induction ls generalizing c with
  | nil => exact h
  | cons l ls ih => exact ih (refreshed_put h l)

/-- a load replaces or fills in what is of its kind, and leaves the rest -/
structure Load.Brings (l : Load) (c d : LiveContext) : Prop where
  trustStore : d.credentials.trustStore = l.anchors?.or c.credentials.trustStore
  chain : d.credentials.chain = l.chain?.getD c.credentials.chain
  key : d.credentials.key = l.key?.or c.credentials.key
  preferred : d.policy.preferred = l.family?.getD c.policy.preferred
  required : d.certRequired = l.required?.getD c.certRequired
  copied : d.credentials.certRequired = l.required?.getD c.credentials.certRequired

theorem brings_put (c : LiveContext) (l : Load) : l.Brings c (c.put l) := by
  have hpolicy : (c.put l).policy = l.policy c.policy := by
    rw [put_eq]
    exact Shelf.value_alter _ _
  have hrequired : (c.put l).certRequired = l.required c.certRequired := by rw [put_eq]
  constructor <;> simp only [credentials_put, hpolicy, hrequired]
  case preferred =>
    cases l with
    | key k => cases hf : k.algorithm.family? <;> simp [Load.policy, Load.family?, hf, SignaturePolicy.prefer]
    | anchors | chain | certRequired => rfl
  all_goals cases l <;> rfl

/-- what is of a kind among the loads of a history came from one of its calls -/
theorem loaded_of_last? {β : Type} {kind : Load → Option β} {c : LiveContext} {xs : List (Files × Call)} {b : β}
    (h : last? kind (loads c xs) = some b) : ∃ files x l, read files x = .ok l ∧ kind l = some b := by
  obtain ⟨l, hl, hkind⟩ := List.mem_filterMap.1 (List.mem_of_getLast? h)
  obtain ⟨x, -, hx⟩ := List.mem_filterMap.1 hl
  refine ⟨x.1, x.2, l, ?_, hkind⟩
  cases hread : read x.1 x.2 with
  | error e =>
    rw [hread] at hx
    cases hx
  | ok l' =>
    rw [hread] at hx
    cases hx
    rfl

/-! ## The result -/

/-- **A context remembers the last of each kind.** For every role and every list of calls, each with the files of its moment
and each failing or not, the context behind them and the loads of those that were accepted, one for each:
- a call that fails changes nothing of the context, and trusting a directory always fails;
- the trust store holds the anchors that were brought last, at least one, and there is none where none were brought; so no
  handle ever finds a trust store of which no verifier of clients can be made;
- what is presented is the last chain, which is not empty, with the last key, as soon as both are there;
- the preferred family is that of the last key that has one, and RSA where there was none;
- the requirement is the last that was accepted, in both places, and holds from the beginning. -/
theorem remembers_last_of_each_kind (role : Role) : LiveContext.fresh role = .ok { role } ∧ ∀ xs : List (Files × Call),
    let c := history ({ role } : LiveContext) xs
    let ls := loads ({ role } : LiveContext) xs
    c.role = role ∧ (accepted ({ role } : LiveContext) xs).map (fun x => read x.1 x.2) = ls.map .ok ∧
      (∀ files x e, (attempt files c x).2 = .error e → (attempt files c x).1 = c) ∧
      (∀ files p, attempt files c (.anchorDirectory p) = (c, .error (.notImplemented ("CA path '" ++ p.shown ++
        "': directory trust stores are not supported by the rustls backend")))) ∧
      c.credentials.trustStore = last? Load.anchors? ls ∧ (∀ as, c.credentials.trustStore = some as → as ≠ []) ∧
      (∀ serial supported j chain, ((c.build serial).terms c supported).verifyClient j chain ≠ .error .emptyStore) ∧
      (c.credentials.certified = do return ⟨← last? Load.chain? ls, ← last? Load.key? ls⟩) ∧
      (∀ pair, c.credentials.certified = some pair → pair.chain ≠ []) ∧
      c.policy.preferred = (last? Load.family? ls).getD .rsa ∧
      c.certRequired = (last? Load.required? ls).getD true ∧ c.credentials.certRequired = c.certRequired := by
  refine ⟨rfl, fun xs => ?_⟩
  intro c ls
  obtain ⟨hbrought, hc⟩ : _ ∧ c = ls.foldl put { role } := history_eq_foldl { role } xs
  have hrole : c.role = role := by
    rw [hc, foldl_put_getD (·.role) (fun _ => none) role_put ls { role }]
    simp [last?]
  have hanchors : c.credentials.trustStore = last? Load.anchors? ls := by
    rw [hc, foldl_put_or (·.credentials.trustStore) Load.anchors? (fun c l => (c.brings_put l).trustStore) ls { role }]
    exact Option.or_none
  have hkey : c.credentials.key = last? Load.key? ls := by
    rw [hc, foldl_put_or (·.credentials.key) Load.key? (fun c l => (c.brings_put l).key) ls { role }]
    exact Option.or_none
  have hchain : c.credentials.chain = (last? Load.chain? ls).getD [] := by
    rw [hc]
    exact foldl_put_getD (·.credentials.chain) Load.chain? (fun c l => (c.brings_put l).chain) ls { role }
  have hrequired : c.certRequired = (last? Load.required? ls).getD true := by
    rw [hc]
    exact foldl_put_getD (·.certRequired) Load.required? (fun c l => (c.brings_put l).required) ls { role }
  have hpair : c.credentials.refresh = c.credentials := by
    rw [hc]
    exact refreshed_foldl (c := { role }) rfl ls
  have hstore : ∀ as, c.credentials.trustStore = some as → as ≠ [] := by
    intro as has
    obtain ⟨files, x, l, hl, hkind⟩ := loaded_of_last? (hanchors.symm.trans has)
    exact (read_nonempty hl).1 as hkind
  have hloaded : ∀ cs, last? Load.chain? ls = some cs → cs ≠ [] := by
    intro cs hcs
    obtain ⟨files, x, l, hl, hkind⟩ := loaded_of_last? hcs
    exact (read_nonempty hl).2 cs hkind
  have hcertified : c.credentials.certified = do return ⟨← last? Load.chain? ls, ← last? Load.key? ls⟩ := by
    rw [← hpair, Credentials.refresh, hkey, hchain]
    cases hk : last? Load.key? ls with
    | none => cases last? Load.chain? ls <;> rfl
    | some key =>
      cases hcs : last? Load.chain? ls with
      | none => rfl
      | some cs => simp [hloaded cs hcs]
  refine ⟨hrole, hbrought, fun files x e => atomic files c x e, fun files p => attempt_eq files c _, hanchors, hstore,
    fun serial supported j chain => ?_, hcertified, fun pair hp => ?_, ?_, ?_, ?_⟩
  · rw [terms_build]
    intro hempty
    have hnone : c.credentials.trustStore = some [] :=
      Credentials.trustStore_of_trusted (p := .clientAuth) (Terms.emptyStore_iff.1 hempty)
    exact hstore [] hnone rfl
  · rw [hcertified] at hp
    obtain ⟨cs, hcs, hp⟩ := Option.bind_eq_some_iff.1 hp
    obtain ⟨key, -, hp⟩ := Option.bind_eq_some_iff.1 hp
    cases hp
    exact hloaded cs hcs
  · rw [hc]
    exact foldl_put_getD (·.policy.preferred) Load.family? (fun c l => (c.brings_put l).preferred) ls { role }
  · exact hrequired
  · rw [hrequired, hc]
    exact foldl_put_getD (·.credentials.certRequired) Load.required? (fun c l => (c.brings_put l).copied) ls { role }

open Snapshot.Context (disk exists_ok_of_any)

/-- the old certificate can be trusted, and the new one can be presented with its key, which is of a curve -/
theorem disk_loads : ∃ as cs' cs k, read disk (.anchorFile (.ofText "old.crt")) = .ok (.anchors as) ∧
    read disk (.certificateFile (.ofText "old.crt")) = .ok (.chain cs') ∧
      read disk (.certificateFile (.ofText "new.crt")) = .ok (.chain cs) ∧
        read disk (.keyFile (.ofText "new.key")) = .ok (.key k) ∧ k.algorithm.family? = some .ecdsa := by
  have check : ((readCertificates disk (.ofText "old.crt") >>= anchorsOf (.ofText "old.crt")).toOption.any fun _ =>
      (readCertificates disk (.ofText "new.crt")).toOption.any fun _ =>
      (readKey disk (.ofText "new.key")).toOption.any fun k => decide (k.algorithm.family? = some .ecdsa)) = true := by
    decide +kernel
  obtain ⟨as, has, check⟩ := exists_ok_of_any check
  obtain ⟨cs, hcs, check⟩ := exists_ok_of_any check
  obtain ⟨k, hk, check⟩ := exists_ok_of_any check
  obtain ⟨cs', hcs', -⟩ := exists_of_bind_ok has
  exact ⟨as, cs', cs, k, congrArg (Except.map Load.anchors) has, congrArg (Except.map Load.chain) hcs',
    congrArg (Except.map Load.chain) hcs, congrArg (Except.map Load.key) hk, of_decide_eq_true check⟩

/-- a server that trusts the old certificate presents first that one and then the new one, with its key; in between it is
to trust a directory, which fails -/
theorem remembers_last_of_each_kind_renewed :
    let xs : List (Files × Call) := [(disk, .anchorFile (.ofText "old.crt")), (disk, .certificateFile (.ofText "old.crt")),
      (disk, .anchorDirectory (.ofText "anchors")), (disk, .keyFile (.ofText "new.key")),
      (disk, .certificateFile (.ofText "new.crt")), (disk, .certRequired false)]
    let c := history ({ role := .server } : LiveContext) xs
    ∃ as cs k, read disk (.anchorFile (.ofText "old.crt")) = .ok (.anchors as) ∧
      read disk (.certificateFile (.ofText "new.crt")) = .ok (.chain cs) ∧
        read disk (.keyFile (.ofText "new.key")) = .ok (.key k) ∧ c.credentials.trustStore = some as ∧ as ≠ [] ∧
          c.credentials.certified = some ⟨cs, k⟩ ∧ c.policy.preferred = .ecdsa ∧ c.certRequired = false := by
  intro xs c
  obtain ⟨as, cs', cs, k, has, hcs', hcs, hk, hfamily⟩ := disk_loads
  have hloads : loads ({ role := .server } : LiveContext) xs =
      [.anchors as, .chain cs', .key k, .chain cs, .certRequired false] := by
    rw [loads_server rfl]
    simp only [xs, List.filterMap_cons, List.filterMap_nil, has, hcs', hcs, hk, Except.toOption]
    rfl
  obtain ⟨-, remembers⟩ := remembers_last_of_each_kind .server
  obtain ⟨-, -, -, -, hanchors, hstore, -, hcertified, -, hpreferred, hrequired, -⟩ := remembers xs
  rw [hloads] at hanchors hcertified hpreferred hrequired
  refine ⟨as, cs, k, has, hcs, hk, hanchors, hstore as hanchors, hcertified, ?_, hrequired⟩
  rw [hpreferred]
  simp only [getD_last?_cons]
  simp [last?, Load.family?, hfamily]

end LiveContext

end SecureEndpoint.Tls
