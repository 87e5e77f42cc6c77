/-
The context whose handle is made once and shared.

`attempt_eq` says what a call does: it either fails and changes nothing, or it changes the credentials, the policy or the
requirement where they are. No call moves them to another place (`build_attempt`), and no call looks at whether the handle
is made (`attempt_forget`).

An inquiry mixes calls with any number of callers who ask for the handle, and who may all look before the first of them
settles. `Agreed` is what every step keeps: there is at most one handle that anybody got, and it knows the places that are in
use. So a handle that was made early is as good as one that is made late, which is `early_handle_as_late`.
-/
import SecureEndpoint.Proofs.Tls.Calls
import SecureEndpoint.Tls.Asking
import SecureEndpoint.Tls.Peer

namespace SecureEndpoint.Tls

open Host (Files)

/-- whom a purpose finds to trust is whom the trust store holds -/
theorem Credentials.trustStore_of_trusted {c : Credentials} {p : Purpose} {anchors : List Certificate.TrustAnchor}
    (h : c.trusted? p = some anchors) : c.trustStore = some anchors := by
  rw [trusted?] at h
  split at h
  · cases h
  · exact h

namespace LiveContext

/-! ## What a call does -/

/-- only a requirement can be refused -/
def Load.check (role : Role) : Load → Except TlsError Unit
  | .certRequired required => refuseUnverified role required
  | _ => .ok ()

/-- the context behind a load -/
def put (c : LiveContext) : Load → LiveContext
  | .anchors as => c.alterCredentials (·.setTrustStore as)
  | .chain cs => c.alterCredentials (·.setChain cs)
  | .key k => (c.alterPolicy fun p => k.algorithm.family?.elim p p.prefer).alterCredentials (·.setKey k)
  | .certRequired required => { c with certRequired := required }.alterCredentials (·.setCertRequired required)

theorem useKey_on (c : LiveContext) (k : Key.SigningKey) : (useKey k).on c = (.ok (), c.put (.key k)) := by
  unfold useKey put
  cases hf : k.algorithm.family? with
  | none => simp [hf, alterPolicy]
  | some f => simp [hf, Operation.on_bind]

theorem take_on (c : LiveContext) (l : Load) :
    (take l).on c = match l.check c.role with
      | .error e => (.error e, c)
      | .ok () => (.ok (), c.put l) := by
  cases l with
  | anchors as => rfl
  | chain cs => rfl
  | key k => exact c.useKey_on k
  | certRequired required =>
    simp only [take, setCertRequired, Operation.on_bind, Operation.on_get, Operation.on_lift, Load.check]
    cases refuseUnverified c.role required with
    | error e => rfl
    | ok u => rfl

theorem role_put (c : LiveContext) (l : Load) : (c.put l).role = c.role := by
  cases l <;> rfl

theorem attempt_eq (files : Files) (c : LiveContext) (x : Call) :
    attempt files c x = match read files x with
      | .error e => (c, .error e)
      | .ok l =>
        match l.check c.role with
        | .error e => (c, .error e)
        | .ok () => (c.put l, .ok (events c.role x l)) := by
  simp only [attempt, Endpoint.call, call, Operation.on_bind, Operation.on_lift]
  cases read files x with
  | error e => rfl
  | ok l =>
    simp only [take_on]
    cases l.check c.role with
    | error e => rfl
    | ok u => simp only [Operation.on_get, Operation.on_pure, Prod.swap_prod_mk, role_put]

/-- a call that fails changes nothing -/
theorem atomic : Atomic LiveContext := by
  intro files c x e h
  rw [attempt_eq] at h ⊢
  cases hread : read files x with
  | error e => rfl
  | ok l =>
    cases hl : l.check c.role with
    | error e => simp only [hl]
    | ok u =>
      simp only [hread, hl] at h
      cases h

/-- what every load keeps, every call keeps -/
theorem attempt_keeps {I : LiveContext → Prop} (keeps : ∀ c l, l.check c.role = .ok () → I c → I (c.put l)) (files : Files)
    (c : LiveContext) (x : Call) (h : I c) : I (attempt files c x).1 := by
  rw [attempt_eq]
  cases read files x with
  | error e => exact h
  | ok l =>
    simp only
    cases hl : l.check c.role with
    | error e => exact h
    | ok u => exact keeps c l hl h

/-- no load moves what the handle shares -/
theorem build_put (c : LiveContext) (l : Load) (serial : Nat) : (c.put l).build serial = c.build serial := by
  cases l <;> rfl

theorem build_attempt (files : Files) (c : LiveContext) (x : Call) (serial : Nat) :
    (attempt files c x).1.build serial = c.build serial :=
  attempt_keeps (I := fun d => d.build serial = c.build serial)
    (fun d l _ h => (d.build_put l serial).trans h) files c x rfl

theorem made_put (c : LiveContext) (l : Load) : (c.put l).made = c.made := by
  cases l <;> rfl

/-- no call makes the handle or drops it -/
theorem made_attempt (files : Files) (c : LiveContext) (x : Call) : (attempt files c x).1.made = c.made :=
  attempt_keeps (I := fun d => d.made = c.made) (fun d l _ h => (d.made_put l).trans h) files c x rfl

/-- a context as if nobody had asked for its handle -/
def forget (c : LiveContext) : LiveContext := { c with made := none }

theorem forget_put (c : LiveContext) (l : Load) : (c.put l).forget = c.forget.put l := by
  cases l <;> rfl

/-- a call does the same whether the handle is made or not -/
theorem attempt_forget (files : Files) (c : LiveContext) (x : Call) :
    attempt files c.forget x = ((attempt files c x).1.forget, (attempt files c x).2) := by
  rw [attempt_eq, attempt_eq]
  cases read files x with
  | error e => rfl
  | ok l =>
    have hrole : c.forget.role = c.role := rfl
    simp only [hrole]
    cases l.check c.role with
    | error e => rfl
    | ok u => rw [forget_put]

theorem forget_settle (c : LiveContext) (own : LiveHandle) : (c.settle own).2.forget = c.forget := by
  unfold settle
  cases c.made with
  | none => rfl
  | some h => rfl

theorem build_settle (c : LiveContext) (own : LiveHandle) (serial : Nat) :
    (c.settle own).2.build serial = c.build serial := by
  unfold settle
  cases c.made with
  | none => rfl
  | some h => rfl

/-- who settles gets the handle that is kept -/
theorem made_settle (c : LiveContext) (own : LiveHandle) : (c.settle own).2.made = some (c.settle own).1 := by
  unfold settle
  cases h : c.made with
  | none => rfl
  | some k => exact h

/-- what a handshake with what is in use consults -/
def terms (c : LiveContext) (supported : List SignatureScheme) : Terms where
  role := c.role
  certified := c.credentials.certified
  hasCertificate := c.credentials.hasCertificate
  trustedServers := c.credentials.trusted? .serverAuth
  trustedClients := c.credentials.trusted? .clientAuth
  asks := c.credentials.certRequired
  insists := c.credentials.certRequired
  schemes := c.policy.order supported

theorem trusted_terms (c : LiveContext) (supported : List SignatureScheme) (p : Purpose) :
    (c.terms supported).trusted? p = c.credentials.trusted? p := by
  cases p <;> rfl

/-- a handle that knows the places in use consults what is in use -/
theorem terms_build (c : LiveContext) (serial : Nat) (supported : List SignatureScheme) :
    (c.build serial).terms c supported = c.terms supported := by
  simp only [LiveHandle.terms, build, Shelf.at?_place, Option.getD_some]
  rfl

end LiveContext

namespace Inquiry

open LiveContext

/-! ## What the steps of an inquiry keep -/

/-- the calls of a list of steps that succeed when they are made -/
def succeeded (q : Inquiry) : List InquiryMove → List (Files × Call)
  | [] => []
  | .call files x :: rest =>
    match (attempt files q.context x).2 with
    | .ok _ => (files, x) :: succeeded (q.step (.call files x)) rest
    | .error _ => succeeded (q.step (.call files x)) rest
  | mv :: rest => succeeded (q.step mv) rest

/-- a caller who advances at most settles for a handle -/
theorem context_advance (q : Inquiry) (i : Nat) :
    (q.advance i).context = q.context ∨ ∃ own, (q.advance i).context = (q.context.settle own).2 := by
  unfold advance
  split
  · split
    · exact .inl rfl
    · exact .inl rfl
  · exact .inr ⟨_, rfl⟩
  · exact .inl rfl

/-- what calls and settling keep of a context, every run keeps -/
theorem run_keeps {I : LiveContext → Prop} (calls : ∀ files c x, I c → I (attempt files c x).1)
    (settles : ∀ c own, I c → I (c.settle own).2) {q : Inquiry} (h : I q.context) (moves : List InquiryMove) :
    I (q.run moves).context := by
  induction moves generalizing q with
  | nil => exact h
  | cons mv moves ih =>
    apply ih
    cases mv with
    | call files x => exact calls files q.context x h
    | ask => exact h
    | advance i =>
      change I (q.advance i).context
      obtain same | ⟨own, settled⟩ := q.context_advance i
      · rw [same]
        exact h
      · rw [settled]
        exact settles q.context own h

theorem run_append (q : Inquiry) (moves later : List InquiryMove) : q.run (moves ++ later) = (q.run moves).run later :=
  List.foldl_append

/-- what a handle shares stays where it is -/
theorem build_run (q : Inquiry) (moves : List InquiryMove) (serial : Nat) :
    (q.run moves).context.build serial = q.context.build serial :=
  run_keeps (I := fun c => c.build serial = q.context.build serial)
    (fun files c x h => (build_attempt files c x serial).trans h) (fun c own h => (c.build_settle own serial).trans h)
    rfl moves

theorem forget_advance (q : Inquiry) (i : Nat) : (q.advance i).context.forget = q.context.forget := by
  obtain same | ⟨own, settled⟩ := q.context_advance i
  · rw [same]
  · rw [settled, forget_settle]

/-- but for the handle, the context of a run is that of its successful calls alone, which succeed again -/
theorem run_succeeded (q : Inquiry) (moves : List InquiryMove) :
    history q.context.forget (q.succeeded moves) = (q.run moves).context.forget ∧
      accepted q.context.forget (q.succeeded moves) = q.succeeded moves := by
  induction moves generalizing q with
  | nil => exact ⟨rfl, rfl⟩
  | cons mv moves ih =>
    cases mv with
    | ask => exact ih (q.step .ask)
    | advance i =>
      have same : (q.step (.advance i)).context.forget = q.context.forget := q.forget_advance i
      have rest := ih (q.step (.advance i))
      rw [same] at rest
      exact rest
    | call files x =>
      have rest := ih (q.step (.call files x))
      have hstep : (q.step (.call files x)).context = (attempt files q.context x).1 := rfl
      rw [hstep] at rest
      obtain ⟨d, events, h⟩ | ⟨e, h⟩ := atomic.cases files q.context x
      · -- no call looks at the handle, so this one succeeds without it too
        have again : attempt files q.context.forget x = (d.forget, .ok events) := by rw [attempt_forget, h]
        rw [h] at rest
        simp only [succeeded, h]
        rw [history_cons, accepted_cons_ok again, again]
        exact ⟨rest.1, by rw [rest.2]⟩
      · rw [h] at rest
        simp only [succeeded, h]
        exact rest

/-- everybody who got a handle got the one that is kept, and every handle knows the places in use -/
structure Agreed (q : Inquiry) : Prop where
  made : ∀ h, q.context.made = some h → ∃ serial, h = q.context.build serial
  settling : ∀ own, .settling own ∈ q.callers → ∃ serial, own = q.context.build serial
  answered : ∀ h, .answered h ∈ q.callers → q.context.made = some h

theorem agreed_start (role : Role) : (start role).Agreed where
  made := nofun
  settling := nofun
  answered := nofun

/-- a caller who is told the handle that is kept -/
theorem Agreed.answer {q : Inquiry} (hq : q.Agreed) {h : LiveHandle} (hm : q.context.made = some h) (i : Nat) :
    Agreed { q with callers := q.callers.set i (.answered h) } where
  made := hq.made
  settling := by
    intro own hown
    rcases List.mem_or_eq_of_mem_set hown with hown | hown
    · exact hq.settling own hown
    · cases hown
  answered := by
    intro k hk
    rcases List.mem_or_eq_of_mem_set hk with hk | hk
    · exact hq.answered k hk
    · cases hk
      exact hm

/-- keeping a handle that knows the places in use -/
theorem Agreed.settle {q : Inquiry} (hq : q.Agreed) {own : LiveHandle} (hown : ∃ serial, own = q.context.build serial) :
    Agreed { q with context := (q.context.settle own).2 } where
  made := by
    intro h hm
    have hkept : (q.context.settle own).2.made = some h := hm
    rw [made_settle] at hkept
    cases hkept
    simp only [build_settle]
    unfold LiveContext.settle
    -- the caller's own handle is kept, or one that was there before
    cases hmade : q.context.made with
    | none => exact hown
    | some k => exact hq.made k hmade
  settling := by
    intro o ho
    simp only [build_settle]
    exact hq.settling o ho
  answered := by
    intro h hh
    have hmade : q.context.made = some h := hq.answered h hh
    simp only [LiveContext.settle, hmade]

theorem agreed_advance {q : Inquiry} (hq : q.Agreed) (i : Nat) : (q.advance i).Agreed := by
  unfold advance
  split
  · split
    · rename_i h hm
      exact hq.answer hm i
    · refine ⟨hq.made, ?_, ?_⟩
      · intro own hown
        rcases List.mem_or_eq_of_mem_set hown with hown | hown
        · exact hq.settling own hown
        · cases hown
          exact ⟨q.nextSerial, rfl⟩
      · intro h hh
        rcases List.mem_or_eq_of_mem_set hh with hh | hh
        · exact hq.answered h hh
        · cases hh
  · rename_i own hi
    have hs := hq.settle (hq.settling own (List.mem_of_getElem? hi))
    exact hs.answer (made_settle _ _) i
  · exact hq

theorem agreed_step {q : Inquiry} (hq : q.Agreed) (mv : InquiryMove) : (q.step mv).Agreed := by
  cases mv with
  | call files x =>
    refine ⟨?_, ?_, ?_⟩
    · intro h hm
      have hmade : q.context.made = some h := (made_attempt files q.context x).symm.trans hm
      obtain ⟨serial, hb⟩ := hq.made h hmade
      exact ⟨serial, hb.trans (build_attempt files q.context x serial).symm⟩
    · intro own hown
      obtain ⟨serial, hb⟩ := hq.settling own hown
      exact ⟨serial, hb.trans (build_attempt files q.context x serial).symm⟩
    · intro h hh
      exact (made_attempt files q.context x).trans (hq.answered h hh)
  | ask =>
    refine ⟨hq.made, ?_, ?_⟩
    · intro own hown
      rcases List.mem_append.1 hown with hown | hown
      · exact hq.settling own hown
      · cases List.mem_singleton.1 hown
    · intro h hh
      rcases List.mem_append.1 hh with hh | hh
      · exact hq.answered h hh
      · cases List.mem_singleton.1 hh
  | advance i => exact agreed_advance hq i

theorem agreed_run {q : Inquiry} (hq : q.Agreed) (moves : List InquiryMove) : (q.run moves).Agreed := by
  induction moves generalizing q with
  | nil => exact hq
  | cons mv moves ih => exact ih (agreed_step hq mv)

theorem Agreed.made_of_mem {q : Inquiry} (hq : q.Agreed) {h : LiveHandle} (hh : h ∈ q.answers) :
    q.context.made = some h := by
  obtain ⟨a, ha, he⟩ := List.mem_filterMap.1 hh
  cases a with
  | answered k =>
    cases he
    exact hq.answered h ha
  | starting => cases he
  | settling own => cases he

/-- a handle that anybody got consults what is in use, whenever that is -/
theorem Agreed.terms_of_mem {q : Inquiry} (hq : q.Agreed) {h : LiveHandle} (hh : h ∈ q.answers)
    (later : List InquiryMove) (supported : List SignatureScheme) :
    h.terms (q.run later).context supported = (q.run later).context.terms supported := by
  obtain ⟨serial, rfl⟩ := hq.made h (hq.made_of_mem hh)
  rw [← q.build_run later serial]
  exact terms_build (q.run later).context serial supported

/-- **An early handle is as good as a late one.** Let calls be made on a context and any number of callers ask for its
handle, with their steps in any order. All who are answered get the same handle. Whatever was called since, a handshake
through it consults what it would consult through the handle of a new context on which only the successful calls were made,
all of which succeed there too, before anybody asked. -/
theorem early_handle_as_late (role : Role) (supported : List SignatureScheme) (moves : List InquiryMove) :
    let q := (start role).run moves
    let calls := (start role).succeeded moves
    let late : LiveContext := history { role } calls
    accepted ({ role } : LiveContext) calls = calls ∧
      (∀ h ∈ q.answers, ∀ k ∈ q.answers, h = k) ∧
      ∀ h ∈ q.answers, ∀ serial,
        h.terms q.context supported = (late.handle serial).1.terms (late.handle serial).2 supported := by
  intro q calls late
  have hq : q.Agreed := agreed_run (agreed_start role) moves
  obtain ⟨hhist, hagain⟩ := (start role).run_succeeded moves
  have hlate : late = q.context.forget := hhist
  refine ⟨hagain, ?_, ?_⟩
  · intro h hh k hk
    have hsame : some h = some k := (hq.made_of_mem hh).symm.trans (hq.made_of_mem hk)
    exact Option.some.inj hsame
  · intro h hh serial
    have hnew : (late.handle serial).1.terms (late.handle serial).2 supported = late.terms supported := by
      rw [hlate]
      exact terms_build q.context.forget serial supported
    calc h.terms q.context supported
        = q.context.terms supported := hq.terms_of_mem hh [] supported
      _ = late.terms supported := by rw [hlate]; rfl
      _ = _ := hnew.symm

/-- two callers who both find no handle, a call between them, a call that fails, and a caller who comes late -/
def raced : List InquiryMove :=
  [.ask, .ask, .advance 0, .advance 1, .advance 1, .call {} (.certRequired false), .advance 0,
    .call {} (.anchorDirectory []), .ask, .advance 2]

/-- all three get the handle of the caller who settled first, and through it no client has to show a certificate any more -/
theorem early_handle_as_late_raced :
    let q := (start .server).run raced
    q.answers.map LiveHandle.serial = [1, 1, 1] ∧ ((start .server).succeeded raced).map Prod.snd = [.certRequired false] ∧
      (∀ h ∈ q.answers, ∀ k ∈ q.answers, h = k) ∧ ∀ h ∈ q.answers, (h.terms q.context []).insists = false := by
  intro q
  obtain ⟨-, same, late⟩ := early_handle_as_late .server [] raced
  refine ⟨by decide, by decide, same, fun h hh => ?_⟩
  rw [late h hh 0]
  decide

end Inquiry

end SecureEndpoint.Tls
