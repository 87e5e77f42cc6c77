/-
The context whose handles are snapshots, over any native library.

`State.call` is the plain reading of a call: it reads, checks and always builds anew, on values, so that a failure cannot
leave anything behind. The context itself changes its parts one by one and skips the build where the requirement stays.
`Built.follows` says that it comes to the same: from a context that is the build of what it recorded, a call succeeds
exactly where the plain reading does and ends in the same state, and a call that fails changes nothing at all.

The result is `native_is_last_build`: whatever was called, and whatever failed at any step, the native context in use is the
build of the last accepted material of each kind, and a handle leads ever after to the native context that it was taken for.
-/
import SecureEndpoint.Proofs.Tls.Calls
import SecureEndpoint.Tls.Snapshot

namespace SecureEndpoint.Tls.Snapshot

open Certificate Key
open Host (Path Files)

/-! ## The plain reading of a call -/

/-- what a context is, but for the native contexts that are no longer in use -/
structure State (N : Type) where
  role : Role
  certRequired : Bool
  material : Material
  native : N

namespace Load

def anchors? : Load → Option (List Certificate)
  | .anchors cs => some cs
  | _ => none

def directory? : Load → Option Path
  | .directory p => some p
  | _ => none

def chain? : Load → Option (List Certificate)
  | .chain cs => some cs
  | _ => none

def key? : Load → Option PrivateKey
  | .key k => some k
  | _ => none

def required? : Load → Option Bool
  | .certRequired b => some b
  | _ => none

/-- the requirement behind a load, from the one before it -/
def required (l : Load) (old : Bool) : Bool := l.required?.getD old

/-- only a requirement can be refused -/
def check (role : Role) : Load → Except TlsError Unit
  | .certRequired b => refuseUnverified role b
  | _ => .ok ()

end Load

/-- the material behind some loads: of each kind the last that was brought, and the old one where none was -/
def Material.after (m : Material) (ls : List Load) : Material where
  anchors := (last? Load.anchors? ls).getD m.anchors
  directory := (last? Load.directory? ls).or m.directory
  chain := (last? Load.chain? ls).getD m.chain
  key := (last? Load.key? ls).or m.key

theorem Material.after_cons (m : Material) (l : Load) (ls : List Load) : m.after (l :: ls) = (l.into m).after ls := by
  unfold Material.after
  simp only [getD_last?_cons]
  simp only [last?_cons, Option.or_assoc]
  cases l <;> rfl

variable {N : Type} {b : Builder N}

namespace State

/-- the state behind a load, which is always built anew -/
def rebuild (b : Builder N) (s : State N) (l : Load) : Except TlsError (State N) :=
  match l.check s.role with
  | .error e => .error e
  | .ok () =>
    (b.build s.role (l.required s.certRequired) (l.into s.material)).map fun native =>
      { s with certRequired := l.required s.certRequired, material := l.into s.material, native }

/-- the state behind a call -/
def call (b : Builder N) (files : Files) (s : State N) (x : Call) : Except TlsError (State N × List Event) :=
  match read files x with
  | .error e => .error e
  | .ok l => (s.rebuild b l).map fun d => (d, events s.role x l)

end State

namespace Context

def state (c : Context b) : State N := ⟨c.role, c.certRequired, c.material, c.handle⟩

/-- the context with a load and the native context that was built for it -/
def install (c : Context b) (l : Load) (n : N) : Context b :=
  { c with
    certRequired := l.required c.certRequired
    material := l.into c.material
    natives := c.natives.renew n }

/-- the native context in use is the build of what is recorded -/
def Built (c : Context b) : Prop := b.build c.role c.certRequired c.material = .ok c.handle

/-- a client does not go without verification -/
def Guarded (c : Context b) : Prop := refuseUnverified c.role c.certRequired = .ok ()

/-! ## What a call does -/

theorem update_on (c : Context b) (required : Bool) (change : Material → Material) :
    (update required change).on c =
      match b.build c.role required (change c.material) with
      | .error e => (.error e, c)
      | .ok n =>
        (.ok (), { c with certRequired := required, material := change c.material, natives := c.natives.renew n }) := by
  simp only [update, Operation.on_bind, Operation.on_get, Operation.on_lift]
  cases b.build c.role required (change c.material) with
  | error e => rfl
  | ok n => rfl

/-- every outcome of a load -/
inductive Taken (c : Context b) (l : Load) : Except TlsError Unit × Context b → Prop
  | refused {e : TlsError} (check : l.check c.role = .error e) : Taken c l (.error e, c)
  /-- the same requirement again -/
  | kept (same : l = .certRequired c.certRequired) (check : l.check c.role = .ok ()) : Taken c l (.ok (), c)
  | failed {e : TlsError} (check : l.check c.role = .ok ())
      (build : b.build c.role (l.required c.certRequired) (l.into c.material) = .error e) : Taken c l (.error e, c)
  | built {n : N} (check : l.check c.role = .ok ())
      (build : b.build c.role (l.required c.certRequired) (l.into c.material) = .ok n) :
      Taken c l (.ok (), c.install l n)

theorem taken_update (c : Context b) {l : Load} (check : l.check c.role = .ok ()) :
    c.Taken l ((update (l.required c.certRequired) l.into).on c) := by
  rw [update_on]
  cases h : b.build c.role (l.required c.certRequired) (l.into c.material) with
  | error e => exact .failed check h
  | ok n => exact .built check h

theorem taken_setCertRequired (c : Context b) (r : Bool) : c.Taken (.certRequired r) ((setCertRequired r).on c) := by
  unfold setCertRequired
  simp only [Operation.on_bind, Operation.on_get, Operation.on_lift]
  cases check : refuseUnverified c.role r with
  | error e => exact .refused check
  | ok u =>
    by_cases same : r = c.certRequired
    · simp only [if_pos same, Operation.on_pure]
      exact .kept (by rw [same]) check
    · simp only [if_neg same]
      exact c.taken_update (l := .certRequired r) check

theorem taken_take (c : Context b) (l : Load) : c.Taken l ((take l).on c) := by
  cases l with
  | certRequired r => exact c.taken_setCertRequired r
  | anchors | directory | chain | key =>
    simp only [take, Operation.on_bind, Operation.on_get]
    exact c.taken_update rfl

namespace Taken

variable {c d : Context b} {l : Load} {r : Except TlsError Unit}

theorem role (h : c.Taken l (r, d)) : d.role = c.role := by
  cases h <;> rfl

/-- a load that was taken is recorded -/
theorem recorded (h : c.Taken l (.ok (), d)) :
    d.certRequired = l.required c.certRequired ∧ d.material = l.into c.material := by
  cases h with
  | kept same check =>
    subst same
    exact ⟨rfl, rfl⟩
  | built check build => exact ⟨rfl, rfl⟩

/-- a load that was taken was not refused -/
theorem check (h : c.Taken l (.ok (), d)) : l.check c.role = .ok () := by
  cases h with
  | kept same check => exact check
  | built check build => exact check

theorem guarded (h : c.Taken l (r, d)) (hg : c.Guarded) : d.Guarded := by
  cases h with
  | refused check => exact hg
  | kept same check => exact hg
  | failed check build => exact hg
  | built check build =>
    cases l with
    | certRequired required => exact check
    | anchors | directory | chain | key => exact hg

theorem keeps_built (h : c.Taken l (r, d)) (hb : c.Built) : d.Built := by
  cases h with
  | refused check => exact hb
  | kept same check => exact hb
  | failed check build => exact hb
  | built check build =>
    unfold Built handle install
    rw [Shelf.value_renew]
    exact build

/-- no native context that was ever in use is touched -/
theorem keeps_native (h : c.Taken l (r, d)) {i : Nat} {n : N} (hn : c.natives.at? i = some n) :
    d.natives.at? i = some n := by
  cases h with
  | refused check => exact hn
  | kept same check => exact hn
  | failed check build => exact hn
  | built check build => exact Shelf.at?_renew hn _

end Taken

/-- every outcome of a call -/
inductive Called (files : Files) (c : Context b) (x : Call) : Context b × Except TlsError (List Event) → Prop
  | unread {e : TlsError} (read : read files x = .error e) : Called files c x (c, .error e)
  | failed {l : Load} {e : TlsError} (read : read files x = .ok l) (taken : c.Taken l (.error e, c)) :
      Called files c x (c, .error e)
  | done {l : Load} {d : Context b} (read : read files x = .ok l) (taken : c.Taken l (.ok (), d)) :
      Called files c x (d, .ok (events c.role x l))

theorem called_attempt (files : Files) (c : Context b) (x : Call) : Called files c x (attempt files c x) := by
  simp only [attempt, Endpoint.call, call, Operation.on_bind, Operation.on_lift]
  cases hread : read files x with
  | error e => exact .unread hread
  | ok l =>
    simp only
    have ht := c.taken_take l
    rcases h : (take l).on c with ⟨e | u, d⟩
    · rw [h] at ht
      have hd : d = c := by cases ht <;> rfl
      subst hd
      exact .failed hread ht
    · rw [h] at ht
      simp only [Operation.on_get, Operation.on_pure, Prod.swap_prod_mk, ht.role]
      exact .done hread ht

/-- what every outcome of a load keeps, every call keeps -/
theorem attempt_keeps {I : Context b → Prop} (keeps : ∀ {c d l r}, Taken c l (r, d) → I c → I d) (files : Files)
    (c : Context b) (x : Call) (h : I c) : I (attempt files c x).1 := by
  have hc := called_attempt files c x
  rcases ha : attempt files c x with ⟨d, r⟩
  rw [ha] at hc
  cases hc with
  | unread read => exact h
  | failed read taken => exact h
  | done read taken => exact keeps taken h

/-- a call that fails changes nothing, at whatever step it fails -/
theorem atomic : Atomic (Context b) := by
  intro files c x e h
  have hc := called_attempt files c x
  rcases ha : attempt files c x with ⟨d, r⟩
  rw [ha] at hc h
  subst h
  cases hc with
  | unread => rfl
  | failed => rfl

/-! ## What a history leaves -/

/-- a call does what the plain reading says -/
def Follows (files : Files) (c : Context b) (x : Call) : Prop :=
  match c.state.call b files x with
  | .ok (s, events) => ∃ d, attempt files c x = (d, .ok events) ∧ d.state = s
  | .error e => attempt files c x = (c, .error e)

/-- where the native context is the build of what is recorded, leaving out a build makes no difference -/
theorem Built.follows {c : Context b} (hb : c.Built) (files : Files) (x : Call) : Follows files c x := by
  have hc := called_attempt files c x
  unfold Follows State.call State.rebuild
  rcases ha : attempt files c x with ⟨d, r⟩
  rw [ha] at hc
  cases hc with
  | unread read => simp only [read]
  | failed read taken =>
    cases taken with
    | refused check => simp only [read, state, check, Except.map]
    | failed check build => simp only [read, state, check, build, Except.map]
  | done read taken =>
    cases taken with
    | kept same check =>
      -- the build that is left out would give the native context that is in use
      subst same
      have build : b.build c.role c.certRequired c.material = .ok c.handle := hb
      simp only [read, state, check, Load.required, Load.required?, Load.into, Option.getD_some, build, Except.map]
      exact ⟨c, rfl, rfl⟩
    | built check build =>
      simp only [read, state, check, build, Except.map]
      refine ⟨_, rfl, ?_⟩
      simp only [install, handle, Shelf.value_renew]

/-- what the accepted calls of a history brought -/
def loads (c : Context b) (xs : List (Files × Call)) : List Load :=
  (accepted c xs).filterMap fun x => (read x.1 x.2).toOption

/-- of each kind, the last thing that was accepted is what is recorded -/
theorem history_recorded (c : Context b) (xs : List (Files × Call)) :
    (history c xs).role = c.role ∧
      (history c xs).certRequired = (last? Load.required? (loads c xs)).getD c.certRequired ∧
      (history c xs).material = c.material.after (loads c xs) := by
  induction xs generalizing c with
  | nil => exact ⟨rfl, rfl, rfl⟩
  | cons x xs ih =>
    have hc := called_attempt x.1 c x.2
    rw [history_cons]
    rcases ha : attempt x.1 c x.2 with ⟨d, r⟩
    rw [ha] at hc
    cases hc with
    | unread read =>
      have hl : loads c (x :: xs) = loads c xs := by rw [loads, accepted_cons_error ha, loads]
      rw [hl]
      exact ih c
    | failed read taken =>
      have hl : loads c (x :: xs) = loads c xs := by rw [loads, accepted_cons_error ha, loads]
      rw [hl]
      exact ih c
    | @done l _ read taken =>
      have hl : loads c (x :: xs) = l :: loads d xs := by
        rw [loads, accepted_cons_ok ha, List.filterMap_cons_some (by rw [read]; rfl), loads]
      obtain ⟨hr, hm⟩ := taken.recorded
      obtain ⟨ihrole, ihr, ihm⟩ := ih d
      refine ⟨ihrole.trans taken.role, ?_, ?_⟩
      · rw [ihr, hl, getD_last?_cons, hr]
        rfl
      · rw [ihm, hl, Material.after_cons, hm]

theorem built_history {c : Context b} (h : c.Built) (xs : List (Files × Call)) : (history c xs).Built :=
  history_keeps (attempt_keeps Taken.keeps_built) h xs

/-- a handle that is taken now leads to the same native context after any further calls -/
theorem native_history (c : Context b) (xs : List (Files × Call)) :
    (history c xs).natives.at? c.natives.place = some c.handle :=
  history_keeps (I := fun d : Context b => d.natives.at? c.natives.place = some c.handle)
    (attempt_keeps fun taken h => taken.keeps_native h) c.natives.at?_place xs

theorem built_fresh {role : Role} {c : Context b} (h : fresh role = .ok c) :
    c.Built ∧ c.role = role ∧ c.certRequired = true ∧ c.material = {} := by
  unfold fresh at h
  cases hb : b.build role true {} with
  | error e => rw [hb] at h; cases h
  | ok n =>
    rw [hb] at h
    cases h
    exact ⟨hb, rfl, rfl, rfl⟩

/-- **The native context is the last build.** Take any native library and a context that it could begin with. After any
calls, each of them failing at any step or not, the context is the build of its role with the last accepted requirement and
the last accepted material of each kind; the next call does what it would do if it always built anew, and changes nothing
if it fails; and a handle taken now leads to the same native context after any further calls. So two histories that end
with the same requirement and the same material end in the same state. -/
theorem native_is_last_build {role : Role} {c₀ : Context b} (h : fresh role = .ok c₀) :
    (∀ xs, let c := history c₀ xs
      c.role = role ∧ c.certRequired = (last? Load.required? (loads c₀ xs)).getD true ∧
        c.material = ({} : Material).after (loads c₀ xs) ∧ b.build role c.certRequired c.material = .ok c.handle ∧
        (∀ files x, Follows files c x) ∧ (∀ files x e, (attempt files c x).2 = .error e → (attempt files c x).1 = c) ∧
        ∀ ys, (history c ys).natives.at? c.natives.place = some c.handle) ∧
      ∀ xs ys, (last? Load.required? (loads c₀ xs)).getD true = (last? Load.required? (loads c₀ ys)).getD true →
        ({} : Material).after (loads c₀ xs) = ({} : Material).after (loads c₀ ys) →
        (history c₀ xs).state = (history c₀ ys).state := by
  obtain ⟨hb, hrole, hreq, hmat⟩ := built_fresh h
  have recorded : ∀ xs, (history c₀ xs).role = role ∧
      (history c₀ xs).certRequired = (last? Load.required? (loads c₀ xs)).getD true ∧
      (history c₀ xs).material = ({} : Material).after (loads c₀ xs) := by
    intro xs
    rw [← hrole, ← hreq, ← hmat]
    exact history_recorded c₀ xs
  have built : ∀ xs, (history c₀ xs).Built := built_history hb
  constructor
  · intro xs c
    obtain ⟨role_eq, req_eq, mat_eq⟩ := recorded xs
    have hc : b.build role c.certRequired c.material = .ok c.handle := role_eq ▸ built xs
    exact ⟨role_eq, req_eq, mat_eq, hc, (built xs).follows, fun files x e => atomic files c x e, c.native_history⟩
  · intro xs ys same_req same_mat
    obtain ⟨role_x, req_x, mat_x⟩ := recorded xs
    obtain ⟨role_y, req_y, mat_y⟩ := recorded ys
    have hr : (history c₀ xs).certRequired = (history c₀ ys).certRequired := by rw [req_x, req_y, same_req]
    have hm : (history c₀ xs).material = (history c₀ ys).material := by rw [mat_x, mat_y, same_mat]
    -- both native contexts are the build of the same
    have hn : (history c₀ xs).handle = (history c₀ ys).handle := by
      have hx := built xs
      unfold Built at hx
      rw [role_x, hr, hm, ← role_y, built ys] at hx
      exact (Except.ok.inj hx).symm
    simp only [state, role_x, role_y, hr, hm, hn]

/-- a working directory with one directory in it -/
def oneDirectory : Files := { directories := [[[99, 97]]] }

/-- a directory, no requirement, and a file that is not there -/
def straight : List (Files × Call) :=
  [(oneDirectory, .anchorDirectory [99, 97]), (oneDirectory, .certRequired false), (oneDirectory, .anchorFile [98])]

/-- the same in another order, with a requirement that is taken back -/
def roundabout : List (Files × Call) :=
  [(oneDirectory, .certRequired false), (oneDirectory, .certRequired true), (oneDirectory, .anchorDirectory [99, 97]),
    (oneDirectory, .keyFile [98]), (oneDirectory, .certRequired false)]

theorem native_is_last_build_roundabout : ∃ c₀ : SnapshotContext, fresh .server = .ok c₀ ∧
    loads c₀ straight = [.directory [99, 97], .certRequired false] ∧
    (history c₀ straight).state = (history c₀ roundabout).state ∧
    (history c₀ straight).natives.at? c₀.natives.place = some c₀.handle ∧
    c₀.handle.directory = none ∧ (history c₀ straight).handle.directory = some "ca" := by
  obtain ⟨c₀, h⟩ : ∃ c, (fresh .server : Except TlsError SnapshotContext) = .ok c := ⟨_, rfl⟩
  obtain ⟨reach, same⟩ := native_is_last_build h
  refine ⟨c₀, h, ?_, same _ _ ?_ ?_, ?_, ?_, ?_⟩
  · cases h
    rfl
  · cases h
    rfl
  · cases h
    rfl
  · exact (reach []).2.2.2.2.2.2 straight
  · cases h
    rfl
  · cases h
    rfl

end Context

end SecureEndpoint.Tls.Snapshot
