/-
Dropping a pool always ends it.

A thread, from outside or a worker inside of a job, drops the last handle of a pool. Nobody else uses the pool then
(`Machine.leftBy`), and nobody restarts its dispatcher; others may go on with everything else, and stop the dispatcher too.
- `departs_begin`: the drop begins at the first place of one of the three ways.
- `departs_move`, `drop_run`: it is at one of the places of this way until it returns, and no worker is lost meanwhile.
- `departs_nearer`, `Departs.goes_on`: it can always go on or waits for another thread, and it does not go on forever.
- `drop_ends`: all of it, and what the pool is like for good once the drop has returned.
-/
import SecureEndpoint.Proofs.Workers.Leaving
import SecureEndpoint.Proofs.Workers.Waiting

namespace SecureEndpoint.Workers

/-! ## A run of a drop -/

namespace Machine

/-- thread `t` is giving up the pool of size `n`, and whoever has to be joined is accounted for -/
structure Departs (n : Nat) (t : ThreadId) (way : Way) (m : Machine) : Prop where
  size : m.shared.size = n
  room : m.shared.handles.length ≤ n
  place : ∃ f below, m.stackOf t = f :: below ∧ Quits t way m.shared f below ∧ (way = .idle → f = .drop .read)
  enrolled : way ≠ .inside → ∀ i, m.ActiveWorker i →
    i ∈ m.shared.handles ∨ ∃ j rest, .stop (.join rest) ∈ m.stackOf j ∧ i ∈ rest

/-- the pool has been given up this way -/
structure Departed (way : Way) (m : Machine) : Prop where
  done : way.Done m.shared
  abandoned : m.abandoned
  joined : way ≠ .inside → ∀ i, ¬ m.ActiveWorker i

section

variable {m m' : Machine} {n : Nat} {t i : ThreadId} {way : Way} {th : Thread} {f : Frame} {below : List Frame} {e : Effect}

theorem stands_of_hosts (h : f.hosts) : f.kind.stands := by
  cases f <;> first | rfl | cases h

/-- nobody but thread `t` joins anybody, or stops or drops the pool -/
theorem leftBy_alone (left : m.leftBy t) (hf : f ∈ m.stackOf i) (hk : f.kind.needsPool) : i = t := by
  by_contra hi
  have hstands := (leftBy_iff.1 left).2.1 i hi f hf
  simp [Kind.stands, hk] at hstands

theorem Departs.unstarted (h : m.Departs n t way) (left : m.leftBy t) : ¬ ∃ i k, .start (.spawn k) ∈ m.stackOf i := by
  rintro ⟨i, k, hk⟩
  obtain ⟨f, below, hs, hq, -⟩ := h.place
  rw [leftBy_alone left hk rfl, hs] at hk
  exact hq.others.1 _ hk rfl

/-- as long as the others go on, the drop stays where it is -/
theorem departs_others {w : Option (Stage × Change)} (h : m.Departs n t way) (left : m.leftBy t) (mv : m.Moved m' w)
    (same : m'.stackOf t = m.stackOf t) (keeps : m.shared.Keeps m'.shared) : m'.Departs n t way := by
  obtain ⟨f, below, hs, ⟨hplace, hbelow, haway⟩, hidle⟩ := h.place
  refine ⟨(move_settings mv).1.trans h.size, by rw [keeps.handles]; exact h.room,
    ⟨f, below, same.trans hs, ⟨leaves_keeps keeps hplace, hbelow, ?_⟩, hidle⟩, fun hway i hi => ?_⟩
  · rw [keeps.handles]
    exact haway
  · have hactive := (active_move mv hi).resolve_right (h.unstarted left)
    rcases h.enrolled hway i hactive with hin | ⟨j, rest, hj, hin⟩
    · exact .inl (keeps.handles ▸ hin)
    · obtain rfl := leftBy_alone left hj rfl
      exact .inr ⟨j, rest, same ▸ hj, hin⟩

/-- where the drop has returned, nobody uses the pool any more -/
theorem abandoned_own (left : m.leftBy t) (s : m.StepOf m' t th f below e) (hk : f.kind = .drop)
    (low : ∀ g ∈ below, g.hosts) (hret : e.own = .ret .unit) : m'.abandoned := by
  refine abandoned_iff.2 fun i g hg => ?_
  by_cases hi : i = t
  · rw [hi, s.after, hret] at hg
    obtain ⟨b, hb, rfl⟩ := List.mem_map.1 hg
    rw [kind_calm]
    rcases mem_stack hb with hb | hb | ⟨c, hc, v, rfl⟩
    · cases hb
    · exact stands_of_hosts (low b hb)
    · rw [kind_receive]
      exact stands_of_hosts (low c hc)
  · rw [s.stackAt, if_neg hi] at hg
    split at hg
    · cases hsp : e.spawn with
      | none => simp [hsp] at hg
      | some k =>
        obtain ⟨rfl, -⟩ := s.go.spawned hsp
        cases hk
    · exact (leftBy_iff.1 left).2.1 i hi g hg

/-- where the drop has returned, nobody joins anybody any more -/
theorem unjoined_own (left : m.leftBy t) (s : m.StepOf m' t th f below e) (low : ∀ g ∈ below, g.hosts)
    (hret : e.own = .ret .unit) (rest : List ThreadId) : .stop (.join rest) ∉ m'.stackOf i := by
  intro hj
  rcases mem_step s rfl hj with ⟨-, hnew⟩ | ⟨hold, hbelow⟩
  · rw [hret] at hnew
    cases hnew
  · obtain ⟨b, hb, hcalm⟩ := List.mem_map.1 (hbelow (leftBy_alone left hold rfl))
    have hhost := low b hb
    rw [← hosts_calm, hcalm] at hhost
    cases hhost

/-- a drop adds no handles -/
theorem handles_own (s : m.StepOf m' t th f below e) (hq : Quits t way m.shared f below) :
    m'.shared.handles.length ≤ m.shared.handles.length := by
  rw [s.writes.handles]
  unfold Frame.handlesAfter
  split
  · exact hq.place.elim
  · exact Nat.zero_le _
  · exact Nat.zero_le _
  · exact Nat.le_refl _

/-- the dropping thread goes on, or returns -/
theorem departs_own (hm : m.Sound) (h : m.Departs n t way) (left : m.leftBy t) (s : m.StepOf m' t th f below e) :
    m'.Departs n t way ∨ m'.Departed way := by
  obtain ⟨g, low, hs, hq, hidle⟩ := h.place
  rw [s.before] at hs
  cases hs
  have hq := quits_calm.1 hq
  have henrolled : way ≠ .inside → ∀ i, m'.ActiveWorker i →
      i ∈ m'.shared.handles ∨ ∃ j rest, .stop (.join rest) ∈ m'.stackOf j ∧ i ∈ rest := by
    refine fun hway i hi => enrolled_step hm ?_ (h.enrolled hway) s hi
    rintro rfl
    exact hway hq.place.1
  have hstep : (e.own.Quits t way e.shared below ∧ way ≠ .idle) ∨
      (f.kind = .drop ∧ e.own = .ret .unit ∧ way.Done e.shared) := by
    by_cases hway : way = .idle
    · subst hway
      obtain rfl := eq_of_calm (hidle rfl) rfl
      obtain ⟨hret, -, hdone⟩ := quits_idle s.go hq.place
      exact .inr ⟨rfl, hret, hdone⟩
    · exact (quits_own s.go (s.nested hm.formed) hq).imp_left fun hq => ⟨hq, hway⟩
  rcases hstep with ⟨⟨g, rest, hstack, hq'⟩, hway⟩ | ⟨hk, hret, hdone⟩
  · have hshared : m'.shared = e.shared := by
      rw [s.shared, unlocks_of_ne]
      intro hu
      rw [hu] at hstack
      cases hstack
    refine .inl ⟨s.writes.size.trans h.size, Nat.le_trans (handles_own s hq) h.room,
      ⟨g.calm, rest.map Frame.calm, ?_, ?_, fun h => absurd h hway⟩, henrolled⟩
    · rw [s.after, hstack]
      rfl
    · rw [hshared]
      exact quits_calm.2 hq'
  · have hshared : m'.shared = e.shared := by rw [s.shared, hret]; rfl
    have hlow := hq.below
    rw [hk, beneath_drop] at hlow
    refine .inr ⟨hshared ▸ hdone, abandoned_own left s hk hlow hret, fun hway i hi => ?_⟩
    rcases henrolled hway i hi with hin | ⟨j, rest, hj, -⟩
    · rw [hshared, hdone.handles] at hin
      cases hin
    · exact unjoined_own left s hlow hret rest hj

/-- a move is a step of the dropping thread, or leaves its activations, the stage and the handles as they are -/
theorem left_move {w : Option (Stage × Change)} (h : m.Departs n t way) (left : m.leftBy t) (mv : m.Moved m' w) :
    (∃ th f below e, m.StepOf m' t th f below e) ∨ m'.stackOf t = m.stackOf t ∧ m.shared.Keeps m'.shared := by
  cases mv with
  | @step i th f below e s =>
    by_cases hi : i = t
    · subst hi
      exact .inl ⟨th, f, below, e, s⟩
    · obtain ⟨hkeeps, hspawn⟩ := s.keeps (by rw [← kind_calm]; exact (leftBy_iff.1 left).2.1 i hi f.calm s.mem)
      refine .inr ⟨?_, hkeeps⟩
      rw [s.stackAt, if_neg (Ne.symm hi), hspawn]
      split
      · rename_i hlen
        rw [hlen, stackOf_length]
        rfl
      · rfl
  | still gates hsh hr => exact .inr ⟨stackOf_still hr t, by rw [hsh]; exact ⟨rfl, rfl, id⟩⟩
  | @call i th c ht hw hs hsh hr =>
    refine .inr ⟨?_, by rw [hsh]; exact .refl _⟩
    rw [stackOf_call ht hr, if_neg]
    rintro rfl
    obtain ⟨f, below, hstack, -⟩ := h.place
    simp [stackOf, ht, hs] at hstack
  | enter hsh hr => exact .inr ⟨stackOf_enter hr t, by rw [hsh]; exact .refl _⟩

/-- **One move at a time.** -/
theorem departs_move {w : Option (Stage × Change)} (hm : m.Sound) (h : m.Departs n t way) (left : m.leftBy t)
    (mv : m.Moved m' w) : m'.Departs n t way ∨ m'.Departed way := by
  rcases left_move h left mv with ⟨th, f, below, e, s⟩ | ⟨hsame, hkeeps⟩
  · exact departs_own hm h left s
  · exact .inl (departs_others h left mv hsame hkeeps)

/-- a step of the dropping thread brings it nearer to its end, and nothing brings it away from there -/
theorem departs_nearer {mv : Move} (hm : m.Sound) (h : m.Departs n t way) (left : m.leftBy t) (hmove : m.move mv = some m') :
    wayToGo n (m'.stackOf t) ≤ wayToGo n (m.stackOf t) ∧
      ∀ ch, mv = .step t ch → wayToGo n (m'.stackOf t) < wayToGo n (m.stackOf t) := by
  have own : ∀ {th f below e}, m.StepOf m' t th f below e → wayToGo n (m'.stackOf t) < wayToGo n (m.stackOf t) := by
    intro th f below e s
    obtain ⟨g, low, hs, hq, -⟩ := h.place
    rw [s.before] at hs
    cases hs
    rw [s.after, s.before, ← List.map_cons, wayToGo_calm, wayToGo_calm]
    exact quits_nearer s.go (s.nested hm.formed) (quits_calm.1 hq) h.size h.room
  refine ⟨?_, ?_⟩
  · rcases left_move h left (hm.moved hmove) with ⟨th, f, below, e, s⟩ | ⟨hsame, -⟩
    · exact Nat.le_of_lt (own s)
    · rw [hsame]
  · rintro ch rfl
    obtain ⟨th, f, below, e, s, -⟩ := hm.stepped hmove
    exact own s

/-- the dropping thread can go on, or waits for another thread -/
theorem Departs.goes_on (hm : m.Sound) (h : m.Departs n t way) :
    (∃ ch, (m.move (.step t ch)).isSome) ∨ ∃ u, u ≠ t ∧ m.WaitsFor t u := by
  obtain ⟨f, low, hs, hq, -⟩ := h.place
  cases ht : m.threads[t]? with
  | none => simp [stackOf, roster, ht] at hs
  | some th =>
    cases hstack : th.stack with
    | nil => simp [stackOf, roster, ht, Thread.calm, hstack] at hs
    | cons g below =>
      rw [stackOf_top ht hstack] at hs
      cases hs
      have hplace := (quits_calm.1 hq).place
      rcases stands ht hstack with hgo | ⟨u, hwaits⟩ | hrests
      · exact .inl hgo
      · refine .inr ⟨u, ?_, hwaits⟩
        rintro rfl
        cases hwaits with
        | lock hwants hheld =>
          obtain ⟨th', f', below', g', ht', hs', htakes⟩ := hwants
          exact hm.waits_for_others ht' hs' htakes hheld
        | join ht' hs' _ _ =>
          obtain rfl := Option.some.inj (ht.symm.trans ht')
          cases hstack.symm.trans hs'
          exact hplace.2.2.2 (.head _)
      · cases g <;> first | (cases hrests; done) | exact hplace.elim

/-- below a drop there are only jobs, loops and the worker itself -/
theorem hosts_of_drop {w : Option Nat} {p : DropPlace} (h : Nested w (.drop p :: below)) : ∀ g ∈ below, g.hosts := by
  cases h with
  | outside => nofun
  | call lower hc =>
    cases hc with
    | action =>
      intro g hg
      rcases List.mem_cons.1 hg with rfl | hg
      · rfl
      · exact lower.hosts rfl g hg

/-- where a drop is about to begin, it is the only use of the pool -/
theorem drop_alone (hm : m.Sound) (left : m.leftBy t) (read : m.stackOf t = .drop .read :: below) :
    (∀ g ∈ below, g.hosts) ∧ ∀ i, ∀ g ∈ m.stackOf i, g.kind.needsPool → g = .drop .read := by
  obtain ⟨u, hu⟩ : ∃ u, m.roster[t]? = some u := by
    cases hu : m.roster[t]? with
    | none => simp [stackOf, hu] at read
    | some u => exact ⟨u, rfl⟩
  have hlow : ∀ g ∈ below, g.hosts := hosts_of_drop (read ▸ hm.formed.nested hu)
  refine ⟨hlow, fun i g hg hk => ?_⟩
  obtain rfl := leftBy_alone left hg hk
  rw [read] at hg
  rcases List.mem_cons.1 hg with hg | hg
  · exact hg
  · have hstands := stands_of_hosts (hlow g hg)
    simp [Kind.stands, hk] at hstands

/-- **The beginning of a drop.** On a pool that nobody else uses, it goes one of the three ways. -/
theorem departs_begin (hm : m.Sound) (hc : m.OneCloser) (custody : m.Custody) (left : m.leftBy t)
    (read : m.stackOf t = .drop .read :: below) :
    ∃ way, m.Departs m.shared.size t way ∧ (m.ActiveWorker t ↔ way = .inside) ∧ (m.shared.stage = .stopped ↔ way = .idle) := by
  obtain ⟨hlow, halone⟩ := drop_alone hm left read
  have hclosing : m.shared.stage ≠ .closing := by
    intro hg
    have hpos : 0 < m.tally Frame.closes := by rw [hc, if_pos hg]; exact Nat.one_pos
    obtain ⟨g, hgm, hcloses⟩ := List.countP_pos_iff.1 hpos
    obtain ⟨i, hi⟩ := exists_mem_stackOf hgm
    obtain rfl := halone i g hi (by cases g <;> first | rfl | cases hcloses)
    cases hcloses
  have henrolled : ∀ i, m.ActiveWorker i → i ∈ m.shared.handles := by
    intro i hi
    refine (custody.enrolled i hi).resolve_right ?_
    rintro ⟨j, rest, hj, -⟩
    cases halone j _ hj rfl
  have hworker : t ∈ m.shared.handles → m.ActiveWorker t := fun hin => by
    obtain ⟨k, hk⟩ := List.getElem?_of_mem hin
    obtain ⟨v, hv, hname⟩ := custody.named k t hk
    refine ⟨v, hv, by rw [hname]; rfl, fun hnil => ?_⟩
    simp [stackOf, hv, hnil] at read
  have departs : ∀ {way : Way}, way.Begins t m.shared → (way = .outside → t ∉ m.shared.handles) →
      m.Departs m.shared.size t way := fun hb ha =>
    ⟨rfl, custody.room, ⟨_, below, read, ⟨hb, beneath_drop.2 hlow, ha⟩, fun _ => rfl⟩, fun _ => custody.enrolled⟩
  by_cases hstop : m.shared.stage = .stopped
  · have hnil := (custody.empty (.inl hstop)).1
    refine ⟨.idle, departs ⟨hstop, hnil⟩ (absurd · (by decide)), iff_of_false (fun hact => ?_) (by decide),
      iff_of_true hstop rfl⟩
    have hin := henrolled t hact
    rw [hnil] at hin
    cases hin
  · have hopened : m.shared.Opened := by
      cases hg : m.shared.stage with
      | stopped => exact absurd hg hstop
      | closing => exact absurd hg hclosing
      | running => exact .inl hg
      | paused => exact .inr hg
    by_cases hin : t ∈ m.shared.handles
    · exact ⟨.inside, departs ⟨hopened, hin⟩ (absurd · (by decide)), iff_of_true (hworker hin) rfl,
        iff_of_false hstop (by decide)⟩
    · exact ⟨.outside, departs ⟨hopened, hin⟩ fun _ => hin, iff_of_false (fun hact => hin (henrolled t hact)) (by decide),
        iff_of_false hstop (by decide)⟩

/-- the dropping thread is inside of the drop -/
theorem Departs.inside (h : m.Departs n t way) : ∃ f ∈ m.stackOf t, f.kind = .drop := by
  obtain ⟨f, below, hs, hq, -⟩ := h.place
  obtain ⟨g, hg, hk⟩ := List.mem_map.1 (List.map_cons ▸ beneath_kind hq.below : Kind.drop ∈ (f :: below).map Frame.kind)
  exact ⟨g, hs ▸ hg, hk⟩

/-- **A drop stays at its places until it returns.** -/
theorem drop_run {hist : List (Stage × Change)} (hm : m.Sound) (h : m.Departs n t way) (left : m.leftBy t)
    (r : m.Run (·.leftBy t) hist m') : m'.Sound ∧ m'.leftBy t ∧ m'.Departs n t way := by
  refine r.keeps (I := fun m => m.leftBy t ∧ m.Departs n t way) hm ⟨left, h⟩ fun {a b w} ha ⟨hleft, hdep⟩ mv hb => ⟨hb, ?_⟩
  refine (departs_move ha hdep hleft mv).resolve_right fun hgone => ?_
  obtain ⟨-, -, f, hf, hk⟩ := leftBy_iff.1 hb
  have hstands := abandoned_iff.1 hgone.abandoned t f hf
  rw [hk] at hstands
  cases hstands

/-- the move after which thread `t` is not inside of the drop any more ends it -/
theorem drop_returns {mv : Move} (hm : m.Sound) (left : m.leftBy t) (h : m.Departs n t way) (hmove : m.move mv = some m')
    (returned : ∀ f ∈ m'.stackOf t, f.kind ≠ .drop) : m'.Departed way := by
  refine (departs_move hm h left (hm.moved hmove)).resolve_left fun hdep => ?_
  obtain ⟨f, hf, hk⟩ := hdep.inside
  exact returned f hf hk

/-- while a thread drops the pool, nobody joins itself -/
theorem Departs.joins (h : m.Departs n t way) (left : m.leftBy t) {rest : List ThreadId}
    (hj : .stop (.join rest) ∈ m.stackOf i) : i = t ∧ t ∉ rest ∧ way = .outside := by
  obtain rfl := leftBy_alone left hj rfl
  obtain ⟨f, below, hs, hq, -⟩ := h.place
  rw [hs] at hj
  rcases List.mem_cons.1 hj with rfl | hj
  · exact ⟨rfl, hq.place.2.2.2, hq.place.1⟩
  · exact absurd hj (hq.others.2 rest)

/-- the only step of a drop of a stopped pool changes nothing that the threads share -/
theorem Departs.idle (hm : m.Sound) (h : m.Departs n t .idle) : (∃ low, m.stackOf t = .drop .read :: low) ∧
    ∀ ch m', m.move (.step t ch) = some m' → m'.shared = m.shared := by
  obtain ⟨f, below, hs, hq, hread⟩ := h.place
  obtain rfl := hread rfl
  refine ⟨⟨below, hs⟩, fun ch m' hmove => ?_⟩
  obtain ⟨th, f, low, e, s, -, -, -⟩ := hm.stepped hmove
  rw [s.before] at hs
  obtain ⟨hcalm, -⟩ := List.cons.inj hs
  obtain rfl := eq_of_calm hcalm rfl
  obtain ⟨hret, hshared, -⟩ := quits_idle s.go hq.place
  rw [s.shared, hret, ← hshared]
  rfl

end

/-! ## The result -/

/-- no worker takes a job from a stopped dispatcher, and a worker that has ended takes nothing -/
theorem Remains.takes {m a : Machine} {way : Way} (h : m.Remains a) (gone : m.Departed way) {i : ThreadId} {ch : Choice}
    {a' : Machine} (hi : a.ActiveWorker i) (hmove : a.move (.step i ch) = some a') : a'.shared.taken = a.shared.taken := by
  by_cases hway : way = .inside
  · have hhalted := h.keeps.halted (gone.done.halted (by rw [hway]; decide))
    exact (held_move h.dispatches hhalted (held_rest a) (h.sound.moved hmove)).taken
  · exact absurd (h.active i hi) (gone.joined hway i)

/-- **Dropping a pool always ends it.** A thread, from outside or a worker inside of a job, drops the last handle of the pool;
nobody else uses the pool, and nobody restarts its dispatcher. Until the drop returns, only the dropping thread joins
anybody, and never itself; a worker that drops joins nobody. The drop can go on or waits for another thread, and each of its
steps brings it nearer to its end. A stopped pool is left as it is, its dispatcher included. Once the drop has returned, and
for good, no worker takes a job any more, and what waits in the queue stays there. Dropped from outside, the pool is stopped
and all its workers have ended; dropped on a worker, it is in its last stage, and each of its workers only finishes its job
and ends. -/
theorem drop_ends {a b c : Machine} {hist hist' : List (Stage × Change)} {size : Nat} {stem : String} {mv : Move}
    {t : ThreadId} {low : List Frame} (r : Run (·.kept) (fresh size stem true) hist a) (begins : a.move mv = some b)
    (read : b.stackOf t = .drop .read :: low) (left : b.leftBy t) (going : b.Run (·.leftBy t) hist' c) :
    (∀ i rest, .stop (.join rest) ∈ c.stackOf i → i = t ∧ t ∉ rest ∧ ¬ b.ActiveWorker t) ∧
      ((∃ ch, (c.move (.step t ch)).isSome) ∨ ∃ u, u ≠ t ∧ c.WaitsFor t u) ∧
      (∀ mv d, c.move mv = some d → wayToGo size (d.stackOf t) ≤ wayToGo size (c.stackOf t) ∧
        ∀ ch, mv = .step t ch → wayToGo size (d.stackOf t) < wayToGo size (c.stackOf t)) ∧
      (b.shared.stage = .stopped →
        (∃ low, c.stackOf t = .drop .read :: low) ∧ ∀ ch d, c.move (.step t ch) = some d → d.shared = c.shared) ∧
      ∀ mv d, c.move mv = some d → (∀ f ∈ d.stackOf t, f.kind ≠ .drop) → ∀ {hist'' e}, d.Run (·.abandoned) hist'' e →
        (¬ b.ActiveWorker t → e.Over) ∧ (b.ActiveWorker t → e.Fading) ∧
          (∀ i ch e', e.ActiveWorker i → e.move (.step i ch) = some e' → e'.shared.taken = e.shared.taken) ∧
          (b.shared.stage ≠ .stopped → d.Held e) ∧
          e.shared.taken ++ e.shared.dispatcher.queue = e.shared.posted := by
  obtain ⟨ha, hsize, -⟩ := orderly_run r
  have hb := sound_move ha.sound (ha.sound.moved begins)
  obtain ⟨way, hdep, hworker, hidle⟩ := departs_begin hb (closing_move ha.sound ha.kept ha.closer (ha.sound.moved begins))
    (custody_move ha.sound ha.manned ha.closer ha.custody (ha.sound.moved begins)) left read
  rw [(move_settings (ha.sound.moved begins)).1, hsize] at hdep
  obtain ⟨hc, hleft, hdep⟩ := drop_run hb hdep left going
  refine ⟨fun i rest hj => ?_, hdep.goes_on hc, fun mv d => departs_nearer hc hdep hleft, fun hstop => ?_,
    fun mv d hmove returned hist'' e later => ?_⟩
  · obtain ⟨hi, hout, hway⟩ := hdep.joins hleft hj
    refine ⟨hi, hout, fun hact => ?_⟩
    cases hway.symm.trans (hworker.1 hact)
  · obtain rfl := hidle.1 hstop
    exact hdep.idle hc
  · have gone := drop_returns hc hleft hdep hmove returned
    have upto : Run (fun _ => True) (fresh size stem true) _ d :=
      (((r.weaken fun _ _ => trivial).move begins trivial).trans (going.weaken fun _ _ => trivial)).move hmove trivial
    have whole := upto.trans (later.weaken fun _ _ => trivial)
    obtain ⟨hd, hdispatches, -⟩ := taken_then_queued upto
    have remains := abandoned_run hd gone.abandoned hdispatches later
    refine ⟨fun hout => ?_, fun hact => ?_, fun i ch e' => remains.takes gone, fun hopen => ?_, (taken_then_queued whole).2.2⟩
    · have hway : way ≠ .inside := fun h => hout (hworker.2 h)
      exact remains.ended (gone.done.stage.trans (if_neg hway)) gone.done.handles (gone.joined hway)
    · obtain rfl := hworker.1 hact
      exact remains.fading (alert_run whole).2 gone.done.stage gone.done.handles (gone.done.halted (by decide))
    · exact remains.held (gone.done.halted fun h => hopen (hidle.2 h))

/-- a pool of two is started, two jobs are posted, and the worker that takes the first one drops the pool inside of it -/
def droppedInside : List Move :=
  [Move.enter, .call 0 .start] ++ steps 0 11 ++ [Move.call 0 (.post ⟨"a", [.other .dropPool], false⟩)] ++ steps 0 3 ++
    [Move.call 0 (.post ⟨"b", [], false⟩)] ++ steps 0 3 ++ steps 1 5

theorem drop_ends_inside : ∃ hist a b c d e, Run (·.kept) (fresh 2 "w" true) hist a ∧ a.move (.step 1 {}) = some b ∧
    b.ActiveWorker 1 ∧ b.Run (·.leftBy 1) [(.running, .shutdown)] c ∧ c.move (.step 1 {}) = some d ∧
    d.Run (·.abandoned) [] e ∧ e.threads.countP Thread.works = 1 ∧ e.Fading ∧ d.Held e ∧
    e.shared.dispatcher.queue.map (·.id) = ["b"] := by
  have hf : (((fresh 2 "w" true).follow kept [] droppedInside).bind fun p => (p.2.move (.step 1 {})).bind fun b =>
      (b.follow (·.leftBy 1) [] (steps 1 17)).bind fun q => (q.2.move (.step 1 {})).bind fun d =>
        (d.follow (·.abandoned) [] (steps 1 8 ++ steps 2 3)).map fun u =>
          ((b.stackOf 1).head?, b.leftBy 1, b.shared.stage,
            (b.roster[1]?).map fun th => (th.worker.isSome, th.stack.isEmpty), q.1,
            (d.stackOf 1).all fun f => f.kind ≠ .drop, u.1, u.2.threads.countP Thread.works,
            u.2.shared.dispatcher.queue.map (·.id))) =
      some (some (.drop .read), true, .running, some (true, false), [(.running, .shutdown)], true, [], 1, ["b"]) := by cbv
  obtain ⟨⟨hist, a⟩, ha, hf⟩ := Option.bind_eq_some_iff.1 hf
  obtain ⟨b, hb, hf⟩ := Option.bind_eq_some_iff.1 hf
  obtain ⟨⟨hist', c⟩, hc, hf⟩ := Option.bind_eq_some_iff.1 hf
  obtain ⟨d, hd, hf⟩ := Option.bind_eq_some_iff.1 hf
  obtain ⟨⟨hist'', e⟩, he, hf⟩ := Option.map_eq_some_iff.1 hf
  simp only [Prod.mk.injEq] at hf
  obtain ⟨htop, hleft, hstage, hworker, rfl, hreturned, rfl, hworks, hqueue⟩ := hf
  obtain ⟨low, hread⟩ := List.head?_eq_some_iff.1 htop
  obtain ⟨u, hu, hactive⟩ := Option.map_eq_some_iff.1 hworker
  obtain ⟨hsome, hnonempty⟩ := Prod.mk.inj hactive
  have active : b.ActiveWorker 1 := ⟨u, hu, hsome, fun hnil => by simp [hnil] at hnonempty⟩
  have r := run_follow .rest ha
  have going := run_follow .rest hc
  have later := run_follow .rest he
  obtain ⟨-, -, -, -, hends⟩ := drop_ends r hb hread hleft going
  obtain ⟨-, hfading, -, hheld, -⟩ := hends _ d hd (by simpa using hreturned) later
  exact ⟨hist, a, b, c, d, e, r, hb, active, going, hd, later, hworks, hfading active, hheld (by rw [hstage]; decide), hqueue⟩

end Machine

end SecureEndpoint.Workers
