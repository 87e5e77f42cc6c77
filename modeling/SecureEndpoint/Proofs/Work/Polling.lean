/-
A dispatcher that a single thread polls: every loop comes to an end, and every job is accounted for.

`Solo.poll` and `Solo.pollOne` give what is left at the end. That this is what the steps of `Situation.step` lead to, from any
dispatcher and under any stack, is shown along the recursion of the loops and the jobs (`loop_shows`, `once_shows`,
`perform_shows`), which goes down because the jobs that wait and the actions that remain become lighter. `Turns` and `Shows`
put such runs together: a call goes on top of the stack and is removed when it returns (`Turns.returns`), or takes its caller
with it when it panics (`Turns.breaks`). `Tells` keeps what is written down, the log included, in step with the events.

`polling_accounted` is the result: the laws of such runs, for whole loops.
-/
import SecureEndpoint.Proofs.Work.Stack
import SecureEndpoint.Work.Alone

namespace SecureEndpoint.Work

open Event Situation

/-- it ended with a panic -/
def End.panics {α : Type} : End α → Bool
  | .returned _ => false
  | .panicked => true

/-- the job that began, if the line says so -/
def Note.began? : Note → Option String
  | .ran id => some id
  | .result .. => none

namespace Solo

variable {s t u : Solo} {j : Job Empty} {id name : String} {n : Nat} {actions inner rest : List (Action Empty)}
  {events es fs : List Event}

/-! ## What the loops and the jobs give, without what they promise -/

theorem loop_idle (h : s.take? = none) : (s.loop n).1 = (s.count n, .returned n) := by
  rw [loop]
  split
  · rfl
  · rename_i found
    cases h.symm.trans found

theorem loop_taking (h : s.take? = some (j, t)) :
    (s.loop n).1 =
      match (perform j.id j.actions t).1 with
      | (u, .panicked) => (u, .panicked)
      | (u, .returned ()) => (u.loop (n + 1)).1 := by
  rw [loop]
  split
  · rename_i none
    cases h.symm.trans none
  · rename_i found
    cases h.symm.trans found
    dsimp only
    rcases perform j.id j.actions t with ⟨⟨u, _ | _⟩, hu⟩ <;> rfl

theorem once_idle (h : s.take? = none) : s.once.1 = (s.count 0, .returned 0) := by
  rw [once]
  split
  · rfl
  · rename_i found
    cases h.symm.trans found

theorem once_taking (h : s.take? = some (j, t)) :
    s.once.1 =
      match (perform j.id j.actions t).1 with
      | (u, .panicked) => (u, .panicked)
      | (u, .returned ()) => (u.count 1, .returned 1) := by
  rw [once]
  split
  · rename_i none
    cases h.symm.trans none
  · rename_i found
    cases h.symm.trans found
    dsimp only
    rcases perform j.id j.actions t with ⟨⟨u, _ | _⟩, hu⟩ <;> rfl

theorem perform_poll (id : String) (rest : List (Action Empty)) (s : Solo) :
    (perform id (.poll :: rest) s).1 =
      match (s.loop 0).1 with
      | (t, .panicked) => (t, .panicked)
      | (t, .returned n) => (perform id rest (t.note (.result id "poll" (toString n)))).1 := by
  rw [perform]
  rcases s.loop 0 with ⟨⟨t, _ | _⟩, ht⟩ <;> rfl

theorem perform_pollOne (id : String) (rest : List (Action Empty)) (s : Solo) :
    (perform id (.pollOne :: rest) s).1 =
      match s.once.1 with
      | (t, .panicked) => (t, .panicked)
      | (t, .returned n) => (perform id rest (t.note (.result id "poll_one" (toString n)))).1 := by
  rw [perform]
  rcases s.once with ⟨⟨t, _ | _⟩, ht⟩ <;> rfl

/-! ## What is written down -/

/-- what is written down goes on from `s` to `t` as the events say -/
structure Tells (s : Solo) (events : List Event) (t : Solo) : Prop where
  posted : t.posted = s.posted + (posts events).length
  taken : t.taken = s.taken + (takes events).length
  counts : t.counts = s.counts ++ returns events
  log : t.log.filterMap Note.began? =
    s.log.filterMap Note.began? ++ ((takes events).filter fun j => !j.quiet).map Job.id

theorem Tells.trans (h : s.Tells es t) (k : t.Tells fs u) : s.Tells (es ++ fs) u where
  posted := by rw [k.posted, h.posted, posts_append, List.length_append, Nat.add_assoc]
  taken := by rw [k.taken, h.taken, takes_append, List.length_append, Nat.add_assoc]
  counts := by rw [k.counts, h.counts, returns_append, List.append_assoc]
  log := by rw [k.log, h.log, takes_append, List.filter_append, List.map_append, List.append_assoc]

theorem tells_count (s : Solo) (n : Nat) : s.Tells [.counted n] (s.count n) := by
  constructor <;> simp [count, posts, takes, returns]

theorem tells_take (h : s.take? = some (j, t)) : s.Tells [.taken j] t := by
  unfold take? at h
  split at h
  · cases h
  · cases h
    constructor <;> cases hq : j.quiet <;> simp [posts, takes, returns, Note.began?, hq]

theorem tells_post (s : Solo) (j : Job Empty) : s.Tells [.posted j] (s.post j) := by
  constructor <;> simp [post, posts, takes, returns]

theorem tells_note (s : Solo) (id action text : String) : s.Tells [] (s.note (.result id action text)) := by
  constructor <;> simp [note, posts, takes, returns, Note.began?]

/-- nothing is written down when the dispatcher is stopped or restarted -/
theorem tells_change (s : Solo) (d : Dispatcher (Job Empty)) : s.Tells [] { s with dispatcher := d } := by
  constructor <;> simp [posts, takes, returns]

theorem weight_note (s : Solo) (n : Note) : (s.note n).weight = s.weight := rfl

theorem weight_stop (s : Solo) : weight { s with dispatcher := s.dispatcher.stop } = s.weight := rfl

theorem weight_restart (s : Solo) : weight { s with dispatcher := s.dispatcher.restart } = s.weight := rfl

theorem Tells.refl (s : Solo) : s.Tells [] s := tells_change s s.dispatcher

/-! ## Step by step -/

theorem take?_dispatcher (h : s.take? = some (j, t)) : s.dispatcher.take? = some (j, t.dispatcher) := by
  unfold take? at h
  split at h
  · cases h
  · rename_i found
    cases h
    exact found

theorem take?_none (h : s.take? = none) : s.dispatcher.take? = none := by
  unfold take? at h
  split at h
  · assumption
  · cases h

/-- on any stack, `e` goes on from `s` to `t` with these events and has then made way for `top` -/
structure Turns (e : Entry) (s : Solo) (events : List Event) (top : List Entry) (t : Solo) : Prop where
  goes : ∀ below, Goes ⟨s.dispatcher, e :: below, false⟩ events ⟨t.dispatcher, top ++ below, false⟩
  tells : s.Tells events t

/-- on any stack, `e` goes on from `s` with these events until it is removed, and leaves what `r` says -/
structure Shows {α : Type} (e : Entry) (s : Solo) (r : Solo × End α) (events : List Event) : Prop where
  goes : ∀ below, Goes ⟨s.dispatcher, e :: below, false⟩ events ⟨r.1.dispatcher, below, r.2.panics⟩
  tells : s.Tells events r.1

section

variable {α β : Type} {e e' called : Entry} {top : List Entry} {r : Solo × End α} {v : α}

theorem Turns.step (now : ∀ below, advance s.dispatcher below e = (es, ⟨t.dispatcher, top ++ below, false⟩))
    (tells : s.Tells es t) : Turns e s es top t where
  goes below := .one (congrArg some (now below))
  tells := tells

/-- what is only written down changes nothing -/
theorem Turns.noted (h : Turns e s es top t) (action text : String) :
    Turns e s es top (t.note (.result id action text)) where
  goes := h.goes
  tells := by
    rw [← List.append_nil es]
    exact h.tells.trans (tells_note t id action text)

theorem Turns.ends (h : Turns e s es [] t) (v : α) : Shows e s (t, .returned v) es := ⟨h.goes, h.tells⟩

theorem Turns.follows (h : Turns e s es [e'] t) (k : Shows e' t r fs) : Shows e s r (es ++ fs) where
  goes below := (h.goes below).trans (k.goes below)
  tells := h.tells.trans k.tells

/-- what was called returns -/
theorem Turns.returns (h : Turns e s es [called, e'] t) (k : Shows called t (u, .returned v) fs) :
    Turns e s (es ++ fs) [e'] u where
  goes below := (h.goes below).trans (k.goes _)
  tells := h.tells.trans k.tells

/-- a panic in what was called removes the caller too -/
theorem Turns.breaks (h : Turns e s es [called, e'] t) (k : Shows (α := α) called t (u, .panicked) fs) :
    Shows (α := β) e s (u, .panicked) (es ++ (fs ++ [.left e'])) where
  goes below := (h.goes below).trans ((k.goes _).trans (.one rfl))
  tells := by
    have silent : u.Tells [.left e'] u := by constructor <;> simp [posts, takes, Event.returns]
    exact h.tells.trans (k.tells.trans silent)

end

mutual

/-- a loop goes as the steps say -/
theorem loop_shows (s : Solo) (n : Nat) : ∃ events, Shows (.loop n) s (s.loop n).1 events := by
  cases h : s.take? with
  | none =>
    rw [loop_idle h]
    exact ⟨_, (Turns.step (fun _ => by simp only [advance, take?_none h]; rfl) (tells_count s n)).ends n⟩
  | some p =>
    obtain ⟨j, t⟩ := p
    have lighter : t.weight + (1 + weights j.actions) = s.weight := weight_take h
    have begins : Turns (.loop n) s [.taken j] [.job j.actions, .loop (n + 1)] t :=
      .step (fun _ => by simp only [advance, take?_dispatcher h]; rfl) (tells_take h)
    obtain ⟨es, job⟩ := perform_shows j.id j.actions t
    rw [loop_taking h]
    rcases ended : (perform j.id j.actions t).1 with ⟨u, _ | _⟩ <;> rw [ended] at job
    · have bound : u.weight ≤ weights j.actions + t.weight := by
        simpa only [ended] using (perform j.id j.actions t).2
      obtain ⟨fs, others⟩ := loop_shows u (n + 1)
      exact ⟨_, (begins.returns job).follows others⟩
    · exact ⟨_, begins.breaks job⟩
termination_by s.weight
decreasing_by all_goals omega

/-- a loop for one job goes as the steps say -/
theorem once_shows (s : Solo) : ∃ events, Shows .single s s.once.1 events := by
  cases h : s.take? with
  | none =>
    rw [once_idle h]
    exact ⟨_, (Turns.step (fun _ => by simp only [advance, take?_none h]; rfl) (tells_count s 0)).ends 0⟩
  | some p =>
    obtain ⟨j, t⟩ := p
    have lighter : t.weight + (1 + weights j.actions) = s.weight := weight_take h
    have begins : Turns .single s [.taken j] [.job j.actions, .only] t :=
      .step (fun _ => by simp only [advance, take?_dispatcher h]; rfl) (tells_take h)
    obtain ⟨es, job⟩ := perform_shows j.id j.actions t
    rw [once_taking h]
    rcases ended : (perform j.id j.actions t).1 with ⟨u, _ | _⟩ <;> rw [ended] at job
    · have counts : Turns .only u [.counted 1] [] (u.count 1) := .step (fun _ => rfl) (tells_count u 1)
      exact ⟨_, (begins.returns job).follows (counts.ends 1)⟩
    · exact ⟨_, begins.breaks job⟩
termination_by s.weight
decreasing_by omega

/-- a job goes as the steps say -/
theorem perform_shows (id : String) (actions : List (Action Empty)) (s : Solo) :
    ∃ events, Shows (.job actions) s (perform id actions s).1 events := by
  match actions with
  | [] =>
    rw [perform]
    exact ⟨_, (Turns.step (fun _ => rfl) (Tells.refl s)).ends ()⟩
  | .post name inner :: rest =>
    have heavier : (s.post ⟨name, inner, false⟩).weight = s.weight + (1 + weights inner) := Dispatcher.weight_post ..
    obtain ⟨fs, others⟩ := perform_shows id rest (s.post ⟨name, inner, false⟩)
    rw [perform]
    exact ⟨_, (Turns.step (fun _ => rfl) (tells_post s _)).follows others⟩
  | .poll :: rest =>
    have calls : Turns (.job (.poll :: rest)) s [] [.loop 0, .job rest] s := .step (fun _ => rfl) (Tells.refl s)
    obtain ⟨es, loop⟩ := loop_shows s 0
    rw [perform_poll]
    rcases ended : (s.loop 0).1 with ⟨t, n | _⟩ <;> rw [ended] at loop
    · have bound : t.weight ≤ s.weight := by simpa only [ended] using (s.loop 0).2
      obtain ⟨fs, others⟩ := perform_shows id rest (t.note (.result id "poll" (toString n)))
      exact ⟨_, ((calls.returns loop).noted _ _).follows others⟩
    · exact ⟨_, calls.breaks loop⟩
  | .pollOne :: rest =>
    have calls : Turns (.job (.pollOne :: rest)) s [] [.single, .job rest] s := .step (fun _ => rfl) (Tells.refl s)
    obtain ⟨es, once⟩ := once_shows s
    rw [perform_pollOne]
    rcases ended : s.once.1 with ⟨t, n | _⟩ <;> rw [ended] at once
    · have bound : t.weight ≤ s.weight := by simpa only [ended] using s.once.2
      obtain ⟨fs, others⟩ := perform_shows id rest (t.note (.result id "poll_one" (toString n)))
      exact ⟨_, ((calls.returns once).noted _ _).follows others⟩
    · exact ⟨_, calls.breaks once⟩
  | .pending :: rest =>
    obtain ⟨fs, others⟩ := perform_shows id rest (s.note (.result id "pending" (toString s.dispatcher.queue.length)))
    rw [perform]
    exact ⟨_, ((Turns.step (fun _ => rfl) (Tells.refl s)).noted _ _).follows others⟩
  | .stopped :: rest =>
    obtain ⟨fs, others⟩ := perform_shows id rest (s.note (.result id "stopped" (toString s.dispatcher.stopped)))
    rw [perform]
    exact ⟨_, ((Turns.step (fun _ => rfl) (Tells.refl s)).noted _ _).follows others⟩
  | .stop :: rest =>
    obtain ⟨fs, others⟩ := perform_shows id rest { s with dispatcher := s.dispatcher.stop }
    rw [perform]
    exact ⟨_, (Turns.step (fun _ => rfl) (tells_change s s.dispatcher.stop)).follows others⟩
  | .restart :: rest =>
    obtain ⟨fs, others⟩ := perform_shows id rest { s with dispatcher := s.dispatcher.restart }
    rw [perform]
    exact ⟨_, (Turns.step (fun _ => rfl) (tells_change s s.dispatcher.restart)).follows others⟩
  | .panic :: rest =>
    rw [perform]
    refine ⟨[.panicked] ++ [.left (.job (.panic :: rest))], fun below => .next rfl (.one rfl), ?_⟩
    constructor <;> simp [posts, takes, Event.returns]
  | .other k :: _ => exact k.elim
termination_by weights actions + s.weight
decreasing_by
  all_goals simp only [weights, Action.weight, weight_note, weight_stop, weight_restart]
  all_goals omega

end

/-! ## The end of a loop -/

/-- a loop that returns has found nothing to take, and its count was returned last -/
theorem loop_returned (s : Solo) (n : Nat) {m : Nat} (h : (s.loop n).1 = (t, .returned m)) :
    t.dispatcher.take? = none ∧ t.counts.getLast? = some m := by
  cases found : s.take? with
  | none =>
    rw [loop_idle found] at h
    cases h
    exact ⟨(take?_none found : s.dispatcher.take? = none), List.getLast?_concat⟩
  | some p =>
    obtain ⟨j, v⟩ := p
    have lighter : v.weight + (1 + weights j.actions) = s.weight := weight_take found
    rw [loop_taking found] at h
    rcases ended : (perform j.id j.actions v).1 with ⟨u, _ | _⟩ <;> rw [ended] at h
    · have bound : u.weight ≤ weights j.actions + v.weight := by
        simpa only [ended] using (perform j.id j.actions v).2
      exact loop_returned u (n + 1) h
    · cases h
termination_by s.weight
decreasing_by omega

/-- a loop for one job finds none and counts none, or it takes the first one, which runs by itself, and counts it -/
theorem once_cases (s : Solo) :
    (s.dispatcher.take? = none ∧ s.once.1 = (s.count 0, .returned 0)) ∨
      ∃ j d inner, s.dispatcher.take? = some (j, d) ∧
        Goes ⟨d, [.job j.actions], false⟩ inner ⟨s.once.1.1.dispatcher, [], s.once.1.2.panics⟩ ∧
        (s.once.1.2 = .panicked ∨ s.once.1.2 = .returned 1) := by
  cases found : s.take? with
  | none => exact .inl ⟨take?_none found, once_idle found⟩
  | some p =>
    obtain ⟨j, t⟩ := p
    obtain ⟨inner, job⟩ := perform_shows j.id j.actions t
    refine .inr ⟨j, t.dispatcher, inner, take?_dispatcher found, ?_⟩
    have goes := job.goes []
    rw [once_taking found]
    rcases ended : (perform j.id j.actions t).1 with ⟨u, _ | _⟩ <;> rw [ended] at goes
    · exact ⟨goes, .inr rfl⟩
    · exact ⟨goes, .inl rfl⟩

/-- what can be said of a loop that a thread starts on the dispatcher of `s`, where these events happen and `r` is left -/
structure Accounted (e : Entry) (s : Solo) (events : List Event) (r : Solo × End Nat) : Prop where
  /-- it comes to an end -/
  ends : Goes ⟨s.dispatcher, [e], false⟩ events ⟨r.1.dispatcher, [], r.2.panics⟩
  /-- there is no other way for it to go, and none that goes on -/
  only : ∀ fs u, Goes ⟨s.dispatcher, [e], false⟩ fs u →
    ∃ gs, Goes u gs ⟨r.1.dispatcher, [], r.2.panics⟩ ∧ events = fs ++ gs
  /-- what is written down is what happened -/
  told : s.Tells events r.1
  /-- what waited, and then what was posted, is what was taken, and then what waits -/
  inOrder : s.dispatcher.queue ++ posts events = takes events ++ r.1.dispatcher.queue
  /-- without a panic, all loops together have counted what was taken -/
  counted : r.2.panics = false → .panicked ∉ events ∧ (Event.returns events).sum = (takes events).length
  /-- a panic removes the job and everything below it, the innermost first, and changes nothing else -/
  unwound : r.2.panics = true → ∃ front rest below,
    Goes ⟨s.dispatcher, [e], false⟩ front ⟨r.1.dispatcher, .job (.panic :: rest) :: below, false⟩ ∧
      events = front ++ .panicked :: (.job (.panic :: rest) :: below).map .left

theorem Shows.accounted {e : Entry} {r : Solo × End Nat} (h : Shows e s r events) (fresh : running [e] = 0) :
    Accounted e s events r := by
  have goes := h.goes []
  refine ⟨goes, fun fs u => goes.only rfl, h.tells, goes.in_order, fun calm => ⟨goes.panicked_not_mem calm, ?_⟩, ?_⟩
  · have balanced := goes.balanced calm
    rw [fresh, Nat.zero_add] at balanced
    exact balanced.symm
  · intro panic
    obtain ⟨front, rest, below, gone, go, stack, rfl⟩ := goes.unwound rfl panic
    rw [List.append_nil] at stack
    exact ⟨front, rest, below, go, stack ▸ rfl⟩

/-- **Polling ends and is accounted for.** Whatever jobs wait and whatever they do, to any depth, polling them comes to an end,
and so does polling once. Every job is taken in its turn or still waits in its place, and without a panic the counts of all
loops add up to the jobs taken, which are those that waited or were posted less those that wait. A loop returns only when
nothing waits or the dispatcher is stopped. A loop for one job counts at most one, and leaves what the job posted and did not
itself take. A panic goes through everything that is under way, and the dispatcher stays as it was when it began. -/
theorem polling_accounted (s : Solo) :
    (∃ events, Accounted (.loop 0) s events s.poll ∧
      ∀ n, s.poll.2 = .returned n →
        (s.poll.1.dispatcher.queue = [] ∨ s.poll.1.dispatcher.stopped = true) ∧ s.poll.1.counts.getLast? = some n ∧
        (Event.returns events).sum + s.poll.1.dispatcher.queue.length =
          s.dispatcher.queue.length + (posts events).length) ∧
    ∃ events, Accounted .single s events s.pollOne ∧
      ((s.dispatcher.take? = none ∧ s.pollOne = (s.count 0, .returned 0)) ∨
        ∃ j d inner, s.dispatcher.take? = some (j, d) ∧ (s.pollOne.2 = .panicked ∨ s.pollOne.2 = .returned 1) ∧
          Goes ⟨d, [.job j.actions], false⟩ inner ⟨s.pollOne.1.dispatcher, [], s.pollOne.2.panics⟩ ∧
          d.queue ++ posts inner = takes inner ++ s.pollOne.1.dispatcher.queue) := by
  obtain ⟨events, shows⟩ := loop_shows s 0
  obtain ⟨events₁, shows₁⟩ := once_shows s
  have loop : Accounted (.loop 0) s events s.poll := shows.accounted rfl
  refine ⟨⟨events, loop, fun n returned => ?_⟩, events₁, shows₁.accounted rfl, ?_⟩
  · have calm : s.poll.2.panics = false := by rw [returned]; rfl
    obtain ⟨drained, last⟩ := loop_returned s 0 (t := s.poll.1) (Prod.ext rfl returned)
    have lengths := congrArg List.length loop.inOrder
    rw [List.length_append, List.length_append] at lengths
    exact ⟨take?_eq_none drained, last, by rw [(loop.counted calm).2, lengths]⟩
  · obtain idle | ⟨j, d, inner, found, goes, ended⟩ := once_cases s
    · exact .inl idle
    · exact .inr ⟨j, d, inner, found, ended, goes, goes.in_order⟩

/-- two jobs that are posted by the first one, of which one polls -/
example :
    let polled := poll { dispatcher := { queue := [⟨"a", [.post "b" [.poll], .post "c" [], .pollOne], false⟩] } }
    polled.2 = .returned 1 ∧ polled.1.counts = [1, 1, 1] ∧ polled.1.taken = 3 := by
  decide +kernel

/-- the same, with a job before them that panics: it is taken, and those that were posted wait -/
example :
    let polled := poll { dispatcher := { queue :=
      [⟨"a", [.post "b" [.poll], .post "c" [], .pollOne], false⟩, ⟨"d", [.panic], false⟩] } }
    polled.2 = .panicked ∧ polled.1.dispatcher.queue.map Job.id = ["b", "c"] ∧ polled.1.taken = 2 := by
  decide +kernel

end Solo

end SecureEndpoint.Work
