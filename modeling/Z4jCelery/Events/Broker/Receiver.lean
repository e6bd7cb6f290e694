import Z4jCelery.Events.Broker.Batch
import Z4jCelery.Lib.Queue
/-!
# Receiver threads

`start` and `stop` share one flag with every receiver thread ever started.
`stop` forgets a thread that it could not join and `start` clears the flag, so
a thread that is still busy then goes on. `receivers_confined` says what holds
in every run, and what in the runs whose starts find all earlier threads ended.
-/

namespace Z4jCelery.Events.Broker.Receiver

open Py Lib

/-! ## A thread -/

/-- Where a receiver thread is in `_run`: before the test of the outer loop, in
the calls that connect, before the test of the inner loop, in `drain_events`,
on its way out of the connection, in the handler of an exception, in the pause
before it connects again, or at its end. -/
inductive Pc where
  | outer | connecting | inner | draining | leaving | failed | waiting | ended
  deriving DecidableEq

/-- What a thread does next. A broker call ends when the broker lets it. -/
inductive Move where
  | check | connected | raised | delivered (d : Delivery) | returned | broke | left | woke

/-- The flag counts where it is tested only. Every call to the broker may deliver
messages on the way. A `TimeoutError` ends a `drain_events` as a return does,
another `OSError` breaks the inner loop. -/
def next (stop : Bool) : Pc → Move → Option Pc
  | .outer, .check => some (if stop then .ended else .connecting)
  | .connecting, .delivered _ => some .connecting
  | .connecting, .connected => some .inner
  | .connecting, .raised => some .failed
  | .inner, .check => some (if stop then .leaving else .draining)
  | .draining, .delivered _ => some .draining
  | .draining, .returned => some .inner
  | .draining, .broke => some .leaving
  | .draining, .raised => some .failed
  | .leaving, .delivered _ => some .leaving
  | .leaving, .left => some .outer
  | .leaving, .raised => some .failed
  | .failed, .check => some (if stop then .ended else .waiting)
  | .waiting, .woke => some .outer
  | _, _ => none

/-! ## The monitor -/

/-- Where the caller of `start` and `stop` is: in none of them, in `start`
before it clears the flag and after, or joining a thread in `stop`. -/
inductive Caller where
  | idle | enabling | starting | joining (i : Nat)

/-- What is observed: a call of `start`, a thread that is told to stop, a
message that a thread dispatches. -/
inductive Mark where
  | start | told (i : Nat) | dispatched (i : Nat)
  deriving DecidableEq

/-- `threads` are all receiver threads ever started, by number. -/
structure State where
  thread : Option Nat
  stop : Bool
  caller : Caller
  threads : List Pc
  monitor : Monitor
  marks : List Mark

def State.init : State := ⟨none, false, .idle, [], Monitor.init, []⟩

inductive Label where
  | start | enabled | spawned | stop | joined | join_timeout
  | thread (i : Nat) (move : Move)

/-- What a move does besides: a message that is delivered is dispatched. -/
def observe (env : Env) (i : Nat) : Move → State → State
  | .delivered d, s => { s with monitor := final (dispatch env d s.monitor), marks := s.marks ++ [.dispatched i] }
  | _, s => s

def step (env : Env) (s : State) : Label → Option State
  | .start =>
    match s.caller, s.thread with
    | .idle, none => some { s with caller := .enabling, marks := s.marks ++ [.start] }
    | .idle, some _ => some { s with marks := s.marks ++ [.start] }
    | _, _ => none
  | .enabled =>
    match s.caller with
    | .enabling => some { s with stop := false, caller := .starting }
    | _ => none
  | .spawned =>
    match s.caller with
    | .starting => some { s with thread := some s.threads.length, threads := s.threads ++ [.outer], caller := .idle }
    | _ => none
  | .stop =>
    match s.caller, s.thread with
    | .idle, none => some s
    | .idle, some i => some { s with stop := true, caller := .joining i, marks := s.marks ++ [.told i] }
    | _, _ => none
  | .joined =>
    match s.caller with
    | .joining i => if s.threads[i]? = some .ended then some { s with thread := none, caller := .idle } else none
    | _ => none
  | .join_timeout =>
    match s.caller with
    | .joining _ => some { s with thread := none, caller := .idle }
    | _ => none
  | .thread i move => do
    let pc ← s.threads[i]?
    let pc' ← next s.stop pc move
    return observe env i move { s with threads := s.threads.set i pc' }

/-- What a step can do. -/
inductive Steps (env : Env) : State → Label → State → Prop where
  | start {s : State} : s.caller = .idle → s.thread = none →
      Steps env s .start { s with caller := .enabling, marks := s.marks ++ [.start] }
  | started {s : State} {i : Nat} : s.caller = .idle → s.thread = some i →
      Steps env s .start { s with marks := s.marks ++ [.start] }
  | enabled {s : State} : s.caller = .enabling → Steps env s .enabled { s with stop := false, caller := .starting }
  | spawned {s : State} : s.caller = .starting → Steps env s .spawned
      { s with thread := some s.threads.length, threads := s.threads ++ [.outer], caller := .idle }
  | stopped {s : State} : s.caller = .idle → s.thread = none → Steps env s .stop s
  | stop {s : State} {i : Nat} : s.caller = .idle → s.thread = some i →
      Steps env s .stop { s with stop := true, caller := .joining i, marks := s.marks ++ [.told i] }
  | forget {s : State} {e : Label} {i : Nat} : e = .joined ∨ e = .join_timeout → s.caller = .joining i →
      Steps env s e { s with thread := none, caller := .idle }
  | thread {s : State} {i : Nat} {move : Move} {pc pc' : Pc} : s.threads[i]? = some pc → next s.stop pc move = some pc' →
      Steps env s (.thread i move) (observe env i move { s with threads := s.threads.set i pc' })

variable {env : Env} {s s' : State}

theorem step_cases {e : Label} (h : step env s e = some s') : Steps env s e s' := by
  cases e with
  | start =>
    rw [step] at h
    split at h
    · rename_i hc ht
      exact Option.some.inj h ▸ .start hc ht
    · rename_i hc ht
      exact Option.some.inj h ▸ .started hc ht
    · cases h
  | enabled =>
    rw [step] at h
    split at h
    · rename_i hc
      exact Option.some.inj h ▸ .enabled hc
    · cases h
  | spawned =>
    rw [step] at h
    split at h
    · rename_i hc
      exact Option.some.inj h ▸ .spawned hc
    · cases h
  | stop =>
    rw [step] at h
    split at h
    · rename_i hc ht
      exact Option.some.inj h ▸ .stopped hc ht
    · rename_i hc ht
      exact Option.some.inj h ▸ .stop hc ht
    · cases h
  | joined =>
    rw [step] at h
    split at h
    · rename_i hc
      split at h
      · exact Option.some.inj h ▸ .forget (.inl rfl) hc
      · cases h
    · cases h
  | join_timeout =>
    rw [step] at h
    split at h
    · rename_i hc
      exact Option.some.inj h ▸ .forget (.inr rfl) hc
    · cases h
  | thread i move =>
    rw [step] at h
    obtain ⟨pc, hpc, h⟩ := Option.bind_eq_some_iff.1 h
    obtain ⟨pc', hpc', h⟩ := Option.bind_eq_some_iff.1 h
    exact Option.some.inj h ▸ .thread hpc hpc'

/-! ## What is promised -/

/-- The thread has been started, not told to stop, and has not ended. -/
def Active (s : State) (i : Nat) : Prop := (∃ pc, s.threads[i]? = some pc ∧ pc ≠ .ended) ∧ .told i ∉ s.marks

/-- After it was told to stop, `start` was called. -/
def Superseded (marks : List Mark) (i : Nat) : Prop := [.told i, .start].Sublist marks

/-- No thread dispatches a message when it was told to stop and `start` was
called after that. -/
def NoLateDispatch (marks : List Mark) : Prop := ∀ i, ¬[.told i, .start, .dispatched i].Sublist marks

/-- All threads have ended. -/
def Quiet (s : State) : Prop := ∀ pc ∈ s.threads, pc = .ended

instance (s : State) : Decidable (Quiet s) := inferInstanceAs (Decidable (∀ pc ∈ s.threads, pc = .ended))

/-- A step, unless it is the start of a thread while another has not ended. -/
def quiet_step (env : Env) (s : State) : Label → Option State
  | .start => if s.thread = none ∧ ¬Quiet s then none else step env s .start
  | e => step env s e

/-! ## The trace -/

section Marks
variable {l marks : List Mark} {m m' : Mark}

theorem sublist_snoc : (l ++ [m]).Sublist (marks ++ [m']) ↔ (l ++ [m]).Sublist marks ∨ m = m' ∧ l.Sublist marks := by
  rw [← List.reverse_sublist, List.reverse_concat, List.reverse_concat, List.sublist_cons_iff]
  apply or_congr
  · rw [← List.reverse_concat, List.reverse_sublist]
  · simp only [List.cons.injEq]
    constructor
    · rintro ⟨_, ⟨rfl, rfl⟩, h⟩
      exact ⟨rfl, List.reverse_sublist.1 h⟩
    · rintro ⟨rfl, h⟩
      exact ⟨_, ⟨rfl, rfl⟩, List.reverse_sublist.2 h⟩

theorem superseded_snoc (i : Nat) : Superseded (marks ++ [m]) i ↔ Superseded marks i ∨ .start = m ∧ .told i ∈ marks := by
  rw [← List.singleton_sublist]
  exact @sublist_snoc [.told i] marks .start m

theorem superseded_other {i : Nat} (hm : m ≠ .start) (h : Superseded (marks ++ [m]) i) : Superseded marks i := by
  rcases (superseded_snoc i).1 h with h | ⟨hstart, -⟩
  · exact h
  · exact absurd hstart.symm hm

theorem noLateDispatch_snoc :
    NoLateDispatch (marks ++ [m]) ↔ NoLateDispatch marks ∧ ∀ i, m = .dispatched i → ¬Superseded marks i := by
  simp only [NoLateDispatch, ← forall_and]
  refine forall_congr' fun i => ?_
  have h := @sublist_snoc [.told i, .start] marks (.dispatched i) m
  rw [List.cons_append, List.cons_append, List.nil_append] at h
  rw [h, not_or, not_and, eq_comm]
  rfl

theorem noLateDispatch_other (h : NoLateDispatch marks) (hm : ∀ i, m ≠ .dispatched i) : NoLateDispatch (marks ++ [m]) :=
  noLateDispatch_snoc.2 ⟨h, fun i hi => absurd hi (hm i)⟩

theorem superseded_told {i : Nat} (h : Superseded marks i) : .told i ∈ marks := h.subset (by simp)

end Marks

/-! ## Every run -/

/-- What holds in every state: whoever is not told to stop is `self._thread`. -/
structure Accounted (s : State) : Prop where
  starting : (s.caller = .enabling ∨ s.caller = .starting) → s.thread = none
  joining : ∀ i, s.caller = .joining i → .told i ∈ s.marks
  known : ∀ i, .told i ∈ s.marks → i < s.threads.length
  current : ∀ i, s.thread = some i → i < s.threads.length
  untold : ∀ i, i < s.threads.length → .told i ∉ s.marks → s.thread = some i
  joined : ∀ i, s.caller = .joining i → s.thread = some i

theorem accounted_init : Accounted .init := by
  refine ⟨?_, ?_, ?_, ?_, ?_, ?_⟩ <;> simp [State.init]

/-- A move of a thread leaves the caller's part alone. -/
theorem observe_frame (i : Nat) (move : Move) (s : State) :
    (observe env i move s).thread = s.thread ∧ (observe env i move s).stop = s.stop ∧
      (observe env i move s).caller = s.caller ∧ (observe env i move s).threads = s.threads ∧
      ((observe env i move s).marks = s.marks ∨
        (∃ d, move = .delivered d) ∧ (observe env i move s).marks = s.marks ++ [.dispatched i]) := by
  cases move with
  | delivered d => exact ⟨rfl, rfl, rfl, rfl, .inr ⟨⟨d, rfl⟩, rfl⟩⟩
  | check | connected | raised | returned | broke | left | woke => exact ⟨rfl, rfl, rfl, rfl, .inl rfl⟩

theorem observe_told (i j : Nat) (move : Move) (s : State) : .told j ∈ (observe env i move s).marks ↔ .told j ∈ s.marks := by
  rcases (@observe_frame env i move s).2.2.2.2 with h | ⟨-, h⟩
  · rw [h]
  · rw [h]
    simp

theorem accounted_step {e : Label} (h : Steps env s e s') (hi : Accounted s) : Accounted s' := by
  cases h with
  | start hc ht =>
    exact ⟨fun _ => ht, fun _ h => by simp at h, by simpa using hi.known, hi.current, by simpa using hi.untold,
      fun _ h => by simp at h⟩
  | started hc ht =>
    exact ⟨hi.starting, by simpa using hi.joining, by simpa using hi.known, hi.current, by simpa using hi.untold, hi.joined⟩
  | enabled hc =>
    exact ⟨fun _ => hi.starting (.inl hc), fun _ h => by simp at h, hi.known, hi.current, hi.untold, fun _ h => by simp at h⟩
  | spawned hc =>
    have hnone := hi.starting (.inr hc)
    refine ⟨fun h => by simp at h, fun _ h => by simp at h, ?_, ?_, ?_, fun _ h => by simp at h⟩
    · intro i h
      have := hi.known i h
      rw [List.length_append]
      exact Nat.lt_add_right _ this
    · intro i h
      rw [List.length_append, ← Option.some.inj h]
      exact Nat.lt_succ_self _
    · intro i hlt huntold
      rw [List.length_append, List.length_singleton] at hlt
      -- A thread from before would be `self._thread`, which is none.
      rcases Nat.lt_succ_iff_lt_or_eq.1 hlt with hlt | rfl
      · have hcurrent := hi.untold i hlt huntold
        rw [hnone] at hcurrent
        cases hcurrent
      · rfl
  | stopped hc ht => exact hi
  | @stop i hc ht =>
    refine ⟨fun h => by simp at h, ?_, ?_, hi.current, ?_, ?_⟩
    · intro j h
      obtain rfl : i = j := by simpa using h
      simp
    · intro j h
      rcases List.mem_append.1 h with h | h
      · exact hi.known j h
      · obtain rfl : j = i := by simpa using h
        exact hi.current j ht
    · intro j hlt huntold
      exact hi.untold j hlt fun h => huntold (List.mem_append_left _ h)
    · intro j h
      obtain rfl : i = j := by simpa using h
      exact ht
  | @forget _ i he hc =>
    refine ⟨fun _ => rfl, fun _ h => by simp at h, hi.known, fun _ h => by simp at h, ?_, fun _ h => by simp at h⟩
    intro j hlt huntold
    obtain rfl : j = i := Option.some.inj ((hi.untold j hlt huntold).symm.trans (hi.joined i hc))
    exact absurd (hi.joining j hc) huntold
  | @thread i move pc pc' hpc hpc' =>
    obtain ⟨hthread, hstop, hcaller, hthreads, -⟩ := @observe_frame env i move { s with threads := s.threads.set i pc' }
    refine ⟨?_, ?_, ?_, ?_, ?_, ?_⟩ <;>
      simp only [hthread, hcaller, hthreads, observe_told, List.length_set]
    · exact hi.starting
    · exact hi.joining
    · exact hi.known
    · exact hi.current
    · exact hi.untold
    · exact hi.joined

theorem active_unique (hi : Accounted s) {i j : Nat} (h : Active s i) (h' : Active s j) : i = j := by
  obtain ⟨⟨_, hi', _⟩, huntold⟩ := h
  obtain ⟨⟨_, hj', _⟩, huntold'⟩ := h'
  have hcurrent := hi.untold i (List.getElem?_eq_some_iff.1 hi').1 huntold
  have hcurrent' := hi.untold j (List.getElem?_eq_some_iff.1 hj').1 huntold'
  exact Option.some.inj (hcurrent.symm.trans hcurrent')

/-! ## Runs with quiet starts -/

theorem quiet_step_eq {e : Label} (h : quiet_step env s e = some s') :
    step env s e = some s' ∧ (e = .start → s.thread = none → Quiet s) := by
  unfold quiet_step at h
  split at h
  · split at h
    · cases h
    · rename_i hquiet
      refine ⟨h, fun _ hnone => ?_⟩
      by_contra hloud
      exact hquiet ⟨hnone, hloud⟩
  · rename_i hne
    exact ⟨h, fun he => absurd he hne⟩

theorem next_alive {stop : Bool} {pc pc' : Pc} {move : Move} (h : next stop pc move = some pc') : pc ≠ .ended := by
  rintro rfl
  cases move <;> cases h

/-- Only `self._thread` may be busy, and a thread that `start` came after has ended. -/
structure Confined (s : State) : Prop where
  starting : (s.caller = .enabling ∨ s.caller = .starting) → Quiet s
  others : ∀ j, s.thread = some j → ∀ i pc, i ≠ j → s.threads[i]? = some pc → pc = .ended
  untold : s.caller = .idle → ∀ j, s.thread = some j → .told j ∉ s.marks
  late : ∀ i, Superseded s.marks i → s.threads[i]? = some .ended
  quiet : NoLateDispatch s.marks

theorem confined_init : Confined .init := by
  refine ⟨?_, ?_, ?_, ?_, ?_⟩ <;> simp [State.init, Superseded, NoLateDispatch]

theorem ended_of_others (hi : Confined s) {i j : Nat} (hj : s.thread = some j) (hne : i ≠ j) (hlt : i < s.threads.length) :
    s.threads[i]? = some .ended := by
  have hget : s.threads[i]? = some s.threads[i] := List.getElem?_eq_getElem hlt
  rw [hget, hi.others j hj i _ hne hget]

/-- A call of `start` supersedes the threads that were told to stop before it. -/
theorem late_start (hi : Confined s) (htold : ∀ i, .told i ∈ s.marks → s.threads[i]? = some .ended) (i : Nat)
    (hs : Superseded (s.marks ++ [.start]) i) : s.threads[i]? = some .ended := by
  rcases (superseded_snoc i).1 hs with hs | ⟨-, h⟩
  · exact hi.late i hs
  · exact htold i h

/-- The thread that moves has not ended, so it is none of those that have. -/
theorem ended_kept {threads : List Pc} {i : Nat} {pc : Pc} (hpc : threads[i]? = some pc) (halive : pc ≠ .ended) (pc' : Pc)
    {k : Nat} (hk : threads[k]? = some .ended) : (threads.set i pc')[k]? = some .ended := by
  have hne : i ≠ k := by
    rintro rfl
    exact halive (Option.some.inj (hpc.symm.trans hk))
  rw [List.getElem?_set_ne hne, hk]

theorem confined_thread {i : Nat} {move : Move} {pc pc' : Pc} (hpc : s.threads[i]? = some pc)
    (hnext : next s.stop pc move = some pc') (hi : Confined s) :
    Confined (observe env i move { s with threads := s.threads.set i pc' }) := by
  have halive := next_alive hnext
  obtain ⟨hthread, -, hcaller, hthreads, hmarks⟩ := @observe_frame env i move { s with threads := s.threads.set i pc' }
  refine ⟨?_, ?_, ?_, ?_, ?_⟩
  · intro hc
    rw [hcaller] at hc
    exact absurd (hi.starting hc pc (List.mem_of_getElem? hpc)) halive
  · intro j hj k qc hne hqc
    rw [hthread] at hj
    rw [hthreads] at hqc
    have hik : i ≠ k := by
      rintro rfl
      exact halive (hi.others j hj i pc hne hpc)
    rw [List.getElem?_set_ne hik] at hqc
    exact hi.others j hj k qc hne hqc
  · intro hc j hj
    rw [hcaller] at hc
    rw [hthread] at hj
    rw [observe_told]
    exact hi.untold hc j hj
  · intro k hs
    rw [hthreads]
    apply ended_kept hpc halive
    rcases hmarks with hm | ⟨-, hm⟩
    · rw [hm] at hs
      exact hi.late k hs
    · rw [hm] at hs
      exact hi.late k (superseded_other (by simp) hs)
  · rcases hmarks with hm | ⟨-, hm⟩
    · rw [hm]
      exact hi.quiet
    · rw [hm]
      refine noLateDispatch_snoc.2 ⟨hi.quiet, ?_⟩
      intro k hk hs
      obtain rfl : i = k := by simpa using hk
      exact halive (Option.some.inj (hpc.symm.trans (hi.late i hs)))

theorem confined_step {e : Label} (hacc : Accounted s) (hquiet : e = .start → s.thread = none → Quiet s)
    (h : Steps env s e s') (hi : Confined s) : Confined s' := by
  cases h with
  | start hc ht =>
    refine ⟨fun _ => hquiet rfl ht, hi.others, fun h => by simp at h, late_start hi fun i htold => ?_,
      noLateDispatch_other hi.quiet (by simp)⟩
    have hlt := hacc.known i htold
    have hget : s.threads[i]? = some s.threads[i] := List.getElem?_eq_getElem hlt
    rw [hget, hquiet rfl ht _ (List.getElem_mem hlt)]
  | @started j hc ht =>
    refine ⟨hi.starting, hi.others, by simpa using hi.untold, late_start hi fun i htold => ?_,
      noLateDispatch_other hi.quiet (by simp)⟩
    have hne : i ≠ j := by
      rintro rfl
      exact hi.untold hc i ht htold
    exact ended_of_others hi ht hne (hacc.known i htold)
  | enabled hc => exact ⟨fun _ => hi.starting (.inl hc), hi.others, fun h => by simp at h, hi.late, hi.quiet⟩
  | spawned hc =>
    have hended := hi.starting (.inr hc)
    refine ⟨fun h => by simp at h, ?_, ?_, ?_, hi.quiet⟩
    · intro j hj i pc hne hpc
      obtain rfl : s.threads.length = j := Option.some.inj hj
      have hlt : i < s.threads.length := by
        have hlen := (List.getElem?_eq_some_iff.1 hpc).1
        rw [List.length_append, List.length_singleton] at hlen
        omega
      rw [List.getElem?_append_left hlt] at hpc
      exact hended pc (List.mem_of_getElem? hpc)
    · intro _ j hj htold
      obtain rfl : s.threads.length = j := Option.some.inj hj
      exact absurd (hacc.known _ htold) (lt_irrefl _)
    · intro i hs
      show (s.threads ++ [Pc.outer])[i]? = some .ended
      rw [List.getElem?_append_left (hacc.known i (superseded_told hs))]
      exact hi.late i hs
  | stopped hc ht => exact hi
  | @stop j hc ht =>
    refine ⟨fun h => by simp at h, hi.others, fun h => by simp at h, ?_, noLateDispatch_other hi.quiet (by simp)⟩
    exact fun i hs => hi.late i (superseded_other (by simp) hs)
  | forget he hc => exact ⟨fun h => by simp at h, fun _ h => by simp at h, fun _ _ h => by simp at h, hi.late, hi.quiet⟩
  | thread hpc hnext => exact confined_thread hpc hnext hi

theorem run_accounted {es : List Label} (h : run (step env) es .init = some s) : Accounted s := by
  refine run_inv ?_ h accounted_init
  intro _ _ _ hi hstep
  exact accounted_step (step_cases hstep) hi

theorem run_confined {es : List Label} (h : run (quiet_step env) es .init = some s) : Confined s := by
  have hboth : Accounted s ∧ Confined s := by
    refine @run_inv _ _ _ (fun s => Accounted s ∧ Confined s) ?_ _ _ _ h ⟨accounted_init, confined_init⟩
    rintro t e t' ⟨hacc, hi⟩ hstep
    obtain ⟨hstep, hquiet⟩ := quiet_step_eq hstep
    exact ⟨accounted_step (step_cases hstep) hacc, confined_step hacc hquiet (step_cases hstep) hi⟩
  exact hboth.2

/-! ## A start that finds a thread alive -/

/-- While the flag is down, the moves that lead a thread to `drain_events`. -/
def way : Pc → List Move
  | .outer => [.check, .connected, .check]
  | .connecting => [.connected, .check]
  | .inner => [.check]
  | .leaving => [.left, .check, .connected, .check]
  | .failed => [.check, .woke, .check, .connected, .check]
  | .waiting => [.woke, .check, .connected, .check]
  | .draining | .ended => []

/-- The moves of one thread, one after another. -/
def follow (stop : Bool) : Pc → List Move → Option Pc
  | pc, [] => some pc
  | pc, move :: moves => (next stop pc move).bind fun pc' => follow stop pc' moves

theorem follow_way {pc : Pc} (h : pc ≠ .ended) : follow false pc (way pc) = some .draining := by
  cases pc with
  | ended => exact absurd rfl h
  | outer | connecting | inner | draining | leaving | failed | waiting => rfl

theorem way_silent (pc : Pc) (move : Move) (h : move ∈ way pc) (i : Nat) (s : State) : observe env i move s = s := by
  cases move with
  | delivered d => cases pc <;> simp [way] at h
  | check | connected | raised | returned | broke | left | woke => rfl

theorem step_thread {i : Nat} {move : Move} {pc pc' : Pc} (hpc : s.threads[i]? = some pc)
    (hnext : next s.stop pc move = some pc') :
    step env s (.thread i move) = some (observe env i move { s with threads := s.threads.set i pc' }) := by
  rw [step, hpc, Option.bind_eq_bind, Option.bind_some, hnext]
  rfl

/-- A thread alone, without deliveries. -/
theorem run_follow {moves : List Move} (hsilent : ∀ move ∈ moves, ∀ i s, observe env i move s = s) {i : Nat}
    {pc pc' : Pc} (hpc : s.threads[i]? = some pc) (h : follow s.stop pc moves = some pc') :
    run (step env) (moves.map (.thread i)) s = some { s with threads := s.threads.set i pc' } := by
  induction moves generalizing s pc with
  | nil =>
    obtain rfl : pc = pc' := Option.some.inj h
    have hlt := (List.getElem?_eq_some_iff.1 hpc).1
    have hsame : s.threads.set i pc = s.threads := by
      rw [← (List.getElem?_eq_some_iff.1 hpc).2, List.set_getElem_self]
    rw [hsame]
    rfl
  | cons move moves ih =>
    obtain ⟨pc₁, hnext, h⟩ := Option.bind_eq_some_iff.1 h
    rw [List.forall_mem_cons] at hsilent
    have hstep : step env s (.thread i move) = some { s with threads := s.threads.set i pc₁ } := by
      rw [step_thread hpc hnext, hsilent.1]
    have hlt := (List.getElem?_eq_some_iff.1 hpc).1
    have hrest := @ih { s with threads := s.threads.set i pc₁ } hsilent.2 pc₁ (List.getElem?_set_self hlt) h
    rw [List.map_cons, run, hstep, Option.bind_some, hrest, List.set_set]

theorem step_start (hc : s.caller = .idle) (ht : s.thread = none) :
    step env s .start = some { s with caller := .enabling, marks := s.marks ++ [.start] } := by
  obtain ⟨thread, stop, caller, threads, monitor, marks⟩ := s
  obtain rfl : caller = .idle := hc
  obtain rfl : thread = none := ht
  rfl

/-- The flag is down again when a thread from before goes on: it gets back to
`drain_events` and dispatches what it is sent. -/
theorem start_revives (hacc : Accounted s) (hc : s.caller = .idle) (ht : s.thread = none) (hloud : ¬Quiet s)
    (d : Delivery) : ∃ es s', run (step env) (.start :: es) s = some s' ∧ ¬NoLateDispatch s'.marks := by
  obtain ⟨pc, hmem, halive⟩ : ∃ pc ∈ s.threads, pc ≠ .ended := by simpa [Quiet] using hloud
  obtain ⟨i, hpc⟩ := List.getElem?_of_mem hmem
  have hlt := (List.getElem?_eq_some_iff.1 hpc).1
  have htold : .told i ∈ s.marks := by
    by_contra huntold
    have hcurrent := hacc.untold i hlt huntold
    rw [ht] at hcurrent
    cases hcurrent
  -- `start` up to the cleared flag, the thread's way back, and one message
  let s₁ : State := { s with caller := .enabling, marks := s.marks ++ [.start] }
  let s₂ : State := { s₁ with stop := false, caller := .starting }
  let s₃ : State := { s₂ with threads := s.threads.set i .draining }
  have hstart : step env s .start = some s₁ := step_start hc ht
  have hway : run (step env) ((way pc).map (.thread i)) s₂ = some s₃ :=
    @run_follow env s₂ (way pc) (fun move hm j s => way_silent pc move hm j s) i pc .draining hpc (follow_way halive)
  let s₄ : State := observe env i (.delivered d) { s₃ with threads := s₃.threads.set i .draining }
  have hlast : step env s₃ (.thread i (.delivered d)) = some s₄ := step_thread (List.getElem?_set_self hlt) rfl
  refine ⟨.enabled :: ((way pc).map (.thread i) ++ [.thread i (.delivered d)]), s₄, ?_, ?_⟩
  · have henabled : step env s₁ .enabled = some s₂ := rfl
    rw [run, hstart, Option.bind_some, run, henabled, Option.bind_some, run_append, hway, Option.bind_some, run_one]
    exact hlast
  · intro hlate
    have hmarks : (s.marks ++ [.start] ++ [.dispatched i] : List Mark) = s₄.marks := rfl
    rw [← hmarks, noLateDispatch_snoc] at hlate
    exact hlate.2 i rfl ((superseded_snoc i).2 (.inr ⟨rfl, htold⟩))

/-! ## The promise -/

/-- In every run of `start`, `stop` and the threads, at most one thread is
active. If every start in the run finds the earlier threads ended, no thread
dispatches after it was told to stop and another start came; where a start can
come while one has not ended, the run has a continuation in which it does. -/
theorem receivers_confined (env : Env) {es : List Label} {s : State} (h : run (step env) es .init = some s) :
    (∀ i j, Active s i → Active s j → i = j) ∧
      (run (quiet_step env) es .init = some s → NoLateDispatch s.marks) ∧
      (s.caller = .idle → s.thread = none → ¬Quiet s →
        ∃ es' s', run (step env) (.start :: es') s = some s' ∧ ¬NoLateDispatch s'.marks) := by
  refine ⟨fun i j => active_unique (run_accounted h), fun hquiet => (run_confined hquiet).quiet, ?_⟩
  exact fun hc ht hloud => start_revives (run_accounted h) hc ht hloud ⟨.list [], .ok ()⟩

/-- A message without events. -/
def empty_message : Delivery := ⟨.list [], .ok ()⟩

/-- The monitor is started, stopped in time, and started again. -/
def restart : List Label :=
  [.start, .enabled, .spawned, .thread 0 .check, .thread 0 .connected, .thread 0 .check,
    .thread 0 (.delivered empty_message), .stop, .thread 0 .returned, .thread 0 .check, .thread 0 .left, .thread 0 .check,
    .joined, .start, .enabled, .spawned, .thread 1 .check]

theorem receivers_confined_restart : ∃ s, run (step openMonitor) restart .init = some s ∧
    s.threads = [.ended, .connecting] ∧ (∀ i j, Active s i → Active s j → i = j) ∧ NoLateDispatch s.marks :=
  ⟨_, rfl, rfl, (@receivers_confined openMonitor restart _ rfl).1, (@receivers_confined openMonitor restart _ rfl).2.1 rfl⟩

/-- The first thread is in `drain_events` for longer than `stop` waits. -/
def slow_stop : List Label :=
  [.start, .enabled, .spawned, .thread 0 .check, .thread 0 .connected, .thread 0 .check, .stop, .join_timeout,
    .start, .enabled, .spawned, .thread 0 .returned, .thread 0 .check, .thread 0 (.delivered empty_message)]

/-- It finds the flag cleared and receives beside the second thread. -/
theorem old_thread_dispatches : ∃ s, run (step openMonitor) slow_stop .init = some s ∧
    s.threads = [.draining, .outer] ∧ s.thread = some 1 ∧ s.stop = false ∧
      [.told 0, .start, .dispatched 0].Sublist s.marks :=
  ⟨_, rfl, rfl, rfl, rfl, by decide⟩

end Z4jCelery.Events.Broker.Receiver
