import Z4jCelery.Engine.EventQueue
import Mathlib.Data.List.Perm.Basic
/-!
# No event is lost uncounted

`Conserved` is what every step of every process keeps: the queue is first in,
first out; every event of the process is delivered, queued, dropped, or in the
hands of a call; and the counter counts the dropped ones.
-/

namespace Z4jCelery.Engine.EventQueue

open Lib

variable {P α : Type} {maxsize : Nat}

/-! ## Calls in progress -/

/-- The steps a call still takes, at most. -/
def Call.steps : Call α → Nat
  | .put _ left => 3 * left + 4
  | .evict _ left => 3 * left + 3
  | .record _ _ left => 3 * left + 2
  | .exhausted _ => 1

@[simp] theorem next_held (event : α) (left : Nat) : (next event left).held = [event] := by cases left <;> rfl

theorem next_steps (event : α) (left : Nat) : (next event left).steps = 3 * left + 1 := by
  cases left with
  | zero => rfl
  | succ left => simp only [next, Call.steps]; omega

theorem perm_pick {calls : List (Call α)} {i : Nat} {c : Call α} (h : calls[i]? = some c) :
    (calls.flatMap Call.held).Perm (c.held ++ (calls.eraseIdx i).flatMap Call.held) := by
  obtain ⟨hi, rfl⟩ := List.getElem?_eq_some_iff.1 h
  rw [← List.flatMap_cons]
  exact (List.getElem_cons_eraseIdx_perm hi).symm.flatMap_right _

theorem perm_set {calls : List (Call α)} {i : Nat} {c : Call α} (h : calls[i]? = some c) (c' : Call α) :
    ((calls.set i c').flatMap Call.held).Perm (c'.held ++ (calls.eraseIdx i).flatMap Call.held) := by
  obtain ⟨hi, -⟩ := List.getElem?_eq_some_iff.1 h
  have hset : (calls.set i c')[i]? = some c' := List.getElem?_set_self hi
  have hp := perm_pick hset
  rwa [List.eraseIdx_set_eq] at hp

/-! ## The invariant -/

/-- In process `pid` the counter stands at `n` drops: its own counter does, or
it is still that of a parent and there were none. -/
def Counts (pid : P) (a : Adapter P α maxsize) (n : Nat) : Prop :=
  (a.event_loss_pid = pid ∧ a.event_loss_lock = false ∧ a.dropped_event_count = min n MAX_COUNT) ∨
    (a.event_loss_pid ≠ pid ∧ n = 0)

/-- The events of process `pid`, when those in `hands` are neither delivered nor
queued nor dropped. -/
structure Accounts (pid : P) (p : Process P α maxsize) (hands : List α) : Prop where
  fifo : p.ledger.removed ++ p.items = p.ledger.inherited ++ p.ledger.puts
  delivered : p.ledger.delivered.Sublist p.ledger.removed
  accounted : (p.ledger.inherited ++ p.ledger.offered).Perm
    (p.ledger.delivered ++ p.items ++ p.ledger.dropped ++ hands)
  counted : Counts pid p.adapter p.ledger.dropped.length

/-- What holds of a process at any time. -/
structure Conserved (pid : P) (p : Process P α maxsize) : Prop where
  accounts : Accounts pid p p.pending
  returns : ∀ c ∈ p.calls, c.steps ≤ 10

/-- The counter of `p'` is that of `p`, or one that the process made its own. -/
def Owned (pid : P) (p p' : Process P α maxsize) : Prop :=
  p'.adapter.event_loss_pid = p.adapter.event_loss_pid ∨ p'.adapter.event_loss_pid = pid

theorem Accounts.perm {pid : P} {p : Process P α maxsize} {hands hands' : List α} (h : Accounts pid p hands)
    (hp : hands.Perm hands') : Accounts pid p hands' :=
  ⟨h.fifo, h.delivered, h.accounted.trans (hp.append_left _), h.counted⟩

theorem Conserved.offer {pid : P} {p : Process P α maxsize} (h : Conserved pid p) (event : α) :
    Conserved pid (p.offer event) := by
  obtain ⟨⟨hfifo, hdel, hacc, hcount⟩, hreturns⟩ := h
  refine ⟨⟨hfifo, hdel, ?_, hcount⟩, fun c hc => ?_⟩
  · have hp : (p.offer event).pending = p.pending ++ [event] := by
      simp [Process.offer, Process.pending, Call.held]
    rw [hp, ← List.append_assoc]
    show (p.ledger.inherited ++ (p.ledger.offered ++ [event])).Perm _
    rw [← List.append_assoc]
    exact hacc.append_right [event]
  · rcases List.mem_append.1 hc with hc | hc
    · exact hreturns c hc
    · exact List.mem_singleton.1 hc ▸ Nat.le_refl 10

theorem Conserved.deliver {pid : P} {p p' : Process P α maxsize} (h : Conserved pid p) (hd : p.deliver = some p') :
    Conserved pid p' ∧ Owned pid p p' := by
  obtain ⟨⟨hfifo, hdel, hacc, hcount⟩, hreturns⟩ := h
  rw [Process.deliver, Option.map_eq_some_iff] at hd
  obtain ⟨⟨event, q⟩, hq, rfl⟩ := hd
  have hitems : p.items = event :: q.items := Queue.get_nowait_eq_some.1 hq
  rw [hitems] at hfifo hacc
  refine ⟨⟨⟨?_, hdel.append (List.Sublist.refl [event]), hacc.trans ?_, hcount⟩, hreturns⟩, .inl rfl⟩
  · show (p.ledger.removed ++ [event]) ++ q.items = _
    rw [List.append_assoc]
    exact hfifo
  · show (p.ledger.delivered ++ event :: q.items ++ p.ledger.dropped ++ p.pending).Perm
      ((p.ledger.delivered ++ [event]) ++ q.items ++ p.ledger.dropped ++ p.pending)
    simp

/-- The counter may change, if the queue does not. -/
theorem Accounts.with_adapter {pid : P} {p : Process P α maxsize} {hands : List α} (h : Accounts pid p hands)
    {a : Adapter P α maxsize} (hq : a.event_queue = p.adapter.event_queue)
    (hc : Counts pid a p.ledger.dropped.length) : Accounts pid { p with adapter := a } hands := by
  have hitems : a.event_queue.items = p.items := congrArg Queue.items hq
  refine ⟨?_, h.delivered, ?_, hc⟩
  · show p.ledger.removed ++ a.event_queue.items = _
    rw [hitems, h.fifo]
  · show (p.ledger.inherited ++ p.ledger.offered).Perm
      (p.ledger.delivered ++ a.event_queue.items ++ p.ledger.dropped ++ hands)
    rw [hitems]
    exact h.accounted

/-! ## What moves events -/

theorem Accounts.put {pid : P} {p : Process P α maxsize} {event : α} {hands : List α}
    (h : Accounts pid p (event :: hands)) {q : Queue α maxsize} (hq : p.adapter.event_queue.put_nowait event = some q) :
    Accounts pid { p.with_queue q with ledger := { p.ledger with puts := p.ledger.puts ++ [event] } } hands := by
  have hitems : q.items = p.items ++ [event] := (Queue.put_nowait_eq_some.1 hq).2
  refine ⟨?_, h.delivered, h.accounted.trans ?_, h.counted⟩
  · show p.ledger.removed ++ q.items = p.ledger.inherited ++ (p.ledger.puts ++ [event])
    rw [hitems, ← List.append_assoc, ← List.append_assoc, h.fifo]
  · show (p.ledger.delivered ++ p.items ++ p.ledger.dropped ++ event :: hands).Perm
      (p.ledger.delivered ++ q.items ++ p.ledger.dropped ++ hands)
    rw [hitems]
    simp only [List.append_assoc]
    refine List.Perm.append_left _ (List.Perm.append_left _ ?_)
    exact List.perm_middle

theorem Accounts.evict {pid : P} {p : Process P α maxsize} {hands : List α} (h : Accounts pid p hands) {event : α}
    {q : Queue α maxsize} (hq : p.adapter.event_queue.get_nowait = some (event, q)) :
    Accounts pid { p.with_queue q with ledger := { p.ledger with removed := p.ledger.removed ++ [event] } }
      (event :: hands) := by
  have hitems : p.items = event :: q.items := Queue.get_nowait_eq_some.1 hq
  obtain ⟨hfifo, hdel, hacc, hcount⟩ := h
  rw [hitems] at hfifo hacc
  refine ⟨?_, hdel.trans (List.sublist_append_left _ _), hacc.trans ?_, hcount⟩
  · show (p.ledger.removed ++ [event]) ++ q.items = _
    rw [List.append_assoc]
    exact hfifo
  · show (p.ledger.delivered ++ event :: q.items ++ p.ledger.dropped ++ hands).Perm
      (p.ledger.delivered ++ q.items ++ p.ledger.dropped ++ event :: hands)
    simp only [List.append_assoc, List.cons_append]
    refine List.Perm.append_left _ ?_
    rw [← List.append_assoc, ← List.append_assoc]
    exact List.perm_middle.symm

variable [DecidableEq P]

/-! ## The counter -/

theorem Counts.reset {pid : P} {a : Adapter P α maxsize} {n : Nat} (h : Counts pid a n) :
    reset_inherited_loss_counter pid a =
      { a with event_loss_lock := false, event_loss_pid := pid, dropped_event_count := min n MAX_COUNT } := by
  obtain ⟨queue, lock, loss_pid, count⟩ := a
  -- its own counter stays, an inherited one starts at zero with a lock of its own
  rcases h with ⟨rfl, rfl, rfl⟩ | ⟨hpid, rfl⟩
  · rw [reset_inherited_loss_counter, if_neg (not_not.2 rfl)]
  · rw [reset_inherited_loss_counter, if_pos hpid, Nat.zero_min]

theorem Counts.read {pid : P} {a : Adapter P α maxsize} {n : Nat} (h : Counts pid a n) :
    ∃ a', dropped_event_count pid a = some (min n MAX_COUNT, a') ∧ Counts pid a' n ∧ a'.event_queue = a.event_queue ∧
      a'.event_loss_pid = pid := by
  rw [dropped_event_count, h.reset]
  exact ⟨_, rfl, .inl ⟨rfl, rfl, rfl⟩, rfl, rfl⟩

/-- A drop is counted, and never waits for a lock. -/
theorem Counts.record {pid : P} {a : Adapter P α maxsize} {n : Nat} (h : Counts pid a n) :
    ∃ a', record_event_drop pid a = some a' ∧ Counts pid a' (n + 1) ∧ a'.event_queue = a.event_queue ∧
      a'.event_loss_pid = pid := by
  rw [record_event_drop, h.reset]
  refine ⟨_, rfl, .inl ⟨rfl, rfl, ?_⟩, rfl, rfl⟩
  simp only
  omega

theorem Conserved.read_count {pid : P} {p p' : Process P α maxsize} (h : Conserved pid p)
    (hr : p.read_count pid = some p') : Conserved pid p' ∧ Owned pid p p' := by
  obtain ⟨a, ha, hcounts, hqueue, hpid⟩ := h.accounts.counted.read
  rw [Process.read_count, ha] at hr
  obtain rfl := Option.some.inj hr
  exact ⟨⟨h.accounts.with_adapter hqueue hcounts, h.returns⟩, .inr hpid⟩

/-- A drop is counted, and the event leaves the hands of its call. -/
theorem Accounts.drop {pid : P} {p : Process P α maxsize} {event : α} {hands : List α}
    (h : Accounts pid p (event :: hands)) : ∃ a, record_event_drop pid p.adapter = some a ∧ a.event_loss_pid = pid ∧
      Accounts pid { p with adapter := a, ledger := { p.ledger with dropped := p.ledger.dropped ++ [event] } } hands := by
  obtain ⟨a, ha, hcount, hqueue, hpid⟩ := h.counted.record
  have hitems : a.event_queue.items = p.items := congrArg Queue.items hqueue
  refine ⟨a, ha, hpid, ?_, h.delivered, h.accounted.trans ?_, ?_⟩
  · show p.ledger.removed ++ a.event_queue.items = _
    rw [hitems]
    exact h.fifo
  · show (p.ledger.delivered ++ p.items ++ p.ledger.dropped ++ event :: hands).Perm
      (p.ledger.delivered ++ a.event_queue.items ++ (p.ledger.dropped ++ [event]) ++ hands)
    rw [hitems]
    simp
  · show Counts pid a (p.ledger.dropped ++ [event]).length
    rw [List.length_append]
    exact hcount

/-! ## A step of a call -/

/-- A step of a call moves events between its hands, the queue and the dropped,
and brings the call nearer to its return. -/
theorem Accounts.advance {pid : P} {p : Process P α maxsize} {c : Call α} {rest : List α}
    (h : Accounts pid p (c.held ++ rest)) : ∃ p' c', p.advance pid c = some (p', c') ∧
      Accounts pid p' (c'.elim [] Call.held ++ rest) ∧ (∀ d ∈ c', d.steps < c.steps) ∧ Owned pid p p' := by
  cases c with
  | put event left =>
    rw [Process.advance]
    cases hq : p.adapter.event_queue.put_nowait event with
    | none => exact ⟨p, _, rfl, h, by simp [Call.steps], .inl rfl⟩
    | some q => exact ⟨_, none, rfl, h.put hq, by simp, .inl rfl⟩
  | evict event left =>
    rw [Process.advance]
    cases hq : p.adapter.event_queue.get_nowait with
    | none =>
      refine ⟨p, _, rfl, ?_, ?_, .inl rfl⟩
      · rw [Option.elim_some, next_held]
        exact h
      · rintro d ⟨⟩
        rw [next_steps, Call.steps]
        omega
    | some dq =>
      obtain ⟨dropped, q⟩ := dq
      refine ⟨_, _, rfl, (h.evict hq).perm ?_, by simp [Call.steps], .inl rfl⟩
      exact List.Perm.swap event dropped rest
  | record event dropped left =>
    -- the evicted event is counted, and the call goes on with its own
    obtain ⟨a, ha, hpid, hdrop⟩ := (h.perm (List.Perm.swap dropped event rest)).drop
    rw [Process.advance, ha]
    refine ⟨_, _, rfl, ?_, ?_, .inr hpid⟩
    · rw [Option.elim_some, next_held]
      exact hdrop
    · rintro d ⟨⟩
      rw [next_steps, Call.steps]
      omega
  | exhausted event =>
    obtain ⟨a, ha, hpid, hdrop⟩ := h.drop
    rw [Process.advance, ha]
    exact ⟨_, none, rfl, hdrop, by simp, .inr hpid⟩

/-- A call in progress can make its step, whatever came between. -/
theorem Conserved.advance {pid : P} {p : Process P α maxsize} (h : Conserved pid p) {i : Nat} {c : Call α}
    (hc : p.calls[i]? = some c) : ∃ p' c', p.advance pid c = some (p', c') ∧
      Accounts pid p' (c'.elim [] Call.held ++ (p.calls.eraseIdx i).flatMap Call.held) ∧
      (∀ d ∈ c', d.steps < c.steps) ∧ Owned pid p p' := (h.accounts.perm (perm_pick hc)).advance

theorem Conserved.step_call {pid : P} {p p' : Process P α maxsize} (h : Conserved pid p) {i : Nat}
    (hs : p.step_call pid i = some p') : Conserved pid p' ∧ Owned pid p p' := by
  rw [Process.step_call] at hs
  cases hc : p.calls[i]? with
  | none => rw [hc] at hs; cases hs
  | some c =>
    obtain ⟨p₁, c', hadv, hacc, hsteps, howned⟩ := h.advance hc
    rw [hc] at hs
    simp only [hadv, Option.map_some] at hs
    obtain rfl := Option.some.inj hs
    have moved : ∀ {calls hands}, Accounts pid p₁ hands → Accounts pid { p₁ with calls := calls } hands :=
      fun hp => ⟨hp.fifo, hp.delivered, hp.accounted, hp.counted⟩
    refine ⟨?_, howned⟩
    cases c' with
    | none =>
      exact ⟨moved hacc, fun d hd => h.returns d (List.mem_of_mem_eraseIdx hd)⟩
    | some c' =>
      refine ⟨moved (hacc.perm (perm_set hc c').symm), fun d hd => ?_⟩
      rcases List.mem_or_eq_of_mem_set hd with hd | rfl
      · exact h.returns d hd
      · exact Nat.le_trans (Nat.le_of_lt (hsteps d rfl)) (h.returns c (List.mem_of_getElem? hc))

/-! ## Runs of the system -/

theorem update_eq_some {s : System P α maxsize} {pid q : P} {p r : Process P α maxsize}
    (h : Function.update s pid (some p) q = some r) : q = pid ∧ p = r ∨ s q = some r := by
  rw [Function.update_apply] at h
  split at h
  · exact .inl ⟨‹_›, Option.some.inj h⟩
  · exact .inr h

/-- A process that was there is still there. -/
theorem isSome_update {s : System P α maxsize} {q : P} (h : (s q).isSome) (pid : P) (p : Process P α maxsize) :
    (Function.update s pid (some p) q).isSome := by
  rw [Function.update_apply]
  split
  · rfl
  · exact h

/-- Every process is accounted for, and every counter is that of a process. -/
structure Inv (s : System P α maxsize) : Prop where
  conserved : ∀ pid p, s pid = some p → Conserved pid p
  owners : ∀ pid p, s pid = some p → (s p.adapter.event_loss_pid).isSome

theorem inv_init (pid : P) : Inv (init pid : System P α maxsize) := by
  have only : ∀ q p, (init pid : System P α maxsize) q = some p →
      q = pid ∧ p = ⟨⟨Queue.empty, false, pid, 0⟩, [], ⟨[], [], [], [], [], []⟩⟩ := by
    intro q p hp
    rcases update_eq_some hp with ⟨hq, h⟩ | h
    · exact ⟨hq, h.symm⟩
    · cases h
  refine ⟨fun q p hp => ?_, fun q p hp => ?_⟩
  · obtain ⟨rfl, rfl⟩ := only q p hp
    exact ⟨⟨rfl, List.Sublist.refl [], List.Perm.refl [], .inl ⟨rfl, rfl, rfl⟩⟩, by simp⟩
  · obtain ⟨rfl, rfl⟩ := only q p hp
    simp [init]

theorem Inv.within {s s' : System P α maxsize} (h : Inv s) {pid : P}
    {f : Process P α maxsize → Option (Process P α maxsize)}
    (hf : ∀ p p', Conserved pid p → f p = some p' → Conserved pid p' ∧ Owned pid p p')
    (hs : within s pid f = some s') : Inv s' := by
  rw [EventQueue.within, Option.map_eq_some_iff] at hs
  obtain ⟨p', hp', rfl⟩ := hs
  obtain ⟨p, hp, hfp⟩ := Option.bind_eq_some_iff.1 hp'
  obtain ⟨hcons, howned⟩ := hf p p' (h.conserved pid p hp) hfp
  refine ⟨fun q r hr => ?_, fun q r hr => isSome_update ?_ pid p'⟩
  · rcases update_eq_some hr with ⟨rfl, rfl⟩ | hr
    · exact hcons
    · exact h.conserved q r hr
  · rcases update_eq_some hr with ⟨rfl, rfl⟩ | hr
    · rcases howned with he | he
      · rw [he]
        exact h.owners q p hp
      · rw [he, hp]
        rfl
    · exact h.owners q r hr

omit [DecidableEq P] in
theorem Conserved.fork {s : System P α maxsize} (h : Inv s) {parent child : P} {p : Process P α maxsize}
    (hp : s parent = some p) (hc : s child = none) (locked : Bool) : Conserved child (p.fork locked) := by
  -- the counter belongs to a process that exists, and the child did not
  have hne : p.adapter.event_loss_pid ≠ child := by
    rintro rfl
    have := h.owners parent p hp
    rw [hc] at this
    cases this
  refine ⟨⟨?_, List.Sublist.refl [], ?_, .inr ⟨hne, rfl⟩⟩, by simp [Process.fork]⟩
  · simp [Process.fork, Process.items]
  · simp [Process.fork, Process.items, Process.pending]

theorem inv_step {s s' : System P α maxsize} {e : Event P α} (h : Inv s) (hs : step s e = some s') : Inv s' := by
  cases e with
  | call pid event =>
    refine h.within (fun p p' hp he => ?_) hs
    rw [← Option.some.inj he]
    exact ⟨hp.offer event, .inl rfl⟩
  | step pid i => exact h.within (fun p p' hp he => hp.step_call he) hs
  | get pid => exact h.within (fun p p' hp he => hp.deliver he) hs
  | read pid => exact h.within (fun p p' hp he => hp.read_count he) hs
  | fork parent child locked =>
    rw [step] at hs
    split at hs
    · rename_i p hp hc
      rw [← Option.some.inj hs]
      refine ⟨fun q r hr => ?_, fun q r hr => isSome_update ?_ child (p.fork locked)⟩
      · rcases update_eq_some hr with ⟨rfl, rfl⟩ | hr
        · exact Conserved.fork h hp hc locked
        · exact h.conserved q r hr
      · rcases update_eq_some hr with ⟨rfl, rfl⟩ | hr
        · exact h.owners parent p hp
        · exact h.owners q r hr
    · cases hs

theorem inv_run {pid : P} {es : List (Event P α)} {s : System P α maxsize} (h : run step es (init pid) = some s) :
    Inv s := run_inv (fun _ _ _ hi he => inv_step hi he) h (inv_init pid)

/-! ## A call that nothing interrupts -/

/-- What a call that nothing interrupts evicts: the oldest event of a full queue. -/
def evicted (p : Process P α maxsize) : List α := if p.items.length = maxsize then p.items.take 1 else []

/-- The steps it takes: one to put, or four when it has to evict first. -/
def steps_alone (p : Process P α maxsize) : Nat := if p.items.length = maxsize then 4 else 1

section Steps
variable {pid : P} {p : Process P α maxsize} {event : α} {left : Nat}

theorem advance_put {q : Queue α maxsize} (h : p.adapter.event_queue.put_nowait event = some q) :
    p.advance pid (.put event left) =
      some ({ p.with_queue q with ledger := { p.ledger with puts := p.ledger.puts ++ [event] } }, none) := by
  rw [Process.advance, h]

theorem advance_full (h : p.adapter.event_queue.put_nowait event = none) :
    p.advance pid (.put event left) = some (p, some (.evict event left)) := by rw [Process.advance, h]

theorem advance_evict {dropped : α} {q : Queue α maxsize}
    (h : p.adapter.event_queue.get_nowait = some (dropped, q)) :
    p.advance pid (.evict event left) =
      some ({ p.with_queue q with ledger := { p.ledger with removed := p.ledger.removed ++ [dropped] } },
        some (.record event dropped left)) := by rw [Process.advance, h]

theorem advance_record {dropped : α} {a : Adapter P α maxsize} (h : record_event_drop pid p.adapter = some a) :
    p.advance pid (.record event dropped left) =
      some ({ p with adapter := a, ledger := { p.ledger with dropped := p.ledger.dropped ++ [dropped] } },
        some (next event left)) := by rw [Process.advance, h]; rfl

end Steps

theorem step_call_last {pid : P} {p p' : Process P α maxsize} {calls : List (Call α)} {c : Call α}
    {c' : Option (Call α)} (hcalls : p.calls = calls ++ [c]) (hadv : p.advance pid c = some (p', c')) :
    p.step_call pid calls.length = some { p' with calls := calls ++ c'.toList } := by
  rw [Process.step_call, hcalls, List.getElem?_concat_length]
  simp only [hadv, Option.map_some]
  cases c' with
  | none => simp [List.eraseIdx_append_of_length_le]
  | some c' => simp

/-- The event is admitted, at the cost of the oldest when the queue is full; the
code of the call does to the adapter what its steps do. -/
theorem enqueue_alone (hm : 0 < maxsize) {pid : P} {p : Process P α maxsize} (h : Conserved pid p) (event : α) :
    ∃ p', run (fun p i => p.step_call pid i) (List.replicate (steps_alone p) p.calls.length) (p.offer event) = some p' ∧
      p'.calls = p.calls ∧ enqueue_event pid event p.adapter = some p'.adapter ∧
      evicted p ++ p'.items = p.items ++ [event] ∧
      p'.ledger = { p.ledger with
        offered := p.ledger.offered ++ [event]
        puts := p.ledger.puts ++ [event]
        removed := p.ledger.removed ++ evicted p
        dropped := p.ledger.dropped ++ evicted p } := by
  by_cases hfull : p.items.length = maxsize
  · have hput : p.adapter.event_queue.put_nowait event = none := Queue.put_nowait_eq_none.2 hfull
    obtain ⟨⟨d, q⟩, hget⟩ : ∃ dq, p.adapter.event_queue.get_nowait = some dq :=
      Option.ne_none_iff_exists'.1 fun hn => by
        rw [show p.items = [] from Queue.get_nowait_eq_none.1 hn] at hfull
        exact absurd hfull (Nat.ne_of_lt hm)
    have hd : p.items = d :: q.items := Queue.get_nowait_eq_some.1 hget
    have hcount : Counts pid { p.adapter with event_queue := q } p.ledger.dropped.length := h.accounts.counted
    obtain ⟨a, ha, -, hqueue, -⟩ := hcount.record
    obtain ⟨q', hput'⟩ : ∃ q', a.event_queue.put_nowait event = some q' :=
      Option.ne_none_iff_exists'.1 fun hn => by
        have hlen := Queue.put_nowait_eq_none.1 hn
        rw [show a.event_queue = q from hqueue] at hlen
        rw [hd, List.length_cons, hlen] at hfull
        exact absurd hfull (Nat.succ_ne_self _)
    have hq' : q'.items = q.items ++ [event] := by
      rw [(Queue.put_nowait_eq_some.1 hput').2, hqueue]
    -- The four steps: the put that fails, the eviction, its record, and the put.
    let p₁ : Process P α maxsize := { p.offer event with calls := p.calls ++ [.evict event 2] }
    let p₂ : Process P α maxsize := ⟨{ p.adapter with event_queue := q }, p.calls ++ [.record event d 2],
      { p.ledger with offered := p.ledger.offered ++ [event], removed := p.ledger.removed ++ [d] }⟩
    let p₃ : Process P α maxsize := ⟨a, p.calls ++ [.put event 1], { p.ledger with
      offered := p.ledger.offered ++ [event], removed := p.ledger.removed ++ [d]
      dropped := p.ledger.dropped ++ [d] }⟩
    let p₄ : Process P α maxsize := ⟨{ a with event_queue := q' }, p.calls, { p.ledger with
      offered := p.ledger.offered ++ [event], puts := p.ledger.puts ++ [event]
      removed := p.ledger.removed ++ [d], dropped := p.ledger.dropped ++ [d] }⟩
    have h₁ : (p.offer event).step_call pid p.calls.length = some p₁ :=
      step_call_last (p := p.offer event) rfl (advance_full hput)
    have h₂ : p₁.step_call pid p.calls.length = some p₂ :=
      step_call_last (p := p₁) rfl (advance_evict hget)
    have h₃ : p₂.step_call pid p.calls.length = some p₃ :=
      step_call_last (p := p₂) rfl (advance_record ha)
    have h₄ : p₃.step_call pid p.calls.length = some p₄ :=
      (step_call_last (p := p₃) rfl (advance_put hput')).trans (by rw [Option.toList_none, List.append_nil]; rfl)
    refine ⟨p₄, ?_, rfl, ?_, ?_, ?_⟩
    · rw [steps_alone, if_pos hfull]
      exact run_cons.2 ⟨p₁, h₁, run_cons.2 ⟨p₂, h₂, run_cons.2 ⟨p₃, h₃, run_cons.2 ⟨p₄, h₄, rfl⟩⟩⟩⟩
    · rw [enqueue_event, enqueue_attempts, hput, hget]
      simp only [ha, Option.bind_some]
      rw [enqueue_attempts, hput']
    · rw [evicted, if_pos hfull, hd]
      show [d] ++ q'.items = _
      rw [hq']
      rfl
    · rw [evicted, if_pos hfull, hd]
      rfl
  · obtain ⟨q, hq⟩ : ∃ q, p.adapter.event_queue.put_nowait event = some q :=
      Option.ne_none_iff_exists'.1 fun hn => hfull (Queue.put_nowait_eq_none.1 hn)
    refine ⟨⟨{ p.adapter with event_queue := q }, p.calls, { p.ledger with
      offered := p.ledger.offered ++ [event], puts := p.ledger.puts ++ [event] }⟩, ?_, rfl, ?_, ?_, ?_⟩
    · rw [steps_alone, if_neg hfull, List.replicate_one, run_cons]
      refine ⟨_, step_call_last rfl (advance_put hq), ?_⟩
      rw [Option.toList_none, List.append_nil]
      rfl
    · rw [enqueue_event, enqueue_attempts, hq]
    · rw [evicted, if_neg hfull]
      exact (Queue.put_nowait_eq_some.1 hq).2
    · rw [evicted, if_neg hfull, List.append_nil, List.append_nil]

/-- The steps of a call in process `pid` that nothing interrupts. -/
def alone (s : System P α maxsize) (pid : P) (event : α) : List (Event P α) :=
  .call pid event :: match s pid with
    | some p => List.replicate (steps_alone p) (.step pid p.calls.length)
    | none => []

/-- A run within one process. -/
theorem run_within {s : System P α maxsize} {pid : P} {p p' : Process P α maxsize} (hp : s pid = some p)
    {is : List Nat} (h : run (fun p i => p.step_call pid i) is p = some p') :
    run step (is.map (Event.step pid)) s = some (Function.update s pid (some p')) := by
  induction is generalizing s p with
  | nil =>
    rw [← Option.some.inj h, ← hp, Function.update_eq_self]
    rfl
  | cons i is ih =>
    obtain ⟨t, ht, hrun⟩ := run_cons.1 h
    rw [List.map_cons, run_cons]
    refine ⟨Function.update s pid (some t), ?_, ?_⟩
    · rw [step, within, hp, Option.bind_some, ht, Option.map_some]
    · rw [ih (Function.update_self ..) hrun, Function.update_idem]

theorem run_alone (hm : 0 < maxsize) {s : System P α maxsize} {pid : P} {p : Process P α maxsize} (hp : s pid = some p)
    (h : Conserved pid p) (event : α) :
    ∃ p', run step (alone s pid event) s = some (Function.update s pid (some p')) ∧ p'.calls = p.calls ∧
      enqueue_event pid event p.adapter = some p'.adapter ∧ evicted p ++ p'.items = p.items ++ [event] ∧
      p'.ledger = { p.ledger with
        offered := p.ledger.offered ++ [event]
        puts := p.ledger.puts ++ [event]
        removed := p.ledger.removed ++ evicted p
        dropped := p.ledger.dropped ++ evicted p } := by
  obtain ⟨p', hrun, hrest⟩ := enqueue_alone hm h event
  refine ⟨p', ?_, hrest⟩
  rw [alone, hp, run_cons]
  refine ⟨Function.update s pid (some (p.offer event)), ?_, ?_⟩
  · rw [step, within, hp, Option.bind_some, Option.map_some]
  · have h := run_within (Function.update_self pid (some (p.offer event)) s) hrun
    rw [List.map_replicate, Function.update_idem] at h
    exact h

/-! ## Runs without interruptions -/

inductive Op (P α : Type) where
  | enqueue (pid : P) (event : α)
  | get (pid : P)
  | read (pid : P)
  | fork (parent child : P) (locked : Bool)

def Op.events (s : System P α maxsize) : Op P α → List (Event P α)
  | .enqueue pid event => alone s pid event
  | .get pid => [.get pid]
  | .read pid => [.read pid]
  | .fork parent child locked => [.fork parent child locked]

def perform (s : System P α maxsize) (op : Op P α) : Option (System P α maxsize) := run step (op.events s) s

/-- No call is in progress, and every event offered was put. -/
def Settled (p : Process P α maxsize) : Prop := p.calls = [] ∧ p.ledger.puts = p.ledger.offered

/-- Every process is settled. -/
def Quiet (s : System P α maxsize) : Prop := Inv s ∧ ∀ pid p, s pid = some p → Settled p

/-- The account of process `pid` in state `s`. A call in progress can always go
on and returns within ten steps; one that nothing interrupts admits its event,
and evicts the oldest when the queue is full. -/
structure Exact (s : System P α maxsize) (pid : P) (p : Process P α maxsize) : Prop where
  in_order : p.ledger.delivered.Sublist (p.ledger.inherited ++ p.ledger.puts)
  accounted : (p.ledger.inherited ++ p.ledger.offered).Perm
    (p.ledger.delivered ++ p.items ++ p.ledger.dropped ++ p.pending)
  counted : ∃ a, dropped_event_count pid p.adapter = some (min p.ledger.dropped.length MAX_COUNT, a)
  returns : ∀ (i : Nat) c, p.calls[i]? = some c → c.steps ≤ 10 ∧
    ∃ p' c', p.advance pid c = some (p', c') ∧ ∀ d ∈ c', d.steps < c.steps
  admitted : 0 < maxsize → ∀ event, ∃ p',
    run step (alone s pid event) s = some (Function.update s pid (some p')) ∧ p'.calls = p.calls ∧
    enqueue_event pid event p.adapter = some p'.adapter ∧ evicted p ++ p'.items = p.items ++ [event] ∧
    p'.ledger.dropped = p.ledger.dropped ++ evicted p

theorem Inv.exact {s : System P α maxsize} (h : Inv s) {pid : P} {p : Process P α maxsize} (hp : s pid = some p) :
    Exact s pid p where
  in_order := by
    have hcons := (h.conserved pid p hp).accounts
    rw [← hcons.fifo]
    exact hcons.delivered.trans (List.sublist_append_left _ _)
  accounted := (h.conserved pid p hp).accounts.accounted
  counted := by
    obtain ⟨a, ha, -⟩ := (h.conserved pid p hp).accounts.counted.read
    exact ⟨a, ha⟩
  returns := by
    intro i c hc
    obtain ⟨p', c', hadv, -, hsteps, -⟩ := (h.conserved pid p hp).advance hc
    exact ⟨(h.conserved pid p hp).returns c (List.mem_of_getElem? hc), p', c', hadv, hsteps⟩
  admitted := by
    intro hm event
    obtain ⟨p', hrun, hcalls, hcode, hitems, hledger⟩ := run_alone hm hp (h.conserved pid p hp) event
    exact ⟨p', hrun, hcalls, hcode, hitems, by rw [hledger]⟩

end Z4jCelery.Engine.EventQueue
