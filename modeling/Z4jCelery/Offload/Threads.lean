import Z4jCelery.Offload.Calls.Serial
import Mathlib.Logic.Function.Basic
/-!
# Calls of several steps

In `Calls.step` a call takes effect at one instant. Here its function is a
`Thread`, which acts on the outside world step by step, and the steps of the
running calls interleave. A run does what its steps do one after another
(`run_threads`). If each function acts once at most, its calls are those of
`Calls.step`, and the run is a sequence of calls; a function that reads and then
writes can lose an update (`update_lost`).
-/

namespace Z4jCelery.Offload.Threads

open Py Lib Calls

variable {J σ α : Type}

/-! ## Functions -/

/-- What a function has left to do: it returned or raised, or it acts on the
outside world and goes on by what it saw there. -/
inductive Thread (σ α : Type) where
  | done (r : Except Exn α)
  | act (f : σ → σ) (next : σ → Thread σ α)

namespace Thread

/-- The function to its end, with nothing in between. -/
def whole : Thread σ α → PyM σ α
  | done (.ok a), w => .ok a w
  | done (.error e), w => .error e w
  | act f next, w => whole (next w) (f w)

/-- It acts on the outside world once at most. -/
def Once : Thread σ α → Prop
  | done _ => True
  | act _ next => ∀ w, ∃ r, next w = done r

theorem whole_done (r : Except Exn α) (w : σ) : outcome (whole (done r) w) = r ∧ final (whole (done r) w) = w := by
  cases r with
  | ok a => exact ⟨rfl, rfl⟩
  | error e => exact ⟨rfl, rfl⟩

end Thread

/-! ## The machine -/

/-- What is left of each call, and `log`, the calls in the order of their steps
on the outside world. -/
structure State (J σ α : Type) where
  pool : Pool J MAX_WORKERS
  world : σ
  left : J → Thread σ α
  log : List J
  returned : List (J × Except Exn α)
  expired : List J

namespace State

def init (programs : J → Thread σ α) (w : σ) : State J σ α := ⟨.empty, w, programs, [], [], []⟩

/-- The callers that wait no more. -/
def settled (s : State J σ α) : List J := s.returned.map Prod.fst ++ s.expired

def answers (s : State J σ α) : List (J × Except Exn α) :=
  s.returned ++ s.expired.map fun j => (j, .error offloadTimeoutError)

end State

variable [DecidableEq J]

/-- One step of a call on the outside world, if it has one left. -/
def act (p : (J → Thread σ α) × σ) (j : J) : Option ((J → Thread σ α) × σ) :=
  match p.1 j with
  | .done _ => none
  | .act f next => some (Function.update p.1 j (next p.2), f p.2)

/-- As `Calls.step`; but `act j` is one step of `j`, and its thread is free once
`j` has none left. -/
def step (s : State J σ α) : Event J → Option (State J σ α)
  | .submit j => (s.pool.submit j).map fun pool => { s with pool := pool }
  | .start => s.pool.start.map fun pool => { s with pool := pool }
  | .act j =>
    if j ∈ s.pool.running then
      (act (s.left, s.world) j).map fun p => { s with left := p.1, world := p.2, log := s.log ++ [j] }
    else none
  | .finish j =>
    match s.left j with
    | .done _ => (s.pool.finish j).map fun pool => { s with pool := pool }
    | .act _ _ => none
  | .answer j =>
    match s.left j with
    | .done r =>
      if j ∈ s.pool.ended ∧ j ∉ s.settled then some { s with returned := s.returned ++ [(j, answered r)] } else none
    | .act _ _ => none
  | .expire j =>
    if j ∈ s.pool.submitted ∧ j ∉ s.settled then
      some { s with pool := s.pool.cancel j, expired := s.expired ++ [j] }
    else none

/-- What an event does. -/
inductive Steps (s : State J σ α) : Event J → State J σ α → Prop where
  | submit {j : J} {pool : Pool J MAX_WORKERS} : s.pool.submit j = some pool → Steps s (.submit j) { s with pool := pool }
  | start {pool : Pool J MAX_WORKERS} : s.pool.start = some pool → Steps s .start { s with pool := pool }
  | act {j : J} {f : σ → σ} {next : σ → Thread σ α} : j ∈ s.pool.running → s.left j = .act f next → Steps s (.act j)
      { s with left := Function.update s.left j (next s.world), world := f s.world, log := s.log ++ [j] }
  | finish {j : J} {r : Except Exn α} {pool : Pool J MAX_WORKERS} : s.left j = .done r → s.pool.finish j = some pool →
      Steps s (.finish j) { s with pool := pool }
  | answer {j : J} {r : Except Exn α} : s.left j = .done r → j ∈ s.pool.ended → j ∉ s.settled →
      Steps s (.answer j) { s with returned := s.returned ++ [(j, answered r)] }
  | expire {j : J} : j ∈ s.pool.submitted → j ∉ s.settled →
      Steps s (.expire j) { s with pool := s.pool.cancel j, expired := s.expired ++ [j] }

variable {programs : J → Thread σ α} {w : σ} {s s' : State J σ α} {e : Event J}

theorem act_eq_some {left : J → Thread σ α} {j : J} {p : (J → Thread σ α) × σ} : act (left, w) j = some p ↔
    ∃ f next, left j = .act f next ∧ p = (Function.update left j (next w), f w) := by
  unfold act
  constructor
  · intro h
    simp only at h
    split at h
    · cases h
    · rename_i f next hleft
      exact ⟨f, next, hleft, (Option.some.inj h).symm⟩
  · rintro ⟨f, next, hleft, rfl⟩
    simp only [hleft]

theorem step_cases (h : step s e = some s') : Steps s e s' := by
  cases e with
  | submit j =>
    obtain ⟨pool, hpool, rfl⟩ := Option.map_eq_some_iff.1 h
    exact .submit hpool
  | start =>
    obtain ⟨pool, hpool, rfl⟩ := Option.map_eq_some_iff.1 h
    exact .start hpool
  | act j =>
    rw [step] at h
    split at h
    · rename_i hj
      obtain ⟨p, hp, rfl⟩ := Option.map_eq_some_iff.1 h
      obtain ⟨f, next, hleft, rfl⟩ := act_eq_some.1 hp
      exact .act hj hleft
    · cases h
  | finish j =>
    rw [step] at h
    split at h
    · rename_i r hleft
      obtain ⟨pool, hpool, rfl⟩ := Option.map_eq_some_iff.1 h
      exact .finish hleft hpool
    · cases h
  | answer j =>
    rw [step] at h
    split at h
    · rename_i r hleft
      split at h
      · rename_i hj
        exact Option.some.inj h ▸ .answer hleft hj.1 hj.2
      · cases h
    · cases h
  | expire j =>
    rw [step] at h
    split at h
    · rename_i hj
      exact Option.some.inj h ▸ .expire hj.1 hj.2
    · cases h

/-! ## The invariant -/

structure Inv (programs : J → Thread σ α) (w : σ) (s : State J σ α) : Prop where
  accounted : s.pool.Accounted
  replayed : run act s.log (programs, w) = some (s.left, s.world)
  acted_started : ∀ j ∈ s.log, j ∈ s.pool.started
  ended_done : ∀ j ∈ s.pool.ended, ∃ r, s.left j = .done r
  settled_once : s.settled.Nodup
  returned_result : ∀ x ∈ s.returned, x.1 ∈ s.pool.ended ∧ ∃ r, s.left x.1 = .done r ∧ x.2 = answered r
  expired_submitted : ∀ j ∈ s.expired, j ∈ s.pool.submitted

theorem inv_init : Inv programs w (State.init programs w) :=
  ⟨Pool.accounted_empty, rfl, nofun, nofun, List.nodup_nil, nofun, nofun⟩

theorem Inv.start (h : Inv programs w s) {pool : Pool J MAX_WORKERS} (hp : s.pool.start = some pool) :
    Inv programs w { s with pool := pool } := by
  have hacc := h.accounted.start hp
  obtain ⟨j, waiting, -, -, -, -, hst, hsub, hend, -⟩ := Pool.start_cases hp
  refine ⟨hacc, h.replayed, ?_, ?_, h.settled_once, ?_, ?_⟩
  · intro k hk
    rw [hst]
    exact List.mem_append_left _ (h.acted_started k hk)
  · exact fun k hk => h.ended_done k (hend ▸ hk)
  · exact fun x hx => ⟨hend ▸ (h.returned_result x hx).1, (h.returned_result x hx).2⟩
  · exact fun k hk => hsub ▸ h.expired_submitted k hk

theorem Inv.act (h : Inv programs w s) {j : J} {f : σ → σ} {next : σ → Thread σ α} (hrun : j ∈ s.pool.running)
    (hleft : s.left j = .act f next) : Inv programs w
      { s with left := Function.update s.left j (next s.world), world := f s.world, log := s.log ++ [j] } := by
  -- A call with a step left is no other than one whose thread is busy.
  have hkeep : ∀ {k r}, s.left k = .done r → Function.update s.left j (next s.world) k = .done r := by
    intro k r hk
    rw [Function.update_of_ne, hk]
    rintro rfl
    rw [hk] at hleft
    cases hleft
  refine ⟨h.accounted, ?_, ?_, ?_, h.settled_once, ?_, h.expired_submitted⟩
  · rw [run_append, h.replayed]
    exact run_one.trans (act_eq_some.2 ⟨f, next, hleft, rfl⟩)
  · intro k hk
    rcases List.mem_append.1 hk with hk | hk
    · exact h.acted_started k hk
    · obtain rfl := List.mem_singleton.1 hk
      exact h.accounted.started_of_running hrun
  · intro k hk
    obtain ⟨r, hr⟩ := h.ended_done k hk
    exact ⟨r, hkeep hr⟩
  · intro x hx
    obtain ⟨hend, r, hr, hx⟩ := h.returned_result x hx
    exact ⟨hend, r, hkeep hr, hx⟩

theorem Inv.finish (h : Inv programs w s) {j : J} {r : Except Exn α} {pool : Pool J MAX_WORKERS}
    (hleft : s.left j = .done r) (hp : s.pool.finish j = some pool) : Inv programs w { s with pool := pool } := by
  have hacc := h.accounted.finish hp
  obtain ⟨-, -, hend, -, hsub, hst, -⟩ := Pool.finish_cases hp
  refine ⟨hacc, h.replayed, ?_, ?_, h.settled_once, ?_, ?_⟩
  · exact fun k hk => hst ▸ h.acted_started k hk
  · intro k hk
    rw [hend] at hk
    rcases List.mem_append.1 hk with hk | hk
    · exact h.ended_done k hk
    · obtain rfl := List.mem_singleton.1 hk
      exact ⟨r, hleft⟩
  · intro x hx
    obtain ⟨hx', hres⟩ := h.returned_result x hx
    exact ⟨hend ▸ List.mem_append_left _ hx', hres⟩
  · exact fun k hk => hsub ▸ h.expired_submitted k hk

theorem inv_step (h : Steps s e s') (hi : Inv programs w s) : Inv programs w s' := by
  cases h with
  | submit hp =>
    have hacc := hi.accounted.submit hp
    obtain ⟨-, rfl⟩ := Pool.submit_cases hp
    exact ⟨hacc, hi.replayed, hi.acted_started, hi.ended_done, hi.settled_once, hi.returned_result,
      fun k hk => List.mem_append_left _ (hi.expired_submitted k hk)⟩
  | start hp => exact hi.start hp
  | act hrun hleft => exact hi.act hrun hleft
  | finish hleft hp => exact hi.finish hleft hp
  | @answer j r hleft hend hnot =>
    refine ⟨hi.accounted, hi.replayed, hi.acted_started, hi.ended_done, ?_, ?_, hi.expired_submitted⟩
    · show ((s.returned ++ [(j, answered r)]).map Prod.fst ++ s.expired).Nodup
      rw [List.map_append, List.append_assoc]
      have hperm : (s.returned.map Prod.fst ++ ([j] ++ s.expired)).Perm (j :: s.settled) := List.perm_middle
      exact hperm.nodup_iff.2 (List.nodup_cons.2 ⟨hnot, hi.settled_once⟩)
    · intro x hx
      rcases List.mem_append.1 hx with hx | hx
      · exact hi.returned_result x hx
      · obtain rfl := List.mem_singleton.1 hx
        exact ⟨hend, r, hleft, rfl⟩
  | @expire j hsub hnot =>
    refine ⟨hi.accounted.cancel j, hi.replayed, ?_, ?_, ?_, ?_, ?_⟩
    · simpa only [Pool.cancel_started] using hi.acted_started
    · simpa only [Pool.cancel_ended] using hi.ended_done
    · show (s.returned.map Prod.fst ++ (s.expired ++ [j])).Nodup
      rw [← List.append_assoc]
      exact List.nodup_append.2 ⟨hi.settled_once, List.nodup_singleton j, fun a ha b hb => by
        rw [List.mem_singleton.1 hb]
        rintro rfl
        exact hnot ha⟩
    · simpa only [Pool.cancel_ended] using hi.returned_result
    · simp only [Pool.cancel_submitted, List.forall_mem_append, List.forall_mem_singleton]
      exact ⟨hi.expired_submitted, hsub⟩

theorem run_inv {es : List (Event J)} (h : run step es (State.init programs w) = some s) : Inv programs w s :=
  Lib.run_inv (fun _ _ _ hi hs => inv_step (step_cases hs) hi) h inv_init

/-! ## Functions that act once -/

/-- The whole functions, which a run of `Calls.step` carries out. -/
def wholes (programs : J → Thread σ α) (j : J) : PyM σ α := (programs j).whole

/-- The state of `Calls.step` that has come as far. A call that never acts takes
effect there when its thread ends. -/
structure Abstracts (programs : J → Thread σ α) (s : State J σ α) (c : Calls.State J σ α) : Prop where
  pool : c.pool = s.pool
  world : c.world = s.world
  returned : c.returned = s.returned
  expired : c.expired = s.expired
  acted : ∀ j, j ∈ c.acted ↔ j ∈ s.log ∨ j ∈ s.pool.ended
  results : ∀ x ∈ c.results, s.left x.1 = .done x.2
  idle : ∀ j, j ∉ c.acted → s.left j = programs j
  in_order : s.log.Sublist c.acted

namespace Abstracts
variable {c : Calls.State J σ α}

omit [DecidableEq J] in
theorem init : Abstracts programs (State.init programs w) (Calls.State.init w) := by
  refine ⟨rfl, rfl, rfl, rfl, fun j => ?_, nofun, fun _ _ => rfl, .refl _⟩
  exact iff_of_false List.not_mem_nil (not_or.2 ⟨List.not_mem_nil, List.not_mem_nil⟩)

omit [DecidableEq J] in
theorem settled (h : Abstracts programs s c) : c.settled = s.settled := by
  rw [Calls.State.settled, State.settled, h.returned, h.expired]

omit [DecidableEq J] in
theorem answers (h : Abstracts programs s c) : c.answers = s.answers := by
  rw [Calls.State.answers, State.answers, h.returned, h.expired]

omit [DecidableEq J] in
/-- A call that took effect has nothing left. -/
theorem done_of_acted (h : Abstracts programs s c) {j : J} (hj : j ∈ c.acted) : ∃ r, (j, r) ∈ c.results ∧ s.left j = .done r := by
  obtain ⟨⟨k, r⟩, hr, rfl⟩ := List.mem_map.1 hj
  exact ⟨r, hr, h.results _ hr⟩

omit [DecidableEq J] in
/-- A change of the pool alone, in which no call ends. -/
theorem withPool (h : Abstracts programs s c) {pool : Pool J MAX_WORKERS} (hend : pool.ended = s.pool.ended) :
    Abstracts programs { s with pool := pool } { c with pool := pool } :=
  ⟨rfl, h.world, h.returned, h.expired, fun j => hend.symm ▸ h.acted j, h.results, h.idle, h.in_order⟩

/-- The step of a call that acts once: there it takes effect. -/
theorem act (h : Abstracts programs s c) {j : J} {f : σ → σ} {next : σ → Thread σ α} {r : Except Exn α}
    (hrun : j ∈ s.pool.running) (hleft : s.left j = .act f next) (hr : next s.world = .done r) :
    ∃ c', Calls.step (wholes programs) c (.act j) = some c' ∧ Abstracts programs
      { s with left := Function.update s.left j (next s.world), world := f s.world, log := s.log ++ [j] } c' := by
  have hnot : j ∉ c.acted := by
    intro hj
    obtain ⟨r, -, hr⟩ := h.done_of_acted hj
    rw [hr] at hleft
    cases hleft
  have hwhole : wholes programs j c.world = Thread.whole (.done r) (f s.world) := by
    rw [wholes, ← h.idle j hnot, hleft, h.world, Thread.whole, hr]
  obtain ⟨hout, hfin⟩ := Thread.whole_done r (f s.world)
  refine ⟨_, if_pos ⟨h.pool ▸ hrun, hnot⟩, ?_⟩
  rw [hwhole, hout, hfin]
  have hacted : (c.results ++ [(j, r)]).map Prod.fst = c.acted ++ [j] := List.map_append
  have hother : ∀ {k}, k ≠ j → Function.update s.left j (next s.world) k = s.left k := fun hk => Function.update_of_ne hk _ _
  refine ⟨h.pool, rfl, h.returned, h.expired, ?_, ?_, ?_, ?_⟩
  · intro k
    rw [Calls.State.acted, hacted, List.mem_append, List.mem_append, h.acted, or_right_comm]
  · intro x hmem
    rcases List.mem_append.1 hmem with hx | hx
    · refine (hother fun hxj => hnot ?_).trans (h.results x hx)
      exact hxj ▸ List.mem_map_of_mem hx
    · obtain rfl := List.mem_singleton.1 hx
      exact (Function.update_self j _ s.left).trans hr
  · intro k hk
    rw [Calls.State.acted, hacted, List.mem_append, not_or, List.mem_singleton] at hk
    exact (hother hk.2).trans (h.idle k hk.1)
  · rw [Calls.State.acted, hacted]
    exact h.in_order.append_right [j]

/-- A thread ends. A call that never acted takes effect now, and does nothing. -/
theorem finish (h : Abstracts programs s c) {j : J} {r : Except Exn α} {pool : Pool J MAX_WORKERS}
    (hleft : s.left j = .done r) (hp : s.pool.finish j = some pool) : ∃ es c',
      run (Calls.step (wholes programs)) es c = some c' ∧ Abstracts programs { s with pool := pool } c' := by
  obtain ⟨hrun, -, hend, -⟩ := Pool.finish_cases hp
  have hfinish : ∀ {c : Calls.State J σ α}, c.pool = s.pool → j ∈ c.acted →
      Calls.step (wholes programs) c (.finish j) = some { c with pool := pool } := by
    intro c hpool hj
    rw [Calls.step, if_pos hj, hpool, hp]
    rfl
  by_cases hj : j ∈ c.acted
  · refine ⟨[.finish j], _, run_one.trans (hfinish h.pool hj), rfl, h.world, h.returned, h.expired, ?_, h.results, h.idle,
      h.in_order⟩
    intro k
    rw [hend, List.mem_append, List.mem_singleton, ← or_assoc, ← h.acted]
    exact ⟨Or.inl, fun hk => hk.elim id fun hk => hk ▸ hj⟩
  · have hwhole : wholes programs j c.world = Thread.whole (.done r) c.world := by
      rw [wholes, ← h.idle j hj, hleft]
    obtain ⟨hout, hfin⟩ := Thread.whole_done r c.world
    let c' : Calls.State J σ α := { c with results := c.results ++ [(j, r)] }
    have hact : Calls.step (wholes programs) c (.act j) = some c' := by
      rw [Calls.step, if_pos ⟨h.pool ▸ hrun, hj⟩, hwhole, hout, hfin]
    have hacted : c'.acted = c.acted ++ [j] := List.map_append
    refine ⟨[.act j, .finish j], _, run_cons.2 ⟨c', hact, run_one.trans (hfinish h.pool ?_)⟩, rfl, h.world, h.returned,
      h.expired, ?_, ?_, ?_, ?_⟩
    · simp [hacted]
    · intro k
      show k ∈ c'.acted ↔ _
      rw [hacted, hend, List.mem_append, List.mem_append, h.acted, or_assoc]
    · intro x hx
      rcases List.mem_append.1 hx with hx | hx
      · exact h.results x hx
      · obtain rfl := List.mem_singleton.1 hx
        exact hleft
    · intro k hk
      exact h.idle k fun hk' => hk (by show k ∈ c'.acted; simp [hacted, hk'])
    · show s.log.Sublist c'.acted
      rw [hacted]
      exact h.in_order.trans (List.sublist_append_left _ _)

theorem answer (h : Abstracts programs s c) {j : J} {r : Except Exn α} (hleft : s.left j = .done r)
    (hend : j ∈ s.pool.ended) (hnot : j ∉ s.settled) : ∃ c', Calls.step (wholes programs) c (.answer j) = some c' ∧
      Abstracts programs { s with returned := s.returned ++ [(j, answered r)] } c' := by
  obtain ⟨r', hr', hleft'⟩ := h.done_of_acted ((h.acted j).2 (.inr hend))
  obtain ⟨⟨k, q⟩, hfind⟩ : ∃ x, c.results.find? (fun x => x.1 = j) = some x := by
    rw [← Option.isSome_iff_exists, List.find?_isSome]
    exact ⟨_, hr', by simp⟩
  obtain rfl : k = j := by simpa using List.find?_some hfind
  have hq : s.left k = .done q := h.results _ (List.mem_of_find?_eq_some hfind)
  obtain rfl : q = r := by
    rw [hleft] at hq
    exact (Thread.done.inj hq).symm
  refine ⟨{ c with returned := c.returned ++ [(k, answered q)] }, ?_, h.pool, h.world, ?_, h.expired, h.acted, h.results,
    h.idle, h.in_order⟩
  · rw [Calls.step, if_pos ⟨h.pool ▸ hend, h.settled ▸ hnot⟩, hfind]
    rfl
  · show c.returned ++ _ = s.returned ++ _
    rw [h.returned]

end Abstracts

/-- Every step is one of `Calls.step`, or two. -/
theorem abstracts_step (honce : ∀ j, (programs j).Once) {c : Calls.State J σ α} (h : Steps s e s')
    (hc : Abstracts programs s c) :
    ∃ es c', run (Calls.step (wholes programs)) es c = some c' ∧ Abstracts programs s' c' := by
  cases h with
  | @submit j pool hp =>
    have hstep : Calls.step (wholes programs) c (.submit j) = some { c with pool := pool } := by
      rw [Calls.step, hc.pool, hp]
      rfl
    obtain ⟨-, rfl⟩ := Pool.submit_cases hp
    exact ⟨[_], _, run_one.trans hstep, hc.withPool rfl⟩
  | @start pool hp =>
    have hstep : Calls.step (wholes programs) c .start = some { c with pool := pool } := by
      rw [Calls.step, hc.pool, hp]
      rfl
    obtain ⟨_, _, -, -, -, -, -, -, hend, -⟩ := Pool.start_cases hp
    exact ⟨[_], _, run_one.trans hstep, hc.withPool hend⟩
  | @act j f next hrun hleft =>
    have hnot : j ∉ c.acted := by
      intro hj
      obtain ⟨r, -, hr⟩ := hc.done_of_acted hj
      rw [hr] at hleft
      cases hleft
    have hnext : ∀ w, ∃ r, next w = .done r := by
      have hprogram := honce j
      rwa [← hc.idle j hnot, hleft] at hprogram
    obtain ⟨r, hr⟩ := hnext s.world
    obtain ⟨c', hstep, hc'⟩ := hc.act hrun hleft hr
    exact ⟨[_], c', run_one.trans hstep, hc'⟩
  | finish hleft hp =>
    obtain ⟨es, c', hrun, hc'⟩ := hc.finish hleft hp
    exact ⟨es, c', hrun, hc'⟩
  | answer hleft hend hnot =>
    obtain ⟨c', hstep, hc'⟩ := hc.answer hleft hend hnot
    exact ⟨[_], c', run_one.trans hstep, hc'⟩
  | @expire j hsub hnot =>
    refine ⟨[.expire j], { c with pool := s.pool.cancel j, expired := c.expired ++ [j] }, run_one.trans ?_, ?_⟩
    · rw [Calls.step, if_pos ⟨hc.pool ▸ hsub, hc.settled ▸ hnot⟩, hc.pool]
    · refine ⟨rfl, hc.world, hc.returned, ?_, ?_, hc.results, hc.idle, hc.in_order⟩
      · show c.expired ++ _ = s.expired ++ _
        rw [hc.expired]
      · intro k
        rw [Pool.cancel_ended]
        exact hc.acted k

theorem run_abstracts (honce : ∀ j, (programs j).Once) {es : List (Event J)}
    (h : run step es (State.init programs w) = some s) :
    ∃ es' c, run (Calls.step (wholes programs)) es' (Calls.State.init w) = some c ∧ Abstracts programs s c :=
  run_simulates (fun _ _ _ _ hs hc => abstracts_step honce (step_cases hs) hc) h Abstracts.init

/-! ## A run -/

/-- For all functions and every interleaving: at most eight calls run, and the
outside world is what the logged steps leave one after another, each of them the
next of its call's own; a call that was withdrawn takes none. Each caller is
answered once at most, with the end of its call or the timeout. If each function
acts once at most, the world and the answers are those of the same calls one
after the other, in the order of their steps. -/
theorem run_threads {es : List (Event J)} (h : run step es (State.init programs w) = some s) :
    s.pool.running.length ≤ 8 ∧ run act s.log (programs, w) = some (s.left, s.world) ∧
      (∀ j ∈ s.log, j ∈ s.pool.submitted ∧ j ∉ s.pool.withdrawn) ∧ (s.answers.map Prod.fst).Nodup ∧
      (∀ x ∈ s.answers, (∃ r, s.left x.1 = .done r ∧ x.2 = answered r) ∨ x.2 = .error offloadTimeoutError) ∧
      ((∀ j, (programs j).Once) → ∃ timing order, order.Perm s.pool.submitted ∧ order.Nodup ∧ s.log.Sublist order ∧
        (serial (wholes programs) timing order w).2 = s.world ∧
          ∀ x ∈ s.answers, x ∈ (serial (wholes programs) timing order w).1) := by
  have hi := run_inv h
  refine ⟨s.pool.bounded, hi.replayed, fun j hj => ?_, ?_, fun x hx => ?_, fun honce => ?_⟩
  · have hstarted := hi.acted_started j hj
    exact ⟨hi.accounted.submitted_of_started hstarted, fun hj => hi.accounted.withdrawn_not_started hj hstarted⟩
  · have hmap : s.answers.map Prod.fst = s.settled := by
      simp only [State.answers, State.settled, List.map_append, List.map_map, Function.comp_def, List.map_id']
    rw [hmap]
    exact hi.settled_once
  · rcases List.mem_append.1 hx with hx | hx
    · exact .inl (hi.returned_result x hx).2
    · obtain ⟨j, -, rfl⟩ := List.mem_map.1 hx
      exact .inr rfl
  · obtain ⟨es', c, hrun, hc⟩ := run_abstracts honce h
    obtain ⟨-, hperm, hnodup, hworld, hanswers, -⟩ := run_offloads hrun
    refine ⟨c.timing, c.order, hc.pool ▸ hperm, hnodup, ?_, hc.world ▸ hworld, hc.answers ▸ hanswers⟩
    exact hc.in_order.trans (List.sublist_append_left _ _)

/-- `n = n + 1` in two steps: the value is read, and then written. -/
def read_then_write : Thread Nat Unit := .act id fun n => .act (fun _ => n + 1) fun _ => .done (.ok ())

/-- The same in one step. -/
def increment : Thread Nat Unit := .act (· + 1) fun _ => .done (.ok ())

/-- Two calls, each of one step, of which the second is withdrawn before a thread
is free for it. -/
theorem run_threads_two : ∃ s, run step [.submit 0, .start, .submit 1, .expire 1, .act 0, .finish 0, .answer 0]
      (State.init (fun _ : Nat => increment) 5) = some s ∧ s.world = 6 ∧ s.log = [0] ∧
    ∃ timing order, order.Perm s.pool.submitted ∧ order.Nodup ∧ s.log.Sublist order ∧
      (serial (wholes fun _ => increment) timing order 5).2 = s.world ∧
        ∀ x ∈ s.answers, x ∈ (serial (wholes fun _ => increment) timing order 5).1 := by
  have hrun : run step [.submit 0, .start, .submit 1, .expire 1, .act 0, .finish 0, .answer 0]
      (State.init (fun _ : Nat => increment) 5) = some _ := rfl
  exact ⟨_, hrun, rfl, rfl, (run_threads hrun).2.2.2.2.2 fun _ _ => ⟨_, rfl⟩⟩

/-- Both calls read before either writes, and one of two updates is lost: one call
after the other leaves 7. -/
theorem update_lost : (∃ s, run step [.submit 0, .submit 1, .start, .start, .act 0, .act 1, .act 0, .act 1, .finish 0, .finish 1]
      (State.init (fun _ : Nat => read_then_write) 5) = some s ∧ s.world = 6) ∧
    ∀ (timing : Nat → Timing) (i j : Nat), timing i ≠ .outlives false → timing j ≠ .outlives false →
      (serial (wholes fun _ => read_then_write) timing [i, j] 5).2 = 7 := by
  refine ⟨⟨_, rfl, rfl⟩, fun timing i j hi hj => ?_⟩
  have hacted : ∀ k ∈ [i, j], timing k ≠ .outlives false := by
    intro k hk
    rcases List.mem_cons.1 hk with rfl | hk
    · exact hi
    · exact List.mem_singleton.1 hk ▸ hj
  rw [serial_of_acted hacted]
  rfl

end Z4jCelery.Offload.Threads
