import Z4jCelery.Engine.Workers
import Z4jCelery.Py.Frame
/-!
# What a run of the inspect calls gathers

The connection and the recorded calls do not touch the result: it holds the
sections of the replies before the first failure.
-/

namespace Z4jCelery.Engine.Workers

open Py Z4jCelery.Core Lib

/-- The connection, once it is ready for the inspect calls. -/
def opened (app : App) : Except Exn Connection :=
  app.connection_for_write.bind fun conn =>
    match agent_options conn with
    | .error e => .error e
    | .ok none => .ok conn
    | .ok (some _) => conn.set_transport_options.map fun _ => conn

/-- The inspector of a run that gets that far. -/
def inspector (app : App) (destination : Option String) : Except Exn Inspector :=
  (opened app).bind fun _ => app.inspect destination

def reply (ins : Inspector) (c : Inspect) : Except Exn (List (String × Val)) := (ins c).bind Reply.items

/-- The sections of the replies before the first failure. -/
def gather (ins : Inspector) : List Inspect → Details → Details
  | [], result => result
  | c :: cs, result =>
    match reply ins c with
    | .ok items => gather ins cs (merge c items result)
    | .error _ => result

def gathered (ins : Except Exn Inspector) (cs : List Inspect) : Details :=
  match ins with
  | .ok ins => gather ins cs []
  | .error _ => []

/-- The inspect calls of `get_worker_details`, in order. -/
def calls : List Inspect := [.stats, .active, .active_queues, .registered, .conf]

@[simp] theorem record_apply (op : Op) (s : Adapter × Details) :
    record op s = .ok () ({ s.1 with ops := s.1.ops ++ [op] }, s.2) := rfl

theorem release_apply (conn : Connection) (s : Adapter × Details) :
    release conn s = .ok () ({ s.1 with ops := s.1.ops ++ [.released conn.id] }, s.2) := by
  rw [release, bind_ok (record_apply _ s), tryExcept, ofOutcome_apply]
  cases conn.release <;> rfl

theorem open_connection_apply (app : App) (s : Adapter × Details) :
    outcome (open_connection app s) = opened app ∧ (final (open_connection app s)).2 = s.2 := by
  rw [open_connection, opened]
  cases app.connection_for_write with
  | error e => exact ⟨rfl, rfl⟩
  | ok conn =>
    rw [ofOutcome_ok, bind_ok (pure_apply conn s), bind_ok (record_apply _ s), Except.bind]
    cases agent_options conn with
    | error e => exact ⟨rfl, rfl⟩
    | ok options =>
      rw [ofOutcome_ok, bind_ok (pure_apply options _)]
      cases options with
      | none => exact ⟨rfl, rfl⟩
      | some options =>
        simp only
        rw [bind_ok (record_apply _ _)]
        cases conn.set_transport_options <;> exact ⟨rfl, rfl⟩

/-- The connection changes nothing of the result. -/
theorem agent_broker_connection_apply {α : Type} (app : App) (body : Connection → LocalM α) (s : Adapter × Details) :
    match opened app with
    | .error e => outcome (agent_broker_connection app body s) = .error e ∧
        (final (agent_broker_connection app body s)).2 = s.2
    | .ok conn => ∃ t : Adapter × Details, t.2 = s.2 ∧
        outcome (agent_broker_connection app body s) = outcome (body conn t) ∧
        (final (agent_broker_connection app body s)).2 = (final (body conn t)).2 := by
  obtain ⟨hout, hfin⟩ := open_connection_apply app s
  rw [← hout, agent_broker_connection]
  cases ho : open_connection app s with
  | error e t =>
    rw [ho] at hfin
    rw [bind_error ho]
    exact ⟨rfl, hfin⟩
  | ok conn t =>
    rw [ho] at hfin
    rw [bind_ok ho, withExit]
    refine ⟨t, hfin, ?_⟩
    cases body conn t <;> simp only [release_apply] <;> exact ⟨rfl, rfl⟩

/-- A run on an inspector: it fails before it has one, or does what `body` does. -/
theorem inspection_apply {α : Type} (app : App) (destination : Option String)
    (body : Connection → Inspector → LocalM α) (s : Adapter × Details) :
    let run := agent_broker_connection app fun conn => inspect app destination conn >>= body conn
    match inspector app destination with
    | .error e => outcome (run s) = .error e ∧ (final (run s)).2 = s.2
    | .ok ins => ∃ conn, ∃ t : Adapter × Details, t.2 = s.2 ∧ outcome (run s) = outcome (body conn ins t) ∧
        (final (run s)).2 = (final (body conn ins t)).2 := by
  intro run
  have h := agent_broker_connection_apply app (fun conn => inspect app destination conn >>= body conn) s
  rw [inspector]
  cases ho : opened app with
  | error e =>
    rw [ho] at h
    exact h
  | ok conn =>
    rw [ho] at h
    obtain ⟨t, ht, hout, hfin⟩ := h
    rw [Except.bind]
    cases hi : app.inspect destination with
    | error e =>
      have hins : inspect app destination conn t =
          .error e ({ t.1 with ops := t.1.ops ++ [.inspect conn.id destination] }, t.2) := by
        rw [inspect, bind_ok (record_apply _ t), hi]
        rfl
      rw [bind_error hins] at hout hfin
      exact ⟨hout, hfin.trans ht⟩
    | ok ins =>
      have hins : inspect app destination conn t =
          .ok ins ({ t.1 with ops := t.1.ops ++ [.inspect conn.id destination] }, t.2) := by
        rw [inspect, bind_ok (record_apply _ t), hi]
        rfl
      rw [bind_ok hins] at hout hfin
      refine ⟨conn, _, ?_, hout, hfin⟩
      exact ht

theorem call_apply (conn : Connection) (ins : Inspector) (c : Inspect) (s : Adapter × Details) :
    outcome (call conn ins c s) = reply ins c ∧ (final (call conn ins c s)).2 = s.2 := by
  rw [call, bind_ok (record_apply _ s), reply]
  cases ins c with
  | error e => exact ⟨rfl, rfl⟩
  | ok r =>
    rw [ofOutcome_ok, bind_ok (pure_apply r _), ofOutcome_apply, Except.bind]
    cases r.items <;> exact ⟨rfl, rfl⟩

/-- The calls one after another. -/
def collectAll (conn : Connection) (ins : Inspector) : List Inspect → LocalM Unit
  | [] => pure ()
  | c :: cs => do
    collect conn ins c
    collectAll conn ins cs

theorem collectAll_result (conn : Connection) (ins : Inspector) (cs : List Inspect) (s : Adapter × Details) :
    (final (collectAll conn ins cs s)).2 = gather ins cs s.2 := by
  induction cs generalizing s with
  | nil => rfl
  | cons c cs ih =>
    obtain ⟨hout, hfin⟩ := call_apply conn ins c s
    rw [collectAll, collect, gather, ← hout]
    cases hc : call conn ins c s with
    | error e t =>
      rw [hc] at hfin
      rw [bind_error (bind_error hc)]
      exact hfin
    | ok items t =>
      rw [hc] at hfin
      rw [bind_ok ((bind_ok hc).trans (modify_apply _ t)), ih]
      simp only [outcome_ok, show t.2 = s.2 from hfin]

theorem returning_outcome (body : LocalM Unit) (a : Adapter) :
    outcome (returning (tryExcept body fun _ => pure ()) a) = .ok (final (body (a, []))).2 := by
  rw [returning, tryExcept]
  cases body (a, []) <;> rfl

theorem get_worker_details_eq (app : App) (hostname : Option String) :
    get_worker_details app hostname = returning (tryExcept (agent_broker_connection app fun conn =>
      inspect app (destination hostname) conn >>= fun ins => collectAll conn ins calls) fun _ => pure ()) := by
  have five : ∀ conn ins, (do
      collect conn ins .stats
      collect conn ins .active
      collect conn ins .active_queues
      collect conn ins .registered
      collect conn ins .conf : LocalM Unit) = collectAll conn ins calls := by
    intro conn ins
    simp only [calls, collectAll, bind_pure_unit]
  rw [get_worker_details]
  simp only [five]

/-- The five calls, up to the first that fails. -/
theorem get_worker_details_outcome (app : App) (hostname : Option String) (a : Adapter) :
    outcome (get_worker_details app hostname a) = .ok (gathered (inspector app (destination hostname)) calls) := by
  have h := inspection_apply app (destination hostname) (fun conn ins => collectAll conn ins calls) (a, [])
  rw [get_worker_details_eq, returning_outcome]
  cases hi : inspector app (destination hostname) with
  | error e =>
    rw [hi] at h
    exact congrArg Except.ok h.2
  | ok ins =>
    rw [hi] at h
    obtain ⟨conn, t, ht, -, hfin⟩ := h
    rw [collectAll_result, show t.2 = [] from ht] at hfin
    exact congrArg Except.ok hfin

theorem worker_stats_basic_outcome (app : App) (a : Adapter) :
    outcome (worker_stats_basic app a) = .ok (gathered (inspector app none) [.stats]) := by
  have h := inspection_apply app none (fun conn ins => call conn ins .stats) (a, [])
  rw [worker_stats_basic, returning_outcome, bind_apply]
  simp only at h
  cases hr : agent_broker_connection app (fun conn => inspect app none conn >>= fun ins => call conn ins .stats)
      (a, []) with
  | error e u =>
    rw [hr] at h
    cases hi : inspector app none with
    | error e' =>
      rw [hi] at h
      exact congrArg Except.ok h.2
    | ok ins =>
      rw [hi] at h
      obtain ⟨conn, t, ht, hout, hfin⟩ := h
      rw [(call_apply conn ins .stats t).1] at hout
      rw [(call_apply conn ins .stats t).2, show t.2 = [] from ht] at hfin
      rw [gathered, gather, ← hout]
      exact congrArg Except.ok hfin
  | ok items u =>
    rw [hr] at h
    cases hi : inspector app none with
    | error e' =>
      rw [hi] at h
      cases h.1
    | ok ins =>
      rw [hi] at h
      obtain ⟨conn, t, ht, hout, hfin⟩ := h
      rw [(call_apply conn ins .stats t).1] at hout
      rw [(call_apply conn ins .stats t).2, show t.2 = [] from ht] at hfin
      rw [gathered, gather, ← hout]
      exact congrArg (fun result => Except.ok (merge .stats items result)) hfin

/-! ## Nothing else changes -/

/-- The adapter keeps everything but the record of its connections. -/
def opsOnly : Frame (Adapter × Details) where
  rel s s' := ∃ ops, s'.1 = { s.1 with ops := ops }
  refl s := ⟨s.1.ops, rfl⟩
  trans := by
    rintro s t u ⟨ops, h⟩ ⟨ops', h'⟩
    exact ⟨ops', by rw [h', h]⟩

theorem keeps_record (op : Op) : Keeps opsOnly (record op) := fun s => ⟨s.1.ops ++ [op], rfl⟩

theorem keeps_agent_broker_connection {α : Type} (app : App) {body : Connection → LocalM α}
    (h : ∀ conn, Keeps opsOnly (body conn)) : Keeps opsOnly (agent_broker_connection app body) := by
  refine keeps_bind (keeps_bind (keeps_ofOutcome _) fun conn => keeps_bind (keeps_record _) fun _ =>
    keeps_bind (keeps_ofOutcome _) fun options => ?_) fun conn => keeps_withExit (h conn)
      (keeps_bind (keeps_record _) fun _ => keeps_tryExcept (keeps_ofOutcome _) fun _ => keeps_pure _)
  cases options with
  | none => exact keeps_pure _
  | some options => exact keeps_bind (keeps_record _) fun _ => keeps_bind (keeps_ofOutcome _) fun _ => keeps_pure _

theorem keeps_inspect (app : App) (destination : Option String) (conn : Connection) :
    Keeps opsOnly (inspect app destination conn) := keeps_bind (keeps_record _) fun _ => keeps_ofOutcome _

theorem keeps_call (conn : Connection) (ins : Inspector) (c : Inspect) : Keeps opsOnly (call conn ins c) :=
  keeps_bind (keeps_record _) fun _ => keeps_bind (keeps_ofOutcome _) fun _ => keeps_ofOutcome _

theorem keeps_collect (conn : Connection) (ins : Inspector) (c : Inspect) : Keeps opsOnly (collect conn ins c) :=
  keeps_bind (keeps_call conn ins c) fun _ => keeps_modify fun s => ⟨s.1.ops, rfl⟩

theorem returning_final {body : LocalM Unit} (h : Keeps opsOnly body) (a : Adapter) :
    ∃ ops, final (returning body a) = { a with ops := ops } := by
  obtain ⟨ops, hops⟩ := h (a, [])
  refine ⟨ops, ?_⟩
  rw [returning]
  cases hb : body (a, []) <;> rw [hb] at hops <;> exact hops

/-- The details come with nothing else changed. -/
theorem get_worker_details_apply (app : App) (hostname : Option String) (a : Adapter) :
    ∃ ops, get_worker_details app hostname a =
      .ok (gathered (inspector app (destination hostname)) calls) { a with ops := ops } := by
  have keeps := keeps_tryExcept (keeps_agent_broker_connection app fun conn =>
    keeps_bind (keeps_inspect app (destination hostname) conn) fun ins =>
      keeps_bind (keeps_collect conn ins .stats) fun _ => keeps_bind (keeps_collect conn ins .active) fun _ =>
        keeps_bind (keeps_collect conn ins .active_queues) fun _ =>
          keeps_bind (keeps_collect conn ins .registered) fun _ => keeps_collect conn ins .conf)
    (h := fun _ => pure ()) fun _ => keeps_pure _
  obtain ⟨ops, hfin⟩ := returning_final keeps a
  have hout := get_worker_details_outcome app hostname a
  refine ⟨ops, ?_⟩
  rw [get_worker_details] at hout ⊢
  exact result_eq hout hfin

theorem worker_stats_basic_apply (app : App) (a : Adapter) :
    ∃ ops, worker_stats_basic app a = .ok (gathered (inspector app none) [.stats]) { a with ops := ops } := by
  have keeps := keeps_tryExcept (keeps_bind (keeps_agent_broker_connection app fun conn =>
    keeps_bind (keeps_inspect app none conn) fun ins => keeps_call conn ins .stats) fun items =>
      keeps_modify (f := fun (s : Adapter × Details) => (s.1, merge .stats items s.2)) fun s => ⟨s.1.ops, rfl⟩)
    (h := fun _ => pure ()) fun _ => keeps_pure _
  obtain ⟨ops, hfin⟩ := returning_final keeps a
  have hout := worker_stats_basic_outcome app a
  refine ⟨ops, ?_⟩
  rw [worker_stats_basic] at hout ⊢
  exact result_eq hout hfin

/-! ## The heartbeat -/

/-- What a refresh caches. -/
def refreshed (app : App) (hostname : Option String) : Details :=
  match destination hostname with
  | some hostname => gathered (inspector app (some hostname)) calls
  | none => gathered (inspector app none) [.stats]

theorem destination_some {hostname : Option String} {h : String} (hd : destination hostname = some h) :
    destination (some h) = some h := by
  rw [destination, Option.filter_eq_some_iff] at hd ⊢
  exact ⟨rfl, hd.2⟩

/-- A refresh always ends by storing the details and the time. -/
theorem refresh_worker_stats_apply (app : App) (now : Rat) (a : Adapter) :
    ∃ ops, refresh_worker_stats app now a = .ok () { a with
      last_worker_stats_at := now, cached_worker_stats := refreshed app a.worker_hostname, ops := ops } := by
  rw [refresh_worker_stats, refreshed]
  cases hd : destination a.worker_hostname with
  | none =>
    obtain ⟨ops, h⟩ := worker_stats_basic_apply app a
    refine ⟨ops, tryExcept_ok ?_ _⟩
    rw [bind_ok (get_apply a)]
    simp only [hd]
    rw [bind_ok h, bind_ok (modify_apply _ _), modify_apply]
  | some hostname =>
    obtain ⟨ops, h⟩ := get_worker_details_apply app (some hostname) a
    rw [destination_some hd] at h
    refine ⟨ops, tryExcept_ok ?_ _⟩
    rw [bind_ok (get_apply a)]
    simp only [hd]
    rw [bind_ok h, bind_ok (modify_apply _ _), modify_apply]

theorem broker_health_details (app : App) : (broker_health app).worker_details = none := by
  rw [broker_health]
  cases app.connection_for_read with
  | error e => rfl
  | ok conn =>
    simp only
    cases connection_depths app conn <;> cases conn.release <;> rfl

/-- The adapter after a heartbeat: the details are refreshed once a minute. -/
def beaten (app : App) (now : Rat) (a : Adapter) : Adapter :=
  if now - a.last_worker_stats_at > 60 then
    { a with last_worker_stats_at := now, cached_worker_stats := refreshed app a.worker_hostname }
  else a

/-- The details that a heartbeat sends. -/
def sent (a : Adapter) : Option Details := if a.cached_worker_stats ≠ [] then some a.cached_worker_stats else none

/-- A heartbeat's report: the broker's, with the details that the adapter then
holds. -/
theorem get_health_apply (app : App) (now : Rat) (a : Adapter) :
    ∃ ops, get_health app now a =
      .ok { broker_health app with worker_details := sent (beaten app now a) } { beaten app now a with ops := ops } := by
  have finish : ∀ b : Adapter, (do
      let b ← MonadState.get
      return if b.cached_worker_stats ≠ [] then
        { broker_health app with worker_details := some b.cached_worker_stats }
      else broker_health app : AdapterM Health) b = .ok { broker_health app with worker_details := sent b } b := by
    intro b
    rw [bind_ok (get_apply b), pure_apply, sent]
    split
    · rfl
    · rw [← broker_health_details app]
  -- a refresh never raises, so the report is made of what it stored
  rw [get_health, beaten, bind_ok (modify_apply _ a), bind_ok (get_apply _)]
  simp only
  split
  · obtain ⟨ops, hr⟩ := refresh_worker_stats_apply app now { a with ops := a.ops ++ read_ops app }
    rw [bind_ok hr]
    exact ⟨ops, finish _⟩
  · exact ⟨a.ops ++ read_ops app, finish _⟩

end Z4jCelery.Engine.Workers
