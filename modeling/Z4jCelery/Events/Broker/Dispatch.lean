import Z4jCelery.Events.Broker.TwoRuns
import Mathlib.Data.List.TakeWhile
/-!
# Every message is accounted for

The callback evaluates the elements of a message up to the first that raises,
calls the handlers of the others, counts the message if one raised, and
acknowledges it. `reached` and `raises` say what an element does; they depend
on the element alone, whatever the handlers, the sink and `ack` do.
-/

namespace Z4jCelery.Events.Broker

open Py Z4jCelery.Core Events Mapper Lib

variable {env : Env}

/-! ## What a handler may change -/

/-- The key in the name cache that the handlers of an event use. -/
def event_key (event : Body) : Option Val := (get event "uuid" (.str "")).key?

/-- The frame allows the steps of which the handlers of an event are made. -/
structure Allows (N : Nat) (event : Body) (F : Frame Monitor) : Prop where
  cache : ∀ k name, (get event "uuid" .none).truthy = true → event_key event = some k →
    ∀ s : Monitor, F.rel s (s.cache N k name)
  hit : ∀ k, event_key event = some k → ∀ s : Monitor, F.rel s (s.hit k)
  pop : ∀ k, event_key event = some k → ∀ s : Monitor, F.rel s (s.pop k)
  sink : ∀ (ev : Event) (s : Monitor), F.rel s { s with sunk := s.sunk ++ [ev] }

section Allowed
variable {F : Frame Monitor} {event : Body}

theorem keeps_key {α : Type} {v : Val} {m : Val → MonitorM α} (h : ∀ k, v.key? = some k → Keeps F (m k)) :
    Keeps F (ofOutcome (key v) >>= m) := by
  intro s
  rw [key]
  cases hk : v.key? with
  | none => exact F.refl s
  | some k => exact h k hk s

theorem event_key_of_truthy (h : (get event "uuid" .none).truthy = true) :
    (get event "uuid" .none).key? = event_key event := by
  rw [event_key, Py.get, Py.get]
  cases hu : lookup "uuid" event with
  | none => simp [Py.get, hu, Val.truthy] at h
  | some v => rfl

variable (hF : Allows env.NAME_CACHE_MAX event F)
include hF

theorem Allows.cache_name : Keeps F (cache_name env event) := by
  unfold Broker.cache_name
  simp only
  split
  · rename_i h
    exact keeps_key fun k hk => keeps_modify (hF.cache k _ h.1 ((event_key_of_truthy h.1).symm.trans hk))
  · exact keeps_pure _

theorem Allows.resolve_name : Keeps F (resolve_name event) := by
  unfold Broker.resolve_name
  simp only
  split
  · exact keeps_pure _
  · refine keeps_key fun k hk s => ?_
    rw [cached_name_apply, final_ok]
    split
    · exact hF.hit k hk s
    · exact F.refl s

theorem Allows.pop_name : Keeps F (pop_name event) := keeps_key fun k hk => keeps_modify (hF.pop k hk)

theorem Allows.emit (build : Val → Except Exn Event) : Keeps F (emit env event build) := by
  refine keeps_bind hF.resolve_name fun _ => keeps_bind (keeps_ofOutcome _) fun ev s => ?_
  rw [Broker.sink, bind_ok (get_apply s), bind_ok (modify_apply _ s), ofOutcome_apply]
  cases env.sink s.sunk.length <;> exact hF.sink ev s

theorem Allows.body (h : Handler) : Keeps F (body env h event) := by
  cases h with
  | received | started => exact keeps_bind hF.cache_name fun _ => hF.emit _
  | succeeded => exact keeps_bind (keeps_ofOutcome _) fun _ => keeps_bind (hF.emit _) fun _ => hF.pop_name
  | failed | revoked => exact keeps_bind (hF.emit _) fun _ => hF.pop_name
  | retried => exact hF.emit _

end Allowed

/-- The log and the count of poisoned messages stay as they are. -/
def unaccounted : Frame Monitor where
  rel s s' := s'.log = s.log ∧ s'.poison_drop_count = s.poison_drop_count
  refl _ := ⟨rfl, rfl⟩
  trans h h' := ⟨h'.1.trans h.1, h'.2.trans h.2⟩

theorem allows_unaccounted (N : Nat) (event : Body) : Allows N event unaccounted where
  cache _ _ _ _ _ := ⟨rfl, rfl⟩
  hit _ _ _ := ⟨rfl, rfl⟩
  pop _ _ _ := ⟨rfl, rfl⟩
  sink _ _ := ⟨rfl, rfl⟩

/-! ## What an element does -/

/-- The filter, if there is one, accepts the host of the event. -/
def accepted (env : Env) (event : Body) : Bool :=
  env.hostname_filter.all fun accepts => accepts (get event "hostname" (.str ""))

/-- The handler call that an element makes. -/
def reached (env : Env) (ev : Val) : Option (Handler × Body) :=
  match ev with
  | .dict event => if accepted env event then (type_handler (get event "type" (.str ""))).map (·, event) else none
  | _ => none

/-- Evaluating the element raises: it has no `get`, or its type passes the
filter and is not hashable. -/
def raises (env : Env) (ev : Val) : Bool :=
  match ev with
  | .dict event => accepted env event && (get event "type" (.str "")).key?.isNone
  | _ => true

theorem reached_eq_some {ev : Val} {h : Handler} {event : Body} :
    reached env ev = some (h, event) ↔ Reaches env ev h event := by
  rw [Reaches]
  cases ev with
  | dict event' =>
    rw [reached, accepted, Val.dict.injEq]
    split
    · rename_i ha
      rw [Option.map_eq_some_iff]
      constructor
      · rintro ⟨h', ht, heq⟩
        obtain ⟨rfl, rfl⟩ := Prod.mk.inj heq
        exact ⟨rfl, ht, ha⟩
      · rintro ⟨rfl, ht, -⟩
        exact ⟨h, ht, rfl⟩
    · rename_i ha
      refine iff_of_false (by simp) ?_
      rintro ⟨rfl, -, h'⟩
      exact ha h'
  | _ => simp [reached]

theorem raises_of_reached {ev : Val} {call : Handler × Body} (h : reached env ev = some call) :
    raises env ev = false := by
  obtain ⟨handler, event⟩ := call
  obtain ⟨rfl, ht, -⟩ := reached_eq_some.1 h
  obtain ⟨type, htype⟩ := type_handler_eq_some ht
  simp [raises, htype]

/-- An element raises and does nothing, or it is skipped, or it is handled. -/
theorem dispatch_event_apply (ev : Val) (s : Monitor) :
    (raises env ev = true ∧ reached env ev = none ∧ ∃ e, dispatch_event env ev s = .error e s) ∨
    (raises env ev = false ∧ reached env ev = none ∧ dispatch_event env ev s = .ok () s) ∨
    ∃ h event, raises env ev = false ∧ reached env ev = some (h, event) ∧
      dispatch_event env ev s = handle env h event s := by
  cases hr : reached env ev with
  | some call =>
    obtain ⟨h, event⟩ := call
    exact .inr (.inr ⟨h, event, raises_of_reached hr, rfl, dispatch_event_reaches (reached_eq_some.1 hr) s⟩)
  | none =>
    cases ev with
    | dict event =>
      have hfilter : env.hostname_filter.any (fun accepts => !accepts (get event "hostname" (.str ""))) =
          !accepted env event := by
        rw [accepted]
        cases env.hostname_filter <;> rfl
      simp only [dispatch_event, hfilter, raises]
      cases ha : accepted env event with
      | false => exact .inr (.inl ⟨rfl, trivial, rfl⟩)
      | true =>
        rw [reached, if_pos ha, Option.map_eq_none_iff] at hr
        rw [key]
        cases hk : (get event "type" (.str "")).key? with
        | none => exact .inl ⟨rfl, trivial, _, rfl⟩
        | some k =>
          refine .inr (.inl ⟨rfl, trivial, ?_⟩)
          simp only [hr]
          rfl
    | _ => exact .inl ⟨rfl, rfl, _, rfl⟩

/-! ## What a message does -/

/-- The handler calls that a list of elements makes: those of the elements
before the first that raises, in order. -/
def calls (env : Env) (evs : List Val) : List (Handler × Body) :=
  (evs.takeWhile fun ev => !raises env ev).filterMap (reached env)

theorem dispatch_events_apply (evs : List Val) (s : Monitor) :
    final (dispatch_events env evs s) = handleAll env (calls env evs) s ∧
      ((∃ e s', dispatch_events env evs s = .error e s') ↔ evs.any (raises env) = true) := by
  induction evs generalizing s with
  | nil => exact ⟨rfl, by simp [dispatch_events]⟩
  | cons ev evs ih =>
    rw [dispatch_events, calls]
    rcases @dispatch_event_apply env ev s with ⟨hraise, -, e, he⟩ | ⟨hraise, hr, ho⟩ | ⟨h, event, hraise, hr, hh⟩
    · rw [bind_error he, List.takeWhile_cons_of_neg (by simp [hraise]), List.any_cons, hraise]
      exact ⟨rfl, by simp⟩
    · rw [bind_ok ho, List.takeWhile_cons_of_pos (by simp [hraise]), List.filterMap_cons_none hr, List.any_cons, hraise,
        Bool.false_or]
      exact ih s
    · rw [bind_ok (hh.trans (handle_apply h event s)), List.takeWhile_cons_of_pos (by simp [hraise]),
        List.filterMap_cons_some hr, List.any_cons, hraise, Bool.false_or, handleAll, handle_apply, final_ok]
      exact ih _

/-- The monitor after a message, before it is acknowledged. -/
def received (env : Env) (d : Delivery) (s : Monitor) : Monitor :=
  if d.events.any (raises env) then (handleAll env (calls env d.events) s).poison
  else handleAll env (calls env d.events) s

theorem ack_apply (d : Delivery) (s : Monitor) : ack d s = .ok () (s.record .acked) := by
  rw [ack, bind_ok (modify_apply _ s), tryExcept, ofOutcome_apply]
  cases d.ack <;> rfl

/-- The callback returns, whatever the handlers, the sink and `ack` do, and
acknowledging the message is the last thing it does. -/
theorem dispatch_apply (d : Delivery) (s : Monitor) :
    dispatch env d s = .ok () ((received env d s).record .acked) := by
  obtain ⟨hfinal, hraise⟩ := @dispatch_events_apply env d.events s
  rw [dispatch, received]
  cases hd : dispatch_events env d.events s with
  | error e s' =>
    rw [hd, final_error] at hfinal
    rw [bind_ok ((tryExcept_error hd _).trans (modify_apply _ s')), ack_apply, if_pos (hraise.1 ⟨e, s', hd⟩), hfinal]
  | ok a s' =>
    rw [hd, final_ok] at hfinal
    have hnot : ¬ d.events.any (raises env) = true := fun h => by
      obtain ⟨e, t, ht⟩ := hraise.2 h
      rw [hd] at ht
      cases ht
    rw [bind_ok (tryExcept_ok hd _), ack_apply, if_neg hnot, hfinal]

/-! ## The log and the count -/

/-- The handler call of an entry; none for an acknowledgement. -/
def Entry.call : Entry → Option (Handler × Body)
  | .handled h event _ => some (h, event)
  | .acked => none

/-- What the log is to say of a message: its handler calls, then one
acknowledgement. -/
def message_log (env : Env) (d : Delivery) : List (Option (Handler × Body)) :=
  (calls env d.events).map some ++ [none]

/-- The log, oldest entry first, without the handlers' outcomes. -/
def Monitor.calls (s : Monitor) : List (Option (Handler × Body)) := (s.log.map Entry.call).reverse

theorem record_calls (s : Monitor) (e : Entry) : (s.record e).calls = s.calls ++ [e.call] := by
  rw [Monitor.calls, Monitor.record, List.map_cons, List.reverse_cons]
  rfl

theorem handle_accounts (h : Handler) (event : Body) (s : Monitor) :
    (final (handle env h event s)).calls = s.calls ++ [some (h, event)] ∧
      (final (handle env h event s)).poison_drop_count = s.poison_drop_count := by
  obtain ⟨hlog, hpoison⟩ := (allows_unaccounted env.NAME_CACHE_MAX event).body h s
  rw [handle_apply, final_ok, record_calls, Entry.call]
  refine ⟨congrArg (· ++ [some (h, event)]) ?_, hpoison⟩
  rw [Monitor.calls, Monitor.calls, hlog]

theorem handleAll_accounts (cs : List (Handler × Body)) (s : Monitor) :
    (handleAll env cs s).calls = s.calls ++ cs.map some ∧
      (handleAll env cs s).poison_drop_count = s.poison_drop_count := by
  induction cs generalizing s with
  | nil => exact ⟨(List.append_nil _).symm, rfl⟩
  | cons call cs ih =>
    obtain ⟨h, event⟩ := call
    obtain ⟨hcalls, hpoison⟩ := @handle_accounts env h event s
    obtain ⟨ihcalls, ihpoison⟩ := ih (final (handle env h event s))
    exact ⟨by rw [handleAll, ihcalls, hcalls, List.map_cons, List.append_assoc, List.singleton_append],
      ihpoison.trans hpoison⟩

theorem dispatch_accounts (d : Delivery) (s : Monitor) :
    (final (dispatch env d s)).calls = s.calls ++ message_log env d ∧
      (final (dispatch env d s)).poison_drop_count =
        s.poison_drop_count + if d.events.any (raises env) then 1 else 0 := by
  obtain ⟨hcalls, hpoison⟩ := @handleAll_accounts env (calls env d.events) s
  have hsame : (received env d s).calls = (handleAll env (calls env d.events) s).calls := by
    rw [received]
    split <;> rfl
  rw [dispatch_apply, final_ok, record_calls, Entry.call, hsame, hcalls, message_log, List.append_assoc]
  refine ⟨rfl, ?_⟩
  show (received env d s).poison_drop_count = _
  rw [received]
  split
  · exact congrArg (· + 1) hpoison
  · exact hpoison

theorem deliverAll_accounts (ds : List Delivery) (s : Monitor) :
    (deliverAll env ds s).calls = s.calls ++ ds.flatMap (message_log env) ∧
      (deliverAll env ds s).poison_drop_count =
        s.poison_drop_count + ds.countP fun d => d.events.any (raises env) := by
  induction ds generalizing s with
  | nil => exact ⟨(List.append_nil _).symm, rfl⟩
  | cons d ds ih =>
    obtain ⟨hcalls, hpoison⟩ := @dispatch_accounts env d s
    obtain ⟨ihcalls, ihpoison⟩ := ih (final (dispatch env d s))
    refine ⟨by rw [deliverAll, ihcalls, hcalls, List.flatMap_cons, List.append_assoc], ?_⟩
    rw [deliverAll, ihpoison, hpoison, List.countP_cons, Nat.add_assoc]
    exact congrArg _ (Nat.add_comm _ _)

/-- Every element is an object whose type is a string or absent. -/
def WellFormed (d : Delivery) : Prop :=
  ∀ ev ∈ d.events, ∃ event, ev = .dict event ∧ ∃ type, get event "type" (.str "") = .str type

theorem WellFormed.calls_eq {d : Delivery} (h : WellFormed d) : calls env d.events = d.events.filterMap (reached env) := by
  rw [calls, List.takeWhile_eq_self_iff.2]
  intro ev hev
  obtain ⟨event, rfl, type, ht⟩ := h ev hev
  simp [raises, ht]

/-- The callback always returns. In a run the log says of every message, in
order, the handler calls of its elements before the first that raises, and then
one acknowledgement; the count is of the messages with an element that raises.
A well-formed message calls the handlers of all its elements. -/
theorem deliveries_accounted (env : Env) :
    (∀ d s, ∃ s', dispatch env d s = .ok () s') ∧
    (∀ ds, (deliverAll env ds Monitor.init).calls = ds.flatMap (message_log env) ∧
      (deliverAll env ds Monitor.init).poison_drop_count = ds.countP fun d => d.events.any (raises env)) ∧
    (∀ ev s, (∃ e s', dispatch_event env ev s = .error e s') ↔ raises env ev = true) ∧
    ∀ d, WellFormed d → message_log env d = (d.events.filterMap (reached env)).map some ++ [none] := by
  refine ⟨fun d s => ⟨_, dispatch_apply d s⟩, fun ds => ?_, fun ev s => ?_, fun d h => by rw [message_log, h.calls_eq]⟩
  · obtain ⟨hcalls, hpoison⟩ := @deliverAll_accounts env ds Monitor.init
    exact ⟨hcalls, hpoison.trans (Nat.zero_add _)⟩
  · rcases @dispatch_event_apply env ev s with ⟨hraise, -, e, he⟩ | ⟨hraise, -, ho⟩ | ⟨h, event, hraise, -, hh⟩
    · exact iff_of_true ⟨e, s, he⟩ hraise
    · simp [hraise, ho]
    · simp [hraise, hh, handle_apply]

end Z4jCelery.Events.Broker
