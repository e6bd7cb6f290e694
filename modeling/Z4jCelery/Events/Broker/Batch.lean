import Z4jCelery.Events.Broker.Dispatch
/-!
# The elements of one message

The unit of a failure is the message: an element that raises takes the rest of
its message with it, whatever the rest is. No other element matters to its
neighbours.
-/

namespace Z4jCelery.Events.Broker

open Py Z4jCelery.Core Events Mapper Lib

variable {env : Env}

theorem calls_append {pre : List Val} (h : pre.any (raises env) = false) (post : List Val) :
    calls env (pre ++ post) = pre.filterMap (reached env) ++ calls env post := by
  have hpre : ∀ ev ∈ pre, (!raises env ev) = true := by
    intro ev hev
    simpa using List.any_eq_false.1 h ev hev
  rw [calls, List.takeWhile_append_of_pos hpre, List.filterMap_append, calls]

/-- After an element that raises, nothing of the list counts. -/
theorem calls_append_raises {pre : List Val} (h : pre.any (raises env) = true) (post : List Val) :
    calls env (pre ++ post) = calls env pre := by
  induction pre with
  | nil => simp at h
  | cons ev pre ih =>
    rw [calls, calls, List.cons_append, List.takeWhile_cons, List.takeWhile_cons]
    by_cases hev : raises env ev = true
    · simp [hev]
    · rw [List.any_cons, Bool.or_eq_true, or_iff_right hev] at h
      have hpre := ih h
      rw [calls, calls] at hpre
      simp [hev, List.filterMap_cons, hpre]

theorem calls_cons_reached {ev : Val} {call : Handler × Body} (h : reached env ev = some call) (post : List Val) :
    calls env (ev :: post) = call :: calls env post := by
  rw [calls, List.takeWhile_cons_of_pos (by simp [raises_of_reached h]), List.filterMap_cons_some h, calls]

/-- An event of a message is passed to its handler, once and in its place, if no
earlier element raises; the elements after it and the handlers' failures do not
matter. Otherwise the message is dropped from the element that raises on: it is
acknowledged, counted once, and the event is not passed. -/
theorem event_reached_in_batch {ev : Val} {h : Handler} {event : Body} (hev : Reaches env ev h event)
    (pre post : List Val) (ack : Except Exn Unit) (s : Monitor) :
    let s' := final (dispatch env ⟨.list (pre ++ ev :: post), ack⟩ s)
    (pre.any (raises env) = false →
      s'.calls = s.calls ++ (pre.filterMap (reached env)).map some ++
        some (h, event) :: ((calls env post).map some ++ [none]) ∧
      s'.poison_drop_count = s.poison_drop_count + if post.any (raises env) then 1 else 0) ∧
    (pre.any (raises env) = true →
      s'.calls = s.calls ++ (calls env pre).map some ++ [none] ∧
      s'.poison_drop_count = s.poison_drop_count + 1) := by
  intro s'
  have hcall : reached env ev = some (h, event) := reached_eq_some.2 hev
  obtain ⟨hcalls, hpoison⟩ := @dispatch_accounts env ⟨.list (pre ++ ev :: post), ack⟩ s
  have hany : (pre ++ ev :: post).any (raises env) = (pre.any (raises env) || post.any (raises env)) := by
    rw [List.any_append, List.any_cons, raises_of_reached hcall, Bool.false_or]
  rw [message_log] at hcalls
  simp only [Delivery.events, hany] at hcalls hpoison
  constructor
  · intro hpre
    rw [calls_append hpre, calls_cons_reached hcall] at hcalls
    rw [hpre, Bool.false_or] at hpoison
    exact ⟨by simpa using hcalls, hpoison⟩
  · intro hpre
    rw [calls_append_raises hpre] at hcalls
    rw [hpre, Bool.true_or, if_pos rfl] at hpoison
    exact ⟨by simpa using hcalls, hpoison⟩

/-- A monitor without a filter, whose sink takes every event. -/
def openMonitor : Env where
  py := .plain
  redaction := ⟨id⟩
  event := .lenient
  hostname_filter := none
  NAME_CACHE_MAX := 50000
  sink _ := .ok ()

theorem event_reached_in_batch_of_two :
    let started : Body := [("type", .str "task-started"), ("uuid", .str "t1")]
    (final (dispatch openMonitor ⟨.list [.dict [("type", .none)], .dict started, .int 1], .ok ()⟩ Monitor.init)).calls =
      [some (.started, started), none] := by
  intro started
  have hev : Reaches openMonitor (.dict started) .started started := ⟨rfl, by decide, by decide⟩
  have h := (event_reached_in_batch hev [.dict [("type", .none)]] [.int 1] (.ok ()) Monitor.init).1 (by decide)
  exact h.1

/-- A number in front of a healthy event: the event is not passed on. -/
theorem bad_neighbour_drops_event :
    let succeeded : Body := [("type", .str "task-succeeded"), ("uuid", .str "t1")]
    Reaches openMonitor (.dict succeeded) .succeeded succeeded ∧
      (final (dispatch openMonitor ⟨.list [.int 1, .dict succeeded], .ok ()⟩ Monitor.init)).calls = [none] ∧
      (final (dispatch openMonitor ⟨.list [.dict succeeded], .ok ()⟩ Monitor.init)).calls =
        [some (.succeeded, succeeded), none] := by
  intro succeeded
  refine ⟨⟨rfl, by decide, by decide⟩, ?_, ?_⟩
  · decide +kernel
  · decide +kernel

end Z4jCelery.Events.Broker
