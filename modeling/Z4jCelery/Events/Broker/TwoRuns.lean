import Z4jCelery.Events.Broker.NameCache
import Z4jCelery.Py.Relate
/-!
# Two runs of the broker-events monitor

Runs whose messages differ only in what the handlers hide sink the same
events. `Interchangeable` says it of one event, `deliverAll_alike` of a run.
-/

namespace Z4jCelery.Events.Broker

open Py Z4jCelery.Core Events Mapper Lib

variable {env : Env}

/-! ## The handler that an element reaches -/

/-- The handler that an element of a message reaches. -/
def Reaches (env : Env) (ev : Val) (h : Handler) (event : Body) : Prop :=
  ev = .dict event ∧ type_handler (get event "type" (.str "")) = some h ∧
    env.hostname_filter.all fun accepts => accepts (get event "hostname" (.str ""))

theorem type_handler_eq_some {type : Val} {h : Handler} (ht : type_handler type = some h) : ∃ s, type = .str s := by
  unfold type_handler at ht
  split at ht <;> first | exact ⟨_, rfl⟩ | cases ht

theorem dispatch_event_reaches {ev : Val} {h : Handler} {event : Body} (hr : Reaches env ev h event) (s : Monitor) :
    dispatch_event env ev s = handle env h event s := by
  obtain ⟨rfl, htype, hfilter⟩ := hr
  have hpass : ¬ env.hostname_filter.any (fun accepts => !accepts (get event "hostname" (.str ""))) = true := by
    cases hf : env.hostname_filter with
    | none => simp
    | some accepts => simpa [hf] using hfilter
  obtain ⟨type, ht⟩ := type_handler_eq_some htype
  rw [ht] at htype
  simp only [dispatch_event, if_neg hpass, ht, key, Val.key?_str, htype]
  rfl

/-- An element does nothing to the monitor, or it is handled. -/
theorem dispatch_event_cases (ev : Val) (s : Monitor) :
    final (dispatch_event env ev s) = s ∨
      ∃ h event, Reaches env ev h event ∧ dispatch_event env ev s = handle env h event s := by
  rw [dispatch_event.eq_def]
  split
  · rename_i event
    split
    · exact .inl rfl
    · rename_i hfilter
      cases hk : key (get event "type" (.str "")) with
      | error e => exact .inl rfl
      | ok k =>
        rw [ofOutcome_ok, bind_ok (pure_apply k s)]
        cases ht : type_handler (get event "type" (.str "")) with
        | none => exact .inl rfl
        | some h =>
          refine .inr ⟨h, event, ⟨rfl, ht, ?_⟩, rfl⟩
          cases hf : env.hostname_filter with
          | none => rfl
          | some accepts => simpa [hf] using hfilter
  · exact .inl rfl

/-! ## The same messages -/

/-- The monitors hold the same names and sank the same events. -/
structure Alike (s s' : Monitor) : Prop where
  cache : s.name_cache = s'.name_cache
  sunk : s.sunk = s'.sunk
  poison : s.poison_drop_count = s'.poison_drop_count

/-- A relation that hides neither names nor sunk events, and that the steps of
the handlers respect. -/
structure Respects (N : Nat) (R : Monitor → Monitor → Prop) : Prop where
  names : ∀ {s s'}, R s s' → s.name_cache = s'.name_cache
  sunk : ∀ {s s'}, R s s' → s.sunk = s'.sunk
  cache : ∀ k name {s s'}, R s s' → R (s.cache N k name) (s'.cache N k name)
  hit : ∀ k {s s'}, R s s' → R (s.hit k) (s'.hit k)
  pop : ∀ k {s s'}, R s s' → R (s.pop k) (s'.pop k)
  sink : ∀ ev {s s'}, R s s' → R { s with sunk := s.sunk ++ [ev] } { s' with sunk := s'.sunk ++ [ev] }

theorem alike_respects (N : Nat) : Respects N Alike where
  names h := h.cache
  sunk h := h.sunk
  cache _ _ _ _ h := ⟨by simp only [Monitor.cache, h.cache], h.sunk, h.poison⟩
  hit _ _ _ h := ⟨by simp only [Monitor.hit, h.cache], h.sunk, h.poison⟩
  pop _ _ _ h := ⟨by simp only [Monitor.pop, h.cache], h.sunk, h.poison⟩
  sink _ _ _ h := ⟨h.cache, by simp only [h.sunk], h.poison⟩

section Respects
variable {R : Monitor → Monitor → Prop} (hR : Respects env.NAME_CACHE_MAX R)
include hR

theorem Respects.cached_name (k : Val) : Related R (cached_name k) (cached_name k) := by
  intro s s' h
  rw [RunsRelated, cached_name_apply, cached_name_apply, hR.names h]
  refine ⟨rfl, ?_⟩
  simp only [final_ok]
  split
  · exact hR.hit k h
  · exact h

theorem Respects.resolve_name (event : Body) : Related R (resolve_name event) (resolve_name event) := by
  unfold Broker.resolve_name
  simp only
  split
  · exact related_pure _
  · exact related_bind (related_ofOutcome _) hR.cached_name

theorem Respects.cache_name (event : Body) : Related R (cache_name env event) (cache_name env event) := by
  unfold Broker.cache_name
  simp only
  split
  · exact related_bind (related_ofOutcome _) fun k => related_modify fun _ _ h => hR.cache k _ h
  · exact related_pure _

theorem Respects.pop_name (event : Body) : Related R (pop_name event) (pop_name event) :=
  related_bind (related_ofOutcome _) fun k => related_modify fun _ _ h => hR.pop k h

theorem Respects.emit (event : Body) (build : Val → Except Exn Event) :
    Related R (emit env event build) (emit env event build) := by
  refine related_bind (hR.resolve_name event) fun _ => related_bind (related_ofOutcome _) fun ev s s' h => ?_
  rw [RunsRelated, Broker.sink, bind_ok (get_apply s), bind_ok (modify_apply _ s), bind_ok (get_apply s'),
    bind_ok (modify_apply _ s'), congrArg List.length (hR.sunk h)]
  exact related_ofOutcome _ _ _ (hR.sink ev h)

theorem Respects.body (h : Handler) (event : Body) : Related R (body env h event) (body env h event) := by
  cases h with
  | received | started => exact related_bind (hR.cache_name event) fun _ => hR.emit event _
  | succeeded =>
    exact related_bind (related_ofOutcome _) fun _ =>
      related_bind (hR.emit event _) fun _ => hR.pop_name event
  | failed | revoked => exact related_bind (hR.emit event _) fun _ => hR.pop_name event
  | retried => exact hR.emit event _

end Respects

theorem handle_related (h : Handler) (event : Body) : Related Alike (handle env h event) (handle env h event) := by
  intro s s' hs
  obtain ⟨-, hfin⟩ := (alike_respects env.NAME_CACHE_MAX).body h event s s' hs
  rw [RunsRelated, handle_apply, handle_apply]
  exact ⟨rfl, hfin.cache, hfin.sunk, hfin.poison⟩

theorem dispatch_event_related (ev : Val) : Related Alike (dispatch_event env ev) (dispatch_event env ev) := by
  cases ev with
  | dict event =>
    simp only [dispatch_event]
    split
    · exact related_pure _
    · refine related_bind (related_ofOutcome _) fun _ => ?_
      cases type_handler (get event "type" (.str "")) with
      | none => exact related_pure _
      | some h => exact handle_related h event
  | _ => exact related_throw _

/-! ## Messages that differ -/

/-- Events that differ in one value only. -/
def SameBut (k : String) (event event' : Body) : Prop := ∀ l ≠ k, lookup l event = lookup l event'

theorem SameBut.get_eq {k : String} {event event' : Body} (h : SameBut k event event') {l : String} (hl : l ≠ k)
    (default : Val) : get event l default = get event' l default := by
  simp only [Py.get, h l hl]

theorem SameBut.resolve_name_eq {k : String} {event event' : Body} (h : SameBut k event event') (hname : "name" ≠ k)
    (huuid : "uuid" ≠ k) : resolve_name event = resolve_name event' := by
  unfold resolve_name
  simp only [h.get_eq hname, h.get_eq huuid]

theorem SameBut.pop_name_eq {k : String} {event event' : Body} (h : SameBut k event event') (huuid : "uuid" ≠ k) :
    pop_name event = pop_name event' := by
  unfold pop_name
  simp only [h.get_eq huuid]

/-- Events that pass the same filter and that the handler cannot tell apart. -/
structure Interchangeable (env : Env) (h : Handler) (event event' : Body) : Prop where
  type : get event "type" (.str "") = get event' "type" (.str "")
  hostname : get event "hostname" (.str "") = get event' "hostname" (.str "")
  body : body env h event = body env h event'

/-- Two elements are one, or they reach one handler with events related by
`Q`. -/
def Paired (env : Env) (Q : Handler → Body → Body → Prop) (ev ev' : Val) : Prop :=
  ev = ev' ∨ ∃ h event event', Reaches env ev h event ∧ ev' = .dict event' ∧ Q h event event'

/-- Messages with paired elements. -/
def PairedDeliveries (env : Env) (Q : Handler → Body → Body → Prop) (ds ds' : List Delivery) : Prop :=
  List.Forall₂ (fun d d' => List.Forall₂ (Paired env Q) d.events d'.events) ds ds'

variable {Q : Handler → Body → Body → Prop}

theorem dispatch_event_alike (hQ : ∀ h event event', Q h event event' → Interchangeable env h event event')
    {ev ev' : Val} (hp : Paired env Q ev ev') : Related Alike (dispatch_event env ev) (dispatch_event env ev') := by
  rcases hp with rfl | ⟨h, event, event', hr, rfl, hq⟩
  · exact dispatch_event_related ev
  · intro s s' hs
    have hi := hQ h event event' hq
    have hr' : Reaches env (.dict event') h event' := by
      obtain ⟨rfl, htype, hfilter⟩ := hr
      exact ⟨rfl, hi.type ▸ htype, hi.hostname ▸ hfilter⟩
    have hrel := ((alike_respects env.NAME_CACHE_MAX).body h event s s' hs).2
    rw [RunsRelated, dispatch_event_reaches hr, dispatch_event_reaches hr', handle_apply, handle_apply, ← hi.body]
    exact ⟨rfl, hrel.cache, hrel.sunk, hrel.poison⟩

theorem dispatch_events_alike (hQ : ∀ h event event', Q h event event' → Interchangeable env h event event')
    {evs evs' : List Val} (hp : List.Forall₂ (Paired env Q) evs evs') :
    Related Alike (dispatch_events env evs) (dispatch_events env evs') := by
  induction hp with
  | nil => exact related_pure ()
  | cons hev _ ih => exact related_bind (dispatch_event_alike hQ hev) fun _ => ih

/-- Acknowledging does nothing that counts, whatever the message's `ack` does. -/
theorem ack_related (d d' : Delivery) : Related Alike (ack d) (ack d') := by
  refine related_bind (related_modify fun s s' h => ⟨h.cache, h.sunk, h.poison⟩) fun _ s s' h => ?_
  rw [RunsRelated, tryExcept, tryExcept, ofOutcome_apply, ofOutcome_apply]
  cases d.ack <;> cases d'.ack <;> exact ⟨rfl, h⟩

theorem dispatch_alike (hQ : ∀ h event event', Q h event event' → Interchangeable env h event event')
    {d d' : Delivery} (hp : List.Forall₂ (Paired env Q) d.events d'.events) :
    Related Alike (dispatch env d) (dispatch env d') := by
  have hpoison : Related Alike (modify Monitor.poison : MonitorM Unit) (modify Monitor.poison) :=
    related_modify fun s s' h => ⟨h.cache, h.sunk, congrArg (· + 1) h.poison⟩
  exact related_bind (related_tryExcept (dispatch_events_alike hQ hp) fun _ => hpoison) fun _ => ack_related d d'

theorem deliverAll_alike (hQ : ∀ h event event', Q h event event' → Interchangeable env h event event')
    {ds ds' : List Delivery} (hp : PairedDeliveries env Q ds ds') {s s' : Monitor} (hs : Alike s s') :
    Alike (deliverAll env ds s) (deliverAll env ds' s') := by
  induction hp generalizing s s' with
  | nil => exact hs
  | cons hd _ ih => exact ih (dispatch_alike hQ hd _ _ hs).2

end Z4jCelery.Events.Broker
