import Z4jCelery.Events.Mapper
/-!
# What a task's metadata hides

`visible` is what metadata lets out of keyword arguments. The events of two
calls with the same view are the same, whatever the engine's `scrub` does.
-/

namespace Z4jCelery.Events.Mapper

open Py Z4jCelery.Core Events

/-- The keyword arguments that the whitelist keeps. An empty whitelist keeps
nothing; no whitelist keeps everything. -/
def kept (m : TaskMeta) (kwargs : List (String × Val)) : List (String × Val) :=
  match m.keep_kwargs with
  | some keep => kwargs.filter fun kv => decide (kv.1 ∈ keep)
  | none => kwargs

/-- The kept keys in order, each with its value unless that is redacted. -/
def visible (m : TaskMeta) (kwargs : List (String × Val)) : List (String × Option Val) :=
  (kept m kwargs).map fun kv => (kv.1, if kv.1 ∈ m.redact_kwargs then none else some kv.2)

/-- Calls that the metadata makes one: the same positional arguments, or under a
whitelist any two that are both `None` or both not; and keyword arguments with
the same view. -/
structure SameView (m : TaskMeta) (args args' : Val) (kwargs kwargs' : Option (List (String × Val))) : Prop where
  args : args = args' ∨ m.keep_kwargs.isSome = true ∧ (args = .none ↔ args' = .none)
  kwargs : kwargs.map (visible m) = kwargs'.map (visible m)

/-! ## What the view leaves out -/

theorem kept_upsertItems (m : TaskMeta) (k : String) (v : Val) (kwargs : List (String × Val)) :
    kept m (Lib.Dict.upsertItems k v kwargs) =
      if m.keep_kwargs.any (k ∉ ·) then kept m kwargs else Lib.Dict.upsertItems k v (kept m kwargs) := by
  rw [kept, kept]
  cases m.keep_kwargs with
  | none => rfl
  | some keep =>
    simp only [Option.any_some, decide_eq_true_eq]
    induction kwargs with
    | nil =>
      rw [Lib.Dict.upsertItems]
      by_cases hk : k ∈ keep
      · simp [hk, Lib.Dict.upsertItems]
      · simp [hk]
    | cons kv kwargs ih =>
      rw [Lib.Dict.upsertItems]
      by_cases hkv : kv.1 = k
      · by_cases hk : k ∈ keep <;> simp [hkv, hk, Lib.Dict.upsertItems]
      · rw [if_neg hkv, List.filter_cons, List.filter_cons, ih]
        by_cases hk : k ∈ keep <;> by_cases hkv' : kv.1 ∈ keep <;> simp [hk, hkv, hkv', Lib.Dict.upsertItems]

/-- The value under a redacted key is not in the view. -/
theorem visible_redacted (m : TaskMeta) {k : String} (hk : k ∈ m.redact_kwargs) (v v' : Val)
    (kwargs : List (String × Val)) :
    visible m (Lib.Dict.upsertItems k v kwargs) = visible m (Lib.Dict.upsertItems k v' kwargs) := by
  rw [visible, visible, kept_upsertItems, kept_upsertItems]
  split
  · rfl
  · induction kept m kwargs with
    | nil => simp [Lib.Dict.upsertItems, hk]
    | cons kv kvs ih =>
      rw [Lib.Dict.upsertItems, Lib.Dict.upsertItems]
      split
      · simp [hk]
      · rw [List.map_cons, List.map_cons, ih]

/-- A key off the whitelist is not in the view, nor whether it is there. -/
theorem visible_outside (m : TaskMeta) {k : String} {keep : List String} (hkeep : m.keep_kwargs = some keep)
    (hk : k ∉ keep) (v : Val) (kwargs : List (String × Val)) :
    visible m (Lib.Dict.upsertItems k v kwargs) = visible m kwargs := by
  rw [visible, visible, kept_upsertItems, hkeep, Option.any_some, if_pos (by simpa using hk)]

/-! ## The builders see the view only -/

/-- What `scrub` receives is the view, with a placeholder for what it leaves
out. -/
theorem kwargs_source_visible (m : TaskMeta) (kwargs : List (String × Val)) :
    kwargs_source kwargs (some m) = (visible m kwargs).map fun kv => (kv.1, kv.2.getD REDACTED) := by
  have hsource : kwargs_source kwargs (some m) =
      (kept m kwargs).map fun kv => if kv.1 ∈ m.redact_kwargs then (kv.1, REDACTED) else kv := rfl
  rw [hsource, visible, List.map_map]
  refine List.map_congr_left fun kv _ => ?_
  simp only [Function.comp]
  split <;> rfl

variable {py : Interp} {engine : RedactionEngine} {m : TaskMeta} {args args' : Val} {kwargs kwargs' : Option (List (String × Val))}

theorem scrub_args_sameView (h : SameView m args args' kwargs kwargs') :
    scrub_args py engine args (some m) = scrub_args py engine args' (some m) := by
  rcases h.args with rfl | ⟨hkeep, hnone⟩
  · rfl
  · have hkeep : (keeps (some m)).isSome = true := hkeep
    rw [scrub_args, scrub_args, if_pos hkeep, if_pos hkeep]
    by_cases ha : args = .none
    · rw [if_pos ha, if_pos (hnone.1 ha)]
    · rw [if_neg ha, if_neg (mt hnone.2 ha)]

theorem scrub_kwargs_sameView (h : SameView m args args' kwargs kwargs') :
    scrub_kwargs engine kwargs (some m) = scrub_kwargs engine kwargs' (some m) := by
  have hview := h.kwargs
  cases kwargs with
  | none =>
    cases kwargs' with
    | none => rfl
    | some kwargs' => cases hview
  | some kwargs =>
    cases kwargs' with
    | none => cases hview
    | some kwargs' =>
      have hvisible : visible m kwargs = visible m kwargs' := Option.some.inj hview
      simp only [scrub_kwargs, kwargs_source_visible, hvisible]

/-- A redacted key that the whitelist keeps reaches `scrub` as the placeholder,
and with no other value. -/
theorem kwargs_source_redacted {kwargs : List (String × Val)} {k : String} (hk : k ∈ m.redact_kwargs)
    (hkept : k ∈ (kept m kwargs).map Prod.fst) :
    (k, REDACTED) ∈ kwargs_source kwargs (some m) ∧ ∀ v, (k, v) ∈ kwargs_source kwargs (some m) → v = REDACTED := by
  rw [kwargs_source_visible, visible, List.map_map]
  constructor
  · obtain ⟨⟨l, v⟩, hv, rfl⟩ := List.mem_map.1 hkept
    exact List.mem_map.2 ⟨(l, v), hv, by simp only [Function.comp, if_pos hk, Option.getD_none]⟩
  · intro v hv
    obtain ⟨⟨l, w⟩, -, heq⟩ := List.mem_map.1 hv
    simp only [Function.comp, Prod.mk.injEq] at heq
    obtain ⟨rfl, rfl⟩ := heq
    rw [if_pos hk, Option.getD_none]

theorem mem_kept {kwargs : List (String × Val)} {k : String} {v : Val} :
    (k, v) ∈ kept m kwargs ↔ (k, v) ∈ kwargs ∧ ∀ keep, m.keep_kwargs = some keep → k ∈ keep := by
  rw [kept]
  cases m.keep_kwargs <;> simp

/-! ## What the events carry of them -/

theorem scrub_kwargs_ok {kwargs : List (String × Val)} {tmeta : Option TaskMeta} {v : Val}
    (h : scrub_kwargs engine (some kwargs) tmeta = .ok v) : v = engine.scrub (.dict (kwargs_source kwargs tmeta)) := by
  simp only [scrub_kwargs] at h
  split at h
  · rename_i kvs hs
    rw [hs, ← Except.ok.inj h]
  · cases h

theorem build_task_received_event_kwargs {task_id : Val} {task : TaskArg}
    {kwargs : List (String × Val)} {queue parent_task_id root_task_id : Val} {ev : Event}
    (h : build_task_received_event py engine task_id task args (some kwargs) queue parent_task_id root_task_id =
      .ok ev) : lookup "kwargs" ev.data = some (engine.scrub (.dict (kwargs_source kwargs (get_meta task)))) := by
  obtain ⟨_, -, h⟩ := except_bind_eq_ok.1 h
  obtain ⟨_, -, h⟩ := except_bind_eq_ok.1 h
  obtain ⟨_, hk, h⟩ := except_bind_eq_ok.1 h
  obtain rfl := Except.ok.inj h
  rw [← scrub_kwargs_ok hk]
  refine (lookup_update ?_ _ _).trans rfl
  rw [entry, entry]
  split <;> split <;> simp

theorem build_task_started_event_kwargs {task_id : Val} {task : TaskArg}
    {kwargs : List (String × Val)} {worker queue : Val} {ev : Event}
    (h : build_task_started_event py engine task_id task args (some kwargs) worker queue = .ok ev) :
    lookup "kwargs" ev.data = some (engine.scrub (.dict (kwargs_source kwargs (get_meta task)))) := by
  obtain ⟨_, -, h⟩ := except_bind_eq_ok.1 h
  obtain ⟨_, -, h⟩ := except_bind_eq_ok.1 h
  obtain ⟨_, hk, h⟩ := except_bind_eq_ok.1 h
  obtain rfl := Except.ok.inj h
  rw [← scrub_kwargs_ok hk]
  exact (lookup_update (by simp) _ _).trans rfl

/-! ## The events of a task with metadata -/

/-- A task object with metadata `m`. Received and started events depend on the
view of the arguments only; succeeded events under `redact_result` do not depend
on the result. The keyword arguments in the events are what `scrub` makes of a
dictionary that has the placeholder, and nothing else, under every redacted key,
whitelisted or not. -/
theorem events_depend_on_view (py : Interp) (redaction : RedactionEngine) (t : TaskObj) (m : TaskMeta)
    (hm : t.tmeta = some m) :
    (∀ task_id args args' kwargs kwargs' worker queue parent_task_id root_task_id,
      SameView m args args' kwargs kwargs' →
      build_task_received_event py redaction task_id (.obj t) args kwargs queue parent_task_id root_task_id =
        build_task_received_event py redaction task_id (.obj t) args' kwargs' queue parent_task_id root_task_id ∧
      build_task_started_event py redaction task_id (.obj t) args kwargs worker queue =
        build_task_started_event py redaction task_id (.obj t) args' kwargs' worker queue) ∧
    (m.redact_result = true → ∀ task_id result result' runtime_ms worker queue,
      build_task_succeeded_event py redaction task_id (.obj t) result runtime_ms worker queue =
        build_task_succeeded_event py redaction task_id (.obj t) result' runtime_ms worker queue) ∧
    ∀ kwargs,
      (∀ task_id args worker queue parent_task_id root_task_id ev,
        build_task_received_event py redaction task_id (.obj t) args (some kwargs) queue parent_task_id root_task_id =
            .ok ev ∨
          build_task_started_event py redaction task_id (.obj t) args (some kwargs) worker queue = .ok ev →
        lookup "kwargs" ev.data = some (redaction.scrub (.dict (kwargs_source kwargs (some m))))) ∧
      ∀ k v, (k, v) ∈ kwargs → k ∈ m.redact_kwargs → (∀ keep, m.keep_kwargs = some keep → k ∈ keep) →
        (k, REDACTED) ∈ kwargs_source kwargs (some m) ∧ ∀ w, (k, w) ∈ kwargs_source kwargs (some m) → w = REDACTED := by
  have hmeta : get_meta (.obj t) = some m := hm
  refine ⟨?_, ?_, ?_⟩
  · intro task_id args args' kwargs kwargs' worker queue parent_task_id root_task_id h
    constructor
    · rw [build_task_received_event, build_task_received_event, hmeta, scrub_args_sameView h, scrub_kwargs_sameView h]
    · rw [build_task_started_event, build_task_started_event, hmeta, scrub_args_sameView h, scrub_kwargs_sameView h]
  · intro hr task_id result result' runtime_ms worker queue
    have hresult : ∀ result, scrub_result redaction (.obj t) result = REDACTED := fun result => by
      rw [scrub_result, hmeta, Option.any_some, if_pos hr]
    rw [build_task_succeeded_event, build_task_succeeded_event, hresult, hresult]
  · intro kwargs
    constructor
    · rintro task_id args worker queue parent_task_id root_task_id ev (h | h)
      · rw [build_task_received_event_kwargs h, hmeta]
      · rw [build_task_started_event_kwargs h, hmeta]
    · intro k v hkv hk hkeep
      exact kwargs_source_redacted hk (List.mem_map.2 ⟨(k, v), mem_kept.2 ⟨hkv, hkeep⟩, rfl⟩)

/-- A card number under a whitelist that keeps it and a redaction that hides
it, with a second argument that the whitelist drops. -/
theorem events_depend_on_view_pay :
    let m : TaskMeta := ⟨["card"], some ["card", "amount"], true, [], none, none, none, false, 1⟩
    let t : TaskObj := ⟨.str "app.pay", .none, true, some m⟩
    let py : Interp := .plain
    let started := fun args kwargs =>
      build_task_started_event py ⟨id⟩ (.str "t1") (.obj t) args kwargs .none .none
    started (.list [.int 1]) (some [("card", .str "4111"), ("amount", .int 5), ("pin", .int 1234)]) =
      started (.list []) (some [("card", .str "4222"), ("amount", .int 5)]) := by
  intro m t py started
  exact ((events_depend_on_view py ⟨id⟩ t m rfl).1 (.str "t1") _ _ _ _ .none .none .none .none
    ⟨.inr ⟨rfl, by decide⟩, by decide⟩).2

end Z4jCelery.Events.Mapper
