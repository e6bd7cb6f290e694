import Z4jCelery.Core
/-!
# Task metadata

`z4j_meta` attaches a `TaskMeta` to a task function; `get_meta` reads it back
from whatever a capture path has for the task.
-/

namespace Z4jCelery.Events

open Py Z4jCelery.Core

structure TaskMeta where
  redact_kwargs : List String
  keep_kwargs : Option (List String)
  redact_result : Bool
  tags : List String
  priority : Option String
  expected_duration_ms : Option Int
  deadline_ms : Option Int
  skip : Bool
  sample_rate : Rat

def valid_priorities : List (Option String) :=
  [some "critical", some "high", some "normal", some "low", none]

/-- `z4j_meta(...)`: the metadata it attaches, unless a check fails. `levels` is
how the set of priorities prints, in an order of its own. -/
def z4j_meta (py : Interp) (levels : String) (m : TaskMeta) : Except Exn TaskMeta :=
  if ¬ (0 ≤ m.sample_rate ∧ m.sample_rate ≤ 1) then
    .error ⟨.ValueError, "ValueError", "sample_rate must be in [0.0, 1.0]"⟩
  else if m.priority ∉ valid_priorities then
    .error ⟨.ValueError, "ValueError",
      "priority must be one of " ++ levels ++ ", got " ++ py.repr ((m.priority.map Val.str).getD .none)⟩
  else .ok m

/-- A Celery task object: its `name` and `__name__` (`None` where it has none),
its truth value, and the metadata on its `run`. -/
structure TaskObj where
  name : Val
  dunder_name : Val
  truth : Bool
  tmeta : Option TaskMeta

/-- What a capture path passes as `task`: a value (`None` or the name in the
broker's message) or a task object. -/
inductive TaskArg where
  | val (v : Val)
  | obj (t : TaskObj)

/-- `get_meta(task)`. No plain value has a `run` or a metadata attribute. -/
def get_meta : TaskArg → Option TaskMeta
  | .val _ => none
  | .obj t => t.tmeta

end Z4jCelery.Events
