import Z4jCelery.Core
import Z4jCelery.Py.Frame
/-!
# Offloaded broker calls

`offload` waits a bounded time for a call that runs on the adapter's own
thread pool. The thread cannot be cancelled, so a call that outlives the wait
may still take effect.
-/

namespace Z4jCelery.Offload

open Py Z4jCelery.Core

/-- How a call relates to its timeout: it finishes in time, or it outlives the
timeout and then either runs to its end or never gets to run. -/
inductive Timing where
  | inTime
  | outlives (runs : Bool)
  deriving DecidableEq

def offloadTimeoutError : Exn := ⟨.user "OffloadTimeoutError", "OffloadTimeoutError", ""⟩

variable {ε σ α : Type}

/-! ## Waiting for a call -/

/-- `await offload(fn, timeout=...)`: `heard` is what of an exception of `fn`
comes out, `timeout` what the expiry of the wait raises. -/
def offload_with (heard : ε → ε) (timeout : ε) (t : Timing) (fn : EStateM ε σ α) : EStateM ε σ α :=
  match t with
  | .inTime => fun s =>
    match fn s with
    | .ok a s' => .ok a s'
    | .error exc s' => .error (heard exc) s'
  | .outlives runs => fun s => .error timeout (if runs then final (fn s) else s)

/-- The wait's own expiry and a `TimeoutError` that `fn` raised reach the same
`except` clause. A future takes no `StopIteration`: it stays pending until the
wait expires; and a coroutine does not raise one of its subclasses.
`run_in_executor` exchanges the exceptions of `concurrent.futures` for those of
`asyncio`. -/
def heard (exc : Exn) : Exn :=
  match exc.cls with
  | .TimeoutError | .StopIteration true => offloadTimeoutError
  | .StopIteration false => ⟨.other, "RuntimeError", "coroutine raised StopIteration"⟩
  | .FuturesInvalidStateError => ⟨.other, "InvalidStateError", exc.msg⟩
  | _ => exc

/-- `offload` of a call that raises subclasses of `Exception`, and not the
`CancelledError` of `concurrent.futures`. -/
def offload (t : Timing) (fn : PyM σ α) : PyM σ α := offload_with heard offloadTimeoutError t fn

/-- Any exception: `cancelled` is the `CancelledError` of `concurrent.futures`,
`base` one that is no subclass of `Exception`, as that of `asyncio` is. -/
inductive BaseExn where
  | exn (exc : Exn)
  | cancelled (msg : String)
  | base (name msg : String)
  deriving DecidableEq

def BaseExn.heard : BaseExn → BaseExn
  | .exn exc => .exn (Offload.heard exc)
  | .cancelled msg => .base "CancelledError" msg
  | .base name msg => .base name msg

/-- `offload` of any call. -/
def offload_any (t : Timing) (fn : EStateM BaseExn σ α) : EStateM BaseExn σ α :=
  offload_with BaseExn.heard (.exn offloadTimeoutError) t fn

/-- A call that raises subclasses of `Exception`, as one that raises anything. -/
def anyway (fn : PyM σ α) : EStateM BaseExn σ α := fun s =>
  match fn s with
  | .ok a s' => .ok a s'
  | .error exc s' => .error (.exn exc) s'

/-- The two agree where both are defined. -/
theorem offload_any_anyway (t : Timing) (fn : PyM σ α) : offload_any t (anyway fn) = anyway (offload t fn) := by
  funext s
  cases t with
  | inTime =>
    simp only [offload_any, offload, offload_with, anyway]
    cases fn s <;> rfl
  | outlives runs =>
    simp only [offload_any, offload, offload_with, anyway]
    cases fn s <;> rfl

/-- `indeterminate_timeout_result(operation, timeout, hint=hint)`, for a whole
number of seconds. -/
def indeterminate_timeout_result (operation : String) (timeout : Nat) (hint : String) : CommandResult :=
  let tail := if hint = "" then "" else " -- " ++ hint
  { status := .failed
    error := some (operation ++ ": INDETERMINATE -- the broker call timed out after " ++ toString timeout ++
      "s. The operation MAY have already completed on the broker (the agent cannot cancel an in-flight broker " ++
      "call). Do NOT blindly retry (risk of a duplicate side effect)" ++ tail ++ "; verify broker state first.")
    result := some [("indeterminate", .bool true), ("operation", .str operation)] }

/-! ## What an offloaded call does -/

theorem offload_outlives (runs : Bool) (fn : PyM σ α) (s : σ) :
    offload (.outlives runs) fn s = .error offloadTimeoutError (if runs then final (fn s) else s) := rfl

theorem offload_ok {fn : PyM σ α} {s s' : σ} {a : α} (h : fn s = .ok a s') :
    offload .inTime fn s = .ok a s' := by simp only [offload, offload_with, h]

theorem offload_error {fn : PyM σ α} {s s' : σ} {e : Exn} (h : fn s = .error e s') :
    offload .inTime fn s = .error (heard e) s' := by simp only [offload, offload_with, h]

theorem offload_any_ok {fn : EStateM BaseExn σ α} {s s' : σ} {a : α} (h : fn s = .ok a s') :
    offload_any .inTime fn s = .ok a s' := by simp only [offload_any, offload_with, h]

theorem offload_any_error {fn : EStateM BaseExn σ α} {s s' : σ} {e : BaseExn} (h : fn s = .error e s') :
    offload_any .inTime fn s = .error e.heard s' := by simp only [offload_any, offload_with, h]

/-- The classes of which a wait hears something else. -/
def Changed (e : Exn) : Prop :=
  e.cls = .TimeoutError ∨ (∃ itself, e.cls = .StopIteration itself) ∨ e.cls = .FuturesInvalidStateError

theorem heard_eq_self {e : Exn} (h : ¬ Changed e) : heard e = e := by
  rw [Changed, not_or, not_or, not_exists] at h
  obtain ⟨htimeout, hstop, hstate⟩ := h
  rw [heard]
  split <;> simp_all

/-- Only timeouts and `StopIteration` come out as the class that a wait raises. -/
theorem heard_timeout_iff (e : Exn) : (heard e).cls = offloadTimeoutError.cls ↔
    e.cls = .TimeoutError ∨ e.cls = .StopIteration true ∨ e.cls = offloadTimeoutError.cls := by
  rw [heard]
  split <;> simp_all [offloadTimeoutError]

theorem heard_user (e : Foreign) (name : String) (h : name ≠ "OffloadTimeoutError") :
    (heard e.val).isa (.user name) = false := by
  rw [heard]
  split <;> simp [Exn.isa, offloadTimeoutError, e.property name, Ne.symm h]

/-- An offloaded call returns exactly what the call returned in time. -/
theorem offload_eq_ok_iff {t : Timing} {fn : PyM σ α} {s s' : σ} {a : α} :
    offload t fn s = .ok a s' ↔ t = .inTime ∧ fn s = .ok a s' := by
  constructor
  · intro h
    cases t with
    | outlives runs =>
      rw [offload_outlives] at h
      cases h
    | inTime =>
      refine ⟨rfl, ?_⟩
      cases hf : fn s with
      | ok b s'' => rw [offload_ok hf] at h; exact h
      | error e s'' =>
        rw [offload_error hf] at h
        cases h
  · rintro ⟨rfl, h⟩
    exact offload_ok h

/-- Whatever the wait reports, the effects are those of the whole call or none. -/
theorem final_offload (t : Timing) (fn : PyM σ α) (s : σ) :
    final (offload t fn s) = final (fn s) ∨ final (offload t fn s) = s := by
  cases t with
  | inTime =>
    left
    cases hf : fn s with
    | ok a s' => rw [offload_ok hf]
    | error e s' => rw [offload_error hf]; rfl
  | outlives runs =>
    rw [offload_outlives]
    cases runs
    · exact .inr rfl
    · exact .inl rfl

theorem keeps_offload {F : Frame σ} (t : Timing) {fn : PyM σ α} (h : Keeps F fn) : Keeps F (offload t fn) := by
  intro s
  rcases final_offload t fn s with hf | hf
  · rw [hf]; exact h s
  · rw [hf]; exact F.refl s

end Z4jCelery.Offload
