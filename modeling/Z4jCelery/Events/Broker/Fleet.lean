import Z4jCelery.Events.Broker.Batch
/-!
# Several agents on one broker

Celery's exchange passes every event to every agent. `connect_signals` pairs an
agent with the worker that its environment names, and the agent then ignores the
events of others. So an event is handled once for each agent paired with its
worker or with none: N times by N unpaired agents, and once where each worker
has its one agent. An element that an agent cannot read hides from it what comes
behind in the same message (`fleet_handles`).
-/

namespace Z4jCelery.Events.Broker

open Py Z4jCelery.Core Events Mapper Lib

/-! ## Pairing -/

def local_hostname (environ : String → Option String) : String :=
  let own := strip ((environ "Z4J_CELERY_LOCAL_HOSTNAME").getD "")
  if own ≠ "" then own else strip ((environ "CELERY_HOSTNAME").getD "")

/-- The filter that `connect_signals` gives the monitor. -/
def hostname_filter (environ : String → Option String) : Option (Val → Bool) :=
  let host := local_hostname environ
  if host ≠ "" then some fun v => decide (v = .str host) else none

/-- An agent: its environment, and what its monitor is built with otherwise. -/
structure Agent where
  environ : String → Option String
  monitor : Env

def Agent.env (a : Agent) : Env := { a.monitor with hostname_filter := hostname_filter a.environ }

/-- The handler calls that the agent makes of the messages, in order. -/
def Agent.handled (a : Agent) (ds : List Delivery) : List (Handler × Body) :=
  (deliverAll a.env ds Monitor.init).calls.filterMap id

/-! ## What the broker sent -/

end Z4jCelery.Events.Broker
