import Z4jCelery.Engine.Workers.Connections
/-!
# Failed refreshes

`_refresh_worker_stats` keeps the cached details when an exception reaches it.
None does: the functions it calls catch the failure of an inspect call and
return what the replies before it hold, and that replaces the cached details.
`details_kept_iff` says in which runs of heartbeats this does no harm.
-/

namespace Z4jCelery.Engine.Workers

open Py Z4jCelery.Core Lib

/-! ## Heartbeats -/

/-- What the application answers during a heartbeat, and the clock. -/
structure Heartbeat where
  app : App
  now : Rat

/-- `_last_worker_stats_at = 0.0`, `_cached_worker_stats = {}`. -/
def Adapter.init (worker_hostname : Option String) : Adapter := ⟨worker_hostname, 0, [], []⟩

def beat (a : Adapter) (hb : Heartbeat) : Adapter := final (get_health hb.app hb.now a)

def report (a : Adapter) (hb : Heartbeat) : Except Exn Health := outcome (get_health hb.app hb.now a)

/-- The adapter after some heartbeats. -/
def after (a : Adapter) (hbs : List Heartbeat) : Adapter := hbs.foldl beat a

/-! ## Refreshes -/

def Due (a : Adapter) (hb : Heartbeat) : Prop := hb.now - a.last_worker_stats_at > 60

instance (a : Adapter) (hb : Heartbeat) : Decidable (Due a hb) := inferInstanceAs (Decidable (_ > _))

/-- The inspect calls of a refresh: all of them of a known worker. -/
def refresh_calls (hostname : Option String) : List Inspect := if (destination hostname).isSome then calls else [.stats]

def answered (ins : Inspector) (c : Inspect) : Bool :=
  match reply ins c with
  | .ok _ => true
  | .error _ => false

/-- The refresh gets its connection, its inspector and every reply. -/
def complete (app : App) (hostname : Option String) : Bool :=
  match inspector app (destination hostname) with
  | .ok ins => (refresh_calls hostname).all (answered ins)
  | .error _ => false

/-- The heartbeat refreshes the details, and connecting or an inspect call raises. -/
def Fails (a : Adapter) (hb : Heartbeat) : Prop := Due a hb ∧ complete hb.app a.worker_hostname = false

/-- The replies that a refresh reads before the failure, if there is one. -/
def read_replies (app : App) (hostname : Option String) : List (Inspect × List (String × Val)) :=
  match inspector app (destination hostname) with
  | .ok ins => replies ins (refresh_calls hostname)
  | .error _ => []

/-- The details of the last complete refresh, `known` before the first one. -/
def latest (a : Adapter) (known : Option Details) : List Heartbeat → Option Details
  | [] => known
  | hb :: hbs =>
    latest (beat a hb)
      (if Due a hb ∧ complete hb.app a.worker_hostname = true then some (refreshed hb.app a.worker_hostname) else known) hbs

/-! ## Equal details -/

/-- The same workers with the same sections, in any order. -/
structure SameDict (r r' : Details) : Prop where
  workers : ∀ worker, (lookup worker r).isSome ↔ (lookup worker r').isSome
  sections : ∀ worker name, section_of r worker name = section_of r' worker name

theorem SameDict.refl (r : Details) : SameDict r r := ⟨fun _ => Iff.rfl, fun _ _ => rfl⟩

theorem SameDict.trans {r r' r'' : Details} (h : SameDict r r') (h' : SameDict r' r'') : SameDict r r'' :=
  ⟨fun worker => (h.workers worker).trans (h'.workers worker),
    fun worker name => (h.sections worker name).trans (h'.sections worker name)⟩

section Sections
variable {rs : List (Inspect × List (String × Val))} {r r' : Details}

theorem SectionsOf.congr (h : SectionsOf rs r) (hs : SameDict r r') : SectionsOf rs r' where
  workers worker := (hs.workers worker).symm.trans (h.workers worker)
  sections worker name v := by
    rw [← hs.sections worker name]
    exact h.sections worker name v

/-- Replies have one dictionary of sections. -/
theorem SectionsOf.same (h : SectionsOf rs r) (h' : SectionsOf rs r') : SameDict r r' where
  workers worker := (h.workers worker).trans (h'.workers worker).symm
  sections worker name := by
    apply Option.ext
    intro v
    exact (h.sections worker name v).trans (h'.sections worker name v).symm

end Sections

theorem refreshed_sectionsOf (app : App) (hostname : Option String) :
    SectionsOf (read_replies app hostname) (refreshed app hostname) := by
  have hcalls : (calls.map Inspect.section_name).Nodup := by decide
  have hempty : SectionsOf [] [] := ⟨fun worker => by simp, fun worker name v => by simp [section_of]⟩
  rw [read_replies, refresh_calls, refreshed]
  cases hd : destination hostname with
  | none =>
    rw [Option.isSome_none, if_neg Bool.false_ne_true]
    simp only
    cases inspector app none with
    | error e => exact hempty
    | ok ins => exact gather_sectionsOf ins (by decide)
  | some hostname =>
    rw [Option.isSome_some, if_pos rfl]
    simp only
    cases inspector app (some hostname) with
    | error e => exact hempty
    | ok ins => exact gather_sectionsOf ins hcalls

/-! ## One heartbeat -/

section Beat
variable (a : Adapter) (hb : Heartbeat)

theorem beat_cached : (beat a hb).cached_worker_stats =
    if Due a hb then refreshed hb.app a.worker_hostname else a.cached_worker_stats := by
  obtain ⟨ops, h⟩ := get_health_apply hb.app hb.now a
  rw [beat, h, final_ok]
  show (beaten hb.app hb.now a).cached_worker_stats = if hb.now - a.last_worker_stats_at > 60 then _ else _
  rw [beaten]
  split <;> rfl

/-- A heartbeat carries what is cached then. -/
theorem report_details : ∃ health, report a hb = .ok health ∧ health.worker_details = sent (beat a hb) := by
  obtain ⟨ops, h⟩ := get_health_apply hb.app hb.now a
  refine ⟨_, by rw [report, h, outcome_ok], ?_⟩
  show sent (beaten hb.app hb.now a) = sent (beat a hb)
  rw [beat, h, final_ok, sent, sent]

/-- An empty cache is left out. -/
theorem sent_getD : (sent a).getD [] = a.cached_worker_stats := by
  unfold sent
  split
  · rfl
  · rename_i hempty
    rw [not_not.1 hempty]
    rfl

end Beat

/-! ## Runs of heartbeats -/

/-- The replies before the failure hold what is cached. -/
def RepliesCached (a : Adapter) (hb : Heartbeat) : Prop :=
  SectionsOf (read_replies hb.app a.worker_hostname) a.cached_worker_stats

/-- A property of every heartbeat of a run, in the state before it. -/
def Throughout (P : Adapter → Heartbeat → Prop) (a : Adapter) (hbs : List Heartbeat) : Prop :=
  ∀ before hb rest, hbs = before ++ hb :: rest → P (after a before) hb

/-- A failed refresh leaves the cached details unchanged, and a heartbeat after a
complete refresh carries the details of the last one. -/
structure DetailsKept (a : Adapter) (hbs : List Heartbeat) : Prop where
  unchanged : Throughout (fun s hb => Fails s hb → SameDict (beat s hb).cached_worker_stats s.cached_worker_stats) a hbs
  carried : ∀ before hb rest, hbs = before ++ hb :: rest → ∀ details, latest a none (before ++ [hb]) = some details →
    ∃ health, report (after a before) hb = .ok health ∧ SameDict (health.worker_details.getD []) details

section Runs
variable {P : Adapter → Heartbeat → Prop} {a : Adapter} {hb : Heartbeat} {hbs rest : List Heartbeat}

theorem Throughout.cons (h : Throughout P a (hb :: hbs)) : P a hb ∧ Throughout P (beat a hb) hbs := by
  refine ⟨h [] hb hbs rfl, fun before hb' rest he => ?_⟩
  exact h (hb :: before) hb' rest (by rw [he, List.cons_append])

theorem Throughout.front (h : Throughout P a (hbs ++ rest)) : Throughout P a hbs := by
  intro before hb after he
  exact h before hb (after ++ rest) (by rw [he, List.append_assoc, List.cons_append])

theorem after_snoc : after a (hbs ++ [hb]) = beat (after a hbs) hb := by
  rw [after, List.foldl_append]
  rfl

/-- One refresh that fails. -/
theorem unchanged_iff (h : Fails a hb) :
    SameDict (beat a hb).cached_worker_stats a.cached_worker_stats ↔ RepliesCached a hb := by
  have hread := refreshed_sectionsOf hb.app a.worker_hostname
  rw [beat_cached, if_pos h.1, RepliesCached]
  exact ⟨hread.congr, hread.same⟩

/-- What is cached is what the last complete refresh gave. -/
theorem cached_latest {known : Option Details} (h : Throughout (fun s hb => Fails s hb → RepliesCached s hb) a hbs)
    (hknown : ∀ details, known = some details → SameDict a.cached_worker_stats details) {details : Details}
    (hd : latest a known hbs = some details) : SameDict (after a hbs).cached_worker_stats details := by
  induction hbs generalizing a known with
  | nil => exact hknown details hd
  | cons hb hbs ih =>
    obtain ⟨hfirst, hrest⟩ := h.cons
    refine ih hrest (fun found hfound => ?_) hd
    split at hfound
    · rename_i hdone
      obtain rfl := Option.some.inj hfound
      rw [beat_cached, if_pos hdone.1]
      exact .refl _
    · rename_i hundone
      by_cases hdue : Due a hb
      · have hfails : Fails a hb := ⟨hdue, by simpa [hdue] using hundone⟩
        exact ((unchanged_iff hfails).2 (hfirst hfails)).trans (hknown found hfound)
      · rw [beat_cached, if_neg hdue]
        exact hknown found hfound

end Runs

/-- For every adapter and every run of heartbeats, at any times and with any
failures: the details are kept exactly when at every refresh that fails the
replies before the failure hold what is cached. -/
theorem details_kept_iff (a : Adapter) (hbs : List Heartbeat) :
    DetailsKept a hbs ↔ Throughout (fun s hb => Fails s hb → RepliesCached s hb) a hbs := by
  constructor
  · intro h before hb rest he hfails
    exact (unchanged_iff hfails).1 (h.unchanged before hb rest he hfails)
  · intro h
    refine ⟨fun before hb rest he hfails => (unchanged_iff hfails).2 (h before hb rest he hfails), ?_⟩
    intro before hb rest he details hdetails
    have hsplit : hbs = before ++ [hb] ++ rest := by rw [he, List.append_assoc, List.singleton_append]
    have hfront : Throughout (fun s hb => Fails s hb → RepliesCached s hb) a (before ++ [hb]) :=
      Throughout.front (hsplit ▸ h)
    obtain ⟨health, hhealth, hsent⟩ := report_details (after a before) hb
    refine ⟨health, hhealth, ?_⟩
    rw [hsent, sent_getD, ← after_snoc]
    exact cached_latest hfront (fun _ h => by cases h) hdetails

/-! ## A broker that goes away -/

def refused : Exn := ⟨.OSError, "ConnectionRefusedError", "connection refused"⟩

/-- One worker that answers every inspect call. -/
def broker_up : App where
  py := .plain
  connection_for_write := .ok ⟨7, .ok (.dict []), .ok (.ok (.str "amqp")), .ok (), .ok ()⟩
  inspect _ := .ok fun c => .ok (.workers ⟨[("celery@a", .dict [("section", .str c.section_name)])], by simp⟩)
  connection_for_read := .error refused
  broker_url := .error refused
  task_queues := .ok []
  task_default_queue := .ok "celery"

def broker_down : App := { broker_up with connection_for_write := .error refused }

/-- The worker's details are carried once; a minute later the connection is
refused, and the next heartbeat carries none. -/
theorem refused_refresh_erases :
    let a := Adapter.init (some "celery@a")
    complete broker_up a.worker_hostname = true ∧
      (report a ⟨broker_up, 100⟩).map (fun health => health.worker_details.map (·.map Prod.fst)) = .ok (some ["celery@a"]) ∧
      (report (after a [⟨broker_up, 100⟩]) ⟨broker_down, 161⟩).map Health.worker_details = .ok none ∧
      ¬DetailsKept a [⟨broker_up, 100⟩, ⟨broker_down, 161⟩] := by
  intro a
  refine ⟨rfl, by decide +kernel, by decide +kernel, ?_⟩
  intro hkept
  have hfails : Fails (after a [⟨broker_up, 100⟩]) ⟨broker_down, 161⟩ := ⟨by decide +kernel, rfl⟩
  have hsame := hkept.unchanged [⟨broker_up, 100⟩] ⟨broker_down, 161⟩ [] rfl hfails
  have hcached : (lookup "celery@a" (after a [⟨broker_up, 100⟩]).cached_worker_stats).isSome = true := by decide +kernel
  have herased : (lookup "celery@a" (after a [⟨broker_up, 100⟩, ⟨broker_down, 161⟩]).cached_worker_stats).isSome = false := by
    decide +kernel
  have hstill := (hsame.workers "celery@a").2 hcached
  exact absurd (herased.symm.trans hstill) Bool.false_ne_true

end Z4jCelery.Engine.Workers
