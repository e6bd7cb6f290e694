import Z4jCelery.Actions.Purge.Theorems
/-!
# A purge among other clients

The depth probe and the purge are two interactions with the broker, and
producers and consumers may act before, between and after them. A purge
destroys what the probe counted, and what came in between (`purge_destroys`).
-/

namespace Z4jCelery.Actions.Purge

open Py Z4jCelery.Core Offload

variable {μ Secret : Type}

/-! ## Interleavings -/

inductive Event where
  | publish
  | take
  | probe
  | purge
  deriving DecidableEq

def Event.isClient : Event → Bool
  | .publish | .take => true
  | .probe | .purge => false

/-- How far the action is. -/
inductive Phase where
  | start
  | passed (depth : Option Val)
  | answered (r : CommandResult)
  | raised (e : Exn)

/-- The broker holds the queue's messages. -/
structure World (μ : Type) where
  broker : Broker (List μ)
  phase : Phase
  destroyed : Nat

/-- The action. `read` is the connection that it gets to read while the queue
holds given messages. -/
structure Purger (μ Secret : Type) where
  env : Env (List μ) Secret
  read : List μ → Except Foreign (Connection ReadChannel)
  queue_name : String
  confirm_token : Option String
  force : Bool

variable {p : Purger μ Secret}

def Purger.env_at (p : Purger μ Secret) (messages : List μ) : Env (List μ) Secret :=
  { p.env with connection_for_read := p.read messages }

/-- The first interaction, and the guards. -/
def Purger.ask (p : Purger μ Secret) (b : Broker (List μ)) : Phase × Broker (List μ) :=
  match probe (p.env_at b.state) p.queue_name b with
  | .error e b' => (.raised e, b')
  | .ok depth b' =>
    match guards (p.env_at b.state) p.queue_name p.confirm_token p.force depth with
    | .error e => (.raised e, b')
    | .ok (some r) => (.answered r, b')
    | .ok none => (.passed depth, b')

/-- How the action ends. -/
def ended (r : EStateM.Result Exn (Broker (List μ)) CommandResult) : Phase × Broker (List μ) :=
  match r with
  | .ok r b => (.answered r, b)
  | .error e b => (.raised e, b)

/-- The second interaction. -/
def Purger.act (p : Purger μ Secret) (depth : Option Val) (b : Broker (List μ)) : Phase × Broker (List μ) :=
  ended (purge_phase p.env p.queue_name depth p.force b)

def World.holding (w : World μ) (messages : List μ) : World μ :=
  { w with broker := { w.broker with state := messages } }

/-- One event: another client's, anywhere in the queue, or the action's next
interaction. -/
inductive Step (p : Purger μ Secret) : World μ → Event → World μ → Prop
  | publish {w : World μ} (m : μ) {front back : List μ} (h : w.broker.state = front ++ back) :
      Step p w .publish (w.holding (front ++ m :: back))
  | take {w : World μ} {m : μ} {front back : List μ} (h : w.broker.state = front ++ m :: back) :
      Step p w .take (w.holding (front ++ back))
  | probe {w : World μ} (h : w.phase = .start) :
      Step p w .probe { w with broker := (p.ask w.broker).2, phase := (p.ask w.broker).1 }
  | purge {w : World μ} {depth : Option Val} (h : w.phase = .passed depth) :
      Step p w .purge
        { broker := (p.act depth w.broker).2
          phase := (p.act depth w.broker).1
          destroyed := w.broker.state.length - (p.act depth w.broker).2.state.length }

inductive Run (p : Purger μ Secret) : List Event → World μ → Prop
  | start (messages : List μ) : Run p [] ⟨⟨messages, []⟩, .start, 0⟩
  | step {events : List Event} {w w' : World μ} {e : Event} (hrun : Run p events w) (hstep : Step p w e w') :
      Run p (events ++ [e]) w'

/-- What a run from `w₀` comes to. -/
inductive Continues (p : Purger μ Secret) (w₀ : World μ) : List Event → World μ → Prop
  | here : Continues p w₀ [] w₀
  | step {events : List Event} {w w' : World μ} {e : Event} (hrun : Continues p w₀ events w)
      (hstep : Step p w e w') : Continues p w₀ (events ++ [e]) w'

/-- With nothing in between, the two interactions are the action. -/
theorem action_alone (p : Purger μ Secret) (b : Broker (List μ)) :
    ended (purge_queue_action (p.env_at b.state) p.queue_name p.confirm_token p.force b) =
      match p.ask b with
      | (.passed depth, b') => p.act depth b'
      | other => other := by
  obtain ⟨depth, b', hprobe, -, -⟩ := probe_ok (p.env_at b.state) p.queue_name b
  obtain ⟨k, hstart, hsome, hnone⟩ := action_after_probe hprobe p.confirm_token p.force
  rw [hstart, Purger.ask, hprobe]
  simp only
  cases guards (p.env_at b.state) p.queue_name p.confirm_token p.force depth with
  | error e =>
    rw [ofOutcome_error, bind_error (throw_apply _ _)]
    rfl
  | ok refused =>
    rw [ofOutcome_ok, bind_ok (pure_apply _ _)]
    cases refused with
    | some r =>
      rw [hsome]
      rfl
    | none =>
      rw [hnone]
      rfl

/-! ## The broker -/

/-- The depth that a connection tells is the number of messages. -/
structure Counting (p : Purger μ Secret) : Prop where
  declared : ∀ {messages conn channel queue_declare resp count n}, p.read messages = .ok conn →
    conn.default_channel = .ok channel → channel.queue_declare = .ok (some queue_declare) →
    queue_declare p.queue_name = .ok resp → resp = .ok count → count.int? = some n → n = (messages.length : Int)
  llen : ∀ {messages conn channel client llen v n}, p.read messages = .ok conn →
    conn.default_channel = .ok channel → channel.client = .ok (some client) → client.llen = .ok llen →
    llen p.queue_name = .ok v → int_of p.env.py v = .ok n → n = (messages.length : Int)

/-- A purge that returns has emptied the queue. -/
structure Emptying (p : Purger μ Secret) : Prop where
  purged : ∀ {purge release messages v left}, Reaches p.env purge release →
    purge p.queue_name messages = (.ok v, left) → left = []

theorem declared_counts {messages : List μ} {conn : Connection ReadChannel} {channel : ReadChannel}
    (hcount : Counting p) (hc : p.read messages = .ok conn) (hch : conn.default_channel = .ok channel) :
    Returns (fun depth => ∀ d, depth = some d → d.int? = some (messages.length : Int))
      (declared_depth channel p.queue_name : PyM (Broker (List μ)) (Option Val)) := by
  refine returns_bind_of (returns_ofOutcome _) fun queue_decl hdecl => ?_
  cases queue_decl with
  | none => exact returns_pure (by simp)
  | some queue_declare =>
    have hdeclare : channel.queue_declare = .ok (some queue_declare) :=
      foreign_eq_ok.1 ((getattr_or_cases hdecl).resolve_right (by simp))
    refine returns_bind fun _ => returns_bind_of (returns_ofOutcome _) fun resp hresp =>
      returns_bind_of (returns_ofOutcome _) fun msg_count hmsg => returns_pure fun d hd => ?_
    split at hd
    · rename_i hint
      cases hd
      obtain ⟨n, hn⟩ := Option.isSome_iff_exists.1 hint
      have hcounted : resp = .ok msg_count := by
        refine foreign_eq_ok.1 ((getattr_or_cases hmsg).resolve_right ?_)
        rintro rfl
        cases hn
      rw [hn, hcount.declared hc hch hdeclare (foreign_eq_ok.1 hresp) hcounted hn]
    · cases hd

theorem llen_counts {messages : List μ} {conn : Connection ReadChannel} {channel : ReadChannel}
    (hcount : Counting p) (hc : p.read messages = .ok conn) (hch : conn.default_channel = .ok channel) :
    Returns (fun depth => ∀ d, depth = some d → d.int? = some (messages.length : Int))
      (llen_depth p.env.py channel p.queue_name : PyM (Broker (List μ)) (Option Val)) := by
  refine returns_bind_of (returns_ofOutcome _) fun client hclient => ?_
  cases client with
  | none => exact returns_pure (by simp)
  | some client =>
    have hchannel : channel.client = .ok (some client) :=
      foreign_eq_ok.1 ((getattr_or_cases hclient).resolve_right (by simp))
    refine returns_bind fun has => ?_
    split
    · refine returns_bind_of (returns_ofOutcome _) fun llen hllen => returns_bind fun _ =>
        returns_bind_of (returns_ofOutcome _) fun v hv => returns_bind_of (returns_ofOutcome _) fun n hn =>
          returns_pure fun d hd => ?_
      cases hd
      rw [Val.int?, hcount.llen hc hch hchannel (foreign_eq_ok.1 hllen) (foreign_eq_ok.1 hv) hn]
    · exact returns_pure (by simp)

/-- A depth that is measured is the number of messages then. -/
theorem measure_counts (hcount : Counting p) (messages : List μ) :
    Returns (fun depth => ∀ d, depth = some d → d.int? = some (messages.length : Int))
      (measure_depth (p.env_at messages) p.queue_name) := by
  refine returns_tryExcept (returns_bind_of (returns_ofOutcome _) fun conn hconn =>
    returns_withExit (returns_bind_of (returns_ofOutcome _) fun channel hchannel => ?_)) fun _ => returns_pure (by simp)
  have hc : p.read messages = .ok conn := foreign_eq_ok.1 hconn
  have hch := foreign_eq_ok.1 hchannel
  refine returns_bind_of (declared_counts hcount hc hch) fun declared hd => ?_
  cases declared with
  | some d => exact returns_pure hd
  | none => exact llen_counts hcount hc hch

/-! ## The two interactions -/

/-- The token was checked against depth `n`, which the threshold allows. -/
def Verified (p : Purger μ Secret) (n : Nat) : Prop :=
  (n : Int) ≤ purge_threshold p.env ∧
    ∃ token depth secret legacy, p.confirm_token = some token ∧ depth.int? = some (n : Int) ∧
      resolve_agent_secret p.env = .ok secret ∧
      p.env.verify_purge_confirm_token token p.queue_name depth secret p.env.accept_legacy_from_env = .ok (true, legacy)

/-- What the first interaction can come to; it leaves the messages as they are. -/
inductive AskRun (p : Purger μ Secret) (b : Broker (List μ)) : Phase × Broker (List μ) → Prop
  | raised (e : Exn) (b' : Broker (List μ)) (hb : b'.state = b.state) : AskRun p b (.raised e, b')
  | refused (r : CommandResult) (b' : Broker (List μ)) (hb : b'.state = b.state) (hr : r.status = .failed) :
      AskRun p b (.answered r, b')
  | passed (depth : Option Val) (b' : Broker (List μ)) (hb : b'.state = b.state)
      (hp : Passed (p.env_at b.state) p.queue_name p.confirm_token p.force b) : AskRun p b (.passed depth, b')

theorem ask_cases (p : Purger μ Secret) (b : Broker (List μ)) : AskRun p b (p.ask b) := by
  obtain ⟨depth, b', hprobe, hb, htime⟩ := probe_ok (p.env_at b.state) p.queue_name b
  rw [Purger.ask, hprobe]
  simp only
  cases hg : guards (p.env_at b.state) p.queue_name p.confirm_token p.force depth with
  | error e => exact .raised e b' hb.1
  | ok refused =>
    cases refused with
    | some r => exact .refused r b' hb.1 (refusal_no_result (guards_some hg)).2
    | none => exact .passed depth b' hb.1 ((guards_none hprobe htime).1 hg)

/-- What passes unforced was verified for the messages that were there. -/
theorem passed_verified (hforce : p.force = false) (hcount : Counting p) {b : Broker (List μ)}
    (h : Passed (p.env_at b.state) p.queue_name p.confirm_token p.force b) : Verified p b.state.length := by
  rcases h with hforced | ⟨token, d, b', n, htoken, -, hm, hn, hle, secret, legacy, hs, hv⟩
  · rw [hforce] at hforced
    cases hforced
  · have hlength := measure_counts hcount b.state b _ b' hm d rfl
    obtain rfl := Option.some.inj (hn.symm.trans hlength)
    exact ⟨hle, token, d, secret, legacy, htoken, hn, hs, hv⟩

/-- A purge always answers; one that succeeds leaves nothing. -/
theorem act_answers (hempty : Emptying p) (depth : Option Val) (b : Broker (List μ)) :
    ∃ r b', p.act depth b = (.answered r, b') ∧ (r.status = .success → b'.state = []) := by
  obtain ⟨r, b', hphase, hrun⟩ := phase_cases p.env p.queue_name depth p.force b
  refine ⟨r, b', ?_, fun hr => ?_⟩
  · rw [Purger.act, hphase]
    rfl
  · cases hrun with
    | late _ ht hb => cases hr
    | unreached _ ht hfail => rw [hfail] at hr; cases hr
    | returned _ purge v state ht hreach hp hs => exact hempty.purged hreach hp
    | unsupported purge e state ht hreach hp he => cases hr
    | raised _ state ht hfail hn => rw [hfail] at hr; cases hr

/-! ## Runs -/

/-- What a run has come to. Once the guards are passed, the queue holds the
messages of the world that was probed and what clients changed since. -/
def Traced (p : Purger μ Secret) (events : List Event) (w : World μ) : Prop :=
  match w.phase with
  | .start | .raised _ => True
  | .passed _ => ∃ before between probed, events = before ++ .probe :: between ∧ between.all Event.isClient ∧
      Run p before probed ∧ Continues p probed (.probe :: between) w ∧ Verified p probed.broker.state.length ∧
      w.broker.state.length + between.count .take = probed.broker.state.length + between.count .publish
  | .answered r => r.status = .success → ∃ before between after probed,
      events = before ++ .probe :: (between ++ .purge :: after) ∧ between.all Event.isClient ∧
      Run p before probed ∧ Continues p probed (.probe :: (between ++ .purge :: after)) w ∧
      Verified p probed.broker.state.length ∧
      w.destroyed + between.count .take = probed.broker.state.length + between.count .publish

/-- A client's event that changes the length as the event says. -/
theorem traced_client {events : List Event} {w : World μ} (h : Traced p events w) {e : Event}
    (he : e.isClient = true) {messages : List μ} (hstep : Step p w e (w.holding messages))
    (hlen : messages.length + [e].count .take = w.broker.state.length + [e].count .publish) :
    Traced p (events ++ [e]) (w.holding messages) := by
  obtain ⟨broker, phase, destroyed⟩ := w
  cases phase with
  | start => trivial
  | raised e => trivial
  | passed depth =>
    obtain ⟨before, between, probed, hevents, hclients, hbefore, hsince, hverified, hsum⟩ := h
    refine ⟨before, between ++ [e], probed, by rw [hevents]; simp, by simp [hclients, he], hbefore,
      hsince.step hstep, hverified, ?_⟩
    simp only [World.holding, List.count_append] at hlen hsum ⊢
    omega
  | answered r =>
    intro hr
    obtain ⟨before, between, after, probed, hevents, hclients, hbefore, hsince, hverified, hsum⟩ := h hr
    exact ⟨before, between, after ++ [e], probed, by rw [hevents]; simp, hclients, hbefore,
      by simpa using hsince.step hstep, hverified, hsum⟩

theorem traced_step (hforce : p.force = false) (hcount : Counting p) (hempty : Emptying p) {events : List Event}
    {w w' : World μ} {e : Event} (hrun : Run p events w) (hstep : Step p w e w') (h : Traced p events w) :
    Traced p (events ++ [e]) w' := by
  have hlast := hstep
  cases hstep with
  | publish m hw =>
    refine traced_client h rfl hlast ?_
    rw [hw]
    simp
    omega
  | take hw =>
    refine traced_client h rfl hlast ?_
    rw [hw]
    simp
    omega
  | probe hw =>
    have hask := ask_cases p w.broker
    unfold Traced
    generalize p.ask w.broker = asked at hask hlast ⊢
    cases hask with
    | raised e b' hb => trivial
    | refused r b' hb hfail =>
      intro hr
      rw [hfail] at hr
      cases hr
    | passed depth b' hb hp =>
      refine ⟨events, [], w, rfl, rfl, hrun, .step .here hlast, passed_verified hforce hcount hp, ?_⟩
      rw [hb]
      rfl
  | purge hw =>
    rename_i depth
    obtain ⟨r, b', hact, hleft⟩ := act_answers hempty depth w.broker
    unfold Traced at h ⊢
    rw [hw] at h
    rw [hact] at hlast ⊢
    obtain ⟨before, between, probed, hevents, hclients, hbefore, hsince, hverified, hsum⟩ := h
    intro hr
    refine ⟨before, between, [], probed, by rw [hevents]; simp, hclients, hbefore, hsince.step hlast, hverified, ?_⟩
    rw [hleft hr]
    exact hsum

theorem traced_run (hforce : p.force = false) (hcount : Counting p) (hempty : Emptying p) {events : List Event}
    {w : World μ} (hrun : Run p events w) : Traced p events w := by
  induction hrun with
  | start messages => trivial
  | step hrun hstep ih => exact traced_step hforce hcount hempty hrun hstep ih

/-- An unforced purge that succeeds destroys as many messages as the queue held
at the probe, for which its token was verified, and what was published less what
was taken between its two interactions. -/
theorem purge_destroys (hforce : p.force = false) (hcount : Counting p) (hempty : Emptying p) {events : List Event}
    {w : World μ} (hrun : Run p events w) {r : CommandResult} (hanswer : w.phase = .answered r)
    (hsuccess : r.status = .success) :
    ∃ before between after probed, events = before ++ .probe :: (between ++ .purge :: after) ∧
      between.all Event.isClient ∧ Run p before probed ∧
      Continues p probed (.probe :: (between ++ .purge :: after)) w ∧ Verified p probed.broker.state.length ∧
      w.destroyed + between.count .take = probed.broker.state.length + between.count .publish := by
  have h := traced_run hforce hcount hempty hrun
  rw [Traced, hanswer] at h
  exact h hsuccess

/-! ## A run with a message in between -/

/-- A broker that counts and empties a list, a threshold of one message, and a
token for one message. -/
def keeper : Purger Nat Unit where
  env :=
    { py := .plain
      environ := fun name => if name = "Z4J_PURGE_THRESHOLD" then some "1" else none
      decode_agent_hmac_secret := fun _ => .ok ()
      verify_purge_confirm_token := fun token queue depth _ _ =>
        .ok (decide (token = "celery:1" ∧ queue = "celery" ∧ depth = .int 1), false)
      accept_legacy_from_env := false
      connection_for_read := .error ⟨⟨.OSError, "ConnectionError", ""⟩, by simp⟩
      connection_for_write := .ok ⟨.ok ⟨.ok fun _ messages => (.ok (.int messages.length), [])⟩, .ok ()⟩
      probe_timing := .inTime
      purge_timing := .inTime }
  read messages := .ok ⟨.ok ⟨.ok (some fun _ => .ok (.ok (.int messages.length))), .ok none⟩, .ok ()⟩
  queue_name := "celery"
  confirm_token := some "celery:1"
  force := false

theorem keeper_counting : Counting keeper where
  declared := by
    intro messages conn channel queue_declare resp count n hc hch hd hresp hcount hn
    cases hc
    cases hch
    cases hd
    cases hresp
    cases hcount
    exact (Option.some.inj hn).symm
  llen := by
    intro messages conn channel client llen v n hc hch hcl
    cases hc
    cases hch
    cases hcl

theorem keeper_emptying : Emptying keeper where
  purged := by
    rintro purge release messages v left ⟨conn, channel, hc, hch, hp, -⟩ hcall
    cases hc
    cases hch
    cases hp
    cases hcall
    rfl

/-- What a purge of `messages` leaves and answers, measured at depth one. -/
def keeper_purged (messages : List Nat) : World Nat :=
  ⟨⟨[], [.queue_declare "celery", .queue_purge "celery"]⟩,
    .answered (purge_success "celery" (some (.int 1)) (.int messages.length) false), messages.length⟩

/-- One message is confirmed, another is published, and both are destroyed. -/
theorem keeper_run : Run keeper [.probe, .publish, .purge] (keeper_purged [7, 8]) := by
  have hprobe : Step keeper ⟨⟨[7], []⟩, .start, 0⟩ .probe
      ⟨⟨[7], [.queue_declare "celery"]⟩, .passed (some (.int 1)), 0⟩ := .probe rfl
  have hpublish : Step keeper ⟨⟨[7], [.queue_declare "celery"]⟩, .passed (some (.int 1)), 0⟩ .publish
      ⟨⟨[7, 8], [.queue_declare "celery"]⟩, .passed (some (.int 1)), 0⟩ :=
    @Step.publish Nat Unit keeper ⟨⟨[7], [.queue_declare "celery"]⟩, .passed (some (.int 1)), 0⟩ 8 [7] [] rfl
  have hpurge : Step keeper ⟨⟨[7, 8], [.queue_declare "celery"]⟩, .passed (some (.int 1)), 0⟩ .purge
      (keeper_purged [7, 8]) := .purge rfl
  exact .step (.step (.step (.start [7]) hprobe) hpublish) hpurge

theorem purge_destroys_both :
    ∃ before between after probed,
      [Event.probe, .publish, .purge] = before ++ .probe :: (between ++ .purge :: after) ∧
      between.all Event.isClient ∧ Run keeper before probed ∧
      Continues keeper probed (.probe :: (between ++ .purge :: after)) (keeper_purged [7, 8]) ∧
      Verified keeper probed.broker.state.length ∧
      (keeper_purged [7, 8]).destroyed + between.count .take =
        probed.broker.state.length + between.count .publish :=
  purge_destroys rfl keeper_counting keeper_emptying keeper_run rfl rfl

theorem purge_destroys_unconfirmed :
    ¬ ∀ (p : Purger Nat Unit) (events : List Event) (w : World Nat) (r : CommandResult) (depth : Int),
      p.force = false → Counting p → Emptying p → Run p events w → w.phase = .answered r → r.status = .success →
      r.field "depth_before" = .int depth →
      (w.destroyed : Int) ≤ depth ∧ (w.destroyed : Int) ≤ purge_threshold p.env := by
  intro h
  have hbound := h keeper _ _ _ 1 rfl keeper_counting keeper_emptying keeper_run rfl rfl rfl
  exact absurd hbound.1 (by decide)

end Z4jCelery.Actions.Purge
