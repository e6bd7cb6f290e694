import Z4jCelery.Actions.Purge
/-!
# The purge guard

The probe only reads (`measure_depth_probes`); `do_purge_cases` and
`refusal_cases` say what the purge and the guards can do, and `purge_cases`
puts them together.
-/

namespace Z4jCelery.Actions.Purge

open Py Z4jCelery.Core Offload

variable {β Secret : Type}

/-! ## The probe -/

def Op.isProbe : Op → Bool
  | .queue_declare _ | .llen _ => true
  | .queue_purge _ | .queue_delete _ => false

/-- The broker's state stays, and only probes are added to the calls. -/
def probing : Frame (Broker β) where
  rel b b' := b'.state = b.state ∧ ∃ l : List Op, b'.ops = b.ops ++ l ∧ ∀ op ∈ l, op.isProbe = true
  refl b := ⟨rfl, [], by simp, by simp⟩
  trans := by
    rintro b c d ⟨h1, l, h2, h3⟩ ⟨h4, l', h5, h6⟩
    refine ⟨h4.trans h1, l ++ l', by rw [h5, h2, List.append_assoc], fun op hop => ?_⟩
    rcases List.mem_append.1 hop with hop | hop
    · exact h3 op hop
    · exact h6 op hop

theorem keeps_call {op : Op} (h : op.isProbe = true) : Keeps (probing (β := β)) (call op) :=
  keeps_modify fun b => ⟨rfl, [op], rfl, by simpa using h⟩

theorem keeps_with_channel {χ α : Type} {F : Frame (Broker β)} (connection : Except Foreign (Connection χ))
    {body : χ → PyM (Broker β) α} (h : ∀ channel, Keeps F (body channel)) :
    Keeps F (with_channel connection body) :=
  keeps_bind (keeps_ofOutcome _) fun _ =>
    keeps_withExit (keeps_bind (keeps_ofOutcome _) h) (keeps_ofOutcome _)

theorem declared_depth_probes (channel : ReadChannel) (queue_name : String) :
    Keeps (probing (β := β)) (declared_depth channel queue_name) := by
  refine keeps_bind (keeps_ofOutcome _) fun queue_decl => ?_
  cases queue_decl with
  | none => exact keeps_pure _
  | some queue_decl =>
    exact keeps_bind (keeps_call rfl) fun _ => keeps_bind (keeps_ofOutcome _) fun _ =>
      keeps_bind (keeps_ofOutcome _) fun _ => keeps_pure _

theorem llen_depth_probes (py : Interp) (channel : ReadChannel) (queue_name : String) :
    Keeps (probing (β := β)) (llen_depth py channel queue_name) := by
  refine keeps_bind (keeps_ofOutcome _) fun client => ?_
  cases client with
  | none => exact keeps_pure _
  | some client =>
    refine keeps_bind (keeps_ofOutcome _) fun has => ?_
    split
    · exact keeps_bind (keeps_ofOutcome _) fun _ => keeps_bind (keeps_call rfl) fun _ =>
        keeps_bind (keeps_ofOutcome _) fun _ => keeps_bind (keeps_ofOutcome _) fun _ => keeps_pure _
    · exact keeps_pure _

theorem measure_depth_probes (env : Env β Secret) (queue_name : String) :
    Keeps probing (measure_depth env queue_name) := by
  refine keeps_tryExcept (keeps_with_channel _ fun channel => ?_) fun _ => keeps_pure _
  refine keeps_bind (declared_depth_probes channel queue_name) fun d => ?_
  cases d with
  | none => exact llen_depth_probes env.py channel queue_name
  | some d => exact keeps_pure _

theorem declared_int (channel : ReadChannel) (queue_name : String) :
    Returns (fun depth => ∀ d, depth = some d → d.int?.isSome)
      (declared_depth channel queue_name : PyM (Broker β) (Option Val)) := by
  refine returns_bind fun queue_decl => ?_
  cases queue_decl with
  | none => exact returns_pure (by simp)
  | some queue_decl =>
    refine returns_bind fun _ => returns_bind fun _ => returns_bind fun msg_count => returns_pure fun d hd => ?_
    split at hd
    · rename_i h
      cases hd
      exact h
    · cases hd

theorem llen_int (py : Interp) (channel : ReadChannel) (queue_name : String) :
    Returns (fun depth => ∀ d, depth = some d → d.int?.isSome)
      (llen_depth py channel queue_name : PyM (Broker β) (Option Val)) := by
  refine returns_bind fun client => ?_
  cases client with
  | none => exact returns_pure (by simp)
  | some client =>
    refine returns_bind fun has => ?_
    split
    · refine returns_bind fun _ => returns_bind fun _ => returns_bind fun _ => returns_bind fun n => returns_pure ?_
      intro d hd
      cases hd
      rfl
    · exact returns_pure (by simp)

/-- The probe as the action runs it. -/
def probe (env : Env β Secret) (queue_name : String) : PyM (Broker β) (Option Val) :=
  tryExcept (offload env.probe_timing (measure_depth env queue_name)) fun _ => pure none

theorem probe_probes (env : Env β Secret) (queue_name : String) : Keeps probing (probe env queue_name) :=
  keeps_tryExcept (keeps_offload _ (measure_depth_probes env queue_name)) fun _ => keeps_pure _

/-- The probe never raises; a depth it returns was measured in time. -/
theorem probe_ok (env : Env β Secret) (queue_name : String) (b : Broker β) :
    ∃ depth b', probe env queue_name b = .ok depth b' ∧ probing.rel b b' ∧
      (∀ d, depth = some d → env.probe_timing = .inTime ∧ measure_depth env queue_name b = .ok (some d) b') := by
  have hk := probe_probes env queue_name b
  rw [probe, tryExcept] at hk ⊢
  cases hr : offload env.probe_timing (measure_depth env queue_name) b with
  | error e b' =>
    rw [hr] at hk
    exact ⟨none, b', rfl, hk, by simp⟩
  | ok depth b' =>
    rw [hr] at hk
    refine ⟨depth, b', rfl, hk, fun d hd => ?_⟩
    subst hd
    exact offload_eq_ok_iff.1 hr

theorem measure_depth_int (env : Env β Secret) (queue_name : String) :
    Returns (fun depth => ∀ d, depth = some d → d.int?.isSome) (measure_depth env queue_name) := by
  refine returns_tryExcept (returns_bind fun _ => returns_withExit (returns_bind fun channel => ?_))
    fun _ => returns_pure (by simp)
  refine returns_bind_of (declared_int channel queue_name) fun declared hd => ?_
  cases declared with
  | some d => exact returns_pure hd
  | none => exact llen_int env.py channel queue_name

/-! ## The guards -/

/-- What an unforced purge needs: a token, a depth measured in time that is at
most the threshold, and a check that accepts the token for this queue and this
depth. -/
def Confirmed (env : Env β Secret) (queue_name : String) (confirm_token : Option String) (b : Broker β) : Prop :=
  ∃ token d b' n, confirm_token = some token ∧ env.probe_timing = .inTime ∧
    measure_depth env queue_name b = .ok (some d) b' ∧ d.int? = some n ∧ n ≤ purge_threshold env ∧
    ∃ secret legacy, resolve_agent_secret env = .ok secret ∧
      env.verify_purge_confirm_token token queue_name d secret env.accept_legacy_from_env = .ok (true, legacy)

/-- The answers that refuse to purge. -/
inductive Refusal : CommandResult → Prop
  | missingToken : Refusal missingToken
  | unknownDepth : Refusal unknownDepth
  | tooDeep (depth threshold : Int) : Refusal (tooDeep depth threshold)
  | tokenMismatch : Refusal tokenMismatch
  | unsupported : Refusal unsupported

theorem purge_threshold_pos (env : Env β Secret) : 1 ≤ purge_threshold env := by
  rw [purge_threshold]
  split
  · decide
  · split
    · exact Int.le_max_left 1 _
    · decide

theorem refusal_some {env : Env β Secret} {queue_name : String} {confirm_token : Option String} {depth : Option Val}
    {r : CommandResult} (h : refusal env queue_name confirm_token depth = .ok (some r)) : Refusal r := by
  cases confirm_token with
  | none => cases h; exact .missingToken
  | some token =>
    cases depth with
    | none => cases h; exact .unknownDepth
    | some d =>
      simp only [refusal] at h
      split at h
      · cases h; exact .tooDeep _ _
      · obtain ⟨secret, -, h⟩ := except_bind_eq_ok.1 h
        obtain ⟨⟨accepted, legacy⟩, -, h⟩ := except_bind_eq_ok.1 h
        cases accepted with
        | true => cases h
        | false => cases h; exact .tokenMismatch

theorem refusal_none {env : Env β Secret} {queue_name : String} {confirm_token : Option String} {depth : Option Val} :
    refusal env queue_name confirm_token depth = .ok none ↔
      ∃ token d, confirm_token = some token ∧ depth = some d ∧ d.int?.getD 0 ≤ purge_threshold env ∧
        ∃ secret legacy, resolve_agent_secret env = .ok secret ∧
          env.verify_purge_confirm_token token queue_name d secret env.accept_legacy_from_env = .ok (true, legacy) := by
  cases confirm_token with
  | none => simp [refusal]
  | some token =>
    cases depth with
    | none => simp [refusal]
    | some d =>
      rw [refusal]
      simp only
      split
      · rename_i hd
        refine iff_of_false (by simp) ?_
        rintro ⟨_, d', -, hd', hle, -⟩
        cases hd'
        omega
      · rename_i hd
        constructor
        · intro h
          obtain ⟨secret, hs, h⟩ := except_bind_eq_ok.1 h
          obtain ⟨⟨accepted, legacy⟩, hv, h⟩ := except_bind_eq_ok.1 h
          cases accepted with
          | false => cases h
          | true => exact ⟨token, d, rfl, rfl, by omega, secret, legacy, hs, foreign_eq_ok.1 hv⟩
        · rintro ⟨_, _, ht, hd', -, secret, legacy, hs, hv⟩
          cases ht
          cases hd'
          exact except_bind_eq_ok.2 ⟨secret, hs, except_bind_eq_ok.2 ⟨(true, legacy), foreign_eq_ok.2 hv, rfl⟩⟩

/-! ## The purge -/

/-- The connection is made and its channel has `queue_purge`. -/
def Reaches (env : Env β Secret) (purge : String → β → Except Foreign Val × β) (release : Except Foreign Unit) : Prop :=
  ∃ conn channel, env.connection_for_write = .ok conn ∧ conn.default_channel = .ok channel ∧
    channel.queue_purge = .ok purge ∧ conn.release = release

/-- The broker after the call. -/
def Broker.purged (b : Broker β) (queue_name : String) (state : β) : Broker β :=
  ⟨state, b.ops ++ [.queue_purge queue_name]⟩

/-- What `do_purge` can do: nothing; or one call, with what follows from its
outcome. -/
inductive PurgeRun (env : Env β Secret) (queue_name : String) (b : Broker β) : EStateM.Result Exn (Broker β) Val → Prop
  | unreached (e : Exn) : PurgeRun env queue_name b (.error e b)
  | returned (purge) (v state n) (hr : Reaches env purge (.ok ())) (hp : purge queue_name b.state = (.ok v, state)) :
      PurgeRun env queue_name b (.ok n (b.purged queue_name state))
  | unsupported (purge e state) (hr : Reaches env purge (.ok ())) (hp : purge queue_name b.state = (.error e, state))
      (he : e.val.isa .AttributeError = true) :
      PurgeRun env queue_name b (.error purgeUnsupported (b.purged queue_name state))
  | raised (e : Foreign) (state) : PurgeRun env queue_name b (.error e.val (b.purged queue_name state))

theorem queue_purge_apply {channel : WriteChannel β} {purge : String → β → Except Foreign Val × β}
    (h : channel.queue_purge = .ok purge) (queue_name : String) (b : Broker β) :
    queue_purge channel queue_name b = match purge queue_name b.state with
      | (.ok v, state) => .ok v (b.purged queue_name state)
      | (.error e, state) => .error e.val (b.purged queue_name state) := by
  rw [queue_purge, h, bind_ok (show ofOutcome (foreign (.ok purge)) b = .ok purge b from rfl),
    bind_ok (show call (.queue_purge queue_name) b = .ok () ⟨b.state, b.ops ++ [.queue_purge queue_name]⟩ from rfl),
    bind_ok (get_apply _)]
  rcases purge queue_name b.state with ⟨returned | returned, state⟩ <;> rfl

theorem with_channel_ok {χ α : Type} {connection : Except Foreign (Connection χ)} {conn : Connection χ} {channel : χ}
    (hc : connection = .ok conn) (hch : conn.default_channel = .ok channel) (body : χ → PyM (Broker β) α)
    (b : Broker β) :
    with_channel connection body b = withExit (body channel) (ofOutcome (foreign conn.release)) b := by
  rw [hc]
  show withExit (do
    let channel ← ofOutcome (foreign conn.default_channel)
    body channel) (ofOutcome (foreign conn.release)) b = _
  rw [hch]
  rfl

theorem with_channel_cases {χ α : Type} (connection : Except Foreign (Connection χ)) (body : χ → PyM (Broker β) α)
    (b : Broker β) :
    (∃ e, with_channel connection body b = .error e b) ∨
      ∃ conn channel, connection = .ok conn ∧ conn.default_channel = .ok channel ∧
        with_channel connection body b = withExit (body channel) (ofOutcome (foreign conn.release)) b := by
  cases hc : connection with
  | error e => exact .inl ⟨e.val, rfl⟩
  | ok conn =>
    cases hch : conn.default_channel with
    | ok channel => exact .inr ⟨conn, channel, rfl, hch, with_channel_ok rfl hch body b⟩
    | error e =>
      left
      show ∃ e', withExit (do
        let channel ← ofOutcome (foreign conn.default_channel)
        body channel) (ofOutcome (foreign conn.release)) b = .error e' b
      rw [hch]
      cases conn.release with
      | ok u => exact ⟨e.val, rfl⟩
      | error e' => exact ⟨e'.val, rfl⟩

/-- A channel without `queue_purge` raises and does nothing. -/
theorem purge_channel_missing {channel : WriteChannel β} {e : Foreign} (h : channel.queue_purge = .error e)
    (queue_name : String) (b : Broker β) : ∃ e', purge_channel queue_name channel b = .error e' b := by
  have hq : queue_purge channel queue_name b = .error e.val b := by rw [queue_purge, h]; rfl
  exact ⟨_, by rw [purge_channel, tryExcept_error hq]; rfl⟩

theorem purge_channel_apply {channel : WriteChannel β} {purge : String → β → Except Foreign Val × β}
    (h : channel.queue_purge = .ok purge) (queue_name : String) (b : Broker β) :
    purge_channel queue_name channel b = match purge queue_name b.state with
      | (.ok v, state) => .ok v (b.purged queue_name state)
      | (.error e, state) =>
        .error (if e.val.isa .AttributeError then purgeUnsupported else e.val) (b.purged queue_name state) := by
  have hq := queue_purge_apply h queue_name b
  rcases hp : purge queue_name b.state with ⟨v | e, state⟩ <;> rw [hp] at hq
  · rw [purge_channel, tryExcept_error hq]; rfl
  · rw [purge_channel, tryExcept_ok hq]

theorem do_purge_cases (env : Env β Secret) (queue_name : String) (b : Broker β) :
    PurgeRun env queue_name b (do_purge env queue_name b) := by
  rw [do_purge]
  rcases with_channel_cases env.connection_for_write (purge_channel queue_name) b with
    ⟨e, he⟩ | ⟨conn, channel, hc, hch, hw⟩
  · rw [bind_error he]
    exact .unreached e
  cases hq : channel.queue_purge with
  | error e =>
    obtain ⟨e', he'⟩ := purge_channel_missing hq queue_name b
    cases hrel : conn.release with
    | ok u =>
      rw [hrel, show foreign (.ok u) = .ok () from rfl, withExit_ok, he'] at hw
      rw [bind_error hw]
      exact .unreached e'
    | error e'' =>
      rw [hrel, show foreign (.error e'' : Except Foreign Unit) = .error e''.val from rfl, withExit_error, he'] at hw
      rw [bind_error hw]
      exact .unreached e''.val
  | ok purge =>
    have happly := purge_channel_apply hq queue_name b
    cases hrel : conn.release with
    | ok u =>
      have hreach : Reaches env purge (.ok ()) := ⟨conn, channel, hc, hch, hq, hrel⟩
      rw [hrel, show foreign (.ok u) = .ok () from rfl, withExit_ok, happly] at hw
      rcases hp : purge queue_name b.state with ⟨e | v, state⟩ <;> rw [hp] at hw
      · rw [bind_error hw]
        split
        · rename_i he
          exact .unsupported purge e state hreach hp he
        · exact .raised e state
      · rw [bind_ok hw]
        exact .returned purge v state _ hreach hp
    | error e' =>
      -- leaving the block raises in place of whatever the call did
      have hfinal : final (purge_channel queue_name channel b) = b.purged queue_name (purge queue_name b.state).2 := by
        rw [happly]
        rcases purge queue_name b.state with ⟨_ | _, state⟩ <;> rfl
      rw [hrel, show foreign (.error e' : Except Foreign Unit) = .error e'.val from rfl, withExit_error, hfinal] at hw
      rw [bind_error hw]
      exact .raised e' _

/-! ## The action -/

/-- The answer to a purge that outlives its timeout. -/
def timedOut : CommandResult :=
  indeterminate_timeout_result "purge_queue" PURGE_TIMEOUT "the queue may still be purged"

theorem purge_failure_status (exc : Exn) : (purge_failure exc).status = .failed := by
  rw [purge_failure]
  split
  · rfl
  · split <;> rfl

/-- The purge once the guards are passed, as the action runs it. -/
def purge_phase (env : Env β Secret) (queue_name : String) (depth : Option Val) (force : Bool) :
    PyM (Broker β) CommandResult :=
  tryExcept (do
      let purged ← offload env.purge_timing (do_purge env queue_name)
      return purge_success queue_name depth purged force)
    fun exc => return purge_failure exc

/-- How a purge ends, and the broker it leaves. -/
inductive PhaseRun (env : Env β Secret) (queue_name : String) (b : Broker β) : CommandResult → Broker β → Prop
  | late (b') (ht : env.purge_timing ≠ .inTime) (hb : b' = b ∨ ∃ state, b' = b.purged queue_name state) :
      PhaseRun env queue_name b timedOut b'
  | unreached (r) (ht : env.purge_timing = .inTime) (hr : r.status = .failed) : PhaseRun env queue_name b r b
  | returned (r purge v state) (ht : env.purge_timing = .inTime) (hreach : Reaches env purge (.ok ()))
      (hp : purge queue_name b.state = (.ok v, state)) (hr : r.status = .success) :
      PhaseRun env queue_name b r (b.purged queue_name state)
  | unsupported (purge e state) (ht : env.purge_timing = .inTime) (hreach : Reaches env purge (.ok ()))
      (hp : purge queue_name b.state = (.error e, state)) (he : e.val.isa .AttributeError = true) :
      PhaseRun env queue_name b unsupported (b.purged queue_name state)
  | raised (r state) (ht : env.purge_timing = .inTime) (hr : r.status = .failed) (hn : ¬ Refusal r) :
      PhaseRun env queue_name b r (b.purged queue_name state)

theorem refusal_no_result {r : CommandResult} (h : Refusal r) : r.result = none ∧ r.status = .failed := by
  cases h <;> exact ⟨rfl, rfl⟩

theorem refusal_text {r : CommandResult} (h : Refusal r) :
    ∃ text, r.error = some text ∧ startswith text "purge_queue:" = true := by
  cases h with
  | missingToken => exact ⟨_, rfl, startswith_append (startswith_ofList _ _) _⟩
  | unknownDepth => exact ⟨_, rfl, startswith_append (startswith_ofList _ _) _⟩
  | tooDeep depth threshold =>
    refine ⟨_, rfl, ?_⟩
    simp only [String.append_assoc]
    exact startswith_append (startswith_ofList _ _) _
  | tokenMismatch => exact ⟨_, rfl, startswith_append (startswith_ofList _ _) _⟩
  | unsupported => exact ⟨_, rfl, startswith_append (startswith_ofList _ _) _⟩

theorem failed_not_refusal (name : String) : ¬ Refusal (.fail ("purge_queue failed: " ++ name)) := by
  intro h
  obtain ⟨text, htext, hp⟩ := refusal_text h
  obtain rfl := Option.some.inj htext
  obtain ⟨rest, hrest⟩ := (startswith_iff _ _).1 hp
  -- the texts differ in their twelfth character
  have h11 := congrArg (fun l : List Char => l[11]?) hrest
  simp only [String.toList_append] at h11
  rw [List.getElem?_append_left (by decide), List.getElem?_append_left (by decide)] at h11
  exact absurd h11 (by decide)

/-- What `queue_purge` raises is answered as no refusal, whatever a wait hears of
it. -/
theorem heard_not_refusal (e : Foreign) : ¬ Refusal (purge_failure (heard e.val)) := by
  have hother : (heard e.val).isa purgeUnsupported.cls = false := heard_user e "_PurgeUnsupported" (by decide)
  rw [purge_failure, hother, if_neg Bool.false_ne_true]
  split
  · exact fun h => absurd (refusal_no_result h).1 (by decide)
  · exact failed_not_refusal _

theorem phase_cases (env : Env β Secret) (queue_name : String) (depth : Option Val) (force : Bool) (b : Broker β) :
    ∃ r b', purge_phase env queue_name depth force b = .ok r b' ∧ PhaseRun env queue_name b r b' := by
  have hrun := do_purge_cases env queue_name b
  rw [purge_phase]
  cases ht : env.purge_timing with
  | outlives runs =>
    have hoff := offload_outlives runs (do_purge env queue_name) b
    rw [tryExcept_error (bind_error hoff)]
    refine ⟨timedOut, _, rfl, .late _ (by simp [ht]) ?_⟩
    cases runs with
    | false => exact .inl rfl
    | true =>
      rw [if_pos rfl]
      generalize do_purge env queue_name b = out at hrun
      cases hrun with
      | unreached e => exact .inl rfl
      | returned purge v state n hr hp => exact .inr ⟨state, rfl⟩
      | unsupported purge e state hr hp he => exact .inr ⟨state, rfl⟩
      | raised e state => exact .inr ⟨state, rfl⟩
  | inTime =>
    generalize hout : do_purge env queue_name b = out at hrun
    cases hrun with
    | unreached e =>
      rw [tryExcept_error (bind_error (offload_error hout))]
      exact ⟨_, _, rfl, .unreached _ ht (purge_failure_status _)⟩
    | returned purge v state n hr hp =>
      have hok := (bind_ok (k := fun purged => pure (purge_success queue_name depth purged force))
        (offload_ok hout)).trans (pure_apply _ _)
      rw [tryExcept_ok hok]
      exact ⟨_, _, rfl, .returned _ purge v state ht hr hp rfl⟩
    | unsupported purge e state hr hp he =>
      rw [tryExcept_error (bind_error (offload_error hout))]
      exact ⟨_, _, rfl, .unsupported purge e state ht hr hp he⟩
    | raised e state =>
      rw [tryExcept_error (bind_error (offload_error hout))]
      exact ⟨_, _, rfl, .raised _ state ht (purge_failure_status _) (heard_not_refusal e)⟩

/-- A purge passes its guards when it is forced or confirmed. -/
def Passed (env : Env β Secret) (queue_name : String) (confirm_token : Option String) (force : Bool) (b : Broker β) :
    Prop :=
  force = true ∨ Confirmed env queue_name confirm_token b

/-- What the action can do: raise or refuse without the guards passed, or go on
to the purge with them passed. -/
inductive ActionRun (env : Env β Secret) (queue_name : String) (confirm_token : Option String) (force : Bool)
    (b : Broker β) : EStateM.Result Exn (Broker β) CommandResult → Prop
  | raised (e b') (hn : ¬ Passed env queue_name confirm_token force b) (hb : probing.rel b b') :
      ActionRun env queue_name confirm_token force b (.error e b')
  | refused (r b') (hn : ¬ Passed env queue_name confirm_token force b) (hb : probing.rel b b') (hr : Refusal r) :
      ActionRun env queue_name confirm_token force b (.ok r b')
  | passed (b' r b'') (hp : Passed env queue_name confirm_token force b) (hb : probing.rel b b')
      (hr : PhaseRun env queue_name b' r b'') : ActionRun env queue_name confirm_token force b (.ok r b'')

theorem guards_none {env : Env β Secret} {queue_name : String} {confirm_token : Option String} {force : Bool}
    {b b' : Broker β} {depth : Option Val} (hprobe : probe env queue_name b = .ok depth b')
    (htime : ∀ d, depth = some d → env.probe_timing = .inTime ∧ measure_depth env queue_name b = .ok (some d) b') :
    guards env queue_name confirm_token force depth = .ok none ↔ Passed env queue_name confirm_token force b := by
  rw [guards, Passed]
  cases force with
  | true => simp
  | false =>
    rw [if_neg Bool.false_ne_true, refusal_none]
    constructor
    · rintro ⟨token, d, htoken, hd, hle, secret, legacy, hs, hv⟩
      obtain ⟨ht, hm⟩ := htime d hd
      obtain ⟨n, hn⟩ := Option.isSome_iff_exists.1 (measure_depth_int env queue_name b _ b' hm d rfl)
      rw [hn, Option.getD_some] at hle
      exact .inr ⟨token, d, b', n, htoken, ht, hm, hn, hle, secret, legacy, hs, hv⟩
    · rintro (h | ⟨token, d, b'', n, htoken, ht, hm, hn, hle, hcheck⟩)
      · cases h
      · have hd : depth = some d := by
          rw [probe, ht, tryExcept_ok (offload_ok hm)] at hprobe
          cases hprobe
          rfl
        exact ⟨token, d, htoken, hd, by rwa [hn, Option.getD_some], hcheck⟩

theorem guards_some {env : Env β Secret} {queue_name : String} {confirm_token : Option String} {force : Bool}
    {depth : Option Val} {r : CommandResult} (h : guards env queue_name confirm_token force depth = .ok (some r)) :
    Refusal r := by
  rw [guards] at h
  split at h
  · cases h
  · exact refusal_some h

/-- After the probe the action asks the guards: `k` is what it does with their
answer. -/
theorem action_after_probe {env : Env β Secret} {queue_name : String} {b b' : Broker β} {depth : Option Val}
    (hprobe : probe env queue_name b = .ok depth b') (confirm_token : Option String) (force : Bool) :
    ∃ k : Option CommandResult → PyM (Broker β) CommandResult,
      purge_queue_action env queue_name confirm_token force b =
        (ofOutcome (guards env queue_name confirm_token force depth) >>= k) b' ∧
      (∀ r, k (some r) = pure r) ∧ k none = purge_phase env queue_name depth force :=
  ⟨_, bind_ok hprobe, fun _ => rfl, rfl⟩

/-- With the guards passed the action is the purge, without them it refuses or
raises. -/
theorem purge_queue_action_eq (env : Env β Secret) (queue_name : String) (confirm_token : Option String)
    (force : Bool) (b : Broker β) :
    ∃ depth b', probing.rel b b' ∧
      (Passed env queue_name confirm_token force b ∧
          purge_queue_action env queue_name confirm_token force b = purge_phase env queue_name depth force b' ∨
        ¬ Passed env queue_name confirm_token force b ∧
          ((∃ e, purge_queue_action env queue_name confirm_token force b = .error e b') ∨
            ∃ r, Refusal r ∧ purge_queue_action env queue_name confirm_token force b = .ok r b')) := by
  obtain ⟨depth, b', hprobe, hb, htime⟩ := probe_ok env queue_name b
  have hpass : guards env queue_name confirm_token force depth = .ok none ↔
      Passed env queue_name confirm_token force b := guards_none hprobe htime
  obtain ⟨k, hstart, hsome, hnone⟩ := action_after_probe hprobe confirm_token force
  refine ⟨depth, b', hb, ?_⟩
  rw [hstart]
  cases hg : guards env queue_name confirm_token force depth with
  | error e =>
    rw [ofOutcome_error, bind_error (throw_apply _ _)]
    exact .inr ⟨fun h => absurd (hg.symm.trans (hpass.2 h)) (by simp), .inl ⟨e, rfl⟩⟩
  | ok refused =>
    rw [ofOutcome_ok, bind_ok (pure_apply _ _)]
    cases refused with
    | some r =>
      rw [hsome]
      exact .inr ⟨fun h => absurd (hg.symm.trans (hpass.2 h)) (by simp), .inr ⟨r, guards_some hg, rfl⟩⟩
    | none =>
      rw [hnone]
      exact .inl ⟨hpass.1 hg, rfl⟩

theorem purge_cases (env : Env β Secret) (queue_name : String) (confirm_token : Option String) (force : Bool)
    (b : Broker β) :
    ActionRun env queue_name confirm_token force b (purge_queue_action env queue_name confirm_token force b) := by
  obtain ⟨depth, b', hb, ⟨hp, h⟩ | ⟨hn, ⟨e, h⟩ | ⟨r, hr, h⟩⟩⟩ :=
    purge_queue_action_eq env queue_name confirm_token force b
  · obtain ⟨r, b'', hphase, hrun⟩ := phase_cases env queue_name depth force b'
    rw [h, hphase]
    exact .passed b' r b'' hp hb hrun
  · rw [h]
    exact .raised e b' hn hb
  · rw [h]
    exact .refused r b' hn hb hr

/-! ## The guard -/

def Op.isPurge : Op → Bool
  | .queue_purge _ => true
  | .queue_declare _ | .llen _ | .queue_delete _ => false

/-- What the guard promises, of a run from a broker in `state`. -/
structure PurgeGuarded (env : Env β Secret) (queue_name : String) (confirm_token : Option String) (force : Bool)
    (state : β) (out : EStateM.Result Exn (Broker β) CommandResult) : Prop where
  once : (final out).ops.countP Op.isPurge ≤ 1
  never_deletes : ∀ queue, Op.queue_delete queue ∉ (final out).ops
  guarded : ∀ queue, Op.queue_purge queue ∈ (final out).ops →
    queue = queue_name ∧ Passed env queue_name confirm_token force ⟨state, []⟩
  threshold : 1 ≤ purge_threshold env
  refused : ∀ r, outcome out = .ok r → Refusal r → (final out).state = state
  late : Passed env queue_name confirm_token force ⟨state, []⟩ → env.purge_timing ≠ .inTime →
    ∃ r, outcome out = .ok r ∧ r.indeterminate = true
  success : ∀ r, outcome out = .ok r → r.status = .success → env.purge_timing = .inTime ∧
    ∃ purge v, Reaches env purge (.ok ()) ∧ purge queue_name state = (.ok v, (final out).state)

/-- The channel has `queue_purge`, and the call changes the broker and then
raises an `AttributeError`: the action reports that the channel lacks it. -/
def Misreported (env : Env β Secret) (queue_name : String) (confirm_token : Option String) (force : Bool) (state : β) :
    Prop :=
  Passed env queue_name confirm_token force ⟨state, []⟩ ∧ env.purge_timing = .inTime ∧
    ∃ purge e state', Reaches env purge (.ok ()) ∧ purge queue_name state = (.error e, state') ∧
      e.val.isa .AttributeError = true ∧ state' ≠ state

theorem do_purge_unsupported {env : Env β Secret} {queue_name : String} {b : Broker β}
    {purge : String → β → Except Foreign Val × β} {e : Foreign} {state : β} (hreach : Reaches env purge (.ok ()))
    (hp : purge queue_name b.state = (.error e, state)) (he : e.val.isa .AttributeError = true) :
    do_purge env queue_name b = .error purgeUnsupported (b.purged queue_name state) := by
  obtain ⟨conn, channel, hc, hch, hq, hrel⟩ := hreach
  have hbody := purge_channel_apply hq queue_name b
  rw [hp] at hbody
  simp only [he, if_true] at hbody
  have hw := with_channel_ok hc hch (purge_channel queue_name) b
  rw [hrel, show foreign (.ok () : Except Foreign Unit) = .ok () from rfl, withExit_ok, hbody] at hw
  rw [do_purge, bind_error hw]

theorem phase_unsupported {env : Env β Secret} {queue_name : String} {b : Broker β}
    {purge : String → β → Except Foreign Val × β} {e : Foreign} {state : β} (ht : env.purge_timing = .inTime)
    (hreach : Reaches env purge (.ok ())) (hp : purge queue_name b.state = (.error e, state))
    (he : e.val.isa .AttributeError = true) (depth : Option Val) (force : Bool) :
    purge_phase env queue_name depth force b = .ok unsupported (b.purged queue_name state) := by
  rw [purge_phase, ht, tryExcept_error (bind_error (offload_error (do_purge_unsupported hreach hp he)))]
  rfl

theorem probing_ops {b b' : Broker β} (h : probing.rel b b') (hb : b.ops = []) :
    b'.state = b.state ∧ ∀ op ∈ b'.ops, op.isProbe = true := by
  obtain ⟨hstate, l, hl, hprobe⟩ := h
  rw [hb, List.nil_append] at hl
  exact ⟨hstate, hl ▸ hprobe⟩

theorem countP_probes {l : List Op} (h : ∀ op ∈ l, op.isProbe = true) : l.countP Op.isPurge = 0 := by
  rw [List.countP_eq_zero]
  intro op hop
  have := h op hop
  cases op <;> simp_all [Op.isProbe, Op.isPurge]

/-- What the probe leaves behind. -/
structure Unpurged (state : β) (b : Broker β) : Prop where
  state : b.state = state
  none : b.ops.countP Op.isPurge = 0
  never_deletes : ∀ queue, Op.queue_delete queue ∉ b.ops
  never_purges : ∀ queue, Op.queue_purge queue ∉ b.ops

theorem Unpurged.once {state : β} {b : Broker β} (h : Unpurged state b) : b.ops.countP Op.isPurge ≤ 1 := by
  rw [h.none]
  exact Nat.zero_le 1

theorem unpurged {state : β} {b : Broker β} (hb : probing.rel ⟨state, []⟩ b) : Unpurged state b := by
  obtain ⟨hstate, hprobe⟩ := probing_ops hb rfl
  refine ⟨hstate, countP_probes hprobe, ?_, ?_⟩ <;>
    exact fun queue hmem => absurd (hprobe _ hmem) (by simp [Op.isProbe])

theorem phase_ops {env : Env β Secret} {queue_name : String} {b b' : Broker β} {r : CommandResult}
    (h : PhaseRun env queue_name b r b') : b'.ops = b.ops ∨ b'.ops = b.ops ++ [.queue_purge queue_name] := by
  cases h with
  | late b' ht hb =>
    rcases hb with rfl | ⟨state, rfl⟩
    · exact .inl rfl
    · exact .inr rfl
  | unreached r ht hr => exact .inl rfl
  | returned | unsupported | raised => exact .inr rfl

theorem unpassed_guarded {env : Env β Secret} {queue_name : String} {confirm_token : Option String} {force : Bool}
    {state : β} {out : EStateM.Result Exn (Broker β) CommandResult}
    (hn : ¬ Passed env queue_name confirm_token force ⟨state, []⟩) (hu : Unpurged state (final out))
    (hfailed : ∀ r, outcome out = .ok r → r.status = .failed) :
    PurgeGuarded env queue_name confirm_token force state out where
  once := hu.once
  never_deletes := hu.never_deletes
  guarded q hq := absurd hq (hu.never_purges q)
  threshold := purge_threshold_pos env
  refused _ _ _ := hu.state
  late hp := absurd hp hn
  success r hr hs := by
    rw [hfailed r hr] at hs
    cases hs

theorem phase_calls {env : Env β Secret} {queue_name : String} {state : β} {b b' : Broker β} {r : CommandResult}
    (hu : Unpurged state b) (h : PhaseRun env queue_name b r b') :
    b'.ops.countP Op.isPurge ≤ 1 ∧ (∀ q, Op.queue_delete q ∉ b'.ops) ∧
      ∀ q, Op.queue_purge q ∈ b'.ops → q = queue_name := by
  rcases phase_ops h with h | h
  · rw [h]
    exact ⟨hu.once, hu.never_deletes, fun q hq => absurd hq (hu.never_purges q)⟩
  · rw [h]
    refine ⟨?_, fun q hq => ?_, fun q hq => ?_⟩
    · rw [List.countP_append, hu.none, Nat.zero_add]
      exact Nat.le_refl 1
    · simp [hu.never_deletes q] at hq
    · simpa [hu.never_purges q] using hq

theorem passed_guarded {env : Env β Secret} {queue_name : String} {confirm_token : Option String} {force : Bool}
    {state : β} {b b' : Broker β} {r : CommandResult} (hmis : ¬ Misreported env queue_name confirm_token force state)
    (hp : Passed env queue_name confirm_token force ⟨state, []⟩) (hu : Unpurged state b)
    (h : PhaseRun env queue_name b r b') : PurgeGuarded env queue_name confirm_token force state (.ok r b') where
  once := (phase_calls hu h).1
  never_deletes := (phase_calls hu h).2.1
  guarded q hq := ⟨(phase_calls hu h).2.2 q hq, hp⟩
  threshold := purge_threshold_pos env
  refused r' hr' href := by
    cases hr'
    cases h with
    | late b' ht hb' => exact absurd (refusal_no_result href).1 (by decide)
    | unreached r ht hr => exact hu.state
    | returned r purge v state' ht hreach hp' hr => rw [(refusal_no_result href).2] at hr; cases hr
    | unsupported purge e state' ht hreach hcall he =>
      -- the one refusal that comes after the call
      by_contra hne
      exact hmis ⟨hp, ht, purge, e, state', hreach, hu.state ▸ hcall, he, hne⟩
    | raised r state' ht hr hn => exact absurd href hn
  late _ ht := by
    cases h with
    | late b' ht' hb' => exact ⟨_, rfl, rfl⟩
    | unreached _ ht' | returned _ _ _ _ ht' | unsupported _ _ _ ht' | raised _ _ ht' => exact absurd ht' ht
  success r' hr' hs := by
    cases hr'
    cases h with
    | returned r purge v state' ht hreach hcall hr => exact ⟨ht, purge, v, hreach, hu.state ▸ hcall⟩
    | late b' ht hb' => cases hs
    | unreached r ht hr => rw [hr] at hs; cases hs
    | unsupported purge e state' ht hreach hcall he => cases hs
    | raised r state' ht hr hn => rw [hr] at hs; cases hs

/-- The guard holds of every run but one that reports a call it made as one it
refused. -/
theorem purge_guarded_iff (env : Env β Secret) (queue_name : String) (confirm_token : Option String) (force : Bool)
    (state : β) :
    PurgeGuarded env queue_name confirm_token force state
        (purge_queue_action env queue_name confirm_token force ⟨state, []⟩) ↔
      ¬ Misreported env queue_name confirm_token force state := by
  constructor
  · rintro h ⟨hp, ht, purge, e, state', hreach, hcall, he, hne⟩
    obtain ⟨depth, b', hb, ⟨-, heq⟩ | ⟨hn, -⟩⟩ := purge_queue_action_eq env queue_name confirm_token force ⟨state, []⟩
    · have hcall' : purge queue_name b'.state = (.error e, state') := by rw [hb.1]; exact hcall
      rw [heq, phase_unsupported ht hreach hcall' he] at h
      exact hne (h.refused _ rfl .unsupported)
    · exact hn hp
  · intro hmis
    have hrun := purge_cases env queue_name confirm_token force ⟨state, []⟩
    generalize purge_queue_action env queue_name confirm_token force ⟨state, []⟩ = out at hrun ⊢
    cases hrun with
    | raised e b' hn hb => exact unpassed_guarded hn (unpurged hb) fun r hr => by cases hr
    | refused r b' hn hb hr =>
      refine unpassed_guarded hn (unpurged hb) fun r' hr' => ?_
      cases hr'
      exact (refusal_no_result hr).2
    | passed b' r b'' hp hb hphase => exact passed_guarded hmis hp (unpurged hb) hphase

/-- A forced purge empties a queue of three, raises from inside the call, and is
reported as refused. -/
theorem purge_misreported :
    let purge : String → Nat → Except Foreign Val × Nat :=
      fun _ _ =>
        (.error ⟨⟨.AttributeError, "AttributeError", "'NoneType' object has no attribute 'drain_events'"⟩, by simp⟩, 0)
    let env : Env Nat Unit :=
      { py := .plain
        environ := fun _ => none
        decode_agent_hmac_secret := fun _ => .ok ()
        verify_purge_confirm_token := fun _ _ _ _ _ => .ok (false, false)
        accept_legacy_from_env := false
        connection_for_read := .ok ⟨.ok ⟨.ok (some fun _ => .ok (.ok (.int 3))), .ok none⟩, .ok ()⟩
        connection_for_write := .ok ⟨.ok ⟨.ok purge⟩, .ok ()⟩
        probe_timing := .inTime
        purge_timing := .inTime }
    ¬ PurgeGuarded env "celery" none true 3 (purge_queue_action env "celery" none true ⟨3, []⟩) := by
  intro purge env h
  exact absurd (h.refused unsupported rfl .unsupported) (by decide)

end Z4jCelery.Actions.Purge
