import Z4jCelery.Actions.Purge.OnPool
/-!
# What a confirmation token authorizes

The issuer derives a token from the queue and the depth that it saw, keyed with
its secret or not (`expected_confirm_token`). A purge that carries the token
takes effect only where the queue is that one and holds that many messages at the
probe, and there it is never refused (`purge_authorized`). Nothing else is bound:
the token is good again whenever the depth is the same.
-/

namespace Z4jCelery.Actions.Purge

open Py Z4jCelery.Core Offload Lib
open Programs (Program Job)

variable {P μ Secret κ : Type}

/-! ## Tokens -/

/-- The derivations of `z4j_core.purge_token`, and the truth value of a secret. -/
structure Tokens (Secret : Type) where
  compute_purge_confirm_token : Secret → String → Int → String
  legacy_purge_confirm_token : String → Int → String
  truthy : Secret → Bool

def expected_confirm_token (t : Tokens Secret) (queue_name : String) (queue_depth : Int) (secret : Option Secret) :
    String :=
  match secret.filter t.truthy with
  | some secret => t.compute_purge_confirm_token secret queue_name queue_depth
  | none => t.legacy_purge_confirm_token queue_name queue_depth

/-- What a token is derived from; without a key it is a legacy one. -/
structure Confirmation (Secret : Type) where
  key : Option Secret
  queue_name : String
  queue_depth : Int

def Tokens.derive (t : Tokens Secret) (c : Confirmation Secret) : String :=
  match c.key with
  | some secret => t.compute_purge_confirm_token secret c.queue_name c.queue_depth
  | none => t.legacy_purge_confirm_token c.queue_name c.queue_depth

theorem expected_eq (t : Tokens Secret) (queue_name : String) (queue_depth : Int) (secret : Option Secret) :
    expected_confirm_token t queue_name queue_depth secret = t.derive ⟨secret.filter t.truthy, queue_name, queue_depth⟩ :=
  rfl

/-- What `verify_purge_confirm_token` accepts: the token keyed with the given
secret, and where it may the unkeyed one, for the given queue and depth. -/
structure Verifies (t : Tokens Secret)
    (verify : String → String → Val → Option Secret → Bool → Except Foreign (Bool × Bool)) : Prop where
  sound : ∀ {provided queue_name depth secret accept_legacy used_legacy n}, depth.int? = some n →
    verify provided queue_name depth secret accept_legacy = .ok (true, used_legacy) →
    (∃ key, secret = some key ∧ provided = t.derive ⟨some key, queue_name, n⟩) ∨
      accept_legacy = true ∧ provided = t.derive ⟨none, queue_name, n⟩
  keyed : ∀ {queue_name depth key accept_legacy n}, depth.int? = some n → t.truthy key = true →
    ∃ used_legacy, verify (t.derive ⟨some key, queue_name, n⟩) queue_name depth (some key) accept_legacy =
      .ok (true, used_legacy)
  legacy : ∀ {queue_name depth secret n}, depth.int? = some n →
    ∃ used_legacy, verify (t.derive ⟨none, queue_name, n⟩) queue_name depth secret true = .ok (true, used_legacy)

/-- Such a check. -/
def Tokens.verify (t : Tokens Secret) (provided queue_name : String) (depth : Val) (secret : Option Secret)
    (accept_legacy : Bool) : Except Foreign (Bool × Bool) :=
  match depth.int? with
  | none => .ok (false, false)
  | some n =>
    if secret.any fun key => provided = t.derive ⟨some key, queue_name, n⟩ then .ok (true, false)
    else if accept_legacy ∧ provided = t.derive ⟨none, queue_name, n⟩ then .ok (true, true)
    else .ok (false, false)

theorem verify_verifies (t : Tokens Secret) : Verifies t t.verify where
  sound := by
    intro provided queue_name depth secret accept_legacy used_legacy n hn h
    simp only [Tokens.verify, hn] at h
    split at h
    · rename_i hkeyed
      obtain ⟨key, rfl, hkey⟩ := (Option.any_eq_true _ _).1 hkeyed
      exact .inl ⟨key, rfl, of_decide_eq_true hkey⟩
    · split at h
      · rename_i hlegacy
        exact .inr hlegacy
      · cases h
  keyed := by
    intro queue_name depth key accept_legacy n hn htruthy
    simp [Tokens.verify, hn]
  legacy := by
    intro queue_name depth secret n hn
    simp only [Tokens.verify, hn]
    split
    · exact ⟨false, rfl⟩
    · simp

/-- The agent takes tokens of this key: it is the agent's own, or there is none
and legacy tokens are accepted. -/
def Purger.Takes (p : Purger μ Secret) (key : Option Secret) : Prop :=
  ∃ secret, resolve_agent_secret p.env = .ok secret ∧
    (key.isSome = true ∧ key = secret ∨ key = none ∧ p.env.accept_legacy_from_env = true)

/-- The token was issued for this queue with `n` messages, by a key that the agent
takes. -/
structure Purger.Matches (p : Purger μ Secret) (c : Confirmation Secret) (n : Nat) : Prop where
  queue : c.queue_name = p.queue_name
  depth : c.queue_depth = (n : Int)
  key : p.Takes c.key

/-- Two derivations of one token: the issuer's, and another one that the agent
takes for `n` messages. -/
def Purger.Collides (p : Purger μ Secret) (t : Tokens Secret) (c : Confirmation Secret) (n : Nat) : Prop :=
  ∃ key, p.Takes key ∧ c ≠ ⟨key, p.queue_name, n⟩ ∧ t.derive c = t.derive ⟨key, p.queue_name, n⟩

/-! ## The check -/

section Check
variable {p : Purger μ Secret} {t : Tokens Secret} {c : Confirmation Secret} {n : Nat}

/-- A token that was verified for `n` messages was issued for them. -/
theorem verified_matches (hverify : Verifies t p.env.verify_purge_confirm_token)
    (hissued : p.confirm_token = some (t.derive c)) (h : Verified p n) : p.Matches c n ∨ p.Collides t c n := by
  obtain ⟨-, token, depth, secret, used_legacy, htoken, hdepth, hsecret, haccepted⟩ := h
  obtain rfl := Option.some.inj (htoken.symm.trans hissued)
  have hderived : ∃ key, p.Takes key ∧ t.derive c = t.derive ⟨key, p.queue_name, n⟩ := by
    rcases hverify.sound hdepth haccepted with ⟨key, rfl, hkey⟩ | ⟨haccept, hlegacy⟩
    · exact ⟨some key, ⟨some key, hsecret, .inl ⟨rfl, rfl⟩⟩, hkey⟩
    · exact ⟨none, ⟨secret, hsecret, .inr ⟨rfl, haccept⟩⟩, hlegacy⟩
  obtain ⟨key, htakes, hderive⟩ := hderived
  by_cases hsame : c = ⟨key, p.queue_name, n⟩
  · subst hsame
    exact .inl ⟨rfl, rfl, htakes⟩
  · exact .inr ⟨key, htakes, hsame, hderive⟩

/-- And one that was issued for them is verified. -/
theorem matches_verified (hverify : Verifies t p.env.verify_purge_confirm_token)
    (hkey : ∀ key, c.key = some key → t.truthy key = true) (h : p.Matches c n) {depth : Val}
    (hdepth : depth.int? = some (n : Int)) :
    ∃ secret used_legacy, resolve_agent_secret p.env = .ok secret ∧
      p.env.verify_purge_confirm_token (t.derive c) p.queue_name depth secret p.env.accept_legacy_from_env =
        .ok (true, used_legacy) := by
  obtain ⟨key, queue_name, queue_depth⟩ := c
  obtain ⟨rfl, rfl, secret, hsecret, hown | hnone⟩ := h
  · obtain ⟨hsome, rfl⟩ := hown
    obtain ⟨key, rfl⟩ := Option.isSome_iff_exists.1 hsome
    obtain ⟨used_legacy, haccepted⟩ := hverify.keyed hdepth (hkey key rfl)
    exact ⟨some key, used_legacy, hsecret, haccepted⟩
  · obtain ⟨rfl, haccept⟩ := hnone
    obtain ⟨used_legacy, haccepted⟩ := hverify.legacy hdepth
    rw [haccept]
    exact ⟨secret, used_legacy, hsecret, haccepted⟩

/-- Past its guards a purge makes its second call. -/
theorem program_passed {d : Val} {token : String} (htoken : p.confirm_token = some token)
    (hle : d.int?.getD 0 ≤ purge_threshold p.env)
    (hverified : ∃ secret used_legacy, resolve_agent_secret p.env = .ok secret ∧
      p.env.verify_purge_confirm_token token p.queue_name d secret p.env.accept_legacy_from_env = .ok (true, used_legacy)) :
    ((p.program (κ := κ)).after [.ok (some d)]).current = some (.inl .purge) := by
  have hguards : guards p.env p.queue_name p.confirm_token p.force (some d) = .ok none := by
    unfold guards
    split
    · rfl
    · exact refusal_none.2 ⟨token, d, htoken, rfl, hle, hverified⟩
  have hpassed : guards p.env p.queue_name p.confirm_token p.force (probed_depth (.ok (some d))) = .ok none := hguards
  simp only [Purger.program, Program.after, hpassed, Program.current]

end Check

/-! ## On the pool -/

section Pool
variable [DecidableEq P] {purgers : P → Purger μ Secret} {other : P → κ → PyM (Broker (List μ)) (Option Val)}
  {programs : P → Program (PurgeCall ⊕ κ) (Option Val) (Except Exn CommandResult)} {b : Broker (List μ)}
  {s : Programs.State P (Broker (List μ)) (Option Val)}

/-- In every run on the pool, of an unforced purge whose token was derived for a
queue, a depth and a key: if it takes effect, its probe counted that depth of
that queue, within the threshold, and the agent takes that key, unless another
derivation gives the same token. And where its probe counted that depth it is not
refused. -/
theorem purge_authorized {es : List (Calls.Event (Job P (Option Val)))}
    (h : run (Programs.step (pool_call purgers other) programs) es (Programs.init b) = some s) {p : P}
    (hp : programs p = (purgers p).program) (hforce : (purgers p).force = false) (hcount : Counting (purgers p))
    {t : Tokens Secret} (hverify : Verifies t (purgers p).env.verify_purge_confirm_token) {queue_name : String}
    {queue_depth : Int} {secret : Option Secret}
    (hissued : (purgers p).confirm_token = some (expected_confirm_token t queue_name queue_depth secret)) :
    let c : Confirmation Secret := ⟨secret.filter t.truthy, queue_name, queue_depth⟩
    let counted := fun before : List (Job P (Option Val)) =>
      (Calls.perform (Programs.job (pool_call purgers other) programs) before b).2.state.length
    (∀ j ∈ s.calls.acted, j.1 = p → j.2 ≠ [] → ∃ before after, s.calls.acted = before ++ (p, []) :: after ∧ j ∈ after ∧
      (counted before : Int) ≤ purge_threshold (purgers p).env ∧
      ((purgers p).Matches c (counted before) ∨ (purgers p).Collides t c (counted before))) ∧
    ∀ d, [.ok (some d)] <+: s.heard p → ∃ before after, s.calls.acted = before ++ (p, []) :: after ∧
      ((counted before : Int) ≤ purge_threshold (purgers p).env → (purgers p).Matches c (counted before) →
        ((programs p).after [.ok (some d)]).current = some (.inl .purge)) := by
  intro c counted
  have hi := Programs.run_inv h
  rw [expected_eq] at hissued
  refine ⟨?_, ?_⟩
  · rintro ⟨q, heard⟩ hj rfl hne
    obtain ⟨before, after, hacted, hlate, hverified⟩ := purge_verified h hp hforce hcount hj hne
    exact ⟨before, after, hacted, hlate, hverified.1, verified_matches hverify hissued hverified⟩
  · intro d hheard
    obtain ⟨before, after, hacted, hcounted⟩ := probe_heard hi hp hcount hheard
    refine ⟨before, after, hacted, fun hle hmatches => ?_⟩
    have htruthy : ∀ key, c.key = some key → t.truthy key = true := fun key hk => (Option.filter_eq_some_iff.1 hk).2
    rw [hp]
    apply program_passed hissued
    · rw [hcounted]
      exact hle
    · exact matches_verified hverify htruthy hmatches hcounted

end Pool

/-- Tokens that are their parts, joined. -/
def joined : Tokens String where
  compute_purge_confirm_token secret queue_name queue_depth := secret ++ queue_name ++ toString queue_depth
  legacy_purge_confirm_token queue_name queue_depth := queue_name ++ toString queue_depth
  truthy secret := secret ≠ ""

/-- The queue of `keeper`, of an agent that has a secret, and a token keyed with it
for one message. -/
def vault : Purger Nat String where
  env :=
    { py := .plain
      environ := fun name => if name = "Z4J_HMAC_SECRET" then some "key" else none
      decode_agent_hmac_secret := .ok
      verify_purge_confirm_token := joined.verify
      accept_legacy_from_env := false
      connection_for_read := keeper.env.connection_for_read
      connection_for_write := keeper.env.connection_for_write
      probe_timing := .inTime
      purge_timing := .inTime }
  read := keeper.read
  queue_name := keeper.queue_name
  confirm_token := some (expected_confirm_token joined "celery" 1 (some "key"))
  force := false

theorem vault_counting : Counting vault := ⟨keeper_counting.declared, keeper_counting.llen⟩

/-- The token is not used up: when the queue holds one message again, a second
purge takes effect with it. -/
theorem purge_authorized_again :
    let publish : Option Bool → Unit → PyM (Broker (List Nat)) (Option Val) := fun _ _ => do
      modify fun b => { b with state := b.state ++ [8] }
      return none
    let programs : Option Bool → Program (PurgeCall ⊕ Unit) (Option Val) (Except Exn CommandResult) := fun p =>
      if p.isSome then vault.program else .call (.inr ()) fun _ => .done (.ok (.succeed []))
    let one : Except Exn (Option Val) := .ok (some (.int 1))
    let purge : Bool → List (Calls.Event (Job (Option Bool) (Option Val))) := fun p => [.submit (some p, []), .start,
      .act (some p, []), .finish (some p, []), .answer (some p, []), .submit (some p, [one]), .start, .act (some p, [one])]
    ∃ s, run (Programs.step (pool_call (fun _ => vault) publish) programs)
        (purge true ++ [.submit (none, []), .start, .act (none, [])] ++ purge false) (Programs.init ⟨[7], []⟩) = some s ∧
      s.calls.acted = [(some true, []), (some true, [one]), (none, []), (some false, []), (some false, [one])] ∧
      ∀ p, ∃ before after, s.calls.acted = before ++ (some p, []) :: after ∧ (some p, [one]) ∈ after ∧
        (vault.Matches ⟨some "key", "celery", 1⟩
            (Calls.perform (Programs.job (pool_call (fun _ => vault) publish) programs) before ⟨[7], []⟩).2.state.length ∨
          vault.Collides joined ⟨some "key", "celery", 1⟩
            (Calls.perform (Programs.job (pool_call (fun _ => vault) publish) programs) before ⟨[7], []⟩).2.state.length) := by
  intro publish programs one purge
  have hend : (run (Programs.step (pool_call (fun _ => vault) publish) programs)
      (purge true ++ [.submit (none, []), .start, .act (none, [])] ++ purge false) (Programs.init ⟨[7], []⟩)).map
      (fun s => s.calls.acted) =
      some [(some true, []), (some true, [one]), (none, []), (some false, []), (some false, [one])] := by
    decide +kernel
  obtain ⟨s, hs, hend⟩ := Option.map_eq_some_iff.1 hend
  refine ⟨s, hs, hend, fun p => ?_⟩
  have hissued : vault.confirm_token = some (expected_confirm_token joined "celery" 1 (some "key")) := rfl
  have hauthorized := purge_authorized hs (p := some p) rfl rfl vault_counting (verify_verifies joined) hissued
  have hmem : (some p, [one]) ∈ s.calls.acted := by
    rw [hend]
    cases p <;> simp
  obtain ⟨before, after, hacted, hlate, -, hmatches⟩ := hauthorized.1 (some p, [one]) hmem rfl nofun
  exact ⟨before, after, hacted, hlate, hmatches⟩

end Z4jCelery.Actions.Purge
