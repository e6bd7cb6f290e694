import Z4jCelery.Offload.Programs
/-!
# A program on the pool and on its own

Where the broker's replies are those of the calls, whatever was asked before, a
program that shared the pool did what it does on its own, call by call awaited
with some timing (`run_alone`).
-/

namespace Z4jCelery.Offload.Programs

open Py Lib

variable {P κ α ρ ω τ : Type}

/-- Calls that record what they ask, with a tag, and end as the reply does. -/
def record (tag : ω → τ) (reply : κ → Except Exn α) (ops : κ → List ω) (k : κ) : PyM (List τ) α := do
  modify (· ++ (ops k).map tag)
  ofOutcome (reply k)

variable {tag : ω → τ} {reply : κ → Except Exn α} {ops : κ → List ω}

variable (tag reply ops) in
theorem record_apply (k : κ) (w : List τ) :
    outcome (record tag reply ops k w) = reply k ∧ final (record tag reply ops k w) = w ++ (ops k).map tag := by
  rw [record, bind_ok (modify_apply _ w)]
  cases reply k <;> exact ⟨rfl, rfl⟩

/-- What is recorded of a call with a timing. -/
def kept (ops : κ → List ω) (t : Timing) (k : κ) : List ω := if t = .outlives false then [] else ops k

variable (tag reply ops) in
theorem offload_record (t : Timing) (k : κ) (w : List τ) :
    outcome (offload t (record tag reply ops k) w) = Calls.report t (reply k) ∧
      final (offload t (record tag reply ops k) w) = w ++ (kept ops t k).map tag := by
  obtain ⟨hout, hfin⟩ := record_apply tag reply ops k w
  by_cases ht : t = .outlives false
  · subst ht
    exact ⟨rfl, (List.append_nil w).symm⟩
  · obtain ⟨hout', hfin'⟩ := Calls.offload_report ht (record tag reply ops k) w
    rw [hout', hfin', hout, hfin, kept, if_neg ht]
    exact ⟨rfl, rfl⟩

/-! ## The calls of a program -/

theorem Program.after_nil (program : Program κ α ρ) : program.after [] = program := by cases program <;> rfl

/-- The calls that were answered, each with what the program had heard before. -/
def Program.asked : List (Except Exn α) → Program κ α ρ → List (Except Exn α) → List (List (Except Exn α) × κ)
  | before, .call k next, r :: rs => (before, k) :: asked (before ++ [r]) (next r) rs
  | _, _, _ => []

theorem mem_asked {before : List (Except Exn α)} {program : Program κ α ρ} {rs : List (Except Exn α)}
    {x : List (Except Exn α) × κ} : x ∈ program.asked before rs ↔
      ∃ h r, x.1 = before ++ h ∧ h ++ [r] <+: rs ∧ (program.after h).current = some x.2 := by
  induction rs generalizing before program with
  | nil =>
    have hnil : program.asked before [] = [] := by cases program <;> rfl
    rw [hnil]
    refine iff_of_false List.not_mem_nil ?_
    rintro ⟨h, r, -, hpre, -⟩
    exact absurd (List.prefix_nil.1 hpre) (List.append_ne_nil_of_right_ne_nil h (List.cons_ne_nil r []))
  | cons r rs ih =>
    cases program with
    | done a =>
      refine iff_of_false List.not_mem_nil ?_
      rintro ⟨h, q, -, -, hcur⟩
      cases h <;> cases hcur
    | call k next =>
      rw [Program.asked, List.mem_cons, ih]
      constructor
      · rintro (rfl | ⟨h, q, hx, hpre, hcur⟩)
        · exact ⟨[], r, (List.append_nil before).symm, List.cons_prefix_cons.2 ⟨rfl, List.nil_prefix⟩, rfl⟩
        · exact ⟨r :: h, q, hx.trans (List.append_assoc _ _ _), List.cons_prefix_cons.2 ⟨rfl, hpre⟩, hcur⟩
      · rintro ⟨h, q, hx, hpre, hcur⟩
        cases h with
        | nil => exact .inl (Prod.ext (hx.trans (List.append_nil before)) (Option.some.inj hcur).symm)
        | cons r' h =>
          obtain ⟨rfl, hrest⟩ := List.cons_prefix_cons.1 hpre
          exact .inr ⟨h, q, hx.trans (List.append_assoc _ [r'] h).symm, hrest, hcur⟩

theorem length_of_asked {before : List (Except Exn α)} {program : Program κ α ρ} {rs : List (Except Exn α)}
    {x : List (Except Exn α) × κ} (hx : x ∈ program.asked before rs) : before.length ≤ x.1.length := by
  obtain ⟨h, -, hx, -, -⟩ := mem_asked.1 hx
  rw [hx, List.length_append]
  exact Nat.le_add_right _ _

theorem asked_nodup (before : List (Except Exn α)) (program : Program κ α ρ) (rs : List (Except Exn α)) :
    ((program.asked before rs).map Prod.fst).Nodup := by
  induction rs generalizing before program with
  | nil => cases program <;> exact List.nodup_nil
  | cons r rs ih =>
    cases program with
    | done a => exact List.nodup_nil
    | call k next =>
      refine List.nodup_cons.2 ⟨fun hmem => ?_, ih _ _⟩
      obtain ⟨x, hx, he⟩ := List.mem_map.1 hmem
      have hlen := length_of_asked hx
      rw [he, List.length_append] at hlen
      exact absurd hlen (Nat.not_succ_le_self _)

/-- A program whose calls were answered as their timings say has done what it
does on its own. -/
theorem alone_eq (tag : ω → τ) {timing : Nat → Timing} {before rs : List (Except Exn α)} {program : Program κ α ρ} {a : ρ}
    (hheard : ∀ x ∈ program.asked before rs, ∀ r, x.1 ++ [r] <+: before ++ rs →
      r = Calls.report (timing x.1.length) (reply x.2))
    (hdone : program.after rs = .done a) (w : List τ) :
    program.alone (record tag reply ops) timing before.length w =
      (a, w ++ ((program.asked before rs).flatMap fun x => kept ops (timing x.1.length) x.2).map tag) := by
  induction rs generalizing before program w with
  | nil =>
    obtain rfl : program = .done a := Program.after_nil program ▸ hdone
    exact Prod.ext rfl (List.append_nil w).symm
  | cons r rs ih =>
    cases program with
    | done b =>
      obtain rfl := Program.done.inj hdone
      exact Prod.ext rfl (List.append_nil w).symm
    | call k next =>
      obtain ⟨hout, hfin⟩ := offload_record tag reply ops (timing before.length) k w
      have hr : r = Calls.report (timing before.length) (reply k) :=
        hheard (before, k) List.mem_cons_self r ⟨rs, by rw [List.append_assoc]; rfl⟩
      have hnext := @ih (before ++ [r]) (next r) (fun x hx q hpre => hheard x (List.mem_cons_of_mem _ hx) q
        (by rwa [List.append_assoc] at hpre)) hdone (w ++ (kept ops (timing before.length) k).map tag)
      rw [List.length_append] at hnext
      rw [Program.alone, hout, hfin, ← hr]
      refine hnext.trans ?_
      rw [Program.asked, List.flatMap_cons, List.map_append, List.append_assoc]

/-! ## What the pool recorded -/

section Pool
variable [DecidableEq P] [DecidableEq α] {programs : P → Program κ α ρ} {s : State P (List (P × ω)) α}

/-- The timing of the `n`-th call of a program. -/
def State.timing (s : State P (List (P × ω)) α) (p : P) (n : Nat) : Timing :=
  s.calls.timing (p, (s.heard p).take n)

/-- What a job asks. -/
def job_ops (ops : κ → List ω) (programs : P → Program κ α ρ) (j : Job P α) : List ω :=
  ((programs j.1).after j.2).current.elim [] ops

omit [DecidableEq P] [DecidableEq α] in
theorem job_apply (j : Job P α) (w : List (P × ω)) :
    final (job (fun p => record (p, ·) reply ops) programs j w) = w ++ (job_ops ops programs j).map (j.1, ·) := by
  rw [job, job_ops]
  cases ((programs j.1).after j.2).current with
  | none => exact (List.append_nil w).symm
  | some k => exact (record_apply _ _ _ k w).2

variable (reply ops programs) in
omit [DecidableEq P] [DecidableEq α] in
theorem perform_world (js : List (Job P α)) (w : List (P × ω)) :
    (Calls.perform (job (fun p => record (p, ·) reply ops) programs) js w).2 =
      w ++ js.flatMap fun j => (job_ops ops programs j).map (j.1, ·) := by
  induction js generalizing w with
  | nil => exact (List.append_nil w).symm
  | cons j js ih => rw [Calls.perform, ih, job_apply, List.flatMap_cons, List.append_assoc]

omit [DecidableEq P] [DecidableEq α] in
theorem world_ops (h : Inv (fun p => record (p, ·) reply ops) programs [] s) :
    s.calls.world = s.calls.acted.flatMap fun j => (job_ops ops programs j).map (j.1, ·) := by
  have hperformed := perform_world reply ops programs s.calls.acted []
  rw [h.calls.performed] at hperformed
  exact hperformed

omit [DecidableEq α] in
/-- What the pool recorded of one program: what its calls that took effect ask. -/
theorem world_of (h : Inv (fun p => record (p, ·) reply ops) programs [] s) (p : P) :
    (s.calls.world.filter fun x => x.1 = p).map Prod.snd =
      (s.calls.acted.filter fun j => j.1 = p).flatMap (job_ops ops programs) := by
  rw [world_ops h]
  generalize s.calls.acted = js
  induction js with
  | nil => rfl
  | cons j js ih =>
    rw [List.flatMap_cons, List.filter_append, List.map_append, ih]
    by_cases hj : j.1 = p
    · rw [List.filter_cons_of_pos (by simpa using hj), List.flatMap_cons]
      congr 1
      rw [List.filter_eq_self.2 (by simpa using fun _ _ => hj), List.map_map]
      exact List.map_id _
    · rw [List.filter_cons_of_neg (by simpa using hj), List.filter_eq_nil_iff.2 (by simpa using fun _ _ => hj)]
      rfl

omit [DecidableEq P] [DecidableEq α] in
theorem result_reply (h : Inv (fun p => record (p, ·) reply ops) programs [] s) {j : Job P α} {r : Except Exn α}
    (hr : (j, r) ∈ s.calls.results) {k : κ} (hk : ((programs j.1).after j.2).current = some k) : r = reply k := by
  have hperformed := h.calls.performed
  have hmem : ∀ (js : List (Job P α)) (w : List (P × ω)),
      (j, r) ∈ (Calls.perform (job (fun p => record (p, ·) reply ops) programs) js w).1 → r = reply k := by
    intro js
    induction js with
    | nil => exact fun w hr => absurd hr List.not_mem_nil
    | cons i js ih =>
      intro w hr
      rcases List.mem_cons.1 hr with he | hr
      · obtain ⟨rfl, rfl⟩ := Prod.mk.inj he
        rw [job, hk]
        exact (record_apply _ _ _ k w).1
      · exact ih _ hr
  exact hmem s.calls.acted [] (hperformed ▸ hr)

/-- The calls of a program that has ended were answered. -/
theorem Inv.acted_asked (h : Inv (fun p => record (p, ·) reply ops) programs [] s) {j : Job P α} {a : ρ}
    (hanswer : ((programs j.1).after (s.heard j.1)).answer = some a) (hj : j ∈ s.calls.acted) :
    ∃ k, (j.2, k) ∈ (programs j.1).asked [] (s.heard j.1) := by
  obtain ⟨r, hr⟩ := ended_answered (rfl : run _ [] s = some s) h hanswer hj
  obtain ⟨k, hk⟩ := Option.isSome_iff_exists.1 (h.submitted j (h.calls.answered_submitted hr)).2
  exact ⟨k, mem_asked.2 ⟨j.2, r, rfl, (h.heard j r).2 hr, hk⟩⟩

theorem timing_of_heard {p : P} {h : List (Except Exn α)} (hpre : h <+: s.heard p) :
    s.timing p h.length = s.calls.timing (p, h) := by
  rw [State.timing, ← List.prefix_iff_eq_take.1 hpre]

/-- What a program has heard is what its calls reply, as their timings say. -/
theorem Inv.heard_reply (h : Inv (fun p => record (p, ·) reply ops) programs [] s) {p : P}
    {x : List (Except Exn α) × κ} (hx : x ∈ (programs p).asked [] (s.heard p)) {r : Except Exn α}
    (hpre : x.1 ++ [r] <+: s.heard p) : r = Calls.report (s.timing p x.1.length) (reply x.2) := by
  rw [timing_of_heard ((List.prefix_append _ _).trans hpre)]
  obtain ⟨_, -, hxh, -, hk⟩ := mem_asked.1 hx
  rw [List.nil_append] at hxh
  rw [← hxh] at hk
  rcases List.mem_append.1 ((h.heard (p, x.1) r).1 hpre) with hr | hr
  · obtain ⟨-, q, hq, hans⟩ := h.calls.returned_result _ hr
    have ht : s.calls.timing (p, x.1) = .inTime := if_pos (List.mem_map_of_mem hr)
    rw [ht]
    exact hans.trans (congrArg Calls.answered (result_reply h hq hk))
  · obtain ⟨j, hj, he⟩ := List.mem_map.1 hr
    obtain ⟨rfl, rfl⟩ := Prod.mk.inj he
    rw [h.calls.timing_expired hj]
    rfl

/-- The calls of a program that took effect are those that record something. -/
theorem Inv.acted_perm (h : Inv (fun p => record (p, ·) reply ops) programs [] s) {p : P} {a : ρ}
    (hanswer : ((programs p).after (s.heard p)).answer = some a) :
    (s.calls.acted.filter fun j => j.1 = p).Perm
      ((((programs p).asked [] (s.heard p)).filter fun x => (p, x.1) ∈ s.calls.acted).map fun x => (p, x.1)) := by
  have hnodup : ((((programs p).asked [] (s.heard p)).filter fun x => (p, x.1) ∈ s.calls.acted).map
      fun x => (p, x.1)).Nodup := by
    refine List.Nodup.map_on ?_ (((asked_nodup [] (programs p) (s.heard p)).of_map Prod.fst).filter _)
    intro x hx y hy he
    exact List.inj_on_of_nodup_map (asked_nodup [] (programs p) (s.heard p)) (List.mem_of_mem_filter hx)
      (List.mem_of_mem_filter hy) (Prod.mk.inj he).2
  refine (List.perm_ext_iff_of_nodup (h.calls.acted_once.filter _) hnodup).2 fun j => ?_
  rw [List.mem_filter, List.mem_map, decide_eq_true_iff]
  constructor
  · rintro ⟨hj, rfl⟩
    obtain ⟨k, hk⟩ := h.acted_asked hanswer hj
    exact ⟨(j.2, k), List.mem_filter.2 ⟨hk, decide_eq_true hj⟩, rfl⟩
  · rintro ⟨x, hx, rfl⟩
    exact ⟨of_decide_eq_true (List.mem_filter.1 hx).2, rfl⟩

omit [DecidableEq P] [DecidableEq α] in
theorem flatMap_filter {β γ : Type} (c : β → Prop) [DecidablePred c] (f g : β → List γ) (l : List β)
    (hf : ∀ x ∈ l, f x = if c x then g x else []) : l.flatMap f = (l.filter fun x => c x).flatMap g := by
  induction l with
  | nil => rfl
  | cons x l ih =>
    rw [List.flatMap_cons, hf x List.mem_cons_self, ih fun y hy => hf y (List.mem_cons_of_mem x hy)]
    by_cases hx : c x
    · rw [if_pos hx, List.filter_cons_of_pos (by simpa using hx), List.flatMap_cons]
    · rw [if_neg hx, List.filter_cons_of_neg (by simpa using hx), List.nil_append]

/-- Every program that has ended has answered what it answers on its own, and
the pool recorded of it what it records on its own. -/
theorem run_alone {es : List (Calls.Event (Job P α))}
    (h : run (step (fun p => record (p, ·) reply ops) programs) es (init []) = some s) {p : P} {a : ρ}
    (hanswer : ((programs p).after (s.heard p)).answer = some a) : ∃ ops',
      (programs p).alone (record id reply ops) (s.timing p) 0 [] = (a, ops') ∧
        ((s.calls.world.filter fun x => x.1 = p).map Prod.snd).Perm ops' := by
  have hi := run_inv h
  have hdone := Program.answer_eq_some.1 hanswer
  refine ⟨_, @alone_eq _ _ _ _ _ reply ops id _ [] (s.heard p) _ _ (fun x hx r hpre => ?_) hdone [], ?_⟩
  · exact hi.heard_reply hx hpre
  rw [world_of hi, List.nil_append, List.map_id]
  refine ((hi.acted_perm hanswer).flatMap_right _).trans (.of_eq ?_)
  rw [List.flatMap_map]
  refine (flatMap_filter (fun x : List (Except Exn α) × κ => (p, x.1) ∈ s.calls.acted) _ _ _ fun x hx => ?_).symm
  obtain ⟨_, r, hxh, hpre, hk⟩ := mem_asked.1 hx
  rw [List.nil_append] at hxh
  rw [← hxh] at hk hpre
  rw [kept, job_ops, hk, timing_of_heard ((List.prefix_append _ _).trans hpre)]
  by_cases hj : (p, x.1) ∈ s.calls.acted
  · rw [if_pos hj, if_neg (Calls.timing_acted hj)]
    rfl
  · rw [if_neg hj, if_pos (hi.calls.timing_idle hj)]

end Pool

end Z4jCelery.Offload.Programs
