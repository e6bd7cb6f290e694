import Z4jCelery.Offload.Programs.Alone
import Z4jCelery.Offload.Programs.Ends
/-!
# Programs with a plan

A program that follows a plan makes its calls in their order and may stop at any
of them. Wherever a run on the pool is, such a program has asked for nothing but
what it planned, and for each call once at most (`asked_planned`).
-/

namespace Z4jCelery.Offload.Programs

open Py Lib

variable {P κ α ρ ω : Type}

/-- Whatever it is answered, the program makes these calls, as far as it goes. -/
inductive Program.Follows : List κ → Program κ α ρ → Prop where
  | done {ks : List κ} {answer : ρ} : Follows ks (.done answer)
  | call {k : κ} {ks : List κ} {next : Except Exn α → Program κ α ρ} : (∀ r, Follows ks (next r)) →
      Follows (k :: ks) (.call k next)

namespace Program
variable {ks : List κ} {program : Program κ α ρ}

theorem Follows.atMost (h : program.Follows ks) : program.AtMost ks.length := by
  induction h with
  | done => exact .done
  | call _ ih => exact .call ih

/-- Its `n`-th call is the `n`-th that is planned. -/
theorem Follows.current (h : program.Follows ks) {rs : List (Except Exn α)} {k : κ}
    (hcur : (program.after rs).current = some k) : ks[rs.length]? = some k := by
  induction h generalizing rs with
  | done => cases rs <;> cases hcur
  | call _ ih =>
    cases rs with
    | nil => exact hcur
    | cons r rs => exact ih r hcur

end Program

/-- The list by its indices. -/
theorem flatMap_range {β : Type} (ks : List κ) (f : κ → List β) :
    ((List.range ks.length).flatMap fun i => ks[i]?.elim [] f) = ks.flatMap f := by
  have hitems : (List.range ks.length).map (fun i => ks[i]?) = ks.map some := by
    apply List.ext_getElem
    · rw [List.length_map, List.length_map, List.length_range]
    · intro i hi hi'
      rw [List.getElem_map, List.getElem_map, List.getElem_range, List.getElem?_eq_getElem]
  have hmap := congrArg (List.flatMap fun k : Option κ => k.elim [] f) hitems
  rw [List.flatMap_map, List.flatMap_map] at hmap
  exact hmap

variable [DecidableEq P] [DecidableEq α] {reply : κ → Except Exn α} {ops : κ → List ω} {programs : P → Program κ α ρ}
  {s : State P (List (P × ω)) α}

omit [DecidableEq α] in
/-- What a program has asked for is part of what it plans, nothing of it twice. -/
theorem asked_planned (hi : Inv (fun p => record (p, ·) reply ops) programs [] s) {p : P} {ks : List κ}
    (hks : (programs p).Follows ks) :
    ((s.calls.world.filter fun x => x.1 = p).map Prod.snd).Subperm (ks.flatMap ops) := by
  have hsub : ∀ j ∈ s.calls.acted, j ∈ s.calls.pool.submitted := fun j hj =>
    hi.calls.accounted.submitted_of_started (hi.calls.acted_started j hj)
  have hcall : ∀ j ∈ s.calls.acted.filter (fun j => j.1 = p), j.2.length ∈ List.range ks.length ∧
      job_ops ops programs j = ks[j.2.length]?.elim [] ops := by
    intro j hj
    obtain ⟨hacted, hp⟩ := List.mem_filter.1 hj
    obtain rfl := of_decide_eq_true hp
    obtain ⟨k, hk⟩ := Option.isSome_iff_exists.1 (hi.submitted j (hsub j hacted)).2
    have hplan := hks.current hk
    rw [job_ops, hk, hplan]
    exact ⟨List.mem_range.2 (List.getElem?_eq_some_iff.1 hplan).1, rfl⟩
  have hlengths : ((s.calls.acted.filter fun j => j.1 = p).map fun j => j.2.length).Subperm (List.range ks.length) := by
    apply List.subperm_of_subset (hi.lengths_nodup p hi.calls.acted_once hsub)
    intro i hmem
    obtain ⟨j, hj, rfl⟩ := List.mem_map.1 hmem
    exact (hcall j hj).1
  -- a part of the indices asks for a part of the plan
  obtain ⟨some_of, hperm, hpart⟩ := hlengths
  rw [world_of hi, List.flatMap_congr fun j hj => (hcall j hj).2, ← flatMap_range ks ops]
  refine ⟨some_of.flatMap fun i => ks[i]?.elim [] ops, ?_, hpart.flatMap _⟩
  refine (hperm.flatMap_right _).trans (List.Perm.of_eq ?_)
  rw [List.flatMap_map]

end Z4jCelery.Offload.Programs
