import Z4jCelery.Discovery.Static
/-!
# The walk up the packages

The walk stops at the first directory without an `__init__.py`. `/` and `.` are
their own parents: a walk that finds one of them to be a package stays there.
It returns the name of the packages exactly when a directory on the way up is
none (`guess_module_name_iff`).
-/

namespace Z4jCelery.Discovery

open Py Lib Z4jCelery.Core

/-- The directory has an `__init__.py`, as far as one may look. -/
def is_package (fs : FileSystem) (d : Path) : Bool :=
  match fs.is_file (d / "__init__.py") with
  | .ok found => found
  | .error _ => false

/-- The longest run of package directories above the file, from its own
directory up. -/
def package_run (fs : FileSystem) (file : Path) : List Path := file.parent.ancestors.takeWhile (is_package fs)

/-- The file's module in some packages, innermost first. -/
def dotted (packages : List Path) (stem : String) : Option String :=
  if packages = [] then none else some (".".intercalate ((packages.map Path.name).reverse ++ [stem]))

/-- On the way up, a directory is found to be no package before a probe raises. -/
def LeavesPackages (fs : FileSystem) (file : Path) : Prop :=
  ∃ run d rest, file.parent.ancestors = run ++ d :: rest ∧
    (∀ p ∈ run, fs.is_file (p / "__init__.py") = .ok true) ∧ fs.is_file (d / "__init__.py") = .ok false

/-! ## One walk -/

/-- The loop's test. -/
def has_init (fs : FileSystem) (current : Path) : Except Exn Bool := fs.is_file (current / "__init__.py")

/-- The loop, with the names that it gathers. -/
def climb (fs : FileSystem) (fuel : Nat) (file : Path) : Option (Except Exn (List String)) :=
  Climb.climb Path.parent (has_init fs) (fun parts d => parts ++ [d.name]) fuel file.parent []

theorem guess_eq_ok {fs : FileSystem} {fuel : Nat} {file : Path} {m : Option String} :
    (guess_module_name fs fuel file).run = some (.ok m) ↔ ∃ parts, climb fs fuel file = some (.ok parts) ∧
      (if parts = [] then none else some (".".intercalate (parts.reverse ++ [file.stem]))) = m := by
  unfold guess_module_name
  rw [LoopM.bind_eq_ok]
  apply exists_congr
  intro parts
  apply and_congr_right
  intro _
  split <;> simp

theorem guess_eq_none {fs : FileSystem} {fuel : Nat} {file : Path} :
    (guess_module_name fs fuel file).run = none ↔ climb fs fuel file = none := by
  unfold guess_module_name
  rw [LoopM.bind_eq_none]
  constructor
  · rintro (h | ⟨parts, _, h⟩)
    · exact h
    · split at h <;> simp at h
  · exact Or.inl

/-- The names gathered along some directories. -/
theorem gathered (ds : List Path) (parts : List String) :
    ds.foldl (fun parts d => parts ++ [d.name]) parts = parts ++ ds.map Path.name := by
  induction ds generalizing parts with
  | nil => simp
  | cons d ds ih => simp [ih]

theorem package_run_eq {fs : FileSystem} {file d : Path} {run rest : List Path}
    (hsplit : file.parent.ancestors = run ++ d :: rest) (hrun : ∀ p ∈ run, fs.is_file (p / "__init__.py") = .ok true)
    (hd : fs.is_file (d / "__init__.py") = .ok false) : package_run fs file = run := by
  have hpack : ∀ p ∈ run, is_package fs p = true := fun p hp => by rw [is_package, hrun p hp]
  have hstop : is_package fs d = false := by rw [is_package, hd]
  rw [package_run, hsplit, List.takeWhile_append_of_pos hpack, List.takeWhile_cons_of_neg (by simp [hstop]),
    List.append_nil]

/-- How a walk that left the packages ended. -/
theorem climb_eq_ok {fs : FileSystem} {file : Path} {parts : List String} :
    (∃ fuel, climb fs fuel file = some (.ok parts)) ↔
      LeavesPackages fs file ∧ parts = (package_run fs file).map Path.name := by
  unfold climb
  rw [Climb.climb_iff (Path.ascent _), Climb.walk_eq_ok]
  constructor
  · rintro ⟨run, d, rest, hsplit, hrun, hd, rfl⟩
    refine ⟨⟨run, d, rest, hsplit, hrun, hd⟩, ?_⟩
    rw [gathered, package_run_eq hsplit hrun hd, List.nil_append]
  · rintro ⟨⟨run, d, rest, hsplit, hrun, hd⟩, rfl⟩
    refine ⟨run, d, rest, hsplit, hrun, hd, ?_⟩
    rw [gathered, package_run_eq hsplit hrun hd, List.nil_append]

/-- A walk that returns has left the packages, and returns their name. -/
theorem guess_ok {fs : FileSystem} {fuel : Nat} {file : Path} {m : Option String}
    (h : (guess_module_name fs fuel file).run = some (.ok m)) :
    LeavesPackages fs file ∧ m = dotted (package_run fs file) file.stem := by
  obtain ⟨parts, hparts, rfl⟩ := guess_eq_ok.1 h
  obtain ⟨hleaves, rfl⟩ := climb_eq_ok.1 ⟨fuel, hparts⟩
  refine ⟨hleaves, ?_⟩
  simp [dotted]

theorem guess_of_leaves {fs : FileSystem} {file : Path} (h : LeavesPackages fs file) :
    ∃ fuel, (guess_module_name fs fuel file).run = some (.ok (dotted (package_run fs file) file.stem)) := by
  obtain ⟨fuel, hfuel⟩ := climb_eq_ok.2 ⟨h, rfl⟩
  refine ⟨fuel, guess_eq_ok.2 ⟨_, hfuel, ?_⟩⟩
  simp [dotted]

theorem guess_never_iff {fs : FileSystem} {file : Path} : (∀ fuel, (guess_module_name fs fuel file).run = none) ↔
    ∀ d ∈ file.parent.ancestors, fs.is_file (d / "__init__.py") = .ok true := by
  simp only [guess_eq_none]
  exact Climb.climb_never_iff (Path.ascent _)

/-- For every file system and every file: the loop ends and returns the dotted
names of the packages above the file exactly when a directory on the way up is
no package; it never ends exactly when all of them are. -/
theorem guess_module_name_iff (fs : FileSystem) (file : Path) :
    ((∃ fuel, (guess_module_name fs fuel file).run = some (.ok (dotted (package_run fs file) file.stem))) ↔
        LeavesPackages fs file) ∧
      ((∀ fuel, (guess_module_name fs fuel file).run = none) ↔
        ∀ d ∈ file.parent.ancestors, fs.is_file (d / "__init__.py") = .ok true) := by
  refine ⟨⟨?_, guess_of_leaves⟩, guess_never_iff⟩
  rintro ⟨fuel, h⟩
  exact (guess_ok h).1

/-! ## A package in a package -/

/-- The working directory is a package, and so is `myapp`, which has a
`tasks.py`. -/
def nested_checkout : FileSystem where
  is_file p := .ok (p ∈ [⟨"", ["__init__.py"]⟩, ⟨"", ["myapp", "__init__.py"]⟩, ⟨"", ["myapp", "tasks.py"]⟩])
  is_dir p := .ok (p ∈ [⟨"", []⟩, ⟨"", ["myapp"]⟩])
  is_symlink _ := .ok false
  listdir p := .ok (if p = ⟨"", []⟩ then ["__init__.py", "myapp"] else ["__init__.py", "tasks.py"])
  stat _ := .ok 0
  read_text _ := .ok (some "")

/-- The scan of `myapp` never names the module of `myapp/tasks.py`. -/
theorem walk_never_ends :
    candidate_files nested_checkout ⟨"", ["myapp"]⟩ = .ok [⟨"", ["myapp", "tasks.py"]⟩] ∧
      ∀ fuel, (guess_module_name nested_checkout fuel ⟨"", ["myapp", "tasks.py"]⟩).run = none := by
  constructor
  · decide
  · intro fuel
    rw [guess_eq_none]
    exact Climb.climb_passes (Path.ascent _) (by decide) fuel []

end Z4jCelery.Discovery
