import Z4jCelery.Discovery.ModuleName
/-!
# What a scan finds

The scan of some paths finds, file by file, what the scan of the file alone
finds (`discover_static_mem`), and ends when the walk above each file does.
-/

namespace Z4jCelery.Discovery

open Py Lib Z4jCelery.Core

/-! ## The module name -/

theorem guess_steady (fs : FileSystem) (file : Path) : Steady fun n => guess_module_name fs n file := by
  apply Steady.bind
  · intro n n' r hle h
    exact Climb.climb_mono hle h
  · exact fun _ => .const _

theorem guess_ends_iff {fs : FileSystem} {file : Path} : (Ends fun n => guess_module_name fs n file) ↔
    ∃ d ∈ file.parent.ancestors, fs.is_file (d / "__init__.py") ≠ .ok true := by
  rw [ends_iff, guess_never_iff]
  push Not
  rfl

/-! ## One file -/

theorem scan_steady (w : World) (file : Path) : Steady fun n => scan_file w n file := by
  apply Steady.bind (.const _)
  intro tree?
  cases tree? with
  | none => exact .const _
  | some tree => exact (guess_steady w.fs file).bind fun _ => .const _

/-- The file is skipped, or the walk above it does not stay in packages. -/
def ScanEnds (w : World) (file : Path) : Prop :=
  ∀ tree, read_tree w file = .ok (some tree) → ∃ d ∈ file.parent.ancestors, w.fs.is_file (d / "__init__.py") ≠ .ok true

/-- Defining the decorated functions of a file under a module name. -/
def define_tasks (w : World) (file : Path) (tree : Node) (module_name : Option String) : LoopM (List TaskDefinition) :=
  LoopM.of ((decorated tree).mapM fun node => w.task_definition.make (static_definition w file module_name node))

theorem scan_of_read {w : World} {file : Path} {tree : Node} (hread : read_tree w file = .ok (some tree)) (n : Nat) :
    (scan_file w n file).run = (guess_module_name w.fs n file >>= define_tasks w file tree).run := by
  unfold scan_file
  rw [hread, LoopM.bind_run_ok _ (LoopM.of_run _)]
  rfl

theorem scan_ends_iff {w : World} {file : Path} : (Ends fun n => scan_file w n file) ↔ ScanEnds w file := by
  constructor
  · rintro ⟨n, r, hn⟩ tree hread
    rw [scan_of_read hread] at hn
    exact guess_ends_iff.1 (Ends.left (k := fun _ => define_tasks w file tree) ⟨n, r, hn⟩)
  · intro h
    rcases hread : read_tree w file with e | _ | tree
    · exact ⟨0, .error e, LoopM.bind_run_error _ (congrArg some hread)⟩
    · refine ⟨0, .ok [], ?_⟩
      unfold scan_file
      rw [hread]
      rfl
    · have hguess := guess_ends_iff.2 (h tree hread)
      obtain ⟨n, r, hn⟩ := Ends.bind (k := fun _ => define_tasks w file tree) (guess_steady w.fs file)
        (fun _ => .const _) hguess fun _ => .const _
      exact ⟨n, r, (scan_of_read hread n).trans hn⟩

theorem scan_unloaded {w : World} {n : Nat} {file : Path} {ds : List TaskDefinition}
    (h : (scan_file w n file).run = some (.ok ds)) : ∀ d ∈ ds, d.loaded = false := by
  obtain ⟨tree?, _, htree⟩ := LoopM.bind_eq_ok.1 h
  cases tree? with
  | none =>
    obtain rfl : [] = ds := by simpa using htree
    simp
  | some tree =>
    obtain ⟨m, _, hds⟩ := LoopM.bind_eq_ok.1 htree
    rw [(TaskModel.mapM_make.1 (Option.some.inj hds)).2]
    simp [static_definition]

/-- What the model keeps of a function's definition. -/
def kept_definition (w : World) (file : Path) (module_name : Option String) (f : FunctionDef) : TaskDefinition :=
  w.task_definition.kept (static_definition w file module_name f)

/-- A file that is scanned gives the definitions of its decorated functions, if
the model accepts them all. -/
theorem scan_eq_ok {w : World} {n : Nat} {file : Path} {tree : Node} (hread : read_tree w file = .ok (some tree))
    {ds : List TaskDefinition} : (scan_file w n file).run = some (.ok ds) ↔ ∃ m,
      (guess_module_name w.fs n file).run = some (.ok m) ∧
        (∀ f ∈ decorated tree, w.task_definition.check (static_definition w file m f) = .ok ()) ∧
          ds = (decorated tree).map (kept_definition w file m) := by
  rw [scan_of_read hread, LoopM.bind_eq_ok]
  simp only [define_tasks, LoopM.of_run, Option.some.injEq, TaskModel.mapM_make]
  rfl

/-! ## Several files -/

theorem scan_files_steady (w : World) (files : List Path) : Steady fun n => scan_files w n files := by
  induction files with
  | nil => exact .const _
  | cons file files ih => exact (scan_steady w file).catch.bind fun _ => ih.bind fun _ => .const _

theorem discover_static_steady (w : World) (app_paths : List Path) : Steady fun n => discover_static w n app_paths := by
  induction app_paths with
  | nil => exact .const _
  | cons root app_paths ih =>
    exact (Steady.const _).bind fun files => (scan_files_steady w files).bind fun _ => ih.bind fun _ => .const _

/-- The definitions of one file, none when the scan raised. -/
theorem caught_eq_ok {w : World} {n : Nat} {file : Path} {r : Except Exn (List TaskDefinition)}
    (h : (tryCatch (scan_file w n file) fun _ => LoopM.of (.ok [])).run = some r) :
    (∃ e, (scan_file w n file).run = some (.error e) ∧ r = .ok []) ∨
      ∃ ds, (scan_file w n file).run = some (.ok ds) ∧ r = .ok ds := by
  rw [LoopM.catch_run] at h
  rcases hrun : (scan_file w n file).run with _ | e | ds <;> rw [hrun] at h
  · cases h
  · exact .inl ⟨e, rfl, (Option.some.inj h).symm⟩
  · exact .inr ⟨ds, rfl, (Option.some.inj h).symm⟩

theorem scan_files_contains {w : World} {n n' : Nat} {files : List Path} {file : Path} {ds found : List TaskDefinition}
    (h : (scan_files w n files).run = some (.ok ds)) (hfile : file ∈ files)
    (hfound : (scan_file w n' file).run = some (.ok found)) : found <:+: ds := by
  induction files generalizing ds with
  | nil => cases hfile
  | cons first files ih =>
    obtain ⟨definitions, hfirst, h⟩ := LoopM.bind_eq_ok.1 h
    obtain ⟨rest, hrest, h⟩ := LoopM.bind_eq_ok.1 h
    obtain rfl : definitions ++ rest = ds := by simpa using h
    rcases List.mem_cons.1 hfile with rfl | hfile
    · rcases caught_eq_ok hfirst with ⟨e, he, _⟩ | ⟨ds, hds, hdefinitions⟩
      · cases (scan_steady w file).unique hfound he
      · obtain rfl := Except.ok.inj ((scan_steady w file).unique hfound hds)
        obtain rfl := Except.ok.inj hdefinitions
        exact (List.prefix_append _ _).isInfix
    · exact (ih hrest hfile).trans (List.suffix_append _ _).isInfix

/-- Every definition comes from the scan of one of the files. -/
theorem mem_scan_files {w : World} {n : Nat} {files : List Path} {ds : List TaskDefinition} {d : TaskDefinition}
    (h : (scan_files w n files).run = some (.ok ds)) (hd : d ∈ ds) :
    ∃ file ∈ files, ∃ found, (scan_file w n file).run = some (.ok found) ∧ d ∈ found := by
  induction files generalizing ds with
  | nil =>
    obtain rfl : [] = ds := by simpa [scan_files] using h
    cases hd
  | cons first files ih =>
    obtain ⟨definitions, hfirst, h⟩ := LoopM.bind_eq_ok.1 h
    obtain ⟨rest, hrest, h⟩ := LoopM.bind_eq_ok.1 h
    obtain rfl : definitions ++ rest = ds := by simpa using h
    rcases List.mem_append.1 hd with hd | hd
    · rcases caught_eq_ok hfirst with ⟨_, _, hdefinitions⟩ | ⟨found, hfound, hdefinitions⟩
      · obtain rfl := Except.ok.inj hdefinitions
        cases hd
      · obtain rfl := Except.ok.inj hdefinitions
        exact ⟨first, by simp, definitions, hfound, hd⟩
    · obtain ⟨file, hfile, hfound⟩ := ih hrest hd
      exact ⟨file, List.mem_cons_of_mem _ hfile, hfound⟩

theorem caught_ends_iff {w : World} {file : Path} :
    (Ends fun n => tryCatch (scan_file w n file) fun _ => LoopM.of (.ok [])) ↔ ScanEnds w file := by
  rw [← scan_ends_iff]
  constructor
  · rintro ⟨n, r, hn⟩
    rcases caught_eq_ok hn with ⟨e, he, _⟩ | ⟨ds, hds, _⟩
    · exact ⟨n, _, he⟩
    · exact ⟨n, _, hds⟩
  · exact Ends.catch

/-- The scan of some files gives a list exactly when the scan of each of them ends. -/
theorem scan_files_ends_iff {w : World} {files : List Path} :
    (∃ n ds, (scan_files w n files).run = some (.ok ds)) ↔ ∀ file ∈ files, ScanEnds w file := by
  induction files with
  | nil => simp [scan_files]
  | cons file files ih =>
    rw [List.forall_mem_cons, ← ih]
    constructor
    · rintro ⟨n, ds, h⟩
      obtain ⟨definitions, hfirst, h⟩ := LoopM.bind_eq_ok.1 h
      obtain ⟨rest, hrest, _⟩ := LoopM.bind_eq_ok.1 h
      exact ⟨caught_ends_iff.1 ⟨n, _, hfirst⟩, n, rest, hrest⟩
    · rintro ⟨hfile, n', rest, hrest⟩
      obtain ⟨n, r, hn⟩ := caught_ends_iff.2 hfile
      obtain ⟨definitions, rfl⟩ : ∃ definitions, r = .ok definitions := by
        rcases caught_eq_ok hn with ⟨_, _, hr⟩ | ⟨ds, _, hr⟩
        · exact ⟨[], hr⟩
        · exact ⟨ds, hr⟩
      refine ⟨max n n', definitions ++ rest, LoopM.bind_eq_ok.2 ⟨definitions, ?_, LoopM.bind_eq_ok.2 ⟨rest, ?_, rfl⟩⟩⟩
      · exact (scan_steady w file).catch n _ _ (by omega) hn
      · exact scan_files_steady w files n' _ _ (by omega) hrest

/-! ## The files below a root -/

theorem mem_passing {probe : Path → Except Exn Bool} {ps r : List Path} (h : passing probe ps = .ok r) (p : Path) :
    p ∈ r ↔ p ∈ ps ∧ probe p = .ok true := by
  induction ps generalizing r with
  | nil =>
    obtain rfl : [] = r := Except.ok.inj h
    simp
  | cons q ps ih =>
    obtain ⟨pass, hpass, h⟩ := except_bind_eq_ok.1 h
    obtain ⟨rest, hrest, h⟩ := except_bind_eq_ok.1 h
    obtain rfl : (if pass then q :: rest else rest) = r := Except.ok.inj h
    have hmem : ∀ b : Bool, (p ∈ if b then q :: rest else rest) ↔ (p = q ∧ b = true) ∨ p ∈ rest := by
      rintro (_ | _) <;> simp
    rw [hmem, ih hrest, List.mem_cons, or_and_right]
    apply or_congr_left
    constructor
    · rintro ⟨rfl, rfl⟩
      exact ⟨rfl, hpass⟩
    · rintro ⟨rfl, hp⟩
      exact ⟨rfl, Except.ok.inj (hpass.symm.trans hp)⟩

/-! ## Several roots -/

theorem discover_static_cons {w : World} {n : Nat} {root : Path} {app_paths : List Path} {ds : List TaskDefinition} :
    (discover_static w n (root :: app_paths)).run = some (.ok ds) ↔ ∃ files definitions rest,
      candidate_files w.fs root = .ok files ∧ (scan_files w n files).run = some (.ok definitions) ∧
        (discover_static w n app_paths).run = some (.ok rest) ∧ definitions ++ rest = ds := by
  rw [discover_static]
  simp only [LoopM.bind_eq_ok, LoopM.of_run, LoopM.pure_run, Option.some.injEq, Except.ok.injEq]
  constructor
  · rintro ⟨files, hfiles, definitions, hdefinitions, rest, hrest, hds⟩
    exact ⟨files, definitions, rest, hfiles, hdefinitions, hrest, hds⟩
  · rintro ⟨files, definitions, rest, hfiles, hdefinitions, hrest, hds⟩
    exact ⟨files, hfiles, definitions, hdefinitions, rest, hrest, hds⟩

theorem discover_static_contains {w : World} {n n' : Nat} {app_paths files : List Path} {root file : Path}
    {ds found : List TaskDefinition} (h : (discover_static w n app_paths).run = some (.ok ds)) (hroot : root ∈ app_paths)
    (hfiles : candidate_files w.fs root = .ok files) (hfile : file ∈ files)
    (hfound : (scan_file w n' file).run = some (.ok found)) : found <:+: ds := by
  induction app_paths generalizing ds with
  | nil => cases hroot
  | cons first app_paths ih =>
    obtain ⟨_, definitions, rest, hfirst, hdefinitions, hrest, rfl⟩ := discover_static_cons.1 h
    rcases List.mem_cons.1 hroot with rfl | hroot
    · obtain rfl := Except.ok.inj (hfirst.symm.trans hfiles)
      exact (scan_files_contains hdefinitions hfile hfound).trans (List.prefix_append _ _).isInfix
    · exact (ih hrest hroot).trans (List.suffix_append _ _).isInfix

/-- Every path can be searched for task files, and the scan of each of them ends. -/
def ScansEnd (w : World) (app_paths : List Path) : Prop :=
  ∀ root ∈ app_paths, ∃ files, candidate_files w.fs root = .ok files ∧ ∀ file ∈ files, ScanEnds w file

/-- The static scan gives a list exactly when nothing in its way raises or runs
for ever. -/
theorem discover_static_ends_iff {w : World} {app_paths : List Path} :
    (∃ n ds, (discover_static w n app_paths).run = some (.ok ds)) ↔ ScansEnd w app_paths := by
  induction app_paths with
  | nil => simp [ScansEnd, discover_static]
  | cons root app_paths ih =>
    rw [ScansEnd, List.forall_mem_cons, ← ScansEnd, ← ih]
    simp only [discover_static_cons]
    constructor
    · rintro ⟨n, _, files, definitions, rest, hfiles, hdefinitions, hrest, rfl⟩
      exact ⟨⟨files, hfiles, scan_files_ends_iff.1 ⟨n, definitions, hdefinitions⟩⟩, n, rest, hrest⟩
    · rintro ⟨⟨files, hfiles, hends⟩, n', rest, hrest⟩
      obtain ⟨n, definitions, hdefinitions⟩ := scan_files_ends_iff.2 hends
      refine ⟨max n n', definitions ++ rest, files, definitions, rest, hfiles, ?_, ?_, rfl⟩
      · exact scan_files_steady w files n _ _ (by omega) hdefinitions
      · exact discover_static_steady w app_paths n' _ _ (by omega) hrest

/-- Every definition comes from the scan of a candidate below a root. -/
theorem mem_discover_static {w : World} {n : Nat} {app_paths : List Path} {ds : List TaskDefinition} {d : TaskDefinition}
    (h : (discover_static w n app_paths).run = some (.ok ds)) (hd : d ∈ ds) :
    ∃ root ∈ app_paths, ∃ files, candidate_files w.fs root = .ok files ∧
      ∃ file ∈ files, ∃ found, (scan_file w n file).run = some (.ok found) ∧ d ∈ found := by
  induction app_paths generalizing ds with
  | nil =>
    obtain rfl : [] = ds := by simpa [discover_static] using h
    cases hd
  | cons first app_paths ih =>
    obtain ⟨files, definitions, rest, hfiles, hdefinitions, hrest, rfl⟩ := discover_static_cons.1 h
    rcases List.mem_append.1 hd with hd | hd
    · exact ⟨first, by simp, files, hfiles, mem_scan_files hdefinitions hd⟩
    · obtain ⟨root, hroot, hfound⟩ := ih hrest hd
      exact ⟨root, List.mem_cons_of_mem _ hroot, hfound⟩

/-- The static scan never marks a task as loaded. -/
theorem static_unloaded {w : World} {n : Nat} {app_paths : List Path} {ds : List TaskDefinition}
    (h : (discover_static w n app_paths).run = some (.ok ds)) : ∀ d ∈ ds, d.loaded = false := by
  intro d hd
  obtain ⟨_, _, _, _, _, _, found, hfound, hd⟩ := mem_discover_static h hd
  exact scan_unloaded hfound d hd

/-! ## A shop -/

/-- `/srv/shop` is a package with a `tasks.py`. -/
def shop_fs : FileSystem where
  is_file p := .ok (p ∈ [⟨"/", ["srv", "shop", "__init__.py"]⟩, ⟨"/", ["srv", "shop", "tasks.py"]⟩])
  is_dir p := .ok (p = ⟨"/", ["srv", "shop"]⟩)
  is_symlink _ := .ok false
  listdir _ := .ok ["__init__.py", "tasks.py"]
  stat _ := .ok 80
  read_text _ := .ok (some "")

/-- Every file has the tree. -/
def shop (tree : Node) : World where
  fs := shop_fs
  parse _ := .ok (some tree)
  unparse _ := .ok ""
  task_definition := .lenient

def shop_dir : Path := ⟨"/", ["srv", "shop"]⟩

def shop_tasks : Path := ⟨"/", ["srv", "shop", "tasks.py"]⟩

/-- `@shared_task(keyword="value")` over `def send()`. -/
def send (keyword : Ident) (value : String) : FunctionDef where
  name := ⟨"send", by decide⟩
  args := ⟨[], [], none, [], none⟩
  decorator_list := [.call (.name ⟨"shared_task", by decide⟩) [(some keyword, .constant (.str value))]]

def module_of (f : FunctionDef) : Node := .other [.function f []]

theorem decorated_send (keyword : Ident) (value : String) :
    decorated (module_of (send keyword value)) = [send keyword value] := by
  have htask : has_task_decorator (send keyword value) = true := rfl
  simp [decorated, functions, module_of, ast_walk, Node.children, htask]

/-- The scan of the shop, for enough turns. -/
theorem shop_static (tree : Node) : (discover_static (shop tree) 2 [shop_dir]).run =
    some (.ok ((decorated tree).map (static_definition (shop tree) shop_tasks (some "shop.tasks")))) := by
  have hlisted : candidate_files shop_fs shop_dir = .ok [shop_tasks] := by decide
  have hname : (guess_module_name shop_fs 2 shop_tasks).run = some (.ok (some "shop.tasks")) := by rfl
  have hkept : kept_definition (shop tree) shop_tasks (some "shop.tasks") =
      static_definition (shop tree) shop_tasks (some "shop.tasks") := funext fun _ => TaskModel.lenient_kept _
  rw [← hkept]
  have hscan := (@scan_eq_ok (shop tree) 2 shop_tasks tree rfl _).2 ⟨_, hname, fun _ _ => rfl, rfl⟩
  have hcaught := LoopM.catch_run (scan_file (shop tree) 2 shop_tasks) fun _ => LoopM.of (.ok [])
  rw [hscan] at hcaught
  refine discover_static_cons.2 ⟨[shop_tasks], _, [], hlisted, ?_, rfl, List.append_nil _⟩
  refine LoopM.bind_eq_ok.2 ⟨_, hcaught, LoopM.bind_eq_ok.2 ⟨[], rfl, ?_⟩⟩
  rw [List.append_nil]
  rfl

end Z4jCelery.Discovery
