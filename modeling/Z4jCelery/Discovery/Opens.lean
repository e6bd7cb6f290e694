import Z4jCelery.Discovery.Scan
import Z4jCelery.Discovery.Tree
/-!
# What a scan opens

`discover_static` reads a file after it looked at its kind and size. `opened`
lists the files that it reads for each root; nothing else of what could be read
matters for the result (`discover_static_reads`). In the `tasks` directory the
kind is not checked. `opens_confined_iff` has both: it says on which directory
trees every file that is opened is a regular one.
-/

namespace Z4jCelery.Discovery

open Py Lib Z4jCelery.Core

/-! ## Opened files -/

/-- `_scan_file` gets to `file_path.read_text(...)`. -/
def opens (fs : FileSystem) (file_path : Path) : Bool :=
  match small_enough fs file_path with
  | .ok small => small
  | .error _ => false

theorem opens_iff {fs : FileSystem} {file_path : Path} : opens fs file_path = true ↔
    ∃ st_size, fs.stat file_path = .ok st_size ∧ st_size ≤ MAX_TASKS_FILE_BYTES := by
  rw [opens, small_enough]
  cases fs.stat file_path with
  | ok st_size => simp
  | error e => cases h : e.isa .OSError <;> simp [h]

/-- The files of a root that are opened, one scan after another as they end. -/
def opened_files (w : World) (fuel : Nat) : List Path → List Path
  | [] => []
  | file_path :: files =>
    let rest := match (scan_file w fuel file_path).run with
      | some _ => opened_files w fuel files
      | none => []
    if opens w.fs file_path then file_path :: rest else rest

/-- The roots that `discover_static` comes to, with the files opened for each. -/
def opened (w : World) (fuel : Nat) : List Path → List (Path × List Path)
  | [] => []
  | root :: app_paths =>
    match candidate_files w.fs root with
    | .error _ => []
    | .ok files =>
      (root, opened_files w fuel files) ::
        match (scan_files w fuel files).run with
        | some _ => opened w fuel app_paths
        | none => []

/-- The same world with other contents. -/
def World.reading (w : World) (read_text : Path → Except Exn (Option String)) : World :=
  { w with fs := { w.fs with read_text := read_text } }

section Reads
variable {w : World} {read_text : Path → Except Exn (Option String)} {fuel : Nat}

theorem read_tree_reading {file_path : Path}
    (h : opens w.fs file_path = true → read_text file_path = w.fs.read_text file_path) :
    read_tree (w.reading read_text) file_path = read_tree w file_path := by
  have hsize : small_enough (w.reading read_text).fs file_path = small_enough w.fs file_path := rfl
  have hread : (w.reading read_text).fs.read_text file_path = read_text file_path := rfl
  unfold read_tree
  rw [hsize, hread]
  rcases hsmall : small_enough w.fs file_path with e | _ | _
  · rfl
  · rfl
  · have hopens : opens w.fs file_path = true := by rw [opens, hsmall]
    rw [h hopens]
    rfl

theorem scan_file_reading {file_path : Path}
    (h : opens w.fs file_path = true → read_text file_path = w.fs.read_text file_path) :
    scan_file (w.reading read_text) fuel file_path = scan_file w fuel file_path := by
  rw [scan_file, scan_file, read_tree_reading h]
  rfl

theorem scan_files_reading {files : List Path}
    (h : ∀ p ∈ opened_files w fuel files, read_text p = w.fs.read_text p) :
    scan_files (w.reading read_text) fuel files = scan_files w fuel files := by
  induction files with
  | nil => rfl
  | cons file_path files ih =>
    have hfile : opens w.fs file_path = true → read_text file_path = w.fs.read_text file_path := by
      intro hopens
      apply h
      rw [opened_files, if_pos hopens]
      exact List.mem_cons_self
    rw [scan_files, scan_files, scan_file_reading hfile]
    cases hrun : (scan_file w fuel file_path).run with
    | none =>
      -- The first scan does not end, and the others do not begin.
      have hcaught := LoopM.catch_run (scan_file w fuel file_path) fun _ => LoopM.of (.ok [])
      rw [hrun] at hcaught
      apply ExceptT.ext
      rw [LoopM.bind_eq_none.2 (.inl hcaught), LoopM.bind_eq_none.2 (.inl hcaught)]
    | some r =>
      have hrest : ∀ p ∈ opened_files w fuel files, read_text p = w.fs.read_text p := by
        intro p hp
        apply h
        rw [opened_files, hrun]
        split
        · exact List.mem_cons_of_mem _ hp
        · exact hp
      rw [ih hrest]

/-- Looking for files reads none. -/
theorem candidate_files_reading (w : World) (read_text : Path → Except Exn (Option String)) (root : Path) :
    candidate_files (w.reading read_text).fs root = candidate_files w.fs root := rfl

/-- The result depends on the contents of the opened files alone. -/
theorem discover_static_reads {app_paths : List Path}
    (h : ∀ turn ∈ opened w fuel app_paths, ∀ p ∈ turn.2, read_text p = w.fs.read_text p) :
    discover_static (w.reading read_text) fuel app_paths = discover_static w fuel app_paths := by
  induction app_paths with
  | nil => rfl
  | cons root app_paths ih =>
    rw [discover_static, discover_static, candidate_files_reading]
    rw [opened] at h
    apply ExceptT.ext
    cases hfiles : candidate_files w.fs root with
    | error e => rw [LoopM.bind_run_error _ (LoopM.of_run _), LoopM.bind_run_error _ (LoopM.of_run _)]
    | ok files =>
      rw [hfiles] at h
      simp only [List.forall_mem_cons] at h
      rw [LoopM.bind_run_ok _ (LoopM.of_run _), LoopM.bind_run_ok _ (LoopM.of_run _), scan_files_reading h.1]
      cases hrun : (scan_files w fuel files).run with
      | none => rw [LoopM.bind_eq_none.2 (.inl hrun), LoopM.bind_eq_none.2 (.inl hrun)]
      | some r =>
        rw [hrun] at h
        rw [ih h.2]

end Reads

/-! ## Confinement -/

/-- A regular file of at most 2 MiB, in a place of the root where task files are
looked for. -/
structure Confined (tree : Tree) (root p : Path) : Prop where
  regular : ∃ st_size, tree.entry p = some (.inode ⟨.regular, st_size⟩) ∧ st_size ≤ MAX_TASKS_FILE_BYTES
  own_root : ∃ names, tree.OwnDirectory root names
  place : (∃ name ∈ CANDIDATE_FILENAMES, p = root / name) ∨
    ∃ name names, p = root / "tasks" / name ∧ endswith name ".py" = true ∧ tree.OwnDirectory (root / "tasks") names

/-- In the root's `tasks` directory, every small enough `*.py` that is scanned
and is no symlink is a regular file. -/
def OnlyFiles (tree : Tree) (root : Path) : Prop :=
  ∀ top names, tree.OwnDirectory root top → tree.OwnDirectory (root / "tasks") names →
    ∀ name ∈ names, endswith name ".py" = true → (name = "__init__.py" ∨ startswith name "_" = false) →
      ∀ i, tree.entry (root / "tasks" / name) = some (.inode i) → i.st_size ≤ MAX_TASKS_FILE_BYTES → i.kind = .regular

section Candidates
variable {tree : Tree} {fs : FileSystem} {root : Path} {files : List Path}

theorem is_own_eq_true {probe : Path → Except Exn Bool} {p : Path} :
    is_own fs probe p = .ok true ↔ probe p = .ok true ∧ fs.is_symlink p = .ok false := by
  unfold is_own
  rw [except_bind_eq_ok]
  constructor
  · rintro ⟨b, hb, h⟩
    cases b with
    | false => cases h
    | true =>
      obtain ⟨link, hlink, h⟩ := except_bind_eq_ok.1 h
      cases link with
      | false => exact ⟨hb, hlink⟩
      | true => cases h
  · rintro ⟨hb, hlink⟩
    exact ⟨true, hb, except_bind_eq_ok.2 ⟨false, hlink, rfl⟩⟩

theorem own_directory (hfs : Reflects fs tree) {p : Path} (h : is_own fs fs.is_dir p = .ok true) :
    ∃ names, tree.OwnDirectory p names := by
  obtain ⟨hdir, hlink⟩ := is_own_eq_true.1 h
  obtain ⟨names, st_size, hfollow⟩ := (hfs.is_dir p true hdir).1 rfl
  exact ⟨names, st_size, entry_of_follow hfs hlink hfollow⟩

theorem passing_sublist {probe : Path → Except Exn Bool} {ps r : List Path} (h : passing probe ps = .ok r) :
    r.Sublist ps := by
  induction ps generalizing r with
  | nil =>
    obtain rfl : [] = r := Except.ok.inj h
    exact List.Sublist.refl _
  | cons p ps ih =>
    obtain ⟨pass, -, h⟩ := except_bind_eq_ok.1 h
    obtain ⟨rest, hrest, h⟩ := except_bind_eq_ok.1 h
    obtain rfl : (if pass then p :: rest else rest) = r := Except.ok.inj h
    cases pass with
    | true => exact (ih hrest).cons_cons p
    | false => exact (ih hrest).cons p

theorem is_own_eq_false {probe : Path → Except Exn Bool} {p : Path} (h : probe p = .ok false) :
    is_own fs probe p = .ok false := by
  rw [is_own, h]
  rfl

/-- The two ways to look for files, in turn. -/
theorem candidate_files_ok : candidate_files fs root = .ok files ↔
    (is_own fs fs.is_dir root = .ok false ∧ files = []) ∨
      is_own fs fs.is_dir root = .ok true ∧ ∃ top,
        passing (is_own fs fs.is_file) (CANDIDATE_FILENAMES.map (root / ·)) = .ok top ∧
          ((is_own fs fs.is_dir (root / "tasks") = .ok false ∧ files = top) ∨
            is_own fs fs.is_dir (root / "tasks") = .ok true ∧ ∃ listed modules,
              fs.listdir (root / "tasks") = .ok listed ∧
                passing (is_task_module fs) ((listed.filter (endswith · ".py")).map (root / "tasks" / ·)) = .ok modules ∧
                  files = top ++ modules) := by
  unfold candidate_files
  rw [except_bind_eq_ok]
  constructor
  · rintro ⟨isdir, hdir, h⟩
    cases isdir with
    | false => exact .inl ⟨hdir, (Except.ok.inj h).symm⟩
    | true =>
      obtain ⟨top, htop, h⟩ := except_bind_eq_ok.1 h
      obtain ⟨ispkg, hpkg, h⟩ := except_bind_eq_ok.1 h
      refine .inr ⟨hdir, top, htop, ?_⟩
      cases ispkg with
      | false => exact .inl ⟨hpkg, (Except.ok.inj h).symm⟩
      | true =>
        obtain ⟨listed, hlisted, h⟩ := except_bind_eq_ok.1 h
        obtain ⟨modules, hmodules, h⟩ := except_bind_eq_ok.1 h
        exact .inr ⟨hpkg, listed, modules, hlisted, hmodules, (Except.ok.inj h).symm⟩
  · rintro (⟨hdir, rfl⟩ | ⟨hdir, top, htop, ⟨hpkg, rfl⟩ | ⟨hpkg, listed, modules, hlisted, hmodules, rfl⟩⟩)
    · exact ⟨false, hdir, rfl⟩
    · exact ⟨true, hdir, except_bind_eq_ok.2 ⟨_, htop, except_bind_eq_ok.2 ⟨false, hpkg, rfl⟩⟩⟩
    · exact ⟨true, hdir, except_bind_eq_ok.2 ⟨_, htop, except_bind_eq_ok.2 ⟨true, hpkg,
        except_bind_eq_ok.2 ⟨_, hlisted, except_bind_eq_ok.2 ⟨_, hmodules, rfl⟩⟩⟩⟩⟩

theorem is_task_module_eq_true {p : Path} : is_task_module fs p = .ok true ↔
    fs.is_symlink p = .ok false ∧ (p.name = "__init__.py" ∨ startswith p.name "_" = false) := by
  unfold is_task_module
  rw [except_bind_eq_ok]
  constructor
  · rintro ⟨link, hlink, h⟩
    cases link with
    | true => cases h
    | false => exact ⟨hlink, by simpa using Except.ok.inj h⟩
  · rintro ⟨hlink, hname⟩
    exact ⟨false, hlink, congrArg Except.ok (by simpa using hname)⟩

theorem div_injective (p : Path) : Function.Injective (p / · : String → Path) := by
  intro name name' h
  have hname := congrArg Path.name h
  simpa using hname

theorem div_ne_self (p : Path) (name : String) : p / name ≠ p := by
  intro h
  have hlen := congrArg (fun q : Path => q.parts.length) h
  simp [HDiv.hDiv] at hlen

/-- No file is looked at twice. -/
theorem candidate_files_nodup (hfs : Reflects fs tree) (h : candidate_files fs root = .ok files) : files.Nodup := by
  rcases candidate_files_ok.1 h with ⟨-, rfl⟩ | ⟨-, top, htop, hrest⟩
  · exact List.nodup_nil
  · have hnames : CANDIDATE_FILENAMES.Nodup := by decide
    have htops : top.Nodup := (hnames.map (div_injective root)).sublist (passing_sublist htop)
    rcases hrest with ⟨-, rfl⟩ | ⟨-, listed, modules, hlisted, hmodules, rfl⟩
    · exact htops
    · obtain ⟨names, st_size, hfollow, l, hperm, hsub⟩ := hfs.listdir _ _ hlisted
      have hlistednd : listed.Nodup := hperm.nodup_iff.1 ((tree.names_nodup _ _ _ hfollow).sublist hsub)
      have hmodulesnd : modules.Nodup :=
        ((hlistednd.filter _).map (div_injective (root / "tasks"))).sublist (passing_sublist hmodules)
      refine List.nodup_append.2 ⟨htops, hmodulesnd, ?_⟩
      -- a candidate is in the root, a module in its `tasks` directory
      rintro p hp q hq rfl
      obtain ⟨name, -, rfl⟩ := List.mem_map.1 ((passing_sublist htop).subset hp)
      obtain ⟨name', -, he⟩ := List.mem_map.1 ((passing_sublist hmodules).subset hq)
      have hparent := congrArg Path.parent he
      rw [Path.parent_div, Path.parent_div] at hparent
      exact div_ne_self root "tasks" hparent

/-- A file that is looked at and opened. -/
theorem candidate_confined (hfs : Reflects fs tree) (h : candidate_files fs root = .ok files) (honly : OnlyFiles tree root)
    {p : Path} (hp : p ∈ files) (hopens : opens fs p = true) : Confined tree root p := by
  obtain ⟨st_size, hstat, hsize⟩ := opens_iff.1 hopens
  obtain ⟨i, hfollow, rfl⟩ := hfs.stat p st_size hstat
  rcases candidate_files_ok.1 h with ⟨-, rfl⟩ | ⟨hroot, top, htop, hrest⟩
  · cases hp
  · have htopcase : p ∈ top → Confined tree root p := by
      intro hp
      obtain ⟨hmem, hown⟩ := (mem_passing htop p).1 hp
      obtain ⟨hfile, hlink⟩ := is_own_eq_true.1 hown
      obtain ⟨st_size, hregular⟩ := (hfs.is_file p true hfile).1 rfl
      obtain rfl : i = ⟨.regular, st_size⟩ := Option.some.inj (hfollow.symm.trans hregular)
      obtain ⟨name, hname, rfl⟩ := List.mem_map.1 hmem
      exact ⟨⟨st_size, entry_of_follow hfs hlink hfollow, hsize⟩, own_directory hfs hroot, .inl ⟨name, hname, rfl⟩⟩
    rcases hrest with ⟨-, rfl⟩ | ⟨hpkg, listed, modules, hlisted, hmodules, rfl⟩
    · exact htopcase hp
    · rcases List.mem_append.1 hp with hp | hp
      · exact htopcase hp
      · obtain ⟨hmem, hmodule⟩ := (mem_passing hmodules p).1 hp
        obtain ⟨hlink, hname⟩ := is_task_module_eq_true.1 hmodule
        have hentry := entry_of_follow hfs hlink hfollow
        obtain ⟨name, hlistedname, rfl⟩ := List.mem_map.1 hmem
        obtain ⟨hname_listed, hpy⟩ := List.mem_filter.1 hlistedname
        obtain ⟨names, dir_size, hdir⟩ := own_directory hfs hpkg
        obtain ⟨names', dir_size', hfollow', l, hperm, hsub⟩ := hfs.listdir _ _ hlisted
        have hsame : some (⟨.directory names, dir_size⟩ : Inode) = some ⟨.directory names', dir_size'⟩ := by
          rw [← hfollow', Tree.follow, hdir]
          rfl
        obtain ⟨rfl, -⟩ : names = names' ∧ dir_size = dir_size' := by simpa using hsame
        obtain ⟨top_names, hown⟩ := own_directory hfs hroot
        rw [Path.name_div] at hname
        have hmem : name ∈ names := hsub.subset (hperm.symm.subset hname_listed)
        have hkind := honly top_names names hown ⟨dir_size, hdir⟩ name hmem hpy hname i hentry hsize
        obtain ⟨kind, st_size⟩ := i
        obtain rfl : kind = .regular := hkind
        exact ⟨⟨st_size, hentry, hsize⟩, ⟨top_names, hown⟩, .inr ⟨name, names, rfl, hpy, dir_size, hdir⟩⟩

end Candidates

/-! ## A run -/

theorem opened_files_sublist (w : World) (fuel : Nat) (files : List Path) : (opened_files w fuel files).Sublist files := by
  induction files with
  | nil => exact List.Sublist.refl _
  | cons file_path files ih =>
    rw [opened_files]
    cases (scan_file w fuel file_path).run <;> simp only <;> split
    · exact (List.nil_sublist _).cons_cons _
    · exact List.nil_sublist _
    · exact ih.cons_cons _
    · exact ih.cons _

theorem opens_of_mem {w : World} {fuel : Nat} {files : List Path} {p : Path} (h : p ∈ opened_files w fuel files) :
    opens w.fs p = true := by
  induction files with
  | nil => cases h
  | cons file_path files ih =>
    rw [opened_files] at h
    have hrest : p ∈ (match (scan_file w fuel file_path).run with
        | some _ => opened_files w fuel files
        | none => []) → opens w.fs p = true := by
      cases (scan_file w fuel file_path).run with
      | none => exact fun hp => absurd hp List.not_mem_nil
      | some r => exact ih
    split at h
    · rename_i hopens
      rcases List.mem_cons.1 h with rfl | h
      · exact hopens
      · exact hrest h
    · exact hrest h

/-- Every turn is the files opened among the candidates of a root. -/
theorem mem_opened {w : World} {fuel : Nat} {app_paths : List Path} {turn : Path × List Path}
    (h : turn ∈ opened w fuel app_paths) : turn.1 ∈ app_paths ∧ ∃ files, candidate_files w.fs turn.1 = .ok files ∧
      turn.2 = opened_files w fuel files := by
  induction app_paths with
  | nil => cases h
  | cons root app_paths ih =>
    rw [opened] at h
    cases hfiles : candidate_files w.fs root with
    | error e => simp [hfiles] at h
    | ok files =>
      simp only [hfiles, List.mem_cons] at h
      rcases h with rfl | h
      · exact ⟨List.mem_cons_self, files, hfiles, rfl⟩
      · cases hrun : (scan_files w fuel files).run with
        | none => simp [hrun] at h
        | some r =>
          simp only [hrun] at h
          obtain ⟨hroot, hturn⟩ := ih h
          exact ⟨List.mem_cons_of_mem _ hroot, hturn⟩

/-! ## The world of a tree -/

section Worlds
variable {tree : Tree}

theorem is_own_fs {probe : Path → Except Exn Bool} {p : Path} {b : Bool} (h : probe p = .ok b) :
    ∃ own, is_own tree.fs probe p = .ok own := by
  cases b with
  | false => exact ⟨false, is_own_eq_false h⟩
  | true =>
    obtain ⟨link, hlink⟩ : ∃ link, tree.fs.is_symlink p = .ok link := ⟨_, rfl⟩
    refine ⟨!link, ?_⟩
    unfold is_own
    exact except_bind_eq_ok.2 ⟨true, h, except_bind_eq_ok.2 ⟨link, hlink, rfl⟩⟩

theorem passing_ok {probe : Path → Except Exn Bool} {ps : List Path} (h : ∀ p ∈ ps, ∃ b, probe p = .ok b) :
    ∃ r, passing probe ps = .ok r := by
  induction ps with
  | nil => exact ⟨[], rfl⟩
  | cons p ps ih =>
    rw [List.forall_mem_cons] at h
    obtain ⟨b, hb⟩ := h.1
    obtain ⟨r, hr⟩ := ih h.2
    refine ⟨if b then p :: r else r, ?_⟩
    rw [passing, hb, hr]
    rfl

theorem top_fs (tree : Tree) (root : Path) :
    ∃ top, passing (is_own tree.fs tree.fs.is_file) (CANDIDATE_FILENAMES.map (root / ·)) = .ok top :=
  passing_ok fun _ _ => is_own_fs rfl

theorem modules_fs (tree : Tree) (ps : List Path) : ∃ modules, passing (is_task_module tree.fs) ps = .ok modules := by
  apply passing_ok
  intro p _
  obtain ⟨link, hlink⟩ : ∃ link, tree.fs.is_symlink p = .ok link := ⟨_, rfl⟩
  unfold is_task_module
  cases link with
  | true => exact ⟨false, except_bind_eq_ok.2 ⟨true, hlink, rfl⟩⟩
  | false =>
    exact ⟨p.name = "__init__.py" || !startswith p.name "_", except_bind_eq_ok.2 ⟨false, hlink, rfl⟩⟩

theorem own_directory_fs {p : Path} {names : List String} (h : tree.OwnDirectory p names) :
    is_own tree.fs tree.fs.is_dir p = .ok true ∧ tree.fs.listdir p = .ok names := by
  obtain ⟨st_size, he⟩ := h
  have hfollow : tree.follow p = some ⟨.directory names, st_size⟩ := by
    rw [Tree.follow, he]
    rfl
  refine ⟨is_own_eq_true.2 ⟨?_, ?_⟩, ?_⟩
  · simp [Tree.fs, hfollow]
  · simp [Tree.fs, he]
  · simp [Tree.fs, hfollow]

/-- No probe raises, so every root has its files. -/
theorem candidate_files_fs (tree : Tree) (root : Path) : ∃ files, candidate_files tree.fs root = .ok files := by
  obtain ⟨isdir, hdir⟩ := @is_own_fs tree tree.fs.is_dir root _ rfl
  obtain ⟨ispkg, hpkg⟩ := @is_own_fs tree tree.fs.is_dir (root / "tasks") _ rfl
  obtain ⟨top, htop⟩ := top_fs tree root
  cases isdir with
  | false => exact ⟨[], candidate_files_ok.2 (.inl ⟨hdir, rfl⟩)⟩
  | true =>
    cases ispkg with
    | false => exact ⟨top, candidate_files_ok.2 (.inr ⟨hdir, top, htop, .inl ⟨hpkg, rfl⟩⟩)⟩
    | true =>
      obtain ⟨names, hown⟩ := own_directory (fs_reflects tree) hpkg
      have hlisted := (own_directory_fs hown).2
      obtain ⟨modules, hmodules⟩ := modules_fs tree ((names.filter (endswith · ".py")).map (root / "tasks" / ·))
      exact ⟨top ++ modules, candidate_files_ok.2 (.inr ⟨hdir, top, htop, .inr ⟨hpkg, names, modules, hlisted, hmodules, rfl⟩⟩)⟩

/-- What is in the `tasks` directory under the name of a module is looked at,
unless it is a symlink. -/
theorem module_mem {root : Path} {top names : List String} {name : String} {i : Inode} {files : List Path}
    (htop : tree.OwnDirectory root top) (htasks : tree.OwnDirectory (root / "tasks") names) (hname : name ∈ names)
    (hpy : endswith name ".py" = true) (hfilter : name = "__init__.py" ∨ startswith name "_" = false)
    (hentry : tree.entry (root / "tasks" / name) = some (.inode i)) (hfiles : candidate_files tree.fs root = .ok files) :
    root / "tasks" / name ∈ files := by
  obtain ⟨htasks, hlistdir⟩ := own_directory_fs htasks
  rcases candidate_files_ok.1 hfiles with ⟨hno, -⟩ | ⟨-, _, -, ⟨hno, -⟩ | ⟨-, listed, modules, hlisted, hmodules, rfl⟩⟩
  · rw [(own_directory_fs htop).1] at hno
    cases hno
  · rw [htasks] at hno
    cases hno
  · obtain rfl : names = listed := Except.ok.inj (hlistdir.symm.trans hlisted)
    have hlink : tree.fs.is_symlink (root / "tasks" / name) = .ok false := by simp [Tree.fs, hentry]
    refine List.mem_append_right _ ((mem_passing hmodules _).2 ⟨?_, ?_⟩)
    · exact List.mem_map_of_mem (List.mem_filter.2 ⟨hname, hpy⟩)
    · exact is_task_module_eq_true.2 ⟨hlink, by rwa [Path.name_div]⟩

/-- Only a file that does not exist has no size. -/
theorem small_enough_fs (tree : Tree) (p : Path) : ∃ small, small_enough tree.fs p = .ok small := by
  rw [small_enough, Tree.fs]
  cases hf : tree.follow p with
  | some i => exact ⟨_, by simp only [hf]; rfl⟩
  | none => exact ⟨false, by simp only [hf]; rfl⟩

theorem scan_file_world (fuel : Nat) (p : Path) : (scan_file tree.world fuel p).run = some (.ok []) := by
  obtain ⟨small, hsmall⟩ := small_enough_fs tree p
  have hread : read_tree tree.world p = .ok none := by
    unfold read_tree
    refine except_bind_eq_ok.2 ⟨small, hsmall, ?_⟩
    cases small <;> rfl
  unfold scan_file
  rw [hread]
  rfl

theorem opened_files_world (fuel : Nat) (files : List Path) :
    opened_files tree.world fuel files = files.filter (opens tree.fs) := by
  induction files with
  | nil => rfl
  | cons p files ih =>
    have hopens : opens tree.world.fs p = opens tree.fs p := rfl
    rw [opened_files, scan_file_world, List.filter_cons, ih, hopens]

theorem scan_files_world (fuel : Nat) (files : List Path) : ∃ r, (scan_files tree.world fuel files).run = some r := by
  induction files with
  | nil => exact ⟨_, rfl⟩
  | cons p files ih =>
    have hcaught := LoopM.catch_run (scan_file tree.world fuel p) fun _ => LoopM.of (.ok [])
    rw [scan_file_world] at hcaught
    rw [scan_files, LoopM.bind_run_ok _ hcaught]
    obtain ⟨r, hr⟩ := ih
    cases r with
    | error e => exact ⟨_, LoopM.bind_run_error _ hr⟩
    | ok ds => exact ⟨_, LoopM.bind_run_ok _ hr⟩

/-- Every root has its turn, in which all its readable files are opened. -/
theorem mem_opened_world {app_paths : List Path} {root : Path} (h : root ∈ app_paths) {files : List Path}
    (hfiles : candidate_files tree.fs root = .ok files) :
    (root, files.filter (opens tree.fs)) ∈ opened tree.world 0 app_paths := by
  induction app_paths with
  | nil => cases h
  | cons first app_paths ih =>
    obtain ⟨found, hfound⟩ := candidate_files_fs tree first
    have hfirst : candidate_files tree.world.fs first = .ok found := hfound
    obtain ⟨r, hr⟩ := @scan_files_world tree 0 found
    rw [opened, hfirst]
    simp only [hr, opened_files_world, List.mem_cons]
    rcases List.mem_cons.1 h with rfl | h
    · obtain rfl : found = files := Except.ok.inj (hfound.symm.trans hfiles)
      exact .inl rfl
    · exact .inr (ih h)

end Worlds

/-! ## When the scan is confined -/

/-- For every directory tree and all roots: the contents of no other file matter
to the scan than of those that are opened. Whatever the files contain, and
whichever probes raise, each file that is opened for a root is a regular file in
its place, opened once, exactly when the `tasks` directory of no root has
anything else under the name of a task module. -/
theorem opens_confined_iff (tree : Tree) (app_paths : List Path) :
    (∀ (w : World) (fuel : Nat) (read_text : Path → Except Exn (Option String)),
      (∀ turn ∈ opened w fuel app_paths, ∀ p ∈ turn.2, read_text p = w.fs.read_text p) →
        discover_static (w.reading read_text) fuel app_paths = discover_static w fuel app_paths) ∧
    ((∀ (w : World) (fuel : Nat), Reflects w.fs tree → ∀ turn ∈ opened w fuel app_paths,
        turn.2.Nodup ∧ ∀ p ∈ turn.2, Confined tree turn.1 p) ↔
      ∀ root ∈ app_paths, OnlyFiles tree root) := by
  refine ⟨fun _ _ _ => discover_static_reads, ?_⟩
  constructor
  · intro h root hroot top names htop htasks name hname hpy hfilter i hentry hsize
    obtain ⟨files, hfiles⟩ := candidate_files_fs tree root
    have hturn := (h tree.world 0 (fs_reflects tree) _ (mem_opened_world hroot hfiles)).2
    have hmem := module_mem htop htasks hname hpy hfilter hentry hfiles
    have hopens : opens tree.fs (root / "tasks" / name) = true := by
      have hfollow : tree.follow (root / "tasks" / name) = some i := by
        rw [Tree.follow, hentry]
        rfl
      exact opens_iff.2 ⟨i.st_size, by simp [Tree.fs, hfollow], hsize⟩
    obtain ⟨⟨st_size, hregular, -⟩, -, -⟩ := hturn _ (List.mem_filter.2 ⟨hmem, hopens⟩)
    obtain rfl : i = ⟨.regular, st_size⟩ := by simpa [hentry] using hregular
    rfl
  · intro honly w fuel hfs turn hturn
    obtain ⟨hroot, files, hfiles, hopened⟩ := mem_opened hturn
    rw [hopened]
    refine ⟨(candidate_files_nodup hfs hfiles).sublist (opened_files_sublist w fuel files), fun p hp => ?_⟩
    exact candidate_confined hfs hfiles (honly _ hroot) ((opened_files_sublist w fuel files).subset hp) (opens_of_mem hp)

def app : Path := ⟨"/", ["srv", "app"]⟩

/-- The app has a `tasks` directory with a FIFO called `jobs.py`. -/
def fifo_tree : Tree where
  entry p :=
    if p = app then some (.inode ⟨.directory ["tasks"], 4096⟩)
    else if p = app / "tasks" then some (.inode ⟨.directory ["jobs.py"], 4096⟩)
    else if p = app / "tasks" / "jobs.py" then some (.inode ⟨.special, 0⟩)
    else none
  names_nodup := by
    intro p names st_size h
    split at h
    · obtain ⟨rfl, -⟩ : ["tasks"] = names ∧ 4096 = st_size := by simpa [Entry.follow] using h
      decide
    · split at h
      · obtain ⟨rfl, -⟩ : ["jobs.py"] = names ∧ 4096 = st_size := by simpa [Entry.follow] using h
        decide
      · split at h
        · simp [Entry.follow] at h
        · cases h

/-- It is opened for reading. -/
theorem fifo_opened : Reflects fifo_tree.world.fs fifo_tree ∧
    opened fifo_tree.world 0 [app] = [(app, [app / "tasks" / "jobs.py"])] ∧
      fifo_tree.entry (app / "tasks" / "jobs.py") = some (.inode ⟨.special, 0⟩) ∧
        ¬Confined fifo_tree app (app / "tasks" / "jobs.py") := by
  have hentry : fifo_tree.entry (app / "tasks" / "jobs.py") = some (.inode ⟨.special, 0⟩) := by decide
  refine ⟨fs_reflects fifo_tree, by decide, hentry, ?_⟩
  rintro ⟨⟨st_size, hregular, -⟩, -, -⟩
  rw [hentry] at hregular
  cases hregular

end Z4jCelery.Discovery
