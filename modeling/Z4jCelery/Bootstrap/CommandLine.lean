import Z4jCelery.Bootstrap
/-!
# Command lines

Every launcher form, in front of well-formed global options: the process is a
worker exactly if the sub-command is `worker`. Started as a module, a process
does not see its launcher: its first argument is the module's own path, which
is no launcher (`module_launch_not_recognised`).
-/

namespace Z4jCelery.Bootstrap

open Py

variable {platform : Platform}

/-! ## File names -/

/-- A path that ends in the component `base`. -/
def Under (base path : List Char) : Prop := path = base ∨ ∃ dir, path = dir ++ '\\' :: base

/-- A component that no drive is split off. -/
structure Component (base : List Char) : Prop where
  plain : ∀ c ∈ base, c ≠ '\\'
  undriven : ':' ∉ base

section

variable {base : List Char}

/-- A front that ends in a backslash ends in the directory. -/
theorem under_of_front (hbase : Component base) {front rest : List Char}
    (h : Under base (front ++ '\\' :: rest)) : Under base rest := by
  rcases h with h | ⟨dir, h⟩
  · have hmem : '\\' ∈ base := by rw [← h]; simp
    exact absurd rfl (hbase.plain _ hmem)
  rcases List.append_eq_append_iff.1 h with ⟨dir', -, hrest⟩ | ⟨more, -, hmore⟩
  · cases dir' with
    | nil => exact .inl (List.cons.inj hrest).2
    | cons c dir' => exact .inr ⟨dir', (List.cons.inj hrest).2⟩
  · cases more with
    | nil => exact .inl (List.cons.inj hmore).2.symm
    | cons c more =>
      have hmem : '\\' ∈ base := by rw [(List.cons.inj hmore).2]; simp
      exact absurd rfl (hbase.plain _ hmem)

/-- Up to the next backslash: the rest of the directory, or nothing is left. -/
theorem under_dropWhile (hbase : Component base) {path : List Char} (h : Under base path) :
    path.dropWhile (· ≠ '\\') = [] ∨ ∃ rest, path.dropWhile (· ≠ '\\') = '\\' :: rest ∧ Under base rest := by
  cases hdrop : path.dropWhile (· ≠ '\\') with
  | nil => exact .inl rfl
  | cons c rest =>
    have hne : path.dropWhile (· ≠ '\\') ≠ [] := hdrop ▸ List.cons_ne_nil c rest
    have hc := List.head_dropWhile_not (· ≠ '\\') hne
    simp only [hdrop, List.head_cons, decide_eq_false_iff_not, not_not] at hc
    obtain rfl := hc
    have hpath := List.takeWhile_append_dropWhile (p := (· ≠ '\\')) (l := path)
    rw [hdrop] at hpath
    exact .inr ⟨rest, rfl, under_of_front hbase (hpath.symm ▸ h)⟩

theorem under_split_extended (hbase : Component base) {path : List Char} (h : Under base path) :
    Under base (split_extended_path path) := by
  have hunc : "\\\\?\\UNC\\".toList = "\\\\?\\UNC".toList ++ ['\\'] := by decide
  have hprefix : "\\\\?\\".toList = "\\\\?".toList ++ ['\\'] := by decide
  rw [split_extended_path]
  cases hshare : path.dropPrefix? "\\\\?\\UNC\\".toList with
  | some share =>
    obtain ⟨front, hpath, hfront⟩ := List.dropPrefix?_eq_some_iff.1 hshare
    rw [eq_of_beq hfront, hunc, List.append_assoc] at hpath
    rcases under_of_front hbase (hpath ▸ h) with rfl | ⟨dir, rfl⟩
    · exact .inr ⟨['\\'], rfl⟩
    · exact .inr ⟨'\\' :: '\\' :: dir, rfl⟩
  | none =>
    cases hrest : path.dropPrefix? "\\\\?\\".toList with
    | none => exact h
    | some rest =>
      obtain ⟨front, hpath, hfront⟩ := List.dropPrefix?_eq_some_iff.1 hrest
      rw [eq_of_beq hfront, hprefix, List.append_assoc] at hpath
      exact under_of_front hbase (hpath ▸ h)

theorem under_after_share (hbase : Component base) {path rest : List Char} (h : Under base path)
    (hrest : after_share path = some rest) : rest = [] ∨ Under base rest := by
  obtain ⟨machine, hmachine, hshare⟩ := Option.bind_eq_some_iff.1 hrest
  obtain ⟨front, rfl, hfront⟩ := List.dropPrefix?_eq_some_iff.1 hmachine
  obtain rfl := eq_of_beq hfront
  have hunder : Under base machine := @under_of_front base hbase ['\\'] machine h
  split at hshare
  · cases hshare
  rcases under_dropWhile hbase hunder with hnone | ⟨share, hdrop, hunder⟩
  · rw [hnone] at hshare
    cases hshare
  rw [hdrop] at hshare
  dsimp only at hshare
  split at hshare
  · cases hshare
  obtain rfl := Option.some.inj hshare
  rcases under_dropWhile hbase hunder with hnone | ⟨last, hdrop, hunder⟩
  · exact .inl (by rw [hnone]; rfl)
  · exact .inr (by rw [hdrop]; exact hunder)

theorem under_after_drive (hbase : Component base) {path : List Char} (h : Under base path) :
    Under base (after_drive path) := by
  unfold after_drive
  split
  · rename_i letter rest
    split
    · rename_i halpha
      rcases h with h | ⟨dir, h⟩
      · exact absurd (h ▸ by simp) hbase.undriven
      rcases dir with _ | ⟨c, _ | ⟨d, dir⟩⟩
      · obtain rfl := (List.cons.inj h).1
        cases halpha
      · cases (List.cons.inj (List.cons.inj h).2).1
      · exact .inr ⟨dir, (List.cons.inj (List.cons.inj h).2).2⟩
    · exact h
  · exact h

end

theorem last_part_in_dir {dir base : List Char} {sep : Char} (hsep : platform.is_sep sep = true)
    (hbase : ∀ c ∈ base, platform.is_sep c = false) (hne : base ≠ []) (hdot : base ≠ ['.']) :
    last_part platform (dir ++ sep :: base) = base := by
  have hkeep : (decide (base ≠ []) && decide (base ≠ ['.'])) = true := by simp [hne, hdot]
  rw [last_part, List.splitOnP_append_cons _ _ hsep, List.splitOnP_eq_singleton hbase, List.filter_append,
    List.filter_singleton, hkeep, cond_true, List.getLast?_append, List.getLast?_singleton, Option.some_or,
    Option.getD_some]

theorem last_part_alone {base : List Char} (hbase : ∀ c ∈ base, platform.is_sep c = false) (hne : base ≠ [])
    (hdot : base ≠ ['.']) : last_part platform base = base := by
  have hkeep : (decide (base ≠ []) && decide (base ≠ ['.'])) = true := by simp [hne, hdot]
  rw [last_part, List.splitOnP_eq_singleton hbase, List.filter_singleton, hkeep, cond_true, List.getLast?_singleton,
    Option.getD_some]

/-- The name of a file in a directory; a share of Windows has none. -/
theorem path_name_in_dir {dir base : List Char} (hbase : ∀ c ∈ base, c ≠ '/' ∧ c ≠ '\\' ∧ c ≠ ':') (hne : base ≠ [])
    (hdot : base ≠ ['.']) :
    path_name platform (String.ofList (dir ++ platform.sep :: base)) = String.ofList base ∨
      path_name platform (String.ofList (dir ++ platform.sep :: base)) = "" := by
  have hsep : platform.is_sep platform.sep = true := by cases platform <;> rfl
  have hplain : ∀ c ∈ base, platform.is_sep c = false := by
    intro c hc
    cases platform with
    | posix => simpa [Platform.is_sep] using (hbase c hc).1
    | windows => simpa [Platform.is_sep] using ⟨(hbase c hc).1, (hbase c hc).2.1⟩
  have hlast : ∀ path, path_name platform (String.ofList path) =
      String.ofList (last_part platform (platform.relative path)) := by
    intro path
    rw [path_name, String.toList_ofList]
  rw [hlast]
  cases platform with
  | posix => exact .inl (congrArg String.ofList (last_part_in_dir hsep hplain hne hdot))
  | windows =>
    have hcomponent : Component base := ⟨fun c hc => (hbase c hc).2.1, fun hc => (hbase ':' hc).2.2 rfl⟩
    have hmap : (dir ++ Platform.sep .windows :: base).map (fun c => if c = '/' then '\\' else c) =
        dir.map (fun c => if c = '/' then '\\' else c) ++ '\\' :: base := by
      have hkept : base.map (fun c => if c = '/' then '\\' else c) = base :=
        (List.map_congr_left fun c hc => if_neg (hbase c hc).1).trans (List.map_id' base)
      rw [List.map_append, List.map_cons, hkept]
      rfl
    have hunder := under_split_extended hcomponent (.inr ⟨_, hmap⟩)
    have hrelative : Platform.relative .windows (dir ++ Platform.sep .windows :: base) = [] ∨
        Under base (Platform.relative .windows (dir ++ Platform.sep .windows :: base)) := by
      rw [Platform.relative]
      cases hshare : after_share _ with
      | none => exact .inr (under_after_drive hcomponent hunder)
      | some rest => exact under_after_share hcomponent hunder hshare
    rcases hrelative with hnone | hbelow | ⟨dir', hbelow⟩
    · exact .inr (by rw [hnone]; decide)
    · exact .inl (by rw [hbelow, last_part_alone hplain hne hdot])
    · have hback : Platform.is_sep .windows '\\' = true := by decide
      exact .inl (by rw [hbelow, last_part_in_dir hback hplain hne hdot])

/-! ## The sub-command -/

/-- Celery's global options: those with a separate value, and other tokens that
begin with a dash. -/
inductive GlobalOptions : List String → Prop
  | nil : GlobalOptions []
  | value {opt value : String} {rest : List String} (h : opt ∈ OPTIONS_WITH_SEPARATE_VALUE)
      (hrest : GlobalOptions rest) : GlobalOptions (opt :: value :: rest)
  | flag {opt : String} {rest : List String} (h : opt ∉ OPTIONS_WITH_SEPARATE_VALUE)
      (hdash : startswith opt "-" = true) (hrest : GlobalOptions rest) : GlobalOptions (opt :: rest)

theorem option_startswith {opt : String} (h : opt ∈ OPTIONS_WITH_SEPARATE_VALUE) : startswith opt "-" = true := by
  have hall : ∀ opt ∈ OPTIONS_WITH_SEPARATE_VALUE, startswith opt "-" = true := by decide
  exact hall opt h

theorem not_option {s : String} (hs : startswith s "-" = false) : s ∉ OPTIONS_WITH_SEPARATE_VALUE := by
  intro h
  rw [option_startswith h] at hs
  cases hs

theorem flag_skipped {opt : String} (h : opt ∉ OPTIONS_WITH_SEPARATE_VALUE) (hdash : startswith opt "-" = true)
    (argv : List String) : argv_has_worker_subcommand (opt :: argv) = argv_has_worker_subcommand argv := by
  cases argv with
  | nil =>
    unfold argv_has_worker_subcommand
    rw [if_pos (Or.inr hdash)]
  | cons value argv => rw [argv_has_worker_subcommand, if_neg h, if_pos hdash]

theorem options_skipped {options : List String} (h : GlobalOptions options) (argv : List String) :
    argv_has_worker_subcommand (options ++ argv) = argv_has_worker_subcommand argv := by
  induction h with
  | nil => rfl
  | value h _ ih => rw [List.cons_append, List.cons_append, argv_has_worker_subcommand, if_pos h, ih]
  | flag h hdash _ ih => rw [List.cons_append, flag_skipped h hdash, ih]

theorem subcommand_read {s : String} (hs : startswith s "-" = false) (tail : List String) :
    argv_has_worker_subcommand (s :: tail) = decide (s = "worker") := by
  cases tail with
  | nil => rw [argv_has_worker_subcommand, if_neg (by simp [hs, not_option hs])]
  | cons value tail => rw [argv_has_worker_subcommand, if_neg (not_option hs), if_neg (by simp [hs])]

/-! ## The launchers -/

/-- What starts Celery: a token, or an interpreter's `-m celery`. -/
inductive Entry (platform : Platform) : List String → Prop
  | script {arg : String} (h : arg ∈ CELERY_PROGS) : Entry platform [arg]
  | module {interpreter : String} (h : is_python (path_name platform interpreter) = true) :
      Entry platform [interpreter, "-m", "celery"]

/-- The launcher forms. The tokens between a wrapper and the entry hold no
entry: neither Celery's own names nor, since a triple ends in one, an
interpreter's triple. -/
inductive Launcher (platform : Platform) : List String → Prop
  | direct {path : String} (h : path_name platform path ∈ CELERY_PROGS) : Launcher platform [path]
  | module {path : String} (h : is_python (path_name platform path) = true) : Launcher platform [path, "-m", "celery"]
  | uvx {path : String} (h : path_name platform path ∈ UVX_PROGS) : Launcher platform [path, "celery"]
  | wrapper {path : String} {between entry : List String} (h : path_name platform path ∈ WRAPPERS)
      (hbetween : ∀ arg ∈ between, arg ∉ CELERY_PROGS) (hentry : Entry platform entry) :
      Launcher platform (path :: (between ++ entry))

theorem module_args_triple (argv : List String) : module_args ("-m" :: "celery" :: argv) = some argv := rfl

theorem module_args_eq_some {argv remaining : List String} (h : module_args argv = some remaining) :
    argv = "-m" :: "celery" :: remaining := by
  unfold module_args at h
  split at h
  · split at h
    · rename_i heq
      obtain ⟨rfl, rfl⟩ := heq
      rw [Option.some.inj h]
    · cases h
  · cases h

theorem celery_not_python {name : String} (h : name ∈ CELERY_PROGS) : is_python name = false := by
  have hall : ∀ name ∈ CELERY_PROGS, is_python name = false := by decide
  exact hall name h

/-- Tokens that begin no interpreter's name are not one: the entry is read
where it starts. -/
theorem entry_read {entry : List String} (h : Entry platform entry) (argv : List String) :
    wrapped_worker platform (entry ++ argv) = argv_has_worker_subcommand argv := by
  cases h with
  | script h => rw [List.singleton_append, wrapped_worker, if_pos h]
  | module h =>
    rename_i interpreter
    have hnot : interpreter ∉ CELERY_PROGS := by
      intro hc
      have hname : ∀ p, ∀ arg ∈ CELERY_PROGS, is_python (path_name p arg) = false := by
        intro p
        cases p <;> decide
      rw [hname platform interpreter hc] at h
      cases h
    rw [List.cons_append, List.cons_append, List.singleton_append, wrapped_worker, if_neg hnot, if_pos h,
      module_args_triple]

/-- An interpreter among the tokens before the entry takes it for its own
triple at most. -/
theorem triple_before_entry {between entry argv remaining : List String} (hentry : Entry platform entry)
    (hbetween : ∀ arg ∈ between, arg ∉ CELERY_PROGS)
    (h : module_args (between ++ (entry ++ argv)) = some remaining) : remaining = argv := by
  have hargv := module_args_eq_some h
  have hcelery : "celery" ∈ CELERY_PROGS := by decide
  rcases between with _ | ⟨m, _ | ⟨c, between⟩⟩
  · -- an entry does not begin with `-m`
    rw [List.nil_append] at hargv
    cases hentry with
    | script hs =>
      obtain rfl := (List.cons.inj hargv).1
      have hdash : "-m" ∉ CELERY_PROGS := by decide
      exact absurd hs hdash
    | module hp =>
      obtain rfl := (List.cons.inj hargv).1
      have hname : ∀ p, is_python (path_name p "-m") = false := by
        intro p
        cases p <;> decide
      rw [hname platform] at hp
      cases hp
  · rw [List.singleton_append] at hargv
    have hrest := (List.cons.inj hargv).2
    cases hentry with
    | script _ => exact (List.cons.inj hrest).2.symm
    | module hp =>
      obtain rfl := (List.cons.inj hrest).1
      have hname : ∀ p, is_python (path_name p "celery") = false := by
        intro p
        cases p <;> decide
      rw [hname platform] at hp
      cases hp
  · rw [List.cons_append, List.cons_append] at hargv
    obtain rfl := (List.cons.inj (List.cons.inj hargv).2).1
    exact absurd hcelery (hbetween "celery" (by simp))

theorem wrapped_read {between entry : List String} (hentry : Entry platform entry)
    (hbetween : ∀ arg ∈ between, arg ∉ CELERY_PROGS) (argv : List String) :
    wrapped_worker platform (between ++ (entry ++ argv)) = argv_has_worker_subcommand argv := by
  induction between with
  | nil => exact entry_read hentry argv
  | cons arg between ih =>
    have hrest : ∀ a ∈ between, a ∉ CELERY_PROGS := fun a ha => hbetween a (List.mem_cons_of_mem arg ha)
    rw [List.cons_append, wrapped_worker, if_neg (hbetween arg List.mem_cons_self), ih hrest]
    cases hm : module_args (between ++ (entry ++ argv)) with
    | none => exact ite_self _
    | some remaining =>
      rw [triple_before_entry hentry hrest hm]
      exact ite_self _

/-- A name that is no launcher's of its own. -/
theorem not_direct {prog : String} (h : prog ∉ CELERY_PROGS ∧ is_python prog = false ∧ prog ∉ UVX_PROGS)
    (argv : List String) : direct_args prog argv = none := by
  obtain ⟨hcelery, hpython, huvx⟩ := h
  rw [direct_args, if_neg hcelery, if_neg (by simp [hpython]), if_neg (by simp [huvx])]

theorem wrapper_not_direct {prog : String} (h : prog ∈ WRAPPERS) (argv : List String) : direct_args prog argv = none := by
  have hall : ∀ prog ∈ WRAPPERS, prog ∉ CELERY_PROGS ∧ is_python prog = false ∧ prog ∉ UVX_PROGS := by decide
  exact not_direct (hall prog h) argv

/-- Behind a launcher the arguments are Celery's own. -/
theorem launcher_read {launcher : List String} (h : Launcher platform launcher) (argv : List String) :
    is_celery_worker_invocation platform (launcher ++ argv) = argv_has_worker_subcommand argv := by
  cases h with
  | direct h => simp only [List.singleton_append, is_celery_worker_invocation, direct_args, if_pos h]
  | module h =>
    rename_i path
    have hnot : path_name platform path ∉ CELERY_PROGS := fun hc => by
      rw [celery_not_python hc] at h
      cases h
    simp only [List.cons_append, List.nil_append, is_celery_worker_invocation, direct_args, if_neg hnot,
      module_args_triple, h, Option.isSome_some, and_self, if_true]
  | uvx h =>
    have hall : ∀ prog ∈ UVX_PROGS, prog ∉ CELERY_PROGS ∧ is_python prog = false := by decide
    obtain ⟨hcelery, hpython⟩ := hall _ h
    simp only [List.cons_append, List.nil_append, is_celery_worker_invocation, direct_args, if_neg hcelery, hpython,
      Bool.false_eq_true, false_and, if_false, h, List.head?_cons, List.tail_cons, and_self, if_true]
  | wrapper h hbetween hentry =>
    rw [List.cons_append, is_celery_worker_invocation, List.append_assoc]
    simp only [wrapper_not_direct h, h, decide_true, Bool.true_and, wrapped_read hentry hbetween]

/-- Behind every launcher and every well-formed list of global options, the
process is a worker exactly if the sub-command is `worker`; without one it is
not. -/
theorem worker_recognised {launcher options : List String} (hl : Launcher platform launcher)
    (ho : GlobalOptions options) :
    (∀ s tail, startswith s "-" = false →
      (is_celery_worker_invocation platform (launcher ++ (options ++ s :: tail)) = true ↔ s = "worker")) ∧
    is_celery_worker_invocation platform (launcher ++ options) = false := by
  constructor
  · intro s tail hs
    rw [launcher_read hl, options_skipped ho, subcommand_read hs, decide_eq_true_iff]
  · have hnone := options_skipped ho []
    rw [List.append_nil] at hnone
    rw [launcher_read hl, hnone, argv_has_worker_subcommand]

theorem worker_recognised_in_venv :
    is_celery_worker_invocation .posix
      ["/srv/venv/bin/uv", "run", "python", "-m", "celery", "-b", "worker", "--quiet", "worker", "-l", "info"] = true := by
  have hentry : Entry .posix ["python", "-m", "celery"] := .module (by decide)
  have hl : Launcher .posix ("/srv/venv/bin/uv" :: (["run"] ++ ["python", "-m", "celery"])) :=
    .wrapper (by decide) (by decide) hentry
  have ho : GlobalOptions ["-b", "worker", "--quiet"] := .value (by decide) (.flag (by decide) (by decide) .nil)
  exact ((worker_recognised hl ho).1 "worker" ["-l", "info"] (by decide)).2 rfl

/-! ## A module's command line -/

/-- The module's file. `dir` ends in a separator, or is empty. -/
def module_path (platform : Platform) (dir : String) : String :=
  String.ofList (dir.toList ++ "celery".toList ++ platform.sep :: "__main__.py".toList)

/-- `sys.argv` of `-m celery`: the interpreter and the triple are gone, and the
path of the module stands in front of the arguments. -/
def module_argv (platform : Platform) (dir : String) (args : List String) : List String :=
  module_path platform dir :: args

theorem module_name (platform : Platform) (dir : String) :
    path_name platform (module_path platform dir) = "__main__.py" ∨ path_name platform (module_path platform dir) = "" := by
  have hbase : "__main__.py".toList.all (fun c => c ≠ '/' && c ≠ '\\' && c ≠ ':') = true := by decide
  rw [module_path]
  refine path_name_in_dir (fun c hc => ?_) (by decide) (by decide)
  simpa [and_assoc] using List.all_eq_true.1 hbase c hc

theorem module_argv_unread (platform : Platform) (dir : String) (args : List String) :
    is_celery_worker_invocation platform (module_argv platform dir args) = false := by
  have hnone : ∀ prog ∈ ["__main__.py", ""],
      (prog ∉ CELERY_PROGS ∧ is_python prog = false ∧ prog ∉ UVX_PROGS) ∧ decide (prog ∈ WRAPPERS) = false := by decide
  have hname : path_name platform (module_path platform dir) ∈ ["__main__.py", ""] := by
    simpa using module_name platform dir
  obtain ⟨hdirect, hwrapper⟩ := hnone _ hname
  rw [module_argv, is_celery_worker_invocation]
  simp only [not_direct hdirect, hwrapper, Bool.false_and]

theorem not_ready {ρ : Type} {p : Process ρ} (h : is_celery_worker_invocation p.platform p.argv = false)
    (s : Agent ρ) : on_worker_ready p s = .ok () s := by
  rw [on_worker_ready, bind_ok (get_apply s)]
  split
  · rfl
  split
  · rfl
  · rw [h]
    rfl

/-- No process started by `-m celery` is recognised, whatever its arguments:
its `worker_ready` starts nothing. -/
theorem module_launch_not_recognised {ρ : Type} (p : Process ρ) (dir : String) (args : List String) (s : Agent ρ) :
    is_celery_worker_invocation p.platform (module_argv p.platform dir args) = false ∧
    on_worker_ready { p with argv := module_argv p.platform dir args } s = .ok () s := by
  have hunread := module_argv_unread p.platform dir args
  exact ⟨hunread, not_ready (p := { p with argv := module_argv p.platform dir args }) hunread s⟩

theorem module_worker_missed :
    ¬ ∀ (platform : Platform) (dir : String) (options tail : List String), GlobalOptions options →
      is_celery_worker_invocation platform (module_argv platform dir (options ++ "worker" :: tail)) = true := by
  intro h
  have ho : GlobalOptions ["-A", "proj"] := .value (by decide) .nil
  have hread := h .posix "/usr/lib/python3/dist-packages/" ["-A", "proj"] ["-l", "info"] ho
  rw [module_argv_unread] at hread
  cases hread

end Z4jCelery.Bootstrap
