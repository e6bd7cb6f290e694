import Z4jCelery.Discovery.Scan
import Z4jCelery.Engine.Registry
/-!
# Static and runtime names

Celery registers a decorated function under the literal `name=` of its task
decorator, or under the import name of its module and its own name, with the
decorator's `queue=`. The static scan never reads `name=`, takes an
`__init__.py` for a module of that name, and takes the `queue=` of any
decorator; and its walk up the packages need not end. `scan_agrees_iff` says
when the scan gives its list and the two agree all the same.
-/

namespace Z4jCelery.Discovery

open Py Lib Z4jCelery.Core Engine.Registry

/-! ## Celery's rule -/

/-- What the task decorator is called with: the innermost call. -/
def own_keywords : Expr → List (Option Ident × Expr)
  | .call (.call func inner) _ => own_keywords (.call func inner)
  | .call _ keywords => keywords
  | _ => []

/-- An explicit literal `name=`; Celery takes an empty one for none. -/
def literal_name (decorator : Expr) : Option String :=
  (literal_keyword "name" (own_keywords decorator)).filter (· ≠ "")

def literal_queue (decorator : Expr) : Option String := literal_keyword "queue" (own_keywords decorator)

/-- The packages above a file, outermost first. -/
def package_names (fs : FileSystem) (file : Path) : List String := ((package_run fs file).map Path.name).reverse

/-- The name under which Python imports the file; a package is named by its
directory. -/
def import_name (fs : FileSystem) (file : Path) : String :=
  ".".intercalate (if file.stem = "__init__" then package_names fs file else package_names fs file ++ [file.stem])

def celery_name (fs : FileSystem) (file : Path) (f : FunctionDef) (decorator : Expr) : String :=
  (literal_name decorator).getD (import_name fs file ++ "." ++ f.name.val)

/-! ## What is compared -/

/-- The file is scanned for one of the paths, lies in a package and has this tree. -/
structure Scanned (w : World) (app_paths : List Path) (file : Path) (tree : Node) : Prop where
  listed : ∃ root ∈ app_paths, ∃ files, candidate_files w.fs root = .ok files ∧ file ∈ files
  read : read_tree w file = .ok (some tree)
  packaged : package_run w.fs file ≠ []

/-- Every task decorator of every decorated function. -/
def EachTask (tree : Node) (P : FunctionDef → Expr → Prop) : Prop :=
  ∀ f ∈ decorated tree, ∀ d ∈ f.decorator_list, is_task_decorator d = true → P f d

/-- For each task decorator of the function, the definition has the name and
the queue under which Celery registers it. -/
def Agrees (fs : FileSystem) (file : Path) (f : FunctionDef) (definition : TaskDefinition) : Prop :=
  ∀ d ∈ f.decorator_list, is_task_decorator d = true →
    definition.name = celery_name fs file f d ∧ definition.queue = literal_queue d

/-- The static scan gives a list. In it are, in order, the definitions of the
file: one for each decorated function, that agrees with Celery. -/
def Given (w : World) (app_paths : List Path) (file : Path) (tree : Node) : Prop :=
  ∃ n ds found, (discover_static w n app_paths).run = some (.ok ds) ∧
    (scan_file w n file).run = some (.ok found) ∧ found <:+: ds ∧ (decorated tree).Forall₂ (Agrees w.fs file) found

/-- The task can be read, and the model accepts what it is. -/
def Readable (w : World) (name : String) (task : RegisteredTask) : Prop :=
  ∃ module queue signature, get_module task = .ok module ∧ get_default_queue task = .ok queue ∧
    get_signature task = .ok signature ∧
      w.task_definition.check (runtime_definition name task module queue signature) = .ok ()

/-- The app has a readable task of that name. -/
def Registered (w : World) (app : CeleryApp) (name : String) : Prop :=
  ∃ items task, app.tasks = .ok (some (.ok items)) ∧ (name, task) ∈ items ∧ Readable w name task

/-- With any app that has a task of that name, `discover_tasks` gives a list, in
which the name is exactly once, as loaded. -/
def ListedOnce (w : World) (app_paths : List Path) (name : String) : Prop :=
  ∀ app, Registered w app name → ∃ n tasks, (discover_tasks w n app (some ⟨app_paths⟩)).run = some (.ok tasks) ∧
    (tasks.map TaskDefinition.name).count name = 1 ∧ ∀ e ∈ tasks, e.name = name → e.loaded = true

/-- After import, the task of each decorated function is listed once. -/
def Listed (w : World) (app_paths : List Path) (file : Path) (tree : Node) : Prop :=
  EachTask tree fun f d => ListedOnce w app_paths (celery_name w.fs file f d)

theorem eachTask_and {tree : Node} {P Q : FunctionDef → Expr → Prop} :
    EachTask tree (fun f d => P f d ∧ Q f d) ↔ EachTask tree P ∧ EachTask tree Q := by
  constructor
  · intro h
    exact ⟨fun f hf d hd ht => (h f hf d hd ht).1, fun f hf d hd ht => (h f hf d hd ht).2⟩
  · rintro ⟨hP, hQ⟩ f hf d hd ht
    exact ⟨hP f hf d hd ht, hQ f hf d hd ht⟩

/-! ## When they agree -/

/-- The name that the scan builds for a function in a package. -/
def scanned_name (fs : FileSystem) (file : Path) (f : FunctionDef) : String :=
  ".".intercalate (package_names fs file ++ [file.stem]) ++ "." ++ f.name.val

/-- The decorator names the task as the scan does: with what is kept of that very
name as its literal `name=`, or with no literal `name=` outside an `__init__.py`. -/
def NameKept (w : World) (file : Path) (f : FunctionDef) (decorator : Expr) : Prop :=
  match literal_name decorator with
  | some name => w.task_definition.text (scanned_name w.fs file f) = name
  | none => file.stem ≠ "__init__" ∧ w.task_definition.text (scanned_name w.fs file f) = scanned_name w.fs file f

/-- No decorator called with a literal `queue=` hides the task decorator's: what
is kept of the first such queue is that of the task decorator, and there is none
if the task decorator has no literal queue. -/
def QueueKept (w : World) (f : FunctionDef) (decorator : Expr) : Prop :=
  match literal_queue decorator with
  | some queue => ∃ before d after first, f.decorator_list = before ++ d :: after ∧
      decorator_queue d = some first ∧ w.task_definition.text first = queue ∧ ∀ b ∈ before, decorator_queue b = none
  | none => ∀ d ∈ f.decorator_list, decorator_queue d = none

/-- The model accepts what the scan builds for the decorated functions. -/
def Accepted (w : World) (file : Path) (tree : Node) : Prop := ∀ f ∈ decorated tree,
  w.task_definition.check (static_definition w file (dotted (package_run w.fs file) file.stem) f) = .ok ()

/-- No app has a task of that name if it is one of Celery's own names. -/
def NotCelerys (w : World) (name : String) : Prop := startswith name "celery." = true → ∀ app, ¬Registered w app name

theorem package_names_ne_nil {fs : FileSystem} {file : Path} (h : package_run fs file ≠ []) :
    package_names fs file ≠ [] := by
  simpa [package_names] using h

theorem intercalate_snoc {names : List String} (h : names ≠ []) (last : String) :
    ".".intercalate (names ++ [last]) = ".".intercalate names ++ "." ++ last := by
  rw [String.intercalate_append_of_ne_nil h (List.cons_ne_nil _ _), String.intercalate_singleton]

theorem static_name {w : World} {file : Path} (h : package_run w.fs file ≠ []) (f : FunctionDef) :
    (static_definition w file (dotted (package_run w.fs file) file.stem) f).name = scanned_name w.fs file f := by
  have hne : ".".intercalate (package_names w.fs file ++ [file.stem]) ≠ "" := by
    intro hempty
    rw [intercalate_snoc (package_names_ne_nil h)] at hempty
    simpa using congrArg String.length hempty
  have hdotted : dotted (package_run w.fs file) file.stem =
      some (".".intercalate (package_names w.fs file ++ [file.stem])) := by
    rw [dotted, if_neg h, package_names]
  rw [hdotted]
  simp [static_definition, scanned_name, hne]

/-- What the model keeps of a name is as long as the name, but for white space. -/
theorem length_solid {m : TaskModel} {s t : String} (h : m.text s = t) :
    (t.toList.filter (!isspace ·)).length = (s.toList.filter (!isspace ·)).length := by
  rw [← h, m.text_solid]

/-- No white space is between the two names of a function in an `__init__.py`. -/
theorem init_name_ne {w : World} {file : Path} (h : package_run w.fs file ≠ []) (f : FunctionDef)
    (hstem : file.stem = "__init__") :
    w.task_definition.text (scanned_name w.fs file f) ≠ import_name w.fs file ++ "." ++ f.name.val := by
  intro heq
  have hlen := length_solid heq
  have hinit : ("__init__".toList.filter (!isspace ·)).length = 8 := by decide
  have hdot : (".".toList.filter (!isspace ·)).length = 1 := by decide
  rw [scanned_name, import_name, if_pos hstem, intercalate_snoc (package_names_ne_nil h), hstem] at hlen
  simp only [String.toList_append, List.filter_append, List.length_append] at hlen
  omega

theorem nameKept_iff {w : World} {file : Path} (h : package_run w.fs file ≠ []) (f : FunctionDef) (d : Expr) :
    w.task_definition.text (scanned_name w.fs file f) = celery_name w.fs file f d ↔ NameKept w file f d := by
  rw [celery_name, NameKept]
  cases literal_name d with
  | some name => rfl
  | none =>
    rw [Option.getD_none]
    by_cases hstem : file.stem = "__init__"
    · exact iff_of_false (init_name_ne h f hstem) fun hkept => hkept.1 hstem
    · rw [import_name, if_neg hstem, and_iff_right hstem, scanned_name]

theorem queueKept_iff (w : World) (f : FunctionDef) (d : Expr) :
    (queue_from_decorator f).map w.task_definition.text = literal_queue d ↔ QueueKept w f d := by
  rw [QueueKept, queue_from_decorator]
  cases literal_queue d with
  | some queue =>
    rw [Option.map_eq_some_iff]
    simp only [List.findSome?_eq_some_iff]
    constructor
    · rintro ⟨first, ⟨before, e, after, hlist, hfirst, hbefore⟩, htext⟩
      exact ⟨before, e, after, first, hlist, hfirst, htext, hbefore⟩
    · rintro ⟨before, e, after, first, hlist, hfirst, htext, hbefore⟩
      exact ⟨first, ⟨before, e, after, hlist, hfirst, hbefore⟩, htext⟩
  | none =>
    rw [Option.map_eq_none_iff]
    exact List.findSome?_eq_none_iff

/-! ## The comparison -/

theorem agrees_iff {w : World} {file : Path} (h : package_run w.fs file ≠ []) (f : FunctionDef) :
    Agrees w.fs file f (kept_definition w file (dotted (package_run w.fs file) file.stem) f) ↔
      ∀ d ∈ f.decorator_list, is_task_decorator d = true → NameKept w file f d ∧ QueueKept w f d := by
  apply forall₃_congr
  intro d _ _
  rw [← nameKept_iff h, ← queueKept_iff, ← static_name h]
  rfl

theorem given_iff {w : World} {app_paths : List Path} {file : Path} {tree : Node}
    (hscan : Scanned w app_paths file tree) : Given w app_paths file tree ↔
      ScansEnd w app_paths ∧ LeavesPackages w.fs file ∧ Accepted w file tree ∧
        EachTask tree fun f d => NameKept w file f d ∧ QueueKept w f d := by
  have hforall : ((decorated tree).Forall₂ (Agrees w.fs file)
      ((decorated tree).map (kept_definition w file (dotted (package_run w.fs file) file.stem)))) ↔
        EachTask tree fun f d => NameKept w file f d ∧ QueueKept w f d := by
    rw [List.forall₂_map_right_iff, List.forall₂_same]
    exact forall₂_congr fun f _ => agrees_iff hscan.packaged f
  constructor
  · rintro ⟨n, ds, found, hds, hfound, _, hagrees⟩
    obtain ⟨m, hm, haccepted, rfl⟩ := (scan_eq_ok hscan.read).1 hfound
    obtain ⟨hleaves, rfl⟩ := guess_ok hm
    exact ⟨discover_static_ends_iff.1 ⟨n, ds, hds⟩, hleaves, haccepted, hforall.1 hagrees⟩
  · rintro ⟨hends, hleaves, haccepted, hkept⟩
    obtain ⟨root, hroot, files, hfiles, hfile⟩ := hscan.listed
    obtain ⟨n, ds, hds⟩ := discover_static_ends_iff.2 hends
    obtain ⟨n', hn'⟩ := guess_of_leaves hleaves
    have hfound := (scan_eq_ok hscan.read).2 ⟨_, hn', haccepted, rfl⟩
    -- The larger number of turns is enough for both.
    have hscanned := scan_steady w file n' (max n n') _ (by omega) hfound
    have hlist := discover_static_steady w app_paths n (max n n') _ (by omega) hds
    exact ⟨max n n', ds, _, hlist, hscanned, discover_static_contains hds hroot hfiles hfile hfound, hforall.2 hkept⟩

/-! ## After import -/

theorem runtime_of_registered {w : World} {app : CeleryApp} {name : String} (h : Registered w app name) :
    ∃ runtime, discover_runtime w app = .ok runtime ∧ (∀ d ∈ runtime, d.loaded = true) ∧
      (startswith name "celery." = false → ∃ d ∈ runtime, d.name = w.task_definition.text name) := by
  obtain ⟨items, task, hitems, htask, module, queue, signature, hmodule, hqueue, hsignature, hcheck⟩ := h
  have hd := definition_for_iff.2 ⟨module, queue, signature, hmodule, hqueue, hsignature, hcheck, rfl⟩
  obtain ⟨runtime, hruntime⟩ : ∃ runtime, discover_runtime w app = .ok runtime := by
    rw [discover_runtime, hitems]
    exact ⟨_, rfl⟩
  refine ⟨runtime, hruntime, fun e he => ?_, fun hname => ?_⟩
  · obtain ⟨_, _, _, _, hdefinition⟩ := (mem_runtime hitems hruntime e).1 he
    exact (definition_for_ok hdefinition).2
  · exact ⟨_, (mem_runtime hitems hruntime _).2 ⟨name, task, htask, hname, hd⟩, (definition_for_ok hd).1⟩

/-- A list in which Celery's own name is loaded needs an app with more tasks. -/
theorem celerys_not_listed {w : World} {app_paths : List Path} {name : String} (hown : startswith name "celery." = true)
    (h : ListedOnce w app_paths name) (app : CeleryApp) : ¬Registered w app name := by
  rintro ⟨items, task, _, _, hreadable⟩
  -- the app with this task alone
  let single : CeleryApp := ⟨.ok (some (.ok [(name, task)]))⟩
  obtain ⟨n, tasks, htasks, hcount, hloaded⟩ := h single ⟨_, task, rfl, by simp, hreadable⟩
  obtain ⟨runtime, static, hruntime, hstatic, rfl⟩ := discover_tasks_ok.1 htasks
  have hnone : discover_runtime w single = .ok [] := by
    apply congrArg Except.ok
    simp [hown]
  obtain rfl := Except.ok.inj (hruntime.symm.trans hnone)
  have hmem : name ∈ (merge_discoveries [] static).map TaskDefinition.name := by
    rw [← List.count_pos_iff, hcount]
    exact Nat.one_pos
  obtain ⟨e, he, hename⟩ := List.mem_map.1 hmem
  rcases mem_of_mem_merge he with h | h
  · cases h
  · exact absurd (hloaded e he hename) (by simp [static_unloaded hstatic e h])

theorem listedOnce_iff {w : World} {app_paths : List Path} (hends : ScansEnd w app_paths) {name : String}
    (hkept : w.task_definition.text name = name) : ListedOnce w app_paths name ↔ NotCelerys w name := by
  constructor
  · exact fun h hown => celerys_not_listed hown h
  · intro hname app happ
    have hname : startswith name "celery." = false := by
      rw [← Bool.not_eq_true]
      exact fun hown => hname hown app happ
    obtain ⟨runtime, hruntime, hloaded, hfound⟩ := runtime_of_registered happ
    obtain ⟨d, hd, hdname⟩ := hfound hname
    obtain ⟨n, static, hstatic⟩ := discover_static_ends_iff.2 hends
    obtain ⟨e, he, hename, hlisted⟩ := runtime_wins hd static
    rw [hdname, hkept] at hename
    refine ⟨n, _, discover_tasks_ok.2 ⟨runtime, static, hruntime, hstatic, rfl⟩, ?_, ?_⟩
    · apply List.count_eq_one_of_mem (merge_nodup runtime static)
      exact List.mem_map.2 ⟨e, hlisted, hename⟩
    · intro e' he' hename'
      have heq : some e' = some e := by
        rw [← mem_merge.1 he', ← mem_merge.1 hlisted, hename, hename']
      rw [Option.some.inj heq]
      exact hloaded e he

/-! ## When the scan and the registry agree -/

/-- For every world and every file that is scanned in a package: the scan and
the registry agree on its tasks exactly when nothing in the way of the scan
raises or runs for ever, the walk up the packages leaves them, the model accepts
the tasks, and every task decorator keeps the name and the queue of the scan,
under a name that is not one of Celery's own. -/
theorem scan_agrees_iff {w : World} {app_paths : List Path} {file : Path} {tree : Node}
    (hscan : Scanned w app_paths file tree) : Given w app_paths file tree ∧ Listed w app_paths file tree ↔
      ScansEnd w app_paths ∧ LeavesPackages w.fs file ∧ Accepted w file tree ∧ EachTask tree fun f d =>
        (NameKept w file f d ∧ QueueKept w f d) ∧ NotCelerys w (celery_name w.fs file f d) := by
  rw [given_iff hscan, and_assoc, and_assoc, and_assoc]
  refine and_congr_right fun hends => and_congr_right fun _ => and_congr_right fun _ => ?_
  rw [@eachTask_and tree (fun f d => NameKept w file f d ∧ QueueKept w f d)]
  apply and_congr_right
  intro hkept
  -- a name that the scan gives is one that the model keeps
  refine forall₂_congr fun f hf => forall₃_congr fun d hd ht => listedOnce_iff hends ?_
  rw [← (nameKept_iff hscan.packaged f d).2 (hkept f hf d hd ht).1]
  exact w.task_definition.text_text _

/-! ## The shop -/

theorem shop_scanned (tree : Node) : Scanned (shop tree) [shop_dir] shop_tasks tree := by
  have hlisted : candidate_files shop_fs shop_dir = .ok [shop_tasks] := by decide
  have hpackaged : package_run shop_fs shop_tasks ≠ [] := by decide
  exact ⟨⟨shop_dir, by simp, _, hlisted, by simp⟩, rfl, hpackaged⟩

theorem shop_leaves : LeavesPackages shop_fs shop_tasks := by
  refine ⟨[shop_dir], ⟨"/", ["srv"]⟩, [⟨"/", []⟩], rfl, ?_, rfl⟩
  exact List.forall_mem_singleton.2 rfl

theorem shop_scans_end (tree : Node) : ScansEnd (shop tree) [shop_dir] :=
  discover_static_ends_iff.1 ⟨2, _, shop_static tree⟩

/-- With `queue="mail"`, both sides agree. -/
theorem scan_agrees_queue : Given (shop (module_of (send ⟨"queue", by decide⟩ "mail"))) [shop_dir] shop_tasks
      (module_of (send ⟨"queue", by decide⟩ "mail")) ∧
    Listed (shop (module_of (send ⟨"queue", by decide⟩ "mail"))) [shop_dir] shop_tasks
      (module_of (send ⟨"queue", by decide⟩ "mail")) := by
  refine (scan_agrees_iff (shop_scanned _)).2 ⟨shop_scans_end _, shop_leaves, fun _ _ => rfl, ?_⟩
  rw [EachTask, decorated_send, List.forall_mem_singleton]
  refine List.forall_mem_singleton.2 fun _ => ⟨⟨⟨?_, rfl⟩, ?_⟩, ?_⟩
  · show shop_tasks.stem ≠ "__init__"
    decide
  · exact ⟨[], _, [], "mail", rfl, rfl, rfl, by simp⟩
  · intro hown
    have hname : startswith "shop.tasks.send" "celery." = true := hown
    exact absurd hname (by decide)

/-- With `name="mail.send"`, the scan calls the task `shop.tasks.send`. -/
theorem named_task_disagrees : Scanned (shop (module_of (send ⟨"name", by decide⟩ "mail.send"))) [shop_dir] shop_tasks
      (module_of (send ⟨"name", by decide⟩ "mail.send")) ∧
    ¬ Given (shop (module_of (send ⟨"name", by decide⟩ "mail.send"))) [shop_dir] shop_tasks
      (module_of (send ⟨"name", by decide⟩ "mail.send")) := by
  refine ⟨shop_scanned _, fun hgiven => ?_⟩
  have hkept := ((given_iff (shop_scanned _)).1 hgiven).2.2.2
  rw [EachTask, decorated_send, List.forall_mem_singleton] at hkept
  obtain ⟨hname, _⟩ := List.forall_mem_singleton.1 hkept rfl
  have hkept : "shop.tasks.send" = "mail.send" := hname
  simp at hkept

end Z4jCelery.Discovery
