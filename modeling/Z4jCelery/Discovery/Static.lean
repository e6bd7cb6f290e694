import Z4jCelery.Core
import Z4jCelery.Discovery.Path
import Z4jCelery.Py.Loop
/-!
# The static scan

`discover_static` looks for task files below the app paths, parses them and
lists the functions that carry a task decorator. It never imports them: a
task's name is guessed from the directories above its file.
-/

namespace Z4jCelery.Discovery

open Py Lib Z4jCelery.Core

/-! ## Syntax trees -/

/-- A Python identifier: it has no dot. -/
abbrev Ident := { s : String // '.' ∉ s.toList }

/-- A string literal or another, as its source text. -/
inductive Const where
  | str (value : String)
  | other (text : String)
  deriving DecidableEq

/-- An expression, as far as a decorator is read; `other` is any other
expression, as its source text. `**kwargs` is a keyword without a name. -/
inductive Expr where
  | name (id : Ident)
  | attribute (value : Expr) (attr : Ident)
  | call (func : Expr) (keywords : List (Option Ident × Expr))
  | constant (value : Const)
  | other (text : String)

structure Arg where
  arg : Ident
  annotation : Option Expr

structure Arguments where
  posonlyargs : List Arg
  args : List Arg
  vararg : Option Arg
  kwonlyargs : List Arg
  kwarg : Option Arg

/-- A `FunctionDef` or an `AsyncFunctionDef`. -/
structure FunctionDef where
  name : Ident
  args : Arguments
  decorator_list : List Expr

/-- A node with its child nodes. -/
inductive Node where
  | function (f : FunctionDef) (children : List Node)
  | other (children : List Node)

def Node.children : Node → List Node
  | .function _ children => children
  | .other children => children

mutual
def Node.size : Node → Nat
  | .function _ children => Node.sizes children + 1
  | .other children => Node.sizes children + 1

def Node.sizes : List Node → Nat
  | [] => 0
  | node :: nodes => node.size + Node.sizes nodes
end

theorem Node.size_eq (node : Node) : node.size = Node.sizes node.children + 1 := by
  cases node <;> rw [Node.size, Node.children]

theorem Node.sizes_append (xs ys : List Node) : Node.sizes (xs ++ ys) = Node.sizes xs + Node.sizes ys := by
  induction xs with
  | nil => rw [List.nil_append, Node.sizes, Nat.zero_add]
  | cons x xs ih => rw [List.cons_append, Node.sizes, Node.sizes, ih, Nat.add_assoc]

/-- `ast.walk`, with the nodes still to visit in a queue. -/
def ast_walk : List Node → List Node
  | [] => []
  | node :: todo => node :: ast_walk (todo ++ node.children)
  termination_by todo => Node.sizes todo
  decreasing_by
    rw [Node.sizes_append, Node.sizes, Node.size_eq]
    omega

/-- The functions of a file, in the order of `ast.walk`. -/
def functions (tree : Node) : List FunctionDef := (ast_walk [tree]).filterMap fun node => match node with
  | .function f _ => some f
  | .other _ => none

/-! ## Decorators -/

/-- The identifiers of an attribute chain, last first. A chain that does not
start at a name has none for its start. -/
def attribute_parts : Expr → List Ident
  | .attribute value attr => attr :: attribute_parts value
  | .name id => [id]
  | _ => []

def decorator_name : Expr → Option String
  | .call func _ => decorator_name func
  | .name id => some id.val
  | .attribute value attr => some (".".intercalate ((attr :: attribute_parts value).map Subtype.val).reverse)
  | .constant _ => none
  | .other _ => none

/-- `@shared_task`, `@app.task`, `@celery.task`, `@task`, called or not. -/
def is_task_decorator (decorator : Expr) : Bool :=
  match decorator_name decorator with
  | none => false
  | some name => last_part '.' name ∈ ["shared_task", "task"]

def has_task_decorator (node : FunctionDef) : Bool := node.decorator_list.any is_task_decorator

/-- The first keyword of that name whose value is a string literal. -/
def literal_keyword (key : String) (keywords : List (Option Ident × Expr)) : Option String :=
  keywords.findSome? fun keyword => match keyword with
    | (some arg, .constant (.str value)) => if arg.val = key then some value else none
    | _ => none

/-- `queue="..."`, when the decorator is a call that has it. -/
def decorator_queue : Expr → Option String
  | .call _ keywords => literal_keyword "queue" keywords
  | _ => none

def queue_from_decorator (node : FunctionDef) : Option String := node.decorator_list.findSome? decorator_queue

/-! ## Scanning a file -/

/-- What a scan depends on: the file system, `ast.parse` (`none` is a
`SyntaxError`), `ast.unparse`, and the model that a `TaskDefinition` is. -/
structure World where
  fs : FileSystem
  parse : String → Except Exn (Option Node)
  unparse : Expr → Except Exn String
  task_definition : TaskModel

def ENGINE : String := "celery"

def CANDIDATE_FILENAMES : List String := ["tasks.py", "celery.py", "celery_tasks.py"]

def MAX_TASKS_FILE_BYTES : Nat := 2 * 1024 * 1024

def render_arg (w : World) (arg : Arg) : String :=
  match arg.annotation with
  | none => arg.arg.val
  | some annotation =>
    match w.unparse annotation with
    | .error _ => arg.arg.val
    | .ok annotation => arg.arg.val ++ ": " ++ annotation

/-- A signature of more than 2000 characters is cut. -/
def clip (rendered : String) : String := if rendered.length > 2000 then head rendered 1997 ++ "..." else rendered

def render_signature (w : World) (node : FunctionDef) : String :=
  let positional := (node.args.posonlyargs ++ node.args.args).map (render_arg w)
  let vararg := node.args.vararg.toList.map fun arg => "*" ++ arg.arg.val
  let kwonly := node.args.kwonlyargs.map (render_arg w)
  let kwarg := node.args.kwarg.toList.map fun arg => "**" ++ arg.arg.val
  clip ("(" ++ ", ".intercalate (positional ++ vararg ++ kwonly ++ kwarg) ++ ")")

/-- The walk up the packages above a file, for at most `fuel` directories. -/
def guess_module_name (fs : FileSystem) (fuel : Nat) (file_path : Path) : LoopM (Option String) := do
  let parts ← ExceptT.mk (Climb.climb Path.parent (fun current => fs.is_file (current / "__init__.py"))
    (fun parts current => parts ++ [current.name]) fuel file_path.parent [])
  if parts = [] then pure none
  else pure (some (".".intercalate (parts.reverse ++ [file_path.stem])))

/-- What `_scan_file` builds the definition of a decorated function from. -/
def static_definition (w : World) (file_path : Path) (module_name : Option String) (node : FunctionDef) :
    TaskDefinition where
  name := match module_name with
    | some m => if m ≠ "" then m ++ "." ++ node.name.val else node.name.val
    | none => node.name.val
  module := module_name
  engine := ENGINE
  queue := queue_from_decorator node
  signature := some (render_signature w node)
  declared_in := some file_path.str
  loaded := false
  tags := []

def decorated (tree : Node) : List FunctionDef := (functions tree).filter has_task_decorator

/-- The file has a size, and one of at most 2 MiB; one that cannot be asked for
it is skipped. -/
def small_enough (fs : FileSystem) (file_path : Path) : Except Exn Bool :=
  match fs.stat file_path with
  | .error e => if e.isa .OSError then .ok false else .error e
  | .ok st_size => .ok (st_size ≤ MAX_TASKS_FILE_BYTES)

/-- The tree of a file; `none` for a file that is skipped. -/
def read_tree (w : World) (file_path : Path) : Except Exn (Option Node) := do
  if ← small_enough w.fs file_path then
    match w.fs.read_text file_path with
    | .error e => if e.isa .OSError then pure none else throw e
    | .ok none => pure none
    | .ok (some text) => w.parse text
  else pure none

/-- Parse one file and define the decorated functions in it. -/
def scan_file (w : World) (fuel : Nat) (file_path : Path) : LoopM (List TaskDefinition) := do
  match ← LoopM.of (read_tree w file_path) with
  | none => pure []
  | some tree =>
    let module_name ← guess_module_name w.fs fuel file_path
    LoopM.of ((decorated tree).mapM fun node =>
      w.task_definition.make (static_definition w file_path module_name node))

/-! ## Looking for files -/

/-- The path passes the probe and is no symlink. -/
def is_own (fs : FileSystem) (probe : Path → Except Exn Bool) (p : Path) : Except Exn Bool := do
  if ← probe p then pure (!(← fs.is_symlink p)) else pure false

/-- A file of the `tasks` package that is scanned. -/
def is_task_module (fs : FileSystem) (file_path : Path) : Except Exn Bool := do
  if ← fs.is_symlink file_path then pure false
  else pure (file_path.name = "__init__.py" || !startswith file_path.name "_")

/-- The paths that pass a probe, asked one after another. -/
def passing (probe : Path → Except Exn Bool) : List Path → Except Exn (List Path)
  | [] => pure []
  | p :: ps => do
    let pass ← probe p
    let rest ← passing probe ps
    pure (if pass then p :: rest else rest)

def candidate_files (fs : FileSystem) (root : Path) : Except Exn (List Path) := do
  if ← is_own fs fs.is_dir root then
    let top ← passing (is_own fs fs.is_file) (CANDIDATE_FILENAMES.map (root / ·))
    let tasks_pkg := root / "tasks"
    if ← is_own fs fs.is_dir tasks_pkg then
      let glob := (← fs.listdir tasks_pkg).filter (endswith · ".py")
      let modules ← passing (is_task_module fs) (glob.map (tasks_pkg / ·))
      pure (top ++ modules)
    else pure top
  else pure []

/-- The definitions of some files; a file that cannot be scanned has none. -/
def scan_files (w : World) (fuel : Nat) : List Path → LoopM (List TaskDefinition)
  | [] => pure []
  | file_path :: files => do
    let definitions ← tryCatch (scan_file w fuel file_path) fun _ => LoopM.of (.ok [])
    pure (definitions ++ (← scan_files w fuel files))

def discover_static (w : World) (fuel : Nat) : List Path → LoopM (List TaskDefinition)
  | [] => pure []
  | root :: app_paths => do
    let files ← LoopM.of (candidate_files w.fs root)
    let definitions ← scan_files w fuel files
    pure (definitions ++ (← discover_static w fuel app_paths))

end Z4jCelery.Discovery
