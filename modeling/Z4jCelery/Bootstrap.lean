import Z4jCelery.Py.Effect
/-!
# The agent in a worker process

A `worker_ready` signal starts the agent if the process was started as
`celery worker`, which is read off `sys.argv`: a launcher, Celery's global
options, and the sub-command. A started agent is what `install_agent` returns;
every call of it is recorded.
-/

namespace Z4jCelery.Bootstrap

open Py

/-! ## File names -/

inductive Platform where
  | posix
  | windows
  deriving DecidableEq

def Platform.is_sep : Platform → Char → Bool
  | .posix, c => c = '/'
  | .windows, c => c = '/' || c = '\\'

def Platform.sep : Platform → Char
  | .posix => '/'
  | .windows => '\\'

/-- Without `\\?\`, which stands in front of a drive, or with `UNC\` of a share. -/
def split_extended_path (path : List Char) : List Char :=
  match path.dropPrefix? "\\\\?\\UNC\\".toList with
  | some share => '\\' :: '\\' :: share
  | none => (path.dropPrefix? "\\\\?\\".toList).getD path

/-- What follows `\\machine\share\`; a share has no second backslash in front. -/
def after_share (path : List Char) : Option (List Char) := do
  let machine ← path.dropPrefix? "\\\\".toList
  if machine.head? = some '\\' then none
  else
    match machine.dropWhile (· ≠ '\\') with
    | [] => none
    | _ :: share => if share.head? = some '\\' then none else some ((share.dropWhile (· ≠ '\\')).drop 1)

def after_drive : List Char → List Char
  | letter :: ':' :: path => if letter.isAlpha then path else letter :: ':' :: path
  | path => path

/-- A path behind its drive or share, which only Windows has, as Python 3.11 splits
it. -/
def Platform.relative (platform : Platform) (path : List Char) : List Char :=
  match platform with
  | .posix => path
  | .windows =>
    let part := split_extended_path (path.map fun c => if c = '/' then '\\' else c)
    (after_share part).getD (after_drive part)

/-- The last component; empty ones and `.` are none. -/
def last_part (platform : Platform) (path : List Char) : List Char :=
  ((path.splitOnP platform.is_sep).filter fun part => part ≠ [] && part ≠ ['.']).getLast?.getD []

/-- `Path(path).name`. -/
def path_name (platform : Platform) (path : String) : String :=
  String.ofList (last_part platform (platform.relative path.toList))

/-! ## The sub-command -/

/-- The global options whose value is the next token. -/
def OPTIONS_WITH_SEPARATE_VALUE : List String :=
  ["-A", "--app", "-b", "--broker", "--result-backend", "--loader", "--config", "--workdir"]

/-- The first token that is neither an option nor the value of one is
`worker`. -/
def argv_has_worker_subcommand : List String → Bool
  | [] => false
  | [arg] => if arg ∈ OPTIONS_WITH_SEPARATE_VALUE ∨ startswith arg "-" then false else decide (arg = "worker")
  | arg :: value :: remaining =>
    if arg ∈ OPTIONS_WITH_SEPARATE_VALUE then argv_has_worker_subcommand remaining
    else if startswith arg "-" then argv_has_worker_subcommand (value :: remaining)
    else decide (arg = "worker")

/-! ## The launcher -/

def CELERY_PROGS : List String := ["celery", "celery.exe"]

def UVX_PROGS : List String := ["uvx", "uvx.exe"]

def WRAPPERS : List String :=
  ["uv", "uv.exe", "pipx", "pipx.exe", "poetry", "poetry.exe", "hatch", "hatch.exe", "rye", "rye.exe", "pdm", "pdm.exe"]

/-- An interpreter that Celery's module may be loaded under. -/
def is_python (name : String) : Bool := startswith name "python" || startswith name "pypy"

/-- The tokens after `-m celery`. -/
def module_args (argv : List String) : Option (List String) :=
  match argv with
  | m :: module :: remaining => if m = "-m" ∧ module = "celery" then some remaining else none
  | _ => none

/-- Past the sub-commands of a wrapper, to `celery` or an interpreter's
`-m celery`. -/
def wrapped_worker (platform : Platform) : List String → Bool
  | [] => false
  | arg :: argv =>
    if arg ∈ CELERY_PROGS then argv_has_worker_subcommand argv
    else if is_python (path_name platform arg) then
      match module_args argv with
      | some remaining => argv_has_worker_subcommand remaining
      | none => wrapped_worker platform argv
    else wrapped_worker platform argv

/-- What follows the direct entry point, an interpreter or `uvx`, in this order. -/
def direct_args (prog : String) (argv : List String) : Option (List String) :=
  if prog ∈ CELERY_PROGS then some argv
  else if is_python prog ∧ (module_args argv).isSome then module_args argv
  else if prog ∈ UVX_PROGS ∧ argv.head? = some "celery" then some argv.tail
  else none

def is_celery_worker_invocation (platform : Platform) (argv : List String) : Bool :=
  match argv with
  | [] => false
  | path :: argv =>
    let prog := path_name platform path
    match direct_args prog argv with
    | some remaining => argv_has_worker_subcommand remaining
    | none => decide (prog ∈ WRAPPERS) && wrapped_worker platform argv

/-! ## The framework -/

inductive Framework where
  | fastapi
  | flask
  | django
  | bare
  deriving DecidableEq

/-- What importing a framework's adapter does; `missing` is an `ImportError`. -/
inductive Import where
  | found
  | missing
  | raises (e : Exn)

def resolve_framework_adapter (imports : Framework → Import) : Except Exn Framework :=
  [Framework.fastapi, .flask, .django].foldr (fun framework others =>
    match imports framework with
    | .found => .ok framework
    | .missing => others
    | .raises e => .error e) (.ok .bare)

/-! ## The signal -/

/-- A call of `install_agent`, with its engine's arguments. -/
structure Install where
  celery_app : Val
  worker_hostname : Val
  framework : Framework
  dev_mode : Bool

/-- The process, and the sender of the signal: what reading its attributes
does. -/
structure Process (ρ : Type) where
  platform : Platform
  argv : List String
  environ : String → Option String
  app : Except Exn Val
  hostname : Except Exn Val
  current_app : Except Exn Val
  imports : Framework → Import
  install_agent : Install → Except Exn ρ

structure Agent (ρ : Type) where
  runtime : Option ρ
  installs : List Install

variable {ρ : Type}

def env_flag (p : Process ρ) (name : String) : Bool :=
  lower ((p.environ name).getD "") ∈ ["1", "true", "yes", "on"]

/-- `getattr(sender, "app", None) or current_app`. -/
def celery_app (p : Process ρ) : Except Exn Val := do
  let app ← getattr p.app
  if app.truthy then return app
  p.current_app

def install (p : Process ρ) (celery_app : Val) : PyM (Agent ρ) ρ := do
  let hostname ← ofOutcome (getattr p.hostname)
  let framework ← ofOutcome (resolve_framework_adapter p.imports)
  let request : Install := ⟨celery_app, hostname, framework, env_flag p "Z4J_DEV_MODE"⟩
  modify fun s => { s with installs := s.installs ++ [request] }
  ofOutcome (p.install_agent request)

/-- A configuration error and any other are only logged. -/
def on_worker_ready (p : Process ρ) : PyM (Agent ρ) Unit := do
  let s ← MonadState.get
  if s.runtime.isSome then return ()
  if env_flag p "Z4J_DISABLED" then return ()
  if ¬ is_celery_worker_invocation p.platform p.argv then return ()
  match celery_app p with
  | .error _ => return ()
  | .ok celery_app =>
    tryExcept (do
        let runtime ← install p celery_app
        modify fun s => { s with runtime := some runtime })
      fun _ => pure ()

end Z4jCelery.Bootstrap
