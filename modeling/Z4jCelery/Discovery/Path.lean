import Z4jCelery.Py.Effect
import Z4jCelery.Lib.Climb
/-!
# Paths and the file system

A path is what `pathlib` keeps of one: a root, which is empty for a relative
path, and components. Its parents are lexical. `/` and `.` are their own
parents.
-/

namespace Z4jCelery.Discovery

open Py Lib

structure Path where
  root : String
  parts : List String
  deriving DecidableEq

namespace Path

def parent (p : Path) : Path := { p with parts := p.parts.dropLast }

/-- The last component; `/` and `.` have none. -/
def name (p : Path) : String := p.parts.getLast?.getD ""

/-- The name without its last suffix. A leading dot starts no suffix, and a
trailing one ends none. -/
def stem (p : Path) : String :=
  match rpartition '.' p.name.toList with
  | some (before, after) => if before ≠ [] ∧ after ≠ [] then String.ofList before else p.name
  | none => p.name

/-- `current / "__init__.py"`. -/
instance : HDiv Path String Path := ⟨fun p name => { p with parts := p.parts ++ [name] }⟩

/-- `str(p)`. -/
def str (p : Path) : String :=
  if p.root = "" ∧ p.parts = [] then "." else p.root ++ "/".intercalate p.parts

/-- The path, and its parents up to the one that is its own. -/
def ancestors (p : Path) : List Path := p.parts.reverse.tails.map fun up => { p with parts := up.reverse }

@[simp] theorem parent_div (p : Path) (name : String) : (p / name).parent = p := by
  simp [parent, HDiv.hDiv]

@[simp] theorem name_div (p : Path) (n : String) : (p / n).name = n := by
  simp [name, HDiv.hDiv]

theorem ancestors_div (p : Path) (name : String) : (p / name).ancestors = (p / name) :: p.ancestors := by
  simp [ancestors, HDiv.hDiv]

/-- Going up from a path visits its ancestors and stays at the last. -/
theorem ascent (p : Path) : Climb.Ascent parent p p.ancestors := by
  obtain ⟨root, parts⟩ := p
  induction parts using List.reverseRecOn with
  | nil => exact .last rfl
  | append_singleton parts n ih =>
    have hdiv : (⟨root, parts ++ [n]⟩ : Path) = (⟨root, parts⟩ : Path) / n := rfl
    rw [hdiv, ancestors_div]
    apply Climb.Ascent.next
    rw [parent_div]
    exact ih

end Path

/-- What the file system answers about a path: a probe may raise, for instance
where a directory may not be searched. `listdir` gives the names in a
directory, `stat` a file's size, `read_text` its text if it is UTF-8. -/
structure FileSystem where
  is_file : Path → Except Exn Bool
  is_dir : Path → Except Exn Bool
  is_symlink : Path → Except Exn Bool
  listdir : Path → Except Exn (List String)
  stat : Path → Except Exn Nat
  read_text : Path → Except Exn (Option String)

end Z4jCelery.Discovery
