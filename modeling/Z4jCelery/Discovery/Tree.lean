import Z4jCelery.Discovery.Static
/-!
# Directory trees

The static scan asks the file system about paths. A `Tree` says what exists
under which path, `Reflects` that the answers are as the tree is, and `Tree.fs`
is a file system that answers so.
-/

namespace Z4jCelery.Discovery

open Py Lib

inductive Kind where
  | regular
  | directory (names : List String)
  | special
  deriving DecidableEq

/-- What is found at the end of a path. `special` is a FIFO, a device or a socket. -/
structure Inode where
  kind : Kind
  st_size : Nat
  deriving DecidableEq

/-- What a path names; a symlink with what it leads to, if that exists. -/
inductive Entry where
  | inode (i : Inode)
  | symlink (target : Option Inode)
  deriving DecidableEq

def Entry.follow : Entry → Option Inode
  | .inode i => some i
  | .symlink target => target

/-- What exists under which path. A directory does not list a name twice. -/
structure Tree where
  entry : Path → Option Entry
  names_nodup : ∀ p names st_size, (entry p).bind Entry.follow = some ⟨.directory names, st_size⟩ → names.Nodup

namespace Tree
variable (tree : Tree)

/-- What a path leads to. -/
def follow (p : Path) : Option Inode := (tree.entry p).bind Entry.follow

/-- A directory, and no symlink to one. -/
def OwnDirectory (p : Path) (names : List String) : Prop :=
  ∃ st_size, tree.entry p = some (.inode ⟨.directory names, st_size⟩)

end Tree

/-- The file system answers as the tree is, whenever it answers. A directory may
be listed in part. -/
structure Reflects (fs : FileSystem) (tree : Tree) : Prop where
  is_file : ∀ p b, fs.is_file p = .ok b → (b = true ↔ ∃ st_size, tree.follow p = some ⟨.regular, st_size⟩)
  is_dir : ∀ p b, fs.is_dir p = .ok b → (b = true ↔ ∃ names st_size, tree.follow p = some ⟨.directory names, st_size⟩)
  is_symlink : ∀ p b, fs.is_symlink p = .ok b → (b = true ↔ ∃ target, tree.entry p = some (.symlink target))
  listdir : ∀ p listed, fs.listdir p = .ok listed →
    ∃ names st_size, tree.follow p = some ⟨.directory names, st_size⟩ ∧ listed.Subperm names
  stat : ∀ p st_size, fs.stat p = .ok st_size → ∃ i, tree.follow p = some i ∧ i.st_size = st_size

/-- What is no symlink is what its path leads to. -/
theorem entry_of_follow {fs : FileSystem} {tree : Tree} (hfs : Reflects fs tree) {p : Path} {i : Inode}
    (hlink : fs.is_symlink p = .ok false) (h : tree.follow p = some i) : tree.entry p = some (.inode i) := by
  rw [Tree.follow] at h
  obtain ⟨entry, he, hi⟩ := Option.bind_eq_some_iff.1 h
  cases entry with
  | inode j => rw [he, show j = i from Option.some.inj hi]
  | symlink target => exact absurd ((hfs.is_symlink p false hlink).2 ⟨target, he⟩) Bool.false_ne_true

/-! ## A world that answers as a tree is -/

namespace Tree
variable (tree : Tree)

/-- A file system that answers every question as the tree is, and cannot decode
any file. -/
def fs : FileSystem where
  is_file p := .ok ((tree.follow p).any fun i => i.kind = .regular)
  is_dir p := .ok ((tree.follow p).any fun i => match i.kind with
    | .directory _ => true
    | .regular | .special => false)
  is_symlink p := .ok (match tree.entry p with
    | some (.symlink _) => true
    | some (.inode _) | none => false)
  listdir p := match tree.follow p with
    | some ⟨.directory names, _⟩ => .ok names
    | some ⟨.regular, _⟩ | some ⟨.special, _⟩ | none => .error ⟨.OSError, "NotADirectoryError", "not a directory"⟩
  stat p := match tree.follow p with
    | some i => .ok i.st_size
    | none => .error ⟨.OSError, "FileNotFoundError", "no such file or directory"⟩
  read_text _ := .ok none

def world : World where
  fs := tree.fs
  parse _ := .ok none
  unparse _ := .ok ""
  task_definition := .lenient

end Tree

theorem fs_reflects (tree : Tree) : Reflects tree.fs tree where
  is_file p b h := by
    obtain rfl := Except.ok.inj h
    cases hf : tree.follow p with
    | none => simp
    | some i =>
      obtain ⟨kind, st_size⟩ := i
      simp
  is_dir p b h := by
    obtain rfl := Except.ok.inj h
    cases hf : tree.follow p with
    | none => simp
    | some i =>
      obtain ⟨kind, st_size⟩ := i
      cases kind <;> simp
  is_symlink p b h := by
    obtain rfl := Except.ok.inj h
    cases he : tree.entry p with
    | none => simp
    | some entry => cases entry <;> simp
  listdir p listed h := by
    rw [Tree.fs] at h
    simp only at h
    split at h
    · rename_i names st_size hf
      obtain rfl := Except.ok.inj h
      exact ⟨names, st_size, hf, names, .refl _, .refl _⟩
    · cases h
    · cases h
    · cases h
  stat p st_size h := by
    rw [Tree.fs] at h
    simp only at h
    split at h
    · rename_i i hf
      exact ⟨i, hf, Except.ok.inj h⟩
    · cases h

end Z4jCelery.Discovery
