import Z4jCelery.Discovery.Agreement
/-!
# Which functions the scan defines

The recogniser joins an attribute chain into a dotted name and splits the name
again. What it accepts is read off the syntax alone (`is_task_decorator_iff`),
and the walk meets every node of the tree once (`ast_walk_perm`), so a scan
defines every function with a task decorator once and nothing else
(`scan_file_exact`).
-/

namespace Z4jCelery.Discovery

open Py Lib Z4jCelery.Core

/-! ## Decorators -/

def IsTask (id : Ident) : Prop := id.val = "shared_task" ∨ id.val = "task"

/-- Below the calls there is a name or an attribute that ends in `task` or
`shared_task`, of whatever value. -/
inductive TaskDecorator : Expr → Prop where
  | name {id : Ident} : IsTask id → TaskDecorator (.name id)
  | attribute {value : Expr} {attr : Ident} : IsTask attr → TaskDecorator (.attribute value attr)
  | call {func : Expr} {keywords : List (Option Ident × Expr)} : TaskDecorator func →
      TaskDecorator (.call func keywords)

theorem last_part_ident (id : Ident) : last_part '.' id.val = id.val := last_part_self id.property

/-- The last part of a dotted chain is its last identifier. -/
theorem last_part_chain (attr : Ident) (parts : List Ident) :
    last_part '.' (".".intercalate ((attr :: parts).map Subtype.val).reverse) = attr.val := by
  rw [List.map_cons, List.reverse_cons]
  rcases List.eq_nil_or_concat (parts.map Subtype.val).reverse with h | ⟨front, last, h⟩
  · rw [h, List.nil_append, String.intercalate_singleton, last_part_ident]
  · have hne : (parts.map Subtype.val).reverse ≠ [] := by
      rw [h, List.concat_eq_append]
      exact List.append_ne_nil_of_right_ne_nil _ (List.cons_ne_nil _ _)
    rw [intercalate_snoc hne]
    exact last_part_append attr.property _

theorem is_task_decorator_ident {decorator : Expr} {name : String} {id : Ident}
    (hname : decorator_name decorator = some name) (hlast : last_part '.' name = id.val) :
    is_task_decorator decorator = true ↔ IsTask id := by
  rw [is_task_decorator, hname, IsTask]
  simp [hlast]

/-- By the recursion of `decorator_name`, one layer of calls at a time. -/
theorem is_task_decorator_iff (decorator : Expr) : is_task_decorator decorator = true ↔ TaskDecorator decorator := by
  fun_induction decorator_name decorator with
  | case1 func keywords ih =>
    have hsame : is_task_decorator (.call func keywords) = is_task_decorator func := by
      rw [is_task_decorator, decorator_name, is_task_decorator]
    rw [hsame, ih]
    constructor
    · exact .call
    · rintro (_ | _ | h)
      exact h
  | case2 id =>
    rw [is_task_decorator_ident rfl (last_part_ident id)]
    constructor
    · exact .name
    · rintro ⟨h⟩
      exact h
  | case3 value attr =>
    rw [is_task_decorator_ident rfl (last_part_chain attr (attribute_parts value))]
    constructor
    · exact .attribute
    · rintro (_ | h)
      exact h
  | case4 => exact iff_of_false (by simp [is_task_decorator, decorator_name]) (by rintro ⟨⟩)
  | case5 => exact iff_of_false (by simp [is_task_decorator, decorator_name]) (by rintro ⟨⟩)

/-! ## Nodes -/

mutual
/-- The node and every node below it, from the source's top to its bottom. -/
def Node.nodes : Node → List Node
  | .function f children => .function f children :: Node.listing children
  | .other children => .other children :: Node.listing children

def Node.listing : List Node → List Node
  | [] => []
  | node :: nodes => node.nodes ++ Node.listing nodes
end

theorem Node.nodes_eq (node : Node) : node.nodes = node :: Node.listing node.children := by
  cases node <;> rw [Node.nodes, Node.children]

theorem Node.listing_append (xs ys : List Node) : Node.listing (xs ++ ys) = Node.listing xs ++ Node.listing ys := by
  induction xs with
  | nil => rw [List.nil_append, Node.listing, List.nil_append]
  | cons x xs ih => rw [List.cons_append, Node.listing, Node.listing, ih, List.append_assoc]

/-- The walk meets every node once, in another order. -/
theorem ast_walk_perm (todo : List Node) : (ast_walk todo).Perm (Node.listing todo) := by
  fun_induction ast_walk todo with
  | case1 => rw [Node.listing]
  | case2 node todo ih =>
    rw [Node.listing, Node.nodes_eq, List.cons_append]
    apply List.Perm.cons
    rw [Node.listing_append] at ih
    exact ih.trans List.perm_append_comm

/-- The functions among all nodes of the tree. -/
def Node.function_defs (tree : Node) : List FunctionDef := tree.nodes.filterMap fun node => match node with
  | .function f _ => some f
  | .other _ => none

theorem functions_perm (tree : Node) : (functions tree).Perm tree.function_defs := by
  have hwalk : (ast_walk [tree]).Perm tree.nodes := by
    have h := ast_walk_perm [tree]
    rwa [Node.listing, Node.listing, List.append_nil] at h
  exact hwalk.filterMap _

/-! ## Functions with a task decorator -/

def HasTaskDecorator (f : FunctionDef) : Prop := ∃ decorator ∈ f.decorator_list, TaskDecorator decorator

theorem has_task_decorator_iff (f : FunctionDef) : has_task_decorator f = true ↔ HasTaskDecorator f := by
  rw [has_task_decorator, List.any_eq_true, HasTaskDecorator]
  simp only [is_task_decorator_iff]

instance (f : FunctionDef) : Decidable (HasTaskDecorator f) :=
  decidable_of_iff (has_task_decorator f = true) (has_task_decorator_iff f)

/-- What the scan is for: the functions of the tree with a task decorator. -/
def Node.task_functions (tree : Node) : List FunctionDef := tree.function_defs.filter (HasTaskDecorator ·)

theorem decorated_perm (tree : Node) : (decorated tree).Perm tree.task_functions := by
  have hsame : has_task_decorator = fun f => decide (HasTaskDecorator f) := by
    funext f
    rw [Bool.eq_iff_iff, has_task_decorator_iff, decide_eq_true_iff]
  rw [decorated, hsame]
  exact (functions_perm tree).filter _

/-! ## A scan -/

/-- The model accepts every definition. -/
def Accepts (w : World) : Prop := ∀ d, w.task_definition.check d = .ok ()

/-- The scan of a parsed file ends as the walk that names its module does, with
the definition of each decorated function. -/
theorem scan_file_run {w : World} (haccepts : Accepts w) {file : Path} {tree : Node}
    (hread : read_tree w file = .ok (some tree)) (n : Nat) : (scan_file w n file).run =
      (guess_module_name w.fs n file).run.map (Except.map fun m =>
        (decorated tree).map (kept_definition w file m)) := by
  have hdefine : define_tasks w file tree = fun m => LoopM.of (.ok ((decorated tree).map (kept_definition w file m))) := by
    funext m
    exact congrArg LoopM.of (TaskModel.mapM_make.2 ⟨fun f _ => haccepts _, rfl⟩)
  rw [scan_of_read hread, hdefine, ExceptT.run_bind]
  rcases (guess_module_name w.fs n file).run with _ | _ | m <;> rfl

/-- For every tree: the scan of a file with that tree defines, under the module
name that it finds, each function of the tree that has a task decorator once
and nothing else, and it returns whenever the walk leaves the packages. -/
theorem scan_file_exact {w : World} (haccepts : Accepts w) {file : Path} {tree : Node}
    (hread : read_tree w file = .ok (some tree)) :
    (∃ defined : List FunctionDef, defined.Perm tree.task_functions ∧ ∀ n, (scan_file w n file).run =
      (guess_module_name w.fs n file).run.map (Except.map fun m => defined.map (kept_definition w file m))) ∧
      ((∃ n ds, (scan_file w n file).run = some (.ok ds)) ↔ LeavesPackages w.fs file) := by
  refine ⟨⟨decorated tree, decorated_perm tree, scan_file_run haccepts hread⟩, ?_⟩
  simp only [scan_eq_ok hread]
  constructor
  · rintro ⟨n, _, m, hm, _⟩
    exact (guess_ok hm).1
  · intro h
    obtain ⟨n, hn⟩ := guess_of_leaves h
    exact ⟨n, _, _, hn, fun f _ => haccepts _, rfl⟩

/-- `@make_app().task()` over `async def deliver()`, which is a method. -/
def method : FunctionDef where
  name := ⟨"deliver", by decide⟩
  args := ⟨[], [], none, [], none⟩
  decorator_list := [.call (.attribute (.call (.name ⟨"make_app", by decide⟩) []) ⟨"task", by decide⟩) []]

/-- The method's class beside an undecorated function. -/
def class_of_method : Node :=
  .other [.function { method with decorator_list := [] } [], .other [.function method [.other []]]]

theorem scan_file_exact_method : class_of_method.task_functions = [method] ∧
    (∃ defined : List FunctionDef, defined.Perm class_of_method.task_functions ∧
      ∀ n, (scan_file (shop class_of_method) n shop_tasks).run =
        (guess_module_name shop_fs n shop_tasks).run.map
          (Except.map fun m => defined.map (kept_definition (shop class_of_method) shop_tasks m))) ∧
      ((∃ n ds, (scan_file (shop class_of_method) n shop_tasks).run = some (.ok ds)) ↔
        LeavesPackages shop_fs shop_tasks) :=
  ⟨rfl, scan_file_exact (fun _ => rfl) rfl⟩

end Z4jCelery.Discovery
