import Z4jCelery.Events.Broker.Redaction
import Z4jCelery.Events.Signals.Sampling
/-!
# The class of a failure

A signal carries the exception, whose class has a name; a broker event carries
its representation, from which the monitor reads the class back. It reads ASCII
letters where a name starts and the regular expression's word characters after
that, so it loses the other identifiers (`failed_class_iff`).
-/

namespace Z4jCelery.Events.Broker

open Py Z4jCelery.Core Events Mapper

/-! ## Class paths -/

/-- A part of a dotted path, as every identifier is: a text without `.` and `(`. -/
structure Component (c : String) : Prop where
  nonempty : c ≠ ""
  no_dot : '.' ∉ c.toList
  no_paren : '(' ∉ c.toList

/-- `\w`. -/
def Word (py : Interp) (d : Char) : Prop := py.isalnum d = true ∨ d = '_'

/-- The part matches `[A-Za-z_]\w*`. -/
def Matched (py : Interp) (c : String) : Prop :=
  ∃ first rest, c.toList = first :: rest ∧ (first.isAlpha = true ∨ first = '_') ∧ ∀ d ∈ rest, Word py d

variable {py : Interp}

theorem matched_iff (py : Interp) (c : String) : Matched py c ↔
    c.toList.head?.any (fun d => d.isAlpha || d = '_') = true ∧ c.toList.tail.all (fun d => py.isalnum d || d = '_') = true := by
  rw [Matched]
  cases c.toList with
  | nil => simp
  | cons first rest => simp [Word]

instance (py : Interp) (c : String) : Decidable (Matched py c) := decidable_of_iff _ (matched_iff py c).symm

section Part
variable {rest tail : List Char}

theorem class_path_word {d : Char} (hd : Word py d) (hdot : d ≠ '.') (hparen : d ≠ '(') (cs cur : List Char)
    (hcur : cur ≠ []) : class_path py (d :: cs) cur = class_path py cs (d :: cur) := by
  have hword : (py.isalnum d || decide (d = '_')) = true := by simpa [Word] using hd
  rw [class_path, if_neg hcur, if_neg hparen, if_neg hdot, if_pos hword]

theorem class_path_not_word {d : Char} (hd : ¬Word py d) (hdot : d ≠ '.') (hparen : d ≠ '(') (cs cur : List Char)
    (hcur : cur ≠ []) : class_path py (d :: cs) cur = none := by
  have hword : ¬(py.isalnum d || decide (d = '_')) = true := by simpa [Word] using hd
  rw [class_path, if_neg hcur, if_neg hparen, if_neg hdot, if_neg hword]

/-- Inside a part, character by character. -/
theorem class_path_rest (hdot : '.' ∉ rest) (hparen : '(' ∉ rest) (tail cur : List Char) (hcur : cur ≠ []) :
    ((∀ d ∈ rest, Word py d) → class_path py (rest ++ tail) cur = class_path py tail (rest.reverse ++ cur)) ∧
      ((¬∀ d ∈ rest, Word py d) → class_path py (rest ++ tail) cur = none) := by
  induction rest generalizing cur with
  | nil => exact ⟨fun _ => rfl, fun h => absurd (fun d hd => absurd hd List.not_mem_nil) h⟩
  | cons d rest ih =>
    rw [List.mem_cons, not_or] at hdot hparen
    obtain ⟨ihyes, ihno⟩ := ih hdot.2 hparen.2 (d :: cur) (List.cons_ne_nil _ _)
    rw [List.forall_mem_cons, List.cons_append, List.reverse_cons, List.append_assoc, List.singleton_append]
    constructor
    · rintro ⟨hd, hrest⟩
      rw [class_path_word hd (Ne.symm hdot.1) (Ne.symm hparen.1) _ _ hcur]
      exact ihyes hrest
    · intro hno
      by_cases hd : Word py d
      · rw [class_path_word hd (Ne.symm hdot.1) (Ne.symm hparen.1) _ _ hcur]
        exact ihno fun hrest => hno ⟨hd, hrest⟩
      · exact class_path_not_word hd (Ne.symm hdot.1) (Ne.symm hparen.1) _ _ hcur

/-- A whole part. -/
theorem class_path_part {c : String} (hc : Component c) (tail : List Char) :
    (Matched py c → class_path py (c.toList ++ tail) [] = class_path py tail c.toList.reverse) ∧
      (¬Matched py c → class_path py (c.toList ++ tail) [] = none) := by
  obtain ⟨first, rest, hchars⟩ := List.exists_cons_of_ne_nil (fun h => hc.nonempty (String.toList_eq_nil_iff.1 h))
  have hdot := hc.no_dot
  have hparen := hc.no_paren
  rw [hchars, List.mem_cons, not_or] at hdot hparen
  obtain ⟨hyes, hno⟩ := class_path_rest hdot.2 hparen.2 tail [first] (List.cons_ne_nil _ _)
  have hmatched : Matched py c ↔ (first.isAlpha = true ∨ first = '_') ∧ ∀ d ∈ rest, Word py d := by
    rw [Matched, hchars]
    simp
  have hstep : class_path py (first :: (rest ++ tail)) [] =
      if first.isAlpha || decide (first = '_') then class_path py (rest ++ tail) [first] else none := by
    rw [class_path, if_pos rfl]
  rw [hmatched, hchars, List.cons_append, hstep, List.reverse_cons]
  by_cases hfirst : first.isAlpha = true ∨ first = '_'
  · rw [if_pos (by simpa using hfirst), and_iff_right hfirst]
    exact ⟨hyes, hno⟩
  · rw [if_neg (by simpa using hfirst)]
    exact ⟨fun h => absurd h.1 hfirst, fun _ => rfl⟩

end Part

/-! ## The representation of an exception -/

/-- `package.module.Name(arguments`, of a class in some packages. -/
def representation (packages : List String) (name arguments : String) : String :=
  ".".intercalate (packages ++ [name]) ++ "(" ++ arguments

theorem dotted_cons (package : String) (packages : List String) (name : String) :
    (".".intercalate (package :: packages ++ [name])).toList =
      package.toList ++ '.' :: (".".intercalate (packages ++ [name])).toList := by
  rw [List.cons_append, String.intercalate_cons_of_ne_nil (List.append_ne_nil_of_right_ne_nil _ (List.cons_ne_nil _ _)),
    String.toList_append, String.toList_append, List.append_assoc]
  rfl

/-- The regular expression finds the name exactly if it matches every part. -/
theorem class_path_dotted {packages : List String} {name : String} (h : ∀ c ∈ packages ++ [name], Component c)
    (tail : List Char) :
    ((∀ c ∈ packages ++ [name], Matched py c) →
        class_path py ((".".intercalate (packages ++ [name])).toList ++ '(' :: tail) [] = some name) ∧
      ((¬∀ c ∈ packages ++ [name], Matched py c) →
        class_path py ((".".intercalate (packages ++ [name])).toList ++ '(' :: tail) [] = none) := by
  induction packages with
  | nil =>
    rw [List.nil_append, List.forall_mem_singleton] at h
    rw [List.nil_append, List.forall_mem_singleton, String.intercalate_singleton]
    obtain ⟨hyes, hno⟩ := @class_path_part py name h ('(' :: tail)
    refine ⟨fun hm => ?_, hno⟩
    have hne : name.toList.reverse ≠ [] := by simpa using h.nonempty
    rw [hyes hm, class_path, if_neg hne, if_pos rfl, List.reverse_reverse, String.ofList_toList]
  | cons package packages ih =>
    rw [List.cons_append, List.forall_mem_cons] at h
    obtain ⟨ihyes, ihno⟩ := ih h.2
    obtain ⟨hyes, hno⟩ := @class_path_part py package h.1
      ('.' :: ((".".intercalate (packages ++ [name])).toList ++ '(' :: tail))
    have hne : package.toList.reverse ≠ [] := by simpa using h.1.nonempty
    have hdot : class_path py ('.' :: ((".".intercalate (packages ++ [name])).toList ++ '(' :: tail))
        package.toList.reverse =
          class_path py ((".".intercalate (packages ++ [name])).toList ++ '(' :: tail) [] := by
      rw [class_path, if_neg hne, if_neg (by decide), if_pos rfl]
    rw [dotted_cons, List.append_assoc, List.cons_append, List.cons_append, List.forall_mem_cons]
    constructor
    · rintro ⟨hpackage, hrest⟩
      rw [hyes hpackage, hdot]
      exact ihyes hrest
    · intro hfail
      by_cases hpackage : Matched py package
      · rw [hyes hpackage, hdot]
        exact ihno fun hrest => hfail ⟨hpackage, hrest⟩
      · exact hno hpackage

/-- The parenthesis is among the first 256 characters. -/
theorem representation_take {packages : List String} {name : String}
    (hlen : (".".intercalate (packages ++ [name])).length ≤ 255) (arguments : String) :
    ∃ tail, (representation packages name arguments).toList.take 256 =
      (".".intercalate (packages ++ [name])).toList ++ '(' :: tail := by
  rw [← String.length_toList] at hlen
  rw [representation, String.toList_append, String.toList_append]
  have hparen : "(".toList = ['('] := rfl
  rw [hparen, List.append_assoc, List.singleton_append, List.take_append, List.take_of_length_le (by omega)]
  obtain ⟨k, hk⟩ := Nat.exists_eq_add_of_le' (show 1 ≤ 256 - (".".intercalate (packages ++ [name])).toList.length by omega)
  rw [hk, List.take_succ_cons]
  exact ⟨_, rfl⟩

/-- The parts are matched, or the class is called what a failure to match gives. -/
def ClassRead (py : Interp) (packages : List String) (name : String) : Prop :=
  name = "Exception" ∨ ∀ c ∈ packages ++ [name], Matched py c

instance (py : Interp) (packages : List String) (name : String) : Decidable (ClassRead py packages name) :=
  inferInstanceAs (Decidable (_ ∨ _))

theorem exception_type_iff {packages : List String} {name : String} (h : ∀ c ∈ packages ++ [name], Component c)
    (hlen : (".".intercalate (packages ++ [name])).length ≤ 255) (arguments : String) :
    exception_type py (representation packages name arguments) = name ↔ ClassRead py packages name := by
  obtain ⟨tail, htail⟩ := representation_take hlen arguments
  obtain ⟨hyes, hno⟩ := @class_path_dotted py packages name h tail
  rw [exception_type, htail, ClassRead]
  by_cases hm : ∀ c ∈ packages ++ [name], Matched py c
  · rw [hyes hm, Option.getD_some]
    exact iff_of_true rfl (.inr hm)
  · rw [hno hm, Option.getD_none, or_iff_left hm, eq_comm]

/-! ## The failed events -/

/-- The class that the event of a failure names. -/
def exception_class (ev : Event) : Option Val := lookup "exception" ev.data

theorem failed_class {redaction : RedactionEngine} {task_id : Val} {task : TaskArg} {exception : Raised}
    {exception_type : Option String} {traceback worker queue : Val} {ev : Event}
    (h : build_task_failed_event py redaction task_id task exception exception_type traceback worker queue = .ok ev) :
    exception_class ev =
      some (.str (if exception_type.getD "" ≠ "" then exception_type.getD "" else exception.type_name)) := by
  obtain ⟨task_name, -, h⟩ := except_bind_eq_ok.1 h
  obtain ⟨tail, -, h⟩ := except_bind_eq_ok.1 h
  obtain rfl := Except.ok.inj h
  rw [exception_class, event]
  unfold base_data
  exact lookup_update (by simp) _ _

/-- The signal handler names the exception's class. -/
theorem signal_class {env : Signals.Env} {f : Signals.Failure} {exception : Signals.Exception} {s : Signals.Hooks}
    {ev : Event} (hf : f.exception = some exception)
    (hev : (final (Signals.handle env (.failure f) s)).sunk = s.sunk ++ [ev]) :
    exception_class ev = some (.str exception.raised.type_name) := by
  rw [Signals.handle_sunk, List.append_cancel_left_eq] at hev
  have hreported : Signals.reported env (.failure f) = some ev := by
    cases hr : Signals.reported env (.failure f) with
    | none => simp [hr] at hev
    | some ev' => simpa [hr] using hev
  obtain ⟨b, hb, hev⟩ := Option.bind_eq_some_iff.1 hreported
  obtain ⟨built, hbuild, hmade⟩ := except_bind_eq_ok.1 (toOption_eq_some.1 hev)
  rw [Signals.built, hf, hbuild] at hb
  obtain ⟨traceback, -, hbuilt⟩ := except_bind_eq_ok.1 (Option.some.inj hb)
  rw [exception_class, (EventModel.make_ok hmade).2.1]
  exact failed_class hbuilt

theorem exception_type_ne_empty (py : Interp) (exc_str : String) : exception_type py exc_str ≠ "" := by
  have hpath : ∀ (cs cur : List Char) (name : String), class_path py cs cur = some name → name ≠ "" := by
    intro cs cur
    fun_induction class_path py cs cur with
    | case1 => intro _ h; cases h
    | case2 c cs hfirst ih => exact ih
    | case3 => intro _ h; cases h
    | case4 cs cur hcur =>
      rintro name h rfl
      have hnil := congrArg String.toList (Option.some.inj h)
      simp at hnil
      exact hcur hnil
    | case5 cs cur hcur _ ih => exact ih
    | case6 c cs cur hcur _ _ hword ih => exact ih
    | case7 => intro _ h; cases h
  rw [exception_type]
  cases hp : class_path py (exc_str.toList.take 256) [] with
  | none => decide
  | some name => exact hpath _ _ _ hp

/-- The monitor names the class that it reads in the representation. -/
theorem broker_class {env : Broker.Env} {event : Body} {r : String} {s : Monitor} {ev : Event}
    (hr : Py.get event "exception" .none = .str r) (hne : r ≠ "")
    (hev : (final (handle env .failed event s)).sunk = s.sunk ++ [ev]) :
    exception_class ev = some (.str (exception_type env.py r)) := by
  have hsunk : (final (handle env .failed event s)).sunk = (final (body env .failed event s)).sunk := by
    rw [handle_apply]
    rfl
  have hexc : env.py.strOf ((Py.get event "exception" .none).orElse (.str "Unknown error")) = r := by
    rw [hr, Val.orElse, if_pos (by simpa using hne), Interp.strOf_str]
  rw [hsunk, body, on_failed, hexc, silent_after (pop_name_silent event)] at hev
  rcases @emit_sunk env event _ s with h | ⟨name, s', ev', made, -, hbuilt, hmade, h⟩
  · rw [h] at hev
    simp at hev
  · rw [h, List.append_cancel_left_eq, List.singleton_inj] at hev
    have hclass : exception_class made = exception_class ev' := by
      rw [exception_class, exception_class, (EventModel.make_ok hmade).2.1]
    rw [← hev, hclass, failed_class hbuilt, Option.getD_some, if_pos (exception_type_ne_empty _ _)]

/-- For every exception and every class path of at most 255 characters: the
monitor's event names the class, and names the same one as the signal's event,
exactly when the regular expression reads every part of the path or the class
is called `Exception`. -/
theorem failed_class_iff {signals : Signals.Env} {env : Broker.Env} {packages : List String} {name : String}
    (hparts : ∀ c ∈ packages ++ [name], Component c) (hlen : (".".intercalate (packages ++ [name])).length ≤ 255)
    (arguments : String)
    -- the signal of an exception of that class
    {f : Signals.Failure} {exception : Signals.Exception} {hooks : Signals.Hooks} {sunk : Event}
    (hf : f.exception = some exception) (hname : exception.raised.type_name = name)
    (hsunk : (final (Signals.handle signals (.failure f) hooks)).sunk = hooks.sunk ++ [sunk])
    -- the broker event with its representation
    {event : Body} {monitor : Monitor} {ev : Event}
    (hr : Py.get event "exception" .none = .str (representation packages name arguments))
    (hev : (final (handle env .failed event monitor)).sunk = monitor.sunk ++ [ev]) :
    (exception_class ev = exception_class sunk ↔ ClassRead env.py packages name) ∧
      (exception_class ev = some (.str name) ↔ ClassRead env.py packages name) := by
  have hne : representation packages name arguments ≠ "" := by
    intro he
    have hlength := congrArg String.length he
    rw [representation, String.length_append, String.length_append] at hlength
    simp at hlength
  rw [signal_class hf hsunk, hname, broker_class hr hne hev, Option.some.injEq, Val.str.injEq,
    exception_type_iff hparts hlen arguments]
  exact ⟨Iff.rfl, Iff.rfl⟩

/-! ## Two classes -/

/-- ASCII and the Russian letters are alphanumeric. -/
def russian : Interp where
  repr _ := ""
  str _ := ""
  isalnum c := c.isAlphanum || (1040 ≤ c.toNat && c.toNat ≤ 1103)
  digits := UNICODE_DIGIT_ZEROS
  literal_eval _ := none
  list _ := .error (typeError "object is not iterable")
  dict _ := .error (typeError "object is not iterable")

def russian_hooks : Signals.Env := ⟨russian, ⟨id⟩, .lenient, fun _ => .ok ()⟩

def russian_monitor : Env := ⟨russian, ⟨id⟩, .lenient, none, 50000, fun _ => .ok ()⟩

/-- An exception of the class with one argument, and its event. -/
def failure_of (name : String) : Signals.Failure :=
  ⟨.str "t1", .val (.str "app.send"), some ⟨⟨name, "x"⟩, none⟩, .other, none⟩

def failed_of (packages : List String) (name : String) : Body :=
  [("type", .str "task-failed"), ("uuid", .str "t1"), ("name", .str "app.send"),
    ("exception", .str (representation packages name "'x')"))]

theorem failed_class_of_task_error : ∃ sunk ev,
    (final (Signals.handle russian_hooks (.failure (failure_of "TaskError")) ⟨[]⟩)).sunk = [sunk] ∧
      (final (handle russian_monitor .failed (failed_of ["app", "errors"] "TaskError") Monitor.init)).sunk = [ev] ∧
      exception_class ev = exception_class sunk ∧ exception_class ev = some (.str "TaskError") := by
  have hparts : ∀ c ∈ ["app", "errors"] ++ ["TaskError"], Component c := by
    simp only [List.cons_append, List.nil_append, List.forall_mem_cons, List.not_mem_nil, false_imp_iff, implies_true]
    exact ⟨⟨by decide, by decide, by decide⟩, ⟨by decide, by decide, by decide⟩, ⟨by decide, by decide, by decide⟩, trivial⟩
  have hread : ClassRead russian ["app", "errors"] "TaskError" := by decide
  refine ⟨_, _, rfl, rfl, ?_⟩
  have h := @failed_class_iff russian_hooks russian_monitor ["app", "errors"] "TaskError" hparts (by decide) "'x')"
    (failure_of "TaskError") _ ⟨[]⟩ _ rfl rfl rfl (failed_of ["app", "errors"] "TaskError") Monitor.init _ rfl rfl
  exact ⟨h.1.2 hread, h.2.2 hread⟩

/-- A class with a Russian name: the signal names it, the monitor does not. -/
theorem russian_class_lost : Component "Ошибка" ∧
    (final (Signals.handle russian_hooks (.failure (failure_of "Ошибка")) ⟨[]⟩)).sunk.map exception_class =
      [some (.str "Ошибка")] ∧
    (final (handle russian_monitor .failed (failed_of [] "Ошибка") Monitor.init)).sunk.map exception_class =
      [some (.str "Exception")] := by
  refine ⟨⟨by decide, by decide, by decide⟩, rfl, rfl⟩

end Z4jCelery.Events.Broker
