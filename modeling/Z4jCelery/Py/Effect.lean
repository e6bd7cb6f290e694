import Z4jCelery.Py.Value
/-!
# Python exceptions and statements

A Python function that touches the outside world is an `EStateM`: it returns a
value or raises, and what it did to the state before raising stays done.
-/

namespace Z4jCelery.Py

/-- The exception classes that an `except` clause of the package, or a future of
`asyncio`, tells apart. A class stands for its subclasses too, but for the
`InvalidStateError` of `concurrent.futures` and, where it says so,
`StopIteration`; `user` is a class that a package defines. All of them are
subclasses of `Exception`. -/
inductive ExnClass where
  | TimeoutError
  | AttributeError
  | ValueError
  | TypeError
  | OverflowError
  | OSError
  | AssertionError
  | StopIteration (itself : Bool)
  | FuturesInvalidStateError
  | user (name : String)
  | other
  deriving DecidableEq

/-- A raised exception: its class, `type(exc).__name__` and `str(exc)`. -/
structure Exn where
  cls : ExnClass
  name : String
  msg : String
  deriving DecidableEq

/-- `except c`: `TimeoutError` is a subclass of `OSError`. -/
def Exn.isa (e : Exn) (c : ExnClass) : Bool :=
  decide (e.cls = c) || (decide (c = .OSError) && decide (e.cls = .TimeoutError))

/-! ## The interpreter -/

/-- The code points of the decimal digits zero, in a version of Unicode: the nine
that follow each are the digits one to nine. Those of ASCII are the only ones in
its range. -/
structure DigitZeros where
  zeros : List Nat
  ascii : 48 ∈ zeros
  apart : ∀ z ∈ zeros, z = 48 ∨ 127 < z
  valid : ∀ z ∈ zeros, z + 9 < 0xd800 ∨ 0xdfff < z ∧ z + 9 < 0x110000

/-- What this model leaves to the interpreter: `repr`, `str` of a value that is
not a string, the Unicode tables of `str.isalnum` and of decimal digits,
`ast.literal_eval` (`none` where it raises one of the exceptions it is documented
to raise), `list` of an object, and `dict` of an object or of pairs whose keys are
not all strings. -/
structure Interp where
  repr : Val → String
  str : Val → String
  isalnum : Char → Bool
  digits : DigitZeros
  literal_eval : String → Option Val
  list : Val → Except Exn (List Val)
  dict : Val → Except Exn (List (String × Val))

/-- `str(v)`. -/
def Interp.strOf (py : Interp) : Val → String
  | .str s => s
  | v => py.str v

@[simp] theorem Interp.strOf_str (py : Interp) (s : String) : py.strOf (.str s) = s := rfl

def typeError (msg : String) : Exn := ⟨.TypeError, "TypeError", msg⟩

/-- `list(v)`. -/
def list_of (py : Interp) (v : Val) : Except Exn (List Val) :=
  match v with
  | .list xs | .tuple xs => .ok xs
  | .str s => .ok (s.toList.map fun c => .str (String.singleton c))
  | .dict kvs => .ok (kvs.map fun kv => .str kv.1)
  | .obj _ _ _ => py.list v
  | .none | .bool _ | .int _ | .float _ => .error (typeError "object is not iterable")

/-- The dictionary `d` with the pairs stored in it, one after another; nothing
when a key is no string. -/
def store_pairs (py : Interp) : List Val → List (String × Val) → Except Exn (Option (List (String × Val)))
  | [], d => .ok (some d)
  | pair :: pairs, d =>
    match list_of py pair with
    | .error e => .error e
    | .ok [.str k, v] => store_pairs py pairs (Lib.Dict.upsertItems k v d)
    | .ok [k, _] => if k.key?.isSome then .ok none else .error (typeError "unhashable type")
    | .ok _ => .error ⟨.ValueError, "ValueError", "dictionary update sequence element has a length that is not 2"⟩

/-- `dict(v)`. -/
def dict_of (py : Interp) (v : Val) : Except Exn (List (String × Val)) :=
  match v with
  | .dict kvs => .ok kvs
  | .obj _ _ _ => py.dict v
  | v =>
    match list_of py v with
    | .error e => .error e
    | .ok pairs =>
      match store_pairs py pairs [] with
      | .ok none => py.dict v
      | .ok (some d) => .ok d
      | .error e => .error e

/-- Unicode 14, which Python 3.11 has. -/
def UNICODE_DIGIT_ZEROS : DigitZeros where
  zeros := [48, 1632, 1776, 1984, 2406, 2534, 2662, 2790, 2918, 3046, 3174, 3302, 3430, 3558, 3664, 3792, 3872, 4160,
    4240, 6112, 6160, 6470, 6608, 6784, 6800, 6992, 7088, 7232, 7248, 42528, 43216, 43264, 43472, 43504, 43600, 44016,
    65296, 66720, 68912, 69734, 69872, 69942, 70096, 70384, 70736, 70864, 71248, 71360, 71472, 71904, 72016, 72784,
    73040, 73120, 92768, 92864, 93008, 120782, 120792, 120802, 120812, 120822, 123200, 123632, 125264, 130032]
  ascii := by decide
  apart := by decide
  valid := by decide

/-- An interpreter for examples, which show nothing and iterate no objects. -/
def Interp.plain : Interp where
  repr _ := ""
  str _ := ""
  isalnum _ := false
  digits := UNICODE_DIGIT_ZEROS
  literal_eval _ := none
  list _ := .error (typeError "object is not iterable")
  dict _ := .error (typeError "object is not iterable")

example : dict_of .plain (.list [.tuple [.str "a", .int 1], .str "bc"]) = .ok [("a", .int 1), ("b", .str "c")] := by decide

/-! ## Statements -/

/-- An exception that code outside the package raises: never of a class that
the package defines. -/
abbrev Foreign := { e : Exn // ∀ name, e.cls ≠ .user name }

abbrev PyM (σ : Type) := EStateM Exn σ

variable {σ α β : Type}

/-- An outcome that the outside world decided. -/
def ofOutcome (r : Except Exn α) : PyM σ α :=
  match r with
  | .ok a => pure a
  | .error e => throw e

/-- The outcome of a call out of the package. -/
def foreign (r : Except Foreign α) : Except Exn α := r.mapError Subtype.val

/-- `try: m` / `except Exception: h`. -/
def tryExcept (m : PyM σ α) (h : Exn → PyM σ α) : PyM σ α := fun s =>
  match m s with
  | .ok a s' => .ok a s'
  | .error e s' => h e s'

/-- `with` around `m`, left by `f`: an exception of `f` replaces the outcome. -/
def withExit (m : PyM σ α) (f : PyM σ Unit) : PyM σ α := fun s =>
  match m s with
  | .ok a s' =>
    match f s' with
    | .ok _ s'' => .ok a s''
    | .error e s'' => .error e s''
  | .error e s' =>
    match f s' with
    | .ok _ s'' => .error e s''
    | .error e' s'' => .error e' s''

/-- `getattr(obj, name, default)`, given what reading `obj.name` does. -/
def getattr_or (default : α) (r : Except Exn α) : Except Exn α :=
  match r with
  | .ok v => .ok v
  | .error e => if e.isa .AttributeError then .ok default else .error e

theorem getattr_or_cases {default v : α} {r : Except Exn α} (h : getattr_or default r = .ok v) : r = .ok v ∨ v = default := by
  unfold getattr_or at h
  split at h
  · exact .inl h
  · split at h
    · exact .inr (Except.ok.inj h).symm
    · cases h

/-- `getattr(obj, name, None)`. -/
def getattr (r : Except Exn Val) : Except Exn Val := getattr_or .none r

/-- `hasattr(obj, name)`, given what reading `obj.name` does. -/
def hasattr (r : Except Exn α) : Except Exn Bool :=
  match r with
  | .ok _ => .ok true
  | .error e => if e.isa .AttributeError then .ok false else .error e

/-- A run's outcome, without its final state. -/
def outcome (r : EStateM.Result Exn σ α) : Except Exn α :=
  match r with
  | .ok a _ => .ok a
  | .error e _ => .error e

/-- A run's final state, raised or not. -/
def final {ε : Type} (r : EStateM.Result ε σ α) : σ :=
  match r with
  | .ok _ s => s
  | .error _ s => s

@[simp] theorem outcome_ok (a : α) (s : σ) : outcome (.ok a s : EStateM.Result Exn σ α) = .ok a := rfl
@[simp] theorem final_ok (a : α) (s : σ) : final (.ok a s : EStateM.Result Exn σ α) = s := rfl
@[simp] theorem final_error (e : Exn) (s : σ) : final (.error e s : EStateM.Result Exn σ α) = s := rfl

theorem result_eq {r : EStateM.Result Exn σ α} {a : α} {s : σ} (hout : outcome r = .ok a) (hfin : final r = s) :
    r = .ok a s := by
  cases r with
  | ok b t => rw [Except.ok.inj hout, show t = s from hfin]
  | error e t => cases hout

/-! ## Running a statement -/

@[simp] theorem pure_apply (a : α) (s : σ) : (pure a : PyM σ α) s = .ok a s := rfl
@[simp] theorem throw_apply (e : Exn) (s : σ) : (throw e : PyM σ α) s = .error e s := rfl
@[simp] theorem get_apply (s : σ) : (MonadState.get : PyM σ σ) s = .ok s s := rfl
@[simp] theorem modify_apply (f : σ → σ) (s : σ) : (modify f : PyM σ Unit) s = .ok () (f s) := rfl

theorem bind_apply (m : PyM σ α) (k : α → PyM σ β) (s : σ) :
    (m >>= k) s = match m s with
      | .ok a s' => k a s'
      | .error e s' => .error e s' := by
  show EStateM.bind m k s = _
  unfold EStateM.bind
  cases m s <;> rfl

@[simp] theorem bind_ok {m : PyM σ α} {k : α → PyM σ β} {s s' : σ} {a : α} (h : m s = .ok a s') :
    (m >>= k) s = k a s' := by rw [bind_apply, h]

@[simp] theorem bind_error {m : PyM σ α} {k : α → PyM σ β} {s s' : σ} {e : Exn} (h : m s = .error e s') :
    (m >>= k) s = .error e s' := by rw [bind_apply, h]

@[simp] theorem ofOutcome_ok (a : α) : (ofOutcome (.ok a) : PyM σ α) = pure a := rfl
@[simp] theorem ofOutcome_error (e : Exn) : (ofOutcome (.error e) : PyM σ α) = throw e := rfl

theorem ofOutcome_apply (r : Except Exn α) (s : σ) :
    (ofOutcome r : PyM σ α) s = match r with
      | .ok a => .ok a s
      | .error e => .error e s := by cases r <;> rfl

theorem withExit_ok (m : PyM σ α) (s : σ) : withExit m (ofOutcome (.ok ())) s = m s := by
  rw [withExit]
  cases m s <;> rfl

theorem withExit_error (m : PyM σ α) (e : Exn) (s : σ) :
    withExit m (ofOutcome (.error e)) s = .error e (final (m s)) := by
  rw [withExit]
  cases m s <;> rfl

theorem tryExcept_ok {m : PyM σ α} {s s' : σ} {a : α} (hm : m s = .ok a s') (h : Exn → PyM σ α) :
    tryExcept m h s = .ok a s' := by rw [tryExcept, hm]

theorem tryExcept_error {m : PyM σ α} {s s' : σ} {e : Exn} (hm : m s = .error e s') (h : Exn → PyM σ α) :
    tryExcept m h s = h e s' := by rw [tryExcept, hm]

/-- A pure computation that may raise, one step at a time. -/
theorem except_bind_eq_ok {x : Except Exn α} {f : α → Except Exn β} {b : β} :
    (x >>= f) = .ok b ↔ ∃ a, x = .ok a ∧ f a = .ok b := by
  cases x with
  | error e => simp [bind, Except.bind]
  | ok a => simp [bind, Except.bind]

theorem toOption_eq_some {x : Except Exn α} {a : α} : x.toOption = some a ↔ x = .ok a := by
  cases x <;> simp [Except.toOption]

theorem foreign_eq_ok {r : Except Foreign α} {a : α} : foreign r = .ok a ↔ r = .ok a := by
  cases r <;> simp [foreign, Except.mapError]

end Z4jCelery.Py
