/-!
# Symbols

The names met while one equation is compiled. A name is an argument, is bound inside the
expression, or is unknown; what it is first, it stays.
-/

namespace Formulary

structure Symbols where
  /-- Arguments in the order they were first seen. -/
  arguments : List String := []
  /-- Loop and integration variables in the order they were first seen. -/
  bound : List String := []
deriving DecidableEq, Repr

namespace Symbols

def isArgument (s : Symbols) (name : String) : Bool := s.arguments.contains name

def isBound (s : Symbols) (name : String) : Bool := s.bound.contains name

def isLocal (s : Symbols) (name : String) : Bool := s.isArgument name || s.isBound name

/-- Only an unknown name can still be added. -/
def accepts (s : Symbols) (name : String) : Bool := !s.isLocal name

/-- Makes an unknown name an argument. -/
def addArgument (s : Symbols) (name : String) : Symbols :=
  if s.isLocal name then s else { s with arguments := s.arguments ++ [name] }

/-- Makes an unknown name one that the expression binds. An argument of that name is merely
shadowed while the expression is evaluated. -/
def addBound (s : Symbols) (name : String) : Symbols :=
  if s.isLocal name then s else { s with bound := s.bound ++ [name] }

def addArguments (s : Symbols) (names : List String) : Symbols := names.foldl addArgument s

@[simp] theorem addArguments_nil (s : Symbols) : s.addArguments [] = s := rfl

@[simp] theorem addArguments_cons (s : Symbols) (name : String) (names : List String) :
    s.addArguments (name :: names) = (s.addArgument name).addArguments names := rfl

theorem addArgument_of_isLocal {s : Symbols} {name : String} (h : s.isLocal name = true) :
    s.addArgument name = s := by
  simp [addArgument, h]

theorem addBound_of_isLocal {s : Symbols} {name : String} (h : s.isLocal name = true) :
    s.addBound name = s := by
  simp [addBound, h]

@[simp] theorem addArgument_bound (s : Symbols) (name : String) :
    (s.addArgument name).bound = s.bound := by
  unfold addArgument
  split <;> rfl

@[simp] theorem addBound_arguments (s : Symbols) (name : String) :
    (s.addBound name).arguments = s.arguments := by
  unfold addBound
  split <;> rfl

/-! ## Names that become local -/

variable {s : Symbols} {name : String}

/-- A name is taken in only where it is not local yet. -/
private theorem isLocal_taken {taken : Symbols} {other : String}
    (h : taken.isLocal name = (s.isLocal name || name == other)) :
    (if s.isLocal other then s else taken).isLocal name = (s.isLocal name || name == other) := by
  by_cases hother : s.isLocal other = true
  · rw [if_pos hother]
    by_cases heq : name = other
    · subst heq
      simp [hother]
    · simp [heq]
  · rw [if_neg hother]
    exact h

theorem isLocal_addArgument (s : Symbols) (other : String) :
    (s.addArgument other).isLocal name = (s.isLocal name || name == other) := by
  apply isLocal_taken
  simp only [isLocal, isArgument, isBound, List.contains_eq_mem, List.mem_append,
    List.mem_singleton, Bool.decide_or]
  grind

theorem isLocal_addArguments (s : Symbols) (names : List String) :
    (s.addArguments names).isLocal name = (s.isLocal name || names.contains name) := by
  induction names generalizing s with
  | nil => simp
  | cons other names ih =>
    rw [addArguments_cons, ih, isLocal_addArgument, List.contains_cons, Bool.or_assoc]

theorem isLocal_addBound (s : Symbols) (other : String) :
    (s.addBound other).isLocal name = (s.isLocal name || name == other) := by
  apply isLocal_taken
  simp only [isLocal, isArgument, isBound, List.contains_eq_mem, List.mem_append,
    List.mem_singleton, Bool.decide_or]
  grind

/-! ## The order of arguments -/

theorem arguments_isPrefix (s : Symbols) (names : List String) :
    s.arguments <+: (s.addArguments names).arguments := by
  induction names generalizing s with
  | nil => exact List.prefix_rfl
  | cons name names ih =>
    refine List.IsPrefix.trans ?_ (ih (s.addArgument name))
    unfold addArgument
    split
    · exact List.prefix_rfl
    · exact List.prefix_append ..

/-- Unknown names become arguments in the order they are added. -/
theorem arguments_addArguments {s : Symbols} {names : List String} (hnodup : names.Nodup)
    (h : ∀ name ∈ names, s.isLocal name = false) :
    (s.addArguments names).arguments = s.arguments ++ names := by
  induction names generalizing s with
  | nil => exact (List.append_nil _).symm
  | cons name names ih =>
    obtain ⟨hnew, hmore⟩ := List.forall_mem_cons.1 h
    obtain ⟨hnot, hnodup⟩ := List.nodup_cons.1 hnodup
    have hadded : (s.addArgument name).arguments = s.arguments ++ [name] := by
      simp [addArgument, hnew]
    have hunknown : ∀ other ∈ names, (s.addArgument name).isLocal other = false := by
      intro other hother
      have hne : other ≠ name := fun heq => hnot (heq ▸ hother)
      simp [isLocal_addArgument, hmore other hother, hne]
    rw [addArguments_cons, ih hnodup hunknown, hadded, List.append_assoc]
    rfl

theorem arguments_of_nodup {names : List String} (h : names.Nodup) :
    (addArguments {} names).arguments = names :=
  arguments_addArguments h fun _ _ => rfl

end Symbols

end Formulary
