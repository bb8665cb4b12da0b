import Mathlib.Data.List.Basic
import Formulary.Proofs.Runs

/-!
# Other names

A map of names carried through all that compiling has to do with: code, branches, trees, equations
and sessions. Names are only ever compared with one another, so where the map tells names apart,
every operation commutes with it.
-/

namespace Formulary

/-! ## The parts that names are in -/

section Parts

variable {α : Type} (f : String → String)

def Bound.rename : Bound α → Bound α
  | number value => number value
  | var name => var (f name)

def Fragment.rename : Fragment → Fragment
  | var name => var (f name)
  | sum index lower upper => sum (f index) (lower.rename f) (upper.rename f)
  | integral name start width partitions rule => integral (f name) start width partitions rule
  | fragment => fragment

def Binding.rename (b : Binding) : Binding where
  name := f b.name
  kind := b.kind
  parameters := b.parameters.map f

def Config.rename (c : Config) : Config := { c with differential := f c.differential }

namespace Expression

mutual

def rename : Expression α → Expression α
  | number value => number value
  | var name => var (f name)
  | negate operand => negate operand.rename
  | binary operator left right => binary operator left.rename right.rename
  | call function arguments => call function (renameAll arguments)
  | sum index lower upper body =>
    sum (f index) (lower.rename f) (upper.rename f) body.rename
  | integral name start width partitions rule body =>
    integral (f name) start width partitions rule body.rename
  | reference external branch => reference external branch
  | apply external branch arguments => apply external branch (renameAll arguments)
  | derivative external branch step arguments =>
    derivative external branch step (renameAll arguments)

def renameAll : List (Expression α) → List (Expression α)
  | [] => []
  | e :: rest => e.rename :: renameAll rest

end

theorem length_renameAll (es : List (Expression α)) : (renameAll f es).length = es.length := by
  induction es with
  | nil => rfl
  | cons e es ih => rw [renameAll, List.length_cons, ih, List.length_cons]

end Expression

namespace Equation

mutual

/-- The equation with all its names mapped, and those of its externals. -/
def rename : Equation α → Equation α
  | ⟨binding, arguments, bound, branches, externals⟩ =>
    ⟨binding.map (·.rename f), arguments.map f, bound.map f, branches.map (·.rename f),
      renameAll externals⟩

def renameAll : List (Equation α) → List (Equation α)
  | [] => []
  | e :: rest => e.rename :: renameAll rest

end

theorem renameAll_eq_map (es : List (Equation α)) : renameAll f es = es.map (rename f) := by
  induction es with
  | nil => rfl
  | cons e es ih => rw [renameAll, ih, List.map_cons]

variable (e : Equation α)

theorem rename_eq : e.rename f = ⟨e.binding.map (·.rename f), e.arguments.map f, e.bound.map f,
    e.branches.map (·.rename f), e.externals.map (rename f)⟩ := by
  cases e
  rw [rename, renameAll_eq_map]

@[simp] theorem arguments_rename : (e.rename f).arguments = e.arguments.map f := by
  rw [rename_eq]

@[simp] theorem branches_rename : (e.rename f).branches = e.branches.map (·.rename f) := by
  rw [rename_eq]

@[simp] theorem externals_rename : (e.rename f).externals = e.externals.map (rename f) := by
  rw [rename_eq]

@[simp] theorem name?_rename : (e.rename f).name? = e.name?.map f := by
  rw [rename_eq, name?, name?, Option.map_map, Option.map_map]
  rfl

@[simp] theorem kind?_rename : (e.rename f).kind? = e.kind? := by
  rw [rename_eq, kind?, kind?, Option.map_map]
  rfl

@[simp] theorem parameters_rename : (e.rename f).parameters = e.parameters.map f := by
  rw [rename_eq]
  cases hbinding : e.binding <;> simp [parameters, hbinding, Binding.rename]

@[simp] theorem freeArguments_rename : (e.rename f).freeArguments = e.freeArguments.map f := by
  simp [freeArguments]

@[simp] theorem branchCount_rename : (e.rename f).branchCount = e.branchCount := by
  simp [branchCount]

@[simp] theorem isFunction_rename : (e.rename f).isFunction = e.isFunction := by
  simp [isFunction]

end Equation

end Parts

/-! ## Names as they are -/

section Identity

variable {α : Type}

@[simp] theorem Bound.rename_id (b : Bound α) : b.rename id = b := by
  cases b <;> rfl

@[simp] theorem Binding.rename_id (b : Binding) : b.rename id = b := by
  simp [rename]

mutual

theorem Expression.rename_id : (e : Expression α) → e.rename id = e
  | .number _ | .var _ | .reference _ _ => rfl
  | .negate operand => by rw [rename, operand.rename_id]
  | .binary _ left right => by rw [rename, left.rename_id, right.rename_id]
  | .call _ arguments => by rw [rename, renameAll_id arguments]
  | .sum _ _ _ body => by rw [rename, body.rename_id, Bound.rename_id, Bound.rename_id, id]
  | .integral _ _ _ _ _ body => by rw [rename, body.rename_id, id]
  | .apply _ _ arguments => by rw [rename, renameAll_id arguments]
  | .derivative _ _ _ arguments => by rw [rename, renameAll_id arguments]

theorem Expression.renameAll_id : (es : List (Expression α)) → renameAll id es = es
  | [] => rfl
  | e :: rest => by rw [renameAll, e.rename_id, renameAll_id rest]

end

mutual

theorem Equation.rename_id : (e : Equation α) → e.rename id = e
  | ⟨binding, arguments, bound, branches, externals⟩ => by
    have hbinding : binding.map (·.rename id) = binding := by cases binding <;> simp
    have hbranches : branches.map (·.rename id) = branches :=
      (List.map_congr_left fun e _ => e.rename_id).trans (List.map_id _)
    rw [rename, renameAll_id externals, hbinding, hbranches, List.map_id, List.map_id]

theorem Equation.renameAll_id : (es : List (Equation α)) → renameAll id es = es
  | [] => rfl
  | e :: rest => by rw [renameAll, e.rename_id, renameAll_id rest]

end

end Identity

/-! ## What is declared -/

section Declarations

variable {f : String → String}

def Symbols.rename (f : String → String) (s : Symbols) : Symbols :=
  ⟨s.arguments.map f, s.bound.map f⟩

def Declared.rename (f : String → String) (d : Declared) : Declared :=
  ⟨d.symbols.rename f, d.externals.map (Equation.rename f)⟩

namespace Symbols

variable (hf : Function.Injective f) (s : Symbols)

include hf

theorem isLocal_rename (name : String) : (s.rename f).isLocal (f name) = s.isLocal name := by
  simp [isLocal, isArgument, isBound, rename, List.mem_map_of_injective hf]

theorem addArgument_rename (name : String) :
    (s.rename f).addArgument (f name) = (s.addArgument name).rename f := by
  rw [addArgument, addArgument, isLocal_rename hf]
  split
  · rfl
  · simp [rename]

theorem addBound_rename (name : String) :
    (s.rename f).addBound (f name) = (s.addBound name).rename f := by
  rw [addBound, addBound, isLocal_rename hf]
  split
  · rfl
  · simp [rename]

theorem addArguments_rename (names : List String) :
    (s.rename f).addArguments (names.map f) = (s.addArguments names).rename f := by
  induction names generalizing s with
  | nil => rfl
  | cons name names ih =>
    rw [List.map_cons, addArguments_cons, addArguments_cons, addArgument_rename hf, ih]

end Symbols

namespace Declared

variable (hf : Function.Injective f) (d : Declared) (equation : Equation Float)

include hf

/-- Equations are found by their names. -/
theorem findIdx?_rename :
    (d.rename f).externals.findIdx? (·.name? == (equation.rename f).name?) =
      d.externals.findIdx? (·.name? == equation.name?) := by
  rw [rename, List.findIdx?_map]
  congr 1
  funext e
  rw [Function.comp_apply, Equation.name?_rename, Equation.name?_rename,
    (Option.map_injective hf).beq_eq]

theorem placeOf_rename : (d.rename f).placeOf (equation.rename f) = d.placeOf equation := by
  rw [placeOf, placeOf, findIdx?_rename hf, rename, List.length_map]

theorem declaring_rename :
    (d.rename f).declaring (equation.rename f) = (d.declaring equation).rename f := by
  rw [declaring, declaring, findIdx?_rename hf]
  split
  · rfl
  · simp [rename]

end Declared

end Declarations

/-! ## Branches -/

section Branches

variable (f : String → String)

def Instruction.rename : Instruction → Instruction
  | append fragment => append (fragment.rename f)
  | choose alternatives => choose (alternatives.map (Fragment.rename f))
  | pair external count => pair external count
  | appendPaired external make => appendPaired external fun branch => (make branch).rename f

def Branch.rename (b : Branch) : Branch := { b with code := b.code.map (Fragment.rename f) }

def BranchSet.rename (s : BranchSet) : BranchSet := ⟨s.branches.map (Branch.rename f)⟩

theorem Branch.fragments_rename (b : Branch) :
    (b.rename f).fragments = b.fragments.map (Fragment.rename f) :=
  List.map_reverse.symm

theorem Branch.append_rename (b : Branch) (fragment : Fragment) :
    (b.rename f).append (fragment.rename f) = (b.append fragment).rename f := by
  obtain ⟨code, pairings⟩ := b
  cases fragment with
  | number text =>
    rcases code with _ | ⟨last, code⟩
    · rfl
    · cases last <;> rfl
  | _ => cases code <;> rfl

namespace BranchSet

variable (s : BranchSet)

theorem append_rename (fragment : Fragment) :
    (s.rename f).append (fragment.rename f) = (s.append fragment).rename f := by
  simp [append, rename, Branch.append_rename, Function.comp_def]

theorem choose_rename (alternatives : List Fragment) :
    (s.rename f).choose (alternatives.map (Fragment.rename f)) =
      (s.choose alternatives).rename f := by
  simp [choose, rename, List.map_flatMap, List.flatMap_map, Branch.append_rename,
    Function.comp_def]

theorem pair_rename (external count : Nat) :
    (s.rename f).pair external count = (s.pair external count).rename f := by
  have hpaired : (s.rename f).isPaired external = s.isPaired external := by
    rw [isPaired, isPaired, rename, List.head?_map, Option.any_map]
    rfl
  have hpair : ∀ (b : Branch) (branch : Nat),
      (b.rename f).pair external branch = (b.pair external branch).rename f := fun _ _ => rfl
  rw [pair, pair, hpaired]
  split
  · rfl
  · simp [rename, List.map_flatMap, hpair, Function.comp_def]

theorem appendPaired_rename (external : Nat) (make : Nat → Fragment) :
    (s.rename f).appendPaired external (fun branch => (make branch).rename f) =
      (s.appendPaired external make).map (rename f) := by
  have hstep : ∀ b : Branch,
      (((b.rename f).pairing? external).map fun branch =>
          (b.rename f).append ((make branch).rename f)) =
        ((b.pairing? external).map fun branch => b.append (make branch)).map (Branch.rename f) := by
    intro b
    rw [Option.map_map]
    exact congrArg (Option.map · (b.pairing? external))
      (funext fun branch => b.append_rename f (make branch))
  obtain ⟨branches⟩ := s
  rw [appendPaired, appendPaired, rename]
  induction branches with
  | nil => rfl
  | cons b branches ih =>
    rw [List.map_cons, List.mapM_cons, List.mapM_cons, hstep]
    cases (b.pairing? external).map fun branch => b.append (make branch) with
    | none => rfl
    | some grown =>
      simp only [Option.map_some, Option.bind_eq_bind, Option.bind_some] at ih ⊢
      cases hrest : branches.mapM fun (b : Branch) =>
          (b.pairing? external).map fun branch => b.append (make branch) with
      | none => simp_all
      | some rest => simp_all [rename]

theorem run_rename (i : Instruction) :
    (s.rename f).run (i.rename f) = (s.run i).map (rename f) := by
  cases i with
  | append fragment => exact congrArg some (s.append_rename f fragment)
  | choose alternatives => exact congrArg some (s.choose_rename f alternatives)
  | pair external count => exact congrArg some (s.pair_rename f external count)
  | appendPaired external make => exact s.appendPaired_rename f external make

end BranchSet

end Branches

/-! ## Sessions -/

namespace Session

variable {f : String → String}

def rename (f : String → String) (s : Session) : Session where
  config := s.config.rename f
  equations := ⟨s.equations.entries.map (Equation.rename f)⟩
  names := s.names.map fun entry => (f entry.1, entry.2)

@[simp] theorem toList_rename (s : Session) :
    (s.rename f).equations.toList = s.equations.toList.map (Equation.rename f) :=
  Array.toList_map ..

theorem rename_id (s : Session) : s.rename id = s := by
  have hequations : s.equations.entries.map (Equation.rename id) = s.equations.entries := by
    rw [show Equation.rename id = id from funext Equation.rename_id, Array.map_id]
  rw [rename, hequations]
  simp [Config.rename]

variable (hf : Function.Injective f) (s : Session)

include hf

theorem keyOf?_rename (name : String) : (s.rename f).keyOf? (f name) = s.keyOf? name := by
  have hlookup : ∀ names : List (String × Key (Equation Float)),
      (names.map fun entry => (f entry.1, entry.2)).lookup (f name) = names.lookup name := by
    intro names
    induction names with
    | nil => rfl
    | cons entry names ih =>
      rw [List.map_cons, List.lookup_cons, List.lookup_cons, hf.beq_eq, ih]
  exact hlookup s.names

theorem resolve_rename (name : String) :
    (s.rename f).resolve (f name) = (s.resolve name).map (Equation.rename f) := by
  rw [resolve, resolve, keyOf?_rename hf]
  cases s.keyOf? name with
  | none => rfl
  | some key => simp [Registry.get?_eq_getElem?]

theorem resolveFunction_rename (name : String) :
    (s.rename f).resolveFunction (f name) =
      (s.resolveFunction name).map (Equation.rename f) := by
  rw [resolveFunction, resolveFunction, resolve_rename hf, Option.filter_map]
  congr 2
  funext e
  exact e.isFunction_rename f

theorem register_rename (e : Equation Float) :
    (s.rename f).register (e.rename f) = (s.register e).rename f := by
  have hkey : (s.rename f).equations.nextKey = s.equations.nextKey := by
    simp [Registry.nextKey, Registry.size, rename]
  have hequations : (s.rename f).equations.insert (e.rename f) =
      ((s.register e).rename f).equations := by
    simp [Registry.insert, rename, register]
  cases hname : e.name? with
  | none =>
    simp only [register, hname, Equation.name?_rename, Option.map_none] at hequations ⊢
    rw [hequations]
    rfl
  | some name =>
    simp only [register, hname, Equation.name?_rename, Option.map_some, keyOf?_rename hf,
      hkey] at hequations ⊢
    rw [hequations]
    split <;> simp_all [rename]

end Session

end Formulary
