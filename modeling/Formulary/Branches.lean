import Formulary.Fragment

/-!
# Branches

A formula with choices in it stands for several formulas, one a branch. A `BranchSet` grows all of
them side by side: a choice replaces the set by one copy of it for each alternative, so the latest
choice varies slowest. Each branch remembers which branch of an external equation it was paired
with, and keeps to it.
-/

namespace Formulary

structure Branch where
  /-- The code, latest fragment first. -/
  code : List Fragment := []
  /-- The chosen branch of each external, in ascending order of the externals. -/
  pairings : List (Nat × Nat) := []

namespace Branch

def fragments (b : Branch) : List Fragment := b.code.reverse

/-- Appends a fragment; a piece of a number joins the number before it. -/
def append (b : Branch) (fragment : Fragment) : Branch :=
  match fragment, b.code with
  | .number text, .number before :: code => { b with code := .number (before ++ text) :: code }
  | fragment, code => { b with code := fragment :: code }

def pairing? (b : Branch) (external : Nat) : Option Nat := b.pairings.lookup external

/-- Enters a choice where its external belongs; an older choice for it is replaced. -/
def enter (external branch : Nat) : List (Nat × Nat) → List (Nat × Nat)
  | [] => [(external, branch)]
  | (e, b) :: rest =>
    if external < e then (external, branch) :: (e, b) :: rest
    else if external = e then (external, branch) :: rest
    else (e, b) :: enter external branch rest

def pair (b : Branch) (external branch : Nat) : Branch :=
  { b with pairings := enter external branch b.pairings }

@[simp] theorem append_pairings (b : Branch) (fragment : Fragment) :
    (b.append fragment).pairings = b.pairings := by
  unfold append
  split <;> rfl

@[simp] theorem pair_code (b : Branch) (external branch : Nat) :
    (b.pair external branch).code = b.code := rfl

theorem lookup_enter (external branch e : Nat) (pairings : List (Nat × Nat)) :
    (enter external branch pairings).lookup e =
      if e = external then some branch else pairings.lookup e := by
  induction pairings with
  | nil => simp only [enter, List.lookup_cons, List.lookup_nil]; grind
  | cons s rest ih =>
    simp only [enter]
    split
    · simp only [List.lookup_cons]; grind
    · split <;> simp only [List.lookup_cons] <;> grind

theorem pairing?_pair (b : Branch) (external branch e : Nat) :
    (b.pair external branch).pairing? e =
      if e = external then some branch else b.pairing? e :=
  lookup_enter ..

end Branch

/-- The branches grown so far. -/
structure BranchSet where
  branches : List Branch := [{}]

/-- What compiling does to all branches at once. -/
inductive Instruction
  | append (fragment : Fragment)
  | choose (alternatives : List Fragment)
  | pair (external count : Nat)
  | appendPaired (external : Nat) (make : Nat → Fragment)

namespace BranchSet

def size (s : BranchSet) : Nat := s.branches.length

def isEmpty (s : BranchSet) : Bool := s.branches.isEmpty

def append (s : BranchSet) (fragment : Fragment) : BranchSet :=
  ⟨s.branches.map (·.append fragment)⟩

/-- One copy of the set for each alternative, which ends every branch of the copy. -/
def choose (s : BranchSet) (alternatives : List Fragment) : BranchSet :=
  ⟨alternatives.flatMap fun fragment => s.branches.map (·.append fragment)⟩

def isPaired (s : BranchSet) (external : Nat) : Bool :=
  s.branches.head?.any fun (b : Branch) => (b.pairing? external).isSome

/-- Pairs the branches with the `count` branches of an external equation, once for all. -/
def pair (s : BranchSet) (external count : Nat) : BranchSet :=
  if s.isPaired external then s
  else ⟨(List.range count).flatMap fun branch => s.branches.map (·.pair external branch)⟩

/-- Appends to each branch the fragment made from its own pairing. There is no answer when a
branch has not been paired with the external. -/
def appendPaired (s : BranchSet) (external : Nat) (make : Nat → Fragment) : Option BranchSet :=
  (s.branches.mapM fun (b : Branch) =>
    (b.pairing? external).map fun branch => b.append (make branch)).map BranchSet.mk

def run (s : BranchSet) : Instruction → Option BranchSet
  | .append fragment => some (s.append fragment)
  | .choose alternatives => some (s.choose alternatives)
  | .pair external count => some (s.pair external count)
  | .appendPaired external make => s.appendPaired external make

def runAll (s : BranchSet) (instructions : List Instruction) : Option BranchSet :=
  instructions.foldlM run s

@[simp] theorem size_append (s : BranchSet) (fragment : Fragment) :
    (s.append fragment).size = s.size := by
  simp [append, size]

theorem size_choose (s : BranchSet) (alternatives : List Fragment) :
    (s.choose alternatives).size = alternatives.length * s.size := by
  simp [choose, size, List.length_flatMap, List.map_const']

end BranchSet

end Formulary
