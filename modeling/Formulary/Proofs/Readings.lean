import Formulary.Compilation
import Formulary.Proofs.Grammar
import Formulary.Proofs.Scripts
import Formulary.Proofs.Visits

/-!
# Equations that compile

Compiling succeeds exactly when the sides split, the right side has been walked to its end, and
every branch derives a sum. Each branch is then read off its own script.
-/

namespace Formulary.Session

/-! ## Reading the branches -/

theorem mapM_eq_ok_iff {α β ε : Type} {f : α → Except ε β} {xs : List α} {ys : List β} :
    xs.mapM f = .ok ys ↔ xs.map f = ys.map .ok := by
  induction xs generalizing ys with
  | nil => cases ys <;> simp [pure, Except.pure]
  | cons x xs ih =>
    rw [List.mapM_cons, List.map_cons]
    cases hx : f x with
    | error e => cases ys <;> simp [bind, Except.bind]
    | ok y =>
      cases hxs : xs.mapM f with
      | error e =>
        have hnone : ∀ ys : List β, xs.map f ≠ ys.map .ok := by
          intro ys h
          rw [← ih, hxs] at h
          cases h
        cases ys with
        | nil => simp [bind, Except.bind]
        | cons y' ys => simp [bind, Except.bind, hnone ys]
      | ok ys' =>
        cases ys with
        | nil => simp [bind, Except.bind, pure, Except.pure]
        | cons y'' ys =>
          rw [List.map_cons, List.cons.injEq, ← ih, hxs]
          simp [bind, Except.bind, pure, Except.pure]

theorem exists_list_of_forall_lt {α : Type} {p : Nat → α → Prop} {n : Nat}
    (h : ∀ k < n, ∃ x, p k x) :
    ∃ xs : List α, xs.length = n ∧ ∀ (k : Nat) (x), xs[k]? = some x → p k x := by
  induction n with
  | zero => exact ⟨[], rfl, by simp⟩
  | succ n ih =>
    obtain ⟨xs, hlength, hxs⟩ := ih fun k hk => h k (Nat.lt_succ_of_lt hk)
    obtain ⟨last, hlast⟩ := h n (Nat.lt_succ_self n)
    refine ⟨xs ++ [last], by simp [hlength], ?_⟩
    intro k x hk
    rw [List.getElem?_append] at hk
    split at hk
    · exact hxs k x hk
    · next hge =>
      obtain ⟨hlt, hx⟩ := List.getElem?_eq_some_iff.1 hk
      obtain rfl : k = n := by
        rw [List.length_singleton] at hlt
        omega
      simp only [hlength, Nat.sub_self, List.getElem_cons_zero] at hx
      exact hx ▸ hlast

theorem size_empty : BranchSet.size {} = 1 := rfl

/-- The branches grown from nothing, told by their scripts. -/
theorem fragments_runAll {instructions : List Instruction} {set : BranchSet}
    (h : BranchSet.runAll {} instructions = some set) (k : Nat) :
    set.branches[k]?.map Branch.fragments =
      (script? [] instructions k).map Fragment.joined := by
  have hcode := congrArg (Option.map List.reverse)
    (BranchSet.scripted_runAll BranchSet.pairedAs_empty h k)
  rw [Option.map_map, size_empty, Nat.mod_one, Nat.div_one] at hcode
  have hfirst : ({} : BranchSet).branches[0]? = some ({} : Branch) := rfl
  rw [hfirst, Option.bind_some, Option.map_map] at hcode
  exact hcode

theorem readBranches_eq_ok_iff {instructions : List Instruction}
    {branches : List (Expression Float)} :
    readBranches instructions = .ok branches ↔
      (BranchSet.runAll {} instructions).isSome ∧
        ∀ k : Nat, Option.Rel (fun code e => Expression.IsSum (Fragment.joined code) e)
          (script? [] instructions k) branches[k]? := by
  unfold readBranches
  cases hrun : BranchSet.runAll {} instructions with
  | none => simp
  | some set =>
    have hrel : ∀ k : Nat, set.branches[k]?.map (fun b : Branch => Expression.parse b.fragments) =
          branches[k]?.map Except.ok ↔
        Option.Rel (fun code e => Expression.IsSum (Fragment.joined code) e)
          (script? [] instructions k) branches[k]? := by
      intro k
      have hparse : set.branches[k]?.map (fun b : Branch => Expression.parse b.fragments) =
          (script? [] instructions k).map fun code => Expression.parse (Fragment.joined code) := by
        have hfragments := congrArg (Option.map Expression.parse) (fragments_runAll hrun k)
        rw [Option.map_map, Option.map_map] at hfragments
        exact hfragments
      rw [hparse]
      cases script? [] instructions k with
      | none => cases branches[k]? <;> simp
      | some code =>
        cases branches[k]? with
        | none => simp
        | some e => simp [Expression.parse_eq_ok_iff]
    have hpoint : (set.branches.mapM fun branch => Expression.parse branch.fragments) =
          .ok branches ↔
        ∀ k : Nat, set.branches[k]?.map (fun b : Branch => Expression.parse b.fragments) =
          branches[k]?.map Except.ok := by
      rw [mapM_eq_ok_iff]
      constructor
      · intro h k
        rw [← List.getElem?_map, h, List.getElem?_map]
      · intro h
        apply List.ext_getElem?
        intro k
        rw [List.getElem?_map, List.getElem?_map]
        exact h k
    simp only [hpoint, hrel, Option.isSome_some, true_and]

/-- Every branch that is read has its code. -/
theorem exists_script_of_mem {instructions : List Instruction} {branches : List (Expression Float)}
    (h : readBranches instructions = .ok branches) {e : Expression Float} (he : e ∈ branches) :
    ∃ k code, script? [] instructions k = some code ∧
      Expression.IsSum (Fragment.joined code) e := by
  obtain ⟨k, hk⟩ := List.getElem?_of_mem he
  have hrel := (readBranches_eq_ok_iff.1 h).2 k
  rw [hk] at hrel
  cases hscript : script? [] instructions k with
  | none =>
    rw [hscript] at hrel
    cases hrel
  | some code =>
    rw [hscript] at hrel
    cases hrel with
    | some hsum => exact ⟨k, code, hscript, hsum⟩

theorem readBranches_single {instructions : List Instruction} {branch : Branch}
    {e : Expression Float} (hrun : BranchSet.runAll {} instructions = some { branches := [branch] })
    (he : Expression.parse branch.fragments = .ok e) : readBranches instructions = .ok [e] := by
  rw [readBranches, hrun]
  exact mapM_eq_ok_iff.2 (congrArg (fun result => [result]) he)

/-- Instructions for one branch or for two at a sign can always be run. -/
theorem isSome_runAll_plain {instructions : List Instruction}
    (h : ∀ i ∈ instructions, i.IsPlain) (s : BranchSet) :
    (s.runAll instructions).isSome := by
  induction instructions generalizing s with
  | nil => rfl
  | cons i rest ih =>
    have hrest : ∀ i ∈ rest, i.IsPlain := fun i hi => h i (List.mem_cons_of_mem _ hi)
    cases h i (List.mem_cons_self ..) with
    | append fragment => exact ih hrest (s.append fragment)
    | sign => exact ih hrest (s.choose _)

theorem readBranches_plain {instructions : List Instruction} (h : ∀ i ∈ instructions, i.IsPlain)
    {branches : List (Expression Float)} :
    readBranches instructions = .ok branches ↔
      branches.length = 2 ^ signCount instructions ∧ ∀ (k : Nat) (e), branches[k]? = some e →
        Expression.IsSum (Fragment.joined (select k.testBit 0 instructions)) e := by
  rw [readBranches_eq_ok_iff]
  simp only [isSome_runAll_plain h, true_and, script?_plain h]
  constructor
  · intro hrel
    have hlength : ∀ k, k < branches.length ↔ k < 2 ^ signCount instructions := by
      intro k
      have hk := hrel k
      by_cases hlt : k < 2 ^ signCount instructions
      · rw [if_pos hlt] at hk
        cases hbranch : branches[k]? with
        | none =>
          rw [hbranch] at hk
          cases hk
        | some e => simp [hlt, (List.getElem?_eq_some_iff.1 hbranch).1]
      · rw [if_neg hlt] at hk
        cases hbranch : branches[k]? with
        | none => simp [hlt, List.getElem?_eq_none_iff.1 hbranch]
        | some e =>
          rw [hbranch] at hk
          cases hk
    refine ⟨?_, ?_⟩
    · have hle := not_congr (hlength (2 ^ signCount instructions))
      have hge := not_congr (hlength branches.length)
      omega
    · intro k e hbranch
      have hk := hrel k
      rw [hbranch, if_pos ((hlength k).1 (List.getElem?_eq_some_iff.1 hbranch).1)] at hk
      cases hk with
      | some h => exact h
  · rintro ⟨hlength, hderives⟩ k
    by_cases hlt : k < 2 ^ signCount instructions
    · rw [if_pos hlt]
      cases hbranch : branches[k]? with
      | none =>
        have hle := List.getElem?_eq_none_iff.1 hbranch
        omega
      | some e => exact .some (hderives k e hbranch)
    · have hbranch : branches[k]? = none := List.getElem?_eq_none (by omega)
      rw [if_neg hlt, hbranch]
      exact .none

/-! ## Compiling -/

/-- What the parameters on the left side declare. -/
def declaredBy (binding : Option Binding) : Declared :=
  Declared.addArguments {} (binding.elim [] (·.parameters))

theorem walk_eq_ok_iff {s : Session} {binding : Option Binding} {right : List Node}
    {es : List Emission} {d : Declared} :
    s.walk binding right {} = (es, .ok ((), d)) ↔
      Visits s 0 (.siblings none right) (declaredBy binding) es d := by
  have hruns : (s.walk binding right).Runs {} es () d ↔
      Visits s 0 (.siblings none right) (declaredBy binding) es d := by
    rw [walk, Walk.runs_silent rfl, visits_iff]
    rfl
  exact hruns

theorem compile_outcome_eq_ok_iff {s : Session} {nodes : List Node} {equation : Equation Float} :
    (s.compile nodes).outcome = .ok equation ↔
      ∃ binding right es d branches, splitSides nodes = .ok (binding, right) ∧
        Visits s 0 (.siblings none right) (declaredBy binding) es d ∧
        readBranches (Emission.instructions es) = .ok branches ∧
        equation = ⟨binding, d.symbols.arguments, d.symbols.bound, branches, d.externals⟩ := by
  have hassemble : (s.compile nodes).outcome = .ok equation ↔
      (s.assemble nodes).2 = .ok equation := by
    unfold compile
    rcases s.assemble nodes with ⟨es, error | e⟩ <;> simp
  rw [hassemble, assemble]
  cases hsides : splitSides nodes with
  | error e => simp
  | ok sides =>
    obtain ⟨binding, right⟩ := sides
    simp only [Except.ok.injEq, Prod.mk.injEq]
    constructor
    · intro h
      rcases hresult : s.walk binding right {} with ⟨es, error | ⟨_, d⟩⟩
      · simp [hresult] at h
      · rw [hresult] at h
        obtain ⟨branches, hbranches, rfl⟩ : ∃ branches,
            readBranches (Emission.instructions es) = .ok branches ∧
              ⟨binding, d.symbols.arguments, d.symbols.bound, branches, d.externals⟩ =
                equation := by
          simp only [freeze] at h
          cases hread : readBranches (Emission.instructions es) with
          | error e => simp [hread, Except.map] at h
          | ok branches =>
            refine ⟨branches, rfl, ?_⟩
            simpa [hread, Except.map] using h
        exact ⟨binding, right, es, d, branches, ⟨rfl, rfl⟩, walk_eq_ok_iff.1 hresult, hbranches,
          rfl⟩
    · rintro ⟨_, _, es, d, branches, ⟨rfl, rfl⟩, hvisits, hbranches, rfl⟩
      rw [walk_eq_ok_iff.2 hvisits]
      simp only [freeze, hbranches]
      rfl

/-- The code of every branch of what the nodes stand for. -/
def codes (s : Session) (nodes : List Node) : List (List Fragment) :=
  ((BranchSet.runAll {} (Emission.instructions (s.assemble nodes).1)).elim []
    (·.branches)).map Branch.fragments

/-- What is emitted where the right side is walked to its end. -/
theorem assemble_of_visits {s : Session} {nodes right : List Node} {binding : Option Binding}
    {es : List Emission} {d : Declared} (hsides : splitSides nodes = .ok (binding, right))
    (hvisits : Visits s 0 (.siblings none right) (declaredBy binding) es d) :
    s.assemble nodes = (es, freeze binding d es) := by
  rw [assemble, hsides]
  simp only [walk_eq_ok_iff.2 hvisits]

theorem splitSides_eq_none {nodes : List Node} (h : ∀ n ∈ nodes, n.isEquality = false) :
    splitSides nodes = .ok (none, nodes) := by
  have hnone : nodes.findIdx? Node.isEquality = none := by
    rw [List.findIdx?_eq_none_iff]
    exact h
  rw [splitSides, hnone]

end Formulary.Session

/-! ## Fresh sessions -/

namespace Formulary

/-- A session in which nothing has been compiled. -/
def Session.fresh (config : Config) : Session := { config }

theorem Session.resolve_fresh (config : Config) (name : String) :
    (fresh config).resolve name = none := rfl

theorem Entry.isPlain_instruction {symbol : String} {entry : Entry}
    (h : Entry.ofSymbol? symbol = some entry) : entry.instruction.IsPlain := by
  obtain ⟨mark, _, hmark⟩ := Option.bind_eq_some_iff.1 h
  cases mark with
  | equality => cases hmark
  | plusMinus =>
    obtain rfl := Option.some.inj hmark
    exact .sign
  | _ =>
    obtain rfl := Option.some.inj hmark
    exact .append _

/-- What stands for an equation is paired, so its code is not plain. -/
theorem not_isPlain_pairing {d : Declared} {equation : Equation Float}
    {make : Nat → Nat → Fragment} {es : List Emission}
    (h : ∀ i ∈ Emission.instructions (Walk.pairing d equation make ++ es), i.IsPlain) : False := by
  cases h (.pair (d.placeOf equation) equation.branchCount) (by simp [Walk.pairing])

/-- Where no name stands for an equation, nothing is paired. -/
theorem Visits.isPlain {s : Session} (hs : ∀ name, s.resolve name = none) {depth : Nat}
    {stretch : Stretch} {d d' : Declared} {es : List Emission}
    (h : Visits s depth stretch d es d') : ∀ i ∈ Emission.instructions es, i.IsPlain := by
  induction h with
  | nil => simp
  | cons _ _ ihnode ihrest =>
    rw [Emission.instructions_append, Walk.instructions_joint]
    simp only [List.forall_mem_append, Emission.instructions_cons_visit,
      Emission.instructions_append]
    refine ⟨?_, ihnode, ihrest⟩
    split
    · simp [Instruction.IsPlain.append]
    · simp
  | atom hentry => simpa using Entry.isPlain_instruction hentry
  | reference _ hresolve => simp [hs] at hresolve
  | application _ hresolve => simp [hs] at hresolve
  | derivative hresolve => simp [Session.resolveFunction, hs] at hresolve
  | angle _ _ ih => exact ih
  | group _ ih => exact ih
  | _ => simp_all [Instruction.IsPlain.append, or_imp]

namespace Session

variable {s : Session} {nodes : List Node} {es : List Emission} {d : Declared}

/-- What nodes without an equality compile to where no name stands for an equation. -/
theorem compile_eq_ok_iff_plain (hs : ∀ name, s.resolve name = none)
    (hnodes : ∀ n ∈ nodes, n.isEquality = false)
    (hvisits : Visits s 0 (.siblings none nodes) (declaredBy none) es d)
    {equation : Equation Float} :
    (s.compile nodes).outcome = .ok equation ↔
      equation = ⟨none, d.symbols.arguments, d.symbols.bound, equation.branches, d.externals⟩ ∧
        equation.branches.length = 2 ^ signCount (Emission.instructions es) ∧
        ∀ (k : Nat) (e), equation.branches[k]? = some e →
          Expression.IsSum
            (Fragment.joined (select k.testBit 0 (Emission.instructions es))) e := by
  have hsides := splitSides_eq_none hnodes
  have hassemble := assemble_of_visits hsides hvisits
  rw [← readBranches_plain (hvisits.isPlain hs), compile_outcome_eq_ok_iff]
  constructor
  · rintro ⟨binding, right, es', d', branches, hsides', hvisits', hread, rfl⟩
    obtain ⟨rfl, rfl⟩ : none = binding ∧ nodes = right := by simpa [hsides] using hsides'
    obtain ⟨rfl, rfl⟩ := hvisits.unique hvisits'
    exact ⟨rfl, hread⟩
  · rintro ⟨hequation, hread⟩
    exact ⟨none, nodes, es, d, equation.branches, hsides, hvisits, hread, hequation⟩

/-- Nodes whose every choice of signs derives a sum compile. -/
theorem exists_compile_plain (hs : ∀ name, s.resolve name = none)
    (hnodes : ∀ n ∈ nodes, n.isEquality = false)
    (hvisits : Visits s 0 (.siblings none nodes) (declaredBy none) es d)
    (h : ∀ k < 2 ^ signCount (Emission.instructions es), ∃ e, Expression.IsSum
      (Fragment.joined (select k.testBit 0 (Emission.instructions es))) e) :
    ∃ equation, (s.compile nodes).outcome = .ok equation := by
  obtain ⟨branches, hlength, hbranches⟩ := exists_list_of_forall_lt h
  refine ⟨⟨none, d.symbols.arguments, d.symbols.bound, branches, d.externals⟩, ?_⟩
  rw [compile_eq_ok_iff_plain hs hnodes hvisits]
  exact ⟨rfl, hlength, hbranches⟩

/-- Nodes without a choice of signs compile into the one branch their code derives. -/
theorem compile_single (hs : ∀ name, s.resolve name = none)
    (hnodes : ∀ n ∈ nodes, n.isEquality = false)
    (hvisits : Visits s 0 (.siblings none nodes) (declaredBy none) es d)
    (hcount : signCount (Emission.instructions es) = 0) {e : Expression Float}
    (he : Expression.parse (Fragment.joined
      (select (Nat.testBit 0) 0 (Emission.instructions es))) = .ok e) :
    ∃ equation, (s.compile nodes).outcome = .ok equation ∧ equation.branches = [e] := by
  refine ⟨⟨none, d.symbols.arguments, d.symbols.bound, [e], d.externals⟩, ?_, rfl⟩
  rw [compile_eq_ok_iff_plain hs hnodes hvisits, hcount]
  refine ⟨rfl, rfl, ?_⟩
  intro k e' hk
  obtain ⟨rfl, rfl⟩ : k = 0 ∧ e = e' := by simpa [List.getElem?_singleton] using hk
  exact Expression.parse_eq_ok_iff.1 he

theorem getElem?_codes (hs : ∀ name, s.resolve name = none)
    (hnodes : ∀ n ∈ nodes, n.isEquality = false)
    (hvisits : Visits s 0 (.siblings none nodes) (declaredBy none) es d) (k : Nat) :
    (s.codes nodes)[k]? =
      if k < 2 ^ signCount (Emission.instructions es) then
        some (Fragment.joined (select k.testBit 0 (Emission.instructions es))) else none := by
  have hplain := hvisits.isPlain hs
  rw [codes, assemble_of_visits (splitSides_eq_none hnodes) hvisits]
  cases hrun : BranchSet.runAll {} (Emission.instructions es) with
  | none =>
    have hsome := isSome_runAll_plain hplain {}
    rw [hrun] at hsome
    cases hsome
  | some set =>
    have hfragments := fragments_runAll hrun k
    rw [script?_plain hplain] at hfragments
    rw [Option.elim_some, List.getElem?_map, hfragments, apply_ite (Option.map Fragment.joined)]
    rfl

theorem codes_plain (hs : ∀ name, s.resolve name = none)
    (hnodes : ∀ n ∈ nodes, n.isEquality = false)
    (hvisits : Visits s 0 (.siblings none nodes) (declaredBy none) es d) {k : Nat}
    (hk : k < 2 ^ signCount (Emission.instructions es)) :
    (s.codes nodes)[k]? =
      some (Fragment.joined (select k.testBit 0 (Emission.instructions es))) := by
  rw [getElem?_codes hs hnodes hvisits, if_pos hk]

end Session

end Formulary
