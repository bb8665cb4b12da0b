import Mathlib.Algebra.BigOperators.Group.List.Basic
import Mathlib.Tactic.Ring
import Formulary.Proofs.Scripts

/-!
# The product of the choices

A branch set is the cartesian product of the choices that were made. A branch has one digit for each
choice, and its place in the set is the number with these digits, the earliest choice being the
lowest: each choice is the base of its own digit. What stands at that place is what a single branch
comes to that follows the digits.
-/

namespace Formulary

/-! ## Numbers with a base for each digit -/

/-- The number with these digits, the lowest first. -/
def place : (bases digits : List Nat) → Nat
  | base :: bases, digit :: digits => digit + base * place bases digits
  | _, _ => 0

/-- The digits of a number, the lowest first. -/
def digitsOf : (bases : List Nat) → Nat → List Nat
  | [], _ => []
  | base :: bases, k => k % base :: digitsOf bases (k / base)

@[simp] theorem place_nil (digits : List Nat) : place [] digits = 0 := rfl

@[simp] theorem place_cons (base digit : Nat) (bases digits : List Nat) :
    place (base :: bases) (digit :: digits) = digit + base * place bases digits := rfl

theorem digitsOf_place {bases digits : List Nat} (h : List.Forall₂ (· < ·) digits bases) :
    digitsOf bases (place bases digits) = digits := by
  induction h with
  | nil => rfl
  | @cons digit base digits bases hdigit _ ih =>
    have hbase : 0 < base := Nat.zero_lt_of_lt hdigit
    have hmod : (digit + base * place bases digits) % base = digit := by
      rw [Nat.add_mul_mod_self_left, Nat.mod_eq_of_lt hdigit]
    have hdiv : (digit + base * place bases digits) / base = place bases digits := by
      rw [Nat.add_mul_div_left _ _ hbase, Nat.div_eq_of_lt hdigit, Nat.zero_add]
    rw [place_cons, digitsOf, hmod, hdiv, ih]

theorem exists_place_eq {bases : List Nat} {k : Nat} (h : k < bases.prod) :
    ∃ digits, List.Forall₂ (· < ·) digits bases ∧ place bases digits = k := by
  induction bases generalizing k with
  | nil =>
    have hk : k = 0 := by simpa using h
    exact ⟨[], .nil, hk.symm⟩
  | cons base bases ih =>
    rw [List.prod_cons] at h
    have hbase : 0 < base := Nat.pos_of_ne_zero fun hzero => by simp [hzero] at h
    obtain ⟨digits, hdigits, hplace⟩ := ih (Nat.div_lt_of_lt_mul h)
    refine ⟨k % base :: digits, .cons (Nat.mod_lt k hbase) hdigits, ?_⟩
    rw [place_cons, hplace, Nat.mod_add_div]

/-- A number below the product of the bases has exactly one list of digits. -/
theorem existsUnique_place {bases : List Nat} {k : Nat} (h : k < bases.prod) :
    ∃! digits, List.Forall₂ (· < ·) digits bases ∧ place bases digits = k := by
  obtain ⟨digits, hdigits, hplace⟩ := exists_place_eq h
  refine ⟨digits, ⟨hdigits, hplace⟩, ?_⟩
  rintro others ⟨hothers, hsame⟩
  rw [← digitsOf_place hothers, hsame, ← hplace, digitsOf_place hdigits]

/-! ## The choices of a list of instructions -/

namespace Instruction

/-- The externals that are paired once the instructions have run. -/
def pairedAfter (paired : Nat → Bool) : List Instruction → Nat → Bool
  | [] => paired
  | .pair external _ :: rest => pairedAfter (fun e => e == external || paired e) rest
  | .append _ :: rest | .choose _ :: rest | .appendPaired _ _ :: rest => pairedAfter paired rest

/-- The sizes of the choices that are made, in order. To pair an external that is paired already is
no choice. -/
def choices (paired : Nat → Bool) : List Instruction → List Nat
  | [] => []
  | .append _ :: rest | .appendPaired _ _ :: rest => choices paired rest
  | .choose alternatives :: rest => alternatives.length :: choices paired rest
  | .pair external count :: rest =>
    (if paired external then [] else [count]) ++
      choices (fun e => e == external || paired e) rest

/-- An external is paired before anything is made of its pairing. -/
def PairsFirst (paired : Nat → Bool) : List Instruction → Prop
  | [] => True
  | .append _ :: rest | .choose _ :: rest => PairsFirst paired rest
  | .pair external _ :: rest => PairsFirst (fun e => e == external || paired e) rest
  | .appendPaired external _ :: rest => paired external = true ∧ PairsFirst paired rest

/-- What the instructions append when each external is paired with the branch selected for it. -/
def spelled (selected : Nat → Nat) (paired : Nat → Bool) : List Instruction → List Nat →
    List Fragment
  | [], _ => []
  | .append fragment :: rest, digits => fragment :: spelled selected paired rest digits
  | .choose alternatives :: rest, digits =>
    (digits.head?.bind (alternatives[·]?)).toList ++ spelled selected paired rest digits.tail
  | .pair external _ :: rest, digits =>
    spelled selected (fun e => e == external || paired e) rest
      (if paired external then digits else digits.tail)
  | .appendPaired external make :: rest, digits =>
    make (selected external) :: spelled selected paired rest digits

variable {paired : Nat → Bool}

theorem pairedAfter_append (paired : Nat → Bool) (first second : List Instruction) :
    pairedAfter paired (first ++ second) = pairedAfter (pairedAfter paired first) second := by
  induction first generalizing paired with
  | nil => rfl
  | cons i rest ih => cases i <;> exact ih _

theorem choices_append (paired : Nat → Bool) (first second : List Instruction) :
    choices paired (first ++ second) =
      choices paired first ++ choices (pairedAfter paired first) second := by
  induction first generalizing paired with
  | nil => rfl
  | cons i rest ih =>
    cases i with
    | append fragment => exact ih _
    | choose alternatives => exact congrArg (alternatives.length :: ·) (ih _)
    | pair external count =>
      rw [List.cons_append, choices, choices, ih, List.append_assoc]
      rfl
    | appendPaired external make => exact ih _

end Instruction

/-! ## One branch that follows its digits -/

namespace Branch

/-- What becomes of a branch that makes the choices its digits tell. It comes to nothing where a
digit is missing, or tells no alternative, or where an external is not paired. -/
def replay (b : Branch) : List Instruction → List Nat → Option Branch
  | [], _ => some b
  | .append fragment :: rest, digits => (b.append fragment).replay rest digits
  | .choose alternatives :: rest, digits =>
    (digits.head?.bind (alternatives[·]?)).bind fun fragment =>
      (b.append fragment).replay rest digits.tail
  | .pair external _ :: rest, digits =>
    if (b.pairing? external).isSome then b.replay rest digits
    else digits.head?.bind fun digit => (b.pair external digit).replay rest digits.tail
  | .appendPaired external make :: rest, digits =>
    (b.pairing? external).bind fun branch => (b.append (make branch)).replay rest digits

theorem pairing?_append (b : Branch) (fragment : Fragment) (external : Nat) :
    (b.append fragment).pairing? external = b.pairing? external := by
  rw [pairing?, append_pairings, pairing?]

/-- A pairing is kept. -/
theorem pairing?_replay {b b' : Branch} {instructions : List Instruction} {digits : List Nat}
    (h : b.replay instructions digits = some b') {external branch : Nat}
    (hpairing : b.pairing? external = some branch) : b'.pairing? external = some branch := by
  induction instructions generalizing b digits with
  | nil =>
    obtain rfl : b = b' := Option.some.inj h
    exact hpairing
  | cons i rest ih =>
    cases i with
    | append fragment => exact ih h ((pairing?_append ..).trans hpairing)
    | choose alternatives =>
      obtain ⟨fragment, -, hrest⟩ := Option.bind_eq_some_iff.1 h
      exact ih hrest ((pairing?_append ..).trans hpairing)
    | pair other count =>
      rw [replay] at h
      split at h
      · exact ih h hpairing
      · next hnew =>
        obtain ⟨digit, -, hrest⟩ := Option.bind_eq_some_iff.1 h
        apply ih hrest
        have hother : external ≠ other := by
          rintro rfl
          simp [hpairing] at hnew
        rw [pairing?_pair, if_neg hother, hpairing]
    | appendPaired other make =>
      obtain ⟨made, -, hrest⟩ := Option.bind_eq_some_iff.1 h
      exact ih hrest ((pairing?_append ..).trans hpairing)

theorem isSome_pairing?_pair {b : Branch} {paired : Nat → Bool}
    (h : ∀ e, (b.pairing? e).isSome = paired e) (external branch e : Nat) :
    ((b.pair external branch).pairing? e).isSome = (e == external || paired e) := by
  rw [pairing?_pair]
  by_cases he : e = external
  · simp [he]
  · simp [he, h e]

/-- To pair what is paired already changes nothing about what is paired. -/
theorem isSome_pairing?_again {b : Branch} {paired : Nat → Bool}
    (h : ∀ e, (b.pairing? e).isSome = paired e) {external : Nat}
    (hpaired : paired external = true) (e : Nat) :
    (b.pairing? e).isSome = (e == external || paired e) := by
  by_cases he : e = external
  · simp [he, h external, hpaired]
  · simp [he, h e]

theorem isSome_pairing?_replay {b b' : Branch} {instructions : List Instruction}
    {digits : List Nat} {paired : Nat → Bool} (hb : ∀ e, (b.pairing? e).isSome = paired e)
    (h : b.replay instructions digits = some b') (external : Nat) :
    (b'.pairing? external).isSome = Instruction.pairedAfter paired instructions external := by
  induction instructions generalizing b digits paired with
  | nil =>
    obtain rfl : b = b' := Option.some.inj h
    exact hb external
  | cons i rest ih =>
    cases i with
    | append fragment => exact ih (by simpa only [pairing?_append] using hb) h
    | choose alternatives =>
      obtain ⟨fragment, -, hrest⟩ := Option.bind_eq_some_iff.1 h
      exact ih (by simpa only [pairing?_append] using hb) hrest
    | pair other count =>
      rw [replay, hb other] at h
      split at h
      · next hpaired => exact ih (isSome_pairing?_again hb hpaired) h
      · obtain ⟨digit, -, hrest⟩ := Option.bind_eq_some_iff.1 h
        exact ih (isSome_pairing?_pair hb other digit) hrest
    | appendPaired other make =>
      obtain ⟨made, -, hrest⟩ := Option.bind_eq_some_iff.1 h
      exact ih (by simpa only [pairing?_append] using hb) hrest

/-- A branch makes the same of an external wherever it uses it. -/
theorem code_replay {b b' : Branch} {instructions : List Instruction} {digits : List Nat}
    {paired : Nat → Bool} (hb : ∀ e, (b.pairing? e).isSome = paired e)
    (h : b.replay instructions digits = some b') {selected : Nat → Nat}
    (hselected : ∀ external branch, b'.pairing? external = some branch →
      selected external = branch) :
    b'.code = (b.appendAll (Instruction.spelled selected paired instructions digits)).code := by
  induction instructions generalizing b digits paired with
  | nil =>
    obtain rfl : b = b' := Option.some.inj h
    rfl
  | cons i rest ih =>
    cases i with
    | append fragment => exact ih (by simpa only [pairing?_append] using hb) h
    | choose alternatives =>
      obtain ⟨fragment, hfragment, hrest⟩ := Option.bind_eq_some_iff.1 h
      rw [Instruction.spelled, hfragment]
      exact ih (by simpa only [pairing?_append] using hb) hrest
    | pair other count =>
      rw [replay, hb other] at h
      rw [Instruction.spelled]
      split at h
      · next hpaired =>
        rw [if_pos hpaired]
        exact ih (isSome_pairing?_again hb hpaired) h
      · next hnew =>
        obtain ⟨digit, -, hrest⟩ := Option.bind_eq_some_iff.1 h
        rw [if_neg hnew, ih (isSome_pairing?_pair hb other digit) hrest]
        exact appendAll_code_congr (pair_code ..) _
    | appendPaired other make =>
      obtain ⟨made, hmade, hrest⟩ := Option.bind_eq_some_iff.1 h
      have hmade' := pairing?_replay hrest ((pairing?_append ..).trans hmade)
      rw [Instruction.spelled, hselected other made hmade']
      exact ih (by simpa only [pairing?_append] using hb) hrest

/-- The branch of an external that a branch is paired with, if it is paired. -/
def selected (b : Branch) (external : Nat) : Nat := (b.pairing? external).getD 0

end Branch

/-! ## The set and its branches -/

namespace BranchSet

variable {paired : Nat → Bool} {s s' : BranchSet}

theorem pair_of_paired (h : s.PairedAs paired) {external : Nat}
    (hpaired : paired external = true) (count : Nat) : s.pair external count = s := by
  obtain ⟨branches⟩ := s
  cases branches with
  | nil => simp [pair, isPaired]
  | cons first others =>
    rw [pair, if_pos]
    rw [isPaired_eq h (List.mem_cons_self ..), hpaired]

theorem pair_of_new (h : s.PairedAs paired) {external : Nat} (hnew : paired external = false)
    (count : Nat) :
    s.pair external count =
      ⟨(List.range count).flatMap fun branch => s.branches.map (·.pair external branch)⟩ := by
  obtain ⟨branches⟩ := s
  cases branches with
  | nil => simp [pair, isPaired]
  | cons first others =>
    rw [pair, if_neg]
    rw [isPaired_eq h (List.mem_cons_self ..), hnew]
    exact Bool.false_ne_true

theorem appendPaired_of_paired (h : s.PairedAs paired) {external : Nat}
    (hpaired : paired external = true) (make : Nat → Fragment) :
    s.appendPaired external make =
      some ⟨s.branches.map fun b => b.append (make ((b.pairing? external).getD 0))⟩ := by
  rw [appendPaired, Option.map_eq_some_iff]
  refine ⟨_, mapM_eq_some_iff.2 ?_, rfl⟩
  rw [List.map_map]
  apply List.map_congr_left
  intro b hb
  obtain ⟨branch, hbranch⟩ := Option.isSome_iff_exists.1 ((h b hb external).trans hpaired)
  simp [hbranch]

/-- A branch with the digits of further choices, and where it goes: behind all branches that differ
from it in later choices only. -/
structure Multiplies (s : BranchSet) (paired : Nat → Bool) (instructions : List Instruction)
    (s' : BranchSet) : Prop where
  size : s'.size = (Instruction.choices paired instructions).prod * s.size
  follows : ∀ digits, List.Forall₂ (· < ·) digits (Instruction.choices paired instructions) →
    ∀ (i : Nat) (b), s.branches[i]? = some b → ∃ b', b.replay instructions digits = some b' ∧
      s'.branches[i + s.size * place (Instruction.choices paired instructions) digits]? = some b'

namespace Multiplies

variable {rest : List Instruction}

theorem nil (s : BranchSet) (paired : Nat → Bool) : s.Multiplies paired [] s where
  size := by simp [Instruction.choices]
  follows := by
    intro digits _ i b hb
    exact ⟨b, rfl, hb⟩

theorem append {fragment : Fragment} (h : (s.append fragment).Multiplies paired rest s') :
    s.Multiplies paired (.append fragment :: rest) s' where
  size := by rw [h.size, size_append, Instruction.choices]
  follows := by
    intro digits hdigits i b hb
    have hb' : (s.append fragment).branches[i]? = some (b.append fragment) := by
      rw [BranchSet.append, List.getElem?_map, hb, Option.map_some]
    have hnext := h.follows digits hdigits i _ hb'
    rw [size_append] at hnext
    exact hnext

/-- The branch at a place among the copies of a set. -/
private theorem getElem?_copy {α : Type} {xs : List α} {g : α → Branch → Branch} {i d : Nat}
    {b : Branch} {x : α} (hb : s.branches[i]? = some b) (hx : xs[d]? = some x) :
    (xs.flatMap fun x => s.branches.map (g x))[i + s.size * d]? = some (g x b) := by
  -- The copies stand one behind the other, each as long as the set: copy `d` starts at `s.size * d`.
  have hi : i < s.branches.length := (List.getElem?_eq_some_iff.1 hb).1
  have hdiv : (i + s.size * d) / s.branches.length = d := by
    rw [BranchSet.size, Nat.add_mul_div_left _ _ (Nat.zero_lt_of_lt hi), Nat.div_eq_of_lt hi,
      Nat.zero_add]
  have hmod : (i + s.size * d) % s.branches.length = i := by
    rw [BranchSet.size, Nat.add_mul_mod_self_left, Nat.mod_eq_of_lt hi]
  rw [getElem?_flatMap_map, hdiv, hmod, hx, hb]
  rfl

theorem choose {alternatives : List Fragment}
    (h : (s.choose alternatives).Multiplies paired rest s') :
    s.Multiplies paired (.choose alternatives :: rest) s' where
  size := by rw [h.size, size_choose, Instruction.choices, List.prod_cons]; ring
  follows := by
    intro digits hdigits i b hb
    rw [Instruction.choices] at hdigits
    obtain _ | @⟨digit, _, digits, _, hdigit, hdigits⟩ := hdigits
    have hfragment := List.getElem?_eq_getElem hdigit
    have hcopy : (s.choose alternatives).branches[i + s.size * digit]? =
        some (b.append alternatives[digit]) :=
      getElem?_copy (g := fun (f : Fragment) (b : Branch) => b.append f) hb hfragment
    obtain ⟨b', hreplay, hplace⟩ := h.follows digits hdigits _ _ hcopy
    refine ⟨b', ?_, ?_⟩
    · rw [Branch.replay, List.head?_cons, Option.bind_some, hfragment]
      exact hreplay
    · rw [Instruction.choices, place_cons, ← hplace, size_choose]
      congr 1
      ring

theorem pair {external count : Nat} (hs : s.PairedAs paired)
    (h : (s.pair external count).Multiplies (fun e => e == external || paired e) rest s') :
    s.Multiplies paired (.pair external count :: rest) s' := by
  cases hpaired : paired external with
  | true =>
    rw [pair_of_paired hs hpaired] at h
    have hchoices : Instruction.choices paired (.pair external count :: rest) =
        Instruction.choices (fun e => e == external || paired e) rest := by
      rw [Instruction.choices, if_pos hpaired, List.nil_append]
    refine ⟨by rw [hchoices, h.size], ?_⟩
    intro digits hdigits i b hb
    rw [hchoices] at hdigits ⊢
    rw [Branch.replay, hs b (List.mem_of_getElem? hb), if_pos hpaired]
    exact h.follows digits hdigits i b hb
  | false =>
    rw [pair_of_new hs hpaired] at h
    have hnot : ¬paired external = true := by simp [hpaired]
    have hchoices : Instruction.choices paired (.pair external count :: rest) =
        count :: Instruction.choices (fun e => e == external || paired e) rest := by
      rw [Instruction.choices, if_neg hnot, List.singleton_append]
    have hcopies : BranchSet.size
        ⟨(List.range count).flatMap fun branch => s.branches.map (·.pair external branch)⟩ =
          count * s.size := by
      simp [BranchSet.size, List.length_flatMap, List.map_const']
    refine ⟨by rw [hchoices, h.size, hcopies, List.prod_cons]; ring, ?_⟩
    intro digits hdigits i b hb
    rw [hchoices] at hdigits ⊢
    obtain _ | @⟨digit, _, digits, _, hdigit, hdigits⟩ := hdigits
    have hcopy := getElem?_copy (g := fun (branch : Nat) (b : Branch) => b.pair external branch) hb
      (List.getElem?_range hdigit)
    obtain ⟨b', hreplay, hplace⟩ := h.follows digits hdigits _ _ hcopy
    refine ⟨b', ?_, ?_⟩
    · rw [Branch.replay, hs b (List.mem_of_getElem? hb), if_neg hnot]
      exact hreplay
    · rw [place_cons, ← hplace, hcopies]
      congr 1
      ring

theorem appendPaired {external : Nat} {make : Nat → Fragment} (hs : s.PairedAs paired)
    (hpaired : paired external = true)
    (h : BranchSet.Multiplies
      ⟨s.branches.map fun b => b.append (make ((b.pairing? external).getD 0))⟩ paired rest s') :
    s.Multiplies paired (.appendPaired external make :: rest) s' := by
  have hsize : BranchSet.size
      ⟨s.branches.map fun b => b.append (make ((b.pairing? external).getD 0))⟩ = s.size :=
    List.length_map ..
  refine ⟨by rw [h.size, hsize, Instruction.choices], ?_⟩
  intro digits hdigits i b hb
  obtain ⟨branch, hbranch⟩ := Option.isSome_iff_exists.1
    ((hs b (List.mem_of_getElem? hb) external).trans hpaired)
  have hb' : (s.branches.map fun b =>
      b.append (make ((b.pairing? external).getD 0)))[i]? = some (b.append (make branch)) := by
    rw [List.getElem?_map, hb, Option.map_some, hbranch, Option.getD_some]
  obtain ⟨b', hreplay, hplace⟩ := h.follows digits hdigits i _ hb'
  refine ⟨b', ?_, ?_⟩
  · rw [Branch.replay, hbranch]
    exact hreplay
  · rw [hsize] at hplace
    exact hplace

end Multiplies

theorem runAll_cons (s : BranchSet) (i : Instruction) (rest : List Instruction) :
    s.runAll (i :: rest) = (s.run i).bind (·.runAll rest) := by
  rw [runAll, List.foldlM_cons]
  rfl

/-- Instructions that pair an external before they use it can be run, and multiply the set by their
choices. -/
theorem exists_multiplies {instructions : List Instruction} (hs : s.PairedAs paired)
    (h : Instruction.PairsFirst paired instructions) :
    ∃ s', s.runAll instructions = some s' ∧ s.Multiplies paired instructions s' := by
  induction instructions generalizing s paired with
  | nil => exact ⟨s, rfl, .nil s paired⟩
  | cons i rest ih =>
    cases i with
    | append fragment =>
      obtain ⟨s', hrun, hmultiplies⟩ := ih (hs.append fragment) h
      exact ⟨s', hrun, hmultiplies.append⟩
    | choose alternatives =>
      obtain ⟨s', hrun, hmultiplies⟩ := ih (hs.choose alternatives) h
      exact ⟨s', hrun, hmultiplies.choose⟩
    | pair external count =>
      obtain ⟨s', hrun, hmultiplies⟩ := ih (hs.pair external count) h
      exact ⟨s', hrun, hmultiplies.pair hs⟩
    | appendPaired external make =>
      have hstep := appendPaired_of_paired hs h.1 make
      obtain ⟨s', hrun, hmultiplies⟩ := ih (hs.appendPaired hstep) h.2
      refine ⟨s', ?_, hmultiplies.appendPaired hs h.1⟩
      rw [runAll_cons, run, hstep, Option.bind_some, hrun]

/-- A set grown from one empty branch has one branch for each list of digits, at the place that the
digits tell. It is what one branch comes to that makes these choices, and in it everything made of
an external is made of the same pairing. -/
theorem runAll_is_product_of_choices {instructions : List Instruction}
    (h : Instruction.PairsFirst (fun _ => false) instructions) :
    ∃ set, BranchSet.runAll {} instructions = some set ∧
      set.size = (Instruction.choices (fun _ => false) instructions).prod ∧
      (∀ k < set.size, ∃! digits,
        List.Forall₂ (· < ·) digits (Instruction.choices (fun _ => false) instructions) ∧
          place (Instruction.choices (fun _ => false) instructions) digits = k) ∧
      ∀ digits, List.Forall₂ (· < ·) digits (Instruction.choices (fun _ => false) instructions) →
        ∃ branch,
          set.branches[place (Instruction.choices (fun _ => false) instructions) digits]? =
            some branch ∧
          Branch.replay {} instructions digits = some branch ∧
          ∃ selected : Nat → Nat,
            (∀ external, branch.pairing? external =
              if Instruction.pairedAfter (fun _ => false) instructions external then
                some (selected external) else none) ∧
            branch.fragments = Fragment.joined
              (Instruction.spelled selected (fun _ => false) instructions digits) := by
  obtain ⟨set, hrun, hsize, hfollows⟩ := exists_multiplies pairedAs_empty h
  have hone : BranchSet.size {} = 1 := rfl
  rw [hone, Nat.mul_one] at hsize
  refine ⟨set, hrun, hsize, fun k hk => existsUnique_place (hsize ▸ hk), ?_⟩
  intro digits hdigits
  have hnone : ∀ e, (Branch.pairing? {} e).isSome = false := fun _ => rfl
  obtain ⟨branch, hreplay, hplace⟩ := hfollows digits hdigits 0 {} rfl
  rw [hone, Nat.one_mul, Nat.zero_add] at hplace
  have hpaired := Branch.isSome_pairing?_replay hnone hreplay
  have hselected : ∀ external made, branch.pairing? external = some made →
      branch.selected external = made := by
    intro external made hmade
    rw [Branch.selected, hmade, Option.getD_some]
  have hcode := Branch.code_replay hnone hreplay hselected
  refine ⟨branch, hplace, hreplay, branch.selected, ?_, congrArg List.reverse hcode⟩
  intro external
  rw [← hpaired external]
  cases hpairing : branch.pairing? external with
  | none => rfl
  | some made => simp [Branch.selected, hpairing]

/-- A sign before the square of an external of three branches: of the six branches, the last has a
minus and the last branch of the external twice. -/
theorem runAll_signed_square :
    Instruction.PairsFirst (fun _ => false)
      [.choose [.operator .add, .operator .subtract], .pair 0 3, .appendPaired 0 (.reference 0),
        .append (.operator .multiply), .pair 0 3, .appendPaired 0 (.reference 0)] ∧
    ∃ set branch, BranchSet.runAll {}
        [.choose [.operator .add, .operator .subtract], .pair 0 3, .appendPaired 0 (.reference 0),
          .append (.operator .multiply), .pair 0 3, .appendPaired 0 (.reference 0)] = some set ∧
      set.size = 6 ∧ set.branches[5]? = some branch ∧ branch.pairing? 0 = some 2 ∧
      branch.fragments =
        [.operator .subtract, .reference 0 2, .operator .multiply, .reference 0 2] := by
  have hfirst : Instruction.PairsFirst (fun _ => false)
      [.choose [.operator .add, .operator .subtract], .pair 0 3, .appendPaired 0 (.reference 0),
        .append (.operator .multiply), .pair 0 3, .appendPaired 0 (.reference 0)] :=
    ⟨rfl, rfl, trivial⟩
  have hdigits : List.Forall₂ (· < ·) [1, 2] [2, 3] :=
    .cons (by decide) (.cons (by decide) .nil)
  obtain ⟨set, hrun, hsize, -, hbranch⟩ := runAll_is_product_of_choices hfirst
  obtain ⟨branch, hplace, hreplay, -⟩ := hbranch [1, 2] hdigits
  obtain rfl := Option.some.inj hreplay
  exact ⟨hfirst, set, _, hrun, hsize, hplace, rfl, rfl⟩

end BranchSet

end Formulary
