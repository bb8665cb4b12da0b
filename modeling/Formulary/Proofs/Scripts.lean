import Mathlib.Algebra.Group.Nat.Defs
import Formulary.Branches

/-!
# Scripts

What one branch is made of, told by its number alone. The digits of the number are the choices the
branch makes, the earliest choice being the lowest digit; an external that is paired already offers
no choice. So a branch can be followed without growing the others.
-/

namespace Formulary

/-! ## Copies of a list -/

/-- An element of the copies of a list lies in the copy and at the place that division tells. -/
theorem getElem?_flatMap_map {α β γ : Type} (g : β → α → γ) (xs : List α) (bs : List β) (k : Nat) :
    (bs.flatMap fun b => xs.map (g b))[k]? =
      bs[k / xs.length]?.bind fun b => xs[k % xs.length]?.map (g b) := by
  induction bs generalizing k with
  | nil => rfl
  | cons b bs ih =>
    rw [List.flatMap_cons, List.getElem?_append, List.length_map]
    by_cases hk : k < xs.length
    · rw [if_pos hk, Nat.div_eq_of_lt hk, Nat.mod_eq_of_lt hk, List.getElem?_map]
      rfl
    · rw [if_neg hk, ih (k - xs.length)]
      rcases Nat.eq_zero_or_pos xs.length with hxs | hxs
      · obtain rfl := List.length_eq_zero_iff.1 hxs
        simp
      · have hle : xs.length ≤ k := by omega
        have hmod : (k - xs.length) % xs.length = k % xs.length := by
          rw [← Nat.mod_eq_sub_mod hle]
        have hdiv : k / xs.length = (k - xs.length) / xs.length + 1 :=
          Nat.div_eq_sub_div hxs hle
        rw [hmod, hdiv, List.getElem?_cons_succ]

theorem getElem?_flatMap_map_mod {α β γ : Type} (g : β → α → γ) (xs : List α) (bs : List β)
    {n : Nat} (hn : n = xs.length) (k : Nat) :
    (bs.flatMap fun b => xs.map (g b))[k % (bs.length * n)]? =
      bs[k / n % bs.length]?.bind fun b => xs[k % n]?.map (g b) := by
  subst hn
  rw [getElem?_flatMap_map, Nat.mod_mul_left_mod, Nat.mod_mul_left_div_self]

theorem mapM_eq_some_iff {α β : Type} {f : α → Option β} {xs : List α} {ys : List β} :
    xs.mapM f = some ys ↔ xs.map f = ys.map some := by
  induction xs generalizing ys with
  | nil => cases ys <;> simp
  | cons x xs ih =>
    rw [List.mapM_cons, List.map_cons]
    cases hx : f x with
    | none => cases ys <;> simp
    | some y =>
      cases hxs : xs.mapM f with
      | none =>
        have hnone : ∀ ys : List β, xs.map f ≠ ys.map some := by
          intro ys h
          rw [← ih, hxs] at h
          cases h
        cases ys with
        | nil => simp
        | cons y' ys => simp [hnone ys]
      | some ys' =>
        cases ys with
        | nil => simp
        | cons y'' ys =>
          rw [List.map_cons, List.cons.injEq, ← ih, hxs]
          simp

/-! ## Branches and their code -/

namespace Branch

def appendAll (b : Branch) (fragments : List Fragment) : Branch := fragments.foldl append b

@[simp] theorem appendAll_nil (b : Branch) : b.appendAll [] = b := rfl

@[simp] theorem appendAll_cons (b : Branch) (fragment : Fragment) (fragments : List Fragment) :
    b.appendAll (fragment :: fragments) = (b.append fragment).appendAll fragments := rfl

theorem appendAll_append (b : Branch) (first second : List Fragment) :
    b.appendAll (first ++ second) = (b.appendAll first).appendAll second :=
  List.foldl_append

/-- What is appended depends on the code so far only. -/
theorem append_code_congr {b b' : Branch} (h : b.code = b'.code) (fragment : Fragment) :
    (b.append fragment).code = (b'.append fragment).code := by
  unfold append
  rw [h]
  split <;> rfl

theorem appendAll_code_congr {b b' : Branch} (h : b.code = b'.code) (fragments : List Fragment) :
    (b.appendAll fragments).code = (b'.appendAll fragments).code := by
  induction fragments generalizing b b' with
  | nil => exact h
  | cons fragment fragments ih => exact ih (append_code_congr h fragment)

end Branch

/-- The fragments of branch `k`, with some externals paired already. -/
def script? (pairings : List (Nat × Nat)) : List Instruction → Nat → Option (List Fragment)
  | [], k => if k = 0 then some [] else none
  | .append fragment :: rest, k => (script? pairings rest k).map (fragment :: ·)
  | .choose alternatives :: rest, k =>
    alternatives[k % alternatives.length]?.bind fun fragment =>
      (script? pairings rest (k / alternatives.length)).map (fragment :: ·)
  | .pair external count :: rest, k =>
    if (pairings.lookup external).isSome then script? pairings rest k
    else if count = 0 then none
    else script? (Branch.enter external (k % count) pairings) rest (k / count)
  | .appendPaired external make :: rest, k =>
    (pairings.lookup external).bind fun branch =>
      (script? pairings rest k).map (make branch :: ·)

section Equations

variable (pairings : List (Nat × Nat)) (rest : List Instruction) (external k : Nat)

theorem script?_nil : script? pairings [] k = if k = 0 then some [] else none := rfl

theorem script?_append (fragment : Fragment) :
    script? pairings (.append fragment :: rest) k =
      (script? pairings rest k).map (fragment :: ·) := rfl

theorem script?_choose (alternatives : List Fragment) :
    script? pairings (.choose alternatives :: rest) k =
      alternatives[k % alternatives.length]?.bind fun fragment =>
        (script? pairings rest (k / alternatives.length)).map (fragment :: ·) := rfl

theorem script?_pair (count : Nat) :
    script? pairings (.pair external count :: rest) k =
      if (pairings.lookup external).isSome then script? pairings rest k
      else if count = 0 then none
      else script? (Branch.enter external (k % count) pairings) rest (k / count) := rfl

theorem script?_appendPaired (make : Nat → Fragment) :
    script? pairings (.appendPaired external make :: rest) k =
      (pairings.lookup external).bind fun branch =>
        (script? pairings rest k).map (make branch :: ·) := rfl

end Equations

namespace BranchSet

/-- Every branch is paired with the externals that `paired` tells. -/
def PairedAs (paired : Nat → Bool) (s : BranchSet) : Prop :=
  ∀ b ∈ s.branches, ∀ external, (b.pairing? external).isSome = paired external

theorem pairedAs_empty : PairedAs (fun _ => false) {} := by
  intro b hb external
  obtain rfl := List.mem_singleton.1 hb
  rfl

theorem isPaired_eq {paired : Nat → Bool} {s : BranchSet} (h : s.PairedAs paired) {b : Branch}
    (hb : b ∈ s.branches) (external : Nat) : s.isPaired external = paired external := by
  obtain ⟨branches⟩ := s
  cases branches with
  | nil => cases hb
  | cons first others => exact h first (List.mem_cons_self ..) external

variable {paired : Nat → Bool} {s s' : BranchSet}

theorem PairedAs.append (h : s.PairedAs paired) (fragment : Fragment) :
    (s.append fragment).PairedAs paired := by
  intro b hb external
  obtain ⟨b', hb', rfl⟩ := List.mem_map.1 hb
  rw [Branch.pairing?, Branch.append_pairings]
  exact h b' hb' external

theorem PairedAs.choose (h : s.PairedAs paired) (alternatives : List Fragment) :
    (s.choose alternatives).PairedAs paired := by
  intro b hb external
  obtain ⟨fragment, _, hb⟩ := List.mem_flatMap.1 hb
  exact h.append fragment b hb external

theorem PairedAs.pair (h : s.PairedAs paired) (external count : Nat) :
    (s.pair external count).PairedAs fun e => e == external || paired e := by
  intro b hb e
  unfold BranchSet.pair at hb
  by_cases hpaired : s.isPaired external = true
  · rw [if_pos hpaired] at hb
    have heq := isPaired_eq h hb external
    rw [h b hb e]
    by_cases he : e = external
    · simp [he, ← heq, hpaired]
    · simp [he]
  · rw [if_neg hpaired] at hb
    obtain ⟨branch, _, hb⟩ := List.mem_flatMap.1 hb
    obtain ⟨b', hb', rfl⟩ := List.mem_map.1 hb
    rw [Branch.pairing?_pair]
    by_cases he : e = external
    · simp [he]
    · simp [he, h b' hb' e]

theorem PairedAs.appendPaired (h : s.PairedAs paired) {external : Nat} {make : Nat → Fragment}
    (hrun : s.appendPaired external make = some s') : s'.PairedAs paired := by
  obtain ⟨branches, hbranches, rfl⟩ := Option.map_eq_some_iff.1 hrun
  intro b hb e
  have hmem : some b ∈ branches.map some := List.mem_map_of_mem hb
  rw [← mapM_eq_some_iff.1 hbranches] at hmem
  obtain ⟨b', hb', hb⟩ := List.mem_map.1 hmem
  obtain ⟨branch, _, rfl⟩ := Option.map_eq_some_iff.1 hb
  rw [Branch.pairing?, Branch.append_pairings]
  exact h b' hb' e

/-- The code of branch `k` of the second set is that of the branch it comes from with its script
behind it. -/
def Scripted (s : BranchSet) (instructions : List Instruction) (s' : BranchSet) : Prop :=
  ∀ k : Nat, s'.branches[k]?.map (·.code) = s.branches[k % s.size]?.bind fun b =>
    (script? b.pairings instructions (k / s.size)).map fun fs => (b.appendAll fs).code

namespace Scripted

variable {rest : List Instruction}

theorem nil (s : BranchSet) : s.Scripted [] s := by
  intro k
  by_cases hk : k < s.size
  · rw [Nat.mod_eq_of_lt hk, Nat.div_eq_of_lt hk]
    cases s.branches[k]? <;> rfl
  · have hnone : s.branches[k]? = none := List.getElem?_eq_none (by rw [size] at hk; omega)
    rw [hnone]
    rcases Nat.eq_zero_or_pos s.size with hsize | hsize
    · rw [hsize, Nat.mod_zero, hnone]
      rfl
    · have hdiv : k / s.size ≠ 0 := by
        have := Nat.div_pos (Nat.le_of_not_lt hk) hsize
        omega
      cases s.branches[k % s.size]? <;> simp [script?_nil, hdiv]

theorem append {fragment : Fragment} (h : (s.append fragment).Scripted rest s') :
    s.Scripted (.append fragment :: rest) s' := by
  intro k
  rw [h k, size_append]
  simp only [BranchSet.append, List.getElem?_map, script?_append]
  cases s.branches[k % s.size]? with
  | none => rfl
  | some b => simp [Option.map_map, Function.comp_def]

theorem choose {alternatives : List Fragment} (h : (s.choose alternatives).Scripted rest s') :
    s.Scripted (.choose alternatives :: rest) s' := by
  intro k
  have hplace := getElem?_flatMap_map_mod (fun (f : Fragment) (b : Branch) => b.append f)
    s.branches alternatives (n := s.size) rfl k
  rw [h k, size_choose, BranchSet.choose, hplace, Nat.mul_comm, ← Nat.div_div_eq_div_mul]
  simp only [script?_choose]
  cases s.branches[k % s.size]? <;>
    cases alternatives[k / s.size % alternatives.length]? <;>
    simp [Option.map_map, Function.comp_def]

/-- A branch that is paired with the external already keeps that pairing. -/
theorem pair_again {external count : Nat}
    (hpaired : ∀ b ∈ s.branches, (b.pairings.lookup external).isSome = true)
    (h : s.Scripted rest s') : s.Scripted (.pair external count :: rest) s' := by
  intro k
  rw [h k]
  cases hb : s.branches[k % s.size]? with
  | none => rfl
  | some b => simp [script?_pair, hpaired b (List.mem_of_getElem? hb)]

theorem pair_first {external count : Nat} (hnew : s.isPaired external = false)
    (hpaired : ∀ b ∈ s.branches, (b.pairings.lookup external).isSome = false)
    (h : (s.pair external count).Scripted rest s') :
    s.Scripted (.pair external count :: rest) s' := by
  intro k
  have hnot : ¬s.isPaired external = true := by simp [hnew]
  have hsize : (s.pair external count).size = count * s.size := by
    simp [BranchSet.pair, hnew, size, List.length_flatMap, List.map_const']
  have hplace := getElem?_flatMap_map_mod (fun (i : Nat) (b : Branch) => b.pair external i)
    s.branches (List.range count) (n := s.size) rfl k
  rw [List.length_range] at hplace
  rw [h k, hsize, BranchSet.pair, if_neg hnot, hplace, Nat.mul_comm, ← Nat.div_div_eq_div_mul]
  cases hb : s.branches[k % s.size]? with
  | none => simp
  | some b =>
    have hlookup := hpaired b (List.mem_of_getElem? hb)
    rcases Nat.eq_zero_or_pos count with rfl | hcount
    · simp [script?_pair, hlookup]
    · have hlt : k / s.size % count < count := Nat.mod_lt _ hcount
      have hcode : (b.pair external (k / s.size % count)).code = b.code := rfl
      have hpairings : (b.pair external (k / s.size % count)).pairings =
          Branch.enter external (k / s.size % count) b.pairings := rfl
      simp only [List.getElem?_range hlt, Option.bind_some, Option.map_some, script?_pair, hlookup,
        Bool.false_eq_true, if_false, if_neg (Nat.ne_of_gt hcount), hpairings]
      congr 1
      funext fs
      exact Branch.appendAll_code_congr hcode fs

theorem pair {external count : Nat} (hpaired : s.PairedAs paired)
    (h : (s.pair external count).Scripted rest s') :
    s.Scripted (.pair external count :: rest) s' := by
  have hlookup : ∀ b ∈ s.branches,
      (b.pairings.lookup external).isSome = s.isPaired external := by
    intro b hb
    rw [← Branch.pairing?, hpaired b hb external, isPaired_eq hpaired hb external]
  cases hfirst : s.isPaired external with
  | true =>
    rw [BranchSet.pair, if_pos hfirst] at h
    exact h.pair_again fun b hb => (hlookup b hb).trans hfirst
  | false => exact h.pair_first hfirst fun b hb => (hlookup b hb).trans hfirst

theorem appendPaired {external : Nat} {make : Nat → Fragment} {s₁ : BranchSet}
    (hstep : s.appendPaired external make = some s₁) (h : s₁.Scripted rest s') :
    s.Scripted (.appendPaired external make :: rest) s' := by
  intro k
  obtain ⟨branches, hbranches, rfl⟩ := Option.map_eq_some_iff.1 hstep
  have hmap := mapM_eq_some_iff.1 hbranches
  have hsize : branches.length = s.size := by
    have hlength := congrArg List.length hmap
    rw [List.length_map, List.length_map] at hlength
    exact hlength.symm
  have hplace := congrArg (·[k % s.size]?) hmap
  simp only [List.getElem?_map] at hplace
  rw [h k, size, hsize]
  simp only [script?_appendPaired]
  cases hb : s.branches[k % s.size]? with
  | none =>
    have hnone : branches[k % s.size]? = none := by simpa [hb] using hplace.symm
    rw [hnone]
    rfl
  | some b =>
    rw [hb, Option.map_some] at hplace
    cases hb' : branches[k % s.size]? with
    | none => simp [hb'] at hplace
    | some b' =>
      rw [hb', Option.map_some] at hplace
      obtain ⟨branch, hlookup, rfl⟩ := Option.map_eq_some_iff.1 (Option.some.inj hplace)
      rw [Branch.pairing?] at hlookup
      simp [hlookup, Option.map_map, Function.comp_def]

end Scripted

theorem scripted_runAll {instructions : List Instruction} (h : s.PairedAs paired)
    (hrun : s.runAll instructions = some s') : s.Scripted instructions s' := by
  induction instructions generalizing s paired with
  | nil =>
    obtain rfl : s = s' := Option.some.inj hrun
    exact .nil s
  | cons i rest ih =>
    obtain ⟨s₁, hstep, hrest⟩ : ∃ s₁, s.run i = some s₁ ∧ s₁.runAll rest = some s' := by
      simpa [runAll, List.foldlM_cons, Option.bind_eq_some_iff] using hrun
    cases i with
    | append fragment =>
      obtain rfl : s.append fragment = s₁ := Option.some.inj hstep
      exact (ih (h.append fragment) hrest).append
    | choose alternatives =>
      obtain rfl : s.choose alternatives = s₁ := Option.some.inj hstep
      exact (ih (h.choose alternatives) hrest).choose
    | pair external count =>
      obtain rfl : s.pair external count = s₁ := Option.some.inj hstep
      exact (ih (h.pair external count) hrest).pair h
    | appendPaired external make =>
      exact (ih (h.appendPaired hstep) hrest).appendPaired hstep

end BranchSet

/-! ## Numbers in pieces -/

namespace Fragment

/-- The code of a branch that appends these fragments to nothing. -/
def joined (fragments : List Fragment) : List Fragment :=
  (({} : Branch).appendAll fragments).fragments

/-- Code that ends with some fragment is left as it is below that fragment. -/
private theorem appendAll_onto (pairings : List (Nat × Nat)) (last : Fragment)
    (top below fragments : List Fragment) :
    (Branch.appendAll ⟨last :: top ++ below, pairings⟩ fragments).code =
      (Branch.appendAll ⟨last :: top, pairings⟩ fragments).code ++ below := by
  induction fragments generalizing last top with
  | nil => rfl
  | cons fragment fragments ih =>
    rw [Branch.appendAll_cons, Branch.appendAll_cons]
    by_cases hpieces : ∃ text before, fragment = .number text ∧ last = .number before
    · obtain ⟨text, before, rfl, rfl⟩ := hpieces
      exact ih (.number (before ++ text)) top
    · have hpush : ∀ code, Branch.append ⟨last :: code, pairings⟩ fragment =
          ⟨fragment :: last :: code, pairings⟩ := by
        intro code
        unfold Branch.append
        split
        · next text before rest hcode =>
          obtain ⟨rfl, rfl⟩ := List.cons.inj hcode
          exact absurd ⟨text, before, rfl, rfl⟩ hpieces
        · rfl
      rw [List.cons_append, hpush, hpush]
      exact ih fragment (last :: top)

/-- Fragments that are no pieces of numbers keep what is before and behind them apart. -/
theorem joined_append_cons {f : Fragment} (hf : ∀ text, f ≠ .number text)
    (before behind : List Fragment) :
    joined (before ++ f :: behind) = joined before ++ f :: joined behind := by
  have hpush : ∀ b : Branch, b.append f = ⟨f :: b.code, b.pairings⟩ := by
    intro b
    unfold Branch.append
    split
    · next text _ _ _ => exact absurd rfl (hf text)
    · rfl
  have hbehind : (Branch.appendAll ⟨[f], []⟩ behind).code =
      (Branch.appendAll {} behind).code ++ [f] := by
    cases behind with
    | nil => rfl
    | cons g behind =>
      have hnext : Branch.append ⟨[f], []⟩ g = ⟨[g] ++ [f], []⟩ := by
        unfold Branch.append
        split
        · next text before _ hcode =>
          obtain ⟨rfl, -⟩ := List.cons.inj hcode
          exact absurd rfl (hf before)
        · rfl
      have hfirst : Branch.append {} g = ⟨[g], []⟩ := by
        unfold Branch.append
        split
        · next hcode => cases hcode
        · rfl
      rw [Branch.appendAll_cons, Branch.appendAll_cons, hnext, hfirst]
      exact appendAll_onto [] g [] [f] behind
  have hall : (Branch.appendAll {} (before ++ f :: behind)).code =
      (Branch.appendAll {} behind).code ++ f :: (Branch.appendAll {} before).code := by
    rw [Branch.appendAll_append, Branch.appendAll_cons, hpush]
    have honto := appendAll_onto (Branch.appendAll {} before).pairings f []
      (Branch.appendAll {} before).code behind
    have hpairings : (Branch.appendAll ⟨[f], (Branch.appendAll {} before).pairings⟩ behind).code =
        (Branch.appendAll ⟨[f], []⟩ behind).code := by
      apply Branch.appendAll_code_congr
      rfl
    rw [List.cons_append, List.nil_append] at honto
    rw [honto, hpairings, hbehind, List.append_assoc]
    rfl
  simp only [joined, Branch.fragments, hall, List.reverse_append, List.reverse_cons,
    List.append_assoc, List.singleton_append]

theorem joined_cons {f : Fragment} (hf : ∀ text, f ≠ .number text) (behind : List Fragment) :
    joined (f :: behind) = f :: joined behind :=
  joined_append_cons hf [] behind

@[simp] theorem joined_nil : joined [] = [] := rfl

/-- The pieces of one number are joined to one fragment. -/
theorem joined_pieces {pieces : List String} (h : pieces ≠ []) :
    joined (pieces.map .number) = [.number (String.join pieces)] := by
  have hmore : ∀ (pieces : List String) (text : String),
      (Branch.appendAll ⟨[.number text], []⟩ (pieces.map .number)).code =
        [.number (pieces.foldl (· ++ ·) text)] := by
    intro pieces
    induction pieces with
    | nil => intro text; rfl
    | cons piece pieces ih => intro text; exact ih (text ++ piece)
  obtain ⟨piece, pieces, rfl⟩ := List.exists_cons_of_ne_nil h
  have hfirst : Branch.append {} (.number piece) = ⟨[.number piece], []⟩ := rfl
  rw [joined, List.map_cons, Branch.appendAll_cons, hfirst, Branch.fragments, hmore]
  simp [String.join]

/-- Joining changes the numbers only. -/
theorem filterMap_joined {β : Type} {g : Fragment → Option β} (hg : ∀ text, g (.number text) = none)
    (fragments : List Fragment) : (joined fragments).filterMap g = fragments.filterMap g := by
  have hall : ∀ (b : Branch) (fragments : List Fragment),
      (b.appendAll fragments).fragments.filterMap g =
        b.fragments.filterMap g ++ fragments.filterMap g := by
    intro b fragments
    induction fragments generalizing b with
    | nil => simp
    | cons f fragments ih =>
      have hstep : (b.append f).fragments.filterMap g =
          b.fragments.filterMap g ++ [f].filterMap g := by
        unfold Branch.append
        split
        · next text before code hcode => simp [Branch.fragments, hcode, hg]
        · simp [Branch.fragments]
      rw [Branch.appendAll_cons, ih, hstep, List.append_assoc, ← List.filterMap_append]
      rfl
  exact hall {} fragments

end Fragment

/-! ## Two-valued signs -/

/-- What code without externals is grown with. -/
inductive Instruction.IsPlain : Instruction → Prop
  | append (fragment : Fragment) : IsPlain (.append fragment)
  | sign : IsPlain (.choose [.operator .add, .operator .subtract])

/-- The code when sign `j` of those to come is a minus if `σ j` says so. -/
def select (σ : Nat → Bool) (j : Nat) : List Instruction → List Fragment
  | [] => []
  | .append fragment :: rest => fragment :: select σ j rest
  | _ :: rest => .operator (if σ j then .subtract else .add) :: select σ (j + 1) rest

def signCount : List Instruction → Nat
  | [] => 0
  | .choose _ :: rest => signCount rest + 1
  | _ :: rest => signCount rest

@[simp] theorem signCount_append (first second : List Instruction) :
    signCount (first ++ second) = signCount first + signCount second := by
  induction first with
  | nil => rw [List.nil_append, signCount, Nat.zero_add]
  | cons i rest ih =>
    rw [List.cons_append]
    cases i with
    | choose alternatives =>
      rw [signCount, signCount, ih]
      omega
    | _ => exact ih

theorem select_append {first : List Instruction} (h : ∀ i ∈ first, i.IsPlain) (σ : Nat → Bool)
    (j : Nat) (second : List Instruction) :
    select σ j (first ++ second) = select σ j first ++ select σ (j + signCount first) second := by
  induction first generalizing j with
  | nil => rfl
  | cons i rest ih =>
    have hrest : ∀ i ∈ rest, i.IsPlain := fun i hi => h i (List.mem_cons_of_mem _ hi)
    cases h i (List.mem_cons_self ..) with
    | append fragment => simp [select, ih hrest, signCount]
    | sign => simp [select, ih hrest, signCount, Nat.add_comm, Nat.add_left_comm]

/-- Only the signs met are asked for. -/
theorem select_congr {is : List Instruction} (his : ∀ i ∈ is, i.IsPlain) {σ τ : Nat → Bool}
    {i j : Nat} (h : ∀ n < signCount is, σ (i + n) = τ (j + n)) : select σ i is = select τ j is := by
  induction is generalizing i j with
  | nil => rfl
  | cons instruction is ih =>
    have hrest : ∀ i ∈ is, i.IsPlain := fun i hi => his i (List.mem_cons_of_mem _ hi)
    cases his instruction (List.mem_cons_self ..) with
    | append fragment => exact congrArg (fragment :: ·) (ih hrest h)
    | sign =>
      have hfirst : σ i = τ j := h 0 (Nat.succ_pos _)
      have hshift : ∀ n < signCount is, σ (i + 1 + n) = τ (j + 1 + n) := by
        intro n hn
        have hnext := h (n + 1) (Nat.succ_lt_succ hn)
        rwa [Nat.add_comm n 1, ← Nat.add_assoc, ← Nat.add_assoc] at hnext
      simp only [select, hfirst, ih hrest hshift]

/-- The signs are told by the lowest bits. -/
theorem select_mod {is : List Instruction} (his : ∀ i ∈ is, i.IsPlain) (k : Nat) :
    select k.testBit 0 is = select (k % 2 ^ signCount is).testBit 0 is := by
  apply select_congr his
  intro n hn
  simp [Nat.testBit_mod_two_pow, hn]

/-- Two branches for each sign; bit `j` of the number of a branch tells its sign `j`, and the bits
above tell what is behind. -/
theorem script?_append_plain {first : List Instruction} (h : ∀ i ∈ first, i.IsPlain)
    (pairings : List (Nat × Nat)) (second : List Instruction) (k : Nat) :
    script? pairings (first ++ second) k =
      (script? pairings second (k / 2 ^ signCount first)).map (select k.testBit 0 first ++ ·) := by
  induction first generalizing k with
  | nil => simp [signCount, select]
  | cons i rest ih =>
    have hrest : ∀ i ∈ rest, i.IsPlain := fun i hi => h i (List.mem_cons_of_mem _ hi)
    cases h i (List.mem_cons_self ..) with
    | append fragment =>
      have hcount : signCount (.append fragment :: rest) = signCount rest := rfl
      rw [List.cons_append, script?_append, ih hrest, hcount, Option.map_map]
      rfl
    | sign =>
      have hbits : select (k / 2).testBit 0 rest = select k.testBit 1 rest := by
        apply select_congr hrest
        intro n _
        rw [Nat.zero_add, Nat.add_comm, Nat.testBit_succ]
      have hdigit : ([Fragment.operator .add, .operator .subtract] : List Fragment)[k % 2]? =
          some (.operator (if k.testBit 0 then .subtract else .add)) := by
        rw [Nat.testBit_zero]
        rcases Nat.mod_two_eq_zero_or_one k with hk | hk <;> simp [hk]
      have hcount : signCount (.choose [.operator .add, .operator .subtract] :: rest) =
          signCount rest + 1 := rfl
      have htwo : [Fragment.operator .add, .operator .subtract].length = 2 := rfl
      rw [List.cons_append, script?_choose, htwo, hdigit, Option.bind_some, ih hrest, hbits, hcount,
        Option.map_map, Nat.pow_succ', Nat.div_div_eq_div_mul]
      rfl

theorem script?_plain {instructions : List Instruction} (h : ∀ i ∈ instructions, i.IsPlain)
    (pairings : List (Nat × Nat)) (k : Nat) :
    script? pairings instructions k =
      if k < 2 ^ signCount instructions then some (select k.testBit 0 instructions) else none := by
  have hscript := script?_append_plain h pairings [] k
  rw [List.append_nil, script?_nil] at hscript
  simp only [hscript, Nat.div_eq_zero_iff_lt (Nat.two_pow_pos _)]
  split
  · rw [Option.map_some, List.append_nil]
  · rfl

end Formulary
