import Formulary.Proofs.Operands

/-!
# Matched siblings

Among siblings whose parentheses and bars match, an operand is matched as well: it ends at the
lowest depth it comes to. And where every group is a single part, the separators that belong to a
function can be counted among the siblings.
-/

namespace Formulary

open Operand

namespace Node

/-- The bar that is open behind one more bar; a bar is known by the depth it stands at, and its
partner stands at the same depth. -/
def barBehind (depth : Nat) : Option Nat → Option (Option Nat)
  | none => some (some depth)
  | some opened => if opened = depth then some none else none

/-- The bar that is open behind the nodes, and the depth there. No parenthesis below `floor` is
closed, and between two bars none that was open before them. -/
def track (floor : Nat) : Option Nat → Nat → List Node → Option (Option Nat × Nat)
  | bar, depth, [] => some (bar, depth)
  | bar, depth, node :: rest =>
    if node.isOpen then track floor bar (depth + 1) rest
    else if node.isClose then
      if floor < depth ∧ bar.all (· < depth) then track floor bar (depth - 1) rest else none
    else if node.isBar then
      (barBehind depth bar).bind fun bar => track floor bar depth rest
    else track floor bar depth rest

/-- Every parenthesis and every bar has its partner. -/
def isMatched (nodes : List Node) : Bool := track 0 none 0 nodes == some (none, 0)

mutual

/-- In all lists that a node holds, limits apart, siblings are matched, and a group is neither empty
nor has separators of its own. -/
def isSealed : Node → Bool
  | literal _ | var _ | atom _ | named _ _ _ => true
  | power base exponent => base.isSealed && exponent.isSealed
  | angle base | prime base => base.isSealed
  | fraction numerator denominator =>
    isMatched numerator && eachSealed numerator && (isMatched denominator && eachSealed denominator)
  | root body => isMatched body && eachSealed body
  | group body =>
    isMatched body && eachSealed body && (!body.isEmpty && argumentCount.go 0 body == 0)

def eachSealed : List Node → Bool
  | [] => true
  | node :: rest => node.isSealed && eachSealed rest

end

theorem eachSealed_iff {nodes : List Node} :
    eachSealed nodes = true ↔ ∀ node ∈ nodes, node.isSealed = true := by
  induction nodes with
  | nil => simp [eachSealed]
  | cons node rest ih => rw [eachSealed, Bool.and_eq_true, ih, List.forall_mem_cons]

/-- Siblings that are matched and sealed. -/
structure Sealed (nodes : List Node) : Prop where
  matched : track 0 none 0 nodes = some (none, 0)
  each : ∀ node ∈ nodes, node.isSealed = true

theorem sealed_iff {nodes : List Node} :
    (isMatched nodes && eachSealed nodes) = true ↔ Sealed nodes := by
  rw [Bool.and_eq_true, isMatched, beq_iff_eq, eachSealed_iff]
  exact ⟨fun h => ⟨h.1, h.2⟩, fun h => ⟨h.matched, h.each⟩⟩

instance (nodes : List Node) : Decidable (Sealed nodes) := decidable_of_iff _ sealed_iff

theorem isSealed_power {base exponent : Node} (h : (power base exponent).isSealed = true) :
    base.isSealed = true ∧ exponent.isSealed = true :=
  Bool.and_eq_true_iff.1 h

theorem isSealed_fraction {numerator denominator : List Node}
    (h : (fraction numerator denominator).isSealed = true) :
    Sealed numerator ∧ Sealed denominator := by
  obtain ⟨hnumerator, hdenominator⟩ := Bool.and_eq_true_iff.1 h
  exact ⟨sealed_iff.1 hnumerator, sealed_iff.1 hdenominator⟩

theorem isSealed_root {body : List Node} (h : (root body).isSealed = true) : Sealed body :=
  sealed_iff.1 h

theorem isSealed_group {body : List Node} (h : (group body).isSealed = true) :
    Sealed body ∧ body ≠ [] ∧ argumentCount.go 0 body = 0 := by
  obtain ⟨hbody, hpart⟩ := Bool.and_eq_true_iff.1 h
  obtain ⟨hne, hcount⟩ := Bool.and_eq_true_iff.1 hpart
  exact ⟨sealed_iff.1 hbody, by simpa using hne, beq_iff_eq.1 hcount⟩

/-- A node that neither is a parenthesis nor a bar. -/
def IsPlain (node : Node) : Prop :=
  node.isOpen = false ∧ node.isClose = false ∧ node.isBar = false

variable {floor depth : Nat} {bar bar' : Option Nat} {node : Node} {nodes rest : List Node}

theorem isBar_of_mark {mark : Mark} (h : node.mark? = some mark) : node.isBar = false := by
  cases node with
  | atom symbol => rfl
  | _ => cases h

theorem track_open (h : node.isOpen = true) :
    track floor bar depth (node :: rest) = track floor bar (depth + 1) rest :=
  if_pos h

theorem track_close (h : node.isClose = true) :
    track floor bar depth (node :: rest) =
      if floor < depth ∧ bar.all (· < depth) then track floor bar (depth - 1) rest else none := by
  have hopen : ¬node.isOpen = true := by
    rw [isOpen_of_isClose h]
    exact Bool.false_ne_true
  exact (if_neg hopen).trans (if_pos h)

theorem track_plain (h : node.IsPlain) :
    track floor bar depth (node :: rest) = track floor bar depth rest := by
  rw [track, h.1, h.2.1, h.2.2]
  rfl

theorem track_bar {anchor : Node} (h : anchor.isBar = true) :
    track floor bar depth (anchor :: rest) =
      (barBehind depth bar).bind fun bar => track floor bar depth rest := by
  rw [eq_bar h]
  rfl

/-- Where a closing parenthesis stands, one is open above the floor and above the open bar. -/
theorem track_close_eq_some {result : Option Nat × Nat} (h : node.isClose = true)
    (htrack : track floor bar depth (node :: rest) = some result) :
    floor < depth ∧ bar.all (· < depth) = true ∧
      track floor bar (depth - 1) rest = some result := by
  rw [track_close h] at htrack
  split at htrack
  · next hboth => exact ⟨hboth.1, hboth.2, htrack⟩
  · cases htrack

/-- A node is a parenthesis, a bar, or plain. -/
theorem cases_node (node : Node) :
    node.isOpen = true ∨ node.isClose = true ∨ node.isBar = true ∨ node.IsPlain := by
  unfold IsPlain
  cases node.isOpen <;> cases node.isClose <;> cases node.isBar <;> simp

/-- Nothing changes when all depths are raised. -/
theorem track_add (raised : Nat) :
    track (floor + raised) (bar.map (· + raised)) (depth + raised) nodes =
      (track floor bar depth nodes).map fun (bar, depth) =>
        (bar.map (· + raised), depth + raised) := by
  induction nodes generalizing bar depth with
  | nil => rfl
  | cons node rest ih =>
    rcases cases_node node with hopen | hclose | hbar | hplain
    · rw [track_open hopen, track_open hopen, ← ih, Nat.add_right_comm]
    · have hall : (bar.map (· + raised)).all (· < depth + raised) = bar.all (· < depth) := by
        cases bar <;> simp
      simp only [track_close hclose, hall, Nat.add_lt_add_iff_right]
      split
      · next hboth => rw [← ih, Nat.sub_add_comm (Nat.zero_lt_of_lt hboth.1)]
      · rfl
    · have hbehind : barBehind (depth + raised) (bar.map (· + raised)) =
          (barBehind depth bar).map (·.map (· + raised)) := by
        cases bar with
        | none => rfl
        | some opened =>
          simp only [barBehind, Option.map_some, Nat.add_right_cancel_iff]
          split <;> rfl
      rw [track_bar hbar, track_bar hbar, hbehind]
      cases barBehind depth bar with
      | none => rfl
      | some bar => exact ih
    · rw [track_plain hplain, track_plain hplain, ih]

/-- Siblings that are matched at some depth are matched. -/
theorem track_relative {raised : Nat} (h : track raised none raised nodes = some (bar, raised))
    (hbars : bar.all (· < raised) = true) : track 0 none 0 nodes = some (none, 0) ∧ bar = none := by
  have hraised : track (0 + raised) none (0 + raised) nodes =
      (track 0 none 0 nodes).map fun (bar, depth) => (bar.map (· + raised), depth + raised) :=
    @track_add 0 0 none nodes raised
  rw [Nat.zero_add, h] at hraised
  obtain ⟨⟨inside, depth⟩, htrack, hboth⟩ := Option.map_eq_some_iff.1 hraised.symm
  obtain ⟨rfl, hdepth⟩ := Prod.mk.inj hboth
  obtain rfl : depth = 0 := by omega
  cases inside with
  | none => exact ⟨htrack, rfl⟩
  | some opened =>
    have hlt : opened + raised < raised := of_decide_eq_true hbars
    omega

end Node

namespace Operand

open Node

variable {floor lowest depth inner : Nat} {bar bar' : Option Nat} {nodes rest : List Node}

/-! ## Separators -/

theorem go_cons (depth : Nat) (node : Node) (rest : List Node) :
    argumentCount.go depth (node :: rest) =
      (if depth = 0 ∧ node.isSeparator = true then 1 else 0) +
        argumentCount.go (depthAfter node depth) rest := by
  rw [argumentCount.go, Nat.add_comm]
  by_cases h : depth = 0 ∧ node.isSeparator = true
  · simp [h]
  · simp [h]

theorem track_depthAfter {node : Node} {depth : Nat} {result : Option Nat × Nat}
    (h : track floor bar depth (node :: rest) = some result) :
    ∃ bar₁, track floor bar₁ (depthAfter node depth) rest = some result ∧
      (floor ≤ depth → floor ≤ depthAfter node depth) := by
  rcases cases_node node with hopen | hclose | hbar | hplain
  · rw [track_open hopen] at h
    rw [depthAfter_open hopen]
    exact ⟨bar, h, fun hle => Nat.le_succ_of_le hle⟩
  · obtain ⟨hlt, -, hrest⟩ := track_close_eq_some hclose h
    rw [depthAfter_close hclose]
    exact ⟨bar, hrest, fun _ => Nat.le_sub_one_of_lt hlt⟩
  · rw [track_bar hbar] at h
    rw [depthAfter_bar hbar]
    obtain ⟨bar₁, -, h⟩ := Option.bind_eq_some_iff.1 h
    exact ⟨bar₁, h, id⟩
  · rw [track_plain hplain] at h
    rw [depthAfter_other hplain.1 hplain.2.1]
    exact ⟨bar, h, id⟩

/-- Separators are counted part by part. -/
theorem go_append {depth depth' : Nat} (h : track floor bar depth nodes = some (bar', depth'))
    (rest : List Node) :
    argumentCount.go depth (nodes ++ rest) =
      argumentCount.go depth nodes + argumentCount.go depth' rest := by
  induction nodes generalizing bar depth with
  | nil =>
    obtain ⟨-, rfl⟩ : bar = bar' ∧ depth = depth' := by simpa [track] using h
    rw [List.nil_append, argumentCount.go, Nat.zero_add]
  | cons node nodes ih =>
    obtain ⟨bar₁, hrest, -⟩ := track_depthAfter h
    rw [List.cons_append, go_cons, go_cons, ih hrest, Nat.add_assoc]

/-- Separators in parentheses are not counted. -/
theorem go_eq_zero {depth : Nat} {result : Option Nat × Nat} (hfloor : 0 < floor)
    (hdepth : floor ≤ depth) (h : track floor bar depth nodes = some result) :
    argumentCount.go depth nodes = 0 := by
  induction nodes generalizing bar depth with
  | nil => rfl
  | cons node nodes ih =>
    obtain ⟨bar₁, hrest, hle⟩ := track_depthAfter h
    rw [go_cons, ih (hle hdepth) hrest, if_neg (by omega)]

/-- A node that is no parenthesis and no separator counts for nothing. -/
theorem go_plain {node : Node} (h : node.IsPlain) (hseparator : node.isSeparator = false)
    (depth : Nat) (rest : List Node) :
    argumentCount.go depth (node :: rest) = argumentCount.go depth rest := by
  rw [go_cons, depthAfter_other h.1 h.2.1, hseparator]
  simp

theorem go_parenthesis {node : Node} {mark : Mark} (h : node.mark? = some mark)
    (hmark : mark ≠ .separator) (depth : Nat) (rest : List Node) :
    argumentCount.go depth (node :: rest) = argumentCount.go (depthAfter node depth) rest := by
  have hseparator : node.isSeparator = false := by
    rw [Node.isSeparator, h]
    simpa using hmark
  rw [go_cons, hseparator]
  simp

/-! ## Operands -/

/-- Where `inner` parentheses of an operand are open, above the lowest depth it has come to, a node
leads to such a place again. -/
theorem track_step {node : Node} {result : Option Nat × Nat} (hfloor : floor ≤ lowest)
    (h : track floor bar (lowest + inner) (node :: rest) = some result) :
    ∃ bar₁ lowest₁, floor ≤ lowest₁ ∧ lowest₁ ≤ lowest ∧ (0 < inner → lowest₁ = lowest) ∧
      track floor bar₁ (lowest₁ + depthAfter node inner) rest = some result ∧
      ∀ last run, last ≤ lowest₁ + depthAfter node inner →
        track last bar (lowest + inner) (node :: run) =
          track last bar₁ (lowest₁ + depthAfter node inner) run := by
  rcases cases_node node with hopen | hclose | hbar | hplain
  · rw [track_open hopen] at h
    rw [depthAfter_open hopen]
    exact ⟨bar, lowest, hfloor, Nat.le_refl _, fun _ => rfl, h, fun last run _ => track_open hopen⟩
  · obtain ⟨habove, hbars, hrest⟩ := track_close_eq_some hclose h
    rw [depthAfter_close hclose]
    rcases Nat.eq_zero_or_pos inner with rfl | hinner
    · refine ⟨bar, lowest - 1, by omega, Nat.sub_le .., fun h => absurd h (Nat.lt_irrefl 0),
        hrest, ?_⟩
      intro last run hlast
      rw [track_close hclose, if_pos ⟨by omega, hbars⟩]
      rfl
    · rw [Nat.add_sub_assoc hinner] at hrest
      refine ⟨bar, lowest, hfloor, Nat.le_refl _, fun _ => rfl, hrest, ?_⟩
      intro last run hlast
      rw [track_close hclose, if_pos ⟨by omega, hbars⟩, Nat.add_sub_assoc hinner]
  · rw [track_bar hbar] at h
    obtain ⟨bar₁, hbehind, hrest⟩ := Option.bind_eq_some_iff.1 h
    rw [depthAfter_bar hbar]
    refine ⟨bar₁, lowest, hfloor, Nat.le_refl _, fun _ => rfl, hrest, fun last run _ => ?_⟩
    rw [track_bar hbar, hbehind, Option.bind_some]
  · rw [track_plain hplain] at h
    rw [depthAfter_other hplain.1 hplain.2.1]
    exact ⟨bar, lowest, hfloor, Nat.le_refl _, fun _ => rfl, h,
      fun last run _ => track_plain hplain⟩

/-- A run ends at the lowest depth it comes to. -/
theorem track_scan (marked parenthesized leading : Bool) (inner : Nat) (hfloor : floor ≤ lowest)
    (h : track floor bar (lowest + inner) nodes = some (bar', floor)) :
    ∃ bar₁ last, floor ≤ last ∧ last ≤ lowest ∧
      track last bar (lowest + inner) (scan marked parenthesized leading inner nodes).1 =
        some (bar₁, last) ∧
      track floor bar₁ last
        (nodes.drop (scan marked parenthesized leading inner nodes).1.length) =
          some (bar', floor) := by
  -- `lowest` is the lowest depth so far. The scan counts what is open above it, and starts anew
  -- where a parenthesis is closed that was open before the run.
  fun_induction scan generalizing lowest bar with
  | case1 leading inner =>
    obtain ⟨rfl, hdepth⟩ : bar = bar' ∧ lowest + inner = floor := by simpa [track] using h
    obtain ⟨rfl, rfl⟩ : lowest = floor ∧ inner = 0 := by omega
    exact ⟨bar, lowest, Nat.le_refl _, Nat.le_refl _, rfl, h⟩
  | case2 leading inner node rest v hmarked =>
    obtain rfl : inner = 0 := by
      split at hmarked
      · next hboth => simpa using (Bool.and_eq_true_iff.1 hboth).2
      · cases hmarked
    exact ⟨bar, lowest, hfloor, Nat.le_refl _, rfl, h⟩
  | case3 leading inner node rest _ hstop =>
    obtain rfl : inner = 0 := by
      simpa using (Bool.and_eq_true_iff.1 (Bool.and_eq_true_iff.1 hstop).1).1
    exact ⟨bar, lowest, hfloor, Nat.le_refl _, rfl, h⟩
  | case4 leading inner node rest _ _ run v hrun ih =>
    obtain ⟨bar₁, lowest₁, hfloor₁, hlowest, -, hrest, hback⟩ := track_step hfloor h
    obtain ⟨bar₂, last, hlast, hle, hend, hbehind⟩ := ih hfloor₁ hrest
    rw [hrun] at hend hbehind
    have hrun := hback last run (Nat.le_trans hle (Nat.le_add_right ..))
    exact ⟨bar₂, last, hlast, Nat.le_trans hle hlowest, hrun.trans hend, hbehind⟩

/-- A run in parentheses ends where its first one is closed. -/
theorem track_scan_parenthesized (hfloor : floor ≤ lowest) (hinner : 0 < inner)
    (h : track floor bar (lowest + inner) nodes = some (bar', floor)) :
    ∃ body closing bar₁, (scan false true false inner nodes).1 = body ++ [closing] ∧
      closing.isClose = true ∧
      track (lowest + 1) bar (lowest + inner) body = some (bar₁, lowest + 1) ∧
      bar₁.all (· < lowest + 1) = true ∧
      track floor bar₁ lowest
        (nodes.drop (scan false true false inner nodes).1.length) = some (bar', floor) := by
  induction nodes generalizing bar inner with
  | nil =>
    obtain ⟨-, hdepth⟩ : bar = bar' ∧ lowest + inner = floor := by simpa [track] using h
    omega
  | cons node rest ih =>
    have hscan : (scan false true false inner (node :: rest)).1 =
        node :: (scan false true false (depthAfter node inner) rest).1 := by
      have hdeep : (inner == 0) = false := by simpa using Nat.ne_of_gt hinner
      rw [scan]
      simp [hdeep]
    rw [hscan]
    rcases Nat.eq_zero_or_pos (depthAfter node inner) with hlast | hmore
    · have hclose : node.isClose = true := by
        rcases cases_node node with hopen | hclose | hbar | hplain
        · rw [depthAfter_open hopen] at hlast
          omega
        · exact hclose
        · rw [depthAfter_bar hbar] at hlast
          omega
        · rw [depthAfter_other hplain.1 hplain.2.1] at hlast
          omega
      obtain rfl : inner = 1 := by
        rw [depthAfter_close hclose] at hlast
        omega
      have hstop : (scan false true false 0 rest).1 = [] := by
        cases rest <;> simp [scan]
      obtain ⟨-, hbars, hrest⟩ := track_close_eq_some hclose h
      rw [hlast, hstop]
      exact ⟨[], node, bar, rfl, hclose, rfl, hbars, hrest⟩
    · obtain ⟨bar₁, _, -, -, hsame, hrest, hback⟩ := track_step hfloor h
      obtain rfl := hsame hinner
      obtain ⟨body, closing, bar₂, hrun, hclosing, hbody, hbars, hbehind⟩ := ih hmore hrest
      refine ⟨node :: body, closing, bar₂, by rw [hrun]; rfl, hclosing, ?_, hbars, hbehind⟩
      rw [hback _ body (by omega), hbody]

/-- The nodes between two bars come back to the depth of the first, and do not go below it. -/
theorem track_takeWhile (hfloor : floor ≤ lowest) (hdepth : lowest ≤ inner)
    (hbar : nodes.any Node.isBar = true)
    (h : track floor (some lowest) inner nodes = some (bar', floor)) :
    track lowest none inner (nodes.takeWhile (!·.isBar)) = some (none, lowest) ∧
      track floor none lowest (nodes.drop ((nodes.takeWhile (!·.isBar)).length + 1)) =
        some (bar', floor) := by
  induction nodes generalizing inner with
  | nil => cases hbar
  | cons node rest ih =>
    have hmore : ∀ depth, node.isBar = false → lowest ≤ depth →
        track floor (some lowest) depth rest = some (bar', floor) →
        (∀ run, track lowest none inner (node :: run) = track lowest none depth run) →
        track lowest none inner ((node :: rest).takeWhile (!·.isBar)) = some (none, lowest) ∧
          track floor none lowest
            ((node :: rest).drop (((node :: rest).takeWhile (!·.isBar)).length + 1)) =
              some (bar', floor) := by
      intro depth hnode hdepth hrest hback
      rw [List.any_cons, hnode, Bool.false_or] at hbar
      rw [List.takeWhile_cons_of_pos (by simp [hnode]), hback]
      exact ih hdepth hbar hrest
    rcases cases_node node with hopen | hclose | hnode | hplain
    · rw [track_open hopen] at h
      exact hmore (inner + 1) (isBar_of_mark (beq_iff_eq.1 hopen)) (by omega) h
        fun run => track_open hopen
    · -- The first bar is still open, so what is closed here has been opened behind it.
      obtain ⟨-, hbars, hrest⟩ := track_close_eq_some hclose h
      have habove : lowest < inner := by simpa using hbars
      refine hmore (inner - 1) (isBar_of_mark (beq_iff_eq.1 hclose)) (by omega) hrest
        fun run => ?_
      rw [track_close hclose, if_pos ⟨habove, rfl⟩]
    · rw [track_bar hnode] at h
      obtain ⟨bar₁, hbehind, hrest⟩ := Option.bind_eq_some_iff.1 h
      rw [barBehind] at hbehind
      split at hbehind
      · next hsame =>
        subst hsame
        obtain rfl : none = bar₁ := Option.some.inj hbehind
        rw [List.takeWhile_cons_of_neg (by simp [hnode])]
        exact ⟨rfl, hrest⟩
      · cases hbehind
    · rw [track_plain hplain] at h
      exact hmore inner hplain.2.2 hdepth h fun run => track_plain hplain

/-! ## What an anchor takes -/

/-- What ends an operand changes neither depth nor count. -/
private theorem track_marker (o : Operand) (floor depth : Nat) (bar : Option Nat)
    (behind : List Node) :
    track floor bar depth (o.marker ++ behind) = track floor bar depth behind ∧
      argumentCount.go depth (o.marker ++ behind) = argumentCount.go depth behind := by
  have hvar : ∀ name, IsPlain (.var name) := fun name => ⟨rfl, rfl, rfl⟩
  unfold marker
  split
  · simp only [List.cons_append, List.nil_append, track_plain (hvar _), go_plain (hvar _) rfl,
      and_self]
  · exact ⟨rfl, rfl⟩

private theorem drop_nodes (marked : Bool) (anchor : Node) (rest : List Node) :
    rest.drop (following marked (anchor :: rest)).nodes.length =
      (following marked (anchor :: rest)).marker ++
        rest.drop (following marked (anchor :: rest)).consumed := by
  have hrest := split_following marked anchor rest
  rw [List.append_assoc] at hrest
  exact (congrArg (List.drop _) hrest).trans List.drop_left

variable {anchor : Node} {depth : Nat}

/-- The operand behind an anchor is matched, as is what stands behind it. -/
theorem track_following (marked : Bool) (anchor : Node) (hfloor : floor ≤ depth)
    (h : track floor none depth rest = some (bar', floor)) :
    ∃ bar₁ last, floor ≤ last ∧ last ≤ depth ∧
      track last none depth (following marked (anchor :: rest)).nodes = some (bar₁, last) ∧
      track floor bar₁ last (rest.drop (following marked (anchor :: rest)).consumed) =
        some (bar', floor) ∧
      argumentCount.go depth rest =
        argumentCount.go depth (following marked (anchor :: rest)).nodes +
          argumentCount.go last (rest.drop (following marked (anchor :: rest)).consumed) := by
  obtain ⟨bar₁, last, hlast, hle, hrun, hbehind⟩ : ∃ bar₁ last, floor ≤ last ∧ last ≤ depth ∧
      track last none depth (following marked (anchor :: rest)).nodes = some (bar₁, last) ∧
      track floor bar₁ last (rest.drop (following marked (anchor :: rest)).nodes.length) =
        some (bar', floor) :=
    track_scan marked (rest.head?.any Node.isOpen) true 0 hfloor h
  have hrest : (following marked (anchor :: rest)).nodes ++
      rest.drop (following marked (anchor :: rest)).nodes.length = rest :=
    List.prefix_iff_eq_append.1 (following_isPrefix marked (anchor :: rest))
  have hcount := go_append hrun (rest.drop (following marked (anchor :: rest)).nodes.length)
  rw [hrest] at hcount
  rw [drop_nodes] at hbehind hcount
  rw [(track_marker _ _ _ _ _).1] at hbehind
  rw [(track_marker _ floor _ none _).2] at hcount
  exact ⟨bar₁, last, hlast, hle, hrun, hbehind, hcount⟩

/-- Arguments in parentheses are matched, as is what stands behind them. -/
theorem track_inner (hfloor : floor ≤ depth)
    (hparens : (following false (anchor :: rest)).isParenthesized = true)
    (h : track floor none depth rest = some (bar', floor)) :
    track 0 none 0 (following false (anchor :: rest)).inner = some (none, 0) ∧
      track floor none depth (rest.drop (following false (anchor :: rest)).consumed) =
        some (bar', floor) ∧
      argumentCount.go depth rest =
        argumentCount.go depth (rest.drop (following false (anchor :: rest)).consumed) := by
  obtain ⟨opening, closing, hopening, -, hnodes⟩ := nodes_of_isParenthesized hparens
  obtain ⟨rest, rfl⟩ : ∃ rest', rest = opening :: rest' := by
    obtain ⟨behind, hrest⟩ := following_isPrefix false (anchor :: rest)
    rw [hnodes] at hrest
    exact ⟨_, hrest.symm⟩
  have hrun : (following false (anchor :: opening :: rest)).nodes =
      opening :: (scan false true false 1 rest).1 := by
    simp [following, scan, hopening, depthAfter]
  have hdrop := drop_nodes false anchor (opening :: rest)
  rw [track_open hopening] at h
  obtain ⟨body, last, bar₁, hscan, hclose, hbody, hbars, hbehind⟩ :=
    track_scan_parenthesized hfloor Nat.one_pos h
  have hinner : (following false (anchor :: opening :: rest)).inner = body := by
    rw [hrun, hscan] at hnodes
    exact (List.append_inj_left' (List.cons.inj hnodes).2 rfl).symm
  obtain ⟨hmatched, rfl⟩ := track_relative hbody hbars
  rw [hrun, List.length_cons, List.drop_succ_cons] at hdrop
  rw [hdrop, (track_marker _ _ _ _ _).1] at hbehind
  refine ⟨hinner ▸ hmatched, hbehind, ?_⟩
  have hrest : rest = body ++ last :: ((following false (anchor :: opening :: rest)).marker ++
      (opening :: rest).drop (following false (anchor :: opening :: rest)).consumed) := by
    have hprefix := List.prefix_iff_eq_append.1 (scan_isPrefix false true false 1 rest)
    rw [hdrop, hscan] at hprefix
    rw [List.append_cons]
    exact hprefix.symm
  rw [go_parenthesis (beq_iff_eq.1 hopening) (by decide), depthAfter_open hopening]
  refine (congrArg (argumentCount.go _) hrest).trans ?_
  rw [go_append hbody, go_eq_zero (Nat.succ_pos _) (Nat.le_refl _) hbody,
    go_parenthesis (beq_iff_eq.1 hclose) (by decide), depthAfter_close hclose, Nat.zero_add,
    (track_marker _ floor _ none _).2]
  rfl

/-- What stands between two bars is matched, as is what stands behind them. -/
theorem track_absolute (hfloor : floor ≤ depth)
    (hclosed : isClosed (.literal Node.bar :: rest) = true)
    (h : track floor none depth (.literal Node.bar :: rest) = some (bar', floor)) :
    track depth none depth (absolute (.literal Node.bar :: rest)).nodes = some (none, depth) ∧
      track floor none depth (rest.drop (absolute (.literal Node.bar :: rest)).consumed) =
        some (bar', floor) ∧
      argumentCount.go depth rest =
        argumentCount.go depth (absolute (.literal Node.bar :: rest)).nodes +
          argumentCount.go depth
            (rest.drop (absolute (.literal Node.bar :: rest)).consumed) := by
  rw [track_bar rfl, barBehind, Option.bind_some] at h
  obtain ⟨hinside, hbehind⟩ := track_takeWhile hfloor (Nat.le_refl _) hclosed h
  refine ⟨hinside, hbehind, ?_⟩
  have hrest := split_absolute hclosed
  calc argumentCount.go depth rest
      = argumentCount.go depth ((absolute (.literal Node.bar :: rest)).nodes ++
          Node.literal Node.bar ::
            rest.drop (absolute (.literal Node.bar :: rest)).consumed) := by rw [← hrest]
    _ = argumentCount.go depth (absolute (.literal Node.bar :: rest)).nodes +
          argumentCount.go depth (rest.drop (absolute (.literal Node.bar :: rest)).consumed) := by
        have hinside : track depth none depth (absolute (.literal Node.bar :: rest)).nodes =
            some (none, depth) := hinside
        rw [go_append hinside, go_cons, depthAfter_bar rfl]
        simp [Node.isSeparator, Node.mark?]

end Operand

end Formulary
