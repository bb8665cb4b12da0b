import Formulary.Node.Signature

/-!
# What may stand left of the equality

A left side is one name, or a name with a list of names in parentheses. These are read, with the
names in the order they are written, and nothing else is.
-/

namespace Formulary.Binding

/-- The nodes are these names, with one separator between neighbours. -/
inductive Separated : List String → List Node → Prop
  | nil : Separated [] []
  | single (name : String) : Separated [name] [.var name]
  | cons {name second : String} {names : List String} {separator : Node} {nodes : List Node} :
      separator.isSeparator = true → Separated (second :: names) nodes →
      Separated (name :: second :: names) (.var name :: separator :: nodes)

/-- The left sides and what they bind. -/
inductive IsWritten : List Node → Binding → Prop
  | plain (name : String) : IsWritten [.var name] ⟨name, .variable, []⟩
  | parameterized {name : String} {parameters : List String} {opening closing : Node}
      {inner : List Node} :
      opening.isOpen = true → closing.isClose = true → Separated parameters inner →
      parameters.Nodup →
      IsWritten (.var name :: opening :: (inner ++ [closing])) ⟨name, .function, parameters⟩

/-- Different names in parentheses and then `p`, which is one of them, whatever comes next. -/
inductive Repeats : List Node → String → Prop
  | intro {name p : String} {names : List String} {opening closing : Node}
      {part inner : List Node} :
      opening.isOpen = true → closing.isClose = true → part <+: inner →
      Separated (names ++ [p]) part → names.Nodup → p ∈ names →
      Repeats (.var name :: opening :: (inner ++ [closing])) p

variable {declared parameters names : List String} {name p : String} {separator : Node}
  {nodes part rest : List Node}

/-! ## Parameters -/

section Map

variable {ε α β : Type} {f : α → β} {x : Except ε α}

theorem map_eq_ok_iff {b : β} : x.map f = .ok b ↔ ∃ a, x = .ok a ∧ f a = b := by
  cases x <;> simp [Except.map]

theorem map_eq_error_iff {e : ε} : x.map f = .error e ↔ x = .error e := by
  cases x <;> simp [Except.map]

end Map

theorem Separated.more (h : Separated names nodes) (hne : names ≠ [])
    (hseparator : separator.isSeparator = true) (name : String) :
    Separated (name :: names) (.var name :: separator :: nodes) := by
  cases names with
  | nil => exact absurd rfl hne
  | cons second names => exact .cons hseparator h

theorem readParameters_again (h : name ∈ declared) (rest : List Node) :
    readParameters declared (.var name :: rest) = .error (.declaredTwice name) := by
  cases rest <;> exact if_pos (List.contains_iff_mem.2 h)

theorem readParameters_last (h : name ∉ declared) :
    readParameters declared [.var name] = .ok [name] :=
  if_neg (mt List.contains_iff_mem.1 h)

theorem readParameters_more (h : name ∉ declared) (hseparator : separator.isSeparator = true)
    (rest : List Node) :
    readParameters declared (.var name :: separator :: rest) =
      (readParameters (name :: declared) rest).map (name :: ·) :=
  (if_neg (mt List.contains_iff_mem.1 h)).trans (if_pos hseparator)

/-- A name is new, and so are those behind it. -/
theorem new_cons_iff :
    ((name :: names).Nodup ∧ ∀ q ∈ name :: names, q ∉ declared) ↔
      name ∉ declared ∧ names.Nodup ∧ ∀ q ∈ names, q ∉ name :: declared := by
  rw [List.nodup_cons, List.forall_mem_cons]
  simp only [List.mem_cons, not_or]
  constructor
  · rintro ⟨⟨hfirst, hnodup⟩, hname, hnew⟩
    exact ⟨hname, hnodup, fun q hq => ⟨fun heq => hfirst (heq ▸ hq), hnew q hq⟩⟩
  · rintro ⟨hname, hnodup, hnew⟩
    exact ⟨⟨fun hmem => (hnew name hmem).1 rfl, hnodup⟩, hname, fun q hq => (hnew q hq).2⟩

/-- Names are read where they are separated, and where none of them is declared twice. -/
theorem readParameters_eq_ok_iff :
    readParameters declared nodes = .ok parameters ↔
      parameters ≠ [] ∧ Separated parameters nodes ∧ parameters.Nodup ∧
        ∀ q ∈ parameters, q ∉ declared := by
  constructor
  · intro h
    fun_induction readParameters generalizing parameters with
    | case1 => cases h
    | case2 declared parameter hnew =>
      obtain rfl : [parameter] = parameters := Except.ok.inj h
      exact ⟨List.cons_ne_nil _ _, .single parameter, by simp,
        List.forall_mem_singleton.2 (by simpa using hnew)⟩
    | case3 declared parameter hnew separator rest hseparator ih =>
      obtain ⟨more, hmore, rfl⟩ := map_eq_ok_iff.1 h
      obtain ⟨hne, hseparated, hdifferent⟩ := ih hmore
      exact ⟨List.cons_ne_nil _ _, hseparated.more hne hseparator parameter,
        new_cons_iff.2 ⟨by simpa using hnew, hdifferent⟩⟩
    | case4 => cases h
    | case5 => cases h
  · rintro ⟨hne, hseparated, hdifferent⟩
    induction hseparated generalizing declared with
    | nil => exact absurd rfl hne
    | single name => exact readParameters_last (new_cons_iff.1 hdifferent).1
    | @cons name second names separator nodes hseparator _ ih =>
      obtain ⟨hname, hmore⟩ := new_cons_iff.1 hdifferent
      rw [readParameters_more hname hseparator, ih (List.cons_ne_nil _ _) hmore]
      rfl

/-- The first name that is there again is complained about, whatever follows it. -/
theorem readParameters_eq_declaredTwice_iff :
    readParameters declared nodes = .error (.declaredTwice p) ↔
      ∃ names part, part <+: nodes ∧ Separated (names ++ [p]) part ∧
        (names.Nodup ∧ ∀ q ∈ names, q ∉ declared) ∧ (p ∈ names ∨ p ∈ declared) := by
  constructor
  · intro h
    fun_induction readParameters with
    | case1 declared parameter rest htwice =>
      obtain rfl : parameter = p := by simpa using h
      exact ⟨[], [.var parameter], ⟨rest, rfl⟩, .single parameter,
        ⟨List.nodup_nil, List.forall_mem_nil _⟩, .inr (by simpa using htwice)⟩
    | case2 => cases h
    | case3 declared parameter hnew separator rest hseparator ih =>
      obtain ⟨names, part, hpart, hseparated, hdifferent, hp⟩ := ih (map_eq_error_iff.1 h)
      refine ⟨parameter :: names, .var parameter :: separator :: part, ?_,
        hseparated.more (by simp) hseparator parameter,
        new_cons_iff.2 ⟨by simpa using hnew, hdifferent⟩, ?_⟩
      · exact List.cons_prefix_cons.2 ⟨rfl, List.cons_prefix_cons.2 ⟨rfl, hpart⟩⟩
      · rw [List.mem_cons] at hp ⊢
        rcases hp with hp | heq | hp
        · exact .inl (.inr hp)
        · exact .inl (.inl heq)
        · exact .inr hp
    | case4 => cases h
    | case5 => cases h
  · rintro ⟨names, part, ⟨behind, rfl⟩, hseparated, hdifferent, hp⟩
    induction names generalizing declared part with
    | nil =>
      cases hseparated with
      | single => exact readParameters_again (by simpa using hp) behind
    | cons name names ih =>
      obtain ⟨hname, hmore⟩ := new_cons_iff.1 hdifferent
      generalize hall : name :: names ++ [p] = all at hseparated
      cases hseparated with
      | nil => cases hall
      | single => simp at hall
      | cons hseparator hrest =>
        obtain ⟨rfl, hsame⟩ := List.cons.inj hall
        rw [← hsame] at hrest
        have hread := ih _ hrest hmore (by
          rw [List.mem_cons] at hp ⊢
          rcases hp with (heq | hp) | hp
          · exact .inr (.inl heq)
          · exact .inl hp
          · exact .inr (.inr hp))
        rw [List.cons_append, List.cons_append, readParameters_more hname hseparator, hread]
        rfl

/-- Nothing else is wrong with names. -/
theorem readParameters_eq_error {flaw : Flaw} (h : readParameters declared nodes = .error flaw) :
    flaw = .leftSide ∨ ∃ p, flaw = .declaredTwice p := by
  fun_induction readParameters with
  | case1 declared parameter rest htwice => exact .inr ⟨parameter, by simpa using h.symm⟩
  | case2 => cases h
  | case3 declared parameter hnew separator rest hseparator ih => exact ih (map_eq_error_iff.1 h)
  | case4 => exact .inl (by simpa using h.symm)
  | case5 => exact .inl (by simpa using h.symm)

/-! ## The whole left side -/

variable {opening closing : Node} {inner : List Node} {b : Binding}

/-- What stands between the parentheses, read. -/
def readInner (inner : List Node) : Except Flaw (List String) :=
  if inner.isEmpty then .ok [] else readParameters [] inner

theorem readInner_eq_ok_iff :
    readInner inner = .ok parameters ↔ Separated parameters inner ∧ parameters.Nodup := by
  cases inner with
  | nil =>
    constructor
    · intro h
      obtain rfl : [] = parameters := Except.ok.inj h
      exact ⟨.nil, List.nodup_nil⟩
    · rintro ⟨hseparated, -⟩
      cases hseparated
      rfl
  | cons first inner =>
    have hread : readInner (first :: inner) = readParameters [] (first :: inner) := rfl
    rw [hread, readParameters_eq_ok_iff]
    constructor
    · rintro ⟨-, hseparated, hnodup, -⟩
      exact ⟨hseparated, hnodup⟩
    · rintro ⟨hseparated, hnodup⟩
      refine ⟨?_, hseparated, hnodup, fun _ _ => List.not_mem_nil⟩
      rintro rfl
      cases hseparated

theorem readInner_eq_declaredTwice_iff :
    readInner inner = .error (.declaredTwice p) ↔
      ∃ names part, part <+: inner ∧ Separated (names ++ [p]) part ∧ names.Nodup ∧ p ∈ names := by
  cases inner with
  | nil =>
    constructor
    · intro h
      cases h
    · rintro ⟨names, part, hpart, hseparated, -, -⟩
      obtain rfl := List.prefix_nil.1 hpart
      generalize hall : names ++ [p] = all at hseparated
      cases hseparated
      simp at hall
  | cons first inner =>
    have hread : readInner (first :: inner) = readParameters [] (first :: inner) := rfl
    rw [hread, readParameters_eq_declaredTwice_iff]
    simp

theorem read_enclosed (hopening : opening.isOpen = true) (hclosing : closing.isClose = true)
    (name : String) (inner : List Node) :
    read (.var name :: opening :: (inner ++ [closing])) =
      (readInner inner).map (⟨name, .function, ·⟩) := by
  cases inner with
  | nil => simp [read, readParameterList, readInner, hopening, hclosing]
  | cons first inner =>
    have hlast : (first :: (inner ++ [closing])).getLast (by simp) = closing := by
      rw [List.getLast_cons (by simp), List.getLast_concat]
    have hinner : (first :: (inner ++ [closing])).dropLast = first :: inner := by
      rw [← List.cons_append, List.dropLast_concat]
    simp [read, readParameterList, readInner, hopening, hclosing, hlast, hinner]

/-- What is neither a name nor a name in front of parentheses is no left side. -/
theorem read_neither (hname : ∀ name, nodes ≠ [.var name])
    (henclosed : ∀ name opening inner closing, opening.isOpen = true → closing.isClose = true →
      nodes ≠ .var name :: opening :: (inner ++ [closing])) : read nodes = .error .leftSide := by
  unfold read
  split
  · next name => exact absurd rfl (hname name)
  · next name rest _ =>
    unfold readParameterList
    split
    · next opening second rest _ =>
      simp only
      split
      · next hboth =>
        obtain ⟨hopening, hclosing⟩ := Bool.and_eq_true_iff.1 hboth
        refine absurd ?_ (henclosed name opening (second :: rest).dropLast _ hopening hclosing)
        rw [List.dropLast_concat_getLast]
      · rfl
    · rfl
  · rfl

/-- Nodes are a name, a name in front of parentheses, or no left side. -/
theorem left_cases (nodes : List Node) :
    (∃ name, nodes = [.var name]) ∨
    (∃ name opening inner closing, opening.isOpen = true ∧ closing.isClose = true ∧
      nodes = .var name :: opening :: (inner ++ [closing])) ∨
    read nodes = .error .leftSide := by
  by_cases hname : ∃ name, nodes = [.var name]
  · exact .inl hname
  · by_cases henclosed : ∃ name opening inner closing, opening.isOpen = true ∧
        closing.isClose = true ∧ nodes = .var name :: opening :: (inner ++ [closing])
    · exact .inr (.inl henclosed)
    · refine .inr (.inr (read_neither (not_exists.1 hname) ?_))
      intro name opening inner closing hopening hclosing heq
      exact henclosed ⟨name, opening, inner, closing, hopening, hclosing, heq⟩

theorem read_eq_ok_iff : read nodes = .ok b ↔ IsWritten nodes b := by
  constructor
  · intro h
    rcases left_cases nodes with ⟨name, rfl⟩ |
      ⟨name, opening, inner, closing, hopening, hclosing, rfl⟩ | hread
    · obtain rfl : ⟨name, .variable, []⟩ = b := Except.ok.inj h
      exact .plain name
    · rw [read_enclosed hopening hclosing] at h
      obtain ⟨parameters, hinner, rfl⟩ := map_eq_ok_iff.1 h
      obtain ⟨hseparated, hnodup⟩ := readInner_eq_ok_iff.1 hinner
      exact .parameterized hopening hclosing hseparated hnodup
    · rw [hread] at h
      cases h
  · intro h
    cases h with
    | plain name => rfl
    | parameterized hopening hclosing hseparated hnodup =>
      rw [read_enclosed hopening hclosing, readInner_eq_ok_iff.2 ⟨hseparated, hnodup⟩]
      rfl

theorem read_eq_declaredTwice_iff : read nodes = .error (.declaredTwice p) ↔ Repeats nodes p := by
  constructor
  · intro h
    rcases left_cases nodes with ⟨name, rfl⟩ |
      ⟨name, opening, inner, closing, hopening, hclosing, rfl⟩ | hread
    · cases h
    · rw [read_enclosed hopening hclosing, map_eq_error_iff] at h
      obtain ⟨names, part, hpart, hseparated, hnodup, hp⟩ := readInner_eq_declaredTwice_iff.1 h
      exact .intro hopening hclosing hpart hseparated hnodup hp
    · rw [hread] at h
      cases h
  · intro h
    cases h with
    | intro hopening hclosing hpart hseparated hnodup hp =>
      rw [read_enclosed hopening hclosing, map_eq_error_iff]
      exact readInner_eq_declaredTwice_iff.2 ⟨_, _, hpart, hseparated, hnodup, hp⟩

theorem read_eq_error {flaw : Flaw} (h : read nodes = .error flaw) :
    flaw = .leftSide ∨ ∃ p, flaw = .declaredTwice p := by
  rcases left_cases nodes with ⟨name, rfl⟩ |
    ⟨name, opening, inner, closing, hopening, hclosing, rfl⟩ | hread
  · cases h
  · rw [read_enclosed hopening hclosing, map_eq_error_iff, readInner] at h
    split at h
    · cases h
    · exact readParameters_eq_error h
  · rw [hread] at h
    exact .inl (Except.error.inj h).symm

/-! ## Left sides and their flaws -/

theorem ofNodes_of_ok (h : read nodes = .ok b) : ofNodes nodes = .ok b := by
  rw [ofNodes, h]
  rfl

theorem ofNodes_of_error {flaw : Flaw} (h : read nodes = .error flaw) :
    ofNodes nodes = .error (.malformed (Node.textAll nodes) flaw) := by
  rw [ofNodes, h]
  rfl

theorem ofNodes_eq_ok_iff : ofNodes nodes = .ok b ↔ IsWritten nodes b := by
  rw [← read_eq_ok_iff]
  cases hread : read nodes with
  | error flaw => simp [ofNodes_of_error hread]
  | ok b' => simp [ofNodes_of_ok hread]

theorem ofNodes_eq_malformed_iff {flaw : Flaw} :
    ofNodes nodes = .error (.malformed (Node.textAll nodes) flaw) ↔ read nodes = .error flaw := by
  cases hread : read nodes with
  | error flaw' => simp [ofNodes_of_error hread]
  | ok b => simp [ofNodes_of_ok hread]

/-- A left side is read as what it is written for; all other nodes are malformed, for the first name
that is declared twice if there is one. -/
theorem ofNodes_reads_left_sides (nodes : List Node) :
    (∀ b, ofNodes nodes = .ok b ↔ IsWritten nodes b) ∧
    ((∃ flaw, ofNodes nodes = .error (.malformed (Node.textAll nodes) flaw)) ↔
      ∀ b, ¬IsWritten nodes b) ∧
    ∀ flaw, ofNodes nodes = .error (.malformed (Node.textAll nodes) flaw) →
      (∃ p, flaw = .declaredTwice p ∧ Repeats nodes p) ∨
        flaw = .leftSide ∧ ∀ p, ¬Repeats nodes p := by
  refine ⟨fun b => ofNodes_eq_ok_iff, ?_, ?_⟩
  · simp only [ofNodes_eq_malformed_iff, ← read_eq_ok_iff]
    cases read nodes <;> simp
  · intro flaw h
    have hread := ofNodes_eq_malformed_iff.1 h
    rcases read_eq_error hread with rfl | ⟨p, rfl⟩
    · refine .inr ⟨rfl, fun p hrepeats => ?_⟩
      rw [read_eq_declaredTwice_iff.2 hrepeats] at hread
      cases hread
    · exact .inl ⟨p, rfl, read_eq_declaredTwice_iff.1 hread⟩

end Formulary.Binding
