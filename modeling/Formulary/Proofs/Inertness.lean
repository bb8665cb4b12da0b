import Mathlib.Data.List.Forall2
import Formulary.Proofs.Registration

/-!
# Equations that change nothing

A walk asks its session what names stand for and how it is configured, and nothing else. So an
equation that fails, binds no name or binds one that is bound already may be put in anywhere: all
others compile as they do without it, and only places in the session behind it move.
-/

namespace Formulary

/-! ## What a walk asks of its session -/

namespace Session

/-- Names stand for the same equations, and the configuration is the same. -/
structure Alike (s s' : Session) : Prop where
  config : s'.config = s.config
  resolve : ∀ name, s'.resolve name = s.resolve name

theorem Alike.resolveFunction {s s' : Session} (h : s.Alike s') (name : String) :
    s'.resolveFunction name = s.resolveFunction name := by
  rw [Session.resolveFunction, h.resolve, ← Session.resolveFunction]

end Session

namespace Walk

variable {s s' : Session} {name : String} {anchored : List Node} {operand : Operand}
  {body : Walk Unit}

theorem named_alike (h : s.Alike s') :
    named s' name anchored operand body = named s name anchored operand body := by
  simp only [named, h.resolve]

theorem primed_alike (h : s.Alike s') :
    primed s' name anchored operand body = primed s name anchored operand body := by
  simp only [primed, h.resolveFunction, h.config]

/-- The same walk in both sessions, node by node. -/
theorem walk_alike (h : s.Alike s') :
    (∀ depth previous nodes, visitAll s' depth previous nodes = visitAll s depth previous nodes) ∧
    ∀ depth node rest, visit s' depth node rest = visit s depth node rest := by
  -- The cases are those of the walk; only names, primes and integrals ask the session.
  apply visitAll.mutual_induct s
  · intro depth previous
    rw [visitAll, visitAll]
  · intro depth previous node rest _ hnode hrest
    simp only [visitAll_cons, hnode, hrest]
  · intro depth previous node rest _ hnode hrest
    simp only [visitAll_cons, hnode, hrest]
  · intro depth rest operand _ ih
    simp only [visit]
    rw [ih]
  · intro depth rest hclosed
    simp only [visit, if_pos, if_neg hclosed]
  · intro depth rest text htext
    rw [visit, visit, if_neg htext, if_neg htext]
  · intro depth rest name operand ih
    rw [visit, visit, ih, named_alike h]
  · intro depth rest symbol
    rw [visit, visit]
  · intro depth rest base exponent hempty
    rw [visit, visit, if_pos hempty, if_pos hempty]
  · intro depth rest base exponent _ ihbase ihexponent
    rw [visit, visit, ihbase, ihexponent]
  · intro depth rest base hempty
    rw [visit, visit, if_pos hempty, if_pos hempty]
  · intro depth rest base _ ih
    rw [visit, visit, ih]
  · intro depth rest name operand ih
    rw [visit, visit, ih, primed_alike h]
  · intro depth rest base hbase operand _
    rw [visit, visit]
    · exact hbase
    · exact hbase
  · intro depth rest numerator denominator hempty
    rw [visit, visit, if_pos hempty, if_pos hempty]
  · intro depth rest numerator denominator _ ihnumerator ihdenominator
    rw [visit, visit, ihnumerator, ihdenominator]
  · intro depth rest body ih
    rw [visit, visit, ih]
  · intro depth rest body ih
    rw [visit, visit, ih]
  · intro depth rest lower upper anchor operand ih
    rw [visit, visit, ih]
  · intro depth rest lower upper anchor operand ih
    rw [visit, visit, ih, h.config]
  · intro depth rest lower upper anchor operand ih
    rw [visit, visit, ih]
  · intro depth rest lower upper anchor operand ih
    rw [visit, visit, ih]
  · intro depth rest lower upper anchor operand ih
    rw [visit, visit, ih]

end Walk

namespace Session

variable {s s' : Session}

theorem Alike.assemble (h : s.Alike s') (nodes : List Node) :
    s'.assemble nodes = s.assemble nodes := by
  have hwalk : ∀ binding right, s'.walk binding right = s.walk binding right := by
    intro binding right
    rw [Session.walk, Session.walk, (Walk.walk_alike h).1]
  simp only [Session.assemble, hwalk]

theorem Alike.outcome (h : s.Alike s') (nodes : List Node) :
    (s'.compile nodes).outcome = (s.compile nodes).outcome := by
  rw [Session.compile, Session.compile, h.assemble]
  rcases s.assemble nodes with ⟨es, error | e⟩ <;> rfl

theorem Alike.emissions (h : s.Alike s') (nodes : List Node) :
    (s'.compile nodes).emissions = (s.compile nodes).emissions := by
  rw [Session.compile, Session.compile, h.assemble]
  rcases s.assemble nodes with ⟨es, error | e⟩ <;> rfl

theorem Alike.registered (h : s.Alike s') (nodes : List Node) :
    (s'.compile nodes).registered = (s.compile nodes).registered := by
  rw [Compilation.registered, Compilation.registered, h.outcome]

/-! ## Equations put in -/

/-- Where an equation stands once `count` more have been put in at `place`. -/
def moved (place count p : Nat) : Nat := if p < place then p else p + count

/-- The second session is the first with equations put in at a place; whatever they bind is bound
before them. -/
structure Insertion (place : Nat) (added : List (Equation Float)) (s s' : Session) : Prop where
  reachable : s.Reachable
  reachable' : s'.Reachable
  config : s'.config = s.config
  place_le : place ≤ s.equations.toList.length
  equations : s'.equations.toList =
    s.equations.toList.take place ++ added ++ s.equations.toList.drop place
  known : ∀ e ∈ added, ∀ name, e.name? = some name →
    ∃ x ∈ s.equations.toList.take place, x.name? = some name

namespace Insertion

variable {place : Nat} {added : List (Equation Float)}

theorem length_before (h : Insertion place added s s') :
    (s.equations.toList.take place).length = place := by
  rw [List.length_take, Nat.min_eq_left h.place_le]

theorem getElem?_moved (h : Insertion place added s s') (p : Nat) :
    s'.equations.toList[moved place added.length p]? = s.equations.toList[p]? := by
  have hbefore := h.length_before
  rw [h.equations, moved]
  split
  · next hlt =>
    rw [List.append_assoc, List.getElem?_append_left (by omega), List.getElem?_take_of_lt hlt]
  · next hge =>
    rw [List.getElem?_append_right (by rw [List.length_append]; omega), List.length_append,
      hbefore, List.getElem?_drop]
    congr 1
    omega

/-- A name is first bound by the same equation. -/
theorem findIdx?_moved (h : Insertion place added s s') (name : String) :
    s'.equations.toList.findIdx? (·.name? == some name) =
      (s.equations.toList.findIdx? (·.name? == some name)).map (moved place added.length) := by
  conv => rhs; rw [← List.take_append_drop place s.equations.toList]
  rw [h.equations, List.append_assoc, List.findIdx?_append, List.findIdx?_append,
    List.findIdx?_append, h.length_before]
  cases hbefore : (s.equations.toList.take place).findIdx? (·.name? == some name) with
  | some p =>
    have hlt := (List.findIdx?_eq_some_iff_getElem.1 hbefore).1
    rw [h.length_before] at hlt
    rw [Option.some_or, Option.some_or, Option.map_some, moved, if_pos hlt]
  | none =>
    have hnot := List.findIdx?_eq_none_iff.1 hbefore
    have hadded : added.findIdx? (·.name? == some name) = none := by
      refine List.findIdx?_eq_none_iff.2 fun e he => beq_eq_false_iff_ne.2 fun hname => ?_
      obtain ⟨x, hx, hbound⟩ := h.known e he name hname
      simpa [hbound] using hnot x hx
    rw [hadded, Option.none_or, Option.none_or, Option.none_or, Option.map_map, Option.map_map]
    congr 1
    funext p
    have hge : ¬p + place < place := by omega
    simp only [Function.comp_apply, moved, if_neg hge]
    omega

theorem alike (h : Insertion place added s s') : s.Alike s' := by
  refine ⟨h.config, fun name => ?_⟩
  rw [h.reachable'.resolve_eq, h.reachable.resolve_eq, List.find?_eq_bind_findIdx?_getElem?,
    List.find?_eq_bind_findIdx?_getElem?, h.findIdx?_moved, Option.bind_map]
  congr 1
  funext p
  exact h.getElem?_moved p

theorem keyOf?_moved (h : Insertion place added s s') {name : String} {p : Nat}
    (hp : s.keyOf? name = some ⟨p⟩) :
    s'.keyOf? name = some ⟨moved place added.length p⟩ := by
  rw [h.reachable.keyOf?_eq] at hp
  obtain ⟨q, hq, hsame⟩ := Option.map_eq_some_iff.1 hp
  obtain rfl : q = p := Key.mk.inj hsame
  rw [h.reachable'.keyOf?_eq, h.findIdx?_moved, hq]
  rfl

theorem compile (h : Insertion place added s s') (nodes : List Node) :
    Insertion place added (s.compile nodes).session (s'.compile nodes).session where
  reachable := h.reachable.compile nodes
  reachable' := h.reachable'.compile nodes
  config := by rw [config_compile, config_compile, h.config]
  place_le := by
    rw [toList_compile, List.length_append]
    exact Nat.le_add_right_of_le h.place_le
  equations := by
    rw [toList_compile, toList_compile, h.equations, h.alike.registered,
      List.take_append_of_le_length h.place_le, List.drop_append_of_le_length h.place_le,
      List.append_assoc (_ ++ added)]
  known := by
    rw [toList_compile, List.take_append_of_le_length h.place_le]
    exact h.known

end Insertion

end Session

/-! ## Histories with an equation put in -/

/-- Two compilations with the same outcome and emissions, so with the same warnings, whose externals
stand at places that `move` takes into each other. -/
structure Compilation.SameUpTo (move : Nat → Nat) (c c' : Compilation (Equation Float)) :
    Prop where
  outcome : c'.outcome = c.outcome
  emissions : c'.emissions = c.emissions
  warnings : c'.warnings = c.warnings
  externals : ∀ e, c.outcome = .ok e → ∀ x ∈ e.externals, ∃ place,
    c.session.keyOfExternal? x = some ⟨place⟩ ∧
    c'.session.keyOfExternal? x = some ⟨move place⟩ ∧
    c.session.equations.toList[place]? = some x ∧
    c'.session.equations.toList[move place]? = some x

namespace Session

/-- What compiling node list after node list gives, whether those before it failed or not. -/
def history (s : Session) : List (List Node) → List (Compilation (Equation Float))
  | [] => []
  | nodes :: rest => s.compile nodes :: (s.compile nodes).session.history rest

/-- The nodes fail to compile, bind no name, or bind one that is bound already. -/
def IsInert (s : Session) (nodes : List Node) : Prop :=
  match (s.compile nodes).outcome with
  | .error _ => True
  | .ok e => ∀ name, e.name? = some name → (s.resolve name).isSome = true

variable {s s' : Session}

theorem length_history (s : Session) (equations : List (List Node)) :
    (s.history equations).length = equations.length := by
  induction equations generalizing s with
  | nil => rfl
  | cons nodes rest ih => exact congrArg (· + 1) (ih (s.compile nodes).session)

theorem history_append (s : Session) (first second : List (List Node)) :
    s.history (first ++ second) =
      s.history first ++ (s.serveAll (first.map .single)).history second := by
  induction first generalizing s with
  | nil => rfl
  | cons nodes rest ih => exact congrArg (s.compile nodes :: ·) (ih (s.compile nodes).session)

/-- After compiling, an external is found at the place where it has stood before. -/
theorem Reachable.external_kept (hs : s.Reachable) {nodes : List Node} {e x : Equation Float}
    (h : (s.compile nodes).outcome = .ok e) (hx : x ∈ e.externals) :
    ∃ name place, x.name? = some name ∧ place < s.equations.toList.length ∧
      (s.compile nodes).session.keyOf? name = some ⟨place⟩ ∧
      (s.compile nodes).session.equations.toList[place]? = some x := by
  obtain ⟨name, place, hname, hplace, hat⟩ := hs.external_found h hx
  have hlt := (List.findIdx?_eq_some_iff_getElem.1 hplace).1
  refine ⟨name, place, hname, hlt, ?_, ?_⟩
  · rw [(hs.compile nodes).keyOf?_eq, toList_compile, List.findIdx?_append, hplace]
    rfl
  · rw [toList_compile, List.getElem?_append_left hlt, hat]

theorem Insertion.sameUpTo {place : Nat} {added : List (Equation Float)}
    (h : Insertion place added s s') (nodes : List Node) :
    (s.compile nodes).SameUpTo (moved place added.length) (s'.compile nodes) := by
  refine ⟨h.alike.outcome nodes, h.alike.emissions nodes,
    congrArg Emission.warnings (h.alike.emissions nodes), ?_⟩
  intro e hok x hx
  obtain ⟨name, p, hname, -, hkey, hat⟩ := h.reachable.external_kept hok hx
  have hafter := h.compile nodes
  refine ⟨p, ?_, ?_, hat, (hafter.getElem?_moved p).trans hat⟩
  · rw [keyOfExternal?, hname, Option.bind_some, hkey]
  · rw [keyOfExternal?, hname, Option.bind_some, hafter.keyOf?_moved hkey]

theorem Insertion.history {place : Nat} {added : List (Equation Float)}
    (h : Insertion place added s s') (equations : List (List Node)) :
    List.Forall₂ (Compilation.SameUpTo (moved place added.length)) (s.history equations)
      (s'.history equations) := by
  induction equations generalizing s s' with
  | nil => exact .nil
  | cons nodes rest ih => exact .cons (h.sameUpTo nodes) (ih (h.compile nodes))

/-- What has been compiled before a place does not move. -/
theorem Reachable.history_before (hs : s.Reachable) (equations : List (List Node)) {place : Nat}
    (hplace : (s.serveAll (equations.map .single)).equations.toList.length ≤ place)
    (count : Nat) :
    List.Forall₂ (Compilation.SameUpTo (moved place count)) (s.history equations)
      (s.history equations) := by
  induction equations generalizing s with
  | nil => exact .nil
  | cons nodes rest ih =>
    refine .cons ⟨rfl, rfl, rfl, ?_⟩ (ih (hs.compile nodes) hplace)
    intro e hok x hx
    obtain ⟨name, p, hname, hlt, hkey, hat⟩ := hs.external_kept hok hx
    have hgrow := (toList_serveAll_grow s ((nodes :: rest).map .single)).length_le
    have hstays : moved place count p = p := if_pos (by omega)
    have hfound : (s.compile nodes).session.keyOfExternal? x = some ⟨p⟩ := by
      rw [keyOfExternal?, hname, Option.bind_some, hkey]
    refine ⟨p, hfound, ?_, hat, ?_⟩
    · rw [hstays, hfound]
    · rw [hstays, hat]

/-- Compiling inert nodes puts in what they register. -/
theorem IsInert.insertion (hs : s.Reachable) {nodes : List Node} (h : s.IsInert nodes) :
    Insertion s.equations.toList.length (s.compile nodes).registered s
      (s.compile nodes).session where
  reachable := hs
  reachable' := hs.compile nodes
  config := config_compile s nodes
  place_le := Nat.le_refl _
  equations := by rw [toList_compile, List.take_length, List.drop_length, List.append_nil]
  known := by
    intro e he name hname
    rw [List.take_length]
    rw [IsInert] at h
    cases hok : (s.compile nodes).outcome with
    | error _ =>
      rw [Compilation.registered, hok] at he
      cases he
    | ok equation =>
      rw [Compilation.registered, hok] at he
      rw [hok] at h
      obtain rfl : e = equation := List.mem_singleton.1 he
      have hknown := h name hname
      rw [hs.resolve_eq, List.find?_isSome] at hknown
      obtain ⟨x, hx, hbound⟩ := hknown
      exact ⟨x, hx, beq_iff_eq.1 hbound⟩

/-- Nodes that fail to compile, bind no name or bind one that is bound already may be put in
anywhere: all others have the same outcome and the same warnings, and externals only move with their
places in the session. -/
theorem history_with_inert (config : Config) (before after : List (List Node)) (nodes : List Node)
    (h : ((fresh config).serveAll (before.map .single)).IsInert nodes) :
    List.Forall₂
      (Compilation.SameUpTo (moved
        ((fresh config).serveAll (before.map .single)).equations.toList.length
        (((fresh config).serveAll (before.map .single)).compile nodes).registered.length))
      ((fresh config).history (before ++ after))
      (((fresh config).history (before ++ nodes :: after)).eraseIdx before.length) := by
  have hs := (Reachable.fresh config).serveAll (before.map .single)
  have hbefore := (Reachable.fresh config).history_before before (Nat.le_refl _)
    (((fresh config).serveAll (before.map .single)).compile nodes).registered.length
  have hafter := (h.insertion hs).history after
  have hlength : ((fresh config).history before).length ≤ before.length :=
    Nat.le_of_eq (length_history _ before)
  have herase : ((fresh config).history (before ++ nodes :: after)).eraseIdx before.length =
      (fresh config).history before ++
        (((fresh config).serveAll (before.map .single)).compile nodes).session.history after := by
    rw [history_append, List.eraseIdx_append_of_length_le hlength, length_history, Nat.sub_self]
    rfl
  rw [herase, history_append]
  exact List.rel_append hbefore hafter

/-- In between `b = a` and `k = b`, `b = c` only moves `k`. -/
theorem history_with_rebinding :
    ((fresh {}).serveAll [.single [.var "b", .atom "=", .var "a"]]).IsInert
      [.var "b", .atom "=", .var "c"] ∧
    List.Forall₂ (Compilation.SameUpTo (moved 1 1))
      ((fresh {}).history [[.var "b", .atom "=", .var "a"], [.var "k", .atom "=", .var "b"],
        [.var "k"]])
      (((fresh {}).history [[.var "b", .atom "=", .var "a"], [.var "b", .atom "=", .var "c"],
        [.var "k", .atom "=", .var "b"], [.var "k"]]).eraseIdx 1) := by
  have hread : ∀ name, readBranches [.append (.var name)] = .ok [.var name] := fun name =>
    readBranches_single rfl (Expression.parse_eq_ok_iff.2 (.product (.signed (.operand (.var name)))))
  have hfirst : ((fresh {}).compile [.var "b", .atom "=", .var "a"]).outcome =
      .ok ⟨some ⟨"b", .variable, []⟩, ["a"], [], [.var "a"], []⟩ :=
    compile_outcome_eq_ok_iff.2 ⟨_, _, _, _, _, rfl, .cons (.name (.inr rfl)) .nil, hread "a", rfl⟩
  have hsession : (fresh {}).serveAll [.single [.var "b", .atom "=", .var "a"]] =
      (fresh {}).register ⟨some ⟨"b", .variable, []⟩, ["a"], [], [.var "a"], []⟩ :=
    session_compile_of_ok hfirst
  have hagain : (((fresh {}).register ⟨some ⟨"b", .variable, []⟩, ["a"], [], [.var "a"], []⟩).compile
      [.var "b", .atom "=", .var "c"]).outcome =
        .ok ⟨some ⟨"b", .variable, []⟩, ["c"], [], [.var "c"], []⟩ :=
    compile_outcome_eq_ok_iff.2 ⟨_, _, _, _, _, rfl, .cons (.name (.inr rfl)) .nil, hread "c", rfl⟩
  have hinert : ((fresh {}).serveAll [.single [.var "b", .atom "=", .var "a"]]).IsInert
      [.var "b", .atom "=", .var "c"] := by
    rw [hsession, IsInert, hagain]
    rintro name ⟨⟩
    rfl
  refine ⟨hinert, ?_⟩
  have hsame := history_with_inert {} [[.var "b", .atom "=", .var "a"]]
    [[.var "k", .atom "=", .var "b"], [.var "k"]] [.var "b", .atom "=", .var "c"] hinert
  have hplace : ((fresh {}).serveAll
      [.single [.var "b", .atom "=", .var "a"]]).equations.toList.length = 1 := by
    rw [hsession]
    rfl
  have hcount : (((fresh {}).serveAll [.single [.var "b", .atom "=", .var "a"]]).compile
      [.var "b", .atom "=", .var "c"]).registered.length = 1 := by
    rw [hsession, Compilation.registered, hagain]
    rfl
  rwa [List.map_singleton, hplace, hcount] at hsame

end Session

end Formulary
