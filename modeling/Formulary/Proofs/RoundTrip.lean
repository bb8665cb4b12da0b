import Formulary.Proofs.JsonText
import Formulary.Source

/-!
# Equations and their JSON forms

The form of a list of equations is read back as that list, as long as no more arrays and objects
are nested in it than the reader enters; deeper forms are refused. Different lists have different
forms at any depth.
-/

namespace Formulary

namespace Json

mutual

/-- How many arrays and objects are nested. -/
def depth : Json → Nat
  | array items => depthAll items + 1
  | object members => depthMembers members + 1
  | null | bool _ | number _ | string _ => 0

def depthAll : List Json → Nat
  | [] => 0
  | item :: rest => max item.depth (depthAll rest)

def depthMembers : List (Option String × Json) → Nat
  | [] => 0
  | (_, value) :: rest => max value.depth (depthMembers rest)

end

theorem choice_eq (name : String) (content : Json) :
    choice name content = object [(some name, content)] := rfl

theorem depthMembers_obj (members : List (String × Json)) :
    depthMembers (members.map fun (key, value) => (some key, value)) =
      depthAll (members.map Prod.snd) := by
  induction members with
  | nil => rfl
  | cons member rest ih => rw [List.map_cons, depthMembers, ih, List.map_cons, depthAll]

theorem depth_choice (name : String) (content : Json) :
    (choice name content).depth = content.depth + 1 := by
  rw [choice_eq, depth, depthMembers, depthMembers, Nat.max_zero]

theorem depth_obj (members : List (String × Json)) :
    (obj members).depth = depthAll (members.map Prod.snd) + 1 := by
  rw [obj, depth, depthMembers_obj]

theorem isSpelled_choice (name : String) (content : Json) :
    (choice name content).isSpelled = content.isSpelled := by
  simp [choice_eq, isSpelled, isSpelledMembers]

theorem isSpelled_obj (members : List (String × Json)) :
    (obj members).isSpelled = members.all (·.2.isSpelled) := by
  rw [obj, isSpelled]
  induction members with
  | nil => rfl
  | cons member rest ih =>
    rw [List.map_cons, isSpelledMembers, ih, List.all_cons]
    rfl

/-! ## Values that have room -/

/-- What is read off a value of some depth, where there is room for it. -/
def within {α : Type} (depth room : Nat) (a : α) : Option α :=
  if depth ≤ room then some a else none

section Within

variable {α β : Type}

theorem within_succ (depth room : Nat) (a : α) :
    within (depth + 1) (room + 1) a = within depth room a := by
  simp [within]

theorem within_bind (depth room : Nat) (a : α) (f : α → β) :
    ((within depth room a).bind fun x => some (f x)) = within depth room (f a) := by
  unfold within
  split <;> rfl

theorem within_map (depth room : Nat) (a : α) (f : α → β) :
    (within depth room a).map f = within depth room (f a) := by
  unfold within
  split <;> rfl

/-- Where there is room enough for both, two results are the same. -/
theorem within_inj {first second : Nat} {a b : α}
    (h : ∀ room, within first room a = within second room b) : a = b := by
  have hboth := h (max first second)
  rw [within, within, if_pos (Nat.le_max_left ..), if_pos (Nat.le_max_right ..)] at hboth
  exact Option.some.inj hboth

theorem within_bind_within (first second room : Nat) (a : α) (f : α → β) :
    ((within first room a).bind fun x => within second room (f x)) =
      within (max first second) room (f a) := by
  simp only [within, Nat.max_le]
  by_cases hfirst : first ≤ room
  · simp [hfirst]
  · simp [hfirst]

/-- What is read off items one by one needs as much room as the deepest of them. -/
theorem mapM_cons_within {f : Json → Option α} {item : Json} {rest : List Json} {a : α}
    {as : List α} {first second room : Nat} (hitem : f item = within first room a)
    (hrest : rest.mapM f = within second room as) :
    (item :: rest).mapM f = within (max first second) room (a :: as) := by
  rw [List.mapM_cons, hitem, hrest, ← within_bind_within first second room a fun a => a :: as]
  congr 1
  funext a
  exact within_bind second room as fun as => a :: as

end Within

end Json

namespace Node

variable {d : Nat}

open Json

/-! ## Reading the forms of nodes -/

theorem ofJson?_literal (text : String) :
    ofJson? (d + 2) (choice "Literal" (obj [("text", .str text)])) = some (literal text) := rfl

theorem ofJson?_var (name : String) :
    ofJson? (d + 2) (choice "Variable" (obj [("name", .str name)])) = some (var name) := rfl

theorem ofJson?_atom (symbol : String) :
    ofJson? (d + 2) (choice "Atom" (obj [("symbol", .str symbol)])) = some (atom symbol) := rfl

theorem ofJson?_power (base superscript : Json) :
    ofJson? (d + 2) (choice "Power" (obj [("base", base), ("superscript", superscript)])) =
      (ofJson? d base).bind fun b => ofSuperscript? d b superscript := rfl

theorem ofJson?_fraction (numerator denominator : Json) :
    ofJson? (d + 2) (choice "Fraction"
        (obj [("numerator", numerator), ("denominator", denominator)])) =
      (ofItems? d numerator).bind fun n =>
        (ofItems? d denominator).bind fun m => some (fraction n m) := rfl

theorem ofJson?_root (body : Json) :
    ofJson? (d + 2) (choice "Root" (obj [("body", body)])) =
      (ofItems? d body).bind fun b => some (root b) := rfl

theorem ofJson?_group (body : Json) :
    ofJson? (d + 2) (choice "Group" (obj [("body", body)])) =
      (ofItems? d body).bind fun b => some (group b) := rfl

theorem ofJson?_named (name : OperatorName) (lower upper : Json) :
    ofJson? (d + 2) (choice "NamedOperator"
        (obj [("name", .str name.key), ("subscript", lower), ("superscript", upper)])) =
      (ofLimit? d (some lower)).bind fun l =>
        (ofLimit? d (some upper)).bind fun u => some (named name l u) := by
  cases name <;> rfl

/-- No node has room in less than two arrays and objects. -/
theorem ofJson?_of_lt (h : d < 2) (j : Json) : ofJson? d j = none := by
  match d with
  | 0 => rfl
  | 1 => rfl

theorem ofItems?_succ (items : List Json) (d : Nat) :
    ofItems? (d + 1) (.array items) = items.mapM fun item => ofJson? d item := rfl

theorem ofLimit?_succ (items : List Json) (d : Nat) :
    ofLimit? (d + 1) (some (.array items)) = (items.mapM fun item => ofJson? d item).map some :=
  rfl

theorem ofLimit?_null (d : Nat) : ofLimit? d (some .null) = some none := by
  cases d <;> rfl

theorem ofSuperscript?_succ (base : Node) (exponent : Json) (d : Nat) :
    ofSuperscript? (d + 1) base (choice "Exponent" exponent) =
      (ofJson? d exponent).map (power base) := rfl

theorem ofSuperscript?_angle (base : Node) (d : Nat) :
    ofSuperscript? d base (.str "Angle") = some (angle base) := by
  cases d <;> rfl

theorem ofSuperscript?_prime (base : Node) (d : Nat) :
    ofSuperscript? d base (.str "Prime") = some (prime base) := by
  cases d <;> rfl

/-! ## Reading where there is room -/

theorem ofItems?_array {items : List Json} {nodes : List Node} {need : Nat}
    (h : ∀ d, (items.mapM fun item => ofJson? d item) = within need d nodes) (d : Nat) :
    ofItems? d (.array items) = within (need + 1) d nodes := by
  cases d with
  | zero => rfl
  | succ d => rw [ofItems?_succ, h d, within_succ]

theorem ofLimit?_array {items : List Json} {nodes : List Node} {need : Nat}
    (h : ∀ d, (items.mapM fun item => ofJson? d item) = within need d nodes) (d : Nat) :
    ofLimit? d (some (.array items)) = within (need + 1) d (some nodes) := by
  cases d with
  | zero => rfl
  | succ d => rw [ofLimit?_succ, h d, within_map, within_succ]

theorem ofSuperscript?_exponent {exponent : Json} {e : Node} {need : Nat}
    (h : ∀ d, ofJson? d exponent = within need d e) (base : Node) (d : Nat) :
    ofSuperscript? d base (choice "Exponent" exponent) = within (need + 1) d (power base e) := by
  cases d with
  | zero => cases exponent <;> rfl
  | succ d => rw [ofSuperscript?_succ, h d, within_map, within_succ]

/-- Whatever is read in no less than two arrays and objects is read only there. -/
theorem ofJson?_of_room {j : Json} {n : Node} {need : Nat}
    (h : ∀ d, ofJson? (d + 2) j = within need d n) (d : Nat) :
    ofJson? d j = within (need + 2) d n := by
  match d with
  | 0 => exact ofJson?_of_lt (by omega) j
  | 1 => exact ofJson?_of_lt (by omega) j
  | d + 2 => rw [h d, within_succ, within_succ]

mutual

/-- A node is read back where there is room for it, and not elsewhere. -/
theorem ofJson?_toJson (n : Node) : ∀ d, ofJson? d n.toJson = within n.toJson.depth d n :=
  match n with
  | literal text => ofJson?_of_room fun _ => ofJson?_literal text
  | var name => ofJson?_of_room fun _ => ofJson?_var name
  | atom symbol => ofJson?_of_room fun _ => ofJson?_atom symbol
  | power base exponent => by
    have hdepth : (power base exponent).toJson.depth =
        max base.toJson.depth (exponent.toJson.depth + 1) + 2 := by
      simp [toJson, depth_choice, depth_obj, depthAll]
    rw [hdepth]
    refine ofJson?_of_room fun d => ?_
    rw [toJson, ofJson?_power, ofJson?_toJson base d]
    simp only [ofSuperscript?_exponent (ofJson?_toJson exponent), within_bind_within]
  | angle base => by
    have hdepth : (angle base).toJson.depth = base.toJson.depth + 2 := by
      simp [toJson, depth_choice, depth_obj, depthAll, str, depth]
    rw [hdepth]
    refine ofJson?_of_room fun d => ?_
    rw [toJson, ofJson?_power, ofJson?_toJson base d]
    simp only [ofSuperscript?_angle, within_bind]
  | prime base => by
    have hdepth : (prime base).toJson.depth = base.toJson.depth + 2 := by
      simp [toJson, depth_choice, depth_obj, depthAll, str, depth]
    rw [hdepth]
    refine ofJson?_of_room fun d => ?_
    rw [toJson, ofJson?_power, ofJson?_toJson base d]
    simp only [ofSuperscript?_prime, within_bind]
  | fraction numerator denominator => by
    have hdepth : (fraction numerator denominator).toJson.depth =
        max (depthAll (toJsonAll numerator) + 1) (depthAll (toJsonAll denominator) + 1) + 2 := by
      simp [toJson, depth_choice, depth_obj, depthAll, depth]
    rw [hdepth]
    refine ofJson?_of_room fun d => ?_
    rw [toJson, ofJson?_fraction, ofItems?_array (mapM_toJsonAll numerator),
      ofItems?_array (mapM_toJsonAll denominator)]
    simp only [within_bind, within_bind_within]
  | root body => by
    have hdepth : (root body).toJson.depth = depthAll (toJsonAll body) + 1 + 2 := by
      simp [toJson, depth_choice, depth_obj, depthAll, depth]
    rw [hdepth]
    refine ofJson?_of_room fun d => ?_
    rw [toJson, ofJson?_root, ofItems?_array (mapM_toJsonAll body), within_bind]
  | group body => by
    have hdepth : (group body).toJson.depth = depthAll (toJsonAll body) + 1 + 2 := by
      simp [toJson, depth_choice, depth_obj, depthAll, depth]
    rw [hdepth]
    refine ofJson?_of_room fun d => ?_
    rw [toJson, ofJson?_group, ofItems?_array (mapM_toJsonAll body), within_bind]
  | named name lower upper => by
    have hdepth : (named name lower upper).toJson.depth =
        max (limitToJson lower).depth (limitToJson upper).depth + 2 := by
      simp [toJson, depth_choice, depth_obj, depthAll, str, depth]
    rw [hdepth]
    refine ofJson?_of_room fun d => ?_
    rw [toJson, ofJson?_named, ofLimit?_limitToJson lower, ofLimit?_limitToJson upper]
    simp only [within_bind, within_bind_within]

theorem mapM_toJsonAll (nodes : List Node) :
    ∀ d, ((toJsonAll nodes).mapM fun item => ofJson? d item) =
      within (depthAll (toJsonAll nodes)) d nodes :=
  match nodes with
  | [] => fun _ => rfl
  | node :: rest => fun d => by
    rw [toJsonAll, depthAll]
    exact mapM_cons_within (ofJson?_toJson node d) (mapM_toJsonAll rest d)

theorem ofLimit?_limitToJson (limit : Option (List Node)) :
    ∀ d, ofLimit? d (some (limitToJson limit)) = within (limitToJson limit).depth d limit :=
  match limit with
  | none => ofLimit?_null
  | some nodes => ofLimit?_array (mapM_toJsonAll nodes)

end

/-! ## Lists of equations -/

theorem ofItems?_toJsonAll (nodes : List Node) (d : Nat) :
    ofItems? d (.array (toJsonAll nodes)) = within (array (toJsonAll nodes)).depth d nodes := by
  rw [ofItems?_array (mapM_toJsonAll nodes), depth]

theorem mapM_equations (equations : List (List Node)) (d : Nat) :
    (equations.map fun nodes => array (toJsonAll nodes)).mapM (ofItems? d) =
      within (depthAll (equations.map fun nodes => .array (toJsonAll nodes))) d equations := by
  induction equations with
  | nil => rfl
  | cons nodes rest ih =>
    rw [List.map_cons, depthAll]
    exact mapM_cons_within (ofItems?_toJsonAll nodes d) ih

theorem equationsOfJson?_equationsToJson (equations : List (List Node)) :
    equationsOfJson? (equationsToJson equations) =
      within (equationsToJson equations).depth Json.maxDepth equations := by
  rw [equationsToJson, equationsOfJson?, mapM_equations, depth, ← within_succ]
  rfl

theorem equationsToJson_inj {equations others : List (List Node)} :
    equationsToJson equations = equationsToJson others ↔ equations = others := by
  refine ⟨fun h => ?_, congrArg _⟩
  rw [equationsToJson, equationsToJson, array.injEq] at h
  have hread := mapM_equations equations
  rw [h] at hread
  exact within_inj fun d => (hread d).symm.trans (mapM_equations others d)

/-! ## Forms as texts -/

mutual

theorem isSpelled_toJson (n : Node) : n.toJson.isSpelled = true :=
  match n with
  | literal _ => rfl
  | var _ => rfl
  | atom _ => rfl
  | power base exponent => by
    simp [toJson, isSpelled_choice, isSpelled_obj, isSpelled_toJson base, isSpelled_toJson exponent]
  | angle base => by
    simp [toJson, isSpelled_choice, isSpelled_obj, isSpelled_toJson base, str, isSpelled]
  | prime base => by
    simp [toJson, isSpelled_choice, isSpelled_obj, isSpelled_toJson base, str, isSpelled]
  | fraction numerator denominator => by
    simp [toJson, isSpelled_choice, isSpelled_obj, isSpelled,
      isSpelledAll_toJsonAll numerator, isSpelledAll_toJsonAll denominator]
  | root body => by
    simp [toJson, isSpelled_choice, isSpelled_obj, isSpelled, isSpelledAll_toJsonAll body]
  | group body => by
    simp [toJson, isSpelled_choice, isSpelled_obj, isSpelled, isSpelledAll_toJsonAll body]
  | named name lower upper => by
    simp [toJson, isSpelled_choice, isSpelled_obj, str, isSpelled,
      isSpelled_limitToJson lower, isSpelled_limitToJson upper]

theorem isSpelledAll_toJsonAll (nodes : List Node) :
    isSpelledAll (toJsonAll nodes) = true :=
  match nodes with
  | [] => rfl
  | node :: rest => isSpelledAll_cons.2 ⟨isSpelled_toJson node, isSpelledAll_toJsonAll rest⟩

theorem isSpelled_limitToJson (limit : Option (List Node)) :
    (limitToJson limit).isSpelled = true :=
  match limit with
  | none => rfl
  | some nodes => isSpelledAll_toJsonAll nodes

end

theorem isSpelled_equationsToJson (equations : List (List Node)) :
    (equationsToJson equations).isSpelled = true := by
  rw [equationsToJson, isSpelled]
  induction equations with
  | nil => rfl
  | cons nodes rest ih => exact isSpelledAll_cons.2 ⟨isSpelledAll_toJsonAll nodes, ih⟩

end Node

/-- A list of equations is read back from its form, as a value and as a text, exactly where the form
is no deeper than the reader goes, and no other list has that form. -/
theorem load_equationsToJson (equations : List (List Node)) :
    Node.equationsOfJson? (Node.equationsToJson equations) =
        (if (Node.equationsToJson equations).depth ≤ Json.maxDepth then some equations else none) ∧
      load (Node.equationsToJson equations).compact .json =
        (if (Node.equationsToJson equations).depth ≤ Json.maxDepth then .ok equations
          else .error .json) ∧
      ∀ others, Node.equationsToJson equations = Node.equationsToJson others ↔
        equations = others := by
  have hread := Node.equationsOfJson?_equationsToJson equations
  refine ⟨hread, ?_, fun _ => Node.equationsToJson_inj⟩
  have hparse := Json.parse?_compact (Node.isSpelled_equationsToJson equations)
  rw [load, hparse, Option.bind_some, hread, Json.within]
  by_cases hdepth : (Node.equationsToJson equations).depth ≤ Json.maxDepth
  · rw [if_pos hdepth, if_pos hdepth]
  · rw [if_neg hdepth, if_neg hdepth]

end Formulary
