import Mathlib.Data.List.Nodup
import Formulary.Proofs.Histories

/-!
# The registry of a session

Equations are registered one behind the other and stay where they are. Whatever has been asked of a
session, a name stands for the first equation that binds it, and an equation refers to equations
before it, each the first of its name.
-/

namespace Formulary

/-- What a session is asked to compile. -/
inductive Request
  | single (nodes : List Node)
  | sequence (equations : List (List Node))

/-- What a compilation registers. -/
def Compilation.registered (c : Compilation (Equation Float)) : List (Equation Float) :=
  c.outcome.toOption.toList

namespace Session

def serve (s : Session) : Request → Session
  | .single nodes => (s.compile nodes).session
  | .sequence equations => (s.compileAll equations).session

/-- The session after one request upon the other, whether they fail or not. -/
def serveAll (s : Session) (requests : List Request) : Session := requests.foldl serve s

/-- The first equation that binds its name stands at this place. -/
def BindsFirst (s : Session) (place : Nat) : Prop :=
  ∃ name, s.equations.toList.findIdx? (·.name? == some name) = some place

/-- The equation at the first place has the one at the second among its externals. -/
def Refers (s : Session) (place other : Nat) : Prop :=
  ∃ e x, s.equations.toList[place]? = some e ∧ x ∈ e.externals ∧
    s.equations.toList[other]? = some x ∧ s.BindsFirst other

/-- The externals of the equation at a place stand at different places before it. -/
def RefersBack (s : Session) (place : Nat) (e : Equation Float) : Prop :=
  ∃ places : List Nat, places.Nodup ∧ (∀ p ∈ places, p < place ∧ s.BindsFirst p) ∧
    places.map (s.equations.toList[·]?) = e.externals.map some

structure KeepsRegistry (s : Session) : Prop where
  /-- Whatever is asked next, the equations that are registered stay where they are. -/
  grows : ∀ requests, s.equations.toList <+: (s.serveAll requests).equations.toList
  failing : ∀ nodes error, (s.compile nodes).outcome = .error error →
    (s.compile nodes).session = s
  /-- A sequence that fails has registered the equations before the one that failed. -/
  failingSequence : ∀ equations error, (s.compileAll equations).outcome = .error error →
    ∃ compiled nodes rest es, equations = compiled ++ nodes :: rest ∧
      (s.compileAll compiled).outcome = .ok es ∧ es.length = compiled.length ∧
      ((s.serveAll (compiled.map .single)).compile nodes).outcome = .error error ∧
      (s.compileAll equations).session = s.serveAll (compiled.map .single) ∧
      (s.compileAll equations).session.equations.toList = s.equations.toList ++ es
  resolve : ∀ name, s.resolve name = s.equations.toList.find? (·.name? == some name)
  refersBack : ∀ (place : Nat) (e : Equation Float), s.equations.toList[place]? = some e →
    s.RefersBack place e
  acyclic : ∀ place, ¬Relation.TransGen s.Refers place place

variable {s : Session}

/-! ## One request upon the other -/

/-- An equation either fails and leaves the session as it was, or is registered. -/
theorem session_compile_cases (s : Session) (nodes : List Node) :
    (∃ error, (s.compile nodes).outcome = .error error ∧ (s.compile nodes).session = s) ∨
      ∃ e, (s.compile nodes).outcome = .ok e ∧ (s.compile nodes).session = s.register e := by
  cases houtcome : (s.compile nodes).outcome with
  | error error => exact .inl ⟨error, rfl, session_compile_of_error houtcome⟩
  | ok e => exact .inr ⟨e, rfl, session_compile_of_ok houtcome⟩

/-- Only an equation that compiles is registered, behind those there are. -/
theorem toList_compile (s : Session) (nodes : List Node) :
    (s.compile nodes).session.equations.toList =
      s.equations.toList ++ (s.compile nodes).registered := by
  rcases session_compile_cases s nodes with ⟨_, hfails, hsession⟩ | ⟨e, hok, hsession⟩
  · rw [hsession, Compilation.registered, hfails]
    exact (List.append_nil _).symm
  · rw [hsession, toList_register, Compilation.registered, hok]
    rfl

theorem config_compile (s : Session) (nodes : List Node) :
    (s.compile nodes).session.config = s.config := by
  rcases session_compile_cases s nodes with ⟨_, -, hsession⟩ | ⟨_, -, hsession⟩
  · rw [hsession]
  · rw [hsession, register_config]

theorem toList_compile_grow (s : Session) (nodes : List Node) :
    s.equations.toList <+: (s.compile nodes).session.equations.toList :=
  ⟨_, (toList_compile s nodes).symm⟩

theorem compileAll_cons_of_error {nodes : List Node} {rest : List (List Node)}
    {error : CompileError} (h : (s.compile nodes).outcome = .error error) :
    s.compileAll (nodes :: rest) =
      ⟨(s.compile nodes).emissions, .error error, (s.compile nodes).session⟩ := by
  simp only [compileAll, h]

theorem compileAll_cons_of_ok {nodes : List Node} {rest : List (List Node)}
    {e : Equation Float} (h : (s.compile nodes).outcome = .ok e) :
    s.compileAll (nodes :: rest) =
      ⟨(s.compile nodes).emissions ++ ((s.compile nodes).session.compileAll rest).emissions,
        ((s.compile nodes).session.compileAll rest).outcome.map (e :: ·),
        ((s.compile nodes).session.compileAll rest).session⟩ := by
  simp only [compileAll, h]

/-- A sequence is what its equations are one by one, up to the first that fails. -/
theorem compileAll_cases (s : Session) (equations : List (List Node)) :
    ∃ compiled rest es, equations = compiled ++ rest ∧ es.length = compiled.length ∧
      (s.compileAll compiled).outcome = .ok es ∧
      (s.compileAll equations).session = s.serveAll (compiled.map .single) ∧
      (s.compileAll equations).session.equations.toList = s.equations.toList ++ es ∧
      match (s.compileAll equations).outcome with
      | .ok _ => rest = []
      | .error error => ∃ nodes behind, rest = nodes :: behind ∧
          ((s.serveAll (compiled.map .single)).compile nodes).outcome = .error error := by
  induction equations generalizing s with
  | nil => exact ⟨[], [], [], rfl, rfl, rfl, rfl, (List.append_nil _).symm, rfl⟩
  | cons nodes equations ih =>
    rcases session_compile_cases s nodes with ⟨error, herror, hsession⟩ | ⟨e, hok, hsession⟩
    · rw [compileAll_cons_of_error herror]
      exact ⟨[], nodes :: equations, [], rfl, rfl, rfl, hsession,
        by rw [hsession, List.append_nil], nodes, equations, rfl, herror⟩
    · obtain ⟨compiled, rest, es, rfl, hlength, houtcome, hafter, hlist, hlast⟩ :=
        ih (s.compile nodes).session
      refine ⟨nodes :: compiled, rest, e :: es, rfl, congrArg (· + 1) hlength, ?_, ?_, ?_, ?_⟩
      · rw [compileAll_cons_of_ok hok, houtcome]
        rfl
      · rw [compileAll_cons_of_ok hok, hafter]
        rfl
      · rw [compileAll_cons_of_ok hok, hlist, hsession, toList_register, List.append_assoc]
        rfl
      · rw [compileAll_cons_of_ok hok]
        cases hmore : ((s.compile nodes).session.compileAll (compiled ++ rest)).outcome with
        | ok _ =>
          rw [hmore] at hlast
          exact hlast
        | error error =>
          rw [hmore] at hlast
          exact hlast

theorem toList_serve_grow (s : Session) (request : Request) :
    s.equations.toList <+: (s.serve request).equations.toList := by
  cases request with
  | single nodes => exact toList_compile_grow s nodes
  | sequence equations =>
    obtain ⟨_, _, es, -, -, -, -, hlist, -⟩ := compileAll_cases s equations
    exact ⟨es, hlist.symm⟩

theorem toList_serveAll_grow (s : Session) (requests : List Request) :
    s.equations.toList <+: (s.serveAll requests).equations.toList := by
  induction requests generalizing s with
  | nil => exact List.prefix_rfl
  | cons request requests ih => exact (toList_serve_grow s request).trans (ih (s.serve request))

theorem Reachable.compileAll (hs : s.Reachable) (equations : List (List Node)) :
    (s.compileAll equations).session.Reachable := by
  induction equations generalizing s with
  | nil => exact hs
  | cons nodes equations ih =>
    rcases session_compile_cases s nodes with ⟨_, herror, -⟩ | ⟨_, hok, -⟩
    · rw [compileAll_cons_of_error herror]
      exact hs.compile nodes
    · rw [compileAll_cons_of_ok hok]
      exact ih (hs.compile nodes)

theorem Reachable.serveAll (hs : s.Reachable) (requests : List Request) :
    (s.serveAll requests).Reachable := by
  induction requests generalizing s with
  | nil => exact hs
  | cons request requests ih =>
    cases request with
    | single nodes => exact ih (hs.compile nodes)
    | sequence equations => exact ih (hs.compileAll equations)

/-! ## What names stand for -/

/-- A name is kept with the place of the first equation that binds it. -/
theorem Reachable.keyOf?_eq (hs : s.Reachable) (name : String) :
    s.keyOf? name = (s.equations.toList.findIdx? (·.name? == some name)).map Key.mk := by
  induction hs with
  | fresh config => rfl
  | @compile s nodes _ ih =>
    rcases session_compile_cases s nodes with ⟨_, -, hsession⟩ | ⟨e, -, hsession⟩
    · rw [hsession, ih]
    · rw [hsession, keyOf?_register, ih, toList_register, List.findIdx?_append, Option.map_or,
        List.findIdx?_singleton]
      by_cases hname : e.name? = some name
      · simp [hname, Registry.nextKey, Registry.size, Registry.toList]
      · simp [hname]

theorem Reachable.resolve_eq (hs : s.Reachable) (name : String) :
    s.resolve name = s.equations.toList.find? (·.name? == some name) := by
  rw [List.find?_eq_bind_findIdx?_getElem?, Session.resolve, hs.keyOf?_eq, Option.bind_map]
  congr 1
  funext place
  exact Registry.get?_eq_getElem? ..

theorem bindsFirst_append {place : Nat} (h : s.BindsFirst place) {s' : Session}
    (hgrow : s.equations.toList <+: s'.equations.toList) : s'.BindsFirst place := by
  obtain ⟨name, hplace⟩ := h
  obtain ⟨more, hmore⟩ := hgrow
  refine ⟨name, ?_⟩
  rw [← hmore, List.findIdx?_append, hplace, Option.some_or]

/-- Equations that a name stands for are told apart by their names, so by their places. -/
theorem eq_of_bindsFirst {place other : Nat} {e : Equation Float} (hplace : s.BindsFirst place)
    (hother : s.BindsFirst other) (h : s.equations.toList[place]? = some e)
    (h' : s.equations.toList[other]? = some e) : place = other := by
  have hname : ∀ {i : Nat}, s.BindsFirst i → s.equations.toList[i]? = some e →
      s.equations.toList.findIdx? (·.name? == e.name?) = some i := by
    rintro i ⟨name, hi⟩ he
    obtain ⟨hlt, hfound, -⟩ := List.findIdx?_eq_some_iff_getElem.1 hi
    obtain rfl : s.equations.toList[i] = e := (List.getElem?_eq_some_iff.1 he).2
    rw [beq_iff_eq.1 hfound, hi]
  exact Option.some.inj ((hname hplace h).symm.trans (hname hother h'))

/-- What a name resolves to is the first that binds the name. -/
theorem Reachable.bindsFirst_of_resolve (hs : s.Reachable) {name : String} {e : Equation Float}
    (h : s.resolve name = some e) :
    ∃ place, s.equations.toList.findIdx? (·.name? == some name) = some place ∧
      s.equations.toList[place]? = some e := by
  rw [hs.resolve_eq, List.find?_eq_bind_findIdx?_getElem?] at h
  exact Option.bind_eq_some_iff.1 h

/-! ## What equations refer to -/

/-- An external is the first equation of the session that binds its name. -/
theorem Reachable.external_found (hs : s.Reachable) {nodes : List Node} {e x : Equation Float}
    (h : (s.compile nodes).outcome = .ok e) (hx : x ∈ e.externals) :
    ∃ name place, x.name? = some name ∧
      s.equations.toList.findIdx? (·.name? == some name) = some place ∧
      s.equations.toList[place]? = some x := by
  obtain ⟨binding, right, es, d, branches, -, hvisits, -, rfl⟩ := compile_outcome_eq_ok_iff.1 h
  obtain ⟨name, hname, hresolve⟩ :=
    hvisits.resolved hs.namesBind (resolved_declaredBy s binding) x hx
  obtain ⟨place, hplace, hat⟩ := hs.bindsFirst_of_resolve hresolve
  exact ⟨name, place, hname, hplace, hat⟩

/-- An equation refers to different equations, each the first of its name. -/
theorem Reachable.exists_places (hs : s.Reachable) {nodes : List Node} {e : Equation Float}
    (h : (s.compile nodes).outcome = .ok e) :
    ∃ places : List Nat, places.Nodup ∧ (∀ p ∈ places, s.BindsFirst p) ∧
      places.map (s.equations.toList[·]?) = e.externals.map some := by
  have hnodup : e.externals.Nodup := by
    obtain ⟨binding, right, es, d, branches, -, hvisits, -, rfl⟩ := compile_outcome_eq_ok_iff.1 h
    exact List.Nodup.of_map _ (hvisits.nodup_externals List.nodup_nil)
  have hplaced : ∀ x ∈ e.externals, ∃ place, s.BindsFirst place ∧
      s.equations.toList.findIdx (·.name? == x.name?) = place ∧
      s.equations.toList[place]? = some x := by
    intro x hx
    obtain ⟨name, place, hname, hplace, hat⟩ := hs.external_found h hx
    refine ⟨place, ⟨name, hplace⟩, ?_, hat⟩
    rw [hname]
    exact (List.findIdx?_eq_some_iff_findIdx_eq.1 hplace).2
  refine ⟨e.externals.map fun x => s.equations.toList.findIdx (·.name? == x.name?), ?_, ?_, ?_⟩
  · refine hnodup.map_on ?_
    intro x hx y hy hsame
    obtain ⟨place, -, hplace, hat⟩ := hplaced x hx
    obtain ⟨other, -, hother, hat'⟩ := hplaced y hy
    obtain rfl : place = other := by rw [← hplace, ← hother, hsame]
    exact Option.some.inj (hat.symm.trans hat')
  · intro p hp
    obtain ⟨x, hx, rfl⟩ := List.mem_map.1 hp
    obtain ⟨place, hfirst, rfl, -⟩ := hplaced x hx
    exact hfirst
  · rw [List.map_map]
    refine List.map_congr_left fun x hx => ?_
    obtain ⟨place, -, rfl, hat⟩ := hplaced x hx
    exact hat

/-- Equations that are registered later change nothing for those before them. -/
theorem RefersBack.grow {place : Nat} {e : Equation Float} (h : s.RefersBack place e)
    (hplace : place ≤ s.equations.toList.length) {s' : Session}
    (hgrow : s.equations.toList <+: s'.equations.toList) : s'.RefersBack place e := by
  obtain ⟨places, hnodup, hbefore, hexternals⟩ := h
  refine ⟨places, hnodup, fun p hp => ?_, ?_⟩
  · exact ⟨(hbefore p hp).1, bindsFirst_append (hbefore p hp).2 hgrow⟩
  · rw [← hexternals]
    refine List.map_congr_left fun p hp => ?_
    have hlt := Nat.lt_of_lt_of_le (hbefore p hp).1 hplace
    rw [List.prefix_iff_getElem?.1 hgrow p hlt, List.getElem?_eq_getElem hlt]

theorem Reachable.refersBack (hs : s.Reachable) (place : Nat) (e : Equation Float)
    (h : s.equations.toList[place]? = some e) : s.RefersBack place e := by
  induction hs with
  | fresh config => cases h
  | @compile s nodes hs ih =>
    have hgrow := toList_compile_grow s nodes
    rcases Nat.lt_or_ge place s.equations.toList.length with hlt | hge
    · rw [List.prefix_iff_getElem?.1 hgrow place hlt, ← List.getElem?_eq_getElem] at h
      exact (ih h).grow (Nat.le_of_lt hlt) hgrow
    · rcases session_compile_cases s nodes with ⟨_, -, hsession⟩ | ⟨equation, hok, hsession⟩
      · rw [hsession, List.getElem?_eq_none hge] at h
        cases h
      · -- The new equation stands behind all that it can refer to.
        rw [hsession, toList_register, List.getElem?_append_right hge,
          List.getElem?_singleton] at h
        split at h
        · next hlast =>
          obtain rfl := Option.some.inj h
          obtain ⟨places, hnodup, hfirst, hexternals⟩ := hs.exists_places hok
          have hlength : place = s.equations.toList.length := by omega
          subst hlength
          refine RefersBack.grow ⟨places, hnodup, fun p hp => ⟨?_, hfirst p hp⟩, hexternals⟩
            (Nat.le_refl _) hgrow
          obtain ⟨name, hp⟩ := hfirst p hp
          exact (List.findIdx?_eq_some_iff_getElem.1 hp).1
        · cases h

/-- A reference goes back, so no chain of references comes back to where it started. -/
theorem not_transGen_refers
    (h : ∀ (place : Nat) (e : Equation Float), s.equations.toList[place]? = some e →
      s.RefersBack place e) (place : Nat) : ¬Relation.TransGen s.Refers place place := by
  have hback : ∀ place other, s.Refers place other → other < place := by
    rintro place other ⟨e, x, he, hx, hother, hfirst⟩
    obtain ⟨places, -, hbefore, hexternals⟩ := h place e he
    obtain ⟨p, hp, hat⟩ : ∃ p ∈ places, s.equations.toList[p]? = some x := by
      rw [← List.mem_map, hexternals]
      exact List.mem_map_of_mem hx
    obtain ⟨hlt, hfirst'⟩ := hbefore p hp
    rwa [eq_of_bindsFirst hfirst hfirst' hother hat]
  have hchain : ∀ other, Relation.TransGen s.Refers place other → other < place := by
    intro other hchain
    induction hchain with
    | single hstep => exact hback _ _ hstep
    | tail _ hstep ih => exact Nat.lt_trans (hback _ _ hstep) ih
  exact fun hcycle => Nat.lt_irrefl place (hchain place hcycle)

/-- Whatever a new session has been asked to compile, its registry only grows, nothing that fails
leaves a trace, names stand for the first equations that bind them, and references go back. -/
theorem keepsRegistry_serveAll (config : Config) (requests : List Request) :
    ((fresh config).serveAll requests).KeepsRegistry := by
  have hs := (Reachable.fresh config).serveAll requests
  generalize (fresh config).serveAll requests = s at hs
  refine ⟨toList_serveAll_grow s, fun _ _ => session_compile_of_error, ?_, hs.resolve_eq,
    hs.refersBack, not_transGen_refers hs.refersBack⟩
  intro equations error herror
  obtain ⟨compiled, rest, es, rfl, hlength, houtcome, hsession, hlist, hlast⟩ :=
    compileAll_cases s equations
  rw [herror] at hlast
  obtain ⟨nodes, behind, rfl, hfails⟩ := hlast
  exact ⟨compiled, nodes, behind, es, rfl, houtcome, hlength, hfails, hsession, hlist⟩

end Session

end Formulary
