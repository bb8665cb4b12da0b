import Formulary.Proofs.Readings
import Formulary.Proofs.Uses

/-!
# Names across equations

In a session that has come about by compiling, a name stands for an equation that binds it. So the
externals of a walk are told apart by their names, and the instructions of a walk name each by the
place it keeps.
-/

namespace Formulary

/-! ## Sessions that have come about -/

namespace Session

/-- The sessions that compiling leads to. -/
inductive Reachable : Session → Prop
  | fresh (config : Config) : Reachable (fresh config)
  | compile {s : Session} (nodes : List Node) : Reachable s → Reachable (s.compile nodes).session

/-- Every name stands for an equation that binds it. -/
def NamesBind (s : Session) : Prop :=
  ∀ name key, s.keyOf? name = some key →
    ∃ e, s.equations.get? key = some e ∧ e.name? = some name

theorem get?_register {s : Session} {key : Key (Equation Float)} {e : Equation Float}
    (h : s.equations.get? key = some e) (equation : Equation Float) :
    (s.register equation).equations.get? key = some e := by
  rw [Registry.get?_eq_getElem?] at h ⊢
  rw [toList_register, List.getElem?_append_left (List.getElem?_eq_some_iff.1 h).1]
  exact h

/-- What a name stands for it keeps; a new name stands for the equation registered. -/
theorem keyOf?_register (s : Session) (equation : Equation Float) (name : String) :
    (s.register equation).keyOf? name =
      (s.keyOf? name).or (if equation.name? = some name then some s.equations.nextKey else none) := by
  cases hequation : equation.name? with
  | none =>
    have hnames : (s.register equation).names = s.names := by simp [Session.register, hequation]
    rw [keyOf?, hnames, if_neg (by simp), Option.or_none]
    rfl
  | some bound =>
    by_cases hknown : (s.keyOf? bound).isSome = true
    · have hnames : (s.register equation).names = s.names := by
        simp [Session.register, hequation, hknown]
      rw [keyOf?, hnames, ← keyOf?]
      by_cases hbound : bound = name
      · obtain ⟨key, hkey⟩ := Option.isSome_iff_exists.1 hknown
        rw [← hbound, hkey, Option.some_or]
      · rw [if_neg (by simpa using hbound), Option.or_none]
    · have hnames : (s.register equation).names = (bound, s.equations.nextKey) :: s.names := by
        simp [Session.register, hequation, hknown]
      rw [keyOf?, hnames, List.lookup_cons]
      by_cases hbound : name = bound
      · subst hbound
        have hnone : s.keyOf? name = none := by simpa using hknown
        simp [hnone]
      · have hother : (name == bound) = false := by simpa using hbound
        rw [hother, if_neg (by simpa using Ne.symm hbound), Option.or_none]
        rfl

theorem NamesBind.register {s : Session} (h : s.NamesBind) (equation : Equation Float) :
    (s.register equation).NamesBind := by
  intro name key hkey
  rw [keyOf?_register, Option.or_eq_some_iff] at hkey
  rcases hkey with hkey | ⟨-, hkey⟩
  · obtain ⟨e, he, hname⟩ := h name key hkey
    exact ⟨e, get?_register he equation, hname⟩
  · split at hkey
    · next hequation =>
      obtain rfl := Option.some.inj hkey
      exact ⟨equation, Registry.get?_insert_nextKey .., hequation⟩
    · cases hkey

theorem session_compile_of_ok {s : Session} {nodes : List Node} {equation : Equation Float}
    (h : (s.compile nodes).outcome = .ok equation) :
    (s.compile nodes).session = s.register equation := by
  rcases hassemble : s.assemble nodes with ⟨es, error | e⟩
  · simp [compile, hassemble] at h
  · obtain rfl : e = equation := by simpa [compile, hassemble] using h
    simp [compile, hassemble]

theorem emissions_compile_of_ok {s : Session} {nodes : List Node} {equation : Equation Float}
    (h : (s.compile nodes).outcome = .ok equation) :
    (s.compile nodes).emissions = (s.assemble nodes).1 ++ [.frozen equation] := by
  rcases hassemble : s.assemble nodes with ⟨es, error | e⟩
  · simp [compile, hassemble] at h
  · obtain rfl : e = equation := by simpa [compile, hassemble] using h
    simp [compile, hassemble]

/-- What is emitted for an equation that compiles is what the walk over its right side emits. -/
theorem instruction_mem_emissions {s : Session} {nodes right : List Node}
    {binding : Option Binding} {es : List Emission} {d : Declared} {equation : Equation Float}
    (hsides : splitSides nodes = .ok (binding, right))
    (hvisits : Visits s 0 (.siblings none right) (declaredBy binding) es d)
    (h : (s.compile nodes).outcome = .ok equation) (i : Instruction) :
    .instruction i ∈ (s.compile nodes).emissions ↔ i ∈ Emission.instructions es := by
  rw [emissions_compile_of_ok h, assemble_of_visits hsides hvisits, Emission.instructions,
    List.mem_filterMap]
  constructor
  · intro hmem
    rcases List.mem_append.1 hmem with hmem | hmem
    · exact ⟨_, hmem, rfl⟩
    · cases List.mem_singleton.1 hmem
  · rintro ⟨emission, hmem, hemission⟩
    cases emission with
    | instruction j =>
      obtain rfl := Option.some.inj hemission
      exact List.mem_append_left _ hmem
    | _ => cases hemission

theorem session_compile_of_error {s : Session} {nodes : List Node} {error : CompileError}
    (h : (s.compile nodes).outcome = .error error) : (s.compile nodes).session = s := by
  rcases hassemble : s.assemble nodes with ⟨es, error | e⟩
  · simp [compile, hassemble]
  · simp [compile, hassemble] at h

theorem Reachable.namesBind {s : Session} (h : s.Reachable) : s.NamesBind := by
  induction h with
  | fresh config =>
    intro name key hkey
    cases hkey
  | @compile s nodes _ ih =>
    cases houtcome : (s.compile nodes).outcome with
    | error error =>
      rw [session_compile_of_error houtcome]
      exact ih
    | ok equation =>
      rw [session_compile_of_ok houtcome]
      exact ih.register equation

theorem NamesBind.name?_of_resolve {s : Session} (h : s.NamesBind) {name : String}
    {e : Equation Float} (hresolve : s.resolve name = some e) : e.name? = some name := by
  obtain ⟨key, hkey, he⟩ := Option.bind_eq_some_iff.1 hresolve
  obtain ⟨e', he', hname⟩ := h name key hkey
  obtain rfl : e = e' := Option.some.inj (he.symm.trans he')
  exact hname

end Session

/-! ## The places of externals -/

namespace Declared

/-- Every external is what its name stands for. -/
def Resolved (s : Session) (d : Declared) : Prop :=
  ∀ e ∈ d.externals, ∃ name, e.name? = some name ∧ s.resolve name = some e

variable {s : Session} {d : Declared} {equation : Equation Float} {name : String}

theorem Resolved.declaring (h : d.Resolved s) (hname : equation.name? = some name)
    (hresolve : s.resolve name = some equation) : (d.declaring equation).Resolved s := by
  intro e he
  unfold Declared.declaring at he
  split at he
  · exact h e he
  · rcases List.mem_append.1 he with he | he
    · exact h e he
    · obtain rfl := List.mem_singleton.1 he
      exact ⟨name, hname, hresolve⟩

theorem externals_declaring_grow (d : Declared) (equation : Equation Float) :
    d.externals <+: (d.declaring equation).externals := by
  unfold declaring
  split
  · exact List.prefix_rfl
  · exact List.prefix_append ..

theorem externals_declaring_ne_nil (d : Declared) (equation : Equation Float) :
    (d.declaring equation).externals ≠ [] := by
  unfold declaring
  split
  · next hfound =>
    intro hempty
    rw [hempty] at hfound
    cases hfound
  · simp

/-- The place of an equation is the first one that has its name. -/
theorem findIdx_externals {externals : List (Equation Float)}
    (hgrows : (d.declaring equation).externals <+: externals) :
    externals.findIdx (·.name? == equation.name?) = d.placeOf equation := by
  obtain ⟨more, rfl⟩ := hgrows
  unfold declaring placeOf
  cases hplace : d.externals.findIdx? (·.name? == equation.name?) with
  | some i =>
    obtain ⟨hlt, hi, -⟩ := List.findIdx?_eq_some_iff_getElem.1 hplace
    rw [List.findIdx?_eq_some_iff_findIdx_eq] at hplace
    simp [List.findIdx_append, hplace.1, hplace.2]
  | none =>
    have hnone := List.findIdx_eq_length.2 (List.findIdx?_eq_none_iff.1 hplace)
    simp [List.findIdx_append, hnone, List.findIdx_cons]

/-- An equation of the name stands at the place of an equation that is declared. -/
theorem exists_at_place (d : Declared) (equation : Equation Float) :
    ∃ e, (d.declaring equation).externals[d.placeOf equation]? = some e ∧
      e.name? = equation.name? := by
  have hmem : ∃ e ∈ (d.declaring equation).externals, (e.name? == equation.name?) = true := by
    unfold declaring
    split
    · next hfound =>
      rw [List.findIdx?_isSome, List.any_eq_true] at hfound
      exact hfound
    · exact ⟨equation, by simp, by simp⟩
  have hlt := List.findIdx_lt_length.2 hmem
  have hfound := List.findIdx_getElem (w := hlt)
  have hplace := findIdx_externals (List.prefix_rfl (l := (d.declaring equation).externals))
  rw [← hplace]
  exact ⟨_, List.getElem?_eq_getElem hlt, beq_iff_eq.1 hfound⟩

theorem getElem?_placeOf (h : d.Resolved s) (hname : equation.name? = some name)
    (hresolve : s.resolve name = some equation) :
    (d.declaring equation).externals[d.placeOf equation]? = some equation := by
  obtain ⟨e, he, hfound⟩ := exists_at_place d equation
  obtain ⟨name', hname', hresolve'⟩ := h.declaring hname hresolve e (List.mem_of_getElem? he)
  rw [hname', hname] at hfound
  obtain rfl := Option.some.inj hfound
  rw [he, ← hresolve', hresolve]

end Declared

/-- A left side declares no externals. -/
theorem Session.resolved_declaredBy (s : Session) (binding : Option Binding) :
    (declaredBy binding).Resolved s := by
  intro e he
  cases he

/-- An external keeps its place. -/
theorem Declared.getElem?_of_grow {s : Session} {d : Declared} {equation : Equation Float}
    {name : String} (hs : s.NamesBind) (hd : d.Resolved s)
    (hresolve : s.resolve name = some equation) {externals : List (Equation Float)}
    (hgrows : (d.declaring equation).externals <+: externals) :
    externals[d.placeOf equation]? = some equation := by
  have hfound := getElem?_placeOf hd (hs.name?_of_resolve hresolve) hresolve
  obtain ⟨hlt, hget⟩ := List.getElem?_eq_some_iff.1 hfound
  rw [List.prefix_iff_getElem?.1 hgrows _ hlt, hget]

/-- A name has one place: that of the equation it stands for. -/
theorem Declared.findIdx_eq_placeOf_iff {s : Session} {d : Declared} {equation : Equation Float}
    {name : String} (hs : s.NamesBind) (hd : d.Resolved s)
    (hresolve : s.resolve name = some equation) {externals : List (Equation Float)}
    (hgrows : (d.declaring equation).externals <+: externals) (other : String) :
    externals.findIdx (·.name? == some other) = d.placeOf equation ↔ name = other := by
  have hname := hs.name?_of_resolve hresolve
  constructor
  · intro hplace
    have hget := getElem?_of_grow hs hd hresolve hgrows
    rw [← hplace] at hget
    obtain ⟨hlt, hget⟩ := List.getElem?_eq_some_iff.1 hget
    have hfound := List.findIdx_getElem (w := hlt)
    rw [hget, hname, beq_iff_eq] at hfound
    exact Option.some.inj hfound
  · rintro rfl
    rw [← hname]
    exact findIdx_externals hgrows

/-- What stands at the place of a name is what the name stands for. -/
theorem Declared.Resolved.eq_of_findIdx {s : Session} {d : Declared} {name : String}
    {bound equation : Equation Float} (hd : d.Resolved s) (hresolve : s.resolve name = some bound)
    (h : d.externals[d.externals.findIdx (·.name? == some name)]? = some equation) :
    equation = bound := by
  obtain ⟨hlt, hget⟩ := List.getElem?_eq_some_iff.1 h
  have hfound := List.findIdx_getElem (w := hlt)
  rw [hget, beq_iff_eq] at hfound
  obtain ⟨other, hname, hother⟩ := hd equation (List.mem_of_getElem? h)
  obtain rfl : other = name := Option.some.inj (hname.symm.trans hfound)
  exact Option.some.inj (hother.symm.trans hresolve)

/-! ## What is emitted -/

section Walk

variable {s : Session} {depth : Nat} {stretch : Stretch} {d d' : Declared} {es : List Emission}

/-- What holds between the names declared before and after each step of a walk holds between those
before and after the walk. -/
theorem Visits.declares {R : Declared → Declared → Prop} (refl : ∀ d, R d d)
    (trans : ∀ d₁ d₂ d₃, R d₁ d₂ → R d₂ d₃ → R d₁ d₃)
    (arguments : ∀ d names, R d (d.addArguments names)) (bound : ∀ d name, R d (d.addBound name))
    (declaring : ∀ d name equation, s.resolve name = some equation → R d (d.declaring equation))
    (h : Visits s depth stretch d es d') : R d d' := by
  induction h with
  | nil => exact refl _
  | cons _ _ ihnode ihrest => exact trans _ _ _ ihnode ihrest
  | bars _ _ _ ih => exact ih
  | piece => exact refl _
  | name => exact arguments ..
  | reference _ hresolve =>
    exact trans _ _ _ (declaring _ _ _ hresolve) (arguments ..)
  | application _ hresolve _ _ _ _ ih =>
    exact trans _ _ _ (declaring _ _ _ hresolve) (trans _ _ _ ih (arguments ..))
  | atom => exact refl _
  | power _ _ _ _ ih₁ ih₂ => exact trans _ _ _ ih₁ ih₂
  | angle _ _ ih => exact ih
  | derivative hresolve _ _ _ ih =>
    have hresolve := Option.eq_some_of_filter_eq_some hresolve
    exact trans _ _ _ (declaring _ _ _ hresolve) (trans _ _ _ ih (arguments ..))
  | fraction _ _ _ _ ih₁ ih₂ => exact trans _ _ _ ih₁ ih₂
  | root _ _ ih => exact ih
  | group _ ih => exact ih
  | sum _ _ _ ih => exact trans _ _ _ (trans _ _ _ (arguments ..) (bound ..)) ih
  | integral _ _ _ _ ih => exact trans _ _ _ (bound ..) ih
  | turned _ _ _ ih => exact ih

/-- Externals are only ever added. -/
theorem Visits.externals_grow (h : Visits s depth stretch d es d') :
    d.externals <+: d'.externals := by
  apply h.declares (R := fun d d' => d.externals <+: d'.externals)
  · intro d
    exact List.prefix_rfl
  · intro d₁ d₂ d₃ h₁ h₂
    exact h₁.trans h₂
  · intro d names
    exact List.prefix_rfl
  · intro d name
    exact List.prefix_rfl
  · intro d name equation _
    exact Declared.externals_declaring_grow d equation

/-- Externals stay what their names stand for. -/
theorem Visits.resolved (hs : s.NamesBind) (h : Visits s depth stretch d es d') :
    d.Resolved s → d'.Resolved s := by
  apply h.declares (R := fun d d' => d.Resolved s → d'.Resolved s)
  · intro d hd
    exact hd
  · intro d₁ d₂ d₃ h₁ h₂ hd
    exact h₂ (h₁ hd)
  · intro d names hd
    exact hd
  · intro d name hd
    exact hd
  · intro d name equation hresolve hd
    exact hd.declaring (hs.name?_of_resolve hresolve) hresolve

/-- Externals are entered once. -/
theorem Visits.nodup_externals (h : Visits s depth stretch d es d')
    (hd : (d.externals.map Equation.name?).Nodup) :
    (d'.externals.map Equation.name?).Nodup := by
  refine h.declares (R := fun d d' => (d.externals.map Equation.name?).Nodup →
    (d'.externals.map Equation.name?).Nodup) (fun _ => id) (fun _ _ _ h h' hd => h' (h hd))
    (fun _ _ => id) (fun _ _ => id) ?_ hd
  intro d other equation _ hd
  unfold Declared.declaring
  split
  · exact hd
  · next hnew =>
    rw [List.map_append, List.nodup_append]
    refine ⟨hd, List.pairwise_singleton _ _, ?_⟩
    rintro _ hmem _ hequation rfl
    obtain rfl := List.mem_singleton.1 hequation
    obtain ⟨e, he, hname⟩ := List.mem_map.1 hmem
    rw [List.findIdx?_isSome, List.any_eq_true] at hnew
    exact hnew ⟨e, he, by simp [hname]⟩

/-- A local name stays local. -/
theorem Visits.isLocal_grow (h : Visits s depth stretch d es d') {name : String} :
    d.symbols.isLocal name = true → d'.symbols.isLocal name = true := by
  apply h.declares
    (R := fun d d' => d.symbols.isLocal name = true → d'.symbols.isLocal name = true)
  · intro d hd
    exact hd
  · intro d₁ d₂ d₃ h₁ h₂ hd
    exact h₂ (h₁ hd)
  · intro d names hd
    rw [Declared.symbols_addArguments, Symbols.isLocal_addArguments, hd, Bool.true_or]
  · intro d other hd
    rw [Declared.symbols_addBound, Symbols.isLocal_addBound, hd, Bool.true_or]
  · intro d other equation _ hd
    rw [Declared.symbols_declaring, hd]

/-- What a fragment names is there: names are known, and a branch of an external stands at its place
and needs no other names. -/
def Fragment.IsLinked (known : String → Prop) (externals : List (Equation Float)) :
    Fragment → Prop
  | .var name => known name
  | .sum index lower upper => ∀ name ∈ (SumRange.mk index lower upper).names, known name
  | .reference external branch => ∃ e, externals[external]? = some e ∧ branch < e.branchCount ∧
      (∀ name ∈ e.freeArguments, known name) ∧ e.isFunction = false
  | .apply external branch | .derivative external branch _ =>
      ∃ e, externals[external]? = some e ∧ branch < e.branchCount ∧
        ∀ name ∈ e.freeArguments, known name
  | _ => True

/-- What a walk emits: code, choices of a sign, and what becomes of its externals. -/
inductive Instruction.IsLinked (known : String → Prop) (externals : List (Equation Float)) :
    Instruction → Prop
  | code {fragment : Fragment} : fragment.use? = none → fragment.IsLinked known externals →
      IsLinked known externals (.append fragment)
  | var {name : String} : known name → IsLinked known externals (.append (.var name))
  | sign : IsLinked known externals (.choose [.operator .add, .operator .subtract])
  | pair {external : Nat} {e : Equation Float} : externals[external]? = some e →
      IsLinked known externals (.pair external e.branchCount)
  | reference {external : Nat} {e : Equation Float} : externals[external]? = some e →
      (∀ name ∈ e.freeArguments, known name) → e.isFunction = false →
        IsLinked known externals (.appendPaired external (.reference external))
  | application {external : Nat} {e : Equation Float} : externals[external]? = some e →
      (∀ name ∈ e.freeArguments, known name) →
        IsLinked known externals (.appendPaired external (.apply external))
  | derivative {external : Nat} {e : Equation Float} (step : Float) :
      externals[external]? = some e → (∀ name ∈ e.freeArguments, known name) →
        IsLinked known externals (.appendPaired external (.derivative external · step))

/-- As `IsLinked`, with names left aside. -/
inductive Instruction.IsEmitted (externals : List (Equation Float)) : Instruction → Prop
  | code {fragment : Fragment} :
      fragment.use? = none → IsEmitted externals (.append fragment)
  | var (name : String) : IsEmitted externals (.append (.var name))
  | sign : IsEmitted externals (.choose [.operator .add, .operator .subtract])
  | pair {external : Nat} {equation : Equation Float} :
      externals[external]? = some equation →
        IsEmitted externals (.pair external equation.branchCount)
  | reference {external : Nat} {equation : Equation Float} :
      externals[external]? = some equation →
        IsEmitted externals (.appendPaired external (.reference external))
  | opening {external : Nat} {make : Nat → Fragment} :
      (∀ branch, (make branch).use? = none) → IsEmitted externals (.appendPaired external make)

/-- An operator stands for a choice of sign or for code that names nothing. -/
theorem Entry.instruction_cases {symbol : String} {entry : Entry}
    (h : Entry.ofSymbol? symbol = some entry) :
    entry.instruction = .choose [.operator .add, .operator .subtract] ∨
      ∃ fragment : Fragment, fragment.use? = none ∧
        (∀ known externals, fragment.IsLinked known externals) ∧
          entry.instruction = .append fragment := by
  obtain ⟨mark, _, hmark⟩ := Option.bind_eq_some_iff.1 h
  cases mark with
  | equality => cases hmark
  | plusMinus =>
    obtain rfl := Option.some.inj hmark
    exact .inl rfl
  | _ =>
    obtain rfl := Option.some.inj hmark
    refine .inr ⟨_, rfl, ?_, rfl⟩
    intro known externals
    trivial

theorem Walk.isLinked_between {known : String → Prop} {externals : List (Equation Float)}
    {opening : Fragment} {es : List Emission} (huse : opening.use? = none)
    (hopening : opening.IsLinked known externals)
    (h : ∀ i ∈ Emission.instructions es, i.IsLinked known externals) :
    ∀ i ∈ Emission.instructions (between opening es), i.IsLinked known externals := by
  rw [instructions_between]
  refine List.forall_mem_cons.2 ⟨.code huse hopening, List.forall_mem_append.2 ⟨h, ?_⟩⟩
  exact List.forall_mem_singleton.2 (.code rfl trivial)

/-- Whatever a walk names has a place or is known when it has ended. -/
theorem Visits.isLinked (hs : s.NamesBind) (h : Visits s depth stretch d es d')
    (hd : d.Resolved s) {known : String → Prop} {externals : List (Equation Float)}
    (hknown : ∀ name, d'.symbols.isLocal name = true → known name)
    (hgrows : d'.externals <+: externals) :
    ∀ i ∈ Emission.instructions es, i.IsLinked known externals := by
  have hadded : ∀ {d : Declared} {names : List String},
      (∀ name, (d.addArguments names).symbols.isLocal name = true → known name) →
        (∀ name, d.symbols.isLocal name = true → known name) ∧ ∀ name ∈ names, known name := by
    intro d names hall
    simp only [Declared.symbols_addArguments, Symbols.isLocal_addArguments, Bool.or_eq_true,
      List.contains_eq_mem, decide_eq_true_eq] at hall
    exact ⟨fun name hname => hall name (.inl hname), fun name hname => hall name (.inr hname)⟩
  have happlied : ∀ {d : Declared} {e : Equation Float} {es : List Emission}
      (make : Nat → Nat → Fragment), externals[d.placeOf e]? = some e →
      (Instruction.appendPaired (d.placeOf e) (make (d.placeOf e))).IsLinked known externals →
      ∀ warnings, Emission.instructions warnings = [] →
      (∀ i ∈ Emission.instructions es, i.IsLinked known externals) →
      ∀ i ∈ Emission.instructions (Walk.pairing d e make ++ es ++
        .instruction (.append .close) :: warnings), i.IsLinked known externals := by
    intro d e es make hexternal hmake warnings hwarnings hes
    rw [Emission.instructions_append, Emission.instructions_append,
      Emission.instructions_cons_instruction, hwarnings]
    refine List.forall_mem_append.2 ⟨List.forall_mem_append.2 ⟨?_, hes⟩,
      List.forall_mem_singleton.2 (.code rfl trivial)⟩
    exact List.forall_mem_cons.2 ⟨.pair hexternal, List.forall_mem_singleton.2 hmake⟩
  induction h with
  | nil => simp
  | @cons _ _ previous node _ _ _ _ _ _ hnode hrest ihnode ihrest =>
    have hjoint : ∀ i ∈ Emission.instructions (Walk.joint previous node),
        i.IsLinked known externals := by
      rw [Walk.instructions_joint]
      split
      · exact List.forall_mem_singleton.2 (.code rfl trivial)
      · simp
    rw [Emission.instructions_append, Emission.instructions_cons_visit,
      Emission.instructions_append]
    exact List.forall_mem_append.2 ⟨hjoint, List.forall_mem_append.2
      ⟨ihnode hd (fun name hname => hknown name (hrest.isLocal_grow hname))
        (hrest.externals_grow.trans hgrows),
      ihrest (hnode.resolved hs hd) hknown hgrows⟩⟩
  | bars _ _ _ ih => exact Walk.isLinked_between rfl trivial (ih hd hknown hgrows)
  | piece => exact List.forall_mem_singleton.2 (.code rfl trivial)
  | name =>
    exact List.forall_mem_singleton.2 (.var ((hadded hknown).2 _ (List.mem_singleton_self _)))
  | @reference _ _ _ d e _ hresolve hvariable =>
    have hexternal := Declared.getElem?_of_grow hs hd hresolve hgrows
    have hfree : ∀ name ∈ e.freeArguments, known name := fun name hname =>
      (hadded hknown).2 name (List.mem_of_mem_drop hname)
    exact List.forall_mem_cons.2 ⟨.pair hexternal,
      List.forall_mem_singleton.2 (.reference hexternal hfree hvariable)⟩
  | application _ hresolve _ _ _ hbody ih =>
    obtain ⟨hknown, hfree⟩ := hadded hknown
    have hexternal := Declared.getElem?_of_grow hs hd hresolve (hbody.externals_grow.trans hgrows)
    exact happlied .apply hexternal (.application hexternal hfree) [] rfl
      (ih (hd.declaring (hs.name?_of_resolve hresolve) hresolve) hknown hgrows)
  | atom hentry =>
    refine List.forall_mem_singleton.2 ?_
    rcases Entry.instruction_cases hentry with hsign | ⟨fragment, huse, hlinked, hcode⟩
    · rw [hsign]
      exact .sign
    · rw [hcode]
      exact .code huse (hlinked known externals)
  | power _ _ h₁ h₂ ih₁ ih₂ =>
    have hknown₁ := fun name hname => hknown name (h₂.isLocal_grow hname)
    refine Walk.isLinked_between rfl trivial ?_
    rw [Emission.instructions_append, Emission.instructions_cons_instruction]
    exact List.forall_mem_append.2 ⟨ih₁ hd hknown₁ (h₂.externals_grow.trans hgrows),
      List.forall_mem_cons.2 ⟨.code rfl trivial, ih₂ (h₁.resolved hs hd) hknown hgrows⟩⟩
  | angle _ _ ih => exact ih hd hknown hgrows
  | derivative hresolve _ _ hbody ih =>
    obtain ⟨hknown, hfree⟩ := hadded hknown
    have hresolve := Option.eq_some_of_filter_eq_some hresolve
    have hexternal := Declared.getElem?_of_grow hs hd hresolve (hbody.externals_grow.trans hgrows)
    exact happlied (.derivative · · s.config.step) hexternal
      (.derivative s.config.step hexternal hfree) [_] rfl
      (ih (hd.declaring (hs.name?_of_resolve hresolve) hresolve) hknown hgrows)
  | fraction _ _ h₁ h₂ ih₁ ih₂ =>
    have hknown₁ := fun name hname => hknown name (h₂.isLocal_grow hname)
    refine Walk.isLinked_between rfl trivial ?_
    rw [Emission.instructions_append, Emission.instructions_cons_instruction]
    exact List.forall_mem_append.2
      ⟨Walk.isLinked_between rfl trivial (ih₁ hd hknown₁ (h₂.externals_grow.trans hgrows)),
        List.forall_mem_cons.2 ⟨.code rfl trivial,
          Walk.isLinked_between rfl trivial (ih₂ (h₁.resolved hs hd) hknown hgrows)⟩⟩
  | root _ _ ih => exact Walk.isLinked_between rfl trivial (ih hd hknown hgrows)
  | group _ ih => exact ih hd hknown hgrows
  | @sum _ _ _ _ d _ range _ _ _ hbody ih =>
    have hlimits : ∀ name ∈ range.names, known name := by
      intro name hname
      apply hknown name (hbody.isLocal_grow _)
      rw [Declared.symbols_addBound, Symbols.isLocal_addBound, Declared.symbols_addArguments,
        Symbols.isLocal_addArguments]
      simp [hname]
    exact Walk.isLinked_between rfl hlimits (ih hd hknown hgrows)
  | integral _ _ _ _ ih => exact Walk.isLinked_between rfl trivial (ih hd hknown hgrows)
  | turned _ _ _ ih => exact Walk.isLinked_between rfl trivial (ih hd hknown hgrows)

theorem Visits.isEmitted (hs : s.NamesBind) (h : Visits s depth stretch d es d')
    (hd : d.Resolved s) {externals : List (Equation Float)}
    (hgrows : d'.externals <+: externals) :
    ∀ i ∈ Emission.instructions es, i.IsEmitted externals := by
  intro i hi
  have hlinked : i.IsLinked (fun _ => True) externals :=
    h.isLinked hs hd (fun _ _ => trivial) hgrows i hi
  cases hlinked with
  | code huse _ => exact .code huse
  | var _ => exact .var _
  | sign => exact .sign
  | pair hexternal => exact .pair hexternal
  | reference hexternal _ _ => exact .reference hexternal
  | application => exact .opening fun _ => rfl
  | derivative => exact .opening fun _ => rfl

end Walk

end Formulary
