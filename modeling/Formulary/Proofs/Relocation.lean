import Formulary.Proofs.Externals

/-!
# Walks that meet no equation

A walk that enters no external pairs nothing: all its instructions are plain. Such a walk goes the
same at any depth and behind any other declarations, as long as the names that are local to it
before are local there too, or stand for no equation.
-/

namespace Formulary

open Walk

/-! ## Plain parts of a walk -/

theorem isPlain_append {es es' : List Emission} :
    (∀ i ∈ Emission.instructions (es ++ es'), i.IsPlain) ↔
      (∀ i ∈ Emission.instructions es, i.IsPlain) ∧
        ∀ i ∈ Emission.instructions es', i.IsPlain := by
  rw [Emission.instructions_append, List.forall_mem_append]

theorem isPlain_code {f : Fragment} {es : List Emission} :
    (∀ i ∈ Emission.instructions (.instruction (.append f) :: es), i.IsPlain) ↔
      ∀ i ∈ Emission.instructions es, i.IsPlain := by
  rw [Emission.instructions_cons_instruction, List.forall_mem_cons]
  exact and_iff_right (.append f)

theorem isPlain_between {opening : Fragment} {es : List Emission} :
    (∀ i ∈ Emission.instructions (between opening es), i.IsPlain) ↔
      ∀ i ∈ Emission.instructions es, i.IsPlain := by
  rw [between, isPlain_code, isPlain_append]
  exact and_iff_left (List.forall_mem_singleton.2 (.append _))

theorem isPlain_joint (previous : Option Node) (node : Node) :
    ∀ i ∈ Emission.instructions (joint previous node), i.IsPlain := by
  rw [instructions_joint]
  split
  · exact List.forall_mem_singleton.2 (.append _)
  · exact List.forall_mem_nil _

/-- Where no external is entered, nothing is paired. -/
theorem Visits.isPlain_of_externals {s : Session} {depth : Nat} {stretch : Stretch}
    {d d' : Declared} {es : List Emission} (h : Visits s depth stretch d es d')
    (hempty : d'.externals = []) : ∀ i ∈ Emission.instructions es, i.IsPlain := by
  have hnothing : ∀ {d d' : Declared} {e : Equation Float},
      (d.declaring e).externals <+: d'.externals → d'.externals = [] → False :=
    fun hgrows hempty =>
      Declared.externals_declaring_ne_nil _ _ (List.prefix_nil.1 (hempty ▸ hgrows))
  induction h with
  | nil => exact List.forall_mem_nil _
  | cons _ hrest ihnode ihrest =>
    have hfirst := ihnode (List.prefix_nil.1 (hempty ▸ hrest.externals_grow))
    exact isPlain_append.2 ⟨isPlain_joint _ _, isPlain_append.2 ⟨hfirst, ihrest hempty⟩⟩
  | piece => exact List.forall_mem_singleton.2 (.append _)
  | name => exact List.forall_mem_singleton.2 (.append _)
  | atom hentry => exact List.forall_mem_singleton.2 (Entry.isPlain_instruction hentry)
  | reference => exact (hnothing List.prefix_rfl hempty).elim
  | application _ _ _ _ _ hbody => exact (hnothing hbody.externals_grow hempty).elim
  | derivative _ _ _ hbody => exact (hnothing hbody.externals_grow hempty).elim
  | power _ _ _ h₂ ih₁ ih₂ =>
    have hbase := ih₁ (List.prefix_nil.1 (hempty ▸ h₂.externals_grow))
    exact isPlain_between.2 (isPlain_append.2 ⟨hbase, isPlain_code.2 (ih₂ hempty)⟩)
  | fraction _ _ _ h₂ ih₁ ih₂ =>
    have hnumerator := ih₁ (List.prefix_nil.1 (hempty ▸ h₂.externals_grow))
    exact isPlain_between.2 (isPlain_append.2
      ⟨isPlain_between.2 hnumerator, isPlain_code.2 (isPlain_between.2 (ih₂ hempty))⟩)
  | angle _ _ ih => exact ih hempty
  | group _ ih => exact ih hempty
  | bars _ _ _ ih => exact isPlain_between.2 (ih hempty)
  | root _ _ ih => exact isPlain_between.2 (ih hempty)
  | sum _ _ _ ih => exact isPlain_between.2 (ih hempty)
  | integral _ _ _ _ ih => exact isPlain_between.2 (ih hempty)
  | turned _ _ _ ih => exact isPlain_between.2 (ih hempty)

/-! ## At another place -/

/-- What is local in `d` stays a variable in `d₁`. -/
def Declared.Spares (s : Session) (d d₁ : Declared) : Prop :=
  ∀ name, d.symbols.isLocal name = true →
    d₁.symbols.isLocal name = true ∨ s.resolve name = none

namespace Declared.Spares

variable {s : Session} {d d₁ : Declared}

theorem addArguments (h : Spares s d d₁) (names : List String) :
    Spares s (d.addArguments names) (d₁.addArguments names) := by
  intro name hname
  rw [symbols_addArguments, Symbols.isLocal_addArguments, Bool.or_eq_true] at hname ⊢
  rcases hname with hlocal | hmem
  · exact (h name hlocal).imp_left .inl
  · exact .inl (.inr hmem)

theorem addBound (h : Spares s d d₁) (bound : String) :
    Spares s (d.addBound bound) (d₁.addBound bound) := by
  intro name hname
  rw [symbols_addBound, Symbols.isLocal_addBound, Bool.or_eq_true] at hname ⊢
  rcases hname with hlocal | hbound
  · exact (h name hlocal).imp_left .inl
  · exact .inl (.inr hbound)

end Declared.Spares

/-- A walk with plain code goes the same at any depth, behind any declarations that spare its local
names, and enters no externals. -/
theorem Visits.relocate {s : Session} {depth : Nat} {stretch : Stretch} {d d' : Declared}
    {es : List Emission} (h : Visits s depth stretch d es d')
    (hplain : ∀ i ∈ Emission.instructions es, i.IsPlain) (depth₁ : Nat) {d₁ : Declared}
    (hspares : d.Spares s d₁) :
    ∃ es₁ d₁', Visits s depth₁ stretch d₁ es₁ d₁' ∧
      Emission.instructions es₁ = Emission.instructions es ∧ d'.Spares s d₁' ∧
      d₁'.externals = d₁.externals := by
  induction h generalizing depth₁ d₁ with
  | nil => exact ⟨[], d₁, .nil, rfl, hspares, rfl⟩
  | cons _ _ ihnode ihrest =>
    obtain ⟨hfirst, hbehind⟩ := isPlain_append.1 (isPlain_append.1 hplain).2
    obtain ⟨es₁, d₂, hnode, hes₁, hd₂, hsame⟩ := ihnode hfirst depth₁ hspares
    obtain ⟨es₂, d₃, hrest, hes₂, hd₃, hsame'⟩ := ihrest hbehind depth₁ hd₂
    exact ⟨_, d₃, .cons hnode hrest, by simp [hes₁, hes₂], hd₃, hsame'.trans hsame⟩
  | bars hclosed hoperand _ ih =>
    obtain ⟨es₁, d₂, h₁, hes₁, hrest⟩ := ih (isPlain_between.1 hplain) (depth₁ + 1) hspares
    exact ⟨_, d₂, .bars hclosed hoperand h₁, by simp [hes₁], hrest⟩
  | piece htext => exact ⟨_, d₁, .piece htext, rfl, hspares, rfl⟩
  | name hname =>
    have hname₁ := hname.elim (hspares _) .inr
    exact ⟨_, _, .name hname₁, rfl, hspares.addArguments _, rfl⟩
  | reference =>
    rw [← List.append_nil (pairing ..)] at hplain
    exact (not_isPlain_pairing hplain).elim
  | application =>
    rw [List.append_assoc] at hplain
    exact (not_isPlain_pairing hplain).elim
  | derivative =>
    rw [List.append_assoc] at hplain
    exact (not_isPlain_pairing hplain).elim
  | atom hentry => exact ⟨_, d₁, .atom hentry, rfl, hspares, rfl⟩
  | power hbase hexponent _ _ ihbase ihexponent =>
    obtain ⟨hfirst, hsecond⟩ := isPlain_append.1 (isPlain_between.1 hplain)
    obtain ⟨es₁, d₂, h₁, hes₁, hd₂, hsame⟩ := ihbase hfirst (depth₁ + 1) hspares
    obtain ⟨es₂, d₃, h₂, hes₂, hd₃, hsame'⟩ :=
      ihexponent (isPlain_code.1 hsecond) (depth₁ + 1) hd₂
    exact ⟨_, d₃, .power hbase hexponent h₁ h₂, by simp [hes₁, hes₂], hd₃, hsame'.trans hsame⟩
  | angle hbase _ ih =>
    obtain ⟨es₁, d₂, h₁, hrest⟩ := ih hplain (depth₁ + 1) hspares
    exact ⟨es₁, d₂, .angle hbase h₁, hrest⟩
  | fraction hnum hden _ _ ihnum ihden =>
    obtain ⟨hfirst, hsecond⟩ := isPlain_append.1 (isPlain_between.1 hplain)
    obtain ⟨es₁, d₂, h₁, hes₁, hd₂, hsame⟩ :=
      ihnum (isPlain_between.1 hfirst) (depth₁ + 1) hspares
    obtain ⟨es₂, d₃, h₂, hes₂, hd₃, hsame'⟩ :=
      ihden (isPlain_between.1 (isPlain_code.1 hsecond)) (depth₁ + 1) hd₂
    exact ⟨_, d₃, .fraction hnum hden h₁ h₂, by simp [hes₁, hes₂], hd₃, hsame'.trans hsame⟩
  | root hbody _ ih =>
    obtain ⟨es₁, d₂, h₁, hes₁, hrest⟩ := ih (isPlain_between.1 hplain) (depth₁ + 1) hspares
    exact ⟨_, d₂, .root hbody h₁, by simp [hes₁], hrest⟩
  | group _ ih =>
    obtain ⟨es₁, d₂, h₁, hrest⟩ := ih hplain (depth₁ + 1) hspares
    exact ⟨es₁, d₂, .group h₁, hrest⟩
  | sum hrange hoperand _ ih =>
    obtain ⟨es₁, d₂, h₁, hes₁, hrest⟩ := ih (isPlain_between.1 hplain) (depth₁ + 1)
      ((hspares.addArguments _).addBound _)
    exact ⟨_, d₂, .sum hrange hoperand h₁, by simp [hes₁], hrest⟩
  | integral hpartition hoperand hname _ ih =>
    obtain ⟨es₁, d₂, h₁, hes₁, hrest⟩ := ih (isPlain_between.1 hplain) (depth₁ + 1)
      (hspares.addBound _)
    exact ⟨_, d₂, .integral hpartition hoperand hname h₁, by simp [hes₁], hrest⟩
  | turned hturning hoperand _ ih =>
    obtain ⟨es₁, d₂, h₁, hes₁, hrest⟩ := ih (isPlain_between.1 hplain) (depth₁ + 1) hspares
    exact ⟨_, d₂, .turned hturning hoperand h₁, by simp [hes₁], hrest⟩

end Formulary
