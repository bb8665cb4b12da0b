import Formulary.Proofs.Arguments
import Formulary.Proofs.Paraphrase.Compilation

/-!
# Numbers in pieces and signs in other spellings

An equation does not depend on how its numbers are cut into pieces, nor on which spelling of a sign
is used, in whatever place and at whatever depth.
-/

namespace Formulary

namespace Paraphrase

section SameNames

variable {p : Paraphrase}

mutual

/-- Nothing has to be changed. -/
theorem Relates.refl (hname : p.name = id) (hatom : ∀ symbol, p.atom symbol symbol) :
    (node : Node) → p.Relates node node
  | .literal text => .literal text
  | .var name => by
    have hvar := Relates.var (p := p) name
    rwa [hname] at hvar
  | .atom symbol => .atom (hatom symbol)
  | .power base exponent => .power (.refl hname hatom base) (.refl hname hatom exponent)
  | .angle base => .angle (.refl hname hatom base)
  | .prime base => .prime (.refl hname hatom base)
  | .fraction numerator denominator =>
    .fraction (.refl hname hatom numerator) (.refl hname hatom denominator)
  | .root body => .root (.refl hname hatom body)
  | .group body => .group (.refl hname hatom body)
  | .named operator lower upper =>
    .named operator (.refl hname hatom lower) (.refl hname hatom upper)

theorem RelatesAll.refl (hname : p.name = id) (hatom : ∀ symbol, p.atom symbol symbol) :
    (nodes : List Node) → p.RelatesAll nodes nodes
  | [] => .nil
  | node :: rest => .cons (.refl hname hatom node) (.refl hname hatom rest)

theorem RelatesLimit.refl (hname : p.name = id) (hatom : ∀ symbol, p.atom symbol symbol) :
    (limit : Option (List Node)) → p.RelatesLimit limit limit
  | none => .none
  | some nodes => .some (.refl hname hatom nodes)

end

/-- Where names stay, so does everything. -/
theorem answer_eq (hname : p.name = id) (s : Session) {nodes nodes' : List Node}
    (h : p.RelatesAll nodes nodes') :
    (s.compile nodes').answer = (s.compile nodes).answer ∧
      (s.compile nodes').warnings.length = (s.compile nodes).warnings.length := by
  have hcompile := compile_related s h
  rw [hname, Session.rename_id] at hcompile
  have hequation : Equation.rename id = (id : Equation Float → Equation Float) :=
    funext Equation.rename_id
  have hanswer := hcompile.answer
  rw [hequation, Except.map_id] at hanswer
  exact ⟨hanswer, hcompile.length_warnings⟩

end SameNames

end Paraphrase

/-- An equation that is refused for no cause is given. -/
theorem Compilation.outcome_of_answer {c c' : Compilation (Equation Float)} {e : Equation Float}
    (h : c'.answer = c.answer) (hc : c.outcome = .ok e) : c'.outcome = .ok e := by
  rw [answer, answer, hc] at h
  cases houtcome : c'.outcome with
  | error error =>
    rw [houtcome] at h
    cases h
  | ok e' =>
    rw [houtcome] at h
    cases h
    rfl

namespace Session

/-- Numbers may be cut in two anywhere among siblings, in limits too: the outcome and the number of
warnings stay the same. -/
theorem compile_split_numbers (s : Session) {nodes nodes' : List Node}
    (h : Paraphrase.splitting.RelatesAll nodes nodes') :
    (s.compile nodes').answer = (s.compile nodes).answer ∧
      (s.compile nodes').warnings.length = (s.compile nodes).warnings.length :=
  Paraphrase.answer_eq rfl s h

/-- In `Σ_{i=12}^{n} √(12 i)` the number is cut in the limit and under the root. -/
theorem compile_split_limit : ∃ equation : Equation Float,
    ((fresh {}).compile [.named .sum (some [.var "i", .atom "=", .literal "12"]) (some [.var "n"]),
      .root [.literal "12", .var "i"]]).outcome = .ok equation ∧
    ((fresh {}).compile [.named .sum (some [.var "i", .atom "=", .literal "1", .literal "2"])
        (some [.var "n"]), .root [.literal "1", .literal "2", .var "i"]]).outcome =
      .ok equation := by
  have hnumber : Decimal.float? "12" = some (Decimal.Literal.finite false 12 0).toFloat := by
    have hliteral : Decimal.Literal.parse? "12".toList = some (.finite false 12 0) := by decide
    rw [Decimal.float?, hliteral, Option.map_some]
  have hrange : SumRange.ofLimits (some [.var "i", .atom "=", .literal "12"]) (some [.var "n"]) =
      .ok ⟨"i", .number (Decimal.Literal.finite false 12 0).toFloat, .var "n"⟩ := by
    have hlower : Node.bound? [.literal "12"] =
        some (.number (Decimal.Literal.finite false 12 0).toFloat) := by
      have htext : Node.signedText? [.literal "12"] = some "12" := by decide
      rw [Node.bound?, Node.ungrouped]
      · simp [htext, hnumber]
      · simp
    have hupper : Node.bound? [.var "n"] = some (.var "n") := by
      simp [Node.bound?, Node.ungrouped]
    have hequality : (Node.atom "=").isEquality = true := by decide
    simp [SumRange.ofLimits, hequality, hlower, hupper]
  have hread : readBranches [.append (.sum "i"
        (.number (Decimal.Literal.finite false 12 0).toFloat) (.var "n")),
      .append (.call .squareRoot), .append (.number "12"), .append (.operator .multiply),
      .append (.var "i"), .append .close, .append .close] =
      .ok [.sum "i" (.number (Decimal.Literal.finite false 12 0).toFloat) (.var "n")
        (.call .squareRoot [.binary .multiply
          (.number (Decimal.Literal.finite false 12 0).toFloat) (.var "i")])] := by
    refine readBranches_single rfl (Expression.parse_eq_ok_iff.2 ?_)
    have hproduct := Expression.IsProduct.more (.signed (.operand (.number hnumber)))
      (o := .multiply) rfl (.operand (.var "i"))
    have hroot := Expression.IsOperand.call .squareRoot (.some (.last (.product hproduct))) rfl
    exact .product (.signed (.operand (.sum "i" _ _ (.product (.signed (.operand hroot))))))
  have hvisits : Visits (fresh {}) 0 (.siblings none
      [.named .sum (some [.var "i", .atom "=", .literal "12"]) (some [.var "n"]),
        .root [.literal "12", .var "i"]]) (declaredBy none) _ _ :=
    .cons (.sum hrange (by decide) (.cons (.root (by decide) (.cons (.piece (by decide))
      (.cons (.name (.inl rfl)) .nil))) .nil)) .nil
  have hcompile := compile_outcome_eq_ok_iff.2
    ⟨none, _, _, _, _, splitSides_eq_none (by decide), hvisits, hread, rfl⟩
  have hsplit : Paraphrase.splitting.split "1" "2" := ⟨by decide, by decide, by decide⟩
  have hnodes : Paraphrase.splitting.RelatesAll
      [.named .sum (some [.var "i", .atom "=", .literal "12"]) (some [.var "n"]),
        .root [.literal "12", .var "i"]]
      [.named .sum (some [.var "i", .atom "=", .literal "1", .literal "2"]) (some [.var "n"]),
        .root [.literal "1", .literal "2", .var "i"]] :=
    .cons (.named .sum (.some (.cons (.var "i") (.cons (.atom rfl) (.split hsplit .nil))))
      (.refl rfl (fun _ => rfl) _))
      (.cons (.root (.split hsplit (.refl rfl (fun _ => rfl) _))) .nil)
  exact ⟨_, hcompile, Compilation.outcome_of_answer
    (compile_split_numbers (fresh {}) hnodes).1 hcompile⟩

/-- Signs may be spelled otherwise anywhere: the outcome and the number of warnings stay the
same. -/
theorem compile_respelled (s : Session) {nodes nodes' : List Node}
    (h : Paraphrase.respelling.RelatesAll nodes nodes') :
    (s.compile nodes').answer = (s.compile nodes).answer ∧
      (s.compile nodes').warnings.length = (s.compile nodes).warnings.length :=
  Paraphrase.answer_eq rfl s h

/-- In `sin(b ± c) × a` every sign is spelled otherwise. -/
theorem compile_respelled_operand : ∃ equation : Equation Float, equation.branchCount = 2 ∧
    ((fresh {}).compile [.named .sin none none, .atom "(", .var "b", .atom "±", .var "c",
      .atom ")", .atom "×", .var "a"]).outcome = .ok equation ∧
    ((fresh {}).compile [.named .sin none none, .atom "\\left", .var "b", .atom "\\pm", .var "c",
      .atom "\\right", .atom "*", .var "a"]).outcome = .ok equation := by
  have hread : readBranches [.append (.call .sine), .append .openParen, .append (.var "b"),
      .choose [.operator .add, .operator .subtract], .append (.var "c"), .append .close,
      .append .close, .append (.operator .multiply), .append (.var "a")] =
      .ok [.binary .multiply (.call .sine [.binary .add (.var "b") (.var "c")]) (.var "a"),
        .binary .multiply (.call .sine [.binary .subtract (.var "b") (.var "c")]) (.var "a")] := by
    cbv
  have hvisits : Visits (fresh {}) 0 (.siblings none [.named .sin none none, .atom "(", .var "b",
      .atom "±", .var "c", .atom ")", .atom "×", .var "a"]) (declaredBy none) _ _ :=
    .cons (.turned rfl (by decide) (.cons (.atom rfl) (.cons (.name (.inr rfl)) (.cons (.atom rfl)
      (.cons (.name (.inr rfl)) (.cons (.atom rfl) .nil)))))) (.cons (.atom rfl)
        (.cons (.name (.inr rfl)) .nil))
  have hcompile := compile_outcome_eq_ok_iff.2
    ⟨none, _, _, _, _, splitSides_eq_none (by decide), hvisits, hread, rfl⟩
  have hopening : Mark.Interchangeable "(" "\\left" := by decide
  have hchoice : Mark.Interchangeable "±" "\\pm" := by decide
  have hclosing : Mark.Interchangeable ")" "\\right" := by decide
  have htimes : Mark.Interchangeable "×" "*" := by decide
  have hnodes : Paraphrase.respelling.RelatesAll
      [.named .sin none none, .atom "(", .var "b", .atom "±", .var "c", .atom ")", .atom "×",
        .var "a"]
      [.named .sin none none, .atom "\\left", .var "b", .atom "\\pm", .var "c",
        .atom "\\right", .atom "*", .var "a"] :=
    .cons (.refl rfl (fun _ => Or.inl rfl) _) (.cons (.atom hopening) (.cons (.var "b")
      (.cons (.atom hchoice) (.cons (.var "c") (.cons (.atom hclosing) (.cons (.atom htimes)
        (.cons (.var "a") .nil)))))))
  exact ⟨_, rfl, hcompile, Compilation.outcome_of_answer
    (compile_respelled (fresh {}) hnodes).1 hcompile⟩

end Session

end Formulary
