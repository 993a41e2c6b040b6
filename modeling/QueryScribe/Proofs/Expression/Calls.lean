import QueryScribe.Proofs.Code.Cutting
import QueryScribe.Proofs.Code.Queries
import QueryScribe.Proofs.Double.Written
import QueryScribe.Proofs.Expression.Operands

/-!
# Expressions are read back from their code

Every operand of an expression is solid code: it is not empty, and it has no comma of its own.
So the call that an operator becomes is read back from its text alone, with the builder of
the operator and with the operands that the operator carries, each of them
whole.  Since no two operators share a builder, the text also tells the operator.
-/

namespace QueryScribe

open QueryScribe.Text QueryScribe.Layout QueryScribe.Code

/-! ### Solid code -/

namespace Code

theorem isSolidText_of_numeral {t : List Char} (hne : t ≠ [])
    (h : ∀ c ∈ t, isNumeral c = true) : isSolidText t = true := by
  refine isSolidText_iff.2 ⟨hne, fun hmem => ?_⟩
  exact absurd (h _ hmem) (by decide)

/-- A piece of code behind a name is solid if the name is. -/
theorem isSolid_named {package : Package} {ident : String} (h : isSolidText ident.toList = true)
    (b : Bracket) (items lines : List Code) :
    isSolid (.seq [.name package ident, .group b items lines]) = true := by
  simp [isSolid, areSolid, h]

end Code

namespace Value

theorem isSolid_wordOf {t : List Char} (hne : t ≠ []) (h : ∀ c ∈ t, isNumeral c = true) :
    isSolid (wordOf t) = true := by
  rw [wordOf, isSolid, String.toList_ofList]
  exact isSolidText_of_numeral hne h

theorem isSolid_integer (i : Int) : isSolid (wordOf (signed i)) = true :=
  isSolid_wordOf (signed_ne_nil i) (numeral_signed i)

theorem isSolid_double (d : Double) : isSolid (doubleCode d) = true := by
  cases d with
  | finite negative x =>
    obtain ⟨⟨c, r, h, _⟩, _⟩ := isDouble_writeFinite .code negative x
    exact isSolid_wordOf (by rw [h]; exact List.cons_ne_nil c r) (numeral_writeFinite _ _ _)
  | infinite negative => rw [doubleCode]; cases negative <;> decide
  | nan negative => rw [doubleCode]; decide

theorem isSolid_parsed {type reader binding : String} (h : isSolidText type.toList = true)
    (text : List Char) : isSolid (parsedCode type reader binding text) = true := by
  have hfunc : isSolidText "func".toList = true := by decide
  have hspace : isSolidText " ".toList = true := by decide
  simp only [parsedCode, isSolid, areSolid, h, hfunc, hspace]
  rfl

/-- **A literal is solid.** -/
theorem solid_literal (v : Value) : Solid (literal v) := by
  refine ⟨inline_literal v, ?_⟩
  cases v with
  | null => rw [literal]; decide
  | bool b => rw [literal]; cases b <;> decide
  | int32 i => rw [literal]; exact isSolid_integer _
  | int64 i => rw [literal]; exact isSolid_integer _
  | double d => rw [literal]; exact isSolid_double d
  | string s => rw [literal, isSolid]
  | regex r => rw [literal, isSolid]
  | objectId id => rw [literal]; exact isSolid_parsed (by decide) _
  | decimal128 d => rw [literal]; exact isSolid_parsed (by decide) _
  | _ => rw [literal]; exact isSolid_named (by decide) _ _ _

theorem solid_quoted (s : String) : Solid (.quoted s) := ⟨.quoted s, by rw [isSolid]⟩

theorem solid_missing (fields : Fields) (slot : Slot) : Solid (missing fields slot) := by
  refine ⟨inline_missing fields slot, ?_⟩
  cases slot with
  | expression absent => cases absent <;> rw [missing, isSolid]; decide
  | flags => rw [missing]; split <;> rw [isSolid]
  | text s => rw [missing, isSolid]
  | pattern => rw [missing, isSolid]
  | flag | literal | branches => rw [missing, isSolid]; decide

theorem isSolidText_builder {op : String} {spec : ExpressionOperator}
    (h : ExpressionOperator.find? op = some spec) : isSolidText spec.builder.toList = true :=
  ExpressionOperator.of_find? (P := fun _ spec => isSolidText spec.builder.toList)
    (by decide +kernel) h

/-- **An expression is solid**, since all it begins with is a name or a literal. -/
theorem solid_expression (v : Value) : Solid (expression v) := by
  refine ⟨inline_expression v, ?_⟩
  unfold expression
  split
  · split
    · split
      · exact isSolid_named (by decide) _ _ _
      · rename_i hspec
        split
        · exact isSolid_named (isSolidText_builder hspec) _ _ _
        · exact isSolid_named (by decide) _ _ _
    · exact isSolid_named (by decide) _ _ _
  · exact (solid_literal _).solid

/-! ### Solid operands -/

theorem Branch.inline {v : Value} {c : Code} (h : Branch v c) : Inline c := by
  cases h with
  | parts hcase hthen =>
    exact .group (.pair (inline_part (by decide) (inline_expression _))
      (inline_part (by decide) (inline_expression _)))

theorem solid_branchesCode {items : List Value} {codes : List Code}
    (h : items.Forall₂ Branch codes) : Solid (branchesCode codes) :=
  ⟨inline_branchesCode (Outcome.forall_of_forall₂ h fun _ _ => Branch.inline), rfl⟩

theorem Fills.solid {slot : Slot} {v : Value} {c : Code} (h : Fills slot v c) : Solid c := by
  cases h with
  | expression => exact solid_expression v
  | literal => exact solid_literal v
  | text | flags | pattern | regex => exact solid_quoted _
  | flag b => exact ⟨by cases b <;> exact .word (by decide), by cases b <;> decide⟩
  | branches h => exact solid_branchesCode h

theorem Given.solid {fields : Fields} {param : Param} {c : Code} (h : Given fields param c) :
    Solid c := by
  cases h with
  | absent => exact solid_missing fields param.slot
  | present _ hc => exact hc.solid

/-- **Every operand is solid.** -/
theorem Carries.solid {arity : Arity} {arg : Value} {args : List Code}
    (h : Carries arity arg args) : ∀ c ∈ args, Solid c := by
  have elements (items : List Value) : ∀ c ∈ items.map expression, Solid c := by
    intro c hc
    obtain ⟨v, _, rfl⟩ := List.mem_map.1 hc
    exact solid_expression v
  have single {d : Code} (hd : Solid d) : ∀ c ∈ [d], Solid c := by
    intro c hc
    rwa [List.mem_singleton.1 hc]
  cases h with
  | nullary => exact fun c hc => absurd hc List.not_mem_nil
  | unary | lone => exact single (solid_expression arg)
  | literal => exact single (solid_literal arg)
  | fixed items | variadic items | positional => exact elements _
  | named positional h => exact Outcome.forall_of_forall₂ h fun _ _ => Given.solid

end Value

/-! ### Calls read back -/

/-- The package names of valid options have no comma. -/
theorem Options.Valid.solidPackages {o : Options} (h : o.Valid) : SolidPackages o.packages := by
  obtain ⟨hbuilder, hbson⟩ := Options.valid_iff.1 h
  have hcomma : Options.continuesIdentifier ',' = false := by decide +kernel
  refine ⟨h.firmPackages.tame, fun package => ?_⟩
  cases package with
  | builder =>
    rcases hbuilder with he | hb
    · show ',' ∉ o.builderPackage.toList
      rw [he]
      decide
    · exact Options.notMem_of_isIdentifier hb hcomma
  | bson => exact Options.notMem_of_isIdentifier hbson hcomma

namespace Value

theorem qualified_injective {p : Packages} {package : Package} {a b : String}
    (h : qualified p package a = qualified p package b) : a = b := by
  rw [qualified, qualified] at h
  split at h
  · exact String.toList_inj.1 h
  · exact String.toList_inj.1 (List.cons.inj (List.append_cancel_left h)).2

/-- **An expression carries exactly the arguments of its operator.**  Unless it is kept as it is, an
operator becomes one call of its builder, and the text of the call, cut at the commas
outside brackets and literals, gives the operands: each is the code of its own part of the
argument alone.  The text tells the operator and the codes of the operands, and the builder alone
tells the operator. -/
theorem expression_read_back {o : Options} (ho : o.Valid) {op : String} {spec : ExpressionOperator}
    (hop : ExpressionOperator.find? op = some spec) {arg : Value}
    (hcall : expression (document [(op, arg)]) ≠ rawPair op (literal arg)) :
    ∃ args, Carries spec.arity arg args
      ∧ readCall? (render o.packages (expression (document [(op, arg)])))
        = some (qualified o.packages .builder spec.builder, args.map (render o.packages), [])
      ∧ ∀ op' spec' arg' args', ExpressionOperator.find? op' = some spec' →
        (spec'.builder = spec.builder → op' = op)
          ∧ (Carries spec'.arity arg' args' →
            render o.packages (expression (document [(op', arg')]))
              = render o.packages (expression (document [(op, arg)])) →
            op' = op ∧ args'.map (render o.packages) = args.map (render o.packages)) := by
  have hread {op : String} {spec : ExpressionOperator}
      (hop : ExpressionOperator.find? op = some spec) {arg : Value} {args : List Code}
      (h : Carries spec.arity arg args) :
      readCall? (render o.packages (expression (document [(op, arg)])))
        = some (qualified o.packages .builder spec.builder, args.map (render o.packages), []) := by
    rw [expression_of_carries hop h, ← List.append_nil (render o.packages _)]
    exact readCall?_call ho.solidPackages (isTameText_expressionBuilder hop) h.solid []
  obtain ⟨args, hargs⟩ := not_not.1 fun h => hcall ((expression_eq_rawPair_iff hop).2 h)
  refine ⟨args, hargs, hread hop hargs, fun op' spec' arg' args' hop' => ⟨?_, ?_⟩⟩
  · exact ExpressionOperator.builder_injective hop' hop
  · intro hargs' htext
    have hsame := hread hop' hargs'
    rw [htext, hread hop hargs, Option.some.injEq, Prod.mk.injEq, Prod.mk.injEq] at hsame
    obtain ⟨hname, hparts, _⟩ := hsame
    exact ⟨ExpressionOperator.builder_injective hop' hop (qualified_injective hname).symm,
      hparts.symm⟩

/-- An operator with a comma in one of its operands. -/
theorem expression_read_back_add :
    Options.standard.Valid ∧ ExpressionOperator.find? "$add" = some ⟨"ExprAdd", .variadic⟩
      ∧ expression (document [("$add", .array [.null, .string "a, b"])])
        ≠ rawPair "$add" (literal (.array [.null, .string "a, b"]))
      ∧ readCall? (render Options.standard.packages
          (expression (document [("$add", .array [.null, .string "a, b"])])))
        = some ("gmqb.ExprAdd".toList, ["nil".toList, "\"a, b\"".toList], []) := by
  have hop : ExpressionOperator.find? "$add" = some ⟨"ExprAdd", .variadic⟩ := by decide +kernel
  have hcarries : Carries .variadic (.array [.null, .string "a, b"]) _ := .variadic _
  have hcall : expression (document [("$add", .array [.null, .string "a, b"])])
      ≠ rawPair "$add" (literal (.array [.null, .string "a, b"])) :=
    fun hraw => (expression_eq_rawPair_iff hop).1 hraw ⟨_, hcarries⟩
  obtain ⟨args, hargs, hread, -⟩ := expression_read_back Options.standard_valid hop hcall
  obtain rfl := hargs.unique (ExpressionOperator.params_nodup hop) hcarries
  refine ⟨Options.standard_valid, hop, hcall, hread.trans ?_⟩
  decide +kernel

end Value

end QueryScribe
