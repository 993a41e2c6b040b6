import QueryScribe.Builder.Pipeline
import QueryScribe.Proofs.Expression.Operands

/-!
# Named arguments in any order

An operator with named arguments looks each of them up by its name and emits them in the order
of its table, so fields with different names may change places without a trace in the code.
The same holds inside the branches of a case distinction.  A parameter can be filled from the
field of another one (the flags of a regular expression), but that field is looked up by name
as well.
-/

namespace QueryScribe.Value

open QueryScribe.Code

/-! ### Rearranged fields -/

/-- A branch of a case distinction, and what it may become when its fields change places. -/
inductive Shuffled : Value → Value → Prop
  | same (v : Value) : Shuffled v v
  | fields {fields fields' : Fields} (hn : (fields.map (·.1)).Nodup) (hp : fields.Perm fields') :
      Shuffled (document fields) (document fields')

/-- A field of an operator, and what it may become when the fields inside its branches change
places. -/
inductive Shaken (params : List Param) : String × Value → String × Value → Prop
  | same (field : String × Value) : Shaken params field field
  | branches {param : Param} (hparam : param ∈ params) (hslot : param.slot = .branches)
      {key : String} (hkey : param.name = key) {items items' : List Value}
      (h : items.Forall₂ Shuffled items') : Shaken params (key, array items) (key, array items')

/-- Fields with different names, and the same fields in another order, as are those of each
branch in them. -/
structure Rearranged (params : List Param) (fields fields' : Fields) : Prop where
  nodup : (fields.map (·.1)).Nodup
  moved : ∃ moved, fields.Perm moved ∧ moved.Forall₂ (Shaken params) fields'

theorem Branch.of_shuffled {v v' : Value} {c : Code} (h : Branch v c) (hs : Shuffled v v') :
    Branch v' c := by
  cases hs with
  | same => exact h
  | fields hn hp =>
    cases h with
    | parts hcase hthen =>
      rw [Outcome.lookup_perm hn hp] at hcase hthen
      exact .parts hcase hthen

theorem branches_of_shuffled {items items' : List Value} (hs : items.Forall₂ Shuffled items')
    {codes : List Code} (h : items.Forall₂ Branch codes) : items'.Forall₂ Branch codes := by
  induction hs generalizing codes with
  | nil => exact h
  | cons hv _ ih =>
    cases h with
    | cons hc hcs => exact .cons (hc.of_shuffled hv) (ih hcs)

section Params

variable {params : List Param} {fields fields' : Fields}

/-- What is found by a name after the fields inside the branches have changed places. -/
theorem lookup_shaken (h : fields.Forall₂ (Shaken params) fields') (key : String) :
    Option.Rel (fun v v' => Shaken params (key, v) (key, v')) (fields.lookup key)
      (fields'.lookup key) := by
  induction h with
  | nil => exact .none
  | @cons field field' _ _ hfield _ ih =>
    obtain ⟨k, v⟩ := field
    obtain ⟨k', v'⟩ := field'
    -- a field keeps its key, whatever happens inside it
    obtain rfl : k = k' := by cases hfield <;> rfl
    rw [List.lookup_cons, List.lookup_cons]
    by_cases hk : key = k
    · subst hk
      rw [beq_self_eq_true]
      exact .some hfield
    · rw [beq_eq_false_iff_ne.2 hk]
      exact ih

theorem Rearranged.lookup_eq_none (h : Rearranged params fields fields') {key : String}
    (hnone : fields.lookup key = none) : fields'.lookup key = none := by
  obtain ⟨moved, hp, hmoved⟩ := h.moved
  have hrel := lookup_shaken hmoved key
  rw [← Outcome.lookup_perm h.nodup hp, hnone] at hrel
  cases hlookup : fields'.lookup key with
  | none => rfl
  | some v' => rw [hlookup] at hrel; cases hrel

theorem Rearranged.lookup_eq_some (h : Rearranged params fields fields') {key : String} {v : Value}
    (hsome : fields.lookup key = some v) :
    ∃ v', fields'.lookup key = some v' ∧ Shaken params (key, v) (key, v') := by
  obtain ⟨moved, hp, hmoved⟩ := h.moved
  have hrel := lookup_shaken hmoved key
  rw [← Outcome.lookup_perm h.nodup hp, hsome] at hrel
  cases hlookup : fields'.lookup key with
  | none => rw [hlookup] at hrel; cases hrel
  | some v' =>
    rw [hlookup] at hrel
    cases hrel with
    | some hs => exact ⟨v', rfl, hs⟩

/-! ### The arguments of rearranged fields -/

theorem Fills.of_shaken (hn : (params.map (·.name)).Nodup) {param : Param}
    (hparam : param ∈ params) {v v' : Value} {c : Code}
    (hs : Shaken params (param.name, v) (param.name, v')) (h : Fills param.slot v c) :
    Fills param.slot v' c := by
  cases hs with
  | same => exact h
  | branches hparam' hslot hname hs =>
    -- names are not repeated, so the parameter that takes branches is this one
    obtain rfl := List.inj_on_of_nodup_map hn hparam' hparam hname
    rw [hslot] at h ⊢
    cases h with
    | branches h => exact .branches (branches_of_shuffled hs h)

/-- The flags of a regular expression are found wherever it stands. -/
theorem Rearranged.missing_eq (h : Rearranged params fields fields') (slot : Slot) :
    missing fields' slot = missing fields slot := by
  cases slot with
  | flags =>
    rw [missing, missing, Fields.get?, Fields.get?]
    cases hregex : fields.lookup "regex" with
    | none => rw [h.lookup_eq_none hregex]
    | some v =>
      obtain ⟨v', hv', hs⟩ := h.lookup_eq_some hregex
      rw [hv']
      cases hs <;> rfl
  | expression absent => cases absent <;> rfl
  | _ => rfl

theorem Given.of_rearranged (hn : (params.map (·.name)).Nodup)
    (hf : Rearranged params fields fields') {param : Param} (hparam : param ∈ params) {c : Code}
    (h : Given fields param c) : Given fields' param c := by
  cases h with
  | absent hnone =>
    rw [← hf.missing_eq]
    exact .absent (hf.lookup_eq_none hnone)
  | present hsome hc =>
    obtain ⟨v', hv', hs⟩ := hf.lookup_eq_some hsome
    exact .present hv' (hc.of_shaken hn hparam hs)

/-- **Rearranged fields carry the same arguments.** -/
theorem carries_of_rearranged (hn : (params.map (·.name)).Nodup)
    (hf : Rearranged params fields fields') {positional : Bool} {args : List Code}
    (h : Carries (.named params positional) (document fields) args) :
    Carries (.named params positional) (document fields') args := by
  cases h with
  | named _ h =>
    refine .named positional ?_
    rw [List.forall₂_iff_zip] at h ⊢
    exact ⟨h.1, fun hmem => (h.2 hmem).of_rearranged hn hf (List.of_mem_zip hmem).1⟩

end Params

/-! ### Conditionals and groups -/

theorem find?_cond : ExpressionOperator.find? "$cond"
    = some ⟨"ExprCond", .named ExpressionOperator.condParams true⟩ := by
  decide +kernel

theorem expression_cond_array (condition consequence otherwise : Value) :
    expression (document [("$cond", array [condition, consequence, otherwise])])
      = call "ExprCond" [expression condition, expression consequence, expression otherwise] :=
  expression_of_carries find?_cond (.positional rfl)

theorem expression_cond_document {condition consequence otherwise : Value} {fields : Fields}
    (hp : [("if", condition), ("then", consequence), ("else", otherwise)].Perm fields) :
    expression (document [("$cond", document fields)])
      = call "ExprCond" [expression condition, expression consequence, expression otherwise] := by
  have hlookup (key : String) := Outcome.lookup_perm (by simp) hp key
  have hif : fields.lookup "if" = some condition := (hlookup "if").symm
  have hthen : fields.lookup "then" = some consequence := (hlookup "then").symm
  have helse : fields.lookup "else" = some otherwise := (hlookup "else").symm
  exact expression_of_carries find?_cond (.named true
    (.cons (.present hif (.expression none condition))
      (.cons (.present hthen (.expression none consequence))
        (.cons (.present helse (.expression none otherwise)) .nil))))

/-- The code of a group: its key, and an accumulator for each other field. -/
theorem stageOf_group (fallback : Bool) {before after : Fields} {id : Value}
    (hn : ((before ++ ("_id", id) :: after).map (·.1)).Nodup) :
    Pipeline.stageOf fallback (document [("$group", document (before ++ ("_id", id) :: after))])
      = .ok (method "Group" [.seq [.name .builder "GroupSpec", .group .round [expression id]
          ((before ++ after).map (Pipeline.fieldCall "GroupAcc"))]]) := by
  have hid : (before ++ ("_id", id) :: after).lookup "_id" = some id :=
    (Outcome.lookup_eq_some_iff_mem hn).2 (by simp)
  have hne : ∀ field ∈ before ++ after, field.1 ≠ "_id" := by
    have hmiddle : (before ++ ("_id", id) :: after).Perm (("_id", id) :: (before ++ after)) :=
      List.perm_middle
    have hkeys := (hmiddle.map (·.1)).nodup_iff.1 hn
    rw [List.map_cons, List.nodup_cons] at hkeys
    exact fun field hfield he => hkeys.1 (List.mem_map.2 ⟨field, hfield, he⟩)
  have hrest : (before ++ ("_id", id) :: after).filter (·.1 ≠ "_id") = before ++ after := by
    rw [List.filter_append, List.filter_cons_of_neg (by simp), ← List.filter_append]
    exact List.filter_eq_self.2 fun field hfield => decide_eq_true (hne field hfield)
  rw [Pipeline.stageOf, Pipeline.stage, Pipeline.group, Pipeline.fields, Outcome.ok_bind,
    Fields.get?, hid, hrest]
  rfl

/-- **The order of named arguments is not seen in the code.**  Fields of different names may
change places, and so may those of each branch of a case distinction; a conditional is the same
in its three places and by its three names; the key of a group may stand anywhere among its
accumulators, which keep their own order. -/
theorem arguments_in_any_order :
    (∀ (op builder : String) (params : List Param) (positional : Bool) (fields fields' : Fields)
      (args : List Code),
      ExpressionOperator.find? op = some ⟨builder, .named params positional⟩ →
      Rearranged params fields fields' →
      expression (document [(op, document fields)]) = call builder args →
      expression (document [(op, document fields')]) = call builder args) ∧
    (∀ (condition consequence otherwise : Value) (fields : Fields),
      [("if", condition), ("then", consequence), ("else", otherwise)].Perm fields →
      expression (document [("$cond", document fields)])
        = expression (document [("$cond", array [condition, consequence, otherwise])])) ∧
    (∀ (fallback : Bool) (before after : Fields) (id : Value),
      ((before ++ ("_id", id) :: after).map (·.1)).Nodup →
      Pipeline.stageOf fallback (document [("$group", document (before ++ ("_id", id) :: after))])
        = .ok (method "Group" [.seq [.name .builder "GroupSpec", .group .round [expression id]
            ((before ++ after).map (Pipeline.fieldCall "GroupAcc"))]])) := by
  refine ⟨?_, ?_, ?_⟩
  · intro op builder params positional fields fields' args hop hf h
    have hn := ExpressionOperator.params_nodup hop
    exact expression_of_carries hop
      (carries_of_rearranged hn hf (carries_of_expression hop h))
  · intro condition consequence otherwise fields hp
    rw [expression_cond_document hp, expression_cond_array]
  · intro fallback before after id hn
    exact stageOf_group fallback hn

def leadingA : Regex := ⟨"^a", "i", by decide, by decide⟩

/-- The flags of a regular expression that stands before its input, a case distinction whose
parts and whose branch stand the other way round, a conditional whose names stand in reverse, and
a group whose key comes last. -/
theorem arguments_in_any_order_reversed :
    expression (document [("$regexMatch", document [("regex", regex leadingA),
        ("input", string "$name")])])
      = call "ExprRegexMatch" [.quoted "$name", .quoted "^a", .quoted "i"] ∧
    expression (document [("$switch", document [("default", string "$c"), ("branches",
        array [document [("then", string "$b"), ("case", string "$a")]])])])
      = call "ExprSwitch" [branchesCode [.group .curly [part "Case" (.quoted "$a"),
          part "Then" (.quoted "$b")] []], .quoted "$c"] ∧
    expression (document [("$cond", document [("else", string "$c"), ("then", string "$b"),
        ("if", string "$a")])])
      = expression (document [("$cond", array [string "$a", string "$b", string "$c"])]) ∧
    Pipeline.stageOf false (document [("$group", document [("n", document [("$sum", int32 1)]),
        ("_id", string "$a")])])
      = .ok (method "Group" [.seq [.name .builder "GroupSpec", .group .round [.quoted "$a"]
          [call "GroupAcc" [.quoted "n", call "AccSum" [.word "1"]]]]]) := by
  refine ⟨?_, ?_, ?_, ?_⟩
  · refine arguments_in_any_order.1 "$regexMatch" "ExprRegexMatch" ExpressionOperator.regexParams
      false [("input", string "$name"), ("regex", regex leadingA)] _ _ (by decide +kernel)
      ⟨by decide, _, List.Perm.swap _ _ _, .cons (.same _) (.cons (.same _) .nil)⟩ ?_
    rfl
  · refine arguments_in_any_order.1 "$switch" "ExprSwitch" ExpressionOperator.switchParams false
      [("branches", array [document [("case", string "$a"), ("then", string "$b")]]),
        ("default", string "$c")] _ _ (by decide +kernel)
      ⟨by decide, _, List.Perm.swap _ _ _, .cons (.same _) (.cons ?_ .nil)⟩ ?_
    · exact .branches List.mem_cons_self rfl rfl
        (.cons (.fields (by decide) (List.Perm.swap _ _ _)) .nil)
    · rfl
  · exact arguments_in_any_order.2.1 _ _ _ _ (List.reverse_perm _).symm
  · exact arguments_in_any_order.2.2 false [("n", document [("$sum", int32 1)])] [] _ (by decide)

end QueryScribe.Value
