import QueryScribe.Builder.Expression
import QueryScribe.Proofs.Code.Tame
import QueryScribe.Value.Basic

/-!
# Literals and expressions are inline

The names of types, builders and local variables that literals and expressions write are
tame, which is a matter of trying them all; everything that comes from the user
comes as a number or as a quoted string, and no argument stands on a line of its own.  So
literals and expressions are inline code, by induction over the value.
-/

namespace QueryScribe.Value

open QueryScribe.Text QueryScribe.Layout QueryScribe.Code QueryScribe.Outcome

/-! ### Literals -/

theorem inline_double (d : Double) : Inline (doubleCode d) := by
  cases d with
  | finite negative x => exact inline_word_of_numeral (numeral_writeFinite _ _ _)
  | infinite negative =>
    refine .seq (.pair (.word (by decide)) (.group (Inline.single (.word ?_))))
    cases negative <;> decide
  | nan negative => exact .seq (.pair (.word (by decide)) (.group inline_none))

theorem inline_integer (i : Int) : Inline (wordOf (signed i)) :=
  inline_word_of_numeral (numeral_signed i)

theorem inline_natural (n : Nat) : Inline (wordOf (decimal n)) :=
  inline_word_of_numeral (numeral_decimal n)

theorem inline_byte (b : UInt8) : Inline (byteCode b) := by
  refine inline_word_of_numeral fun c hc => ?_
  rcases List.mem_cons.1 hc with rfl | hc
  · rfl
  · rcases List.mem_cons.1 hc with rfl | hc
    · rfl
    · exact numeral_hexFixed _ _ c hc

theorem inline_parsed {type reader binding : String} (text : List Char)
    (ht : isTameText type.toList = true) (hr : isTameText reader.toList = true)
    (hb : isTameText binding.toList = true) : Inline (parsedCode type reader binding text) := by
  have opening : isTameText (" " ++ binding ++ ", _ := ").toList = true := by
    rw [String.toList_append, String.toList_append]
    exact isTameText_append (isTameText_append (by decide) hb) (by decide)
  have closing : isTameText ("; return " ++ binding ++ " ").toList = true := by
    rw [String.toList_append, String.toList_append]
    exact isTameText_append (isTameText_append (by decide) hb) (by decide)
  have space : Inline (.word " ") := .word (by decide)
  have empty : Inline (.group .round [] []) := .group inline_none
  have body : Inline (.seq [.word (" " ++ binding ++ ", _ := "), .name .bson reader,
      .group .round [.quoted (String.ofList text)] [], .word ("; return " ++ binding ++ " ")]) := by
    refine .seq fun c hc => ?_
    simp only [List.mem_cons, List.not_mem_nil, or_false] at hc
    rcases hc with rfl | rfl | rfl | rfl
    · exact .word opening
    · exact .name hr
    · exact .group (Inline.quoted _).single
    · exact .word closing
  refine .seq fun c hc => ?_
  simp only [List.mem_cons, List.not_mem_nil, or_false] at hc
  rcases hc with rfl | rfl | rfl | rfl | rfl | rfl | rfl
  · exact .word (by decide)
  · exact empty
  · exact space
  · exact .name ht
  · exact space
  · exact .group body.single
  · exact empty

theorem inline_objectId (id : ObjectId) : Inline (objectIdCode id) :=
  inline_parsed _ (by decide) (by decide) (by decide)

theorem inline_part {name : String} {value : Code} (hn : isTameText name.toList = true)
    (h : Inline value) : Inline (part name value) := by
  refine .seq (.pair (.word ?_) h)
  rw [String.toList_append]
  exact isTameText_append hn (by decide)

theorem inline_pair (key : String) {value : Code} (h : Inline value) : Inline (pairCode key value) :=
  .group (.pair (.quoted key) h)

theorem inline_rawPair (key : String) {value : Code} (h : Inline value) : Inline (rawPair key value) :=
  inline_composite (by decide) (inline_pair key h).single

theorem inline_binary (b : Binary) : Inline (literal (.binary b)) := by
  have bytes : ∀ c ∈ b.bytes.map byteCode, Inline c := by
    intro c hc
    obtain ⟨a, _, rfl⟩ := List.mem_map.1 hc
    exact inline_byte a
  have data : Inline (.seq [.group .square [] [], .word "byte",
      .group .curly (b.bytes.map byteCode) []]) := by
    refine .seq fun c hc => ?_
    simp only [List.mem_cons, List.not_mem_nil, or_false] at hc
    rcases hc with rfl | rfl | rfl
    · exact .group inline_none
    · exact .word (by decide)
    · exact .group bytes
  rw [literal]
  exact inline_composite (by decide)
    (.pair (inline_part (by decide) (inline_byte _)) (inline_part (by decide) data))

mutual
/-- **A literal is inline code.** -/
theorem inline_literal : ∀ v : Value, Inline (literal v)
  | .null => by rw [literal]; exact .word (by decide)
  | .bool b => by rw [literal]; cases b <;> exact .word (by decide)
  | .int32 i => by rw [literal]; exact inline_integer _
  | .int64 i => by rw [literal]; exact inline_integer _
  | .double d => by rw [literal]; exact inline_double d
  | .string s => by rw [literal]; exact .quoted s
  | .array items => by rw [literal]; exact inline_composite (by decide) (inline_literals items)
  | .document fields => by rw [literal]; exact inline_composite (by decide) (inline_entries fields)
  | .objectId id => by rw [literal]; exact inline_objectId id
  | .regex r => by rw [literal]; exact .quoted _
  | .dateTime t => by rw [literal]; exact inline_convert (by decide) (inline_integer _)
  | .decimal128 d => by rw [literal]; exact inline_parsed _ (by decide) (by decide) (by decide)
  | .binary b => inline_binary b
  | .timestamp t => by
    rw [literal]
    exact inline_composite (by decide)
      (.pair (inline_part (by decide) (inline_natural _)) (inline_part (by decide) (inline_natural _)))
  | .symbol s => by rw [literal]; exact inline_convert (by decide) (.quoted s)
  | .javaScript code => by rw [literal]; exact inline_convert (by decide) (.quoted code)
  | .javaScriptWithScope code scope => by
    rw [literal]
    exact inline_composite (by decide)
      (.pair (inline_part (by decide) (inline_convert (by decide) (.quoted code)))
        (inline_part (by decide) (inline_composite (by decide) (inline_entries scope))))
  | .dbPointer target id => by
    rw [literal]
    exact inline_composite (by decide)
      (.pair (inline_part (by decide) (.quoted target)) (inline_part (by decide) (inline_objectId id)))
  | .minKey => by rw [literal]; exact inline_composite (by decide) inline_none
  | .maxKey => by rw [literal]; exact inline_composite (by decide) inline_none
  | .undefined => by rw [literal]; exact inline_composite (by decide) inline_none
theorem inline_literals : ∀ (vs : List Value), ∀ c ∈ literals vs, Inline c
  | [] => by rw [literals]; exact inline_none
  | v :: r => by
    intro c hc
    rw [literals, List.mem_cons] at hc
    rcases hc with rfl | hc
    · exact inline_literal v
    · exact inline_literals r c hc
theorem inline_entries : ∀ (fields : List (String × Value)), ∀ c ∈ entries fields, Inline c
  | [] => by rw [entries]; exact inline_none
  | (k, v) :: r => by
    intro c hc
    rw [entries, List.mem_cons] at hc
    rcases hc with rfl | hc
    · exact inline_pair k (inline_literal v)
    · exact inline_entries r c hc
end

/-! ### Expressions -/

theorem inline_missing (fields : Fields) (slot : Slot) : Inline (missing fields slot) := by
  have empty : Inline (.word "nil") := .word (by decide)
  cases slot with
  | expression absent =>
    cases absent with
    | none => exact empty
    | some s => exact .quoted s
  | text s => exact .quoted s
  | pattern => exact .quoted ""
  | flags =>
    rw [missing]
    split
    · exact .quoted _
    · exact .quoted _
  | flag => exact .word (by decide)
  | literal => exact empty
  | branches => exact empty

theorem inline_inOrder {fields : Fields} {given : List (String × Option Code)} {params : List Param}
    {args : List Code} (hg : ∀ key c, (key, some c) ∈ given → Inline c)
    (h : inOrder? fields given params = some args) : ∀ c ∈ args, Inline c := by
  induction params generalizing args with
  | nil =>
    obtain rfl : [] = args := Option.some.inj h
    exact inline_none
  | cons param params ih =>
    rw [inOrder?, List.mapM_cons, Option.bind_eq_bind, Option.bind_eq_some_iff] at h
    obtain ⟨c, hc, h⟩ := h
    rw [Option.bind_eq_bind, Option.bind_eq_some_iff] at h
    obtain ⟨rest, hr, h⟩ := h
    obtain rfl : c :: rest = args := Option.some.inj h
    intro d hd
    rcases List.mem_cons.1 hd with rfl | hd
    · cases hl : given.lookup param.name with
      | none =>
        rw [hl] at hc
        obtain rfl := Option.some.inj hc
        exact inline_missing fields _
      | some arg =>
        rw [hl] at hc
        obtain rfl : arg = some d := hc
        exact hg _ d (mem_of_lookup hl)
    · exact ih hr d hd

theorem inline_branchCode {given : List (String × Code)} {branch : Code}
    (hg : ∀ key c, (key, c) ∈ given → Inline c) (h : branchCode? given = some branch) :
    Inline branch := by
  simp only [branchCode?, Option.bind_eq_bind, Option.bind_eq_some_iff] at h
  obtain ⟨case, hcase, consequence, hthen, h⟩ := h
  obtain rfl : _ = branch := Option.some.inj h
  have first := hg _ case (mem_of_lookup hcase)
  have second := hg _ consequence (mem_of_lookup hthen)
  exact .group (.pair (inline_part (by decide) first) (inline_part (by decide) second))

theorem inline_branchesCode {branches : List Code} (h : ∀ c ∈ branches, Inline c) :
    Inline (branchesCode branches) := by
  refine .seq fun c hc => ?_
  simp only [List.mem_cons, List.not_mem_nil, or_false] at hc
  rcases hc with rfl | rfl | rfl
  · exact .group inline_none
  · exact .name (by decide)
  · exact .group h

/-- The builders of the table of expression operators are tame. -/
theorem isTameText_expressionBuilder {op : String} {spec : ExpressionOperator}
    (h : ExpressionOperator.find? op = some spec) : isTameText spec.builder.toList = true := by
  have all : ExpressionOperator.table.all (·.2.builder.toList.all Char.isAlphanum) = true := by
    decide +kernel
  have hb := List.all_eq_true.1 all _ (mem_of_lookup h)
  exact isTameText_of_forall fun c hc => isTame_of_class (by decide) (List.all_eq_true.1 hb c hc)

section Parts

variable {own : Code}

theorem inline_expressions {vs : List Value}
    (ih : ∀ u, sizeOf u < sizeOf vs → Inline (expression u)) : ∀ c ∈ expressions vs, Inline c := by
  intro c hc
  rw [expressions_eq_map, List.mem_map] at hc
  obtain ⟨u, hu, rfl⟩ := hc
  exact ih u (List.sizeOf_lt_of_mem hu)

theorem inline_branchParts {fields : List (String × Value)}
    (ih : ∀ u, sizeOf u < sizeOf fields → Inline (expression u)) :
    ∀ key c, (key, c) ∈ branchParts fields → Inline c := by
  induction fields with
  | nil =>
    intro key c hc
    rw [branchParts] at hc
    exact absurd hc List.not_mem_nil
  | cons f r hr =>
    obtain ⟨k, v⟩ := f
    have rest := hr fun u hu => ih u (by simp only [List.cons.sizeOf_spec]; omega)
    intro key c hc
    rw [branchParts] at hc
    split at hc
    · rcases List.mem_cons.1 hc with hc | hc
      · rw [(Prod.mk.inj hc).2]
        exact ih v (sizeOf_field List.mem_cons_self)
      · exact rest key c hc
    · exact rest key c hc

theorem inline_branches {vs : List Value} {branches : List Code}
    (ih : ∀ u, sizeOf u < sizeOf vs → Inline (expression u)) (h : branches? vs = some branches) :
    ∀ c ∈ branches, Inline c := by
  induction vs generalizing branches with
  | nil =>
    rw [branches?] at h
    obtain rfl := Option.some.inj h
    exact inline_none
  | cons v r hr =>
    unfold branches? at h
    split at h
    · rename_i heq
      exact absurd heq nofun
    · rename_i fields r' heq
      obtain ⟨rfl, rfl⟩ := List.cons.inj heq
      simp only [Option.bind_eq_bind, Option.bind_eq_some_iff] at h
      obtain ⟨branch, hb, rest, hrest, h⟩ := h
      obtain rfl : branch :: rest = branches := Option.some.inj h
      have parts : ∀ key c, (key, c) ∈ branchParts fields → Inline c :=
        inline_branchParts fun u hu =>
          ih u (by simp only [List.cons.sizeOf_spec, document.sizeOf_spec]; omega)
      intro c hc
      rcases List.mem_cons.1 hc with rfl | hc
      · exact inline_branchCode parts hb
      · exact hr (fun u hu => ih u (by simp only [List.cons.sizeOf_spec]; omega)) hrest c hc
    · exact absurd h nofun

theorem inline_slot {slot : Slot} {v : Value} {c : Code} (hown : Inline own)
    (ih : ∀ u, sizeOf u < sizeOf v → Inline (expression u)) (h : slotCode? own slot v = some c) :
    Inline c := by
  unfold slotCode? at h
  split at h
  · rwa [← Option.some.inj h]
  · rw [← Option.some.inj h]
    exact inline_literal v
  · rw [← Option.some.inj h]
    exact .quoted _
  · exact absurd h nofun
  · rw [← Option.some.inj h]
    exact .quoted _
  · exact absurd h nofun
  · rw [← Option.some.inj h]
    exact .quoted _
  · rw [← Option.some.inj h]
    exact .quoted _
  · exact absurd h nofun
  · rename_i b
    rw [← Option.some.inj h]
    cases b <;> exact .word (by decide)
  · exact absurd h nofun
  · rename_i items
    obtain ⟨branches, hb, rfl⟩ := Option.map_eq_some_iff.1 h
    refine inline_branchesCode (inline_branches (fun u hu => ih u ?_) hb)
    simp only [array.sizeOf_spec]
    omega
  · exact absurd h nofun

theorem inline_namedArguments {params : List Param} {fields : List (String × Value)}
    (ih : ∀ u, sizeOf u < sizeOf fields → Inline (expression u)) :
    ∀ key c, (key, some c) ∈ namedArguments params fields → Inline c := by
  induction fields with
  | nil =>
    intro key c hc
    rw [namedArguments] at hc
    exact absurd hc List.not_mem_nil
  | cons f r hr =>
    obtain ⟨k, v⟩ := f
    have hv : sizeOf v < sizeOf ((k, v) :: r) := sizeOf_field List.mem_cons_self
    have rest := hr fun u hu => ih u (by simp only [List.cons.sizeOf_spec]; omega)
    intro key c hc
    rw [namedArguments] at hc
    split at hc
    · exact rest key c hc
    · rcases List.mem_cons.1 hc with hc | hc
      · exact inline_slot (ih v hv) (fun u hu => ih u (by omega)) (Prod.mk.inj hc).2.symm
      · exact rest key c hc

theorem inline_operands {arity : Arity} {v : Value} {args : List Code} (hown : Inline own)
    (ih : ∀ u, sizeOf u < sizeOf v → Inline (expression u))
    (h : operands? own arity v = some args) : ∀ c ∈ args, Inline c := by
  have elements {items : List Value} (hv : v = array items) : ∀ c ∈ expressions items, Inline c :=
    inline_expressions fun u hu => ih u (by rw [hv, array.sizeOf_spec]; omega)
  unfold operands? at h
  split at h
  · obtain rfl := Option.some.inj h
    exact inline_none
  · obtain rfl := Option.some.inj h
    exact hown.single
  · obtain rfl := Option.some.inj h
    exact (inline_literal v).single
  · obtain ⟨_, h⟩ := Option.ite_none_right_eq_some.1 h
    obtain rfl := Option.some.inj h
    exact elements rfl
  · obtain ⟨_, h⟩ := Option.ite_none_right_eq_some.1 h
    obtain rfl := Option.some.inj h
    exact hown.single
  · obtain rfl := Option.some.inj h
    exact elements rfl
  · exact absurd h nofun
  · refine inline_inOrder (inline_namedArguments fun u hu => ih u ?_) h
    simp only [document.sizeOf_spec]
    omega
  · obtain ⟨_, h⟩ := Option.ite_none_right_eq_some.1 h
    obtain rfl := Option.some.inj h
    exact elements rfl
  · exact absurd h nofun

end Parts

/-- **An expression is inline code**, by induction over the size of the value: the argument of an
operator is taken apart as deep as the branches of a case distinction. -/
theorem inline_expression (v : Value) : Inline (expression v) := by
  induction v using induction_on_size with
  | step v ih =>
    unfold expression
    split
    · rename_i op arg
      have harg : sizeOf arg < sizeOf (document [(op, arg)]) :=
        sizeOf_lt_document List.mem_cons_self
      split
      · split
        · exact inline_rawPair op (ih arg harg)
        · rename_i spec hspec
          split
          · rename_i args hargs
            exact inline_call (isTameText_expressionBuilder hspec)
              (inline_operands (ih arg harg) (fun u hu => ih u (by omega)) hargs)
          · exact inline_rawPair op (inline_literal arg)
      · exact inline_composite (by decide) (inline_pair op (inline_literal arg)).single
    · exact inline_literal v

end QueryScribe.Value
