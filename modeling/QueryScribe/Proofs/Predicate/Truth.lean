import QueryScribe.Proofs.Predicate.Derivation
import QueryScribe.Query

/-!
# What predicates mean

A predicate is true of a document when each of its pairs is: a logical operator joins
what its documents say, a document of operators says what all its operators say, and
`$elemMatch` says that some element makes its own predicate true.  `holds` reads
predicates this way, straight from the document.  `Condition.holds` reads the term that
a predicate becomes.  Both leave open what a single test says, and which elements a
field has: that is an `Interpretation`, and the two agree under every one.

Truth alone does not say which tests are made.  `occurrences` and
`Condition.occurrences` list the tests of both sides in order, each with the elements
that it is about and the alternatives that it is in.  The conjunctions that the
translation puts in or leaves out are not among them.

`links_faithful` puts the two together.  How a term is written, kind by kind, is said by
`Condition.render_test`, `render_element`, `render_junction` and `render_anything`.
-/

namespace QueryScribe

open QueryScribe.Code QueryScribe.Value QueryScribe.Outcome

/-! ### Terms -/

/-- What single tests say of a document, and which documents are the elements of a field. -/
structure Interpretation where
  World : Type
  test : World → String → List Code → Prop
  element : World → String → World → Prop

/-- What a connective says of some statements. -/
def Connective.joins : Connective → List Prop → Prop
  | and, ps => ∀ p ∈ ps, p
  | or, ps => ∃ p ∈ ps, p
  | nor, ps => ∀ p ∈ ps, ¬ p

/-- A step from a condition to a condition inside it, conjunctions not counted. -/
inductive Condition.Step where
  /-- Into an alternative, given its number. -/
  | alternative (connective : Connective) (number : Nat)
  /-- Into the elements of a field. -/
  | element (field : String)
  deriving DecidableEq, Repr

def Connective.steps : Connective → Nat → List Condition.Step
  | and, _ => []
  | connective, number => [.alternative connective number]

/-- What stands at the end of some more steps. -/
def deeper {α : Type} (steps : List Condition.Step) (found : List (List Condition.Step × α)) :
    List (List Condition.Step × α) :=
  found.map fun (path, a) => (steps ++ path, a)

namespace Condition

mutual
/-- Whether a condition is true. -/
def holds (I : Interpretation) : Condition → I.World → Prop
  | test builder args, w => I.test w builder args
  | element field body, w => ∃ e, I.element w field e ∧ holds I body e
  | junction connective parts, w => connective.joins (truths I parts w)
  | anything, _ => True
def truths (I : Interpretation) : List Condition → I.World → List Prop
  | [], _ => []
  | c :: r, w => holds I c w :: truths I r w
end

mutual
/-- The tests of a condition in order, each with the steps to it. -/
def occurrences : Condition → List (List Condition.Step × String × List Code)
  | test builder args => [([], builder, args)]
  | element field body => deeper [.element field] (occurrences body)
  | junction connective parts => partsOccurrences connective 0 parts
  | anything => []
def partsOccurrences (connective : Connective) (number : Nat) :
    List Condition → List (List Condition.Step × String × List Code)
  | [] => []
  | c :: r =>
    deeper (connective.steps number) (occurrences c) ++ partsOccurrences connective (number + 1) r
end

variable {I : Interpretation}

theorem truths_eq_map (cs : List Condition) (w : I.World) :
    truths I cs w = cs.map fun c => holds I c w := by
  induction cs with
  | nil => rw [truths, List.map_nil]
  | cons c r ih => rw [truths, List.map_cons, ih]

/-- Some conditions together are true when all of them are. -/
theorem together_holds (cs : List Condition) (w : I.World) :
    holds I (together cs) w ↔ ∀ c ∈ cs, holds I c w := by
  match cs with
  | [] => simp [together, holds]
  | [c] => simp [together]
  | c :: d :: r =>
    rw [together, holds, Connective.joins, truths_eq_map]
    · exact List.forall_mem_map
    · simp
    · simp

theorem partsOccurrences_and (number : Nat) (cs : List Condition) :
    partsOccurrences .and number cs = cs.flatMap occurrences := by
  induction cs generalizing number with
  | nil => rw [partsOccurrences, List.flatMap_nil]
  | cons c r ih =>
    rw [partsOccurrences, ih, List.flatMap_cons, Connective.steps]
    simp [deeper]

/-- Some conditions together make just their tests. -/
theorem together_occurrences (cs : List Condition) :
    occurrences (together cs) = cs.flatMap occurrences := by
  match cs with
  | [] => rw [together, occurrences, List.flatMap_nil]
  | [c] => rw [together, List.flatMap_singleton]
  | c :: d :: r =>
    rw [together, occurrences, partsOccurrences_and]
    · simp
    · simp

end Condition

/-! ### Predicates -/

namespace Predicate

/-- A statement of a predicate that has no predicate inside. -/
inductive Atom where
  /-- A pair: an equality, or an operator on the whole document. -/
  | pair (key : String) (value : Value)
  /-- An operator of a field, with the flags that stand beside it. -/
  | operator (field operator : String) (flags : Option String) (value : Value)

def Atom.test? (fallback : Bool) : Atom → Result Condition
  | pair key value => plainPair key value
  | operator field op flags value => operatorTest fallback field op flags value

def Atom.holds (I : Interpretation) (fallback : Bool) (a : Atom) (w : I.World) : Prop :=
  ∃ builder args, a.test? fallback = .ok (.test builder args) ∧ I.test w builder args

def isField (key : String) : Bool := (Connective.ofKey? key).isNone && !isWhole key

def flags? (operators : Fields) : Option String := (operators.get? "$options").bind Value.toString?

def hasPattern (operators : Fields) : Bool := operators.any (·.1 = "$regex")

mutual
/-- Whether a predicate is true: all its pairs are. -/
def holds (I : Interpretation) (fallback : Bool) : List (String × Value) → I.World → Prop
  | [], _ => True
  | (key, value) :: r, w => pairHolds I fallback key value w ∧ holds I fallback r w
def pairHolds (I : Interpretation) (fallback : Bool) (key : String) : Value → I.World → Prop
  | .array items, w =>
    match Connective.ofKey? key with
    | some connective => connective.joins (documentsHold I fallback items w)
    | none => (Atom.pair key (.array items)).holds I fallback w
  | .document operators, w =>
    if isField key && Fields.isOperators operators then
      operatorsHold I fallback key (flags? operators) (hasPattern operators) operators w
    else (Atom.pair key (.document operators)).holds I fallback w
  | value, w => (Atom.pair key value).holds I fallback w
def documentsHold (I : Interpretation) (fallback : Bool) : List Value → I.World → List Prop
  | [], _ => []
  | .document fields :: r, w => holds I fallback fields w :: documentsHold I fallback r w
  | _ :: r, w => False :: documentsHold I fallback r w
/-- Whether all operators of a field say so; flags beside a pattern say nothing of their own. -/
def operatorsHold (I : Interpretation) (fallback : Bool) (field : String) (flags : Option String)
    (beside : Bool) : List (String × Value) → I.World → Prop
  | [], _ => True
  | (operator, value) :: r, w =>
    (operator = "$options" ∧ beside = true ∨ operatorHolds I fallback field operator flags value w)
      ∧ operatorsHold I fallback field flags beside r w
def operatorHolds (I : Interpretation) (fallback : Bool) (field operator : String)
    (flags : Option String) : Value → I.World → Prop
  | .document fields, w =>
    if operator = "$elemMatch" && !Fields.isOperators fields then
      ∃ e, I.element w field e ∧ holds I fallback fields e
    else (Atom.operator field operator flags (.document fields)).holds I fallback w
  | value, w => (Atom.operator field operator flags value).holds I fallback w
end

mutual
/-- The statements of a predicate in order, each with the steps to it. -/
def occurrences : List (String × Value) → List (List Condition.Step × Atom)
  | [] => []
  | (key, value) :: r => pairOccurrences key value ++ occurrences r
def pairOccurrences (key : String) : Value → List (List Condition.Step × Atom)
  | .array items =>
    match Connective.ofKey? key with
    | some connective => documentsOccurrences connective 0 items
    | none => [([], .pair key (.array items))]
  | .document operators =>
    if isField key && Fields.isOperators operators then
      operatorsOccurrences key (flags? operators) (hasPattern operators) operators
    else [([], .pair key (.document operators))]
  | value => [([], .pair key value)]
/-- The statements of the documents of a logical operator, numbered from a number on. -/
def documentsOccurrences (connective : Connective) (number : Nat) :
    List Value → List (List Condition.Step × Atom)
  | [] => []
  | .document fields :: r =>
    deeper (connective.steps number) (occurrences fields)
      ++ documentsOccurrences connective (number + 1) r
  | _ :: r => documentsOccurrences connective (number + 1) r
/-- The statements of a field's operators, flags beside a pattern left out. -/
def operatorsOccurrences (field : String) (flags : Option String) (beside : Bool) :
    List (String × Value) → List (List Condition.Step × Atom)
  | [] => []
  | (operator, value) :: r =>
    (if operator = "$options" ∧ beside = true then []
      else operatorOccurrences field operator flags value)
      ++ operatorsOccurrences field flags beside r
def operatorOccurrences (field operator : String) (flags : Option String) :
    Value → List (List Condition.Step × Atom)
  | .document fields =>
    if operator = "$elemMatch" && !Fields.isOperators fields then
      deeper [.element field] (occurrences fields)
    else [([], .operator field operator flags (.document fields))]
  | value => [([], .operator field operator flags value)]
end

/-! ### The kinds of pairs and operators -/

theorem pairHolds_of_plain {I : Interpretation} {fallback : Bool} {key : String} {value : Value}
    (hk : Connective.ofKey? key = none) (ho : operators? key value = none) (w : I.World) :
    pairHolds I fallback key value w ↔ (Atom.pair key value).holds I fallback w := by
  cases value with
  | array items => rw [pairHolds, hk]
  | document operators =>
    have hf : (isField key && Fields.isOperators operators) = false := by
      simpa [operators?, isField, hk] using ho
    rw [pairHolds, if_neg (by rw [hf]; decide)]
  | _ => rw [pairHolds] <;> nofun

theorem pairOccurrences_of_plain {key : String} {value : Value}
    (hk : Connective.ofKey? key = none) (ho : operators? key value = none) :
    pairOccurrences key value = [([], .pair key value)] := by
  cases value with
  | array items => rw [pairOccurrences, hk]
  | document operators =>
    have hf : (isField key && Fields.isOperators operators) = false := by
      simpa [operators?, isField, hk] using ho
    rw [pairOccurrences, if_neg (by rw [hf]; decide)]
  | _ => rw [pairOccurrences] <;> nofun

/-- A pair whose value is a document of operators. -/
theorem field_of_operators {key : String} {value : Value} {operators : Fields}
    (hk : Connective.ofKey? key = none) (ho : operators? key value = some operators) :
    value = .document operators ∧ (isField key && Fields.isOperators operators) = true := by
  obtain rfl := eq_document_of_operators ho
  obtain ⟨⟨hw, hs⟩, _⟩ := Option.ite_none_right_eq_some.1 ho
  exact ⟨rfl, by simp [isField, hk, hw, hs]⟩

theorem flags_of_given {key : String} {operators : Fields} {given : Option String}
    (h : givenFlags? key operators = .ok given) : flags? operators = given := by
  unfold givenFlags? at h
  split at h
  · rename_i hn
    rw [flags?, hn, ← Except.ok.inj h]
    rfl
  · rename_i s hs
    rw [flags?, hs, ← Except.ok.inj h]
    rfl
  · exact absurd h nofun

/-- Of all operators only `$elemMatch` has a predicate inside. -/
theorem elements_iff (operator : String) :
    (FieldOperator.find? operator).map FieldOperator.shape = some .elements
      ↔ operator = "$elemMatch" := by
  constructor
  · intro h
    obtain ⟨spec, hspec, hs⟩ := Option.map_eq_some_iff.1 h
    have all : ∀ e ∈ FieldOperator.table, e.2.shape = .elements → e.1 = "$elemMatch" := by decide
    exact all _ (mem_of_lookup hspec) hs
  · rintro rfl
    decide

theorem body_eq (operator : String) (fields : Fields) :
    body? operator (.document fields)
      = if operator = "$elemMatch" && !Fields.isOperators fields then some fields else none := by
  simp only [body?, elements_iff, Bool.and_eq_true, decide_eq_true_eq, Bool.not_eq_true']

theorem body_of_ne {operator : String} (h : operator ≠ "$elemMatch") (value : Value) :
    body? operator value = none := by
  cases value with
  | document fields =>
    rw [body_eq, if_neg]
    simp [h]
  | _ => rfl

theorem operatorHolds_of_body {I : Interpretation} {fallback : Bool} {field operator : String}
    {flags : Option String} {value : Value} {fields : Fields}
    (hb : body? operator value = some fields) (w : I.World) :
    operatorHolds I fallback field operator flags value w
      ↔ ∃ e, I.element w field e ∧ holds I fallback fields e := by
  obtain rfl := eq_document_of_body hb
  rw [body_eq] at hb
  obtain ⟨h, _⟩ := Option.ite_none_right_eq_some.1 hb
  rw [operatorHolds, if_pos h]

theorem operatorHolds_of_test {I : Interpretation} {fallback : Bool} {field operator : String}
    {flags : Option String} {value : Value} (hb : body? operator value = none) (w : I.World) :
    operatorHolds I fallback field operator flags value w
      ↔ (Atom.operator field operator flags value).holds I fallback w := by
  cases value with
  | document fields =>
    rw [body_eq] at hb
    rw [operatorHolds, if_neg (by simpa using hb)]
  | _ => rw [operatorHolds]; nofun

theorem operatorOccurrences_of_body {field operator : String} {flags : Option String}
    {value : Value} {fields : Fields} (hb : body? operator value = some fields) :
    operatorOccurrences field operator flags value
      = deeper [.element field] (occurrences fields) := by
  obtain rfl := eq_document_of_body hb
  rw [body_eq] at hb
  obtain ⟨h, _⟩ := Option.ite_none_right_eq_some.1 hb
  rw [operatorOccurrences, if_pos h]

theorem operatorOccurrences_of_test {field operator : String} {flags : Option String}
    {value : Value} (hb : body? operator value = none) :
    operatorOccurrences field operator flags value
      = [([], .operator field operator flags value)] := by
  cases value with
  | document fields =>
    rw [body_eq] at hb
    rw [operatorOccurrences, if_neg (by simpa using hb)]
  | _ => rw [operatorOccurrences]; nofun

/-! ### Tests -/

theorem exists_test_of_plainPair {key : String} {value : Value} {c : Condition}
    (h : plainPair key value = .ok c) : ∃ builder args, c = .test builder args := by
  obtain ⟨_, builder, _, args, rfl⟩ | ⟨_, rfl⟩ := plainPair_cases h
  · exact ⟨builder, args, rfl⟩
  · exact ⟨_, _, rfl⟩

/-- The condition of an operator without a predicate inside is a single test. -/
theorem exists_test_of_operatorTest {fallback : Bool} {field operator : String}
    {given : Option String} {value : Value} {c : Condition}
    (h : operatorTest fallback field operator given value = .ok c) :
    ∃ builder args, c = .test builder args := by
  obtain ⟨spec, args, _, rfl⟩ | ⟨_, rfl⟩ := operatorTest_cases h
  · exact ⟨_, _, rfl⟩
  · exact ⟨_, _, rfl⟩

theorem Atom.exists_test {fallback : Bool} {a : Atom} {c : Condition}
    (h : a.test? fallback = .ok c) : ∃ builder args, c = .test builder args := by
  cases a with
  | pair key value => exact exists_test_of_plainPair h
  | operator field op flags value => exact exists_test_of_operatorTest h

theorem Atom.holds_iff {I : Interpretation} {fallback : Bool} {a : Atom} {c : Condition}
    (h : a.test? fallback = .ok c) (w : I.World) : a.holds I fallback w ↔ c.holds I w := by
  obtain ⟨builder, args, rfl⟩ := a.exists_test h
  rw [Condition.holds]
  constructor
  · rintro ⟨builder', args', h', hw⟩
    rw [h] at h'
    obtain ⟨rfl, rfl⟩ := Condition.test.inj (Except.ok.inj h')
    exact hw
  · exact fun hw => ⟨builder, args, h, hw⟩

/-! ### The translation -/

/-- What it is for a place to say what its conditions say. -/
def Agrees (I : Interpretation) (fallback : Bool) (w : I.World) : Place → List Condition → Prop
  | .pairs fields, cs => (∀ c ∈ cs, c.holds I w) ↔ holds I fallback fields w
  | .documents items, cs => Condition.truths I cs w = documentsHold I fallback items w
  | .operators field given beside ops, cs =>
    (∀ c ∈ cs, c.holds I w) ↔ operatorsHold I fallback field given beside ops w

/-- **Every place says what its conditions say**, by induction over the derivation. -/
theorem Derives.agrees {fallback : Bool} {place : Place} {cs : List Condition}
    (h : Derives fallback place cs) (I : Interpretation) (w : I.World) :
    Agrees I fallback w place cs := by
  induction h generalizing w with
  | noPairs => simp [Agrees, holds]
  | logical hk _ _ ihd ihr =>
    have hd := ihd w
    have hr := ihr w
    simp only [Agrees] at hd hr ⊢
    rw [List.forall_mem_cons, hr, holds, pairHolds, hk, Condition.holds, hd]
  | field hk ho hg _ _ ihd ihr =>
    have hd := ihd w
    have hr := ihr w
    simp only [Agrees] at hd hr ⊢
    obtain ⟨rfl, hf⟩ := field_of_operators hk ho
    rw [List.forall_mem_append, hr, hd, holds, pairHolds, if_pos hf, flags_of_given hg, hasPattern]
  | plain hk ho hp _ ihr =>
    have hr := ihr w
    simp only [Agrees] at hr ⊢
    rw [List.forall_mem_cons, hr, holds, pairHolds_of_plain hk ho,
      Atom.holds_iff (a := .pair _ _) hp]
  | noDocuments => simp [Agrees, Condition.truths, documentsHold]
  | document _ _ ihd ihr =>
    have hd := ihd w
    have hr := ihr w
    simp only [Agrees] at hd hr ⊢
    rw [Condition.truths, documentsHold, hr, propext (Condition.together_holds _ w), propext hd]
  | noOperators => simp [Agrees, operatorsHold]
  | flags _ ih =>
    have hr := ih w
    simp only [Agrees] at hr ⊢
    rw [hr, operatorsHold]
    exact (and_iff_right (.inl ⟨rfl, rfl⟩)).symm
  | body hn hb _ _ ihb ihr =>
    have hr := ihr w
    simp only [Agrees] at ihb hr ⊢
    rw [List.forall_mem_cons, hr, operatorsHold, operatorHolds_of_body hb, Condition.holds,
      or_iff_right hn]
    simp only [Condition.together_holds, ihb]
  | operator hn hb ht _ ihr =>
    have hr := ihr w
    simp only [Agrees] at hr ⊢
    rw [List.forall_mem_cons, hr, operatorsHold, operatorHolds_of_test hb, or_iff_right hn,
      Atom.holds_iff (a := .operator ..) ht]

def asked (fallback : Bool) (found : List (List Condition.Step × Atom)) :
    List (List Condition.Step × Result Condition) :=
  found.map fun (path, a) => (path, a.test? fallback)

/-- Tests that are there, each at its place. -/
def made (found : List (List Condition.Step × String × List Code)) :
    List (List Condition.Step × Result Condition) :=
  found.map fun (path, builder, args) => (path, .ok (.test builder args))

theorem asked_append (fallback : Bool) (a b : List (List Condition.Step × Atom)) :
    asked fallback (a ++ b) = asked fallback a ++ asked fallback b :=
  List.map_append

theorem made_append (a b : List (List Condition.Step × String × List Code)) :
    made (a ++ b) = made a ++ made b :=
  List.map_append

theorem asked_deeper (fallback : Bool) (steps : List Condition.Step)
    (found : List (List Condition.Step × Atom)) :
    asked fallback (deeper steps found) = deeper steps (asked fallback found) := by
  simp [asked, deeper]

theorem made_deeper (steps : List Condition.Step)
    (found : List (List Condition.Step × String × List Code)) :
    made (deeper steps found) = deeper steps (made found) := by
  simp [made, deeper]

theorem made_of_test {fallback : Bool} {a : Atom} {c : Condition}
    (h : a.test? fallback = .ok c) :
    made c.occurrences = asked fallback [([], a)] := by
  obtain ⟨builder, args, rfl⟩ := a.exists_test h
  simp [made, asked, Condition.occurrences, h]

/-- What it is for a place to make the tests that its conditions make. -/
def Lists (fallback : Bool) : Place → List Condition → Prop
  | .pairs fields, cs =>
    made (cs.flatMap Condition.occurrences) = asked fallback (occurrences fields)
  | .documents items, cs => ∀ connective number,
    made (Condition.partsOccurrences connective number cs)
      = asked fallback (documentsOccurrences connective number items)
  | .operators field flags beside ops, cs =>
    made (cs.flatMap Condition.occurrences)
      = asked fallback (operatorsOccurrences field flags beside ops)

/-- **Every place makes the tests that its conditions make**, in the same order and at the same
places. -/
theorem Derives.lists {fallback : Bool} {place : Place} {cs : List Condition}
    (h : Derives fallback place cs) : Lists fallback place cs := by
  induction h with
  | noPairs => simp [Lists, occurrences, made, asked]
  | logical hk _ _ ihd ihr =>
    simp only [Lists] at ihd ihr ⊢
    rw [List.flatMap_cons, made_append, ihr, occurrences, asked_append, pairOccurrences, hk,
      Condition.occurrences, ihd]
  | field hk ho hg _ _ ihd ihr =>
    simp only [Lists] at ihd ihr ⊢
    obtain ⟨rfl, hf⟩ := field_of_operators hk ho
    rw [List.flatMap_append, made_append, ihr, ihd, occurrences, asked_append, pairOccurrences,
      if_pos hf, flags_of_given hg, hasPattern]
  | plain hk ho hp _ ihr =>
    simp only [Lists] at ihr ⊢
    rw [List.flatMap_cons, made_append, ihr, occurrences, asked_append,
      pairOccurrences_of_plain hk ho, made_of_test (a := .pair _ _) hp]
  | noDocuments => simp [Lists, Condition.partsOccurrences, documentsOccurrences, made, asked]
  | document _ _ ihd ihr =>
    simp only [Lists] at ihd ihr ⊢
    intro connective number
    rw [Condition.partsOccurrences, made_append, made_deeper, Condition.together_occurrences, ihd,
      ihr, documentsOccurrences, asked_append, asked_deeper]
  | noOperators => simp [Lists, operatorsOccurrences, made, asked]
  | flags _ ih =>
    simp only [Lists] at ih ⊢
    rw [ih, operatorsOccurrences, if_pos ⟨rfl, rfl⟩, List.nil_append]
  | body hn hb _ _ ihb ihr =>
    simp only [Lists] at ihb ihr ⊢
    rw [List.flatMap_cons, made_append, ihr, operatorsOccurrences, asked_append, if_neg hn,
      operatorOccurrences_of_body hb, Condition.occurrences, made_deeper,
      Condition.together_occurrences, ihb, asked_deeper]
  | operator hn hb ht _ ihr =>
    simp only [Lists] at ihr ⊢
    rw [List.flatMap_cons, made_append, ihr, operatorsOccurrences, asked_append, if_neg hn,
      operatorOccurrences_of_test hb, made_of_test (a := .operator ..) ht]

/-- **A predicate's code says what the predicate says.**  The text is that of a term, or empty for
the condition that always holds.  Whatever the tests say and whatever a field's elements are, the
term is true when the predicate is, and it makes the predicate's tests in the same order, in the
same alternatives and about the same elements. -/
theorem links_faithful {fallback : Bool} {fields : Fields} {links : List Code}
    (h : Predicate.links fallback fields = .ok links) :
    ∃ term : Condition,
      (∀ p, Query.chain p links = [] ∧ term = .anything
        ∨ Query.chain p links = Code.render p term.code)
      ∧ (∀ (I : Interpretation) (w : I.World), term.holds I w ↔ holds I fallback fields w)
      ∧ made term.occurrences = asked fallback (occurrences fields) := by
  obtain ⟨cs, hcs, rfl⟩ := map_eq_ok.1 h
  have hplace : (Place.pairs fields).conditions fallback = .ok cs := hcs
  have hd := derives_of_conditions hplace
  refine ⟨Condition.together cs, fun p => ?_, fun I w => ?_, ?_⟩
  · cases cs with
    | nil => exact .inl ⟨rfl, rfl⟩
    | cons c cs => exact .inr (by simp [Query.chain, Condition.links])
  · rw [Condition.together_holds]
    exact hd.agrees I w
  · rw [Condition.together_occurrences]
    exact hd.lists

/-- A predicate with two operators of one field, and an alternative that is empty. -/
def outsideRange : Fields :=
  [("$nor", .array [.document [("a", .document [("$gt", .int32 1), ("$lt", .int32 5)])],
    .document []])]

theorem links_faithful_outsideRange :
    ∃ links, Predicate.links false outsideRange = .ok links
      ∧ ∃ term : Condition,
        (∀ p, Query.chain p links = [] ∧ term = .anything
          ∨ Query.chain p links = Code.render p term.code)
        ∧ (∀ (I : Interpretation) (w : I.World), term.holds I w ↔ holds I false outsideRange w)
        ∧ made term.occurrences = asked false (occurrences outsideRange) :=
  ⟨_, rfl, links_faithful rfl⟩

end Predicate

end QueryScribe
