import QueryScribe.Builder.Literal

/-!
# Values with one literal

Generated code has one kind of whole numbers and no regular expressions as values, some numbers are
printed alike (`Unshown`), and of a binary's subtype only the byte is printed (`OneByte`).
`Alike` identifies values that differ only in this, at any depth.  Keys, their order and their
number are never identified.  `Alike.literal_eq` says that values that are alike have the same
literal.
-/

namespace QueryScribe.Value

def integer? : Value → Option Int
  | int32 i => some i.toInt
  | int64 i => some i.toInt
  | _ => none

/-- The text of a string, or the pattern of a regular expression. -/
def string? : Value → Option String
  | string s => some s
  | regex r => some r.pattern
  | _ => none

/-- What generated code does not show of a number or a text: the width of an integer, that a string
is a pattern, and digits that are not printed. -/
inductive Unshown : Value → Value → Prop
  | integers {v w : Value} {i : Int} : v.integer? = some i → w.integer? = some i → Unshown v w
  | texts {v w : Value} {s : String} : v.string? = some s → w.string? = some s → Unshown v w
  | doubles {a b : Double} : doubleCode a = doubleCode b → Unshown (.double a) (.double b)
  | decimals {a b : Decimal128} : a.write = b.write → Unshown (.decimal128 a) (.decimal128 b)

/-- Binaries with the same bytes and with subtypes of one byte, such as that of a UUID and the
user-defined one of byte four. -/
inductive OneByte : Value → Value → Prop
  | binaries {a b : Binary} : a.subtype.toByte = b.subtype.toByte → a.bytes = b.bytes →
      OneByte (.binary a) (.binary b)

/-- All that generated code does not show of a value that holds no others. -/
def Hidden (v w : Value) : Prop := Unshown v w ∨ OneByte v w

section

variable (R : Value → Value → Prop)

mutual
/-- Values that are the same up to `R` at any depth. -/
inductive Alike : Value → Value → Prop
  | refl (v : Value) : Alike v v
  | base {v w : Value} : R v w → Alike v w
  | array {vs ws : List Value} : AlikeItems vs ws → Alike (.array vs) (.array ws)
  | document {fs gs : Fields} : AlikeFields fs gs → Alike (.document fs) (.document gs)
  | scope (code : String) {fs gs : Fields} : AlikeFields fs gs →
      Alike (.javaScriptWithScope code fs) (.javaScriptWithScope code gs)
/-- Arrays of the same length with elements that are alike, one by one. -/
inductive AlikeItems : List Value → List Value → Prop
  | nil : AlikeItems [] []
  | cons {v w : Value} {vs ws : List Value} : Alike v w → AlikeItems vs ws →
      AlikeItems (v :: vs) (w :: ws)
/-- Documents with the same keys in the same order and with values that are alike, one by one. -/
inductive AlikeFields : Fields → Fields → Prop
  | nil : AlikeFields [] []
  | cons (key : String) {v w : Value} {fs gs : Fields} : Alike v w → AlikeFields fs gs →
      AlikeFields ((key, v) :: fs) ((key, w) :: gs)
end

end

theorem literal_of_integer {v : Value} {i : Int} (h : v.integer? = some i) :
    v.literal = wordOf (Text.signed i) := by
  cases v with
  | int32 i =>
    obtain rfl := Option.some.inj h
    rw [literal]
  | int64 i =>
    obtain rfl := Option.some.inj h
    rw [literal]
  | _ => cases h

theorem literal_of_text {v : Value} {s : String} (h : v.string? = some s) :
    v.literal = .quoted s := by
  cases v with
  | string s =>
    obtain rfl := Option.some.inj h
    rw [literal]
  | regex r =>
    obtain rfl := Option.some.inj h
    rw [literal]
  | _ => cases h

theorem Unshown.literal_eq {v w : Value} (h : Unshown v w) : v.literal = w.literal := by
  cases h with
  | integers hv hw => rw [literal_of_integer hv, literal_of_integer hw]
  | texts hv hw => rw [literal_of_text hv, literal_of_text hw]
  | doubles h => rw [literal, literal, h]
  | decimals h => rw [literal, literal, h]

theorem OneByte.literal_eq {v w : Value} (h : OneByte v w) : v.literal = w.literal := by
  cases h with
  | binaries hsubtype hbytes => rw [literal, literal, hsubtype, hbytes]

section

variable {R : Value → Value → Prop}

mutual
/-- Values that are alike have the same literal, if those in `R` have. -/
theorem Alike.literal_eq (base : ∀ {v w : Value}, R v w → v.literal = w.literal) :
    ∀ {v w : Value}, Alike R v w → v.literal = w.literal
  | _, _, .refl v => rfl
  | _, _, .base h => base h
  | _, _, .array h => by rw [literal, literal, h.literals_eq base]
  | _, _, .document h => by rw [literal, literal, h.entries_eq base]
  | _, _, .scope code h => by rw [literal, literal, h.entries_eq base]
theorem AlikeItems.literals_eq (base : ∀ {v w : Value}, R v w → v.literal = w.literal) :
    ∀ {vs ws : List Value}, AlikeItems R vs ws → literals vs = literals ws
  | _, _, .nil => rfl
  | _, _, .cons h hr => by rw [literals, literals, h.literal_eq base, hr.literals_eq base]
theorem AlikeFields.entries_eq (base : ∀ {v w : Value}, R v w → v.literal = w.literal) :
    ∀ {fs gs : Fields}, AlikeFields R fs gs → entries fs = entries gs
  | _, _, .nil => rfl
  | _, _, .cons key h hr => by rw [entries, entries, h.literal_eq base, hr.entries_eq base]
end

end

end QueryScribe.Value
