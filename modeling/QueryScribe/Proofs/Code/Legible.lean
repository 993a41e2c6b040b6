import QueryScribe.Proofs.Bytes.RoundTrip
import QueryScribe.Proofs.Code.StringReading
import QueryScribe.Proofs.Code.Tame
import QueryScribe.Proofs.Double.Written
import QueryScribe.Proofs.Options.Packages
import QueryScribe.Proofs.Text.Separation
import QueryScribe.Proofs.Value.Alike
import QueryScribe.Proofs.Value.Recognition
import QueryScribe.Value.Basic

/-!
# Literals are legible

The literal of a value can be read back from the generated text, up to what generated
code does not show.  What stands before the first mark names the genus of the value:
a number, a constant, or a type of the database package (`genusOf?_literal`).  Values of one
genus are written in one way, around strings that hold their own ends and parts with
marks behind them, so their texts tell the parts (`Tell`).  `tell_literal` puts the genera
together by induction over the size of the value.  Two values that were read have one literal only
if they differ in numbers and texts; any two values may also differ in subtypes of one byte.
-/

namespace QueryScribe.Value

open QueryScribe.Text QueryScribe.Layout QueryScribe.Code QueryScribe.Options

/-! ### Words without marks -/

instance (t : List Char) : Decidable (Unmarked t) :=
  decidable_of_iff (t.all (fun c => !isMark c) = true) (by simp [Unmarked])

/-- The characters of a class that no mark belongs to. -/
theorem unmarked_of_class {p : Char → Bool} (hp : separators.all (fun d => !p d) = true)
    {t : List Char} (h : ∀ c ∈ t, p c = true) : Unmarked t := by
  intro c hc
  rw [isMark, List.contains_eq_mem, decide_eq_false_iff_not]
  intro hm
  have := List.all_eq_true.1 hp c hm
  rw [h c hc] at this
  exact absurd this nofun

theorem unmarked_of_numeral {t : List Char} (h : ∀ c ∈ t, isNumeral c = true) : Unmarked t :=
  unmarked_of_class (by decide) h

theorem unmarked_identifier {s : List Char} (hs : isIdentifier s = true) : Unmarked s :=
  unmarked_of_class (by decide +kernel) fun _ hc => continuesIdentifier_of_mem hs hc

/-! ### The genus of a literal -/

/-- What the first word of a literal says about its value. -/
inductive Genus where
  | text
  | integer
  | double
  | null
  | bool
  /-- The result of a conversion of a string. -/
  | parsed
  /-- A value of a database type. -/
  | type (name : String)
  deriving DecidableEq

def genus : Value → Genus
  | null => .null
  | bool _ => .bool
  | int32 _ | int64 _ => .integer
  | double _ => .double
  | string _ | regex _ => .text
  | array _ => .type "A"
  | document _ => .type "D"
  | objectId _ | decimal128 _ => .parsed
  | dateTime _ => .type "DateTime"
  | binary _ => .type "Binary"
  | timestamp _ => .type "Timestamp"
  | symbol _ => .type "Symbol"
  | javaScript _ => .type "JavaScript"
  | javaScriptWithScope _ _ => .type "CodeWithScope"
  | dbPointer _ _ => .type "DBPointer"
  | minKey => .type "MinKey"
  | maxKey => .type "MaxKey"
  | undefined => .type "Undefined"

/-- The genus that a first word other than a string names. -/
def Genus.ofStem (s : List Char) : Genus :=
  if s.head?.any isWholePart then if s.all isWholePart then .integer else .double
  else match s.dropWhile (· ≠ '.') with
    | [] => if s = "nil".toList then .null else if s = "func".toList then .parsed else .bool
    | _ :: ident =>
      if ident = "Inf".toList ∨ ident = "NaN".toList then .double else .type (String.ofList ident)

def genusOf? (t : List Char) : Option Genus :=
  if t.head? = some '"' then some .text
  else if stem t = [] then none
  else some (.ofStem (stem t))

theorem genusOf?_append {a r : List Char} (ha : Unmarked a) (hne : a ≠ []) (hr : Marked r) :
    genusOf? (a ++ r) = some (.ofStem a) := by
  have hq : (a ++ r).head? ≠ some '"' := by
    cases a with
    | nil => exact absurd rfl hne
    | cons c a =>
      intro h
      obtain rfl := Option.some.inj h
      exact absurd (ha _ List.mem_cons_self) (by decide)
  rw [genusOf?, if_neg hq, stem_append ha hr, if_neg hne]

theorem ofStem_signed (i : Int) : Genus.ofStem (signed i) = .integer := by
  have all : ∀ c ∈ signed i, isWholePart c = true := fun _ hc => isWholePart_signed hc
  obtain ⟨c, t, hs⟩ := List.exists_cons_of_ne_nil (signed_ne_nil i)
  have hfirst : (signed i).head?.any isWholePart = true := by
    rw [hs] at all ⊢
    exact all c List.mem_cons_self
  rw [Genus.ofStem, if_pos hfirst, if_pos (List.all_eq_true.2 all)]

theorem ofStem_double {t : List Char} (h : IsDouble t) : Genus.ofStem t = .double := by
  obtain ⟨⟨c, r, rfl, hc⟩, d, hd, hmark⟩ := h
  have hall : ¬ (c :: r).all isWholePart = true := by
    intro h
    rw [List.all_eq_true.1 h d hd] at hmark
    exact absurd hmark nofun
  rw [Genus.ofStem, List.head?_cons, Option.any_some, if_pos hc, if_neg hall]

section Package

variable {p : Packages} (hp : isIdentifier p.bson.toList = true)
include hp

theorem qualified_bson (type : String) :
    qualified p .bson type = p.bson.toList ++ '.' :: type.toList := by
  obtain ⟨c, r, h, _⟩ := exists_cons_of_isIdentifier hp
  rw [qualified, packageName, h]
  rfl

/-- A name from the database package names its type. -/
theorem ofStem_qualified {type : String} (ht : type ≠ "Inf" ∧ type ≠ "NaN") :
    Genus.ofStem (qualified p .bson type) = .type type := by
  have hpoint : ∀ c ∈ p.bson.toList, decide (c ≠ '.') = true := fun c hc => by
    have := notMem_of_isIdentifier hp (c := '.') (by decide +kernel)
    simp only [decide_eq_true_eq]
    rintro rfl
    exact this hc
  have hfirst : ¬ (qualified p .bson type).head?.any isWholePart = true := by
    obtain ⟨c, r, h, hc⟩ := exists_cons_of_isIdentifier hp
    rw [qualified_bson hp, h, List.cons_append, List.head?_cons, Option.any_some]
    intro hw
    have apart : "-0123456789".toList.all (fun d => !startsIdentifier d) = true := by
      decide +kernel
    have := List.all_eq_true.1 apart c (mem_of_isWholePart hw)
    rw [hc] at this
    exact absurd this nofun
  have hname : ¬ (type.toList = "Inf".toList ∨ type.toList = "NaN".toList) := by
    rw [String.toList_inj, String.toList_inj, not_or]
    exact ht
  rw [Genus.ofStem, if_neg hfirst, qualified_bson hp, List.dropWhile_append_of_pos hpoint,
    List.dropWhile_cons_of_neg (by decide)]
  dsimp only
  rw [if_neg hname, String.ofList_toList]

theorem unmarked_qualified {type : String} (ht : Unmarked type.toList) :
    Unmarked (qualified p .bson type) := by
  rw [qualified_bson hp]
  refine (unmarked_identifier hp).append fun c hc => ?_
  rcases List.mem_cons.1 hc with rfl | hc
  · decide
  · exact ht c hc

/-- What stands in brackets behind the name of a type is of that type. -/
theorem genusOf?_named {type : String} (ht : Unmarked type.toList ∧ type ≠ "Inf" ∧ type ≠ "NaN")
    (b : Bracket) (items : List Code) (r : List Char) :
    genusOf? (render p (.seq [.name .bson type, .group b items []]) ++ r) = some (.type type) := by
  have hne : qualified p .bson type ≠ [] := by
    rw [qualified_bson hp]
    simp
  have hopen : isMark b.opener = true := by cases b <;> decide
  have hr := marked_cons hopen (arguments (renderAll p items) [] ++ [b.closer] ++ r)
  have h := genusOf?_append (unmarked_qualified hp ht.1) hne hr
  rw [ofStem_qualified hp ht.2] at h
  rw [← h]
  simp [render, renderAll]

end Package

theorem genusOf?_word {p : Packages} {w : String} {g : Genus}
    (hw : Unmarked w.toList ∧ w.toList ≠ [] ∧ Genus.ofStem w.toList = g) (parts : List Code)
    {r : List Char} (hr : Marked ((renderAll p parts).flatten ++ r)) :
    genusOf? (render p (.seq (.word w :: parts)) ++ r) = some g := by
  have h := genusOf?_append hw.1 hw.2.1 hr
  rw [hw.2.2] at h
  rw [← h]
  simp [render, renderAll]

theorem render_wordOf (p : Packages) (s : List Char) : render p (wordOf s) = s := by
  rw [wordOf, render, String.toList_ofList]

theorem unmarked_signed (i : Int) : Unmarked (signed i) := unmarked_of_numeral (numeral_signed i)

theorem genusOf?_double {p : Packages} (d : Double) {r : List Char} (hr : Marked r) :
    genusOf? (render p (doubleCode d) ++ r) = some .double := by
  cases d with
  | finite negative x =>
    have hx := isDouble_writeFinite .code negative x
    have hne : Double.writeFinite .code negative x ≠ [] := by
      obtain ⟨⟨c, t, h, _⟩, _⟩ := hx
      rw [h]
      exact List.cons_ne_nil c t
    rw [doubleCode, render_wordOf,
      genusOf?_append (unmarked_of_numeral (numeral_writeFinite _ _ _)) hne hr, ofStem_double hx]
  | infinite negative => exact genusOf?_word (by decide) _ (marked_cons (by decide) _)
  | nan _ => exact genusOf?_word (by decide) _ (marked_cons (by decide) _)

theorem genusOf?_parsed {p : Packages} (type reader binding : String) (text r : List Char) :
    genusOf? (render p (parsedCode type reader binding text) ++ r) = some .parsed :=
  genusOf?_word (by decide) _ (marked_cons (by decide) _)

/-- **The first word of a literal names the genus of its value.** -/
theorem genusOf?_literal {p : Packages} (hp : isIdentifier p.bson.toList = true) (v : Value)
    {r : List Char} (hr : Marked r) : genusOf? (render p v.literal ++ r) = some v.genus := by
  have word {w : String} {g : Genus}
      (hw : Unmarked w.toList ∧ w.toList ≠ [] ∧ Genus.ofStem w.toList = g) :
      genusOf? (render p (.word w) ++ r) = some g := by
    rw [render, genusOf?_append hw.1 hw.2.1 hr, hw.2.2]
  have integer (i : Int) : genusOf? (render p (wordOf (signed i)) ++ r) = some .integer := by
    rw [render_wordOf, genusOf?_append (unmarked_signed i) (signed_ne_nil i) hr, ofStem_signed]
  have quoted (s : String) : genusOf? (render p (.quoted s) ++ r) = some .text := by
    rw [render]
    rfl
  cases v with
  | null => exact word (by decide)
  | bool b => cases b <;> exact word (by decide)
  | int32 i => exact integer _
  | int64 i => exact integer _
  | double d => exact genusOf?_double d hr
  | string s => exact quoted s
  | regex x => exact quoted x.pattern
  | objectId id => exact genusOf?_parsed _ _ _ _ r
  | decimal128 d => exact genusOf?_parsed _ _ _ _ r
  | _ => exact genusOf?_named hp (by decide) _ _ r

/-! ### What texts tell -/

section Tell

variable {p : Packages} {c d e g : Code} {R S : Prop}

theorem tell_of_genus (hp : isIdentifier p.bson.toList = true) {v w : Value}
    (h : v.genus = w.genus → Tell (render p v.literal) (render p w.literal) R) :
    Tell (render p v.literal) (render p w.literal) R := by
  intro r s hr hs he
  have hv := genusOf?_literal hp v hr
  rw [he, genusOf?_literal hp w hs] at hv
  exact h (Option.some.inj hv).symm r s hr hs he

theorem tell_quoted (s t : String) :
    Tell (render p (.quoted s)) (render p (.quoted t)) (s = t) := by
  intro r u _ _ h
  rw [render, render] at h
  exact StringLiteral.write_append_inj h

theorem tell_word {s t : String} (hs : Unmarked s.toList) (ht : Unmarked t.toList) :
    Tell (render p (.word s)) (render p (.word t)) (s = t) := by
  rw [render, render]
  exact (tell_unmarked hs ht).mono String.toList_inj.1

theorem tell_wordOf {s t : List Char} (hs : Unmarked s) (ht : Unmarked t) :
    Tell (render p (wordOf s)) (render p (wordOf t)) (s = t) := by
  rw [render_wordOf, render_wordOf]
  exact tell_unmarked hs ht

theorem tell_integer (i j : Int) :
    Tell (render p (wordOf (signed i))) (render p (wordOf (signed j))) (i = j) :=
  (tell_wordOf (unmarked_signed i) (unmarked_signed j)).mono signed_inj

theorem tell_natural (m n : Nat) :
    Tell (render p (wordOf (decimal m))) (render p (wordOf (decimal n))) (m = n) :=
  (tell_wordOf (unmarked_of_numeral (numeral_decimal m))
    (unmarked_of_numeral (numeral_decimal n))).mono decimal_inj

/-- The text of one argument in brackets behind something that is the same. -/
theorem tell_enclosed (front : Code) (b : Bracket) (h : Tell (render p c) (render p d) R) :
    Tell (render p (.seq [front, .group b [c] []])) (render p (.seq [front, .group b [d] []]))
      R := by
  have hclose : isMark b.closer = true := by cases b <;> decide
  have text (x : Code) : render p (.seq [front, .group b [x] []])
      = (render p front ++ [b.opener]) ++ (render p x ++ [b.closer]) := by
    simp [render, renderAll, arguments, List.intercalate]
  rw [text, text]
  exact (h.before hclose []).behind _

theorem tell_two (b : Bracket) (h : Tell (render p c) (render p d) R)
    (k : Tell (render p e) (render p g) S) :
    Tell (render p (.group b [c, e] [])) (render p (.group b [d, g] [])) (R ∧ S) := by
  have hclose : isMark b.closer = true := by cases b <;> decide
  have text (x y : Code) : render p (.group b [x, y] [])
      = [b.opener] ++ (render p x ++ ',' :: ([' '] ++ (render p y ++ [b.closer]))) := by
    simp [render, renderAll, arguments, List.intercalate]
  rw [text, text]
  have second : Tell (',' :: ([' '] ++ (render p e ++ [b.closer])))
      (',' :: ([' '] ++ (render p g ++ [b.closer]))) S :=
    (k.before hclose []).behind [',', ' ']
  exact (h.append (by decide) (by decide) second).behind _

/-- What stands behind pieces that are the same. -/
theorem tell_behind (front : List Code) (h : Tell (render p c) (render p d) R) :
    Tell (render p (.seq (front ++ [c]))) (render p (.seq (front ++ [d]))) R := by
  have text (x : Code) : render p (.seq (front ++ [x]))
      = (renderAll p front).flatten ++ render p x := by
    simp [render, renderAll_eq_map]
  rw [text, text]
  exact h.behind _

theorem tell_parts (type a b : String) (h : Tell (render p c) (render p d) R)
    (k : Tell (render p e) (render p g) S) :
    Tell (render p (composite type [part a c, part b e]))
      (render p (composite type [part a d, part b g])) (R ∧ S) :=
  tell_behind [.name .bson type]
    (tell_two .curly (tell_behind [.word (a ++ ": ")] h) (tell_behind [.word (b ++ ": ")] k))

theorem tell_list {α : Type} {f : α → Code} {Q : α → α → Prop} {xs ys : List α}
    (each : ∀ x ∈ xs, ∀ y ∈ ys, Tell (render p (f x)) (render p (f y)) (Q x y))
    (begins : ∀ x r s, Marked r → render p (f x) ++ r ≠ '\x7d' :: s) :
    Tell (render p (.group .curly (xs.map f) [])) (render p (.group .curly (ys.map f) []))
      (List.Forall₂ Q xs ys) := by
  have text (zs : List α) : render p (.group .curly (zs.map f) [])
      = ['\x7b'] ++ ([',', ' '].intercalate (zs.map fun z => render p (f z)) ++ ['\x7d']) := by
    simp [render, renderAll_eq_map, arguments, Bracket.opener, Bracket.closer, Function.comp_def]
  rw [text, text]
  exact (tell_listed (by decide) (by decide) each fun x _ => begins x).behind _

theorem tell_parsed (type reader binding : String) (s t : List Char) :
    Tell (render p (parsedCode type reader binding s)) (render p (parsedCode type reader binding t))
      (s = t) := by
  have text (x : List Char) : render p (parsedCode type reader binding x)
      = ("func() ".toList ++ qualified p .bson type ++ " \x7b".toList
          ++ (" " ++ binding ++ ", _ := ").toList ++ qualified p .bson reader ++ ['('])
        ++ (render p (.quoted (String.ofList x))
          ++ ')' :: (("; return " ++ binding ++ " ").toList ++ "\x7d()".toList)) := by
    simp [parsedCode, render, renderAll, arguments, List.intercalate, Bracket.opener,
      Bracket.closer]
  rw [text, text]
  refine (((tell_quoted _ _).before (by decide) _).behind _).mono fun h => ?_
  rw [← String.toList_ofList (l := s), h, String.toList_ofList]

/-- Conversions to types whose names begin apart. -/
theorem tell_types (hp : isIdentifier p.bson.toList = true) {type type' : String}
    (ht : ∀ r s, type.toList ++ r ≠ type'.toList ++ s) (reader binding reader' binding' : String)
    (s t : List Char) :
    Tell (render p (parsedCode type reader binding s))
      (render p (parsedCode type' reader' binding' t)) R := by
  have text (type reader binding : String) (s : List Char) :
      ∃ rest, render p (parsedCode type reader binding s)
        = ("func() ".toList ++ p.bson.toList ++ ['.']) ++ (type.toList ++ rest) := by
    obtain ⟨tail, h⟩ : ∃ tail, parsedCode type reader binding s
        = .seq ([.word "func", .group .round [] [], .word " ", .name .bson type] ++ tail) :=
      ⟨_, rfl⟩
    refine ⟨(renderAll p tail).flatten, ?_⟩
    rw [h]
    simp [render, renderAll_eq_map, qualified_bson hp, arguments, List.intercalate, Bracket.opener,
      Bracket.closer]
  obtain ⟨rest, h⟩ := text type reader binding s
  obtain ⟨rest', h'⟩ := text type' reader' binding' t
  rw [h, h']
  refine Tell.behind _ fun r u _ _ he => ?_
  rw [List.append_assoc, List.append_assoc] at he
  exact absurd he (ht _ _)

/-- A double with digits and one that goes by a name. -/
theorem tell_finite_named (negative : Bool) (x : Magnitude) (t : List Char) :
    Tell (render p (doubleCode (.finite negative x))) ('m' :: t) R := by
  obtain ⟨⟨c, u, h, hc⟩, _⟩ := isDouble_writeFinite .code negative x
  have hne : c ≠ 'm' := by
    rintro rfl
    exact absurd hc (by decide)
  rw [doubleCode, render_wordOf, h]
  exact tell_of_ne hne u t

theorem tell_infinite_nan (m n : Bool) :
    Tell (render p (doubleCode (.infinite m))) (render p (doubleCode (.nan n))) R :=
  (tell_of_ne (by decide : 'I' ≠ 'N') _ _).behind "math.".toList

theorem tell_double (a b : Double) :
    Tell (render p (doubleCode a)) (render p (doubleCode b)) (doubleCode a = doubleCode b) := by
  cases a with
  | finite m x =>
    cases b with
    | finite n y =>
      exact (tell_wordOf (unmarked_of_numeral (numeral_writeFinite _ _ _))
        (unmarked_of_numeral (numeral_writeFinite _ _ _))).mono fun h => by
          rw [doubleCode, doubleCode, h]
    | infinite n => exact tell_finite_named m x _
    | nan n => exact tell_finite_named m x _
  | infinite m =>
    have sign (b : Bool) : Unmarked (if b then "-1" else "1").toList := by cases b <;> decide
    cases b with
    | finite n y => exact (tell_finite_named n y _).symm
    | infinite n =>
      exact (tell_enclosed (.word "math.Inf") .round (tell_word (sign m) (sign n))).mono fun h => by
        rw [doubleCode, doubleCode, h]
    | nan n => exact tell_infinite_nan m n
  | nan m =>
    cases b with
    | finite n y => exact (tell_finite_named n y _).symm
    | infinite n => exact (tell_infinite_nan n m).symm
    | nan n => exact (tell_refl _).mono fun _ => rfl

theorem tell_byte (a b : UInt8) :
    Tell (render p (byteCode a)) (render p (byteCode b)) (a = b) := by
  have unmarked (c : UInt8) : Unmarked ('0' :: 'x' :: hexFixed 2 c.toNat) :=
    Unmarked.append (a := ['0', 'x']) (by decide) (unmarked_of_numeral (numeral_hexFixed 2 c.toNat))
  refine (tell_wordOf (unmarked a) (unmarked b)).mono fun h => ?_
  have hbytes : Bytes.toHex [a] = Bytes.toHex [b] := by
    rw [Bytes.toHex_cons, Bytes.toHex_cons, (List.cons.inj (List.cons.inj h).2).2]
  have hread := Bytes.ofHex?_toHex [a]
  rw [hbytes, Bytes.ofHex?_toHex] at hread
  exact (List.cons.inj (Option.some.inj hread)).1.symm

theorem tell_bytes (a b : List UInt8) :
    Tell (render p (.seq [.group .square [] [], .word "byte", .group .curly (a.map byteCode) []]))
      (render p (.seq [.group .square [] [], .word "byte", .group .curly (b.map byteCode) []]))
      (a = b) := by
  refine (tell_behind [.group .square [] [], .word "byte"]
    (tell_list (fun x _ y _ => tell_byte x y) fun x r s _ => ?_)).mono fun h => ?_
  · rw [byteCode, render_wordOf]
    exact fun he => absurd (List.cons.inj he).1 (by decide)
  · rwa [List.forall₂_eq_eq_eq] at h

theorem tell_objectId (a b : ObjectId) :
    Tell (render p (objectIdCode a)) (render p (objectIdCode b)) (a = b) := by
  refine (tell_parsed _ _ _ _ _).mono fun h => ?_
  have hread := ObjectId.ofHex?_toHex a
  rw [h, ObjectId.ofHex?_toHex] at hread
  exact (Option.some.inj hread).symm

/-- Object identifiers and decimals are both converted, but to different types. -/
theorem tell_objectId_decimal (hp : isIdentifier p.bson.toList = true) (id : ObjectId)
    (d : Decimal128) :
    Tell (render p (objectIdCode id)) (render p (Value.decimal128 d).literal) R := by
  refine tell_types hp (fun r s h => ?_) _ _ _ _ _ _
  exact absurd (List.cons.inj h).1 (by decide)

end Tell

/-! ### Integers and strings -/

theorem exists_integer_of_genus {v : Value} (h : v.genus = .integer) :
    ∃ i, v.integer? = some i := by
  cases v with
  | int32 i => exact ⟨_, rfl⟩
  | int64 i => exact ⟨_, rfl⟩
  | _ => cases h

theorem exists_text_of_genus {v : Value} (h : v.genus = .text) : ∃ s, v.string? = some s := by
  cases v with
  | string s => exact ⟨_, rfl⟩
  | regex r => exact ⟨_, rfl⟩
  | _ => cases h

theorem tell_integers {p : Packages} {v w : Value} {i : Int} (hv : v.integer? = some i)
    (hg : v.genus = w.genus) (h : v.genus = .integer) :
    Tell (render p v.literal) (render p w.literal) (Unshown v w) := by
  obtain ⟨j, hw⟩ := exists_integer_of_genus (hg.symm.trans h)
  rw [literal_of_integer hv, literal_of_integer hw]
  refine (tell_integer i j).mono ?_
  rintro rfl
  exact .integers hv hw

theorem tell_texts {p : Packages} {v w : Value} {s : String} (hv : v.string? = some s)
    (hg : v.genus = w.genus) (h : v.genus = .text) :
    Tell (render p v.literal) (render p w.literal) (Unshown v w) := by
  obtain ⟨t, hw⟩ := exists_text_of_genus (hg.symm.trans h)
  rw [literal_of_text hv, literal_of_text hw]
  refine (tell_quoted s t).mono ?_
  rintro rfl
  exact .texts hv hw

/-! ### Words and composites -/

section

variable {p : Packages}

theorem tell_bool (a b : Bool) :
    Tell (render p (bool a).literal) (render p (bool b).literal) (a = b) := by
  have word (b : Bool) : Unmarked (if b then "true" else "false").toList := by cases b <;> decide
  refine (tell_word (word a) (word b)).mono fun h => ?_
  cases a <;> cases b <;> simp_all

theorem tell_dateTime (a b : Int64) :
    Tell (render p (dateTime a).literal) (render p (dateTime b).literal) (a = b) :=
  (tell_enclosed _ .round (tell_integer _ _)).mono Int64.toInt_inj.1

theorem tell_timestamp (a b : Timestamp) :
    Tell (render p (timestamp a).literal) (render p (timestamp b).literal) (a = b) := by
  refine (tell_parts _ _ _ (tell_natural _ _) (tell_natural _ _)).mono fun h => ?_
  obtain ⟨ta, ia⟩ := a
  obtain ⟨tb, ib⟩ := b
  obtain rfl := UInt32.toNat_inj.1 h.1
  obtain rfl := UInt32.toNat_inj.1 h.2
  rfl

/-- The literal of a binary tells the byte of its subtype, but not the subtype. -/
theorem tell_binary (a b : Binary) :
    Tell (render p (binary a).literal) (render p (binary b).literal)
      (OneByte (.binary a) (.binary b)) :=
  (tell_parts _ _ _ (tell_byte _ _) (tell_bytes _ _)).mono fun h => .binaries h.1 h.2

theorem tell_dbPointer (s t : String) (a b : ObjectId) :
    Tell (render p (dbPointer s a).literal) (render p (dbPointer t b).literal) (s = t ∧ a = b) :=
  tell_parts _ _ _ (tell_quoted s t) (tell_objectId a b)

end

/-- Values whose literal does not begin with the name of a database type: words, numbers, strings
and conversions of strings. -/
theorem tell_untyped {p : Packages} (hp : isIdentifier p.bson.toList = true) {v w : Value}
    (hv : ∀ type, v.genus ≠ .type type) (hg : v.genus = w.genus) :
    Tell (render p v.literal) (render p w.literal) (Alike Hidden v w) := by
  have unshown {a b : Value} : Unshown a b → Alike Hidden a b := fun h => .base (.inl h)
  cases v with
  | null =>
    cases w with
    | null => exact (tell_refl _).mono fun _ => .refl _
    | _ => cases hg
  | bool a =>
    cases w with
    | bool b => exact (tell_bool a b).mono fun h => h ▸ .refl _
    | _ => cases hg
  | int32 i => exact (tell_integers rfl hg rfl).mono unshown
  | int64 i => exact (tell_integers rfl hg rfl).mono unshown
  | double a =>
    cases w with
    | double b => exact (tell_double a b).mono fun h => unshown (.doubles h)
    | _ => cases hg
  | string s => exact (tell_texts rfl hg rfl).mono unshown
  | regex r => exact (tell_texts rfl hg rfl).mono unshown
  | objectId a =>
    cases w with
    | objectId b => exact (tell_objectId a b).mono fun h => h ▸ .refl _
    | decimal128 d => exact tell_objectId_decimal hp a d
    | _ => cases hg
  | decimal128 a =>
    cases w with
    | decimal128 b => exact (tell_parsed _ _ _ _ _).mono fun h => unshown (.decimals h)
    | objectId b => exact (tell_objectId_decimal hp b a).symm
    | _ => cases hg
  | _ => exact absurd rfl (hv _)

/-- The genera of values that hold other values. -/
def containers : List Genus := [.type "A", .type "D", .type "CodeWithScope"]

/-- Values that hold no other values. -/
theorem tell_leaf {p : Packages} (hp : isIdentifier p.bson.toList = true) {v w : Value}
    (hv : v.genus ∉ containers) (hg : v.genus = w.genus) :
    Tell (render p v.literal) (render p w.literal) (Alike Hidden v w) := by
  cases v with
  | array | document | javaScriptWithScope => exact absurd hv (by simp [genus, containers])
  | dateTime a =>
    cases w with
    | dateTime b => exact (tell_dateTime a b).mono fun h => h ▸ .refl _
    | _ => exact absurd hg (by simp [genus])
  | binary a =>
    cases w with
    | binary b => exact (tell_binary a b).mono fun h => .base (.inr h)
    | _ => exact absurd hg (by simp [genus])
  | timestamp a =>
    cases w with
    | timestamp b => exact (tell_timestamp a b).mono fun h => h ▸ .refl _
    | _ => exact absurd hg (by simp [genus])
  | symbol s =>
    cases w with
    | symbol t => exact (tell_enclosed _ .round (tell_quoted s t)).mono fun h => h ▸ .refl _
    | _ => exact absurd hg (by simp [genus])
  | javaScript s =>
    cases w with
    | javaScript t => exact (tell_enclosed _ .round (tell_quoted s t)).mono fun h => h ▸ .refl _
    | _ => exact absurd hg (by simp [genus])
  | dbPointer s a =>
    cases w with
    | dbPointer t b =>
      refine (tell_dbPointer s t a b).mono ?_
      rintro ⟨rfl, rfl⟩
      exact .refl _
    | _ => exact absurd hg (by simp [genus])
  | minKey =>
    cases w with
    | minKey => exact (tell_refl _).mono fun _ => .refl _
    | _ => exact absurd hg (by simp [genus])
  | maxKey =>
    cases w with
    | maxKey => exact (tell_refl _).mono fun _ => .refl _
    | _ => exact absurd hg (by simp [genus])
  | undefined =>
    cases w with
    | undefined => exact (tell_refl _).mono fun _ => .refl _
    | _ => exact absurd hg (by simp [genus])
  | _ => exact tell_untyped hp nofun hg

/-! ### Arrays and documents -/

theorem literals_eq_map (items : List Value) : literals items = items.map literal := by
  induction items with
  | nil => rw [literals, List.map_nil]
  | cons v r ih => rw [literals, ih, List.map_cons]

theorem entries_eq_map (fields : Fields) :
    entries fields = fields.map fun (k, v) => pairCode k v.literal := by
  induction fields with
  | nil => rw [entries, List.map_nil]
  | cons f r ih => rw [entries, ih, List.map_cons]

theorem AlikeItems.of_forall₂ {R : Value → Value → Prop} {vs ws : List Value}
    (h : List.Forall₂ (Alike R) vs ws) : AlikeItems R vs ws := by
  induction h with
  | nil => exact .nil
  | cons h _ ih => exact .cons h ih

theorem AlikeFields.of_forall₂ {R : Value → Value → Prop} {fs gs : Fields}
    (h : List.Forall₂ (fun f g => f.1 = g.1 ∧ Alike R f.2 g.2) fs gs) : AlikeFields R fs gs := by
  induction h with
  | nil => exact .nil
  | @cons f g fs gs h _ ih =>
    obtain ⟨k, v⟩ := f
    obtain ⟨l, w⟩ := g
    obtain ⟨rfl, hv⟩ := h
    exact .cons k hv ih

section Values

variable {p : Packages} (hp : isIdentifier p.bson.toList = true)
include hp

theorem tell_items {vs ws : List Value}
    (each : ∀ v ∈ vs, ∀ w, Tell (render p v.literal) (render p w.literal) (Alike Hidden v w)) :
    Tell (render p (array vs).literal) (render p (array ws).literal) (AlikeItems Hidden vs ws) := by
  rw [literal, literal, literals_eq_map, literals_eq_map]
  refine (tell_behind [.name .bson "A"]
    (tell_list (fun v hv w _ => each v hv w) fun v r s hr he => ?_)).mono .of_forall₂
  have hg := genusOf?_literal hp v hr
  rw [he] at hg
  exact absurd hg nofun

omit hp in
theorem tell_fields {fs gs : Fields}
    (each : ∀ f ∈ fs, ∀ w, Tell (render p f.2.literal) (render p w.literal) (Alike Hidden f.2 w)) :
    Tell (render p (composite "D" (entries fs))) (render p (composite "D" (entries gs)))
      (AlikeFields Hidden fs gs) := by
  rw [entries_eq_map, entries_eq_map]
  refine (tell_behind [.name .bson "D"] (tell_list
    (fun f hf g _ => tell_two .curly (tell_quoted f.1 g.1) (each f hf g.2))
    fun f r s _ he => ?_)).mono .of_forall₂
  exact absurd (List.cons.inj he).1 (by decide)

omit hp in
/-- The literal of code with a scope tells the code and the fields of the scope. -/
theorem tell_withScope (s t : String) {fs gs : Fields}
    (each : ∀ f ∈ fs, ∀ w, Tell (render p f.2.literal) (render p w.literal) (Alike Hidden f.2 w)) :
    Tell (render p (javaScriptWithScope s fs).literal) (render p (javaScriptWithScope t gs).literal)
      (Alike Hidden (.javaScriptWithScope s fs) (.javaScriptWithScope t gs)) := by
  refine (tell_parts _ _ _ (tell_enclosed _ .round (tell_quoted s t)) (tell_fields each)).mono ?_
  rintro ⟨rfl, h⟩
  exact .scope s h

/-- **Literals tell that their values are alike**, by induction over the size of the value: the
first word leaves the values of one genus, and those hold values that are smaller. -/
theorem tell_literal (v w : Value) :
    Tell (render p v.literal) (render p w.literal) (Alike Hidden v w) := by
  induction v using induction_on_size generalizing w with
  | step v ih =>
    refine tell_of_genus hp fun hg => ?_
    cases v with
    | array vs =>
      cases w with
      | array ws =>
        refine (tell_items hp fun v hv => ih v ?_).mono .array
        have := List.sizeOf_lt_of_mem hv
        rw [array.sizeOf_spec]
        omega
      | _ => exact absurd hg (by simp [genus])
    | document fs =>
      cases w with
      | document gs =>
        exact (tell_fields fun f hf => ih f.2 (sizeOf_lt_document hf)).mono .document
      | _ => exact absurd hg (by simp [genus])
    | javaScriptWithScope s fs =>
      cases w with
      | javaScriptWithScope t gs =>
        refine tell_withScope s t fun f hf => ih f.2 ?_
        have := sizeOf_field hf
        rw [javaScriptWithScope.sizeOf_spec]
        omega
      | _ => exact absurd hg (by simp [genus])
    | _ => exact tell_leaf hp (by simp [genus, containers]) hg

/-- **Literals are unique**: the values with the same literal are those that differ, at any depth,
only in what generated code does not show. -/
theorem literal_unique (v w : Value) :
    render p v.literal = render p w.literal ↔ Alike Hidden v w := by
  constructor
  · intro h
    exact (tell_literal hp v w [] [] nofun nofun (by rw [h])).1
  · intro h
    rw [h.literal_eq fun h => h.elim Unshown.literal_eq OneByte.literal_eq]

/-- Of values that were read, the literal hides only widths and digits of numbers and what is a
pattern: no two subtypes of one byte are read. -/
theorem literal_unique_of_read {s t : String} {v w : Value} (hv : ofText s = .ok v)
    (hw : ofText t = .ok w) :
    render p v.literal = render p w.literal ↔ Alike Unshown v w := by
  constructor
  · intro h
    exact ((literal_unique hp v w).1 h).unshown (clean_of_ofText hv) (clean_of_ofText hw)
  · intro h
    rw [h.literal_eq Unshown.literal_eq]

end Values

/-- A quote and a comma in a string do not make two strings of one. -/
theorem literal_unique_quotes :
    isIdentifier "bson".toList = true
      ∧ (render ⟨"gmqb", "bson"⟩ (array [string "a\", \"b"]).literal
          = render ⟨"gmqb", "bson"⟩ (array [string "a", string "b"]).literal
        ↔ Alike Hidden (array [string "a\", \"b"]) (array [string "a", string "b"])) :=
  ⟨by decide +kernel, literal_unique (by decide +kernel) _ _⟩

/-- A UUID and a binary of the user-defined subtype four differ in more than numbers and texts,
and have one literal. -/
theorem literal_of_uuid :
    isIdentifier "bson".toList = true
      ∧ render ⟨"gmqb", "bson"⟩ (binary ⟨.uuid, [1]⟩).literal
        = render ⟨"gmqb", "bson"⟩ (binary ⟨.userDefined 4, [1]⟩).literal
      ∧ ¬ Alike Unshown (binary ⟨.uuid, [1]⟩) (binary ⟨.userDefined 4, [1]⟩) := by
  refine ⟨by decide +kernel, by rw [literal, literal]; rfl, fun h => ?_⟩
  cases h with
  | base h =>
    cases h with
    | integers h => cases h
    | texts h => cases h

end QueryScribe.Value
