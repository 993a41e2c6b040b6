import QueryScribe.Proofs.Bytes.RoundTrip
import QueryScribe.Proofs.Value.Stable

/-!
# Values spelled by a key

A value of a kind that JSON lacks is spelled by an object with one key.  The body
of this object is itself read as a value before the object is closed, and need not
then be written as it was: the milliseconds of a date are written with `$numberLong`
and come back as a plain number if they are many.  `Spells` collects what is true
of a key, its body and the value read for the body, and `spells_or_stable` goes through
the kinds.
-/

namespace QueryScribe

open QueryScribe.Text QueryScribe.Json QueryScribe.Surrogate QueryScribe.Outcome

namespace Value

/-! ### Numbers -/

theorem ofInteger_int32 (i : Int32) : ofInteger i.toInt = int32 i := by
  rw [ofInteger, if_pos (fits32_toInt i), Int32.ofInt_toInt]

theorem ofInteger_int64 {i : Int64} (h : fits32 i.toInt = false) : ofInteger i.toInt = int64 i := by
  rw [ofInteger, if_neg (by rw [h]; decide), Int64.ofInt_toInt]

theorem ofNumber_integer {i : Int} (h : fits64 i = true) :
    ofNumber (.integer i) = ofInteger i := if_pos h

/-- An integer that is written as a plain number is written as itself. -/
theorem toJson_ofInteger {i : Int} (h : fits64 i = true) : (ofInteger i).toJson = ofInt i := by
  rw [ofInteger]
  split
  · rename_i hi
    rw [toJson, toInt_ofInt_of_fits32 hi]
  · rename_i hi
    rw [toJson, toInt_ofInt_of_fits64 h, if_neg hi]

namespace Stable

theorem null : Value.null.Stable := ⟨rfl, rfl, rfl, rfl⟩

theorem bool (b : Bool) : (Value.bool b).Stable := ⟨rfl, rfl, rfl, rfl⟩

theorem string (s : String) : (Value.string s).Stable := ⟨rfl, rfl, rfl, rfl⟩

theorem integer {i : Int} (h : fits64 i = true) : (ofInteger i).Stable := by
  have htree := toJson_ofInteger h
  have hnumber := ofNumber_integer h
  refine ⟨?_, ?_, ?_, ?_⟩
  · rw [htree]
    rfl
  · rw [htree, ofInt, ofJson?, hnumber]
  · rw [htree, ofInt, Json.fold]
    exact congrArg some hnumber
  · rw [ofInteger]
    split
    · rfl
    · rfl

theorem double (negative : Bool) (x : Magnitude) : (Value.double (.finite negative x)).Stable :=
  ⟨rfl, rfl, rfl, rfl⟩

theorem pair {k l : String} {v w : Value} (hv : v.Stable) (hw : w.Stable)
    (hkeys : k ≠ l ∧ k ∉ keys ∧ l ∉ keys) : (Value.document [(k, v), (l, w)]).Stable := by
  refine document ?_ ?_ ?_
  · intro f hf
    rcases List.mem_cons.1 hf with rfl | hf
    · exact hv
    · rw [List.mem_singleton.1 hf]
      exact hw
  · simpa using hkeys.1
  · intro f hf
    rcases List.mem_cons.1 hf with rfl | hf
    · exact hkeys.2.1
    · rw [List.mem_singleton.1 hf]
      exact hkeys.2.2

end Stable

/-! ### Keys and bodies -/

/-- A key and a body spell a value, and the body is read as a value of its own that spells the
same value in its place. -/
structure Spells (v : Value) (key : String) (body : Json) (inner : Value) : Prop where
  mem : key ∈ keys
  toJson : v.toJson = single key body
  collapse : body.collapse = body
  ofBody : ofJson? body = some inner
  foldBody : body.fold assembly = some inner
  stable : inner.Stable
  read : ofJson? (single key body) = some v.quiet
  readInner : ofJson? (single key inner.toJson) = some v.quiet

namespace Spells

variable {v inner : Value} {key : String} {body : Json}

theorem of_stable (hmem : key ∈ keys) (hinner : inner.Stable)
    (htree : v.toJson = single key inner.toJson)
    (hread : ofJson? (single key inner.toJson) = some v.quiet) :
    Spells v key inner.toJson inner :=
  ⟨hmem, htree, hinner.collapse, hinner.ofJson, hinner.fold, hinner, hread, hread⟩

theorem collapse_single (h : body.collapse = body) :
    (single key body).collapse = single key body := by
  rw [single, Json.collapse, collapseMembers_eq_map, List.map_singleton, h]
  rfl

theorem close (h : Spells v key body inner) : close? [(key, inner)] = some v.quiet := by
  rw [close?_marked List.mem_cons_self h.mem, ← h.readInner]
  exact congrArg ofJson? (collapse_single h.stable.collapse)

theorem fold (h : Spells v key body inner) : v.toJson.fold assembly = some v.quiet := by
  have hmembers : foldMembers assembly [(key, body)] = some [(key, inner)] :=
    foldMembers_cons_eq_some.2 ⟨inner, h.foldBody, [], rfl, rfl⟩
  rw [h.toJson, single, Json.fold, hmembers]
  exact h.close

/-- **What is spelled is stable**, once it is quiet. -/
theorem quiet (h : Spells v key body inner) : v.quiet.Stable where
  collapse := by rw [toJson_quiet, h.toJson, collapse_single h.collapse]
  ofJson := by rw [toJson_quiet, h.toJson, h.read]
  fold := by rw [toJson_quiet, h.fold]
  quiet := quiet_quiet v

end Spells

/-! ### Readers -/

theorem decisive?_singleton {key : String} (h : key ∈ keys) : decisive? [key] = some key := by
  cases hfound : decisive? [key] with
  | none =>
    rw [decisive?, List.find?_eq_none] at hfound
    exact absurd (List.contains_iff_mem.2 List.mem_cons_self) (hfound key h)
  | some found =>
    have hmem := List.contains_iff_mem.1 (List.find?_some hfound)
    rw [List.mem_singleton.1 hmem]

/-- An object with one surrogate key other than `$code` is read by the reader of the key. -/
theorem ofJson?_single {key : String} {read : Json → Option Value}
    (hread : (beforeCode ++ afterCode).lookup key = some read) (body : Json) :
    ofJson? (single key body) = read body := by
  have hmem : key ∈ (beforeCode ++ afterCode).map (·.1) :=
    List.mem_map_of_mem (f := (·.1)) (mem_of_lookup hread)
  have hothers : ∀ k ∈ (beforeCode ++ afterCode).map (·.1), k ∈ keys ∧ "$code" ∉ [k] := by decide
  obtain ⟨hkey, hcode⟩ := hothers key hmem
  have hobject := @ofJson?_object [(key, body)] hcode
  rw [List.map_singleton, decisive?_singleton hkey] at hobject
  rw [single, hobject]
  simp only [readSingle?, hread, Option.bind_eq_bind, Option.bind_some]

theorem long?_signed (i : Int64) : long? (String.ofList (signed i.toInt)) = some i.toInt := by
  rw [long?, String.toList_ofList, readSigned?_signed, Option.bind_eq_bind, Option.bind_some,
    if_pos (fits64_toInt i)]

theorem readLong?_signed (i : Int64) : readLong? (ofChars (signed i.toInt)) = some (int64 i) := by
  rw [readLong?, ofChars, text?]
  simp only [Option.bind_eq_bind, Option.bind_some, long?_signed, Option.pure_def,
    Int64.ofInt_toInt]

theorem objectId?_toHex (id : ObjectId) : objectId? (ofChars id.toHex) = some id := by
  rw [objectId?, ofChars, text?, Option.bind_eq_bind, Option.bind_some, String.toList_ofList,
    ObjectId.ofHex?_toHex]

theorem word?_toNat (n : UInt32) : word? (ofInt n.toNat) = some n := by
  have hlt := n.toNat_lt
  rw [ofInt, word?, if_pos ⟨by omega, by omega⟩, Int.toNat_natCast, UInt32.ofNat_toNat]

theorem readDate?_long (i : Int64) : readDate? (ofLong i) = some (dateTime i) := by
  have hread : readDate? (ofLong i) = (long? (String.ofList (signed i.toInt))).bind fun m =>
      some (dateTime (Int64.ofInt m)) := rfl
  rw [hread, long?_signed, Option.bind_some, Int64.ofInt_toInt]

theorem readDate?_number (i : Int64) : readDate? (ofInt i.toInt) = some (dateTime i) := by
  simp only [readDate?, ofInt, fits64_toInt, if_true, Option.bind_eq_bind, Option.bind_some,
    Option.pure_def, Int64.ofInt_toInt]

/-- A regular expression with its flags in order is made of its parts. -/
theorem ofParts?_regex {r : Regex} (h : r.flags.toList.Pairwise (· ≤ ·)) :
    Regex.ofParts? r.pattern r.flags = some r := by
  have hsorted : Regex.sortFlags r.flags = r.flags.toList :=
    List.mergeSort_of_pairwise (h.imp fun h => decide_eq_true h)
  obtain ⟨pattern, flags, hnul⟩ := r
  rw [Regex.ofParts?]
  simp only [hsorted, String.ofList_toList]
  exact dif_pos hnul

theorem readRegex?_parts {r : Regex} (h : r.flags.toList.Pairwise (· ≤ ·)) :
    readRegex? (.object [("pattern", .string r.pattern), ("options", .string r.flags)])
      = some (regex r) := by
  have hread : readRegex? (.object [("pattern", .string r.pattern), ("options", .string r.flags)])
      = (Regex.ofParts? r.pattern r.flags).map regex := rfl
  rw [hread, ofParts?_regex h, Option.map_some]

theorem ofHex?_subtype (b : UInt8) : Bytes.ofHex? (hexFixed 2 b.toNat) = some [b] := by
  have hdigits : hexFixed 2 b.toNat = Bytes.toHex [b] := (List.append_nil _).symm
  rw [hdigits, Bytes.ofHex?_toHex]

theorem readBinary?_parts {b : Binary} (h : b.subtype = .ofByte b.subtype.toByte) :
    readBinary? (.object [("base64", ofChars (Bytes.toBase64 b.bytes)),
      ("subType", ofChars (hexFixed 2 b.subtype.toByte.toNat))]) = some (binary b) := by
  have hbody (data subtype : Json) :
      body? ["base64", "subType"] (.object [("base64", data), ("subType", subtype)])
        = some [data, subtype] := rfl
  have htext (s : List Char) : text? (ofChars s) = some (String.ofList s) := rfl
  simp only [readBinary?, hbody, htext, Option.bind_eq_bind, Option.bind_some, String.toList_ofList,
    Bytes.ofBase64?_toBase64, ofHex?_subtype, ← h]

theorem readTimestamp?_parts (t : Timestamp) :
    readTimestamp? (.object [("t", ofInt t.time.toNat), ("i", ofInt t.increment.toNat)])
      = some (timestamp t) := by
  have hread (i j : Json) : readTimestamp? (.object [("t", i), ("i", j)])
      = (word? i).bind fun time => (word? j).bind fun increment =>
        some (timestamp ⟨time, increment⟩) := rfl
  rw [hread, word?_toNat, word?_toNat]
  rfl

theorem readPointer?_parts (target : String) (id : ObjectId) :
    readPointer? (.object [("$ref", .string target), ("$id", ofObjectId id)])
      = some (dbPointer target id) := by
  have hread : readPointer? (.object [("$ref", .string target), ("$id", ofObjectId id)])
      = (objectId? (ofChars id.toHex)).bind fun id => some (dbPointer target id) := rfl
  rw [hread, objectId?_toHex, Option.bind_some]

theorem read?_nonfinite (negative : Bool) :
    Double.read? (if negative then "-Infinity" else "Infinity").toList
        = some (.infinite negative)
      ∧ Double.read? (if negative then "-NaN" else "NaN").toList = some (.nan negative) := by
  cases negative
  · exact ⟨rfl, rfl⟩
  · exact ⟨rfl, rfl⟩

/-! ### All kinds -/

/-- A value that JSON has, and is not an object. -/
structure Bare (v : Value) : Prop where
  stable : v.Stable
  tree : ∀ members, v.toJson ≠ .object members

section Kinds

variable {v : Value} {key : String} {read : Json → Option Value}
  (hread : (beforeCode ++ afterCode).lookup key = some read)
include hread

theorem mem_keys_of_lookup : key ∈ keys := by
  have hmem := List.mem_map_of_mem (f := (·.1)) (mem_of_lookup hread)
  rw [keys, List.mem_append, List.mem_cons]
  rw [List.map_append, List.mem_append] at hmem
  exact hmem.imp_right .inr

/-- A value that the reader of a key makes of a stable body. -/
theorem spells_of_read {inner : Value} (hinner : inner.Stable)
    (htree : v.toJson = single key inner.toJson) (h : read inner.toJson = some v.quiet) :
    Spells v key inner.toJson inner := by
  refine .of_stable (mem_keys_of_lookup hread) hinner htree ?_
  rw [ofJson?_single hread, h]

end Kinds

theorem spells_int64 {i : Int64} (h : fits32 i.toInt = true) :
    Spells (int64 i) "$numberLong" (ofChars (signed i.toInt))
      (string (String.ofList (signed i.toInt))) :=
  spells_of_read (by rfl) (.string _) (if_pos h) (readLong?_signed i)

theorem bare_int64 {i : Int64} (h : fits32 i.toInt = false) : (int64 i).Bare := by
  have htree : (int64 i).toJson = ofInt i.toInt := if_neg (by rw [h]; decide)
  have hstable := Stable.integer (fits64_toInt i)
  rw [ofInteger_int64 h] at hstable
  exact ⟨hstable, by rw [htree]; exact nofun⟩

theorem stable_int64 (i : Int64) : (int64 i).Stable := by
  cases h : fits32 i.toInt with
  | false => exact (bare_int64 h).stable
  | true => exact (spells_int64 h).quiet

/-- Of a date the milliseconds are read first, and may then be a plain number. -/
theorem spells_dateTime (i : Int64) : Spells (dateTime i) "$date" (ofLong i) (int64 i) := by
  have hread (body : Json) : ofJson? (single "$date" body) = readDate? body :=
    ofJson?_single (by rfl) body
  have hlong : ofJson? (ofLong i) = some (int64 i) := by
    rw [ofLong, ofJson?_single (by rfl)]
    exact readLong?_signed i
  have hfold : (ofLong i).fold assembly = some (int64 i) := by
    have hkey : "$numberLong" ∈ keys := by decide
    have hclose : close? [("$numberLong", string (String.ofList (signed i.toInt)))]
        = ofJson? (ofLong i) := close?_marked List.mem_cons_self hkey
    rw [← hlong, ← hclose]
    rfl
  refine ⟨by decide, rfl, rfl, hlong, hfold, stable_int64 i, ?_, ?_⟩
  · rw [hread, readDate?_long]
    rfl
  · rw [hread, toJson]
    split
    · exact readDate?_long i
    · exact readDate?_number i

theorem spells_regex {r : Regex} (h : r.flags.toList.Pairwise (· ≤ ·)) :
    ∃ key body inner, Spells (regex r) key body inner := by
  have hinner := Stable.pair (.string r.pattern) (.string r.flags)
    (k := "pattern") (l := "options") (by decide)
  exact ⟨"$regularExpression", _, _, spells_of_read (by rfl) hinner rfl (readRegex?_parts h)⟩

theorem spells_binary {b : Binary} (h : b.subtype = .ofByte b.subtype.toByte) :
    ∃ key body inner, Spells (binary b) key body inner := by
  have hinner := Stable.pair (.string (String.ofList (Bytes.toBase64 b.bytes)))
    (.string (String.ofList (hexFixed 2 b.subtype.toByte.toNat)))
    (k := "base64") (l := "subType") (by decide)
  exact ⟨"$binary", _, _, spells_of_read (by rfl) hinner rfl (readBinary?_parts h)⟩

theorem spells_timestamp (t : Timestamp) :
    ∃ key body inner, Spells (timestamp t) key body inner := by
  have htime := fits64_word t.time
  have hincrement := fits64_word t.increment
  have hinner := Stable.pair (.integer htime) (.integer hincrement)
    (k := "t") (l := "i") (by decide)
  have hpair (v w : Value) : (document [("t", v), ("i", w)]).toJson
      = .object [("t", v.toJson), ("i", w.toJson)] := rfl
  have htree := hpair (ofInteger t.time.toNat) (ofInteger t.increment.toNat)
  rw [toJson_ofInteger htime, toJson_ofInteger hincrement] at htree
  have hlookup : (beforeCode ++ afterCode).lookup "$timestamp" = some readTimestamp? := rfl
  refine ⟨"$timestamp", _, _, spells_of_read hlookup hinner ?_ ?_⟩
  · rw [htree]
    rfl
  · rw [htree]
    exact readTimestamp?_parts t

theorem spells_dbPointer (target : String) (id : ObjectId) :
    ∃ key body inner, Spells (dbPointer target id) key body inner := by
  have hid : Spells (objectId id) "$oid" _ _ := spells_of_read (by rfl) (.string _) rfl
    (congrArg (Option.map objectId) (objectId?_toHex id))
  have hinner := Stable.pair (.string target) hid.quiet (k := "$ref") (l := "$id") (by decide)
  exact ⟨"$dbPointer", _, _, spells_of_read (by rfl) hinner rfl (readPointer?_parts target id)⟩

/-- **A simple value is bare or spelled by a key.** -/
theorem spells_or_bare : ∀ v : Value, v.isSimple = true →
    v.Bare ∨ ∃ key body inner, Spells v key body inner
  | null, _ => .inl ⟨.null, nofun⟩
  | bool b, _ => .inl ⟨.bool b, nofun⟩
  | string s, _ => .inl ⟨.string s, nofun⟩
  | int32 i, _ => by
    have hi := Stable.integer (fits64_of_fits32 (fits32_toInt i))
    rw [ofInteger_int32] at hi
    exact .inl ⟨hi, nofun⟩
  | int64 i, _ => by
    cases h : fits32 i.toInt with
    | false => exact .inl (bare_int64 h)
    | true => exact .inr ⟨_, _, _, spells_int64 h⟩
  | double (.finite negative x), _ => .inl ⟨.double negative x, nofun⟩
  | double (.infinite negative), _ => by
    refine .inr ⟨"$numberDouble", _, _, spells_of_read (by rfl) (.string _) rfl ?_⟩
    exact congrArg (Option.map double) (read?_nonfinite negative).1
  | double (.nan negative), _ => by
    refine .inr ⟨"$numberDouble", _, _, spells_of_read (by rfl) (.string _) rfl ?_⟩
    exact congrArg (Option.map double) (read?_nonfinite negative).2
  | objectId id, _ => by
    refine .inr ⟨"$oid", _, _, spells_of_read (by rfl) (.string _) rfl ?_⟩
    exact congrArg (Option.map objectId) (objectId?_toHex id)
  | regex r, h => .inr (spells_regex (of_decide_eq_true h))
  | dateTime i, _ => .inr ⟨_, _, _, spells_dateTime i⟩
  | decimal128 d, _ => by
    refine .inr ⟨"$numberDecimal", _, _, spells_of_read (by rfl) (.string _) rfl ?_⟩
    have hread := congrArg (Option.map decimal128) (Decimal128.read?_write d)
    rw [← String.toList_ofList (l := d.write)] at hread
    exact hread
  | binary b, h => .inr (spells_binary (of_decide_eq_true h))
  | timestamp t, _ => .inr (spells_timestamp t)
  | symbol s, _ => .inr ⟨"$symbol", _, _, spells_of_read (by rfl) (.string s) rfl rfl⟩
  | javaScript code, _ => by
    refine .inr ⟨"$code", _, _, .of_stable (by decide) (.string code) rfl ?_⟩
    rw [toJson, single, ofJson?]
    rfl
  | dbPointer target id, _ => .inr (spells_dbPointer target id)
  | minKey, _ =>
    .inr ⟨"$minKey", _, _, spells_of_read (by rfl) (.integer (i := 1) (by decide)) rfl rfl⟩
  | maxKey, _ =>
    .inr ⟨"$maxKey", _, _, spells_of_read (by rfl) (.integer (i := 1) (by decide)) rfl rfl⟩
  | undefined, _ => .inr ⟨"$undefined", _, _, spells_of_read (by rfl) (.bool true) rfl rfl⟩

end Value

end QueryScribe
