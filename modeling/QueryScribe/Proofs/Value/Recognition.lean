import QueryScribe.Proofs.Value.Alike
import QueryScribe.Proofs.Value.Decoded

/-!
# Surrogate keys are recognized

An object becomes a document exactly when it has no surrogate key, and then keeps its fields as they
stand.  With such a key it becomes a value of another kind or nothing, and its keys are those of
a spelling.  So a surrogate key is never left in a document that was read, however deep, and no
scope repeats a key (`surrogates_recognized`).  A binary that was read has the subtype of its byte,
and so the byte tells the subtype (`Alike.unshown`).

An object is closed when its members have been decoded, written again and merged.  What is read from
a merged tree is clean at every depth (`clean_of_ofJson?`), and so only the fields of the object
itself have to be looked at.
-/

namespace QueryScribe.Value

open QueryScribe.Json QueryScribe.Surrogate QueryScribe.Outcome

/-! ### Parts -/

/-- A value at any depth in another one. -/
inductive Part : Value → Value → Prop
  | self (v : Value) : Part v v
  | element {u v : Value} {items : List Value} (hv : v ∈ items) (h : Part u v) :
      Part u (.array items)
  | field {u : Value} {fields : Fields} {f : String × Value} (hf : f ∈ fields) (h : Part u f.2) :
      Part u (.document fields)
  | binding {u : Value} {code : String} {scope : Fields} {f : String × Value} (hf : f ∈ scope)
      (h : Part u f.2) : Part u (.javaScriptWithScope code scope)

/-- What reading sees to in a value itself: a document has no surrogate key, a scope repeats no key,
and a binary has the subtype of its byte. -/
def Fits : Value → Prop
  | document fields => Plain fields
  | javaScriptWithScope _ scope => (scope.map (·.1)).Nodup
  | binary b => b.subtype = .ofByte b.subtype.toByte
  | _ => True

/-- A value that fits at every depth. -/
def Clean (v : Value) : Prop := ∀ u, Part u v → u.Fits

theorem clean_simple {v : Value} (h : v.isSimple = true) : v.Clean := by
  intro u hu
  cases hu with
  | self =>
    cases v with
    | binary b => exact show b.subtype = .ofByte b.subtype.toByte from of_decide_eq_true h
    | array | document | javaScriptWithScope => cases h
    | _ => trivial
  | element => cases h
  | field => cases h
  | binding => cases h

theorem clean_array {items : List Value} (h : ∀ v ∈ items, v.Clean) : (array items).Clean := by
  intro u hu
  cases hu with
  | self => trivial
  | element hv hu => exact h _ hv u hu

theorem clean_document {fields : Fields} (h : ∀ f ∈ fields, f.2.Clean) (hplain : Plain fields) :
    (document fields).Clean := by
  intro u hu
  cases hu with
  | self => exact hplain
  | field hf hu => exact h _ hf u hu

theorem clean_withScope {code : String} {scope : Fields} (h : ∀ f ∈ scope, f.2.Clean)
    (hkeys : (scope.map (·.1)).Nodup) : (javaScriptWithScope code scope).Clean := by
  intro u hu
  cases hu with
  | self => exact hkeys
  | binding hf hu => exact h _ hf u hu

/-! ### Merged trees -/

theorem exists_of_mem_ofItems? {items : List Json} {vs : List Value}
    (h : ofItems? items = some vs) : ∀ v ∈ vs, ∃ j ∈ items, ofJson? j = some v := by
  induction items generalizing vs with
  | nil =>
    cases h
    exact nofun
  | cons j r ih =>
    obtain ⟨v, hv, rest, hrest, rfl⟩ := ofItems?_cons_eq_some.1 h
    intro u hu
    rcases List.mem_cons.1 hu with rfl | hu
    · exact ⟨j, List.mem_cons_self, hv⟩
    · obtain ⟨k, hk, hread⟩ := ih hrest u hu
      exact ⟨k, List.mem_cons_of_mem j hk, hread⟩

theorem exists_of_mem_ofMembers? {members : List (String × Json)} {fields : Fields}
    (h : ofMembers? members = some fields) :
    ∀ f ∈ fields, ∃ m ∈ members, m.1 = f.1 ∧ ofJson? m.2 = some f.2 := by
  induction members generalizing fields with
  | nil =>
    cases h
    exact nofun
  | cons m r ih =>
    obtain ⟨v, hv, rest, hrest, rfl⟩ := ofMembers?_cons_eq_some.1 h
    intro f hf
    rcases List.mem_cons.1 hf with rfl | hf
    · exact ⟨m, List.mem_cons_self, rfl, hv⟩
    · obtain ⟨n, hn, hread⟩ := ih hrest f hf
      exact ⟨n, List.mem_cons_of_mem m hn, hread⟩

theorem ofMembers?_keys {members : List (String × Json)} {fields : Fields}
    (h : ofMembers? members = some fields) : fields.map (·.1) = members.map (·.1) := by
  induction members generalizing fields with
  | nil =>
    cases h
    rfl
  | cons m r ih =>
    obtain ⟨v, hv, rest, hrest, rfl⟩ := ofMembers?_cons_eq_some.1 h
    rw [List.map_cons, List.map_cons, ih hrest]

/-- What is read from the merged members of an object, when what is in the object is read clean. -/
theorem clean_of_ofMembers? {members : List (String × Json)} {fields : Fields}
    (ih : ∀ m ∈ members, ∀ v, ofJson? m.2.collapse = some v → v.Clean)
    (h : ofMembers? (distinct (collapseMembers members)) = some fields) :
    (∀ f ∈ fields, f.2.Clean) ∧ (fields.map (·.1)).Nodup := by
  refine ⟨?_, ?_⟩
  · intro f hf
    obtain ⟨m, hm, -, hread⟩ := exists_of_mem_ofMembers? h f hf
    obtain ⟨n, hn, rfl⟩ := exists_of_mem_collapse hm
    exact ih n hn f.2 hread
  · rw [ofMembers?_keys h]
    exact nodup_distinct _

/-- **What is read from a merged tree is clean**, by induction over the size of the tree: a scope is
two levels inside the object that has it. -/
theorem clean_of_ofJson? {j : Json} {v : Value} (h : ofJson? j.collapse = some v) : v.Clean := by
  induction hn : sizeOf j using Nat.strongRecOn generalizing j v with
  | ind n ih =>
    subst hn
    have below {members : List (String × Json)} (hsize : sizeOf members < sizeOf j) :
        ∀ m ∈ members, ∀ v, ofJson? m.2.collapse = some v → v.Clean := by
      intro m hm v hv
      have hlt := List.sizeOf_lt_of_mem hm
      obtain ⟨key, k⟩ := m
      rw [Prod.mk.sizeOf_spec] at hlt
      exact ih (sizeOf k) (by omega) hv rfl
    cases j with
    | array items =>
      rw [Json.collapse, ofJson?] at h
      obtain ⟨vs, hvs, rfl⟩ := Option.map_eq_some_iff.1 h
      refine clean_array fun v hv => ?_
      obtain ⟨k, hk, hread⟩ := exists_of_mem_ofItems? hvs v hv
      rw [collapseItems_eq_map] at hk
      obtain ⟨i, hi, rfl⟩ := List.mem_map.1 hk
      have hlt := List.sizeOf_lt_of_mem hi
      exact ih (sizeOf i) (by rw [Json.array.sizeOf_spec]; omega) hread rfl
    | object members =>
      have hmembers := @below members (by rw [Json.object.sizeOf_spec]; omega)
      rw [Json.collapse] at h
      by_cases hplain : ∀ m ∈ distinct (collapseMembers members), m.1 ∉ keys
      · rw [ofJson?_plain hplain] at h
        obtain ⟨fields, hfields, rfl⟩ := Option.map_eq_some_iff.1 h
        refine clean_document (clean_of_ofMembers? hmembers hfields).1 fun f hf => ?_
        obtain ⟨m, hm, hkey, -⟩ := exists_of_mem_ofMembers? hfields f hf
        exact hkey ▸ hplain m hm
      · push Not at hplain
        obtain ⟨-, hsimple | ⟨code, tree, scope, htree, hscope, rfl⟩⟩ := ofJson?_marked hplain h
        · exact clean_simple hsimple
        · obtain ⟨⟨key, k⟩, hk, heq⟩ := exists_of_mem_collapse htree
          obtain ⟨inner, rfl, rfl⟩ := eq_object_of_collapse (Prod.mk.inj heq).2.symm
          have hlt := List.sizeOf_lt_of_mem hk
          rw [Prod.mk.sizeOf_spec] at hlt
          have hinner := @below inner (by rw [Json.object.sizeOf_spec] at hlt ⊢; omega)
          obtain ⟨hvalues, hnodup⟩ := clean_of_ofMembers? hinner hscope
          exact clean_withScope hvalues hnodup
    | number n =>
      obtain rfl : ofNumber n = v := Option.some.inj h
      exact clean_simple (simple_ofNumber n).1
    | null | bool | string =>
      obtain rfl := Option.some.inj h
      exact clean_simple rfl

/-! ### Objects and texts -/

/-- An object of clean values is closed as a clean value. -/
theorem clean_of_close? {fields : Fields} {v : Value} (h : ∀ f ∈ fields, f.2.Clean)
    (hv : close? fields = some v) : v.Clean := by
  by_cases hplain : Plain fields
  · rw [close?_plain hplain] at hv
    cases hv
    exact clean_document h hplain
  · obtain ⟨f, hf, hkey⟩ := exists_of_not_plain hplain
    rw [close?_marked hf hkey] at hv
    exact clean_of_ofJson? hv

theorem assembly_makes_clean : assembly.Makes fun _ v => v.Clean where
  null := clean_simple rfl
  bool _ := clean_simple rfl
  number n := clean_simple (simple_ofNumber n).1
  string _ := clean_simple rfl
  array h := by
    refine clean_array fun v hv => ?_
    obtain ⟨_, hclean⟩ := h v hv
    exact hclean
  object h hv := by
    refine clean_of_close? (fun m hm => ?_) hv
    obtain ⟨_, hclean⟩ := h m hm
    exact hclean

theorem clean_of_ofText {text : String} {v : Value} (h : ofText text = .ok v) : v.Clean := by
  obtain ⟨_, _, _, _, _, _, hclean⟩ := readWith_made assembly_makes_clean h
  exact hclean

/-- An object with a surrogate key spells a value of another kind, if it is closed at all. -/
theorem spelling_of_close? {fields : Fields} {v : Value} (h : ¬ Plain fields)
    (hv : close? fields = some v) :
    Spelling (fields.map (·.1)) ∧ ∀ d, v ≠ document d := by
  obtain ⟨hclose, hmarked⟩ := close?_of_not_plain h
  rw [hclose] at hv
  obtain ⟨hspelling, -⟩ := ofJson?_marked hmarked hv
  simp only [Spelling, mem_keys_merged] at hspelling
  refine ⟨hspelling, ?_⟩
  rintro d rfl
  exact ofJson?_ne_document hmarked d hv

theorem close?_eq_document_iff {fields d : Fields} :
    close? fields = some (document d) ↔ Plain fields ∧ d = fields := by
  constructor
  · intro h
    by_cases hplain : Plain fields
    · rw [close?_plain hplain] at h
      cases h
      exact ⟨hplain, rfl⟩
    · exact absurd rfl ((spelling_of_close? hplain h).2 d)
  · rintro ⟨hplain, rfl⟩
    exact close?_plain hplain

/-- **Surrogate keys are recognized.**  The members of an object make a document exactly when none
of them has a surrogate key, and then just these in their order.  With a surrogate key they make
no document, and something only if their keys are those of a spelling.  So in a value that was
read, no document at any depth has a surrogate key, and no scope repeats a key. -/
theorem surrogates_recognized :
    (∀ fields d : Fields, close? fields = some (document d) ↔ Plain fields ∧ d = fields)
      ∧ (∀ (fields : Fields) (v : Value), ¬ Plain fields → close? fields = some v →
        Spelling (fields.map (·.1)) ∧ ∀ d, v ≠ document d)
      ∧ ∀ (text : String) (v : Value), ofText text = .ok v →
        (∀ fields, Part (document fields) v → Plain fields)
          ∧ ∀ code scope, Part (javaScriptWithScope code scope) v → (scope.map (·.1)).Nodup := by
  refine ⟨fun fields d => close?_eq_document_iff, fun fields v h hv => spelling_of_close? h hv, ?_⟩
  intro text v h
  have hclean := clean_of_ofText h
  exact ⟨fun fields hpart => hclean _ hpart, fun code scope hpart => hclean _ hpart⟩

/-- The scope that a symbol leaves. -/
def symbolScope : Fields := [("$symbol", .string "s")]

/-- A document that repeats a key, with such a scope in it. -/
def scopedFields : Fields := [("a", .javaScriptWithScope "f" symbolScope), ("a", .int32 1)]

def scopedText : String :=
  "\x7b\"a\":\x7b\"$code\":\"f\",\"$scope\":\x7b\"$symbol\":\"s\"\x7d\x7d,\"a\":1\x7d"

/-- The key of a symbol is left in a scope, and only there. -/
theorem surrogates_recognized_scope :
    ofText scopedText = .ok (.document scopedFields)
      ∧ Plain scopedFields ∧ (symbolScope.map (·.1)).Nodup
      ∧ ¬ Plain symbolScope ∧ close? symbolScope = some (.symbol "s") ∧ Spelling ["$symbol"] := by
  have hread : ofText scopedText = .ok (.document scopedFields) := by
    have htext : scopedText.toList = (Value.document scopedFields).toJson.compact := by decide
    rw [ofText, htext]
    exact readWith_compact (bounded_toJson _) rfl (by decide)
  have hmarked : ¬ Plain symbolScope := fun h => h _ List.mem_cons_self (by decide)
  have hclose : close? symbolScope = some (.symbol "s") := rfl
  obtain ⟨-, hobject, htext⟩ := surrogates_recognized
  obtain ⟨hplain, hscopes⟩ := htext _ _ hread
  have hpart : Part (.javaScriptWithScope "f" symbolScope) (.document scopedFields) :=
    .field List.mem_cons_self (.self _)
  exact ⟨hread, hplain _ (.self _), hscopes _ _ hpart, hmarked, hclose,
    (hobject _ _ hmarked hclose).1⟩

/-! ### Bytes of subtypes -/

namespace Clean

theorem element {items : List Value} (h : (array items).Clean) : ∀ v ∈ items, v.Clean :=
  fun _ hv u hu => h u (.element hv hu)

theorem field {fields : Fields} (h : (document fields).Clean) : ∀ f ∈ fields, f.2.Clean :=
  fun _ hf u hu => h u (.field hf hu)

theorem binding {code : String} {scope : Fields} (h : (javaScriptWithScope code scope).Clean) :
    ∀ f ∈ scope, f.2.Clean :=
  fun _ hf u hu => h u (.binding hf hu)

theorem binary_eq {a b : Binary} (ha : (binary a).Clean) (hb : (binary b).Clean)
    (hsubtype : a.subtype.toByte = b.subtype.toByte) (hbytes : a.bytes = b.bytes) : a = b := by
  obtain ⟨s, bytes⟩ := a
  obtain ⟨t, bytes'⟩ := b
  have hs : s = .ofByte s.toByte := ha _ (.self _)
  have ht : t = .ofByte t.toByte := hb _ (.self _)
  obtain rfl : bytes = bytes' := hbytes
  rw [hs, ht, show s.toByte = t.toByte from hsubtype]

end Clean

mutual
/-- The byte of a clean binary tells its subtype, so that only numbers and texts are alike. -/
theorem Alike.unshown : ∀ {v w : Value}, Alike Hidden v w → v.Clean → w.Clean → Alike Unshown v w
  | _, _, .refl v, _, _ => .refl v
  | _, _, .base (.inl h), _, _ => .base h
  | _, _, .base (.inr (.binaries hs hb)), hv, hw => hv.binary_eq hw hs hb ▸ .refl _
  | _, _, .array h, hv, hw => .array (h.unshown hv.element hw.element)
  | _, _, .document h, hv, hw => .document (h.unshown hv.field hw.field)
  | _, _, .scope code h, hv, hw => .scope code (h.unshown hv.binding hw.binding)
theorem AlikeItems.unshown : ∀ {vs ws : List Value}, AlikeItems Hidden vs ws →
    (∀ v ∈ vs, v.Clean) → (∀ w ∈ ws, w.Clean) → AlikeItems Unshown vs ws
  | _, _, .nil, _, _ => .nil
  | _, _, .cons h hr, hv, hw =>
    .cons (h.unshown (List.forall_mem_cons.1 hv).1 (List.forall_mem_cons.1 hw).1)
      (hr.unshown (List.forall_mem_cons.1 hv).2 (List.forall_mem_cons.1 hw).2)
theorem AlikeFields.unshown : ∀ {fs gs : Fields}, AlikeFields Hidden fs gs →
    (∀ f ∈ fs, f.2.Clean) → (∀ g ∈ gs, g.2.Clean) → AlikeFields Unshown fs gs
  | _, _, .nil, _, _ => .nil
  | _, _, .cons key h hr, hv, hw =>
    .cons key (h.unshown (List.forall_mem_cons.1 hv).1 (List.forall_mem_cons.1 hw).1)
      (hr.unshown (List.forall_mem_cons.1 hv).2 (List.forall_mem_cons.1 hw).2)
end

end QueryScribe.Value
