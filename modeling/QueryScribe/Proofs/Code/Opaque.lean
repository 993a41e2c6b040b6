import QueryScribe.Proofs.Code.Queries

/-!
# Literals are opaque to the scan

The scan of a line finds nothing in a string literal, and in the literal of a value
only the brackets that the literal itself puts around its parts.  What stands behind is
scanned as if it stood alone, whether it can be scanned or not.

Literals name nothing but database types, so they do not depend on how the
builder's package is called (`render_literal`), and nothing is asked of its name.
-/

namespace QueryScribe.Value

open QueryScribe.Layout QueryScribe.Code QueryScribe.Options

/-! ### Names in literals -/

section Names

variable {p q : Packages}

theorem qualified_bson_eq (h : p.bson = q.bson) (type : String) :
    qualified p .bson type = qualified q .bson type := by
  have hname : packageName p .bson = packageName q .bson := h
  rw [qualified, qualified, hname]

theorem render_composite (h : p.bson = q.bson) (type : String) {items : List Code}
    (hi : renderAll p items = renderAll q items) :
    render p (composite type items) = render q (composite type items) := by
  simp only [composite, render, renderAll, qualified_bson_eq h, hi]

theorem render_convert (h : p.bson = q.bson) (type : String) {arg : Code}
    (ha : render p arg = render q arg) :
    render p (convert type arg) = render q (convert type arg) := by
  simp only [convert, render, renderAll, qualified_bson_eq h, ha]

theorem render_parsed (h : p.bson = q.bson) (type reader binding : String) (text : List Char) :
    render p (parsedCode type reader binding text)
      = render q (parsedCode type reader binding text) := by
  simp only [parsedCode, render, renderAll, qualified_bson_eq h]

theorem render_part (name : String) {value : Code} (hv : render p value = render q value) :
    render p (part name value) = render q (part name value) := by
  simp only [part, render, renderAll, hv]

theorem render_word (text : List Char) : render p (wordOf text) = render q (wordOf text) := by
  simp only [wordOf, render]

theorem render_double (d : Double) : render p (doubleCode d) = render q (doubleCode d) := by
  cases d with
  | finite negative x => exact render_word _
  | infinite negative => simp only [doubleCode, render, renderAll]
  | nan negative => simp only [doubleCode, render, renderAll]

theorem renderAll_pair {c d : Code} (hc : render p c = render q c) (hd : render p d = render q d) :
    renderAll p [c, d] = renderAll q [c, d] := by
  simp only [renderAll, hc, hd]

theorem render_bytes (bytes : List UInt8) :
    renderAll p (bytes.map byteCode) = renderAll q (bytes.map byteCode) := by
  induction bytes with
  | nil => rfl
  | cons b r ih => rw [List.map_cons, renderAll, renderAll, ih, byteCode, render_word]

mutual
/-- **A literal names nothing from the builder's package.** -/
theorem render_literal (h : p.bson = q.bson) : ∀ v : Value, render p v.literal = render q v.literal
  | .null | .bool _ | .string _ | .regex _ => by simp only [literal, render]
  | .int32 _ | .int64 _ => by rw [literal]; exact render_word _
  | .double d => by rw [literal]; exact render_double d
  | .array items => by rw [literal]; exact render_composite h "A" (render_literals h items)
  | .document fields => by rw [literal]; exact render_composite h "D" (render_entries h fields)
  | .objectId id => by rw [literal]; exact render_parsed h _ _ _ _
  | .dateTime t => by rw [literal]; exact render_convert h _ (render_word _)
  | .decimal128 d => by rw [literal]; exact render_parsed h _ _ _ _
  | .binary b => by
    rw [literal]
    refine render_composite h _ (renderAll_pair (render_part _ (render_word _)) (render_part _ ?_))
    simp only [render, renderAll, render_bytes (p := p) (q := q)]
  | .timestamp t => by
    rw [literal]
    exact render_composite h _
      (renderAll_pair (render_part _ (render_word _)) (render_part _ (render_word _)))
  | .symbol s | .javaScript s => by
    rw [literal]
    exact render_convert h _ (by simp only [render])
  | .javaScriptWithScope code scope => by
    have hcode : render p (convert "JavaScript" (.quoted code))
        = render q (convert "JavaScript" (.quoted code)) :=
      render_convert h _ (by simp only [render])
    rw [literal]
    exact render_composite h _ (renderAll_pair (render_part _ hcode)
      (render_part _ (render_composite h "D" (render_entries h scope))))
  | .dbPointer target id => by
    rw [literal]
    exact render_composite h _ (renderAll_pair (render_part _ (by simp only [render]))
      (render_part _ (render_parsed h _ _ _ _)))
  | .minKey | .maxKey | .undefined => by rw [literal]; exact render_composite h _ rfl
theorem render_literals (h : p.bson = q.bson) :
    ∀ vs : List Value, renderAll p (literals vs) = renderAll q (literals vs)
  | [] => by rw [literals, renderAll, renderAll]
  | v :: r => by rw [literals, renderAll, renderAll, render_literal h v, render_literals h r]
theorem render_entries (h : p.bson = q.bson) :
    ∀ fields : List (String × Value), renderAll p (entries fields) = renderAll q (entries fields)
  | [] => by rw [entries, renderAll, renderAll]
  | (k, v) :: r => by
    simp only [entries, renderAll, pairCode, render, render_literal h v, render_entries h r]
end

end Names

/-! ### The scan -/

/-- **Literals are opaque to the scan.**  Behind a string literal the scan goes on as if it had
just begun.  Behind the literal of a value, with any identifier for the database package, it does
too, and before the brackets of what stands there it has found a well-nested word. -/
theorem literals_opaque :
    (∀ (s : String) (rest : List Char), scan ((quote s).toList ++ rest) = scan rest)
      ∧ ∀ p : Packages, isIdentifier p.bson.toList = true → ∀ v : Value,
        ∃ w, Nested w ∧ ∀ rest, scan (render p v.literal ++ rest) = (scan rest).map (w ++ ·) := by
  refine ⟨fun s rest => ?_, fun p hp v => ?_⟩
  · rw [quote, String.toList_ofList, passes_write]
    cases scan rest <;> rfl
  · have hvalid : (Options.mk "" p.bson false true).Valid := valid_iff.2 ⟨.inl rfl, hp⟩
    have htame : TamePackages ⟨"", p.bson⟩ := hvalid.firmPackages.tame
    obtain ⟨w, hw, hnested⟩ := whole_render htame (inline_literal v).tame
    refine ⟨w, hnested, fun rest => ?_⟩
    have hrender : render p v.literal = render ⟨"", p.bson⟩ v.literal :=
      @render_literal p ⟨"", p.bson⟩ rfl v
    rw [hrender, hw.passes]

/-- A quote with a bracket in a key, slashes in code and a grave accent in its scope. -/
theorem literals_opaque_scope :
    isIdentifier "bson".toList = true
      ∧ ∃ w, Nested w ∧ ∀ rest,
        scan (render ⟨"gmqb", "bson"⟩
          (document [("a\")", javaScriptWithScope "//" [("\x60", minKey)])]).literal ++ rest)
          = (scan rest).map (w ++ ·) :=
  ⟨by decide +kernel, literals_opaque.2 ⟨"gmqb", "bson"⟩ (by decide +kernel) _⟩

end QueryScribe.Value
