import QueryScribe.Options.Basic

/-!
# Package names

Valid options name their packages by identifiers, the builder's possibly by nothing.  No
mark that generated code puts around names and numbers can be in an identifier, and an
identifier does not begin as a number does: `notMem_of_isIdentifier` settles both for
every character outside the classes.
-/

namespace QueryScribe.Options

/-- Valid options are those whose names are identifiers. -/
theorem valid_iff {o : Options} :
    o.Valid ↔ (o.builderPackage = "" ∨ isIdentifier o.builderPackage.toList = true)
      ∧ isIdentifier o.bsonPackage.toList = true := by
  unfold Valid fault?
  by_cases hb : o.builderPackage ≠ "" ∧ isIdentifier o.builderPackage.toList = false
  · rw [if_pos hb]
    simp [hb.1, hb.2]
  · rw [if_neg hb]
    have hname : o.builderPackage = "" ∨ isIdentifier o.builderPackage.toList = true := by
      by_cases he : o.builderPackage = ""
      · exact .inl he
      · exact .inr (by simpa [he] using hb)
    simp [hname]

/-- Every character of an identifier can go on with one. -/
theorem continuesIdentifier_of_mem {s : List Char} (hs : isIdentifier s = true) {c : Char}
    (hc : c ∈ s) : continuesIdentifier c = true := by
  cases s with
  | nil => exact absurd hc List.not_mem_nil
  | cons d r =>
    rw [isIdentifier, Bool.and_eq_true] at hs
    rcases List.mem_cons.1 hc with rfl | hc
    · rw [continuesIdentifier, hs.1, Bool.true_or]
    · exact List.all_eq_true.1 hs.2 c hc

/-- A character that an identifier cannot go on with is in none. -/
theorem notMem_of_isIdentifier {s : List Char} (hs : isIdentifier s = true) {c : Char}
    (hc : continuesIdentifier c = false) : c ∉ s := by
  intro h
  rw [continuesIdentifier_of_mem hs h] at hc
  exact absurd hc nofun

theorem exists_cons_of_isIdentifier {s : List Char} (hs : isIdentifier s = true) :
    ∃ c r, s = c :: r ∧ startsIdentifier c = true := by
  cases s with
  | nil => exact absurd hs nofun
  | cons c r =>
    rw [isIdentifier, Bool.and_eq_true] at hs
    exact ⟨c, r, rfl, hs.1⟩

end QueryScribe.Options
