import QueryScribe.Proofs.Json.Invariant
import QueryScribe.Proofs.Value.Surrogate

/-!
# Decoded values

`Decoded` describes the values that reading gives: no document has a surrogate key,
and a scope holds what stays of a value when its object is taken apart into
members (`Binds`).  All that is read is decoded (`decoded_of_ofText`), and the
tree of a decoded value is read as the quiet form of the value (`Decoded.fold`).

A scope is written as a plain object, although it was a value of any kind before, say
an identifier.  When it is read again it becomes that value first, and the same
members only when the object around it is closed.
-/

namespace QueryScribe

open QueryScribe.Text QueryScribe.Json QueryScribe.Surrogate QueryScribe.Outcome

namespace Value

/-- A value whose tree has members that are read as some bindings, which are closed as the value. -/
structure Binds (u : Value) (scope : Fields) : Prop where
  stable : u.Stable
  tree : ∃ members, u.toJson = .object members ∧ ofMembers? members = some scope
  close : close? scope = some u
  values : ∀ f ∈ scope, f.2.Stable
  nodup : (scope.map (·.1)).Nodup

/-- A value such as reading gives. -/
inductive Decoded : Value → Prop
  | simple {v : Value} (h : v.isSimple = true) : Decoded v
  | array {items : List Value} (h : ∀ v ∈ items, Decoded v) : Decoded (.array items)
  | document {fields : Fields} (h : ∀ f ∈ fields, Decoded f.2) (hplain : Plain fields) :
    Decoded (.document fields)
  | withScope (code : String) {scope : Fields} {u : Value} (h : Binds u scope) :
    Decoded (.javaScriptWithScope code scope)

/-! ### Scopes -/

namespace Binds

variable {u : Value} {scope : Fields}

theorem collapse (h : Binds u scope) :
    (Json.object (fieldsToJson scope)).collapse = .object (fieldsToJson scope) := by
  rw [Json.collapse, Stable.collapseFields h.values, distinct_of_nodup]
  rw [Stable.fieldsToJson_keys]
  exact h.nodup

/-- A scope read as a tree of its own is the value that it came from. -/
theorem ofTree (h : Binds u scope) : ofJson? (.object (fieldsToJson scope)) = some u := by
  by_cases hplain : Plain scope
  · have hclose := h.close
    rw [close?_plain hplain] at hclose
    rw [ofJson?_plain (Stable.plain_fieldsToJson hplain), Stable.ofFields h.values, ← hclose,
      Option.map_some]
  · obtain ⟨f, hmem, hkey⟩ := exists_of_not_plain hplain
    rw [← h.close, close?_marked hmem hkey, toJson, h.collapse]

/-- The object of code with a value in the place of its scope. -/
theorem close_code (h : Binds u scope) (code : String) :
    close? [("$code", .string code), ("$scope", u)]
      = some (.javaScriptWithScope code scope) := by
  obtain ⟨members, htree, hmembers⟩ := h.tree
  have hkey : "$code" ∈ keys := by decide
  have hcollapse := h.stable.collapse
  rw [htree] at hcollapse
  have hclose : close? [("$code", .string code), ("$scope", u)]
      = ofJson? (Value.document [("$code", .string code), ("$scope", u)]).toJson.collapse :=
    close?_marked List.mem_cons_self hkey
  have hwhole : (Value.document [("$code", .string code), ("$scope", u)]).toJson.collapse
      = .object [("$code", .string code), ("$scope", .object members)] := by
    simp only [toJson, fieldsToJson, htree, Json.collapse, collapseMembers]
    rw [← Json.collapse, hcollapse]
    rfl
  rw [hclose, hwhole, ofJson?, hmembers, Option.map_some]

/-- **Code with a scope is stable.** -/
theorem withScope (h : Binds u scope) (code : String) :
    (Value.javaScriptWithScope code scope).Stable where
  collapse := by
    have hscope := h.collapse
    simp only [toJson, Json.collapse, collapseMembers]
    rw [← Json.collapse, hscope]
    rfl
  ofJson := by
    rw [toJson, ofJson?, Stable.ofFields h.values, Option.map_some]
  fold := by
    have hscope : (Json.object (fieldsToJson scope)).fold assembly = some u := by
      rw [Json.fold, Stable.foldFields h.values, Option.bind_some]
      exact h.close
    have hmembers : foldMembers assembly
        [("$code", .string code), ("$scope", .object (fieldsToJson scope))]
          = some [("$code", .string code), ("$scope", u)] :=
      foldMembers_cons_eq_some.2 ⟨_, rfl, _,
        foldMembers_cons_eq_some.2 ⟨u, hscope, _, rfl, rfl⟩, rfl⟩
    rw [toJson, Json.fold, hmembers, Option.bind_some]
    exact h.close_code code
  quiet := by rw [Value.quiet, Stable.quietFields h.values]

/-- The scope that an object with a surrogate key leaves. -/
theorem ofSpells {v inner : Value} {key : String} {body : Json} (h : Spells v key body inner)
    (hscope : ofMembers? [(key, body)] = some scope) : Binds v.quiet scope := by
  obtain ⟨w, hw, rest, hrest, rfl⟩ := ofMembers?_cons_eq_some.1 hscope
  cases hrest
  rw [h.ofBody] at hw
  cases hw
  refine ⟨h.quiet, ⟨_, ?_, hscope⟩, h.close, ?_, ?_⟩
  · rw [toJson_quiet, h.toJson, single]
  · intro f hf
    rw [List.mem_singleton.1 hf]
    exact h.stable
  · simp

/-- The scope that code with a scope leaves: in it stands the value that its scope came from. -/
theorem ofWithScope (h : Binds u scope) (code : String) {outer : Fields}
    (houter : ofMembers? [("$code", .string code), ("$scope", .object (fieldsToJson scope))]
      = some outer) : Binds (.javaScriptWithScope code scope) outer := by
  obtain ⟨c, hc, r, hr, rfl⟩ := ofMembers?_cons_eq_some.1 houter
  obtain ⟨w, hw, e, he, rfl⟩ := ofMembers?_cons_eq_some.1 hr
  cases hc
  cases he
  rw [h.ofTree] at hw
  cases hw
  refine ⟨h.withScope code, ⟨_, rfl, houter⟩, h.close_code code, ?_, ?_⟩
  · intro f hf
    rcases List.mem_cons.1 hf with rfl | hf
    · exact .string code
    · rw [List.mem_singleton.1 hf]
      exact h.stable
  · simp

theorem ofDocument (hvalues : ∀ f ∈ scope, f.2.Stable) (hnodup : (scope.map (·.1)).Nodup)
    (hplain : Plain scope) : Binds (.document scope) scope :=
  ⟨.document hvalues hnodup hplain, ⟨_, rfl, Stable.ofFields hvalues⟩, close?_plain hplain,
    hvalues, hnodup⟩

end Binds

/-! ### Repeated keys merged -/

theorem exists_fields {members : List (String × Json)}
    (h : ∀ m ∈ members, ∃ v : Value, v.Stable ∧ v.toJson = m.2) :
    ∃ fields : Fields, (∀ f ∈ fields, f.2.Stable) ∧ fieldsToJson fields = members := by
  induction members with
  | nil => exact ⟨[], nofun, rfl⟩
  | cons m r ih =>
    obtain ⟨fields, hstable, hfields⟩ := ih fun n hn => h n (List.mem_cons_of_mem m hn)
    obtain ⟨v, hv, htree⟩ := h m List.mem_cons_self
    refine ⟨(m.1, v) :: fields, ?_, ?_⟩
    · intro f hf
      rcases List.mem_cons.1 hf with rfl | hf
      · exact hv
      · exact hstable f hf
    · rw [fieldsToJson, hfields, htree]

theorem exists_items {items : List Json} (h : ∀ j ∈ items, ∃ v : Value, v.Stable ∧ v.toJson = j) :
    ∃ vs : List Value, (∀ v ∈ vs, v.Stable) ∧ itemsToJson vs = items := by
  induction items with
  | nil => exact ⟨[], nofun, rfl⟩
  | cons j r ih =>
    obtain ⟨vs, hstable, hvs⟩ := ih fun i hi => h i (List.mem_cons_of_mem j hi)
    obtain ⟨v, hv, htree⟩ := h j List.mem_cons_self
    refine ⟨v :: vs, ?_, ?_⟩
    · intro u hu
      rcases List.mem_cons.1 hu with rfl | hu
      · exact hv
      · exact hstable u hu
    · rw [itemsToJson, hvs, htree]

/-- An object with a surrogate key is closed as what its merged members spell. -/
theorem close?_of_not_plain {fields : Fields} (h : ¬ Plain fields) :
    close? fields = ofJson? (.object (merged fields)) ∧ ∃ m ∈ merged fields, m.1 ∈ keys := by
  obtain ⟨f, hmem, hkey⟩ := exists_of_not_plain h
  refine ⟨?_, ?_⟩
  · rw [close?_marked hmem hkey, toJson, Json.collapse, merged]
  · exact exists_marked hmem hkey

/-- A document of stable values in which the members of a document are merged. -/
theorem exists_merged {fields : Fields} (hplain : Plain fields)
    (h : ∀ f ∈ fields, ∃ v : Value, v.Stable ∧ v.toJson = f.2.toJson.collapse) :
    ∃ rest : Fields, (∀ f ∈ rest, f.2.Stable) ∧ (rest.map (·.1)).Nodup ∧ Plain rest
      ∧ fieldsToJson rest = merged fields := by
  obtain ⟨rest, hstable, hrest⟩ : ∃ rest : Fields, (∀ f ∈ rest, f.2.Stable)
      ∧ fieldsToJson rest = merged fields := by
    refine exists_fields ?_
    intro m hm
    obtain ⟨f, hf, rfl⟩ := exists_of_mem_merged hm
    exact h f hf
  refine ⟨rest, hstable, ?_, ?_, hrest⟩
  · rw [← Stable.fieldsToJson_keys, hrest]
    exact nodup_distinct _
  · intro f hf
    have hmem : (f.1, f.2.toJson) ∈ merged fields := by
      rw [← hrest, fieldsToJson_eq_map]
      exact List.mem_map_of_mem hf
    obtain ⟨g, hg, heq⟩ := exists_of_mem_merged hmem
    rw [(Prod.mk.inj heq).1]
    exact hplain g hg

namespace Decoded

/-- **The merged tree of a decoded value** is the tree of a stable one. -/
theorem exists_collapse {v : Value} (h : v.Decoded) :
    ∃ u : Value, u.Stable ∧ u.toJson = v.toJson.collapse := by
  induction h with
  | @simple v h =>
    rcases spells_or_bare v h with hbare | ⟨key, body, inner, hspells⟩
    · exact ⟨v, hbare.stable, hbare.stable.collapse.symm⟩
    · refine ⟨v.quiet, hspells.quiet, ?_⟩
      rw [← toJson_quiet v, hspells.quiet.collapse]
  | @array items h ih =>
    obtain ⟨vs, hstable, hvs⟩ := @exists_items (collapseItems (itemsToJson items)) (by
      intro j hj
      rw [collapseItems_eq_map, itemsToJson_eq_map, List.map_map] at hj
      obtain ⟨v, hv, rfl⟩ := List.mem_map.1 hj
      exact ih v hv)
    refine ⟨.array vs, .array hstable, ?_⟩
    rw [toJson, hvs, toJson, Json.collapse]
  | @document fields h hplain ih =>
    obtain ⟨rest, hstable, hnodup, hrest, htree⟩ := exists_merged hplain ih
    refine ⟨.document rest, .document hstable hnodup hrest, ?_⟩
    rw [toJson, htree, toJson, Json.collapse, merged]
  | withScope code h => exact ⟨_, h.withScope code, (h.withScope code).collapse.symm⟩

/-- **What a decoded value leaves in a scope.** -/
theorem exists_binds {v : Value} (h : v.Decoded) {members : List (String × Json)} {scope : Fields}
    (htree : v.toJson.collapse = .object members) (hscope : ofMembers? members = some scope) :
    ∃ u, Binds u scope := by
  cases h with
  | simple h =>
    rcases spells_or_bare v h with hbare | ⟨key, body, inner, hspells⟩
    · rw [hbare.stable.collapse] at htree
      exact absurd htree (hbare.tree members)
    · have hsingle : v.toJson.collapse = single key body := by
        rw [← toJson_quiet v, hspells.quiet.collapse, toJson_quiet, hspells.toJson]
      obtain rfl := Json.object.inj (htree.symm.trans hsingle)
      exact ⟨v.quiet, .ofSpells hspells hscope⟩
  | array h => exact absurd htree nofun
  | @document fields h hplain =>
    obtain ⟨rest, hstable, hnodup, hrest, hmerged⟩ :=
      exists_merged hplain fun f hf => (h f hf).exists_collapse
    obtain rfl : merged fields = members := Json.object.inj htree
    rw [← hmerged, Stable.ofFields hstable] at hscope
    cases hscope
    exact ⟨_, .ofDocument hstable hnodup hrest⟩
  | @withScope code inner u hbinds =>
    rw [(hbinds.withScope code).collapse, toJson] at htree
    obtain rfl := Json.object.inj htree
    exact ⟨_, hbinds.ofWithScope code hscope⟩

/-- **The tree of a decoded value is put together as its quiet form.** -/
theorem fold {v : Value} (h : v.Decoded) : v.toJson.fold assembly = some v.quiet := by
  induction h with
  | @simple v h =>
    rcases spells_or_bare v h with hbare | ⟨key, body, inner, hspells⟩
    · rw [hbare.stable.fold, hbare.stable.quiet]
    · exact hspells.fold
  | @array items h ih =>
    have hitems : foldItems assembly (itemsToJson items) = some (quietItems items) := by
      clear h
      induction items with
      | nil => rfl
      | cons v r ihr =>
        have hr := ihr fun u hu => ih u (List.mem_cons_of_mem v hu)
        exact foldItems_cons_eq_some.2 ⟨_, ih v List.mem_cons_self, _, hr, rfl⟩
    rw [toJson, Json.fold, hitems, quiet]
    rfl
  | @document fields h hplain ih =>
    have hfields : foldMembers assembly (fieldsToJson fields) = some (quietFields fields) := by
      clear h hplain
      induction fields with
      | nil => rfl
      | cons f r ihr =>
        have hr := ihr fun g hg => ih g (List.mem_cons_of_mem f hg)
        exact foldMembers_cons_eq_some.2 ⟨_, ih f List.mem_cons_self, _, hr, rfl⟩
    have hquiet : Plain (quietFields fields) := by
      intro f hf
      rw [quietFields_eq_map] at hf
      obtain ⟨g, hg, rfl⟩ := List.mem_map.1 hf
      exact hplain g hg
    rw [toJson, Json.fold, hfields, quiet]
    exact close?_plain hquiet
  | withScope code h => rw [(h.withScope code).fold, (h.withScope code).quiet]

end Decoded

/-! ### What reading gives -/

def isArray : Value → Bool
  | array _ => true
  | _ => false

/-- An object of decoded values is closed as a decoded value, and not as an array. -/
theorem decoded_of_close? {fields : Fields} {v : Value} (h : ∀ f ∈ fields, f.2.Decoded)
    (hv : close? fields = some v) : v.Decoded ∧ v.isArray = false := by
  by_cases hplain : Plain fields
  · rw [close?_plain hplain] at hv
    cases hv
    exact ⟨.document h hplain, rfl⟩
  · obtain ⟨hclose, hmarked⟩ := close?_of_not_plain hplain
    rw [hclose] at hv
    obtain ⟨-, hsimple | ⟨code, tree, scope, htree, hscope, rfl⟩⟩ := ofJson?_marked hmarked hv
    · refine ⟨.simple hsimple, ?_⟩
      cases v with
      | array items => cases hsimple
      | _ => rfl
    · obtain ⟨g, hg, heq⟩ := exists_of_mem_merged htree
      obtain ⟨u, hu⟩ := (h g hg).exists_binds (Prod.mk.inj heq).2.symm hscope
      exact ⟨.withScope code hu, rfl⟩

theorem simple_ofNumber (n : JsonNumber) :
    (ofNumber n).isSimple = true ∧ (ofNumber n).isArray = false := by
  unfold ofNumber
  split
  · split
    · rw [ofInteger]
      split
      · exact ⟨rfl, rfl⟩
      · exact ⟨rfl, rfl⟩
    · exact ⟨rfl, rfl⟩
  · exact ⟨rfl, rfl⟩

/-- The pieces of a value are decoded, and only arrays are arrays. -/
theorem assembly_makes : assembly.Makes fun array v => v.Decoded ∧ v.isArray = array where
  null := ⟨.simple rfl, rfl⟩
  bool _ := ⟨.simple rfl, rfl⟩
  number n := ⟨.simple (simple_ofNumber n).1, (simple_ofNumber n).2⟩
  string _ := ⟨.simple rfl, rfl⟩
  array h := by
    refine ⟨.array ?_, rfl⟩
    intro v hv
    obtain ⟨_, hdecoded, _⟩ := h v hv
    exact hdecoded
  object h hv := by
    refine decoded_of_close? ?_ hv
    intro m hm
    obtain ⟨_, hdecoded, _⟩ := h m hm
    exact hdecoded

/-- **Whatever is read is decoded.** -/
theorem decoded_of_ofText {text : String} {v : Value} (h : ofText text = .ok v) : v.Decoded := by
  obtain ⟨_, _, _, _, _, _, hdecoded, _⟩ := readWith_made assembly_makes h
  exact hdecoded

end Value

end QueryScribe
