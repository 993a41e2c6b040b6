import Mathlib.Data.List.Induction
import QueryScribe.Proofs.Value.Quiet
import QueryScribe.Proofs.Value.Spelling
import QueryScribe.Value.Surrogate

/-!
# Values that reading does not change

A surrogate object is closed by writing its members as JSON again, repeated keys
merged, and reading the tree.  A value is stable if nothing of this changes it: its
tree repeats no key, and it is what the tree stands for, whether the tree is read at
once or put together from the inside out.  Arrays and documents of stable
values are stable (`Stable.array`, `Stable.document`).
-/

namespace QueryScribe

open QueryScribe.Text QueryScribe.Json QueryScribe.Surrogate

/-! ### Repeated keys -/

namespace Json

theorem collapseItems_eq_map (items : List Json) : collapseItems items = items.map collapse := by
  induction items with
  | nil => rfl
  | cons j r ih => rw [collapseItems, ih, List.map_cons]

theorem collapseMembers_eq_map (members : List (String × Json)) :
    collapseMembers members = members.map fun m => (m.1, m.2.collapse) := by
  induction members with
  | nil => rfl
  | cons m r ih => rw [collapseMembers, ih, List.map_cons]

section Distinct

variable {α β : Type}

theorem put_of_not_mem {key : String} {members : List (String × α)}
    (h : key ∉ members.map (·.1)) (value : α) :
    put key value members = members ++ [(key, value)] := by
  induction members with
  | nil => rfl
  | cons m r ih =>
    obtain ⟨k, v⟩ := m
    rw [List.map_cons, List.mem_cons, not_or] at h
    rw [put, if_neg fun hk => h.1 hk.symm, ih h.2, List.cons_append]

theorem foldl_put_of_nodup {members done : List (String × α)}
    (h : ((done ++ members).map (·.1)).Nodup) :
    members.foldl (fun done m => put m.1 m.2 done) done = done ++ members := by
  induction members generalizing done with
  | nil => rw [List.append_nil, List.foldl_nil]
  | cons m r ih =>
    have hm : m.1 ∉ done.map (·.1) := by
      intro hm
      rw [List.map_append, List.map_cons, List.nodup_append] at h
      exact h.2.2 _ hm _ List.mem_cons_self rfl
    rw [List.foldl_cons, put_of_not_mem hm, ih (by rwa [List.append_assoc]), List.append_assoc]
    rfl

/-- Members without repeated keys are left alone. -/
theorem distinct_of_nodup {members : List (String × α)} (h : (members.map (·.1)).Nodup) :
    distinct members = members := @foldl_put_of_nodup α members [] h

theorem nodup_put {key : String} {value : α} {members : List (String × α)}
    (h : (members.map (·.1)).Nodup) : ((put key value members).map (·.1)).Nodup := by
  rw [put_keys]
  split
  · exact h
  · rename_i hkey
    rw [List.nodup_append]
    refine ⟨h, by simp, ?_⟩
    rintro k hk _ hs rfl
    exact hkey (List.mem_singleton.1 hs ▸ hk)

/-- What is put among members is there, or was there before. -/
theorem mem_put {key : String} {value : α} {members : List (String × α)} {m : String × α}
    (h : m ∈ put key value members) : m = (key, value) ∨ m ∈ members := by
  induction members with
  | nil => exact .inl (List.mem_singleton.1 h)
  | cons n r ih =>
    obtain ⟨k, v⟩ := n
    rw [put] at h
    split at h
    · rename_i hk
      rcases List.mem_cons.1 h with rfl | h
      · exact .inl (by rw [hk])
      · exact .inr (List.mem_cons_of_mem _ h)
    · rcases List.mem_cons.1 h with rfl | h
      · exact .inr List.mem_cons_self
      · rcases ih h with h | h
        · exact .inl h
        · exact .inr (List.mem_cons_of_mem _ h)

theorem distinct_append_singleton (members : List (String × α)) (m : String × α) :
    distinct (members ++ [m]) = put m.1 m.2 (distinct members) := by
  rw [distinct, distinct, List.foldl_append]
  rfl

theorem nodup_distinct (members : List (String × α)) : ((distinct members).map (·.1)).Nodup := by
  induction members using List.reverseRecOn with
  | nil => exact List.nodup_nil
  | append_singleton members m ih =>
    rw [distinct_append_singleton]
    exact nodup_put ih

theorem mem_of_mem_distinct {members : List (String × α)} {m : String × α}
    (h : m ∈ distinct members) : m ∈ members := by
  induction members using List.reverseRecOn with
  | nil => exact h
  | append_singleton members n ih =>
    rw [distinct_append_singleton] at h
    rcases mem_put h with rfl | h
    · exact List.mem_append_right members List.mem_cons_self
    · exact List.mem_append_left _ (ih h)

theorem mem_keys_distinct {members : List (String × α)} {key : String}
    (h : key ∈ members.map (·.1)) : key ∈ (distinct members).map (·.1) := by
  induction members using List.reverseRecOn with
  | nil => exact h
  | append_singleton members m ih =>
    rw [distinct_append_singleton, put_keys]
    rw [List.map_append, List.mem_append] at h
    split
    · rename_i hm
      rcases h with h | h
      · exact ih h
      · exact List.mem_singleton.1 h ▸ hm
    · rcases h with h | h
      · exact List.mem_append_left _ (ih h)
      · exact List.mem_append_right _ h

end Distinct

/-- Members of an object whose repeated keys are merged come from the object. -/
theorem exists_of_mem_collapse {members : List (String × Json)} {m : String × Json}
    (h : m ∈ distinct (collapseMembers members)) : ∃ n ∈ members, m = (n.1, n.2.collapse) := by
  have hmem := mem_of_mem_distinct h
  rw [collapseMembers_eq_map] at hmem
  obtain ⟨n, hn, rfl⟩ := List.mem_map.1 hmem
  exact ⟨n, hn, rfl⟩

theorem eq_object_of_collapse {j : Json} {tree : List (String × Json)}
    (h : j.collapse = .object tree) :
    ∃ members, j = .object members ∧ tree = distinct (collapseMembers members) := by
  cases j with
  | object members => exact ⟨members, rfl, (Json.object.inj h).symm⟩
  | _ => exact absurd h nofun

end Json

namespace Value

/-- The members of a document, repeated keys merged. -/
def merged (fields : Fields) : List (String × Json) :=
  distinct (collapseMembers (fieldsToJson fields))

theorem exists_of_mem_merged {fields : Fields} {m : String × Json} (h : m ∈ merged fields) :
    ∃ f ∈ fields, m = (f.1, f.2.toJson.collapse) := by
  obtain ⟨n, hn, rfl⟩ := exists_of_mem_collapse h
  rw [fieldsToJson_eq_map] at hn
  obtain ⟨f, hf, rfl⟩ := List.mem_map.1 hn
  exact ⟨f, hf, rfl⟩

theorem mem_keys_merged {fields : Fields} {key : String} :
    key ∈ (merged fields).map (·.1) ↔ key ∈ fields.map (·.1) := by
  constructor
  · intro h
    obtain ⟨m, hm, rfl⟩ := List.mem_map.1 h
    obtain ⟨f, hf, rfl⟩ := exists_of_mem_merged hm
    exact List.mem_map_of_mem (f := (·.1)) hf
  · intro h
    refine mem_keys_distinct ?_
    rw [collapseMembers_eq_map, fieldsToJson_eq_map, List.map_map, List.map_map]
    exact h

end Value

/-! ### Trees without surrogate keys -/

namespace Surrogate

theorem ofItems?_cons_eq_some {j : Json} {r : List Json} {vs : List Value} :
    ofItems? (j :: r) = some vs
      ↔ ∃ v, ofJson? j = some v ∧ ∃ rest, ofItems? r = some rest ∧ vs = v :: rest := by
  simp only [ofItems?, Option.bind_eq_bind, Option.pure_def, Option.bind_eq_some_iff,
    Option.some.injEq, @eq_comm _ vs]

theorem ofMembers?_cons_eq_some {k : String} {j : Json} {r : List (String × Json)} {s : Fields} :
    ofMembers? ((k, j) :: r) = some s
      ↔ ∃ v, ofJson? j = some v ∧ ∃ rest, ofMembers? r = some rest ∧ s = (k, v) :: rest := by
  simp only [ofMembers?, Option.bind_eq_bind, Option.pure_def, Option.bind_eq_some_iff,
    Option.some.injEq, @eq_comm _ s]

/-- Fields none of which has a surrogate key. -/
def Plain (fields : Fields) : Prop := ∀ f ∈ fields, f.1 ∉ keys

theorem exists_of_not_plain {fields : Fields} (h : ¬ Plain fields) : ∃ f ∈ fields, f.1 ∈ keys := by
  obtain ⟨f, hf⟩ := not_forall.1 h
  obtain ⟨hmem, hnot⟩ := Classical.not_imp.1 hf
  exact ⟨f, hmem, Classical.not_not.1 hnot⟩

theorem close?_plain {fields : Fields} (h : Plain fields) :
    close? fields = some (.document fields) := by
  refine if_neg ?_
  rw [List.any_eq_true]
  rintro ⟨f, hf, hkey⟩
  exact h f hf (List.contains_iff_mem.1 hkey)

theorem exists_marked {fields : Fields} {f : String × Value} (hf : f ∈ fields)
    (h : f.1 ∈ keys) : ∃ m ∈ Value.merged fields, m.1 ∈ keys := by
  obtain ⟨m, hm, hfirst⟩ := List.mem_map.1 (Value.mem_keys_merged.2 (List.mem_map_of_mem hf))
  exact ⟨m, hm, hfirst ▸ h⟩

/-- An object with a surrogate key is what its tree is read as.  It is never kept as a document. -/
theorem close?_marked {fields : Fields} {f : String × Value} (hf : f ∈ fields) (h : f.1 ∈ keys) :
    close? fields = ofJson? (Value.document fields).toJson.collapse := by
  rw [close?]
  refine (if_pos (List.any_eq_true.2 ⟨f, hf, ?_⟩)).trans ?_
  · exact List.contains_iff_mem.2 h
  cases hv : ofJson? (Value.document fields).toJson.collapse with
  | none => rfl
  | some v =>
    cases v with
    | document d => exact absurd hv (Value.ofJson?_ne_document (exists_marked hf h) d)
    | _ => rfl

/-- An object without `$code` is decided by its keys. -/
theorem ofJson?_object {members : List (String × Json)} (h : "$code" ∉ members.map (·.1)) :
    ofJson? (.object members) = match decisive? (members.map (·.1)) with
      | none => (ofMembers? members).map .document
      | some key => readSingle? key members := by
  rw [ofJson?.eq_def]
  split
  case h_11 heq =>
    obtain rfl := Json.object.inj heq
    rfl
  all_goals
    rename_i heq
    cases heq
    try exact absurd (by simp) h

theorem ofJson?_plain {members : List (String × Json)} (h : ∀ m ∈ members, m.1 ∉ keys) :
    ofJson? (.object members) = (ofMembers? members).map .document := by
  have hcode : "$code" ∉ members.map (·.1) := by
    intro hmem
    obtain ⟨m, hm, hkey⟩ := List.mem_map.1 hmem
    exact h m hm (by rw [hkey]; decide)
  have hnone : decisive? (members.map (·.1)) = none := by
    rw [decisive?, List.find?_eq_none]
    intro key hkey hmem
    obtain ⟨m, hm, rfl⟩ := List.mem_map.1 (List.contains_iff_mem.1 hmem)
    exact h m hm hkey
  rw [ofJson?_object hcode, hnone]

end Surrogate

/-! ### Stable values -/

namespace Value

/-- A value that is what its tree stands for, and whose tree repeats no key. -/
structure Stable (v : Value) : Prop where
  collapse : v.toJson.collapse = v.toJson
  ofJson : ofJson? v.toJson = some v
  fold : v.toJson.fold assembly = some v
  quiet : v.quiet = v

namespace Stable

theorem collapseItems {items : List Value} (h : ∀ v ∈ items, v.Stable) :
    Json.collapseItems (itemsToJson items) = itemsToJson items := by
  rw [collapseItems_eq_map, itemsToJson_eq_map, List.map_map]
  exact List.map_congr_left fun v hv => (h v hv).collapse

theorem collapseFields {fields : Fields} (h : ∀ f ∈ fields, f.2.Stable) :
    collapseMembers (fieldsToJson fields) = fieldsToJson fields := by
  rw [collapseMembers_eq_map, fieldsToJson_eq_map, List.map_map]
  exact List.map_congr_left fun f hf => congrArg (Prod.mk f.1) (h f hf).collapse

theorem ofItems {items : List Value} (h : ∀ v ∈ items, v.Stable) :
    ofItems? (itemsToJson items) = some items := by
  induction items with
  | nil => rfl
  | cons v r ih =>
    have hr := ih fun u hu => h u (List.mem_cons_of_mem v hu)
    exact ofItems?_cons_eq_some.2 ⟨v, (h v List.mem_cons_self).ofJson, r, hr, rfl⟩

theorem ofFields {fields : Fields} (h : ∀ f ∈ fields, f.2.Stable) :
    ofMembers? (fieldsToJson fields) = some fields := by
  induction fields with
  | nil => rfl
  | cons f r ih =>
    have hr := ih fun g hg => h g (List.mem_cons_of_mem f hg)
    exact ofMembers?_cons_eq_some.2 ⟨f.2, (h f List.mem_cons_self).ofJson, r, hr, rfl⟩

theorem foldItems {items : List Value} (h : ∀ v ∈ items, v.Stable) :
    Json.foldItems assembly (itemsToJson items) = some items := by
  induction items with
  | nil => rfl
  | cons v r ih =>
    have hr := ih fun u hu => h u (List.mem_cons_of_mem v hu)
    exact foldItems_cons_eq_some.2 ⟨v, (h v List.mem_cons_self).fold, r, hr, rfl⟩

theorem foldFields {fields : Fields} (h : ∀ f ∈ fields, f.2.Stable) :
    foldMembers assembly (fieldsToJson fields) = some fields := by
  induction fields with
  | nil => rfl
  | cons f r ih =>
    have hr := ih fun g hg => h g (List.mem_cons_of_mem f hg)
    exact foldMembers_cons_eq_some.2 ⟨f.2, (h f List.mem_cons_self).fold, r, hr, rfl⟩

theorem quietItems {items : List Value} (h : ∀ v ∈ items, v.Stable) :
    Value.quietItems items = items := by
  rw [quietItems_eq_map]
  refine (List.map_congr_left ?_).trans (List.map_id items)
  exact fun v hv => (h v hv).quiet

theorem quietFields {fields : Fields} (h : ∀ f ∈ fields, f.2.Stable) :
    Value.quietFields fields = fields := by
  rw [quietFields_eq_map]
  refine (List.map_congr_left ?_).trans (List.map_id fields)
  exact fun f hf => congrArg (Prod.mk f.1) (h f hf).quiet

theorem array {items : List Value} (h : ∀ v ∈ items, v.Stable) : (Value.array items).Stable where
  collapse := by rw [toJson, Json.collapse, collapseItems h]
  ofJson := by rw [toJson, ofJson?, ofItems h, Option.map_some]
  fold := by rw [toJson, Json.fold, foldItems h, Option.map_some, assembly]
  quiet := by rw [Value.quiet, quietItems h]

theorem fieldsToJson_keys (fields : Fields) :
    (fieldsToJson fields).map (·.1) = fields.map (·.1) := by
  rw [fieldsToJson_eq_map, List.map_map]
  rfl

theorem plain_fieldsToJson {fields : Fields} (h : Plain fields) :
    ∀ m ∈ fieldsToJson fields, m.1 ∉ keys := by
  intro m hm
  rw [fieldsToJson_eq_map] at hm
  obtain ⟨f, hf, rfl⟩ := List.mem_map.1 hm
  exact h f hf

theorem document {fields : Fields} (h : ∀ f ∈ fields, f.2.Stable)
    (hkeys : (fields.map (·.1)).Nodup) (hplain : Plain fields) :
    (Value.document fields).Stable where
  collapse := by
    rw [toJson, Json.collapse, collapseFields h, distinct_of_nodup]
    rwa [fieldsToJson_keys]
  ofJson := by
    rw [toJson, ofJson?_plain (plain_fieldsToJson hplain), ofFields h, Option.map_some]
  fold := by
    rw [toJson, Json.fold, foldFields h, Option.bind_some]
    exact close?_plain hplain
  quiet := by rw [Value.quiet, quietFields h]

end Stable

end Value

end QueryScribe
