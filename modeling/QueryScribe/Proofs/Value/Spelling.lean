import QueryScribe.Proofs.Outcome
import QueryScribe.Value.Surrogate

/-!
# What a surrogate key spells

An object with a surrogate key is read as the value that the key announces, if it is read at
all.  This value holds no other values (`Simple`), unless it is code with a scope.  So nothing
that has such a key is read as a document, and few keys can stand beside it (`ofJson?_marked`).
-/

namespace QueryScribe.Value

open QueryScribe.Json QueryScribe.Surrogate QueryScribe.Outcome

/-! ### Simple values -/

/-- Whether a value holds no other values and is as reading leaves it: flags are in order, and a
subtype is that of its byte. -/
def isSimple : Value → Bool
  | array _ | document _ | javaScriptWithScope _ _ => false
  | regex r => r.flags.toList.Pairwise (· ≤ ·)
  | binary b => b.subtype = .ofByte b.subtype.toByte
  | _ => true

def Simple (x : Option Value) : Prop := ∀ v, x = some v → v.isSimple = true

namespace Simple

variable {β : Type} {x : Option β}

theorem none : Simple none := nofun

theorem some {v : Value} (h : v.isSimple = true) : Simple (some v) := by
  rintro _ ⟨⟩
  exact h

theorem bind {f : β → Option Value} (h : ∀ b, Simple (f b)) : Simple (x >>= f) := by
  intro v hv
  obtain ⟨b, _, hb⟩ := Option.bind_eq_some_iff.1 hv
  exact h b v hb

theorem map {f : β → Value} (h : ∀ b, (f b).isSimple = true) : Simple (x.map f) := by
  intro v hv
  obtain ⟨b, _, rfl⟩ := Option.map_eq_some_iff.1 hv
  exact h b

theorem ite {c : Prop} [Decidable c] {v : Value} (h : v.isSimple = true) :
    Simple (if c then Option.some v else Option.none) := by
  split
  · exact some h
  · exact none

end Simple

theorem simple_readBinary? (body : Json) : Simple (readBinary? body) := by
  refine .bind fun parts => ?_
  split
  · refine .bind fun _ => .bind fun _ => .bind fun _ => .bind fun _ => ?_
    split
    · exact .some (by simp [isSimple])
    · exact .none
  · exact .none

theorem simple_readTimestamp? (body : Json) : Simple (readTimestamp? body) := by
  refine .bind fun parts => ?_
  split
  · exact .bind fun _ => .bind fun _ => .some rfl
  · exact .none

theorem simple_readDate? (body : Json) : Simple (readDate? body) := by
  have hdate (m : Int) : Simple (pure (dateTime (Int64.ofInt m))) := .some rfl
  unfold readDate?
  split
  · exact .bind hdate
  · dsimp only
    split
    · exact .bind hdate
    · exact .bind hdate
  · exact .bind hdate
  · refine .bind fun parts => ?_
    split
    · exact .bind fun _ => .bind hdate
    · exact .bind hdate

/-- The flags of a regular expression that is made of parts are in order. -/
theorem sorted_of_ofParts? {pattern flags : String} {r : Regex}
    (h : Regex.ofParts? pattern flags = some r) : r.flags.toList.Pairwise (· ≤ ·) := by
  unfold Regex.ofParts? at h
  dsimp only at h
  split at h
  · cases h
    rw [String.toList_ofList]
    exact Regex.sortFlags_sorted flags
  · cases h

theorem simple_readRegex? (body : Json) : Simple (readRegex? body) := by
  refine .bind fun parts => ?_
  split
  · refine .bind fun pattern => .bind fun flags => ?_
    intro v hv
    obtain ⟨r, hr, rfl⟩ := Option.map_eq_some_iff.1 hv
    exact decide_eq_true (sorted_of_ofParts? hr)
  · exact .none

theorem simple_readPointer? (body : Json) : Simple (readPointer? body) := by
  refine .bind fun parts => ?_
  split
  · refine .bind fun _ => ?_
    split
    · exact .bind fun _ => .bind fun _ => .some rfl
    · exact .none
  · exact .none

/-- **What a surrogate key spells is simple.** -/
theorem simple_of_read {key : String} {read : Json → Option Value}
    (hread : (beforeCode ++ afterCode).lookup key = some read) (body : Json) :
    Simple (read body) := by
  have hmem := mem_of_lookup hread
  simp only [beforeCode, afterCode, List.cons_append, List.nil_append, List.mem_cons,
    List.not_mem_nil, or_false, Prod.mk.injEq] at hmem
  rcases hmem with ⟨_, rfl⟩ | ⟨_, rfl⟩ | ⟨_, rfl⟩ | ⟨_, rfl⟩ | ⟨_, rfl⟩ | ⟨_, rfl⟩ | ⟨_, rfl⟩
    | ⟨_, rfl⟩ | ⟨_, rfl⟩ | ⟨_, rfl⟩ | ⟨_, rfl⟩ | ⟨_, rfl⟩ | ⟨_, rfl⟩ | ⟨_, rfl⟩ | ⟨_, rfl⟩
  · exact .map fun _ => rfl
  · exact .map fun _ => rfl
  · exact simple_readRegex? body
  · exact .bind fun _ => .bind fun _ => .ite rfl
  · exact .bind fun _ => .bind fun _ => .some rfl
  · exact .bind fun _ => .map fun _ => rfl
  · exact .bind fun _ => .map fun _ => rfl
  · exact simple_readBinary? body
  · exact .bind fun _ => .map fun _ => rfl
  · exact simple_readTimestamp? body
  · exact simple_readDate? body
  · exact .ite rfl
  · exact .ite rfl
  · exact simple_readPointer? body
  · dsimp only
    split
    · exact .some rfl
    · exact .none

/-! ### Keys -/

/-- The keys of an object that spells a special value, repeated ones counted once: one surrogate
key, or `$code` and `$scope`. -/
def Spelling (present : List String) : Prop :=
  (∃ key ∈ keys, ∀ k, k ∈ present ↔ k = key) ∨ ∀ k, k ∈ present ↔ k = "$code" ∨ k = "$scope"

/-- **What an object with a surrogate key is read as**, and which keys it has. -/
theorem ofJson?_marked {members : List (String × Json)} {v : Value}
    (hkey : ∃ m ∈ members, m.1 ∈ keys) (h : ofJson? (.object members) = some v) :
    Spelling (members.map (·.1))
      ∧ (v.isSimple = true ∨ ∃ code tree scope, ("$scope", .object tree) ∈ members
        ∧ ofMembers? tree = some scope ∧ v = javaScriptWithScope code scope) := by
  rw [ofJson?.eq_def] at h
  split at h
  case h_6 heq =>
    cases h
    cases heq
    exact ⟨.inl ⟨"$code", by decide, by simp⟩, .inl rfl⟩
  case h_7 heq | h_8 heq =>
    cases h
    cases heq
    exact ⟨.inr (by simp [or_comm]), .inl rfl⟩
  case h_9 heq | h_10 heq =>
    obtain ⟨scope, hscope, rfl⟩ := Option.map_eq_some_iff.1 h
    cases heq
    exact ⟨.inr (by simp [or_comm]), .inr ⟨_, _, scope, by simp, hscope, rfl⟩⟩
  case h_11 heq =>
    obtain rfl := Json.object.inj heq
    split at h
    · rename_i hnone
      rw [decisive?, List.find?_eq_none] at hnone
      obtain ⟨m, hm, hmkey⟩ := hkey
      exact absurd (List.contains_iff_mem.2 (List.mem_map_of_mem hm)) (hnone m.1 hmkey)
    · unfold readSingle? at h
      split at h
      · obtain ⟨read, hread, hbody⟩ := Option.bind_eq_some_iff.1 h
        obtain ⟨m, hm, hmkey⟩ := hkey
        obtain rfl := List.mem_singleton.1 hm
        exact ⟨.inl ⟨_, hmkey, by simp⟩, .inl (simple_of_read hread _ v hbody)⟩
      · exact absurd h nofun
  all_goals
    rename_i heq
    exact absurd heq nofun

/-- An object with a surrogate key is not read as a document. -/
theorem ofJson?_ne_document {members : List (String × Json)} (hkey : ∃ m ∈ members, m.1 ∈ keys)
    (d : Fields) : ofJson? (.object members) ≠ some (document d) := by
  intro h
  rcases (ofJson?_marked hkey h).2 with hsimple | ⟨_, _, _, _, _, heq⟩
  · cases hsimple
  · cases heq

end QueryScribe.Value
