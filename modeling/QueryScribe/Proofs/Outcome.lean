import Mathlib.Data.List.Forall2

/-!
# Results of steps that may fail

A chain of steps in `Except` succeeds exactly when each step does.  These lemmas take
a chain apart into its steps, or put it together again.  What is found in a table stands in it,
and is found in the table that is made of it entry by entry.
-/

namespace QueryScribe.Outcome

variable {ε α β : Type}

theorem bind_eq_ok {x : Except ε α} {f : α → Except ε β} {b : β} :
    (x >>= f) = .ok b ↔ ∃ a, x = .ok a ∧ f a = .ok b := by
  cases x with
  | error e => simp [bind, Except.bind]
  | ok a => simp [bind, Except.bind]

theorem map_eq_ok {x : Except ε α} {f : α → β} {b : β} :
    x.map f = .ok b ↔ ∃ a, x = .ok a ∧ f a = b := by
  cases x with
  | error e => simp [Except.map]
  | ok a => simp [Except.map]

theorem map_eq_error {x : Except ε α} {f : α → β} {e : ε} :
    x.map f = .error e ↔ x = .error e := by
  cases x with
  | error e => simp [Except.map]
  | ok a => simp [Except.map]

/-- What changes nothing that comes out changes nothing. -/
theorem map_eq_self {x : Except ε α} {f : α → α} (h : ∀ a, x = .ok a → f a = a) : x.map f = x := by
  cases x with
  | error e => rfl
  | ok a => rw [Except.map, h a rfl]

theorem pure_eq_ok {a b : α} : (pure a : Except ε α) = .ok b ↔ a = b := by
  simp [pure, Except.pure]

@[simp] theorem ok_bind (a : α) (f : α → Except ε β) : (Except.ok a >>= f) = f a := rfl

@[simp] theorem mapError_ok {δ : Type} (a : α) (f : ε → δ) :
    (Except.ok a : Except ε α).mapError f = .ok a := rfl

theorem mapM_cons_eq_ok {f : α → Except ε β} {a : α} {r : List α} {bs : List β} :
    (a :: r).mapM f = .ok bs ↔ ∃ b, f a = .ok b ∧ ∃ s, r.mapM f = .ok s ∧ bs = b :: s := by
  simp only [List.mapM_cons, bind_eq_ok, pure_eq_ok, @eq_comm _ bs]

theorem forall₂_of_mapM {f : α → Except ε β} {as : List α} {bs : List β}
    (h : as.mapM f = .ok bs) : as.Forall₂ (fun a b => f a = .ok b) bs := by
  induction as generalizing bs with
  | nil =>
    obtain rfl := pure_eq_ok.1 h
    exact .nil
  | cons a r ih =>
    obtain ⟨b, hb, rest, hr, rfl⟩ := mapM_cons_eq_ok.1 h
    exact .cons hb (ih hr)

theorem mapM_eq_ok_of_forall₂ {f : α → Except ε β} {as : List α} {bs : List β}
    (h : as.Forall₂ (fun a b => f a = .ok b) bs) : as.mapM f = .ok bs := by
  induction h with
  | nil => rfl
  | cons hb _ ih =>
    rw [List.mapM_cons, hb, ih]
    rfl

/-- The first failure in a list is the failure of the list. -/
theorem mapM_eq_error_of_first {f : α → Except ε β} {before : List α} {a : α} {e : ε}
    (hb : ∀ b ∈ before, ∃ c, f b = .ok c) (ha : f a = .error e) (after : List α) :
    (before ++ a :: after).mapM f = .error e := by
  induction before with
  | nil =>
    rw [List.nil_append, List.mapM_cons, ha]
    rfl
  | cons b r ih =>
    obtain ⟨c, hc⟩ := hb b List.mem_cons_self
    rw [List.cons_append, List.mapM_cons, hc, ih fun d hd => hb d (List.mem_cons_of_mem b hd)]
    rfl

/-- What is done to what comes out of each step can be done to what comes out of them together. -/
theorem mapM_map {γ : Type} (f : α → Except ε β) (g : β → γ) (as : List α) :
    (as.mapM fun a => (f a).map g) = (as.mapM f).map (List.map g) := by
  induction as with
  | nil => rfl
  | cons a r ih =>
    rw [List.mapM_cons, List.mapM_cons, ih]
    cases f a with
    | error e => rfl
    | ok b => cases r.mapM f <;> rfl

/-- What is done to each failure can be done to the first one. -/
theorem mapM_mapError {δ : Type} (f : α → Except ε β) (k : ε → δ) (as : List α) :
    (as.mapM fun a => (f a).mapError k) = (as.mapM f).mapError k := by
  induction as with
  | nil => rfl
  | cons a r ih =>
    rw [List.mapM_cons, List.mapM_cons, ih]
    cases f a with
    | error e => rfl
    | ok b => cases r.mapM f <;> rfl

/-- What is done to each outcome can be done to the outcomes together. -/
theorem mapM_map_mapError {γ δ : Type} (f : α → Except ε β) (g : β → γ) (k : ε → δ) (as : List α) :
    (as.mapM fun a => ((f a).map g).mapError k) = ((as.mapM f).map (List.map g)).mapError k := by
  rw [mapM_mapError, mapM_map]

/-- What each step through a list preserves holds at its end. -/
theorem foldlM_preserves {σ : Type} {f : σ → α → Except ε σ} {P : σ → Prop} {as : List α} {s s' : σ}
    (step : ∀ a ∈ as, ∀ s s', P s → f s a = .ok s' → P s') (h : P s)
    (hf : as.foldlM f s = .ok s') : P s' := by
  induction as generalizing s with
  | nil => exact pure_eq_ok.1 hf ▸ h
  | cons a r ih =>
    rw [List.foldlM_cons, bind_eq_ok] at hf
    obtain ⟨mid, ha, hr⟩ := hf
    exact ih (fun b hb => step b (List.mem_cons_of_mem a hb))
      (step a List.mem_cons_self s mid h ha) hr

/-- Two ways through a list that stay together step by step stay together to the end. -/
theorem foldlM_related {σ τ : Type} {f : σ → α → Except ε σ} {g : τ → α → Except ε τ}
    {R : σ → τ → Prop}
    (step : ∀ s t a s', R s t → f s a = .ok s' → ∃ t', g t a = .ok t' ∧ R s' t') {as : List α}
    {s s' : σ} {t : τ} (h : R s t) (hf : as.foldlM f s = .ok s') :
    ∃ t', as.foldlM g t = .ok t' ∧ R s' t' := by
  induction as generalizing s t with
  | nil =>
    obtain rfl := pure_eq_ok.1 hf
    exact ⟨t, rfl, h⟩
  | cons a r ih =>
    rw [List.foldlM_cons, bind_eq_ok] at hf
    obtain ⟨mid, ha, hr⟩ := hf
    obtain ⟨mid', hmid, hR⟩ := step s t a mid h ha
    obtain ⟨t', ht, hR'⟩ := ih hR hr
    exact ⟨t', by rw [List.foldlM_cons, hmid]; exact ht, hR'⟩

/-! ### Lists beside each other and tables -/

theorem forall_of_forall₂ {R : α → β → Prop} {P : β → Prop} {as : List α} {bs : List β}
    (h : as.Forall₂ R bs) (hR : ∀ a b, R a b → P b) : ∀ b ∈ bs, P b := by
  induction h with
  | nil => exact fun b hb => absurd hb List.not_mem_nil
  | cons hab _ ih => exact List.forall_mem_cons.2 ⟨hR _ _ hab, ih⟩

theorem forall_of_mapM {f : α → Except ε β} {P : β → Prop} (hf : ∀ a b, f a = .ok b → P b)
    {as : List α} {bs : List β} (h : as.mapM f = .ok bs) : ∀ b ∈ bs, P b :=
  forall_of_forall₂ (forall₂_of_mapM h) hf

theorem forall₂_congr {R S : α → β → Prop} {as : List α} {bs : List β}
    (h : ∀ a ∈ as, ∀ b, R a b ↔ S a b) : as.Forall₂ R bs ↔ as.Forall₂ S bs := by
  induction as generalizing bs with
  | nil => rw [List.forall₂_nil_left_iff, List.forall₂_nil_left_iff]
  | cons a r ih =>
    rw [List.forall₂_cons_left_iff, List.forall₂_cons_left_iff]
    simp only [h a List.mem_cons_self, ih fun b hb => h b (List.mem_cons_of_mem a hb)]

theorem mem_of_lookup {κ : Type} [BEq κ] [LawfulBEq κ] {table : List (κ × α)} {key : κ} {a : α}
    (h : table.lookup key = some a) : (key, a) ∈ table := by
  obtain ⟨before, after, rfl, _⟩ := List.lookup_eq_some_iff.1 h
  exact List.mem_append_right before List.mem_cons_self

/-- Where no two keys are the same, an entry is found exactly when it stands in the table. -/
theorem lookup_eq_some_iff_mem {κ : Type} [BEq κ] [LawfulBEq κ] {table : List (κ × α)}
    (hn : (table.map (·.1)).Nodup) {key : κ} {a : α} :
    table.lookup key = some a ↔ (key, a) ∈ table := by
  refine ⟨mem_of_lookup, fun h => ?_⟩
  obtain ⟨before, after, rfl⟩ := List.append_of_mem h
  refine List.lookup_eq_some_iff.2 ⟨before, after, rfl, fun entry hentry => ?_⟩
  rw [List.map_append, List.nodup_append] at hn
  exact bne_iff_ne.2
    (hn.2.2 _ (List.mem_map_of_mem hentry) _ (List.mem_map_of_mem List.mem_cons_self)).symm

/-- The order of the entries of such a table is not seen in what is found. -/
theorem lookup_perm {κ : Type} [BEq κ] [LawfulBEq κ] {table table' : List (κ × α)}
    (hn : (table.map (·.1)).Nodup) (hp : table.Perm table') (key : κ) :
    table.lookup key = table'.lookup key := by
  have hn' := (hp.map (·.1)).nodup_iff.1 hn
  refine Option.ext fun a => ?_
  rw [lookup_eq_some_iff_mem hn, lookup_eq_some_iff_mem hn', hp.mem_iff]

/-- What stands behind a key among entries that are turned one by one and keep their keys. -/
theorem lookup_filterMap {κ : Type} [BEq κ] [LawfulBEq κ] {turn : κ × α → Option (κ × β)}
    {key : κ} {g : α → β} (hkey : ∀ a, turn (key, a) = some (key, g a))
    (hkeep : ∀ entry entry', turn entry = some entry' → entry'.1 = entry.1)
    (entries : List (κ × α)) :
    (entries.filterMap turn).lookup key = (entries.lookup key).map g := by
  induction entries with
  | nil => rfl
  | cons entry r ih =>
    obtain ⟨k, a⟩ := entry
    by_cases hk : key = k
    · subst hk
      rw [List.filterMap_cons_some (hkey a), List.lookup_cons_self, List.lookup_cons_self]
      rfl
    · have hne : (key == k) = false := beq_eq_false_iff_ne.2 hk
      rw [List.lookup_cons, hne]
      cases hturn : turn (k, a) with
      | none => rw [List.filterMap_cons_none hturn, ih]
      | some entry' =>
        obtain ⟨k', b⟩ := entry'
        obtain rfl : k' = k := hkeep _ _ hturn
        rw [List.filterMap_cons_some hturn, List.lookup_cons, hne, ih]

end QueryScribe.Outcome
