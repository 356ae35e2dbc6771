import LineTags.Keyed
import Mathlib.Algebra.GroupWithZero.Nat

/-!
# More about lists of named entries

What writing and removing an entry do to a sum over all entries, to the names, and to what holds of every value.
-/

namespace LineTags.Keyed

variable {κ α : Type} [DecidableEq κ] {name : κ} {value : α} {entries : List (κ × α)}

theorem mem_of_lookup {κ α : Type} [BEq κ] [LawfulBEq κ] {name : κ} {value : α} {entries : List (κ × α)}
    (h : entries.lookup name = some value) : (name, value) ∈ entries := by
  induction entries with
  | nil => cases h
  | cons e r ih =>
    obtain ⟨k, v⟩ := e
    rw [List.lookup_cons] at h
    by_cases hk : name = k
    · subst hk
      rw [beq_self_eq_true] at h
      rw [Option.some.inj h]
      exact List.mem_cons_self
    · rw [beq_false_of_ne hk] at h
      exact List.mem_cons_of_mem _ (ih h)

theorem forall_put {P : α → Prop} (hvalue : P value) (hentries : ∀ e ∈ entries, P e.2) :
    ∀ e ∈ put name value entries, P e.2 := by
  induction entries with
  | nil =>
    intro e he
    rw [List.mem_singleton.1 he]
    exact hvalue
  | cons d r ih =>
    intro e he
    rw [put] at he
    split at he
    · rcases List.mem_cons.1 he with rfl | he
      · exact hvalue
      · exact hentries e (List.mem_cons_of_mem _ he)
    · rcases List.mem_cons.1 he with rfl | he
      · exact hentries _ List.mem_cons_self
      · exact ih (fun e he => hentries e (List.mem_cons_of_mem _ he)) e he

theorem mem_names_put {other : κ} : other ∈ names (put name value entries) ↔ other = name ∨ other ∈ names entries := by
  rw [names_put]
  split
  · next hname =>
    constructor
    · exact .inr
    · rintro (rfl | h)
      · exact hname
      · exact h
  · rw [List.mem_append, List.mem_singleton, or_comm]

theorem lookup_map {κ α : Type} [BEq κ] [LawfulBEq κ] (f : α → α) (name : κ) (entries : List (κ × α)) :
    (entries.map fun e => (e.1, f e.2)).lookup name = (entries.lookup name).map f := by
  induction entries with
  | nil => rfl
  | cons e r ih =>
    obtain ⟨k, v⟩ := e
    rw [List.map_cons, List.lookup_cons, List.lookup_cons]
    by_cases hk : name = k
    · subst hk
      rw [beq_self_eq_true]
      rfl
    · rw [beq_false_of_ne hk]
      exact ih

theorem lookup_update [BEq κ] [LawfulBEq κ] (name other : κ) (f : α → α) (entries : List (κ × α)) :
    (update name f entries).lookup other = if other = name then (entries.lookup other).map f else entries.lookup other := by
  induction entries with
  | nil => exact (ite_self _).symm
  | cons e r ih =>
    obtain ⟨k, v⟩ := e
    rw [update] at ih
    rw [update, List.map_cons, List.lookup_cons, List.lookup_cons, ih]
    by_cases hk : other = k
    · subst hk
      rw [beq_self_eq_true]
      dsimp only
      split <;> rfl
    · rw [beq_false_of_ne hk]

/-! ## Sums -/

/-- Writing a name puts its new share of a sum in the place of the old one. -/
theorem sum_put [BEq κ] [LawfulBEq κ] (f : α → Nat) (name : κ) (value : α) (entries : List (κ × α)) :
    ((put name value entries).map fun e => f e.2).sum + ((entries.lookup name).map f).getD 0 =
      (entries.map fun e => f e.2).sum + f value := by
  induction entries with
  | nil => simp only [put, List.map_cons, List.map_nil, List.sum_cons, List.sum_nil, List.lookup_nil, Option.map_none,
      Option.getD_none, Nat.add_zero, Nat.zero_add]
  | cons e r ih =>
    obtain ⟨k, v⟩ := e
    rw [put, List.lookup_cons]
    by_cases hk : k = name
    · subst hk
      rw [if_pos rfl, beq_self_eq_true]
      simp only [List.map_cons, List.sum_cons, Option.map_some, Option.getD_some]
      omega
    · rw [if_neg hk, beq_false_of_ne (Ne.symm hk)]
      simp only [List.map_cons, List.sum_cons]
      omega

/-- What is removed with a name is at least what its first entry holds. -/
theorem sum_remove_le [BEq κ] [LawfulBEq κ] (f : α → Nat) (name : κ) (entries : List (κ × α)) :
    ((remove name entries).map fun e => f e.2).sum + ((entries.lookup name).map f).getD 0 ≤
      (entries.map fun e => f e.2).sum := by
  induction entries with
  | nil => exact Nat.le_refl 0
  | cons e r ih =>
    obtain ⟨k, v⟩ := e
    have hle : ((remove name r).map fun e => f e.2).sum ≤ (r.map fun e => f e.2).sum := by omega
    rw [List.lookup_cons]
    by_cases hk : k = name
    · subst hk
      rw [remove, List.filter_cons_of_neg (by simp), beq_self_eq_true]
      simp only [List.map_cons, List.sum_cons, Option.map_some, Option.getD_some]
      rw [remove] at hle
      omega
    · rw [remove, List.filter_cons_of_pos (by simpa using hk), beq_false_of_ne (Ne.symm hk)]
      simp only [List.map_cons, List.sum_cons]
      rw [remove] at ih
      omega

/-! ## Lists made from names -/

/-- Where every name has one value to be given, the list gives it. -/
theorem lookup_ofList_map [BEq κ] [LawfulBEq κ] (f : κ → α) (ks : List κ) (name : κ) :
    (ofList (ks.map fun k => (k, f k))).lookup name = if name ∈ ks then some (f name) else none := by
  have hfold : ∀ (ks : List κ) (entries : List (κ × α)),
      ((ks.map fun k => (k, f k)).foldl (fun r e => put e.1 e.2 r) entries).lookup name =
        if name ∈ ks then some (f name) else entries.lookup name := by
    intro ks
    induction ks with
    | nil => exact fun entries => (if_neg List.not_mem_nil).symm
    | cons k ks ih =>
      intro entries
      rw [List.map_cons, List.foldl_cons, ih, lookup_put]
      by_cases hmem : name ∈ ks
      · rw [if_pos hmem, if_pos (List.mem_cons_of_mem _ hmem)]
      · rw [if_neg hmem]
        by_cases hk : name = k
        · subst hk
          rw [if_pos rfl, if_pos List.mem_cons_self]
        · rw [if_neg hk, if_neg (List.not_mem_cons_of_ne_of_not_mem hk hmem)]
  exact hfold ks []

/-! ## Writing twice, and which names there are -/

omit [DecidableEq κ] in
theorem mem_names {name : κ} {entries : List (κ × α)} : name ∈ names entries ↔ ∃ value, (name, value) ∈ entries := by
  simp [names]

theorem lookup_isSome_iff {κ α : Type} [BEq κ] [LawfulBEq κ] {name : κ} {entries : List (κ × α)} :
    (entries.lookup name).isSome ↔ name ∈ names entries := by
  induction entries with
  | nil => simp [names]
  | cons e r ih =>
    obtain ⟨k, v⟩ := e
    rw [List.lookup_cons]
    by_cases hk : name = k
    · subst hk
      simp [names]
    · rw [beq_false_of_ne hk]
      refine ih.trans ?_
      simp [names, hk]

theorem lookup_eq_some_getD {κ α : Type} [BEq κ] [LawfulBEq κ] {name : κ} {entries : List (κ × α)}
    (h : name ∈ names entries) (default : α) : entries.lookup name = some ((entries.lookup name).getD default) := by
  obtain ⟨value, hvalue⟩ := Option.isSome_iff_exists.1 (lookup_isSome_iff.2 h)
  rw [hvalue, Option.getD_some]

theorem put_of_lookup [BEq κ] [LawfulBEq κ] (h : entries.lookup name = some value) : put name value entries = entries := by
  induction entries with
  | nil => cases h
  | cons e r ih =>
    obtain ⟨k, v⟩ := e
    rw [List.lookup_cons] at h
    rw [put]
    by_cases hk : k = name
    · subst hk
      rw [beq_self_eq_true] at h
      rw [if_pos rfl, Option.some.inj h]
    · rw [beq_false_of_ne (Ne.symm hk)] at h
      rw [if_neg hk, ih h]

theorem put_of_not_mem (h : name ∉ names entries) (value : α) : put name value entries = entries ++ [(name, value)] := by
  induction entries with
  | nil => rfl
  | cons e r ih =>
    rw [names, List.map_cons, List.mem_cons, not_or] at h
    rw [put, if_neg (Ne.symm h.1), ih h.2, List.cons_append]

/-- A list that has each name once is what comes of writing its entries one after the other. -/
theorem ofList_of_nodup (h : (names entries).Nodup) : ofList entries = entries := by
  have hfold : ∀ (more done : List (κ × α)), (names (done ++ more)).Nodup →
      more.foldl (fun r e => put e.1 e.2 r) done = done ++ more := by
    intro more
    induction more with
    | nil => exact fun done _ => (List.append_nil done).symm
    | cons e more ih =>
      intro done hnodup
      have hname : e.1 ∉ names done := by
        rw [names, List.map_append, List.nodup_append] at hnodup
        exact fun hmem => hnodup.2.2 e.1 hmem e.1 (List.mem_map_of_mem List.mem_cons_self) rfl
      have hsplit : done ++ e :: more = (done ++ [e]) ++ more := by rw [List.append_assoc]; rfl
      rw [List.foldl_cons, put_of_not_mem hname, hsplit]
      exact ih (done ++ [e]) (hsplit ▸ hnodup)
  exact hfold entries [] h

/-- The later of two values for one name counts. -/
theorem put_put (name : κ) (first second : α) (entries : List (κ × α)) :
    put name second (put name first entries) = put name second entries := by
  induction entries with
  | nil => simp [put]
  | cons e r ih =>
    obtain ⟨k, v⟩ := e
    by_cases hk : k = name
    · simp [put, hk]
    · simp [put, hk, ih]

/-- The order of writing two names matters only where both are new. -/
theorem put_comm {other : κ} (hne : other ≠ name) (hname : name ∈ names entries) (value' : α) :
    put other value' (put name value entries) = put name value (put other value' entries) := by
  induction entries with
  | nil => cases hname
  | cons e r ih =>
    obtain ⟨k, v⟩ := e
    by_cases hk : k = name
    · subst hk
      simp [put, Ne.symm hne]
    · have hrest : name ∈ names r := by
        rcases List.mem_cons.1 hname with rfl | hrest
        · exact absurd rfl hk
        · exact hrest
      by_cases ho : k = other
      · subst ho
        simp [put, hk]
      · simp [put, hk, ho, ih hrest]

theorem nodup_names_put (h : (names entries).Nodup) : (names (put name value entries)).Nodup := by
  rw [names_put]
  split
  · exact h
  · next hname =>
    rw [List.nodup_append]
    refine ⟨h, List.pairwise_singleton _ name, fun a ha b hb heq => ?_⟩
    rw [List.mem_singleton.1 hb] at heq
    exact hname (heq ▸ ha)

theorem nodup_names_ofList (entries : List (κ × α)) : (names (ofList entries)).Nodup := by
  have hfold : ∀ (entries written : List (κ × α)), (names written).Nodup →
      (names (entries.foldl (fun r e => put e.1 e.2 r) written)).Nodup := by
    intro entries
    induction entries with
    | nil => exact fun _ h => h
    | cons e entries ih => exact fun written h => ih _ (nodup_names_put h)
  exact hfold entries [] List.nodup_nil

theorem names_put_of_mem (h : name ∈ names entries) : names (put name value entries) = names entries := by
  rw [names_put, if_pos h]

/-- Writing a name leaves the entries of all others alone. -/
theorem mem_put_of_ne {e : κ × α} (he : e.1 ≠ name) : e ∈ put name value entries ↔ e ∈ entries := by
  induction entries with
  | nil =>
    rw [put, List.mem_singleton]
    refine ⟨fun heq => absurd (congrArg Prod.fst heq) he, fun hmem => absurd hmem List.not_mem_nil⟩
  | cons d r ih =>
    obtain ⟨k, v⟩ := d
    rw [put]
    split
    · next hk =>
      have hother : ∀ w, e ≠ (k, w) := fun w heq => he ((congrArg Prod.fst heq).trans hk)
      rw [List.mem_cons, List.mem_cons, or_iff_right (hother _), or_iff_right (hother _)]
    · rw [List.mem_cons, List.mem_cons, ih]

theorem names_remove (name : κ) (entries : List (κ × α)) : names (remove name entries) = (names entries).filter (· ≠ name) := by
  rw [names, names, remove, List.filter_map]
  rfl

theorem lookup_remove [BEq κ] [LawfulBEq κ] (name other : κ) (entries : List (κ × α)) :
    (remove name entries).lookup other = if other = name then none else entries.lookup other := by
  induction entries with
  | nil => simp [remove]
  | cons e r ih =>
    obtain ⟨k, v⟩ := e
    rw [remove, List.filter_cons]
    change (remove name r).lookup other = _ at ih
    by_cases hk : k = name
    · simp only [hk, ne_eq, not_true_eq_false, decide_false, Bool.false_eq_true, if_false, List.lookup_cons]
      refine ih.trans ?_
      by_cases hother : other = name
      · rw [if_pos hother, if_pos hother]
      · rw [if_neg hother, if_neg hother, beq_false_of_ne hother]
    · simp only [hk, ne_eq, not_false_eq_true, decide_true, if_true, List.lookup_cons]
      by_cases hother : other = k
      · simp [hother, hk]
      · rw [beq_false_of_ne hother]
        exact ih

/-- Where no name comes twice, an entry is what its name is looked up as. -/
theorem lookup_of_mem {κ α : Type} [BEq κ] [LawfulBEq κ] {name : κ} {value : α} {entries : List (κ × α)}
    (hnodup : (names entries).Nodup) (hmem : (name, value) ∈ entries) : entries.lookup name = some value := by
  induction entries with
  | nil => cases hmem
  | cons e r ih =>
    obtain ⟨k, v⟩ := e
    rw [names, List.map_cons, List.nodup_cons] at hnodup
    rw [List.lookup_cons]
    rcases List.mem_cons.1 hmem with heq | hmem
    · obtain ⟨rfl, rfl⟩ := Prod.mk.inj heq
      rw [beq_self_eq_true]
    · have hne : name ≠ k := fun heq => hnodup.1 (heq ▸ mem_names.2 ⟨value, hmem⟩)
      rw [beq_false_of_ne hne]
      exact ih hnodup.2 hmem

/-- An entry is found among those that pass a test if it passes. -/
theorem lookup_filter {κ α : Type} [BEq κ] [LawfulBEq κ] {name : κ} {value : α} {entries : List (κ × α)}
    (hnodup : (names entries).Nodup) (q : κ × α → Bool) (h : entries.lookup name = some value) :
    (entries.filter q).lookup name = if q (name, value) then some value else none := by
  have hrest : (names (entries.filter q)).Nodup := hnodup.sublist (List.filter_sublist.map Prod.fst)
  split
  · next hq => exact lookup_of_mem hrest (List.mem_filter.2 ⟨mem_of_lookup h, hq⟩)
  · next hq =>
    rw [← Option.not_isSome_iff_eq_none, lookup_isSome_iff, mem_names]
    rintro ⟨other, hother⟩
    obtain ⟨hmem, hpasses⟩ := List.mem_filter.1 hother
    rw [Option.some.inj (h.symm.trans (lookup_of_mem hnodup hmem))] at hq
    exact hq hpasses

/-- Lists with the same names in the same order, each once, are equal if the names have the same values. -/
theorem eq_of_lookup_eq {κ α : Type} [BEq κ] [LawfulBEq κ] {entries others : List (κ × α)}
    (hnames : names entries = names others) (hnodup : (names entries).Nodup)
    (h : ∀ name ∈ names entries, entries.lookup name = others.lookup name) : entries = others := by
  induction entries generalizing others with
  | nil => exact (List.map_eq_nil_iff.1 hnames.symm).symm
  | cons e entries ih =>
    cases others with
    | nil => cases hnames
    | cons f others =>
      obtain ⟨k, v⟩ := e
      obtain ⟨k', v'⟩ := f
      obtain ⟨hk, hrest⟩ := List.cons.inj hnames
      obtain rfl : k = k' := hk
      have hmem := (List.nodup_cons.1 hnodup).1
      have hfirst := h k List.mem_cons_self
      rw [List.lookup_cons, List.lookup_cons, beq_self_eq_true] at hfirst
      rw [Option.some.inj hfirst, ih hrest (List.nodup_cons.1 hnodup).2 fun name hname => ?_]
      have hother := h name (List.mem_cons_of_mem _ hname)
      have hne : name ≠ k := fun heq => hmem (heq ▸ hname)
      rwa [List.lookup_cons, List.lookup_cons, beq_false_of_ne hne] at hother

/-- Writing many names: the last value of each counts. -/
theorem lookup_foldl_put {κ α γ : Type} [DecidableEq κ] [BEq κ] [LawfulBEq κ] (f : γ → α) {written : List (κ × γ)}
    (hnodup : (names written).Nodup) (entries : List (κ × α)) (name : κ) :
    (written.foldl (fun r e => put e.1 (f e.2) r) entries).lookup name =
      ((written.lookup name).map f).or (entries.lookup name) := by
  induction written generalizing entries with
  | nil => rfl
  | cons e written ih =>
    obtain ⟨k, v⟩ := e
    rw [names, List.map_cons, List.nodup_cons] at hnodup
    rw [List.foldl_cons, ih hnodup.2, lookup_put, List.lookup_cons]
    by_cases hk : name = k
    · subst hk
      have hnone : written.lookup name = none := by
        rw [← Option.not_isSome_iff_eq_none, lookup_isSome_iff]
        exact hnodup.1
      rw [hnone, beq_self_eq_true, if_pos rfl]
      rfl
    · rw [beq_false_of_ne hk, if_neg hk]

/-- What is written under a name before many names are, this one among them, is lost. -/
theorem foldl_put_put {κ α γ : Type} [DecidableEq κ] (f : γ → α) {written : List (κ × γ)} {entries : List (κ × α)} {name : κ}
    (value : α) (hwritten : name ∈ names written) (hname : name ∈ names entries) :
    written.foldl (fun r e => put e.1 (f e.2) r) (put name value entries) =
      written.foldl (fun r e => put e.1 (f e.2) r) entries := by
  induction written generalizing entries with
  | nil => cases hwritten
  | cons e written ih =>
    obtain ⟨k, v⟩ := e
    rw [List.foldl_cons, List.foldl_cons]
    by_cases hk : k = name
    · subst hk
      rw [put_put]
    · have hrest : name ∈ names written := by
        rcases List.mem_cons.1 hwritten with rfl | hrest
        · exact absurd rfl hk
        · exact hrest
      rw [put_comm hk hname]
      exact ih hrest (mem_names_put.2 (.inr hname))

/-- Replacing a value by one that is written the same changes nothing that is written. -/
theorem foldl_put_of_eq {κ α γ : Type} [DecidableEq κ] [BEq κ] [LawfulBEq κ] (f : γ → α) {written : List (κ × γ)} {name : κ}
    {old new : γ} (hold : written.lookup name = some old) (heq : f new = f old) (entries : List (κ × α)) :
    (put name new written).foldl (fun r e => put e.1 (f e.2) r) entries =
      written.foldl (fun r e => put e.1 (f e.2) r) entries := by
  induction written generalizing entries with
  | nil => cases hold
  | cons e written ih =>
    obtain ⟨k, v⟩ := e
    rw [List.lookup_cons] at hold
    rw [put]
    by_cases hk : k = name
    · subst hk
      rw [beq_self_eq_true] at hold
      rw [if_pos rfl, List.foldl_cons, List.foldl_cons, heq, Option.some.inj hold]
    · rw [beq_false_of_ne (Ne.symm hk)] at hold
      rw [if_neg hk, List.foldl_cons, List.foldl_cons]
      exact ih hold _

end LineTags.Keyed
