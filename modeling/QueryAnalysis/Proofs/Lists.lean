import Mathlib.Data.List.Forall2

/-!
# Lists that correspond member by member, and lists of entries

Facts about `List.Forall₂` that the analyses use: what a function that may fail makes of a list
corresponds to the list, and properties carry over along a correspondence. Where no key occurs
twice, looking a key up is to have its entry (`lookup_eq_some_iff_mem`).
-/

namespace QueryAnalysis

variable {α β : Type} {R : α → β → Prop} {xs : List α} {ys : List β}

/-- What a function makes of a list on which it is defined corresponds to the list. -/
theorem forall₂_of_mapM_eq_some {f : α → Option β} (h : xs.mapM f = some ys) :
    List.Forall₂ (fun x y => f x = some y) xs ys := by
  induction xs generalizing ys with
  | nil =>
      obtain rfl := Option.some.inj h
      exact .nil
  | cons x xs ih =>
      rw [List.mapM_cons] at h
      obtain ⟨y, hy, h⟩ := Option.bind_eq_some_iff.mp h
      obtain ⟨rest, hrest, h⟩ := Option.bind_eq_some_iff.mp h
      obtain rfl := Option.some.inj h
      exact .cons hy (ih hrest)

/-- A function that is defined on all members of a list makes a list of them. -/
theorem exists_mapM_eq_some {f : α → Option β} (h : ∀ x ∈ xs, ∃ y, f x = some y) :
    ∃ ys, xs.mapM f = some ys := by
  induction xs with
  | nil => exact ⟨[], rfl⟩
  | cons x xs ih =>
      obtain ⟨y, hy⟩ := h x List.mem_cons_self
      obtain ⟨ys, hys⟩ := ih fun x' hx' => h x' (List.mem_cons_of_mem x hx')
      exact ⟨y :: ys, by simp [List.mapM_cons, hy, hys]⟩

theorem exists_of_forall₂ (h : List.Forall₂ R xs ys) : ∀ x ∈ xs, ∃ y ∈ ys, R x y := by
  induction h with
  | nil => exact fun x hx => absurd hx List.not_mem_nil
  | cons hxy _ ih =>
      intro x hx
      rcases List.mem_cons.mp hx with rfl | hx
      · exact ⟨_, List.mem_cons_self, hxy⟩
      · obtain ⟨y, hy, hR⟩ := ih x hx
        exact ⟨y, List.mem_cons_of_mem _ hy, hR⟩

/-- What holds of corresponding members alike holds of all members alike. -/
theorem forall_mem_iff_of_forall₂ {p : α → Prop} {q : β → Prop} (h : List.Forall₂ R xs ys)
    (hiff : ∀ x y, R x y → (p x ↔ q y)) : (∀ x ∈ xs, p x) ↔ ∀ y ∈ ys, q y := by
  induction h with
  | nil => simp
  | cons hxy _ ih => rw [List.forall_mem_cons, List.forall_mem_cons, ih, hiff _ _ hxy]

/-- What holds of corresponding members alike holds of some members alike. -/
theorem exists_mem_iff_of_forall₂ {p : α → Prop} {q : β → Prop} (h : List.Forall₂ R xs ys)
    (hiff : ∀ x y, R x y → (p x ↔ q y)) : (∃ x ∈ xs, p x) ↔ ∃ y ∈ ys, q y := by
  have hnone := forall_mem_iff_of_forall₂ h fun x y hxy => not_congr (hiff x y hxy)
  rw [← not_iff_not]
  simpa only [not_exists, not_and] using hnone

/-- With an entry at most for each key, looking a key up gives the value of its entry. -/
theorem lookup_eq_some_iff_mem [BEq α] [LawfulBEq α] {entries : List (α × β)} {key : α} {value : β}
    (h : (entries.map Prod.fst).Nodup) :
    entries.lookup key = some value ↔ (key, value) ∈ entries := by
  rw [List.lookup_eq_some_iff]
  constructor
  · intro hsplit
    obtain ⟨before, after, rfl, -⟩ := hsplit
    exact List.mem_append_right _ List.mem_cons_self
  · intro hmem
    obtain ⟨before, after, rfl⟩ := List.append_of_mem hmem
    refine ⟨before, after, rfl, fun entry hentry => ?_⟩
    rw [List.map_append, List.map_cons, List.nodup_append] at h
    have hne := h.2.2 entry.1 (List.mem_map_of_mem hentry) key List.mem_cons_self
    exact bne_iff_ne.mpr hne.symm

/-- Values that are changed where they stand are looked up and then changed. -/
theorem lookup_map_snd [BEq α] [LawfulBEq α] {γ : Type} (f : α → β → γ) (entries : List (α × β))
    (key : α) :
    (entries.map fun entry => (entry.1, f entry.1 entry.2)).lookup key
      = (entries.lookup key).map (f key) := by
  induction entries with
  | nil => rfl
  | cons entry entries ih =>
      rw [List.map_cons, List.lookup_cons, List.lookup_cons, ih]
      by_cases hkey : key = entry.1
      · simp [hkey]
      · simp [beq_eq_false_iff_ne.mpr hkey]

/-- A member of two lists one after the other stands in the first or in the second. -/
theorem append_eq_append_cons_cases {xs ys before after : List α} {x : α}
    (h : xs ++ ys = before ++ x :: after) :
    (∃ rest, xs = before ++ x :: rest ∧ after = rest ++ ys) ∨
      ∃ rest, before = xs ++ rest ∧ ys = rest ++ x :: after := by
  rcases List.append_eq_append_iff.mp h with ⟨rest, hbefore, hys⟩ | ⟨rest, hxs, hafter⟩
  · exact .inr ⟨rest, hbefore, hys⟩
  · cases rest with
    | nil => exact .inr ⟨[], by simpa using hxs.symm, hafter.symm⟩
    | cons y rest =>
        obtain ⟨rfl, rfl⟩ := List.cons.inj hafter
        exact .inl ⟨rest, hxs, rfl⟩

/-- Members that are numbered in order have ascending numbers. -/
theorem pairwise_zipIdx (xs : List α) : xs.zipIdx.Pairwise fun x x' => x.2 < x'.2 := by
  rw [← List.pairwise_map, List.zipIdx_map_snd]
  exact List.pairwise_lt_range'

end QueryAnalysis
