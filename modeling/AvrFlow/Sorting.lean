namespace AvrFlow

variable {α : Type}

/-- Puts a member in front of the first one that it may precede. -/
def insertBy (le : α → α → Bool) (a : α) : List α → List α
  | [] => [a]
  | b :: rest => if le a b then a :: b :: rest else b :: insertBy le a rest

/-- Sorts a list; members that may precede each other keep their order. -/
def sortBy (le : α → α → Bool) (xs : List α) : List α :=
  xs.foldr (insertBy le) []

theorem perm_insertBy (le : α → α → Bool) (a : α) (xs : List α) :
    (insertBy le a xs).Perm (a :: xs) := by
  induction xs with
  | nil => exact List.Perm.refl _
  | cons b rest ih =>
    unfold insertBy
    split
    · exact List.Perm.refl _
    · exact (ih.cons b).trans (List.Perm.swap a b rest)

theorem perm_sortBy (le : α → α → Bool) (xs : List α) : (sortBy le xs).Perm xs := by
  induction xs with
  | nil => exact List.Perm.refl _
  | cons a rest ih => exact (perm_insertBy le a _).trans (ih.cons a)

theorem mem_sortBy {le : α → α → Bool} {xs : List α} {a : α} : a ∈ sortBy le xs ↔ a ∈ xs :=
  (perm_sortBy le xs).mem_iff

theorem pairwise_insertBy {le : α → α → Bool}
    (htrans : ∀ a b c, le a b = true → le b c = true → le a c = true)
    (htotal : ∀ a b, le a b = true ∨ le b a = true) (a : α) {xs : List α}
    (h : xs.Pairwise fun b c => le b c = true) :
    (insertBy le a xs).Pairwise fun b c => le b c = true := by
  induction xs with
  | nil => simp [insertBy]
  | cons b rest ih =>
    obtain ⟨hb, hrest⟩ := List.pairwise_cons.1 h
    unfold insertBy
    split
    · next hab =>
      refine List.pairwise_cons.2 ⟨fun c hc => ?_, h⟩
      rcases List.mem_cons.1 hc with rfl | hc
      · exact hab
      · exact htrans a b c hab (hb c hc)
    · next hab =>
      refine List.pairwise_cons.2 ⟨fun c hc => ?_, ih hrest⟩
      rcases List.mem_cons.1 ((perm_insertBy le a rest).mem_iff.1 hc) with rfl | hc
      · exact (htotal c b).resolve_left hab
      · exact hb c hc

theorem pairwise_sortBy {le : α → α → Bool}
    (htrans : ∀ a b c, le a b = true → le b c = true → le a c = true)
    (htotal : ∀ a b, le a b = true ∨ le b a = true) (xs : List α) :
    (sortBy le xs).Pairwise fun a b => le a b = true := by
  induction xs with
  | nil => simp [sortBy]
  | cons a rest ih => exact pairwise_insertBy htrans htotal a ih

theorem pairwise_sortBy_key (key : α → Int) (xs : List α) :
    (sortBy (fun a b => decide (key a ≤ key b)) xs).Pairwise fun a b => key a ≤ key b := by
  refine (pairwise_sortBy ?_ ?_ xs).imp fun h => of_decide_eq_true h
  · simp only [decide_eq_true_eq]
    exact fun a b c hab hbc => Int.le_trans hab hbc
  · simp only [decide_eq_true_eq]
    exact fun a b => Int.le_total (key a) (key b)

theorem pairwise_lt_sortBy_key (key : α → Int) {xs : List α} (h : (xs.map key).Nodup) :
    (sortBy (fun a b => decide (key a ≤ key b)) xs).Pairwise fun a b => key a < key b := by
  have hle := pairwise_sortBy_key key xs
  have hnodup : ((sortBy (fun a b => decide (key a ≤ key b)) xs).map key).Nodup :=
    ((perm_sortBy _ xs).map key).nodup_iff.2 h
  have hne := List.pairwise_map.1 hnodup
  exact (hle.and hne).imp fun ⟨hle, hne⟩ => Int.lt_iff_le_and_ne.2 ⟨hle, hne⟩

/-- Insertion in front of members that it stood before keeps a stable order. -/
theorem pairwise_insertBy_stable (key : α → Int) {R : α → α → Prop} {a : α} {xs : List α}
    (ha : ∀ b ∈ xs, R a b)
    (h : xs.Pairwise fun b c => key b < key c ∨ (key b = key c ∧ R b c)) :
    (insertBy (fun b c => decide (key b ≤ key c)) a xs).Pairwise
      fun b c => key b < key c ∨ (key b = key c ∧ R b c) := by
  induction xs with
  | nil => simp [insertBy]
  | cons b rest ih =>
    obtain ⟨hb, hrest⟩ := List.pairwise_cons.1 h
    unfold insertBy
    split
    · next hle =>
      have hle : key a ≤ key b := of_decide_eq_true hle
      refine List.pairwise_cons.2 ⟨fun c hc => ?_, h⟩
      -- Nothing that follows has a smaller key, and `a` stood before all of it.
      have hac : key a ≤ key c := by
        rcases List.mem_cons.1 hc with rfl | hc
        · exact hle
        · have := hb c hc
          omega
      rcases Int.lt_or_eq_of_le hac with hlt | heq
      · exact Or.inl hlt
      · exact Or.inr ⟨heq, ha c hc⟩
    · next hgt =>
      have hgt : ¬ key a ≤ key b := fun hle => hgt (decide_eq_true hle)
      have ha' : ∀ c ∈ rest, R a c := fun c hc => ha c (List.mem_cons_of_mem b hc)
      refine List.pairwise_cons.2 ⟨fun c hc => ?_, ih ha' hrest⟩
      rcases List.mem_cons.1 ((perm_insertBy _ a rest).mem_iff.1 hc) with rfl | hc
      · exact Or.inl (by omega)
      · exact hb c hc

/-- Sorting by a key is stable: members with one key keep the order that they had. -/
theorem pairwise_sortBy_stable (key : α → Int) {R : α → α → Prop} {xs : List α}
    (h : xs.Pairwise R) :
    (sortBy (fun a b => decide (key a ≤ key b)) xs).Pairwise
      fun a b => key a < key b ∨ (key a = key b ∧ R a b) := by
  induction xs with
  | nil => simp [sortBy]
  | cons a rest ih =>
    obtain ⟨ha, hrest⟩ := List.pairwise_cons.1 h
    exact pairwise_insertBy_stable key (fun b hb => ha b (mem_sortBy.1 hb)) (ih hrest)

theorem insertBy_map {β : Type} {f : α → β} {le : α → α → Bool} {le' : β → β → Bool}
    (h : ∀ a b, le' (f a) (f b) = le a b) (a : α) (xs : List α) :
    insertBy le' (f a) (xs.map f) = (insertBy le a xs).map f := by
  induction xs with
  | nil => rfl
  | cons b rest ih =>
    simp only [List.map_cons, insertBy, h, ih]
    split <;> rfl

/-- A change of the members that respects the order may come before or after sorting. -/
theorem sortBy_map {β : Type} {f : α → β} {le : α → α → Bool} {le' : β → β → Bool}
    (h : ∀ a b, le' (f a) (f b) = le a b) (xs : List α) :
    sortBy le' (xs.map f) = (sortBy le xs).map f := by
  induction xs with
  | nil => rfl
  | cons a rest ih =>
    change insertBy le' (f a) (sortBy le' (rest.map f)) = (insertBy le a (sortBy le rest)).map f
    rw [ih, insertBy_map h]

end AvrFlow
