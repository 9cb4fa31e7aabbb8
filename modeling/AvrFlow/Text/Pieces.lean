namespace AvrFlow.Text

/-- The pieces of a text between the occurrences of a separator; there is always one. -/
def pieces (sep : Char) : List Char → List (List Char)
  | [] => [[]]
  | c :: rest =>
    if c = sep then [] :: pieces sep rest
    else
      match pieces sep rest with
      | [] => [[c]]
      | piece :: more => (c :: piece) :: more

def before (sep : Char) (s : List Char) : List Char :=
  s.takeWhile (· ≠ sep)

theorem pieces_ne_nil (sep : Char) (s : List Char) : pieces sep s ≠ [] := by
  cases s with
  | nil => simp [pieces]
  | cons c rest =>
    unfold pieces
    split
    · simp
    · split <;> simp

theorem intercalate_pieces (sep : Char) (s : List Char) :
    [sep].intercalate (pieces sep s) = s := by
  induction s with
  | nil => simp [pieces]
  | cons c rest ih =>
    unfold pieces
    obtain ⟨piece, more, hp⟩ := List.exists_cons_of_ne_nil (pieces_ne_nil sep rest)
    rw [hp] at ih ⊢
    split
    · next hc => simp [List.intercalate_cons_cons, ih, hc]
    · cases more with
      | nil => simpa using ih
      | cons p ps =>
        simp only [List.intercalate_cons_cons] at ih ⊢
        simp [← ih]

theorem pieces_of_not_mem {sep : Char} {s : List Char} (h : sep ∉ s) : pieces sep s = [s] := by
  induction s with
  | nil => rfl
  | cons c rest ih =>
    simp only [List.mem_cons, not_or] at h
    rw [pieces, if_neg (Ne.symm h.1), ih h.2]

theorem pieces_append_cons {sep : Char} {s : List Char} (h : sep ∉ s) (rest : List Char) :
    pieces sep (s ++ sep :: rest) = s :: pieces sep rest := by
  induction s with
  | nil => simp [pieces]
  | cons c s ih =>
    simp only [List.mem_cons, not_or] at h
    rw [List.cons_append, pieces, if_neg (Ne.symm h.1), ih h.2]

theorem before_append_of_not_mem {sep : Char} {s : List Char} (h : sep ∉ s) (rest : List Char) :
    before sep (s ++ rest) = s ++ before sep rest := by
  apply List.takeWhile_append_of_pos
  intro c hc
  exact decide_eq_true fun heq => h (heq ▸ hc)

theorem before_cons_self (sep : Char) (rest : List Char) : before sep (sep :: rest) = [] := by
  simp [before]

end AvrFlow.Text
