/-!
Blank characters and trimming. Text is handled as a list of characters; blanks are those of the
Unicode property `White_Space` together with the four separators U+001C to U+001F.
-/

namespace AvrFlow.Text

def isBlank (c : Char) : Bool :=
  let n := c.toNat
  (0x09 ≤ n && n ≤ 0x0D) || (0x1C ≤ n && n ≤ 0x20) || n == 0x85 || n == 0xA0 || n == 0x1680 ||
    (0x2000 ≤ n && n ≤ 0x200A) || n == 0x2028 || n == 0x2029 || n == 0x202F || n == 0x205F ||
    n == 0x3000

/-- The blanks of plain ASCII text: tab, the line and page marks, and the space. -/
def isAsciiBlank (c : Char) : Bool :=
  (0x09 ≤ c.toNat && c.toNat ≤ 0x0D) || c == ' '

def trimStart (s : List Char) : List Char :=
  s.dropWhile isBlank

def trimEnd (s : List Char) : List Char :=
  (s.reverse.dropWhile isBlank).reverse

def trim (s : List Char) : List Char :=
  trimEnd (trimStart s)

def trimmed (s : String) : String :=
  String.ofList (trim s.toList)

theorem isBlank_of_isAsciiBlank {c : Char} (h : isAsciiBlank c = true) : isBlank c = true := by
  simp only [isAsciiBlank, Bool.or_eq_true, Bool.and_eq_true, decide_eq_true_eq, beq_iff_eq] at h
  rcases h with h | rfl
  · simp [isBlank, h]
  · decide

theorem trimStart_cons {c : Char} {s : List Char} (h : isBlank c = false) :
    trimStart (c :: s) = c :: s := by
  simp [trimStart, h]

theorem trimStart_of_forall {s : List Char} (h : ∀ c ∈ s, isBlank c = false) :
    trimStart s = s := by
  cases s with
  | nil => rfl
  | cons c rest => exact trimStart_cons (h c (by simp))

theorem trimEnd_of_forall {s : List Char} (h : ∀ c ∈ s, isBlank c = false) : trimEnd s = s := by
  have hreverse : s.reverse.dropWhile isBlank = s.reverse :=
    trimStart_of_forall (by simpa using h)
  rw [trimEnd, hreverse, List.reverse_reverse]

theorem trimStart_append {pre : List Char} (h : ∀ c ∈ pre, isBlank c = true) (s : List Char) :
    trimStart (pre ++ s) = trimStart s :=
  List.dropWhile_append_of_pos h

theorem trimEnd_append {post : List Char} (h : ∀ c ∈ post, isBlank c = true) (s : List Char) :
    trimEnd (s ++ post) = trimEnd s := by
  rw [trimEnd, List.reverse_append, List.dropWhile_append_of_pos (by simpa using h)]
  rfl

theorem trim_append_left {pre : List Char} (h : ∀ c ∈ pre, isBlank c = true) (s : List Char) :
    trim (pre ++ s) = trim s := by
  rw [trim, trimStart_append h, trim]

theorem trim_cons_of_isBlank {c : Char} (h : isBlank c = true) (s : List Char) :
    trim (c :: s) = trim s := by
  have hblanks : ∀ d ∈ [c], isBlank d = true := by simpa using h
  exact trim_append_left hblanks s

theorem trim_append_right {post : List Char} (h : ∀ c ∈ post, isBlank c = true) (s : List Char) :
    trim (s ++ post) = trim s := by
  have hpost : post.dropWhile isBlank = [] := by
    simpa [trimStart] using trimStart_append h []
  rw [trim, trimStart, List.dropWhile_append]
  split
  · next hnil => rw [hpost, trim, trimStart, List.isEmpty_iff.1 hnil]
  · rw [trimEnd_append h, trim, trimStart]

/-- What is not all blank keeps what stands after it. -/
theorem trimStart_append_of_ne_nil {s : List Char} (h : trimStart s ≠ []) (t : List Char) :
    trimStart (s ++ t) = trimStart s ++ t := by
  have hnil : (s.dropWhile isBlank).isEmpty = false := by
    simpa [trimStart] using h
  rw [trimStart, List.dropWhile_append, hnil]
  rfl

theorem trimEnd_append_of_ne_nil {t : List Char} (h : trimEnd t ≠ []) (s : List Char) :
    trimEnd (s ++ t) = s ++ trimEnd t := by
  have hnil : (t.reverse.dropWhile isBlank).isEmpty = false := by
    simpa [trimEnd] using h
  rw [trimEnd, List.reverse_append, List.dropWhile_append, hnil]
  simp [trimEnd]

theorem trimEnd_append_of_eq_self {s : List Char} (h : trimEnd s = s) (t : List Char) :
    trimEnd (s ++ t) = s ++ trimEnd t := by
  by_cases ht : trimEnd t = []
  · have hnil : t.reverse.dropWhile isBlank = [] := by simpa [trimEnd] using ht
    rw [trimEnd, List.reverse_append, List.dropWhile_append, hnil, ht, List.append_nil]
    exact h
  · exact trimEnd_append_of_ne_nil ht s

/-- Whatever stands between two texts without blanks at the outer ends is kept. -/
theorem trim_between {s t : List Char} (hs : trimStart s = s) (hs' : s ≠ []) (ht : trimEnd t = t)
    (ht' : t ≠ []) (mid : List Char) : trim (s ++ mid ++ t) = s ++ mid ++ t := by
  have hstart : trimStart (s ++ mid ++ t) = s ++ mid ++ t := by
    rw [List.append_assoc, trimStart_append_of_ne_nil (by rwa [hs]), hs]
  rw [trim, hstart, trimEnd_append_of_ne_nil (by rwa [ht]), ht]

theorem trim_eq_self_iff {s : List Char} : trim s = s ↔ trimStart s = s ∧ trimEnd s = s := by
  constructor
  · intro h
    have hsuffix : trimStart s <:+ s := List.dropWhile_suffix _
    have hlength : (trim s).length ≤ (trimStart s).length := by
      simpa [trim, trimEnd] using ((trimStart s).reverse.dropWhile_suffix isBlank).length_le
    rw [h] at hlength
    have hstart : trimStart s = s := hsuffix.eq_of_length_le hlength
    exact ⟨hstart, by rwa [trim, hstart] at h⟩
  · rintro ⟨hstart, hend⟩
    rw [trim, hstart, hend]

end AvrFlow.Text
