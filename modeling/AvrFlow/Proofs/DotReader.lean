import AvrFlow.Dot

/-!
Reading DOT text. A reader for the part of DOT that directed graphs with plain statements need: it
takes characters together to tokens, and tokens to statements. Both are machines that go through
their input once and put out something now and then, so what they make of a text can be put
together from what they make of its parts.

A text in quotation marks ends at the first quotation mark with an even number of backslashes right
before it. Content is sealed if that mark is the one after it.
-/

namespace AvrFlow.Dot

open AvrFlow.Text

section Machine

variable {σ α β ι : Type} {step : σ → α → Option (List β × σ)} {s s' s'' : σ} {xs ys : List α}
  {out more : List β}

/-- Feeds a row of inputs to a machine; the result is what it puts out and where it ends. -/
def feed (step : σ → α → Option (List β × σ)) (s : σ) : List α → Option (List β × σ)
  | [] => some ([], s)
  | a :: rest =>
    match step s a with
    | none => none
    | some (out, s') => (feed step s' rest).map fun (more, s'') => (out ++ more, s'')

theorem feed_cons {a : α} (ha : step s a = some (out, s'))
    (hrest : feed step s' xs = some (more, s'')) :
    feed step s (a :: xs) = some (out ++ more, s'') := by
  rw [feed, ha]
  simp only [hrest, Option.map_some]

/-- What comes out of a text is what comes out of its parts, one after the other. -/
theorem feed_append (hxs : feed step s xs = some (out, s'))
    (hys : feed step s' ys = some (more, s'')) :
    feed step s (xs ++ ys) = some (out ++ more, s'') := by
  induction xs generalizing s out with
  | nil =>
    cases hxs
    exact hys
  | cons a rest ih =>
    rw [feed] at hxs
    split at hxs
    · cases hxs
    · next first t hfirst =>
      obtain ⟨⟨later, u⟩, hlater, heq⟩ := Option.map_eq_some_iff.1 hxs
      cases heq
      rw [List.append_assoc]
      exact feed_cons hfirst (ih hlater)

/-- Parts that each bring the machine back to where it was. -/
theorem feed_flatMap {f : ι → List α} {g : ι → List β} {is : List ι}
    (h : ∀ i ∈ is, feed step s (f i) = some (g i, s)) :
    feed step s (is.flatMap f) = some (is.flatMap g, s) := by
  induction is with
  | nil => rfl
  | cons i rest ih =>
    obtain ⟨hi, hrest⟩ := List.forall_mem_cons.1 h
    exact feed_append hi (ih hrest)

end Machine

/-- An identifier in a text. The text of a quoted one stands as it is written, with its
backslashes. -/
structure Ident where
  quoted : Bool
  text : List Char
  deriving DecidableEq, Repr

inductive Token where
  | keyword (word : List Char)
  | ident (i : Ident)
  | arrow
  | mark (c : Char)
  deriving DecidableEq, Repr

/-- What is being read. Characters that have been taken are kept newest first. -/
inductive Mode where
  | between
  | slash
  | comment
  | dash
  | word (taken : List Char)
  /-- The flag tells whether what was taken ends in an odd number of backslashes. -/
  | quoted (odd : Bool) (taken : List Char)
  deriving DecidableEq, Repr

def isWordChar (c : Char) : Bool :=
  isNameChar c || c == '.'

def wordToken? (s : List Char) : Option Token :=
  if keywords.contains (s.map Char.toLower) then some (.keyword (s.map Char.toLower))
  else if isName s || isNumber s then some (.ident ⟨false, s⟩)
  else none

def freshStep (c : Char) : Option (List Token × Mode) :=
  if c ∈ [' ', '\t', '\n'] then some ([], .between)
  else if c = '"' then some ([], .quoted false [])
  else if c = '-' then some ([], .dash)
  else if c = '/' then some ([], .slash)
  else if isWordChar c then some ([], .word [c])
  else if c ∈ ['[', ']', '\x7b', '\x7d', '='] then some ([.mark c], .between)
  else none

def scanStep : Mode → Char → Option (List Token × Mode)
  | .between, c => freshStep c
  | .slash, c => if c = '/' then some ([], .comment) else none
  | .comment, c => some ([], if c = '\n' then .between else .comment)
  | .dash, c =>
    if c = '>' then some ([.arrow], .between)
    else if isWordChar c then some ([], .word [c, '-'])
    else none
  | .word taken, c =>
    if isWordChar c then some ([], .word (c :: taken))
    else do
      let t ← wordToken? taken.reverse
      let (ts, m) ← freshStep c
      return (t :: ts, m)
  | .quoted odd taken, c =>
    if c = '"' ∧ odd = false then some ([.ident ⟨true, taken.reverse⟩], .between)
    else some ([], .quoted (c = '\\' && !odd) (c :: taken))

inductive Subject where
  | defaults (of : List Char)
  | node (id : Ident)
  deriving DecidableEq, Repr

inductive Statement where
  | attributes (subject : Subject) (values : List (Ident × Ident))
  | edge (source target : Ident)
  deriving DecidableEq, Repr

inductive Parse where
  | start
  | subject (s : Subject)
  | source (id : Ident)
  | listed (s : Subject) (values : List (Ident × Ident))
  | named (s : Subject) (values : List (Ident × Ident)) (name : Ident)
  | assigned (s : Subject) (values : List (Ident × Ident)) (name : Ident)
  | closed
  deriving DecidableEq, Repr

def defaultsStep (done : List Statement) (word : List Char) : Option (List Statement × Parse) :=
  if word ∈ ["graph".toList, "node".toList, "edge".toList] then
    some (done, .subject (.defaults word))
  else none

/-- Reads a token. A node without attributes ends where the next statement begins. -/
def parseStep : Parse → Token → Option (List Statement × Parse)
  | .start, .keyword k => defaultsStep [] k
  | .start, .ident i => some ([], .subject (.node i))
  | .start, .mark '\x7d' => some ([], .closed)
  | .subject s, .mark '[' => some ([], .listed s [])
  | .subject (.node i), .arrow => some ([], .source i)
  | .subject (.node i), .keyword k => defaultsStep [.attributes (.node i) []] k
  | .subject (.node i), .ident j => some ([.attributes (.node i) []], .subject (.node j))
  | .subject (.node i), .mark '\x7d' => some ([.attributes (.node i) []], .closed)
  | .source i, .ident j => some ([.edge i j], .start)
  | .listed s values, .mark ']' => some ([.attributes s values], .start)
  | .listed s values, .ident name => some ([], .named s values name)
  | .named s values name, .mark '=' => some ([], .assigned s values name)
  | .assigned s values name, .ident value => some ([], .listed s (values ++ [(name, value)]))
  | _, _ => none

structure Source where
  name : Ident
  statements : List Statement
  deriving DecidableEq, Repr

def readSource (text : String) : Option Source :=
  match feed scanStep .between text.toList with
  | some (.keyword k :: .ident name :: .mark '\x7b' :: body, .between) =>
    if k = "digraph".toList then
      match feed parseStep .start body with
      | some (statements, .closed) => some ⟨name, statements⟩
      | _ => none
    else none
  | _ => none

def backslashRun (s : List Char) : Nat :=
  (s.reverse.takeWhile (· = '\\')).length

theorem backslashRun_concat (s : List Char) (c : Char) :
    backslashRun (s ++ [c]) = if c = '\\' then backslashRun s + 1 else 0 := by
  by_cases h : c = '\\' <;> simp [backslashRun, h]

/-- An odd number of backslashes stands before every quotation mark of a text, when another text
comes before it. -/
def OpenAfter (earlier s : List Char) : Prop :=
  ∀ before after, s = before ++ '"' :: after → backslashRun (earlier ++ before) % 2 = 1

/-- In quotation marks, content ends where it is meant to: no quotation mark in it closes it, and
the one after it does. -/
structure Sealed (content : List Char) : Prop where
  openInside : OpenAfter [] content
  closedAfter : backslashRun content % 2 = 0

theorem openAfter_nil (earlier : List Char) : OpenAfter earlier [] := by
  intro before after h
  simp at h

theorem openAfter_cons {earlier s : List Char} {c : Char} :
    OpenAfter earlier (c :: s) ↔
      (c = '"' → backslashRun earlier % 2 = 1) ∧ OpenAfter (earlier ++ [c]) s := by
  constructor
  · intro h
    refine ⟨fun hc => ?_, fun before after hs => ?_⟩
    · simpa using h [] s (by rw [hc]; rfl)
    · simpa using h (c :: before) after (by rw [hs]; rfl)
  · intro ⟨hc, hs⟩ before after heq
    cases before with
    | nil =>
      obtain ⟨rfl, -⟩ := List.cons_eq_cons.1 heq
      simpa using hc rfl
    | cons d before =>
      obtain ⟨rfl, rfl⟩ := List.cons_eq_cons.1 heq
      simpa using hs before after rfl

/-- Whether a text ends in an odd number of backslashes, one character later. -/
theorem odd_concat {odd : Bool} {s : List Char} (h : odd = decide (backslashRun s % 2 = 1))
    (c : Char) : (c = '\\' && !odd) = decide (backslashRun (s ++ [c]) % 2 = 1) := by
  rw [backslashRun_concat, h]
  by_cases hc : c = '\\'
  · rw [if_pos hc, decide_eq_true hc, Bool.true_and, ← decide_not]
    apply decide_eq_decide.2
    omega
  · simp [hc]

/-- Reading goes on to the mark after the content. -/
theorem feed_quoted {odd : Bool} {taken content : List Char}
    (hodd : odd = decide (backslashRun taken.reverse % 2 = 1))
    (hopen : OpenAfter taken.reverse content)
    (hclosed : backslashRun (taken.reverse ++ content) % 2 = 0) :
    feed scanStep (.quoted odd taken) (content ++ ['"']) =
      some ([.ident ⟨true, taken.reverse ++ content⟩], .between) := by
  -- Along the content. The flag and what was taken are those of the text before it, so that the
  -- mark after the content is judged by all of the backslashes before it.
  induction content generalizing odd taken with
  | nil =>
    have heven : odd = false := by
      rw [List.append_nil] at hclosed
      rw [hodd, hclosed]
      rfl
    simp [feed, scanStep, heven]
  | cons c rest ih =>
    obtain ⟨hc, hrest⟩ := openAfter_cons.1 hopen
    have hgoes : ¬ (c = '"' ∧ odd = false) := by
      intro ⟨hquote, heven⟩
      rw [heven, hc hquote] at hodd
      cases hodd
    have hstep : scanStep (.quoted odd taken) c =
        some ([], .quoted (c = '\\' && !odd) (c :: taken)) := by
      rw [scanStep, if_neg hgoes]
    have htaken : taken.reverse ++ c :: rest = (c :: taken).reverse ++ rest := by simp
    rw [htaken] at hclosed ⊢
    rw [← List.reverse_cons] at hrest
    have hodd' := odd_concat hodd c
    rw [← List.reverse_cons] at hodd'
    exact feed_cons hstep (ih hodd' hrest hclosed)

/-- Sealed content in quotation marks is one token, whatever stands in it. -/
theorem Sealed.feed {content : List Char} (h : Sealed content) :
    feed scanStep .between ('"' :: content ++ ['"']) =
      some ([.ident ⟨true, content⟩], .between) := by
  have hstep : scanStep .between '"' = some ([], .quoted false []) := rfl
  exact feed_cons hstep (feed_quoted rfl h.openInside h.closedAfter)

/-- Escaping leaves no quotation mark that closes a text. -/
theorem openAfter_escapeQuotes {odd : Bool} {earlier : List Char}
    (hodd : odd = decide (backslashRun earlier % 2 = 1)) (s : List Char) :
    OpenAfter earlier (escapeQuotes odd s) := by
  induction s generalizing odd earlier with
  | nil => exact openAfter_nil earlier
  | cons c rest ih =>
    have hquote (e : List Char) : false = decide (backslashRun (e ++ ['"']) % 2 = 1) := by
      rw [backslashRun_concat]
      rfl
    unfold escapeQuotes
    split
    · split
      · next hisOdd =>
        rw [hisOdd] at hodd
        exact openAfter_cons.2 ⟨fun _ => of_decide_eq_true hodd.symm, ih (hquote earlier)⟩
      · next hnotOdd =>
        -- The backslash that is put in makes the number before the mark odd.
        have hslash := odd_concat hodd '\\'
        rw [Bool.not_eq_true] at hnotOdd
        rw [hnotOdd] at hslash
        refine openAfter_cons.2 ⟨fun h => absurd h (by decide), openAfter_cons.2 ⟨fun _ => ?_, ?_⟩⟩
        · exact of_decide_eq_true hslash.symm
        · exact ih (hquote _)
    · next hc => exact openAfter_cons.2 ⟨fun h => absurd h hc, ih (odd_concat hodd c)⟩

/-- Escaping keeps a character at the end that is no quotation mark. -/
theorem escapeQuotes_concat {c : Char} (hc : c ≠ '"') (odd : Bool) (s : List Char) :
    ∃ t, escapeQuotes odd (s ++ [c]) = t ++ [c] := by
  induction s generalizing odd with
  | nil => exact ⟨[], by simp [escapeQuotes, hc]⟩
  | cons d rest ih =>
    rw [List.cons_append, escapeQuotes]
    split
    · obtain ⟨t, ht⟩ := ih false
      rw [ht]
      exact ⟨_, (List.append_assoc ..).symm⟩
    · obtain ⟨t, ht⟩ := ih (d = '\\' && !odd)
      exact ⟨d :: t, by rw [ht]; rfl⟩

/-- A text that does not end in a backslash or a quotation mark is sealed by escaping. -/
theorem sealed_escapeQuotes {c : Char} (hquote : c ≠ '"') (hslash : c ≠ '\\') (s : List Char) :
    Sealed (escapeQuotes false (s ++ [c])) := by
  refine ⟨openAfter_escapeQuotes rfl _, ?_⟩
  obtain ⟨t, ht⟩ := escapeQuotes_concat hquote false s
  rw [ht, backslashRun_concat, if_neg hslash]

/-- A text without quotation marks and backslashes is sealed as it is. -/
theorem sealed_of_not_mem {s : List Char} (hquote : '"' ∉ s) (hslash : '\\' ∉ s) : Sealed s := by
  refine ⟨?_, ?_⟩
  · intro before after h
    exact absurd (h ▸ List.mem_append_right _ (List.mem_cons_self ..)) hquote
  · rcases List.eq_nil_or_concat s with rfl | ⟨t, c, rfl⟩
    · rfl
    · rw [List.concat_eq_append] at hslash ⊢
      rw [backslashRun_concat, if_neg]
      rintro rfl
      exact hslash (List.mem_append_right _ (List.mem_singleton_self _))

theorem escapeQuotes_of_not_mem {s : List Char} (h : '"' ∉ s) (odd : Bool) :
    escapeQuotes odd s = s := by
  induction s generalizing odd with
  | nil => rfl
  | cons c rest ih =>
    have hc := List.ne_of_not_mem_cons h
    rw [escapeQuotes, if_neg (Ne.symm hc), ih (List.not_mem_of_not_mem_cons h)]

/-- The text that quoted content stands for: a backslash that escapes a quotation mark is left
out. -/
def unescapeQuotes : List Char → List Char
  | [] => []
  | '\\' :: '"' :: rest => '"' :: unescapeQuotes rest
  | '\\' :: '\\' :: rest => '\\' :: '\\' :: unescapeQuotes rest
  | c :: rest => c :: unescapeQuotes rest

theorem unescapeQuotes_cons {c : Char} (hc : c ≠ '\\') (s : List Char) :
    unescapeQuotes (c :: s) = c :: unescapeQuotes s := by
  rw [unescapeQuotes] <;> simp [hc]

theorem unescapeQuotes_slash_cons {c : Char} (hquote : c ≠ '"') (hslash : c ≠ '\\')
    (s : List Char) : unescapeQuotes ('\\' :: c :: s) = '\\' :: c :: unescapeQuotes s := by
  rw [unescapeQuotes, unescapeQuotes_cons hslash] <;> simp [hquote, hslash]

/-- Escaping does not change what a text stands for. -/
theorem unescapeQuotes_escapeQuotes (s : List Char) :
    unescapeQuotes (escapeQuotes false s) = unescapeQuotes s ∧
      unescapeQuotes ('\\' :: escapeQuotes true s) = unescapeQuotes ('\\' :: s) := by
  -- The two halves go together: a backslash is looked at only when the character after it is there.
  induction s with
  | nil => exact ⟨rfl, rfl⟩
  | cons c rest ih =>
    obtain ⟨heven, hodd⟩ := ih
    by_cases hquote : c = '"'
    · subst hquote
      simp [escapeQuotes, unescapeQuotes, heven]
    · by_cases hslash : c = '\\'
      · subst hslash
        simp [escapeQuotes, unescapeQuotes, heven, hodd]
      · simp [escapeQuotes, unescapeQuotes_cons, unescapeQuotes_slash_cons, hquote, hslash, heven]

section Words

variable {c : Char} {s t taken : List Char} {ts : List Token} {m : Mode}

theorem isWordChar_of_isNameChar (h : isNameChar c = true) : isWordChar c = true := by
  rw [isWordChar, h, Bool.true_or]

theorem isNameChar_of_isNameStart (h : isNameStart c = true) : isNameChar c = true := by
  unfold isNameStart at h
  unfold isNameChar Char.isAlphanum
  grind

theorem isNameChar_of_isName (h : isName s = true) : ∀ c ∈ s, isNameChar c = true := by
  cases s with
  | nil => simp
  | cons c rest =>
    rw [isName, Bool.and_eq_true, List.all_eq_true] at h
    exact List.forall_mem_cons.2 ⟨isNameChar_of_isNameStart h.1, h.2⟩

theorem isWordChar_of_isDigit (h : c.isDigit = true) : isWordChar c = true := by
  apply isWordChar_of_isNameChar
  rw [isNameChar, Char.isAlphanum, h, Bool.or_true, Bool.true_or]

theorem isWordChar_of_isUnsigned (h : isUnsigned s = true) : ∀ c ∈ s, isWordChar c = true := by
  -- After the digits there is nothing, or the point with the digits of a fraction.
  intro c hc
  rw [← List.takeWhile_append_dropWhile (p := Char.isDigit) (l := s)] at hc
  rcases List.mem_append.1 hc with hwhole | hrest
  · exact isWordChar_of_isDigit (List.all_eq_true.1 List.all_takeWhile c hwhole)
  · unfold isUnsigned at h
    dsimp only at h
    split at h
    · next hnil =>
      rw [hnil] at hrest
      exact absurd hrest List.not_mem_nil
    · next fraction hpoint =>
      rw [Bool.and_eq_true, List.all_eq_true] at h
      rw [hpoint] at hrest
      rcases List.mem_cons.1 hrest with rfl | hfraction
      · rfl
      · exact isWordChar_of_isDigit (h.1 c hfraction)
    · cases h

theorem isWordChar_or_minus_of_isNumber (h : isNumber s = true) :
    ∀ c ∈ s, isWordChar c = true ∨ c = '-' := by
  intro c hc
  unfold isNumber at h
  split at h
  · rcases List.mem_cons.1 hc with rfl | hc
    · exact Or.inr rfl
    · exact Or.inl (isWordChar_of_isUnsigned h c hc)
  · exact Or.inl (isWordChar_of_isUnsigned h c hc)

theorem isUnsigned_ne_nil (h : isUnsigned s = true) : s ≠ [] := by
  rintro rfl
  cases h

theorem freshStep_of_isWordChar (h : isWordChar c = true) :
    freshStep c = some ([], .word [c]) := by
  have hne (d : Char) (hd : isWordChar d = false) : c ≠ d := by
    rintro rfl
    rw [h] at hd
    cases hd
  simp [freshStep, h, hne ' ' rfl, hne '\t' rfl, hne '\n' rfl, hne '"' rfl, hne '-' rfl,
    hne '/' rfl]

theorem feed_word (hs : ∀ c ∈ s, isWordChar c = true) (taken : List Char) :
    feed scanStep (.word taken) s = some ([], .word (s.reverse ++ taken)) := by
  induction s generalizing taken with
  | nil => rfl
  | cons c rest ih =>
    obtain ⟨hc, hrest⟩ := List.forall_mem_cons.1 hs
    have hstep : scanStep (.word taken) c = some ([], .word (c :: taken)) := by
      rw [scanStep, if_pos hc]
    rw [List.reverse_cons, List.append_assoc]
    exact feed_cons hstep (ih hrest (c :: taken))

theorem feed_word_start (hs : ∀ c ∈ s, isWordChar c = true) (hne : s ≠ []) :
    feed scanStep .between s = some ([], .word s.reverse) := by
  cases s with
  | nil => exact absurd rfl hne
  | cons c rest =>
    obtain ⟨hc, hrest⟩ := List.forall_mem_cons.1 hs
    have hstep : scanStep .between c = some ([], .word [c]) := freshStep_of_isWordChar hc
    rw [List.reverse_cons]
    exact feed_cons hstep (feed_word hrest [c])

/-- A word ends at the first character that cannot stand in one. -/
theorem feed_word_end {token : Token} (htoken : wordToken? taken.reverse = some token)
    (hc : isWordChar c = false) (ht : feed scanStep .between (c :: t) = some (ts, m)) :
    feed scanStep (.word taken) (c :: t) = some (token :: ts, m) := by
  -- After the token of the word, the character is read as one that stands between tokens.
  have hbetween : scanStep .between c = freshStep c := rfl
  cases hfresh : freshStep c with
  | none =>
    rw [feed, hbetween, hfresh] at ht
    cases ht
  | some p =>
    obtain ⟨out, m'⟩ := p
    rw [feed, hbetween, hfresh] at ht
    obtain ⟨⟨more, m''⟩, hmore, heq⟩ := Option.map_eq_some_iff.1 ht
    cases heq
    have hstep : scanStep (.word taken) c = some (token :: out, m') := by
      simp [scanStep, hc, htoken, hfresh]
    exact feed_cons hstep hmore

/-- The characters of a bare text are taken together. -/
theorem feed_bare_word (hs : isName s = true ∨ isNumber s = true) :
    feed scanStep .between s = some ([], .word s.reverse) := by
  rcases hs with hname | hnumber
  · apply feed_word_start fun c hc => isWordChar_of_isNameChar (isNameChar_of_isName hname c hc)
    rintro rfl
    cases hname
  · unfold isNumber at hnumber
    split at hnumber
    · next rest =>
      cases rest with
      | nil => cases hnumber
      | cons c rest =>
        -- An arrow begins with a minus sign too: only the character after it tells them apart.
        obtain ⟨hc, hrest⟩ := List.forall_mem_cons.1 (isWordChar_of_isUnsigned hnumber)
        have hdash : scanStep .between '-' = some ([], .dash) := rfl
        have hstep : scanStep .dash c = some ([], .word [c, '-']) := by
          have hne : c ≠ '>' := by
            rintro rfl
            cases hc
          rw [scanStep, if_neg hne, if_pos hc]
        have hfeed := feed_cons hdash (feed_cons hstep (feed_word hrest [c, '-']))
        simpa using hfeed
    · exact feed_word_start (isWordChar_of_isUnsigned hnumber) (isUnsigned_ne_nil hnumber)

/-- A bare text is one token, up to the first character that cannot stand in one. -/
theorem feed_bare (hs : isName s = true ∨ isNumber s = true)
    (hkeyword : keywords.contains (s.map Char.toLower) = false) (hc : isWordChar c = false)
    (ht : feed scanStep .between (c :: t) = some (ts, m)) :
    feed scanStep .between (s ++ c :: t) = some (.ident ⟨false, s⟩ :: ts, m) := by
  have htoken : wordToken? s.reverse.reverse = some (.ident ⟨false, s⟩) := by
    rw [← Bool.or_eq_true] at hs
    rw [List.reverse_reverse, wordToken?, hkeyword]
    simp [hs]
  exact feed_append (feed_bare_word hs) (feed_word_end htoken hc ht)

end Words

section Statements

def Subject.token : Subject → Token
  | defaults word => .keyword word
  | node i => .ident i

def attributeTokens (values : List (Ident × Ident)) : List Token :=
  values.flatMap fun (name, value) => [.ident name, .mark '=', .ident value]

def Statement.tokens : Statement → List Token
  | attributes s values => s.token :: .mark '[' :: attributeTokens values ++ [.mark ']']
  | edge source target => [.ident source, .arrow, .ident target]

def Subject.Proper : Subject → Prop
  | defaults word => word ∈ ["graph".toList, "node".toList, "edge".toList]
  | node _ => True

def Statement.Proper : Statement → Prop
  | attributes s _ => s.Proper
  | edge _ _ => True

theorem feed_attributeTokens (s : Subject) (before values : List (Ident × Ident)) :
    feed parseStep (.listed s before) (attributeTokens values) =
      some ([], .listed s (before ++ values)) := by
  induction values generalizing before with
  | nil => rw [List.append_nil]; rfl
  | cons value rest ih =>
    obtain ⟨name, value⟩ := value
    have hfirst : feed parseStep (.listed s before) [.ident name, .mark '=', .ident value] =
        some ([], .listed s (before ++ [(name, value)])) := rfl
    have happend : before ++ (name, value) :: rest = before ++ [(name, value)] ++ rest := by simp
    rw [happend]
    exact feed_append hfirst (ih _)

theorem Statement.Proper.feed {statement : Statement} (h : statement.Proper) :
    feed parseStep .start statement.tokens = some ([statement], .start) := by
  cases statement with
  | edge source target => rfl
  | attributes s values =>
    have hsubject : parseStep .start s.token = some ([], .subject s) := by
      cases s with
      | defaults word => exact if_pos h
      | node i => rfl
    have hopen : parseStep (.subject s) (.mark '[') = some ([], .listed s []) := by
      cases s <;> rfl
    have hclose : Dot.feed parseStep (.listed s values) [.mark ']'] =
        some ([.attributes s values], .start) := rfl
    have hlisted := feed_append (feed_attributeTokens s [] values) hclose
    exact feed_cons hsubject (feed_cons hopen hlisted)

theorem readSource_of_feed {text : String} {name : Ident} {statements : List Statement}
    (hproper : ∀ s ∈ statements, s.Proper)
    (h : feed scanStep .between text.toList =
      some (.keyword "digraph".toList :: .ident name :: .mark '\x7b' ::
        (statements.flatMap Statement.tokens ++ [.mark '\x7d']), .between)) :
    readSource text = some ⟨name, statements⟩ := by
  have hbody := feed_flatMap (g := fun s => [s]) fun s hs => (hproper s hs).feed
  have hclose : feed parseStep .start [.mark '\x7d'] = some ([], .closed) := rfl
  have hall := feed_append hbody hclose
  rw [readSource, h]
  simp only [hall, if_true]
  simp

end Statements

end AvrFlow.Dot
