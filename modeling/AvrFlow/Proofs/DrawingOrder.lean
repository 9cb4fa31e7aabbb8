import AvrFlow.Proofs.Drawing

namespace AvrFlow

structure Graph.Rearranged (g g' : Graph) : Prop where
  blocks : g.blocks.Perm g'.blocks
  relations : g.relations.Perm g'.relations

namespace Dot

open AvrFlow.Text

variable {g g' : Graph} {resolution : Resolution} {blocks blocks' : List Block} {e o : Int}

def Resolution.Writable : Resolution → Prop
  | number n => (Nat.toDigits 10 n.natAbs).length ≤ digitLimit
  | text _ => True

theorem Resolution.Writable.exists_spell (h : resolution.Writable) :
    ∃ dpi, resolution.spell = .ok dpi := by
  cases resolution with
  | number n => exact ⟨toString n, spell_number h⟩
  | text s => exact ⟨s, rfl⟩

/-- The smallest offset that is the entry of more than one block. -/
structure FirstRepeated (blocks : List Block) (e : Int) : Prop where
  repeated : 2 ≤ (blocks.map (·.firstOffset)).count e
  below : ∀ o < e, (blocks.map (·.firstOffset)).count o ≤ 1

theorem FirstRepeated.perm (h : FirstRepeated blocks e) (hperm : blocks.Perm blocks') :
    FirstRepeated blocks' e := by
  have hcount (o : Int) : (blocks.map (·.firstOffset)).count o =
      (blocks'.map (·.firstOffset)).count o := (hperm.map _).count_eq o
  refine ⟨?_, ?_⟩
  · rw [← hcount]
    exact h.repeated
  · intro o ho
    rw [← hcount]
    exact h.below o ho

theorem FirstRepeated.unique (h : FirstRepeated blocks e) (h' : FirstRepeated blocks o) :
    e = o := by
  have hrepeated := h.repeated
  have hrepeated' := h'.repeated
  rcases Int.lt_trichotomy e o with hlt | heq | hgt
  · have hbelow := h'.below e hlt
    omega
  · exact heq
  · have hbelow := h.below o hgt
    omega

theorem FirstRepeated.not_nodup (h : FirstRepeated blocks e) :
    ¬ (blocks.map (·.firstOffset)).Nodup := by
  intro hnodup
  have hrepeated := h.repeated
  have hone := List.nodup_iff_count_le_one.1 hnodup e
  omega

/-- The check stops at the first block whose entry has occurred; those before it have different
entries. -/
theorem exists_of_repeatedEntry? {seen : List Int} {b : Block}
    (h : repeatedEntry? seen blocks = some b) :
    ∃ pre post, blocks = pre ++ b :: post ∧ (pre.map (·.firstOffset)).Nodup ∧
      (∀ c ∈ pre, c.firstOffset ∉ seen) ∧
      (b.firstOffset ∈ seen ∨ b.firstOffset ∈ pre.map (·.firstOffset)) := by
  induction blocks generalizing seen with
  | nil => cases h
  | cons c rest ih =>
    unfold repeatedEntry? at h
    split at h
    · next hc =>
      cases h
      exact ⟨[], rest, rfl, List.nodup_nil, fun d hd => absurd hd List.not_mem_nil, Or.inl hc⟩
    · next hc =>
      obtain ⟨pre, post, rfl, hnodup, hseen, hb⟩ := ih h
      have hfresh : c.firstOffset ∉ pre.map (·.firstOffset) := by
        intro hmem
        obtain ⟨d, hd, heq⟩ := List.mem_map.1 hmem
        exact hseen d hd (heq ▸ List.mem_cons_self ..)
      refine ⟨c :: pre, post, rfl, List.nodup_cons.2 ⟨hfresh, hnodup⟩, ?_, ?_⟩
      · intro d hd
        rcases List.mem_cons.1 hd with rfl | hd
        · exact hc
        · exact fun hmem => hseen d hd (List.mem_cons_of_mem _ hmem)
      · rw [List.map_cons, List.mem_cons]
        rw [List.mem_cons] at hb
        rcases hb with (heq | hb) | hb
        · exact Or.inr (Or.inl heq)
        · exact Or.inl hb
        · exact Or.inr (Or.inr hb)

theorem firstRepeated_of_repeatedEntry? {b : Block}
    (hsorted : blocks.Pairwise fun c d => c.firstOffset ≤ d.firstOffset)
    (h : repeatedEntry? [] blocks = some b) : FirstRepeated blocks b.firstOffset := by
  obtain ⟨pre, post, rfl, hnodup, -, hb⟩ := exists_of_repeatedEntry? h
  have hpre : b.firstOffset ∈ pre.map (·.firstOffset) := hb.resolve_left List.not_mem_nil
  obtain ⟨-, hpost, -⟩ := List.pairwise_append.1 hsorted
  have hafter := (List.pairwise_cons.1 hpost).1
  have hcount (o : Int) : ((pre ++ b :: post).map (·.firstOffset)).count o =
      (pre.map (·.firstOffset)).count o + ((b :: post).map (·.firstOffset)).count o := by
    rw [List.map_append, List.count_append]
  refine ⟨?_, ?_⟩
  · have hone := List.one_le_count_iff.2 hpre
    have htwo : 1 ≤ ((b :: post).map (·.firstOffset)).count b.firstOffset :=
      List.one_le_count_iff.2 (List.mem_cons_self ..)
    rw [hcount]
    omega
  · -- From `b` on no entry is below its own, so a smaller one occurs before it only.
    intro o ho
    have hnone : o ∉ (b :: post).map (·.firstOffset) := by
      intro hmem
      obtain ⟨c, hc, rfl⟩ := List.mem_map.1 hmem
      rcases List.mem_cons.1 hc with rfl | hc
      · omega
      · have hle := hafter c hc
        omega
    have hone := List.nodup_iff_count_le_one.1 hnodup o
    rw [hcount, List.count_eq_zero_of_not_mem hnone]
    omega

/-- A drawing at a resolution that can be written succeeds or reports the smallest repeated
entry. -/
theorem render_cases (g : Graph) (h : resolution.Writable) :
    ((g.blocks.map (·.firstOffset)).Nodup ∧ ∃ text, render g resolution = .ok text) ∨
      ∃ b, FirstRepeated g.blocks b.firstOffset ∧
        render g resolution = .error (.duplicateEntry b) := by
  obtain ⟨dpi, hdpi⟩ := h.exists_spell
  have hperm : (inEntryOrder g.blocks).Perm g.blocks := perm_sortBy _ _
  cases hcheck : repeatedEntry? [] (inEntryOrder g.blocks) with
  | none =>
    left
    have hnodup := (hperm.map (·.firstOffset)).nodup_iff.1 (nodup_entries_iff.2 hcheck)
    exact ⟨hnodup, _, render_of_spell hnodup hdpi⟩
  | some b =>
    right
    have hsorted : (inEntryOrder g.blocks).Pairwise fun c d => c.firstOffset ≤ d.firstOffset :=
      pairwise_sortBy_key (fun c : Block => c.firstOffset) g.blocks
    have hfirst := firstRepeated_of_repeatedEntry? hsorted hcheck
    refine ⟨b, hfirst.perm hperm, ?_⟩
    simp only [render, hdpi, hcheck]

theorem exists_render_ok_iff (h : resolution.Writable) :
    (∃ text, render g resolution = .ok text) ↔ (g.blocks.map (·.firstOffset)).Nodup := by
  rcases render_cases g h with ⟨hnodup, hok⟩ | ⟨b, hfirst, herror⟩
  · exact iff_of_true hok hnodup
  · apply iff_of_false _ hfirst.not_nodup
    rintro ⟨text, htext⟩
    rw [herror] at htext
    cases htext

/-- The entry that is reported does not depend on the order of the blocks, although the block does:
of two blocks with one entry the one that is listed later is named. -/
theorem exists_render_error_iff (h : resolution.Writable) :
    (∃ b, render g resolution = .error (.duplicateEntry b) ∧ b.firstOffset = e) ↔
      FirstRepeated g.blocks e := by
  rcases render_cases g h with ⟨hnodup, text, hok⟩ | ⟨b, hfirst, herror⟩
  · apply iff_of_false
    · rintro ⟨b, herror, -⟩
      rw [hok] at herror
      cases herror
    · exact fun hfirst => hfirst.not_nodup hnodup
  · constructor
    · rintro ⟨c, hc, rfl⟩
      rw [herror] at hc
      cases hc
      exact hfirst
    · intro hfirst'
      exact ⟨b, herror, hfirst.unique hfirst'⟩

/-- Drawings of rearranged graphs with different entries are equal. -/
theorem render_eq_of_rearranged (h : g.Rearranged g')
    (hnodup : (g.blocks.map (·.firstOffset)).Nodup) (hres : resolution.Writable) :
    render g resolution = render g' resolution := by
  obtain ⟨dpi, hdpi⟩ := hres.exists_spell
  have hnodup' := (h.blocks.map (·.firstOffset)).nodup_iff.1 hnodup
  rw [render_of_spell hnodup hdpi, render_of_spell hnodup' hdpi, map_nodeStatement,
    map_nodeStatement, map_drawn_inEntryOrder hnodup hnodup' (h.blocks.map drawn),
    sortedRelations_eq h.relations]

/-- In every order of its blocks and relations a graph has the same drawing, unless two blocks have
one entry. Then the drawing fails in every order, and the smallest such entry is reported. -/
theorem render_rearranged (h : g.Rearranged g') (hres : resolution.Writable) :
    (∀ text, render g resolution = .ok text ↔ render g' resolution = .ok text) ∧
      ((∃ text, render g' resolution = .ok text) ↔ (g.blocks.map (·.firstOffset)).Nodup) ∧
      ((∃ b, render g' resolution = .error (.duplicateEntry b)) ↔
        ¬ (g.blocks.map (·.firstOffset)).Nodup) ∧
      ∀ e, (∃ b, render g' resolution = .error (.duplicateEntry b) ∧ b.firstOffset = e) ↔
        FirstRepeated g.blocks e := by
  have hnodup := (h.blocks.map (·.firstOffset)).nodup_iff
  refine ⟨?_, ?_, ?_, ?_⟩
  · intro text
    by_cases hentries : (g.blocks.map (·.firstOffset)).Nodup
    · rw [render_eq_of_rearranged h hentries hres]
    · -- Without different entries neither of the two drawings has a text.
      have hfails {k : Graph} (hk : ¬ (k.blocks.map (·.firstOffset)).Nodup) :
          render k resolution ≠ .ok text :=
        fun htext => hk ((exists_render_ok_iff hres).1 ⟨text, htext⟩)
      exact iff_of_false (hfails hentries) (hfails (mt hnodup.2 hentries))
  · rw [exists_render_ok_iff hres, hnodup]
  · rw [hnodup]
    rcases render_cases g' hres with ⟨hentries, text, hok⟩ | ⟨b, hfirst, herror⟩
    · apply iff_of_false _ (not_not_intro hentries)
      rintro ⟨b, herror⟩
      rw [hok] at herror
      cases herror
    · exact iff_of_true ⟨b, herror⟩ hfirst.not_nodup
  · intro e
    rw [exists_render_error_iff hres]
    exact ⟨fun hfirst => hfirst.perm h.blocks.symm, fun hfirst => hfirst.perm h.blocks⟩

def unrulyTextsReversed : Graph :=
  ⟨unrulyTexts.blocks.reverse, unrulyTexts.relations.reverse⟩

theorem render_rearranged_unrulyTexts :
    unrulyTexts ≠ unrulyTextsReversed ∧ unrulyTexts.Rearranged unrulyTextsReversed ∧
      ∃ text, render unrulyTexts (.text "96.0\"]") = .ok text ∧
        render unrulyTextsReversed (.text "96.0\"]") = .ok text := by
  have hrearranged : unrulyTexts.Rearranged unrulyTextsReversed :=
    ⟨(List.reverse_perm _).symm, (List.reverse_perm _).symm⟩
  have hwritable : (Resolution.text "96.0\"]").Writable := trivial
  obtain ⟨hsame, hok, -, -⟩ := render_rearranged hrearranged hwritable
  obtain ⟨text, htext⟩ := hok.2 (by decide)
  exact ⟨by decide, hrearranged, text, (hsame text).2 htext, htext⟩

-- The second of two blocks with one entry is named, so the order shows in the error only.
example :
    let nop (id : Int) : Block := ⟨⟨⟨4, none, "nop", [], 2, "nop"⟩, []⟩, id⟩
    render ⟨[nop 0, nop 1], []⟩ (.number 200) = .error (.duplicateEntry (nop 1)) ∧
      render ⟨[nop 1, nop 0], []⟩ (.number 200) = .error (.duplicateEntry (nop 0)) := by
  decide +kernel

end Dot

end AvrFlow
