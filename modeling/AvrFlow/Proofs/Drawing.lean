import AvrFlow.Proofs.Admission
import AvrFlow.Proofs.DotLines
import Std.Data.String.ToInt

namespace AvrFlow

open AvrFlow.Text

def Relation.Before (r s : Relation) : Prop :=
  r.source < s.source ∨ r.source = s.source ∧ r.target < s.target

theorem Relation.before_asymm {r s : Relation} (h : r.Before s) : ¬ s.Before r := by
  unfold Before at h ⊢
  omega

theorem Relation.before_of_le {r s : Relation} (hle : r.le s = true) (hne : r ≠ s) :
    r.Before s := by
  obtain ⟨source, target⟩ := r
  obtain ⟨source', target'⟩ := s
  simp only [Relation.le, Bool.or_eq_true, Bool.and_eq_true, decide_eq_true_eq, beq_iff_eq] at hle
  simp only [ne_eq, Relation.mk.injEq, not_and] at hne
  dsimp only [Before]
  omega

theorem Relation.eq_of_le_of_le {r s : Relation} (hrs : r.le s = true) (hsr : s.le r = true) :
    r = s := by
  by_contra hne
  exact before_asymm (before_of_le hrs hne) (before_of_le hsr (Ne.symm hne))

theorem Graph.pairwise_le_sortedRelations (g : Graph) :
    g.sortedRelations.Pairwise fun r s => r.le s = true := by
  apply pairwise_sortBy
  · intro a b c
    simp only [Relation.le, Bool.or_eq_true, Bool.and_eq_true, decide_eq_true_eq, beq_iff_eq]
    omega
  · intro a b
    simp only [Relation.le, Bool.or_eq_true, Bool.and_eq_true, decide_eq_true_eq, beq_iff_eq]
    omega

theorem Graph.pairwise_sortedRelations {g : Graph} (h : g.relations.Nodup) :
    g.sortedRelations.Pairwise Relation.Before := by
  have hne : g.sortedRelations.Pairwise (· ≠ ·) := (perm_sortBy _ _).nodup_iff.2 h
  exact (g.pairwise_le_sortedRelations.and hne).imp
    fun ⟨hle, hne⟩ => Relation.before_of_le hle hne

namespace Dot

theorem pairwise_inEntryOrder {blocks : List Block} (h : (blocks.map (·.firstOffset)).Nodup) :
    (inEntryOrder blocks).Pairwise fun a b => a.firstOffset < b.firstOffset :=
  pairwise_lt_sortBy_key (fun b : Block => b.firstOffset) h

def shown (n : Int) (entries : List (Int × List Char)) (relations : List Relation) :
    List Statement :=
  stylesShown n ++ entries.map entryShown ++ relations.map relationShown

theorem proper_of_mem_shown {n : Int} {entries : List (Int × List Char)}
    {relations : List Relation} : ∀ s ∈ shown n entries relations, s.Proper := by
  intro s hs
  rcases List.mem_append.1 hs with hs | hs
  · rcases List.mem_append.1 hs with hs | hs
    · simp only [stylesShown, List.mem_cons, List.not_mem_nil, or_false] at hs
      rcases hs with rfl | rfl | rfl <;> simp [Statement.Proper, Subject.Proper]
    · obtain ⟨d, -, rfl⟩ := List.mem_map.1 hs
      trivial
  · obtain ⟨r, -, rfl⟩ := List.mem_map.1 hs
    trivial

theorem readSource_drawing (n : Int) (blocks : List Block) (relations : List Relation) :
    readSource (document (styleStatements (toString n) ++ blocks.map nodeStatement ++
        relations.map edgeStatement)) =
      some ⟨⟨false, "G".toList⟩, shown n (blocks.map drawn) relations⟩ := by
  have hblocks : List.Forall₂ Shows (blocks.map nodeStatement)
      ((blocks.map drawn).map entryShown) := by
    rw [List.map_map, List.forall₂_map_left_iff, List.forall₂_map_right_iff, List.forall₂_same]
    exact fun b _ => shows_nodeStatement b
  have hrelations : List.Forall₂ Shows (relations.map edgeStatement)
      (relations.map relationShown) := by
    rw [List.forall₂_map_left_iff, List.forall₂_map_right_iff, List.forall₂_same]
    exact fun r _ => shows_edgeStatement r
  apply readSource_document _ proper_of_mem_shown
  exact List.rel_append (List.rel_append (shows_styleStatements n) hblocks) hrelations

theorem nodeIdent_injective : Function.Injective nodeIdent := by
  intro m n h
  apply nodeId_injective
  exact String.toList_inj.1 (Ident.mk.inj h).2

theorem relationShown_injective : Function.Injective relationShown := by
  intro ⟨source, target⟩ ⟨source', target'⟩ h
  obtain ⟨hsource, htarget⟩ := Statement.edge.inj h
  rw [Relation.mk.injEq]
  exact ⟨nodeIdent_injective hsource, nodeIdent_injective htarget⟩

theorem entryShown_injective : Function.Injective entryShown := by
  intro ⟨entry, content⟩ ⟨entry', content'⟩ h
  simp only [entryShown, Statement.attributes.injEq, Subject.node.injEq, List.cons.injEq,
    Prod.mk.injEq, Ident.mk.injEq, true_and, and_true] at h
  rw [Prod.mk.injEq]
  exact ⟨nodeIdent_injective h.1, h.2⟩

theorem stylesShown_injective : Function.Injective stylesShown := by
  intro m n h
  simp only [stylesShown, bareAttribute, List.cons.injEq, Statement.attributes.injEq,
    Prod.mk.injEq, Ident.mk.injEq, true_and, and_true, String.toList_inj] at h
  exact Int.repr_injective h

def Statement.isEdge : Statement → Bool
  | edge _ _ => true
  | attributes _ _ => false

/-- Statements on entries and on relations can be told from each other. -/
theorem filter_isEdge_shown (entries : List (Int × List Char)) (relations : List Relation) :
    (entries.map entryShown ++ relations.map relationShown).filter Statement.isEdge =
        relations.map relationShown ∧
      (entries.map entryShown ++ relations.map relationShown).filter (!Statement.isEdge ·) =
        entries.map entryShown := by
  simp [List.filter_map, Function.comp_def, entryShown, relationShown, Statement.isEdge]

/-- Drawings that are read as the same statements show the same. -/
theorem shown_inj {n n' : Int} {entries entries' : List (Int × List Char)}
    {relations relations' : List Relation}
    (h : shown n entries relations = shown n' entries' relations') :
    n = n' ∧ entries = entries' ∧ relations = relations' := by
  rw [shown, shown, List.append_assoc, List.append_assoc] at h
  -- There are as many styles on both sides, so the rest begins at the same place.
  obtain ⟨hstyles, hrest⟩ := List.append_inj h rfl
  have hedges := congrArg (List.filter Statement.isEdge) hrest
  have hnodes := congrArg (List.filter (!Statement.isEdge ·)) hrest
  rw [(filter_isEdge_shown ..).1, (filter_isEdge_shown ..).1] at hedges
  rw [(filter_isEdge_shown ..).2, (filter_isEdge_shown ..).2] at hnodes
  refine ⟨stylesShown_injective hstyles, ?_, ?_⟩
  · exact (List.map_inj_right fun _ _ heq => entryShown_injective heq).1 hnodes
  · exact (List.map_inj_right fun _ _ heq => relationShown_injective heq).1 hedges

def entryLine (d : Int × List Char) : List Char :=
  quote (nodeId d.1).toList ++ " [label=".toList ++ ('"' :: d.2 ++ ['"']) ++ [']']

theorem nodeStatement_eq_entryLine (b : Block) : nodeStatement b = entryLine (drawn b) := by
  simp only [nodeStatement, quote_label, entryLine, drawn]

theorem map_nodeStatement (blocks : List Block) :
    blocks.map nodeStatement = (blocks.map drawn).map entryLine := by
  rw [List.map_map]
  exact List.map_congr_left fun b _ => nodeStatement_eq_entryLine b

theorem perm_map_drawn (blocks : List Block) :
    ((inEntryOrder blocks).map drawn).Perm (blocks.map drawn) :=
  (perm_sortBy _ blocks).map drawn

/-- Blocks in ascending order of entries are known from what is shown of them, in any order. -/
theorem map_drawn_inEntryOrder {blocks blocks' : List Block}
    (h : (blocks.map (·.firstOffset)).Nodup) (h' : (blocks'.map (·.firstOffset)).Nodup)
    (hperm : (blocks.map drawn).Perm (blocks'.map drawn)) :
    (inEntryOrder blocks).map drawn = (inEntryOrder blocks').map drawn := by
  have hsorted {bs : List Block} (hbs : (bs.map (·.firstOffset)).Nodup) :
      ((inEntryOrder bs).map drawn).Pairwise fun d e => d.1 < e.1 :=
    List.pairwise_map.2 (pairwise_inEntryOrder hbs)
  apply List.Perm.eq_of_pairwise _ (hsorted h) (hsorted h')
  · exact (perm_map_drawn blocks).trans (hperm.trans (perm_map_drawn blocks').symm)
  · exact fun d e _ _ hlt hgt => absurd hlt (Int.lt_asymm hgt)

theorem sortedRelations_eq {g g' : Graph} (hperm : g.relations.Perm g'.relations) :
    g.sortedRelations = g'.sortedRelations := by
  apply List.Perm.eq_of_pairwise _ g.pairwise_le_sortedRelations g'.pairwise_le_sortedRelations
  · exact (perm_sortBy _ _).trans (hperm.trans (perm_sortBy _ _).symm)
  · exact fun r s _ _ hrs hsr => Relation.eq_of_le_of_le hrs hsr

/-- What can be read from the text of a drawing. The lines of a label are the instructions of its
block, each with its offset before it and the break that aligns it to the left behind it. -/
structure ReadsBack (g : Graph) (n : Int) (text : String) : Prop where
  source : ∃ (blocks : List Block) (relations : List Relation),
    readSource text = some ⟨⟨false, "G".toList⟩, shown n (blocks.map drawn) relations⟩ ∧
    blocks.Perm g.blocks ∧ blocks.Pairwise (fun a b => a.firstOffset < b.firstOffset) ∧
    relations.Perm g.relations ∧ relations.Pairwise Relation.Before
  labels : ∀ b ∈ g.blocks, Sealed (labelContent b.instrs) ∧
    unescapeQuotes (labelContent b.instrs) = unescapeQuotes (label b.instrs).toList
  lines : ∀ b ∈ g.blocks, (label b.instrs).toList =
    b.instrs.flatMap fun i => hex8Chars i.offset ++ ':' :: ' ' :: i.text.toList ++ ['\\', 'l']

structure Drawable (g : Graph) (n : Int) : Prop where
  entries : (g.blocks.map (·.firstOffset)).Nodup
  relations : g.relations.Nodup
  digits : (Nat.toDigits 10 n.natAbs).length ≤ digitLimit

instance (g : Graph) (n : Int) : Decidable (Drawable g n) :=
  decidable_of_iff ((g.blocks.map (·.firstOffset)).Nodup ∧ g.relations.Nodup ∧
      (Nat.toDigits 10 n.natAbs).length ≤ digitLimit)
    ⟨fun ⟨h, h', h''⟩ => ⟨h, h', h''⟩, fun h => ⟨h.entries, h.relations, h.digits⟩⟩

theorem Drawable.render_eq {g : Graph} {n : Int} (h : Drawable g n) :
    render g (.number n) = .ok (document (styleStatements (toString n) ++
      (inEntryOrder g.blocks).map nodeStatement ++ g.sortedRelations.map edgeStatement)) :=
  render_of_spell h.entries (Resolution.spell_number h.digits)

theorem Drawable.readsBack {g : Graph} {n : Int} (h : Drawable g n) {text : String}
    (htext : render g (.number n) = .ok text) : ReadsBack g n text where
  source := by
    obtain rfl := Except.ok.inj (h.render_eq.symm.trans htext)
    exact ⟨inEntryOrder g.blocks, g.sortedRelations, readSource_drawing .., perm_sortBy ..,
      pairwise_inEntryOrder h.entries, perm_sortBy .., Graph.pairwise_sortedRelations h.relations⟩
  labels := by
    intro b _
    exact ⟨sealed_labelContent b.toRun, (unescapeQuotes_escapeQuotes _).1⟩
  lines := fun b _ => toList_label b.instrs

/-- Two drawings are equal if and only if they show the same. -/
theorem Drawable.render_eq_iff {g g' : Graph} {n n' : Int} (h : Drawable g n)
    (h' : Drawable g' n') :
    render g (.number n) = render g' (.number n') ↔
      n = n' ∧ (g.blocks.map drawn).Perm (g'.blocks.map drawn) ∧
        g.relations.Perm g'.relations := by
  rw [h.render_eq, h'.render_eq]
  constructor
  · -- Equal texts are read as equal statements.
    intro heq
    have hread := congrArg readSource (Except.ok.inj heq)
    rw [readSource_drawing, readSource_drawing] at hread
    obtain ⟨hn, hblocks, hrelations⟩ := shown_inj (Source.mk.inj (Option.some.inj hread)).2
    refine ⟨hn, ?_, ?_⟩
    · exact (perm_map_drawn g.blocks).symm.trans (hblocks ▸ perm_map_drawn g'.blocks)
    · have hall (g : Graph) : g.sortedRelations.Perm g.relations := perm_sortBy _ _
      exact (hall g).symm.trans (hrelations ▸ hall g')
  · -- Both texts are made of the same lines in the same order.
    rintro ⟨rfl, hblocks, hrelations⟩
    rw [map_nodeStatement, map_nodeStatement, map_drawn_inEntryOrder h.entries h'.entries hblocks,
      sortedRelations_eq hrelations]

/-- Whatever the texts of instructions are, a drawing is read back as what was drawn, and it is the
drawing of those graphs only that show the same. -/
theorem render_reads_back {g : Graph} {n : Int} (h : Drawable g n) :
    ∃ text, render g (.number n) = .ok text ∧ ReadsBack g n text ∧
      (Function.Injective fun offset => (nodeIdent offset).text) ∧
      ∀ g' n', Drawable g' n' → (render g' (.number n') = .ok text ↔
        n' = n ∧ (g'.blocks.map drawn).Perm (g.blocks.map drawn) ∧
          g'.relations.Perm g.relations) := by
  refine ⟨_, h.render_eq, h.readsBack h.render_eq, ?_, ?_⟩
  · intro offset offset' heq
    exact nodeId_injective (String.toList_inj.1 heq)
  · intro g' n' h'
    rw [← h.render_eq]
    exact h'.render_eq_iff h

/-- Texts that try to close their label, to begin statements and to pass for markup, at offsets on
both sides of zero. -/
def unrulyTexts : Graph :=
  ⟨[⟨⟨⟨0, none, "nop", [], 2, "\\\\\"]\n\tnode [shape=box"⟩, [⟨2, none, "nop", [], 2, "\\"⟩]⟩, 0⟩,
      ⟨⟨⟨-1, none, "nop", [], 1, "<b>\\\"</b>"⟩, []⟩, 1⟩],
    [⟨0, -1⟩, ⟨-1, 0⟩, ⟨-1, -1⟩]⟩

theorem reads_back_unrulyTexts :
    Drawable unrulyTexts (-7) ∧
      ∃ text, render unrulyTexts (.number (-7)) = .ok text ∧ ReadsBack unrulyTexts (-7) text ∧
        (Function.Injective fun offset => (nodeIdent offset).text) ∧
        ∀ g' n', Drawable g' n' → (render g' (.number n') = .ok text ↔
          n' = -7 ∧ (g'.blocks.map drawn).Perm (unrulyTexts.blocks.map drawn) ∧
            g'.relations.Perm unrulyTexts.relations) := by
  have h : Drawable unrulyTexts (-7) := by decide +kernel
  exact ⟨h, render_reads_back h⟩

end Dot

end AvrFlow
