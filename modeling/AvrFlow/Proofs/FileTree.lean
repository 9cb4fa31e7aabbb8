import AvrFlow.FileTree

namespace AvrFlow

def Place.location? : Place → Option Location
  | file there _ | vacant there => some there
  | directory => none

theorem Location.leadsTo_iff {directory l : Location} :
    directory.leadsTo l = true ↔ directory.base = l.base ∧ directory.names <+: l.names := by
  rw [leadsTo, Bool.and_eq_true, decide_eq_true_iff, List.isPrefixOf_iff_prefix]

namespace FileTree

variable {tree tree' : FileTree} {access : Access} {directory there l : Location}
  {content : List UInt8} {names : List String} {p : Place} {path : Value String}

/-- Something stands at a place and at every place on the way to it. -/
def Stands (tree : FileTree) (l : Location) : Prop :=
  ∀ names, names <+: l.names → tree.node? ⟨l.base, names⟩ ≠ none

theorem node?_base (tree : FileTree) (base : Base) : tree.node? ⟨base, []⟩ ≠ none := by
  unfold node?
  split <;> simp

theorem stands_base (tree : FileTree) (base : Base) : tree.Stands ⟨base, []⟩ := by
  intro names hnames
  obtain rfl := List.prefix_nil.1 hnames
  exact tree.node?_base base

theorem stands_startOf (tree : FileTree) (path : String) : tree.Stands (startOf path) := by
  unfold startOf
  split
  · exact tree.stands_base .root
  · exact tree.stands_base (.above 0)

theorem Stands.parent (h : tree.Stands directory) : tree.Stands directory.parent := by
  unfold Location.parent
  split
  · exact tree.stands_base _
  · exact h
  · intro names hnames
    exact h names (hnames.trans (List.dropLast_prefix _))

theorem Stands.child {name : String} (h : tree.Stands directory)
    (hname : tree.node? (directory.child name) ≠ none) : tree.Stands (directory.child name) := by
  intro names hnames
  rcases List.prefix_concat_iff.1 hnames with rfl | hnames
  · exact hname
  · exact h names hnames

theorem node?_put_self (tree : FileTree) (there : Location) (content : List UInt8) :
    (tree.put there content).node? there = some (.file content) := by
  simp [put, node?]

theorem find?_put_of_ne (hne : l ≠ there) :
    (tree.put there content).entries.find? (·.1 = l) = tree.entries.find? (·.1 = l) := by
  rw [put, List.find?_cons_of_neg (by simpa using Ne.symm hne), List.find?_filter]
  congr 1
  funext e
  by_cases he : e.1 = l
  · simp [he, hne]
  · simp [he]

/-- Directories on the way to an entry stand where they stood, except those on the way to the file
that is put. -/
theorem any_leadsTo_put (hlead : l.leadsTo there = false) :
    (tree.put there content).entries.any (l.leadsTo ·.1) = tree.entries.any (l.leadsTo ·.1) := by
  rw [put, List.any_cons, hlead, Bool.false_or, List.any_filter]
  congr 1
  funext e
  by_cases he : e.1 = there
  · simp [he, hlead]
  · simp [he]

/-- A file that is put into a directory changes no other place. -/
theorem node?_put_of_ne {name : String} (hstands : tree.Stands directory)
    (hne : l ≠ directory.child name) :
    (tree.put (directory.child name) content).node? l = tree.node? l := by
  cases hlead : l.leadsTo (directory.child name) with
  | false => rw [node?, node?, find?_put_of_ne hne, any_leadsTo_put hlead]
  | true =>
    -- The place is on the way to the new file, and something stands there already.
    obtain ⟨base, names⟩ := l
    have hold : tree.node? ⟨base, names⟩ ≠ none := by
      obtain ⟨hbase, hprefix⟩ := Location.leadsTo_iff.1 hlead
      obtain rfl : base = directory.base := hbase
      rcases List.prefix_concat_iff.1 hprefix with rfl | hprefix
      · exact absurd rfl hne
      · exact hstands names hprefix
    rw [node?, find?_put_of_ne hne]
    rw [node?] at hold ⊢
    split
    · rfl
    · next hfind =>
      simp only [hfind] at hold
      rw [if_pos, if_pos]
      · exact Classical.byContradiction fun hneither => hold (if_neg hneither)
      · exact Or.inr (List.any_eq_true.2 ⟨_, List.mem_cons_self .., hlead⟩)

/-- Names that can be opened lead to a place in a directory, at which there is no directory. -/
theorem location_of_follow (hstands : tree.Stands directory)
    (h : tree.follow access directory names = .ok p) (hp : p.location? = some there) :
    tree.node? there ≠ some .directory ∧
      ∃ d name, there = Location.child d name ∧ tree.Stands d := by
  fun_induction follow tree access directory names with
  | case1 =>
    cases h
    cases hp
  | case2 _ _ _ _ ih => exact ih hstands h
  | case3 _ _ _ ih => exact ih hstands.parent h
  | case4 | case5 | case8 | case10 => cases h
  | case6 directory name rest _ _ _ _ _ hnode ih =>
    exact ih (hstands.child (by rw [hnode]; exact Option.some_ne_none _)) h
  | case7 directory name _ _ _ l _ hnode | case9 directory name _ _ _ l hnode =>
    cases h
    obtain rfl := Option.some.inj hp
    exact ⟨by rw [hnode]; simp, directory, name, rfl, hstands⟩

/-- Once there is a file at the place, the same names lead to it. -/
theorem follow_of_same (hself : tree'.node? there = some (.file content))
    (hother : ∀ l, l ≠ there → tree'.node? l = tree.node? l)
    (hfree : tree.node? there ≠ some .directory)
    (h : tree.follow access directory names = .ok p) (hp : p.location? = some there) :
    tree'.follow .reading directory names = .ok (.file there content) := by
  fun_induction follow tree access directory names with
  | case1 =>
    cases h
    cases hp
  | case2 directory name rest hskip ih =>
    rw [follow, if_pos hskip]
    exact ih h
  | case3 directory rest hskip ih =>
    rw [follow, if_neg hskip, if_pos rfl]
    exact ih h
  | case4 | case5 | case8 | case10 => cases h
  | case6 directory name rest hskip hup _ hsize l hnode ih =>
    -- A directory on the way is not the place of the file.
    have hsame : tree'.node? l = some .directory := by
      rw [hother l (fun hl => hfree (hl ▸ hnode)), hnode]
    simp only [follow, if_neg hskip, if_neg hup, if_neg hsize, reduceCtorEq, false_and, if_false]
    rw [hsame]
    exact ih h
  | case7 directory name hskip hup hsize l _ hnode | case9 directory name hskip hup hsize l hnode =>
    cases h
    obtain rfl := Option.some.inj hp
    simp only [follow, if_neg hskip, if_neg hup, if_neg hsize, reduceCtorEq, false_and, if_false]
    rw [hself]
    rfl

/-- Whether a path can be followed at all does not depend on the tree. -/
theorem locate_eq_follow {value : String} (h : tree.locate access (.given value) = .ok p)
    (tree' : FileTree) (access' : Access) :
    tree'.locate access' (.given value) =
      tree'.follow access' (startOf value) (components value) := by
  simp only [locate] at h ⊢
  split at h
  · cases h
  · next hnul =>
    rw [if_neg hnul]
    split at h
    · cases h
    · next hempty =>
      rw [if_neg hempty]
      split at h
      · cases h
      · next hsize => rw [if_neg hsize]

theorem exists_put_of_write (h : tree.write path content = .ok tree') :
    ∃ p there, tree.locate .writing path = .ok p ∧ p.location? = some there ∧
      tree' = tree.put there content := by
  unfold write at h
  split at h
  · cases h
  · next there old hlocate =>
    cases h
    exact ⟨_, there, hlocate, rfl, rfl⟩
  · next there hlocate =>
    cases h
    exact ⟨_, there, hlocate, rfl, rfl⟩
  · cases h

/-- After a write, the path leads to the content that was written, and nothing else has changed. -/
theorem write_spec (h : tree.write path content = .ok tree') :
    ∃ there, tree'.locate .reading path = .ok (.file there content) ∧
      ∀ l, l ≠ there → tree'.node? l = tree.node? l := by
  obtain ⟨p, there, hlocate, hp, rfl⟩ := exists_put_of_write h
  cases path with
  | blank => cases hlocate
  | given value =>
    have hfollow := (locate_eq_follow hlocate tree .writing).symm.trans hlocate
    obtain ⟨hfree, d, name, rfl, hstands⟩ :=
      location_of_follow (tree.stands_startOf value) hfollow hp
    have hother (l : Location) (hne : l ≠ d.child name) :
        (tree.put (d.child name) content).node? l = tree.node? l :=
      node?_put_of_ne hstands hne
    refine ⟨d.child name, ?_, hother⟩
    rw [locate_eq_follow hlocate]
    exact follow_of_same (node?_put_self ..) hother hfree hfollow hp

end FileTree

end AvrFlow
