import AvrFlow.CommandLine.Run
import AvrFlow.Proofs.FileTree

/-!
Runs of the program as a whole. A run with a report either does all of its work or none: with the
exit code of success it has written the drawing of its input, and nothing else, and with another
one every file is as it was. There is no report, and so no exit code, exactly when a number that is
to be compared was left blank.
-/

namespace AvrFlow

open AvrFlow.Text

/-- The lines that were warned about before do not change what is read. -/
theorem Listing.result_readFrom (decode : Decoder) (skipped skipped' : List String)
    (found : List Instruction) (lines : List Line) :
    (readFrom decode skipped found lines).result =
      (readFrom decode skipped' found lines).result := by
  induction lines generalizing skipped skipped' found with
  | nil => rfl
  | cons line rest ih =>
    cases line with
    | noise => exact ih skipped skipped' found
    | unreadable text =>
      simp only [readFrom]
      split <;> split <;> exact ih ..
    | entry address mnemonic operands length =>
      simp only [readFrom]
      split
      · exact ih skipped skipped' found
      · split
        · rfl
        · exact ih ..

theorem Input.result_readInstrs (input : Input) (w : Workspace) (skipped : List String) :
    (input.readInstrs w skipped).result = (input.readInstrs w []).result := by
  unfold readInstrs
  split
  · rfl
  · simp only [Listing.read]
    rw [Listing.result_readFrom _ skipped []]

namespace CommandLine

variable {arguments : List String} {o : Options} {n : Numbers} {w : Workspace}

def instrsOf (o : Options) (w : Workspace) : Except InputError (List Instruction) := do
  let input ← (Input.openFile w o.input o.format o.objdump).2
  (input.readInstrs w []).result

def renderInstrs (n : Numbers) (instrs : List Instruction) : Except GraphError String := do
  let index ← AddressIndex.ofList instrs
  let recovered := Exploration.recover index n.start true
  recovered.result
  Dot.render recovered.state.toGraph (.number n.dpi)

def rendering (o : Options) (n : Numbers) (w : Workspace) : Except Failure String := do
  let instrs ← (instrsOf o w).mapError .input
  (renderInstrs n instrs).mapError .graph

def withDrawing (o : Options) (tree : FileTree) (text : String) : Except Failure FileTree :=
  (tree.write o.output (encodeUtf8 text.toList)).mapError (.output o.output)

/-- A stage ends with the files that it is to make, or fails as they do and leaves the files that
were there before. -/
def Lands (d : Outcome Progress Failure Unit) (before : FileTree)
    (made : Except Failure FileTree) : Prop :=
  d.result = made.map (fun _ => ()) ∧ d.state.tree = made.toOption.getD before

theorem drawInstrs_lands (o : Options) (n : Numbers) (p : Progress) (instrs : List Instruction) :
    Lands (drawInstrs o n p instrs) p.tree
      ((renderInstrs n instrs).mapError .graph >>= withDrawing o p.tree) := by
  unfold drawInstrs renderInstrs
  cases AddressIndex.ofList instrs with
  | error e => exact ⟨rfl, rfl⟩
  | ok index =>
    dsimp only
    split
    · next e hrecover =>
      simp only [bind, Except.bind, hrecover]
      exact ⟨rfl, rfl⟩
    · next hrecover =>
      simp only [bind, Except.bind, hrecover]
      split
      · next hrender =>
        rw [hrender]
        exact ⟨rfl, rfl⟩
      · next text hrender =>
        -- Opening the output is all that is left to fail.
        rw [hrender]
        change Lands _ p.tree (withDrawing o p.tree text)
        rw [withDrawing]
        split
        · next hwrite =>
          rw [hwrite]
          exact ⟨rfl, rfl⟩
        · next hwrite =>
          rw [hwrite]
          exact ⟨rfl, rfl⟩

theorem draw_lands (o : Options) (n : Numbers) (w : Workspace) (skipped : List String) :
    Lands (draw o n w skipped) w.tree (rendering o n w >>= withDrawing o w.tree) := by
  unfold draw rendering instrsOf
  cases Input.openFile w o.input o.format o.objdump with
  | mk events opened =>
  cases opened with
  | error e => exact ⟨rfl, rfl⟩
  | ok input =>
    -- Earlier warnings keep some from being given again, and change nothing else.
    dsimp only [drawInput]
    rw [Input.result_readInstrs input w skipped]
    cases hread : (input.readInstrs w []).result with
    | error e =>
      simp only [bind, Except.bind, hread]
      exact ⟨rfl, rfl⟩
    | ok instrs =>
      simp only [bind, Except.bind, hread]
      exact drawInstrs_lands o n ⟨w.tree, _, input.commands⟩ instrs

/-- A number that is to be compared was left blank. The resolution is compared only when the start
is in range. -/
def Options.Lacks (o : Options) : BlankNumber → Prop
  | .start => o.start = .blank
  | .dpi => (∃ start, o.start = .given start ∧ 0 ≤ start) ∧ o.dpi = .blank

def Options.OutOfRange (o : Options) : Prop :=
  ∃ start, o.start = .given start ∧ (start < 0 ∨ ∃ dpi, o.dpi = .given dpi ∧ dpi ≤ 0)

def Options.InRange (o : Options) (n : Numbers) : Prop :=
  o.start = .given n.start ∧ o.dpi = .given n.dpi ∧ 0 ≤ n.start ∧ 0 < n.dpi

theorem numbersInRange_eq_error {b : BlankNumber} :
    numbersInRange o = .error b ↔ o.Lacks b := by
  obtain ⟨_, _, start, dpi, _, _, _⟩ := o
  cases start with
  | blank => cases b <;> simp [numbersInRange, Options.Lacks]
  | given start =>
    cases dpi with
    | blank => cases b <;> by_cases h : start < 0 <;> simp [numbersInRange, Options.Lacks, h]; omega
    | given dpi => cases b <;> simp [numbersInRange, Options.Lacks]

theorem numbersInRange_eq_none : numbersInRange o = .ok none ↔ o.OutOfRange := by
  obtain ⟨_, _, start, dpi, _, _, _⟩ := o
  cases start with
  | blank => simp [numbersInRange, Options.OutOfRange]
  | given start =>
    cases dpi with
    | blank => simp [numbersInRange, Options.OutOfRange]
    | given dpi =>
      simp only [numbersInRange, Options.OutOfRange, Value.given.injEq, exists_eq_left']
      by_cases h : start < 0 ∨ dpi ≤ 0 <;> simp [h]

theorem numbersInRange_eq_some : numbersInRange o = .ok (some n) ↔ o.InRange n := by
  obtain ⟨_, _, start, dpi, _, _, _⟩ := o
  obtain ⟨start', dpi'⟩ := n
  cases start with
  | blank => simp [numbersInRange, Options.InRange]
  | given start =>
    cases dpi with
    | blank => by_cases h : start < 0 <;> simp [numbersInRange, Options.InRange, h]
    | given dpi =>
      simp only [numbersInRange, Options.InRange, Value.given.injEq]
      by_cases h : start < 0 ∨ dpi ≤ 0
      · simp only [if_pos h]
        grind
      · simp only [if_neg h]
        grind

/-- The files after a run differ from those before it at the output path only, and there the drawing
that was asked for can be read. -/
def Drawn (o : Options) (w : Workspace) (after : FileTree) : Prop :=
  ∃ n text there, o.InRange n ∧ rendering o n w = .ok text ∧
    after.locate .reading o.output = .ok (.file there (encodeUtf8 text.toList)) ∧
    ∀ l, l ≠ there → after.node? l = w.tree.node? l

/-- What an exit code says: which stage has failed, if one has, and what became of the files. -/
structure Atomic (arguments : List String) (w : Workspace) (r : Report) : Prop where
  exitCode : r.exitCode = 0 ∨ r.exitCode = 1 ∨ r.exitCode = 2
  badArguments_iff : r.exitCode = 1 ↔
    (∃ e, parse arguments = .refused e) ∨ ∃ o, parse arguments = .accepted o ∧ o.OutOfRange
  failure_iff : r.exitCode = 2 ↔
    ∃ o n e, parse arguments = .accepted o ∧ o.InRange n ∧
      (rendering o n w >>= withDrawing o w.tree) = .error e
  unchanged : r.exitCode ≠ 0 ∨ parse arguments = .help → r.after.tree = w.tree
  drawn : ∀ o, parse arguments = .accepted o → r.exitCode = 0 → Drawn o w r.after.tree

theorem Options.InRange.not_outOfRange (h : o.InRange n) : ¬ o.OutOfRange := by
  rw [← numbersInRange_eq_none, numbersInRange_eq_some.2 h]
  simp

theorem Options.InRange.eq (h : o.InRange n) {n' : Numbers} (h' : o.InRange n') : n' = n := by
  rw [← numbersInRange_eq_some] at h h'
  rw [h] at h'
  simpa using h'.symm

theorem atomic_of_help (hparse : parse arguments = .help) {r : Report}
    (hcode : r.exitCode = exitSuccess) (htree : r.after.tree = w.tree) : Atomic arguments w r where
  exitCode := Or.inl hcode
  badArguments_iff := by simp [hcode, hparse, exitSuccess]
  failure_iff := by simp [hcode, hparse, exitSuccess]
  unchanged := fun _ => htree
  drawn := fun o ho => by simp [hparse] at ho

/-- Nothing has been looked at when arguments are refused or a number is out of range. -/
theorem atomic_of_bad
    (hbad : (∃ e, parse arguments = .refused e) ∨ ∃ o, parse arguments = .accepted o ∧ o.OutOfRange)
    {r : Report} (hcode : r.exitCode = exitBadArguments) (htree : r.after.tree = w.tree) :
    Atomic arguments w r where
  exitCode := Or.inr (Or.inl hcode)
  badArguments_iff := iff_of_true hcode hbad
  failure_iff := by
    apply iff_of_false
    · simp [hcode, exitBadArguments]
    · intro ⟨o, n, _, hparse, hrange, _⟩
      rw [hparse] at hbad
      simp only [reduceCtorEq, exists_false, false_or, Request.accepted.injEq] at hbad
      obtain ⟨_, rfl, hout⟩ := hbad
      exact hrange.not_outOfRange hout
  unchanged := fun _ => htree
  drawn := by
    intro o _ hsuccess
    simp [hcode, exitBadArguments] at hsuccess

theorem runInRange_of_error (skipped : List String) {e : Failure}
    (hmade : (rendering o n w >>= withDrawing o w.tree) = .error e) :
    (runInRange o n w skipped).exitCode = exitFailure ∧
      (runInRange o n w skipped).after.tree = w.tree := by
  obtain ⟨hresult, htree⟩ := draw_lands o n w skipped
  rw [hmade] at hresult htree
  simp only [runInRange, hresult, Except.map, true_and]
  exact htree

theorem runInRange_of_ok (skipped : List String) {tree : FileTree}
    (hmade : (rendering o n w >>= withDrawing o w.tree) = .ok tree) :
    (runInRange o n w skipped).exitCode = exitSuccess ∧
      (runInRange o n w skipped).after.tree = tree := by
  obtain ⟨hresult, htree⟩ := draw_lands o n w skipped
  rw [hmade] at hresult htree
  simp only [runInRange, hresult, Except.map, true_and]
  exact htree

theorem drawn_of_made (hrange : o.InRange n) {tree : FileTree}
    (hmade : (rendering o n w >>= withDrawing o w.tree) = .ok tree) : Drawn o w tree := by
  cases hrendering : rendering o n w with
  | error e =>
    rw [hrendering] at hmade
    cases hmade
  | ok text =>
    have hwrite : w.tree.write o.output (encodeUtf8 text.toList) = .ok tree := by
      rw [hrendering] at hmade
      exact eq_ok_of_mapError_eq_ok hmade
    obtain ⟨there, hlocate, hother⟩ := FileTree.write_spec hwrite
    exact ⟨n, text, there, hrange, hrendering, hlocate, hother⟩

theorem atomic_of_error (hparse : parse arguments = .accepted o) (hrange : o.InRange n)
    {e : Failure} (hmade : (rendering o n w >>= withDrawing o w.tree) = .error e) {r : Report}
    (hcode : r.exitCode = exitFailure) (htree : r.after.tree = w.tree) : Atomic arguments w r where
  exitCode := Or.inr (Or.inr hcode)
  badArguments_iff := by
    simp [hcode, hparse, hrange.not_outOfRange, exitFailure]
  failure_iff := iff_of_true hcode ⟨o, n, e, hparse, hrange, hmade⟩
  unchanged := fun _ => htree
  drawn := by
    intro _ _ hsuccess
    simp [hcode, exitFailure] at hsuccess

theorem atomic_of_ok (hparse : parse arguments = .accepted o) (hrange : o.InRange n) {r : Report}
    (hmade : (rendering o n w >>= withDrawing o w.tree) = .ok r.after.tree)
    (hcode : r.exitCode = exitSuccess) : Atomic arguments w r where
  exitCode := Or.inl hcode
  badArguments_iff := by simp [hcode, hparse, hrange.not_outOfRange, exitSuccess]
  failure_iff := by
    apply iff_of_false
    · simp [hcode, exitSuccess]
    · intro ⟨o', n', e, hparse', hrange', herror⟩
      obtain rfl := Request.accepted.inj (hparse.symm.trans hparse')
      obtain rfl := hrange.eq hrange'
      rw [hmade] at herror
      cases herror
  unchanged := by simp [hcode, hparse, exitSuccess]
  drawn := by
    intro o' hparse' _
    obtain rfl := Request.accepted.inj (hparse.symm.trans hparse')
    exact drawn_of_made hrange hmade

theorem atomic_runInRange (hparse : parse arguments = .accepted o) (hrange : o.InRange n)
    (skipped : List String) : Atomic arguments w (runInRange o n w skipped) := by
  cases hmade : rendering o n w >>= withDrawing o w.tree with
  | error e =>
    obtain ⟨hcode, htree⟩ := runInRange_of_error skipped hmade
    exact atomic_of_error hparse hrange hmade hcode htree
  | ok tree =>
    obtain ⟨hcode, rfl⟩ := runInRange_of_ok skipped hmade
    exact atomic_of_ok hparse hrange hmade hcode

def LeftBlank (arguments : List String) (b : BlankNumber) : Prop :=
  ∃ o, parse arguments = .accepted o ∧ o.Lacks b

/-- Every run ends with an exit code that tells what became of the files, unless a number was left
blank; then it breaks off, and has no exit code. -/
theorem run_atomic (arguments : List String) (w : Workspace) (skipped : List String) :
    (∀ b, run arguments w skipped = .error b ↔ LeftBlank arguments b) ∧
      ((∃ b, LeftBlank arguments b) ∨
        ∃ report, run arguments w skipped = .ok report ∧ Atomic arguments w report) := by
  unfold run LeftBlank
  cases hparse : parse arguments with
  | help =>
    refine ⟨by simp, Or.inr ⟨_, rfl, ?_⟩⟩
    exact atomic_of_help hparse rfl rfl
  | refused e =>
    refine ⟨by simp, Or.inr ⟨_, rfl, ?_⟩⟩
    exact atomic_of_bad (Or.inl ⟨e, hparse⟩) rfl rfl
  | accepted o =>
    -- Numbers are compared before a file is looked at, and a blank one cannot be.
    simp only [Request.accepted.injEq, exists_eq_left', ← numbersInRange_eq_error, runOptions]
    cases hnumbers : numbersInRange o with
    | error b => exact ⟨by simp, Or.inl ⟨b, rfl⟩⟩
    | ok numbers =>
      cases numbers with
      | none =>
        refine ⟨by simp, Or.inr ⟨_, rfl, ?_⟩⟩
        exact atomic_of_bad (Or.inr ⟨o, hparse, numbersInRange_eq_none.1 hnumbers⟩) rfl rfl
      | some n =>
        refine ⟨by simp, Or.inr ⟨_, rfl, ?_⟩⟩
        exact atomic_runInRange hparse (numbersInRange_eq_some.1 hnumbers) skipped

-- No file in it is an executable.
def oneLineWorkspace : Workspace :=
  ⟨⟨[(Location.working.child "a.lst", .file (encodeUtf8 "   0:\t00 00\tnop\n".toList))]⟩, none,
    fun _ => .error ⟨"ELFError", "Magic number does not match"⟩⟩

-- The input may be the output as well.
example : (run ["-i", "a.lst", "-o", "./a.lst"] oneLineWorkspace []).toOption.map (·.exitCode) =
    some 0 := by
  decide +kernel

/-- The separator in place of a start offset leaves it blank, and the run has no exit code. -/
theorem not_exitCode_blankStart :
    ¬ ∃ report, run ["-i", "a.lst", "-o", "b.dot", "-s=--"] oneLineWorkspace [] = .ok report ∧
      (report.exitCode = 0 ∨ report.exitCode = 1 ∨ report.exitCode = 2) := by
  have hparse : parse ["-i", "a.lst", "-o", "b.dot", "-s=--"] =
      .accepted ⟨.given "a.lst", .given "b.dot", .blank, .given 200, .given Format.automatic,
        .given "avr-objdump", 0⟩ := by
    decide +kernel
  intro ⟨report, hrun, _⟩
  simp only [run, hparse, runOptions, numbersInRange] at hrun
  cases hrun

end CommandLine

end AvrFlow
