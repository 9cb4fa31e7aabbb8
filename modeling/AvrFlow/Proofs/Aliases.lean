import AvrFlow.Proofs.FirstEntries
import AvrFlow.Proofs.Naming

namespace AvrFlow

open AvrFlow.Text

namespace Text

/-- A blank at the start goes to the first piece, where it is trimmed off. -/
theorem map_trim_pieces_cons {sep c : Char} (hc : isBlank c = true) (hsep : c ≠ sep)
    (s : List Char) : (pieces sep (c :: s)).map trim = (pieces sep s).map trim := by
  obtain ⟨piece, more, hp⟩ := List.exists_cons_of_ne_nil (pieces_ne_nil sep s)
  rw [pieces, if_neg hsep, hp, List.map_cons, List.map_cons, trim_cons_of_isBlank hc]

end Text

namespace Decoder

def Alias.explicit (a : Alias) (operands : String) : String :=
  toString a.bit ++ ", " ++ operands

variable {a : Alias}

theorem alias?_name : ∀ a ∈ aliases, alias? a.name = some a := by
  decide

theorem alias?_kind_name : ∀ a ∈ aliases, alias? a.kind.name = none := by
  decide

theorem ofName?_kind_name : ∀ a ∈ aliases, Kind.ofName? a.kind.name = some a.kind := by
  decide

theorem decode_bit : ∀ a ∈ aliases, ',' ∉ (toString a.bit).toList ∧
    trim (toString a.bit).toList = (toString a.bit).toList ∧
    Operand.decode (toString a.bit).toList = .ok (some a.bit) := by
  decide

/-- Operands are refused for their length only. -/
theorem operandValues_error {operands : String} {e : DecodeError}
    (h : operandValues operands = .error e) : ∃ count, e = .tooManyDigits count := by
  obtain ⟨-, s, -, -, -, hs⟩ := mapM_eq_error_iff.1 (eq_error_of_map_eq_error h)
  unfold Operand.decode at hs
  split at hs
  · cases hs
  · split at hs
    · exact ⟨_, (Except.error.inj hs).symm⟩
    · cases hs

theorem kindAndOperands_explicit (ha : a ∈ aliases) (values : List Int) :
    kindAndOperands a.kind.name (a.bit :: values) = kindAndOperands a.name values := by
  rw [kindAndOperands, kindAndOperands, alias?_name a ha, alias?_kind_name a ha,
    ofName?_kind_name a ha]

theorem operandTexts_explicit (ha : a ∈ aliases) (operands : String) :
    operandTexts (a.explicit operands) =
      (toString a.bit).toList :: (pieces ',' operands.toList).map trim := by
  obtain ⟨hcomma, htrim, -⟩ := decode_bit a ha
  have htext : (a.explicit operands).toList =
      (toString a.bit).toList ++ ',' :: ' ' :: operands.toList := by
    simp [Alias.explicit]
  have hne : a.explicit operands ≠ "" := by
    intro hempty
    simp [hempty] at htext
  rw [operandTexts, if_neg hne, htext, pieces_append_cons hcomma, List.map_cons, htrim,
    map_trim_pieces_cons (by decide) (by decide)]

/-- The bit is the first operand of the general branch, whatever else stands in the text. -/
theorem operandValues_explicit (ha : a ∈ aliases) (operands : String) :
    operandValues (a.explicit operands) = (operandValues operands).map (a.bit :: ·) := by
  obtain ⟨-, -, hbit⟩ := decode_bit a ha
  have hcons (texts : List (List Char)) :
      (((toString a.bit).toList :: texts).mapM Operand.decode).map (·.filterMap id) =
        ((texts.mapM Operand.decode).map (·.filterMap id)).map (a.bit :: ·) := by
    rw [List.mapM_cons, hbit]
    cases texts.mapM Operand.decode <;> rfl
  rw [operandValues, operandTexts_explicit ha, hcons, operandValues, operandTexts]
  split
  · next hempty =>
    -- The text ends after the blank, and the empty piece there is no number.
    rw [hempty]
    rfl
  · rfl

end Decoder

/-- Errors for the same reason: a number with as many digits, or a branch at the same address whose
operands are not those of its kind. -/
def DecodeError.SameReason : DecodeError → DecodeError → Prop
  | tooManyDigits m, tooManyDigits n => m = n
  | wrongOperands _ _ address, wrongOperands _ _ address' => address = address'
  | _, _ => False

namespace Decoder

def SameDecoding : Except DecodeError Instruction → Except DecodeError Instruction → Prop
  | .ok i, .ok j => i.SameEffect j
  | .error e, .error e' => e.SameReason e'
  | _, _ => False

theorem sameDecoding_explicit {a : Alias} (ha : a ∈ aliases) (address : Int) (operands : String)
    (length : Int) :
    SameDecoding (avr address a.name operands length)
      (avr address a.kind.name (a.explicit operands) length) := by
  unfold avr
  rw [operandValues_explicit ha]
  cases hvalues : operandValues operands with
  | error e =>
    obtain ⟨count, rfl⟩ := operandValues_error hvalues
    rfl
  | ok values =>
    simp only [Except.map, kindAndOperands_explicit ha]
    split
    · exact ⟨rfl, rfl, rfl, rfl⟩
    · rfl

def Respelled (i j : Instruction) : Prop :=
  i = j ∨ ∃ a ∈ aliases, ∃ address operands length,
    avr address a.name operands length = .ok i ∧
      avr address a.kind.name (a.explicit operands) length = .ok j

theorem sameEffect_of_respelled {i j : Instruction} (h : Respelled i j) : i.SameEffect j := by
  rcases h with rfl | ⟨a, ha, address, operands, length, hi, hj⟩
  · exact ⟨rfl, rfl, rfl, rfl⟩
  · have hsame := sameDecoding_explicit ha address operands length
    rwa [hi, hj] at hsame

/-- An alias and the general branch on its bit are decoded alike, and neither one in the place of
the other nor any other change of mnemonics and texts has an influence on the graph. -/
theorem alias_transparent :
    (∀ a ∈ aliases, ∀ address operands length,
      SameDecoding (avr address a.name operands length)
        (avr address a.kind.name (a.explicit operands) length)) ∧
    (∀ instrs instrs' start wanted, List.Forall₂ Respelled instrs instrs' →
      Exploration.SameRecovery instrs instrs' start wanted) ∧
    (∀ instrs instrs' start wanted, List.Forall₂ Instruction.SameEffect instrs instrs' →
      Exploration.SameRecovery instrs instrs' start wanted) := by
  refine ⟨?_, ?_, ?_⟩
  · intro a ha address operands length
    exact sameDecoding_explicit ha address operands length
  · intro instrs instrs' start wanted h
    apply sameRecovery_of_sameEffect
    exact h.imp fun i j hij => sameEffect_of_respelled hij
  · intro instrs instrs' start wanted h
    exact sameRecovery_of_sameEffect h start wanted

def countdown : List Instruction :=
  [⟨0, none, "dec", [24], 2, "dec r24"⟩, ⟨2, some .brbc, "brne", [1, -4], 2, "brne .-4"⟩,
    ⟨4, some .rjmp, "rjmp", [-2], 2, "rjmp .-2"⟩]

def explicitCountdown : List Instruction :=
  [⟨0, none, "dec", [24], 2, "dec r24"⟩, ⟨2, some .brbc, "brbc", [1, -4], 2, "brbc 1, .-4"⟩,
    ⟨4, some .rjmp, "rjmp", [-2], 2, "rjmp .-2"⟩]

theorem alias_transparent_countdown :
    List.Forall₂ Respelled countdown explicitCountdown ∧
      SameDecoding (avr 2 "brne" ".-4" 2) (avr 2 "brbc" "1, .-4" 2) ∧
      SameDecoding (avr 2 "brne" "" 2) (avr 2 "brbc" "1, " 2) ∧
      Exploration.SameRecovery countdown explicitCountdown 0 true := by
  have hbrne : (⟨"brne", .brbc, 1⟩ : Alias) ∈ aliases := by decide
  have hrespelled : List.Forall₂ Respelled countdown explicitCountdown := by
    refine .cons (.inl rfl) (.cons (.inr ⟨_, hbrne, 2, ".-4", 2, ?_, ?_⟩) (.cons (.inl rfl) .nil))
    · decide
    · decide
  refine ⟨hrespelled, ?_, ?_, ?_⟩
  · exact alias_transparent.1 _ hbrne 2 ".-4" 2
  · exact alias_transparent.1 _ hbrne 2 "" 2
  · exact alias_transparent.2.1 _ _ 0 true hrespelled

end Decoder

end AvrFlow
