import Mathlib.Data.List.TakeWhile
import ReplEngine.Proofs.Lexing.Pieces
set_option autoImplicit false

/-!
# How a piece starts

The first character of a piece decides how the piece is read: as a run of blanks, of digits or of
the characters of a word, behind a slash or a quote, or on its own (`Piece.first_cases`).
-/

namespace ReplEngine

open Text

/-! ## Runs -/

theorem span_all {α : Type} {p : α → Bool} {run : List α} (h : ∀ a ∈ run, p a = true) :
    run.span p = (run, []) := by
  rw [List.span_eq_takeWhile_dropWhile, List.takeWhile_eq_self_iff.2 h,
    List.dropWhile_eq_nil_iff.2 h]

theorem forall_mem_span {α : Type} (p : α → Bool) (cs : List α) :
    ∀ a ∈ (cs.span p).1, p a = true := by
  rw [List.span_eq_takeWhile_dropWhile]
  exact List.all_eq_true.1 List.all_takeWhile

theorem span_eq_of_forall {α : Type} {p : α → Bool} {run r : List α} {d : α}
    (hrun : ∀ a ∈ run, p a = true) (hd : p d = false) :
    (run ++ d :: r).span p = (run, d :: r) := by
  rw [List.span_eq_takeWhile_dropWhile, List.takeWhile_append_of_pos hrun,
    List.takeWhile_cons_of_neg (by simp [hd]), List.dropWhile_append_of_pos hrun,
    List.dropWhile_cons_of_neg (by simp [hd]), List.append_nil]

/-! ## The first character -/

/-- What starts a number or a word is no blank, no slash and no quote. -/
theorem starts_nothing_else {c : Char} (h : isDigit c = true ∨ isWordStart c = true) :
    isSeparator c = false ∧ (c == '/') = false ∧ (c == '"') = false := by
  have hne (d : Char) (hd : (isDigit d || isWordStart d) = false) : (c == d) = false := by
    refine beq_false_of_ne ?_
    rintro rfl
    rw [Bool.or_eq_false_iff] at hd
    rcases h with h | h
    · cases hd.1.symm.trans h
    · cases hd.2.symm.trans h
  refine ⟨?_, hne '/' rfl, hne '"' rfl⟩
  unfold isSeparator
  rw [hne ' ' rfl, hne '\t' rfl, hne '\r' rfl, hne '\n' rfl, hne '\x0c' rfl]
  rfl

theorem isDigit_of_isWordStart {c : Char} (h : isWordStart c = true) : isDigit c = false := by
  cases hdigit : isDigit c with
  | false => rfl
  | true =>
    have hle : c ≤ '9' := by
      simp only [isDigit, Bool.and_eq_true, decide_eq_true_eq] at hdigit
      exact hdigit.2
    simp only [isWordStart, Bool.or_eq_true, Bool.and_eq_true, decide_eq_true_eq, beq_iff_eq] at h
    rcases h with ((⟨hA, -⟩ | ⟨ha, -⟩) | rfl) | rfl
    · exact absurd (Char.le_trans hA hle) (by decide)
    · exact absurd (Char.le_trans ha hle) (by decide)
    · cases hdigit
    · cases hdigit

namespace Piece

theorem next_blank {c : Char} (h : isSeparator c = true) (cs : List Char) :
    next c cs = ⟨c :: (cs.span isSeparator).1, none, (cs.span isSeparator).2⟩ := if_pos h

theorem next_digit {c : Char} (h : isDigit c = true) (cs : List Char) :
    next c cs = token (.integer (c :: (cs.span isDigit).1)) (cs.span isDigit).2 := by
  obtain ⟨hsep, hslash, hquote⟩ := starts_nothing_else (.inl h)
  unfold next
  simp [hsep, hslash, hquote, h]

theorem next_word {c : Char} (h : isWordStart c = true) (cs : List Char) :
    next c cs = token (wordKind (String.ofList (c :: (cs.span isWordPart).1)))
      (cs.span isWordPart).2 := by
  obtain ⟨hsep, hslash, hquote⟩ := starts_nothing_else (.inr h)
  unfold next
  simp [hsep, hslash, hquote, isDigit_of_isWordStart h, h]

/-- The first character decides how a piece is read. -/
theorem first_cases (c : Char) :
    isSeparator c = true ∨ c = '/' ∨ c = '"' ∨ isDigit c = true ∨ isWordStart c = true ∨
      (∃ sign, sign ≠ Symbol.slash ∧ c = sign.char) ∨
      ∀ cs, next c cs = token (.illegal c) cs := by
  by_cases hblank : isSeparator c = true
  · exact .inl hblank
  by_cases hslash : c = '/'
  · exact .inr (.inl hslash)
  by_cases hquote : c = '"'
  · exact .inr (.inr (.inl hquote))
  by_cases hdigit : isDigit c = true
  · exact .inr (.inr (.inr (.inl hdigit)))
  by_cases hword : isWordStart c = true
  · exact .inr (.inr (.inr (.inr (.inl hword))))
  refine .inr (.inr (.inr (.inr (.inr ?_))))
  cases hsign : Symbol.ofChar? c with
  | some sign =>
    refine .inl ⟨sign, ?_, (ofChar?_eq_some hsign).symm⟩
    rintro rfl
    exact hslash (ofChar?_eq_some hsign).symm
  | none =>
    refine .inr fun cs => ?_
    unfold next
    simp [hblank, hslash, hquote, hdigit, hword, hsign]

end Piece

end ReplEngine
