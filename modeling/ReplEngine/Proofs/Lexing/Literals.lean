import ReplEngine.Language.Syntax.Reader
import ReplEngine.Proofs.Lexing.Scans
import ReplEngine.Proofs.Lexing.Starts
set_option autoImplicit false

/-!
# Literals as they are written

A text in quotes is read as one string token, whatever characters it has (`scan_quote`), and a
number in decimal digits as one integer token that stands for it (`scan_digits`,
`decimalValue_digits`).
-/

namespace ReplEngine

open Text

/-! ## Strings -/

/-- A character inside quotes is two characters with a backslash in front, or it is plain. -/
theorem encodeChar_cases (c : Char) :
    (∃ d, Quoted.encodeChar c = ['\\', d] ∧ isBreak d = false) ∨
      (Quoted.encodeChar c = [c] ∧ IsPlain c) := by
  unfold Quoted.encodeChar
  split
  · exact .inl ⟨_, rfl, by decide⟩
  split
  · exact .inl ⟨_, rfl, by decide⟩
  split
  · exact .inl ⟨_, rfl, by decide⟩
  split
  · exact .inl ⟨_, rfl, by decide⟩
  split
  · exact .inl ⟨_, rfl, by decide⟩
  split
  · exact .inl ⟨_, rfl, by decide⟩
  · rename_i hquote hescape hnewline _ hreturn _
    exact .inr ⟨rfl, hquote, hescape, by simp [isBreak, hnewline, hreturn]⟩

/-- A string literal runs over all that is written inside quotes, and ends at the quote behind. -/
theorem spanStringBody_encode (cs rest : List Char) :
    spanStringBody (Quoted.encode cs ++ '"' :: rest) = (Quoted.encode cs, '"' :: rest) := by
  induction cs with
  | nil =>
    show spanStringBody ('"' :: rest) = ([], '"' :: rest)
    rw [spanStringBody.eq_3 _ _ (by simp)]
    rfl
  | cons c cs ih =>
    have hcons : Quoted.encode (c :: cs) = Quoted.encodeChar c ++ Quoted.encode cs := rfl
    rw [hcons, List.append_assoc]
    rcases encodeChar_cases c with ⟨d, hchar, hbreak⟩ | ⟨hchar, hquote, hescape, hbreak⟩
    · rw [hchar]
      show spanStringBody ('\\' :: d :: (Quoted.encode cs ++ '"' :: rest)) = _
      rw [spanStringBody, hbreak, ih]
      rfl
    · rw [hchar, List.singleton_append, spanStringBody.eq_3 _ _ fun _ _ h _ => hescape h, ih]
      simp [hquote, hescape, hbreak]

theorem isNext_quote (cs rest : List Char) :
    IsNext (Quoted.quote cs) (some (.quoted (Quoted.encode cs))) rest := by
  refine ⟨'"', Quoted.encode cs ++ ['"'], rfl, ?_⟩
  have hnext : Piece.next '"' (Quoted.encode cs ++ ['"'] ++ rest) =
      Piece.afterQuote (Quoted.encode cs ++ '"' :: rest) := by
    rw [List.append_assoc]
    rfl
  rw [hnext, Piece.afterQuote, spanStringBody_encode]
  rfl

theorem scan_of_isNext {text : List Char} {kind : TokenKind} (h : IsNext text (some kind) []) :
    Token.scan text = [⟨kind, Span.ofRange 0 (byteLength text)⟩] := by
  have hscans : Scans [] 0 (text ++ []) _ := .token (by simpa using h) (.nil _)
  rw [List.append_nil, Nat.zero_add] at hscans
  exact scan_eq_iff.mpr hscans

/-- A quoted text is one string token. -/
theorem scan_quote (cs : List Char) :
    Token.scan (Quoted.quote cs) =
      [⟨.quoted (Quoted.encode cs), Span.ofRange 0 (byteLength (Quoted.quote cs))⟩] :=
  scan_of_isNext (isNext_quote cs [])

/-! ## Numbers -/

theorem isDigit_of_mem_toDigits {n : Nat} {c : Char} (h : c ∈ Nat.toDigits 10 n) :
    isDigit c = true :=
  Nat.isDigit_of_mem_toDigits (by decide) (by decide) h

/-- Decimal digits at the end of a text are one integer token. -/
theorem isNext_digits (n : Nat) :
    IsNext (Nat.toDigits 10 n) (some (.integer (Nat.toDigits 10 n))) [] := by
  obtain ⟨c, cs, hdigits⟩ := List.exists_cons_of_ne_nil (Nat.toDigits_ne_nil (n := n) (b := 10))
  have hall : ∀ d ∈ c :: cs, isDigit d = true := by
    intro d hd
    rw [← hdigits] at hd
    exact isDigit_of_mem_toDigits hd
  have hspan : cs.span isDigit = (cs, []) :=
    span_all fun d hd => hall d (List.mem_cons_of_mem c hd)
  rw [hdigits]
  refine ⟨c, cs, rfl, ?_⟩
  rw [List.append_nil, Piece.next_digit (hall c List.mem_cons_self), hspan]
  rfl

/-- Decimal digits stand for the number that they were written for. -/
theorem decimalValue_toDigits (n : Nat) :
    Language.Reader.decimalValue (Nat.toDigits 10 n) = n := by
  have hvalue : Language.Reader.decimalValue (Nat.toDigits 10 n) =
      Nat.ofDigitChars 10 (Nat.toDigits 10 n) 0 := Nat.ofDigitChars_eq_foldl.symm
  rw [hvalue, Nat.ofDigitChars_ten_toDigits]

theorem scan_digits (n : Nat) :
    Token.scan (Nat.toDigits 10 n) =
      [⟨.integer (Nat.toDigits 10 n), Span.ofRange 0 (byteLength (Nat.toDigits 10 n))⟩] :=
  scan_of_isNext (isNext_digits n)

/-- A minus sign and decimal digits are two tokens. -/
theorem scan_negative (n : Nat) :
    Token.scan ('-' :: Nat.toDigits 10 n) =
      [⟨.symbol .minus, Span.ofRange 0 1⟩,
        ⟨.integer (Nat.toDigits 10 n), Span.ofRange 1 (1 + byteLength (Nat.toDigits 10 n))⟩] := by
  have hdigits : Scans [] 1 (Nat.toDigits 10 n ++ []) _ :=
    .token (by simpa using isNext_digits n) (.nil _)
  have hall : Scans [] 0 ([Symbol.minus.char] ++ (Nat.toDigits 10 n ++ [])) _ :=
    .token (isNext_symbol (by decide) _) hdigits
  rw [List.append_nil] at hall
  exact scan_eq_iff.mpr hall

end ReplEngine
