import Mathlib.Data.List.TakeDrop
import ReplEngine.Language.Token.Lexer
set_option autoImplicit false

/-!
# Pieces depend on one character behind them

`IsNext text kind rest` says that `text` is the piece at the front of `text ++ rest`.  Where a
piece ends is decided by the first character of `rest`: a piece stays what it is when `rest` is
replaced by a text with the same first character (`IsNext.replace`).  A string literal without
its closing quote is the exception, and a symbol other than the slash does not even depend on
that character.
-/

namespace ReplEngine

open Text

/-- `text` is the piece at the front of `text ++ rest`, and it says `kind`. -/
def IsNext (text : List Char) (kind : Option TokenKind) (rest : List Char) : Prop :=
  ∃ c cs, text = c :: cs ∧ Piece.next c (cs ++ rest) = ⟨text, kind, rest⟩

/-! ## Runs -/

theorem span_append {α : Type} {p : α → Bool} {cs run rest : List α}
    (h : cs.span p = (run, rest)) : cs = run ++ rest := by
  rw [List.span_eq_takeWhile_dropWhile, Prod.mk.injEq] at h
  obtain ⟨rfl, rfl⟩ := h
  exact List.takeWhile_append_dropWhile.symm

theorem span_replace {α : Type} {p : α → Bool} {run r : List α} {d : α}
    (h : (run ++ d :: r).span p = (run, d :: r)) (r' : List α) :
    (run ++ d :: r').span p = (run, d :: r') := by
  rw [List.span_eq_takeWhile_dropWhile, Prod.mk.injEq] at h
  obtain ⟨htake, hdrop⟩ := h
  have hrun : ∀ a ∈ run, p a = true := by
    rw [← htake]
    exact List.all_eq_true.1 List.all_takeWhile
  have hd : ¬ p d = true := by
    intro hd
    rw [List.dropWhile_append_of_pos hrun, List.dropWhile_cons_of_pos hd] at hdrop
    have hlength := congrArg List.length hdrop
    have hle := (List.dropWhile_suffix p (l := r)).length_le
    rw [List.length_cons] at hlength
    omega
  rw [List.span_eq_takeWhile_dropWhile, List.takeWhile_append_of_pos hrun,
    List.takeWhile_cons_of_neg hd, List.dropWhile_append_of_pos hrun,
    List.dropWhile_cons_of_neg hd, List.append_nil]

theorem span_front {α : Type} {p : α → Bool} {run rest more : List α}
    (h : (run ++ (rest ++ more)).span p = (run, rest ++ more)) :
    (run ++ rest).span p = (run, rest) := by
  cases rest with
  | nil =>
    rw [List.nil_append, List.span_eq_takeWhile_dropWhile, Prod.mk.injEq] at h
    have hrun : ∀ a ∈ run, p a = true := by
      rw [← h.1]
      exact List.all_eq_true.1 List.all_takeWhile
    rw [List.span_eq_takeWhile_dropWhile, List.takeWhile_append_of_pos hrun,
      List.dropWhile_append_of_pos hrun, List.takeWhile_nil, List.dropWhile_nil, List.append_nil]
  | cons d rest => exact span_replace h rest

theorem splitAtCommentEnd?_append {cs body rest : List Char}
    (h : splitAtCommentEnd? cs = some (body, rest)) : cs = body ++ '*' :: '/' :: rest := by
  induction cs using splitAtCommentEnd?.induct generalizing body with
  | case1 => cases h
  | case2 cs =>
    cases h
    rfl
  | case3 c cs hne ih =>
    rw [splitAtCommentEnd?.eq_3 _ _ hne, Option.map_eq_some_iff] at h
    obtain ⟨⟨body', rest'⟩, hlater, hpair⟩ := h
    cases hpair
    rw [List.cons_append, ← ih hlater]

/-- Two characters that do not end a comment end none when a text without a slash at its front is
added. -/
theorem ne_commentEnd_append {c : Char} {cs r : List Char}
    (h : ∀ ds, c = '*' → cs = '/' :: ds → False) (hr : ∀ ds, r ≠ '/' :: ds) :
    ∀ ds, c = '*' → cs ++ r = '/' :: ds → False := by
  intro ds hc hds
  cases cs with
  | nil => exact hr ds hds
  | cons d cs =>
    obtain ⟨rfl, -⟩ := List.cons.inj hds
    exact h cs hc rfl

/-- A comment that is not ended at its front is ended where the rest of it is. -/
theorem splitAtCommentEnd?_tail {c : Char} {body rest : List Char}
    (h : splitAtCommentEnd? (c :: body ++ '*' :: '/' :: rest) = some (c :: body, rest)) :
    (∀ ds, c = '*' → body = '/' :: ds → False) ∧
      splitAtCommentEnd? (body ++ '*' :: '/' :: rest) = some (body, rest) := by
  have hne : ∀ ds, c = '*' → body = '/' :: ds → False := by
    rintro ds rfl rfl
    cases h
  rw [List.cons_append, splitAtCommentEnd?.eq_3 _ _ (ne_commentEnd_append hne (by simp)),
    Option.map_eq_some_iff] at h
  obtain ⟨⟨body', rest'⟩, hlater, hpair⟩ := h
  cases hpair
  exact ⟨hne, hlater⟩

/-- The end of a comment does not depend on what follows it. -/
theorem splitAtCommentEnd?_replace {body rest : List Char}
    (h : splitAtCommentEnd? (body ++ '*' :: '/' :: rest) = some (body, rest))
    (rest' : List Char) :
    splitAtCommentEnd? (body ++ '*' :: '/' :: rest') = some (body, rest') := by
  induction body with
  | nil => rfl
  | cons c body ih =>
    obtain ⟨hne, hlater⟩ := splitAtCommentEnd?_tail h
    rw [List.cons_append, splitAtCommentEnd?.eq_3 _ _ (ne_commentEnd_append hne (by simp)),
      ih hlater]
    rfl

theorem spanStringBody_append {cs body rest : List Char}
    (h : spanStringBody cs = (body, rest)) : cs = body ++ rest := by
  induction cs using spanStringBody.induct generalizing body with
  | case1 =>
    cases h
    rfl
  | case2 c cs hbreak =>
    rw [spanStringBody, if_pos hbreak] at h
    cases h
    rfl
  | case3 c cs hbreak body' rest' hlater ih =>
    rw [spanStringBody, if_neg hbreak, hlater] at h
    cases h
    rw [ih hlater]
    rfl
  | case4 c cs hne hstop =>
    rw [spanStringBody.eq_3 _ _ hne, if_pos hstop] at h
    cases h
    rfl
  | case5 c cs hne hstop body' rest' hlater ih =>
    rw [spanStringBody.eq_3 _ _ hne, if_neg hstop, hlater] at h
    cases h
    rw [ih hlater]
    rfl

/-- A string literal ends in front of a text that it does not run into. -/
theorem spanStringBody_stops {cs body rest : List Char} (h : spanStringBody cs = (body, rest)) :
    spanStringBody rest = ([], rest) := by
  induction cs using spanStringBody.induct generalizing body with
  | case1 =>
    cases h
    rfl
  | case2 c cs hbreak =>
    have hstops := h
    rw [spanStringBody, if_pos hbreak] at h
    cases h
    exact hstops
  | case3 c cs hbreak body' rest' hlater ih =>
    rw [spanStringBody, if_neg hbreak, hlater] at h
    cases h
    exact ih hlater
  | case4 c cs hne hstop =>
    have hstops := h
    rw [spanStringBody.eq_3 _ _ hne, if_pos hstop] at h
    cases h
    exact hstops
  | case5 c cs hne hstop body' rest' hlater ih =>
    rw [spanStringBody.eq_3 _ _ hne, if_neg hstop, hlater] at h
    cases h
    exact ih hlater

/-- What a literal runs over stays the same in front of any text that it does not run into. -/
theorem spanStringBody_behind {cs body rest rest' : List Char}
    (h : spanStringBody cs = (body, rest)) (hstops : spanStringBody rest' = ([], rest')) :
    spanStringBody (body ++ rest') = (body, rest') := by
  induction cs using spanStringBody.induct generalizing body with
  | case1 =>
    cases h
    exact hstops
  | case2 c cs hbreak =>
    rw [spanStringBody, if_pos hbreak] at h
    cases h
    exact hstops
  | case3 c cs hbreak body' rest'' hlater ih =>
    rw [spanStringBody, if_neg hbreak, hlater] at h
    cases h
    rw [List.cons_append, List.cons_append, spanStringBody, if_neg hbreak, ih hlater]
  | case4 c cs hne hstop =>
    rw [spanStringBody.eq_3 _ _ hne, if_pos hstop] at h
    cases h
    exact hstops
  | case5 c cs hne hstop body' rest'' hlater ih =>
    rw [spanStringBody.eq_3 _ _ hne, if_neg hstop, hlater] at h
    cases h
    have hc : c ≠ '\\' := by
      rintro rfl
      exact hstop rfl
    rw [List.cons_append, spanStringBody.eq_3 _ _ (fun _ _ h _ => hc h), if_neg hstop, ih hlater]

/-- The closing quote of a literal does not depend on what follows it. -/
theorem spanStringBody_replace {cs body rest : List Char}
    (h : spanStringBody cs = (body, '"' :: rest)) (rest' : List Char) :
    spanStringBody (body ++ '"' :: rest') = (body, '"' :: rest') :=
  spanStringBody_behind h (by rw [spanStringBody.eq_3 _ _ (by simp)]; rfl)

/-- A character that a string literal runs over and that does nothing there. -/
def IsPlain (d : Char) : Prop := d ≠ '"' ∧ d ≠ '\\' ∧ isBreak d = false

instance (d : Char) : Decidable (IsPlain d) :=
  inferInstanceAs (Decidable (d ≠ '"' ∧ d ≠ '\\' ∧ isBreak d = false))

/-- What stops a literal is decided in front of a plain character. -/
theorem spanStringBody_plain {cs r : List Char} {d : Char} (hd : IsPlain d)
    (h : spanStringBody (cs ++ d :: r) = ([], cs ++ d :: r)) (r' : List Char) :
    cs ≠ [] ∧ spanStringBody (cs ++ d :: r') = ([], cs ++ d :: r') := by
  obtain ⟨hquote, hescape, hbreak⟩ := hd
  cases cs with
  | nil =>
    rw [List.nil_append, spanStringBody.eq_3 _ _ (fun _ _ h _ => hescape h)] at h
    simp [hquote, hescape, hbreak] at h
  | cons c cs =>
    refine ⟨List.cons_ne_nil c cs, ?_⟩
    by_cases hc : c = '\\'
    · subst hc
      cases cs with
      | nil => simp [spanStringBody, hbreak] at h
      | cons c' cs =>
        rw [List.cons_append, List.cons_append, spanStringBody] at h ⊢
        split at h
        · rename_i hstop
          rw [if_pos hstop]
        · simp at h
    · rw [List.cons_append, spanStringBody.eq_3 _ _ (fun _ _ h _ => hc h)] at h ⊢
      split at h
      · rename_i hstop
        rw [if_pos hstop]
      · simp at h

/-! ## What a piece is made of -/

theorem ofSpelling?_eq_some {word : String} {k : Keyword} (h : Keyword.ofSpelling? word = some k) :
    k.spelling = word := by
  have hfound := List.find?_some h
  exact eq_of_beq hfound

theorem ofChar?_eq_some {c : Char} {sign : Symbol} (h : Symbol.ofChar? c = some sign) :
    sign.char = c := by
  have hfound := List.find?_some h
  exact eq_of_beq hfound

theorem wordKind_text (word : String) : (Piece.wordKind word).text = word.toList := by
  unfold Piece.wordKind
  split
  · rename_i k hk
    show k.spelling.toList = word.toList
    rw [ofSpelling?_eq_some hk]
  · rfl

namespace Piece

/-- The piece starts with `c`, and what follows it is the end of `cs`. -/
def Cuts (c : Char) (cs : List Char) (p : Piece) : Prop :=
  ∃ t, p.text = c :: t ∧ cs = t ++ p.rest

theorem afterSlash_cuts (cs : List Char) : Cuts '/' cs (afterSlash cs) := by
  unfold afterSlash
  split
  · rename_i cs
    cases hspan : cs.span (!isBreak ·) with
    | mk body rest => exact ⟨'/' :: body, rfl, by rw [span_append hspan]; rfl⟩
  · rename_i cs
    split
    · rename_i body rest hend
      exact ⟨'*' :: (body ++ ['*', '/']), rfl, by rw [splitAtCommentEnd?_append hend]; simp⟩
    · exact ⟨'*' :: cs, rfl, by simp [token]⟩
  · exact ⟨[], rfl, rfl⟩

theorem afterQuote_cuts (cs : List Char) : Cuts '"' cs (afterQuote cs) := by
  unfold afterQuote
  split
  · rename_i body rest hbody
    exact ⟨body ++ ['"'], rfl, by rw [spanStringBody_append hbody]; simp [token]⟩
  · rename_i body rest _ hbody
    exact ⟨body, rfl, spanStringBody_append hbody⟩

/-- A piece is taken off the front. -/
theorem next_cuts (c : Char) (cs : List Char) : Cuts c cs (next c cs) := by
  unfold next
  split
  · cases hspan : cs.span isSeparator with
    | mk run rest => exact ⟨run, rfl, span_append hspan⟩
  split
  · rename_i hc
    rw [eq_of_beq hc]
    exact afterSlash_cuts cs
  split
  · rename_i hc
    rw [eq_of_beq hc]
    exact afterQuote_cuts cs
  split
  · cases hspan : cs.span isDigit with
    | mk run rest => exact ⟨run, rfl, span_append hspan⟩
  split
  · cases hspan : cs.span isWordPart with
    | mk run rest =>
      refine ⟨run, ?_, span_append hspan⟩
      show (wordKind (String.ofList (c :: run))).text = c :: run
      rw [wordKind_text, String.toList_ofList]
  · split
    · rename_i sign hsign
      exact ⟨[], by rw [← ofChar?_eq_some hsign]; rfl, rfl⟩
    · exact ⟨[], rfl, rfl⟩

end Piece

theorem isNext_next (c : Char) (cs : List Char) :
    IsNext (Piece.next c cs).text (Piece.next c cs).kind (Piece.next c cs).rest ∧
      (Piece.next c cs).text ++ (Piece.next c cs).rest = c :: cs := by
  obtain ⟨t, htext, hrest⟩ := Piece.next_cuts c cs
  refine ⟨⟨c, t, htext, ?_⟩, ?_⟩
  · rw [← hrest]
  · rw [htext, List.cons_append, ← hrest]

/-- The letters of an identifier are those that words are made of. -/
theorem next_identifier {c : Char} {cs : List Char} {name : String}
    (h : (Piece.next c cs).kind = some (.identifier name)) :
    ∀ d ∈ name.toList, isWordPart d = true := by
  unfold Piece.next at h
  split at h
  · cases h
  split at h
  · unfold Piece.afterSlash at h
    split at h
    · cases h
    · split at h <;> cases h
    · cases h
  split at h
  · unfold Piece.afterQuote at h
    split at h <;> cases h
  split at h
  · cases h
  split at h
  · rename_i hstart
    have hword : Piece.wordKind (String.ofList (c :: (cs.span isWordPart).1)) =
        .identifier name := Option.some.inj h
    unfold Piece.wordKind at hword
    split at hword
    · cases hword
    · cases hword
      intro d hd
      rw [String.toList_ofList, List.mem_cons] at hd
      rcases hd with rfl | hd
      · simp [isWordPart, hstart]
      · rw [List.span_eq_takeWhile_dropWhile] at hd
        exact List.all_eq_true.1 List.all_takeWhile d hd
  · split at h <;> cases h

/-! ## What a piece depends on -/

namespace Piece

/-- A piece that says something is spelled as what it says. -/
def Spelled (p : Piece) : Prop := ∀ kind, p.kind = some kind → p.text = kind.text

theorem token_spelled (kind : TokenKind) (rest : List Char) : Spelled (token kind rest) := by
  intro kind' h
  cases h
  rfl

theorem separator_spelled (text rest : List Char) : Spelled ⟨text, none, rest⟩ := by
  intro kind h
  cases h

theorem afterSlash_spelled (cs : List Char) : Spelled (afterSlash cs) := by
  unfold afterSlash
  split
  · exact separator_spelled _ _
  · split
    · exact separator_spelled _ _
    · exact token_spelled _ _
  · exact token_spelled _ _

theorem afterQuote_spelled (cs : List Char) : Spelled (afterQuote cs) := by
  unfold afterQuote
  split <;> exact token_spelled _ _

theorem next_spelled (c : Char) (cs : List Char) : Spelled (next c cs) := by
  unfold next
  split
  · exact separator_spelled _ _
  split
  · exact afterSlash_spelled cs
  split
  · exact afterQuote_spelled cs
  split
  · exact token_spelled _ _
  split
  · exact token_spelled _ _
  · split <;> exact token_spelled _ _

/-- A literal that nothing closes. -/
def IsUnclosedString : Option TokenKind → Prop
  | some (.unclosedString _) => True
  | _ => False

theorem afterSlash_replace {t r : List Char} {d : Char} {kind : Option TokenKind}
    (h : afterSlash (t ++ d :: r) = ⟨'/' :: t, kind, d :: r⟩) (r' : List Char) :
    afterSlash (t ++ d :: r') = ⟨'/' :: t, kind, d :: r'⟩ := by
  cases t with
  | nil =>
    rw [List.nil_append] at h ⊢
    unfold afterSlash at h ⊢
    split at h
    · cases h
    · split at h <;> cases h
    · rename_i hline hblock
      cases h
      split
      · rename_i heq
        cases heq
        exact (hline _ rfl).elim
      · rename_i heq
        cases heq
        exact (hblock _ rfl).elim
      · rfl
  | cons c t =>
    rw [List.cons_append] at h ⊢
    unfold afterSlash at h ⊢
    split at h
    · rename_i cs heq
      obtain ⟨rfl, rfl⟩ := List.cons.inj heq
      cases hspan : (t ++ d :: r).span (!isBreak ·) with
      | mk body rest =>
        rw [hspan] at h
        cases h
        simp only [span_replace hspan r']
    · rename_i cs heq
      obtain ⟨rfl, rfl⟩ := List.cons.inj heq
      split at h
      · rename_i body rest hend
        simp only [Piece.mk.injEq, List.cons.injEq, true_and] at h
        obtain ⟨rfl, rfl, rfl⟩ := h
        have hbody : body ++ ['*', '/'] ++ d :: r = body ++ '*' :: '/' :: d :: r := by simp
        have hbody' : body ++ ['*', '/'] ++ d :: r' = body ++ '*' :: '/' :: d :: r' := by simp
        rw [hbody] at hend
        simp only [hbody', splitAtCommentEnd?_replace hend (d :: r')]
      · simp [token] at h
    · simp [token, TokenKind.text, Symbol.char] at h

theorem afterSlash_front {t rest more : List Char}
    (h : afterSlash (t ++ (rest ++ more)) = ⟨'/' :: t, none, rest ++ more⟩) :
    afterSlash (t ++ rest) = ⟨'/' :: t, none, rest⟩ := by
  cases t with
  | nil =>
    unfold afterSlash at h
    split at h
    · cases congrArg Piece.text h
    · split at h
      · cases congrArg Piece.text h
      · cases congrArg Piece.kind h
    · cases congrArg Piece.kind h
  | cons c t =>
    rw [List.cons_append] at h ⊢
    unfold afterSlash at h ⊢
    split at h
    · rename_i cs heq
      obtain ⟨rfl, rfl⟩ := List.cons.inj heq
      cases hspan : (t ++ (rest ++ more)).span (!isBreak ·) with
      | mk body behind =>
        rw [hspan] at h
        cases h
        simp only [span_front hspan]
    · rename_i cs heq
      obtain ⟨rfl, rfl⟩ := List.cons.inj heq
      split at h
      · rename_i body behind hend
        simp only [Piece.mk.injEq, List.cons.injEq, true_and] at h
        obtain ⟨rfl, rfl⟩ := h
        simp only [List.append_assoc, List.cons_append, List.nil_append] at hend ⊢
        simp only [splitAtCommentEnd?_replace hend rest]
      · cases congrArg Piece.kind h
    · cases congrArg Piece.kind h

theorem afterQuote_replace {t r : List Char} {d : Char} {kind : Option TokenKind}
    (h : afterQuote (t ++ d :: r) = ⟨'"' :: t, kind, d :: r⟩) (hclosed : ¬ IsUnclosedString kind)
    (r' : List Char) : afterQuote (t ++ d :: r') = ⟨'"' :: t, kind, d :: r'⟩ := by
  unfold afterQuote at h ⊢
  split at h
  · rename_i body rest hbody
    simp only [token, TokenKind.text, Piece.mk.injEq, List.cons_append, List.cons.injEq,
      true_and] at h
    obtain ⟨rfl, rfl, rfl⟩ := h
    have hquote : body ++ ['"'] ++ d :: r' = body ++ '"' :: d :: r' := by simp
    rw [hquote, spanStringBody_replace hbody (d :: r')]
    rfl
  · rename_i body rest _ hbody
    cases h
    exact (hclosed trivial).elim

theorem next_replace {c d : Char} {t r : List Char} {kind : Option TokenKind}
    (h : next c (t ++ d :: r) = ⟨c :: t, kind, d :: r⟩) (hclosed : ¬ IsUnclosedString kind)
    (r' : List Char) : next c (t ++ d :: r') = ⟨c :: t, kind, d :: r'⟩ := by
  unfold next at h ⊢
  split at h
  · rename_i hc
    rw [if_pos hc]
    cases hspan : (t ++ d :: r).span isSeparator with
    | mk run rest =>
      rw [hspan] at h
      cases h
      simp only [span_replace hspan r']
  rename_i hseparator
  rw [if_neg hseparator]
  split at h
  · rename_i hc
    obtain rfl : c = '/' := eq_of_beq hc
    rw [if_pos hc]
    exact afterSlash_replace h r'
  rename_i hslash
  rw [if_neg hslash]
  split at h
  · rename_i hc
    obtain rfl : c = '"' := eq_of_beq hc
    rw [if_pos hc]
    exact afterQuote_replace h hclosed r'
  rename_i hquote
  rw [if_neg hquote]
  split at h
  · rename_i hc
    rw [if_pos hc]
    cases hspan : (t ++ d :: r).span isDigit with
    | mk run rest =>
      rw [hspan] at h
      cases h
      simp only [span_replace hspan r', token, TokenKind.text]
  rename_i hdigit
  rw [if_neg hdigit]
  split at h
  · rename_i hc
    rw [if_pos hc]
    cases hspan : (t ++ d :: r).span isWordPart with
    | mk run rest =>
      rw [hspan] at h
      simp only [token, wordKind_text, String.toList_ofList, Piece.mk.injEq, List.cons.injEq,
        true_and] at h
      obtain ⟨rfl, rfl, rfl⟩ := h
      simp only [span_replace hspan r', token, wordKind_text, String.toList_ofList]
  rename_i hstart
  rw [if_neg hstart]
  split at h
  · rename_i sign hsign
    simp only [token, TokenKind.text, ofChar?_eq_some hsign, Piece.mk.injEq, List.cons.injEq,
      true_and, List.nil_eq] at h
    obtain ⟨rfl, rfl, -⟩ := h
    simp only [token, TokenKind.text, ofChar?_eq_some hsign, List.nil_append]
  · simp only [token, TokenKind.text, Piece.mk.injEq, List.cons.injEq, true_and,
      List.nil_eq] at h
    obtain ⟨rfl, rfl, -⟩ := h
    rfl

theorem next_front {c : Char} {t rest more : List Char}
    (h : next c (t ++ (rest ++ more)) = ⟨c :: t, none, rest ++ more⟩) :
    next c (t ++ rest) = ⟨c :: t, none, rest⟩ := by
  unfold next at h ⊢
  split at h
  · rename_i hc
    rw [if_pos hc]
    cases hspan : (t ++ (rest ++ more)).span isSeparator with
    | mk run behind =>
      rw [hspan] at h
      cases h
      simp only [span_front hspan]
  rename_i hseparator
  rw [if_neg hseparator]
  split at h
  · rename_i hc
    obtain rfl : c = '/' := eq_of_beq hc
    rw [if_pos hc]
    exact afterSlash_front h
  -- any other piece is a token
  split at h
  · unfold afterQuote at h
    split at h <;> cases congrArg Piece.kind h
  split at h
  · cases congrArg Piece.kind h
  split at h
  · cases congrArg Piece.kind h
  · split at h <;> cases congrArg Piece.kind h

theorem next_symbol {sign : Symbol} (h : sign ≠ .slash) (cs : List Char) :
    next sign.char cs = token (.symbol sign) cs := by
  cases sign with
  | slash => exact (h rfl).elim
  | _ => rfl

end Piece

theorem IsNext.text_eq {text rest : List Char} {kind : TokenKind}
    (h : IsNext text (some kind) rest) : text = kind.text := by
  obtain ⟨c, cs, rfl, hnext⟩ := h
  have hspelled := Piece.next_spelled c (cs ++ rest)
  rw [hnext] at hspelled
  exact hspelled kind rfl

theorem IsNext.replace {text r : List Char} {d : Char} {kind : Option TokenKind}
    (h : IsNext text kind (d :: r)) (hclosed : ¬ Piece.IsUnclosedString kind) (r' : List Char) :
    IsNext text kind (d :: r') := by
  obtain ⟨c, cs, rfl, hnext⟩ := h
  exact ⟨c, cs, rfl, Piece.next_replace hnext hclosed r'⟩

/-- A separator is one whatever of the text behind it is left off. -/
theorem IsNext.front {text rest more : List Char} (h : IsNext text none (rest ++ more)) :
    IsNext text none rest := by
  obtain ⟨c, t, rfl, hnext⟩ := h
  exact ⟨c, t, rfl, Piece.next_front hnext⟩

/-- A piece in front of a plain character is decided there, even a literal that nothing closes:
it stopped at a break before. -/
theorem IsNext.replace_plain {text cs r : List Char} {d : Char} {kind : Option TokenKind}
    (h : IsNext text kind (cs ++ d :: r)) (hd : IsPlain d) (r' : List Char) :
    IsNext text kind (cs ++ d :: r') := by
  by_cases hunclosed : Piece.IsUnclosedString kind
  · obtain ⟨body, rfl⟩ : ∃ body, kind = some (.unclosedString body) := by
      unfold Piece.IsUnclosedString at hunclosed
      split at hunclosed
      · exact ⟨_, rfl⟩
      · exact hunclosed.elim
    obtain rfl := h.text_eq
    obtain ⟨c, t, htext, hnext⟩ := h
    obtain ⟨rfl, rfl⟩ := List.cons.inj htext
    refine ⟨'"', body, rfl, ?_⟩
    show Piece.afterQuote (body ++ (cs ++ d :: r')) = _
    replace hnext : Piece.afterQuote (body ++ (cs ++ d :: r)) = _ := hnext
    unfold Piece.afterQuote at hnext ⊢
    split at hnext
    · cases hnext
    · rename_i body' rest hopen hbody
      cases hnext
      obtain ⟨hne, hstops⟩ := spanStringBody_plain hd (spanStringBody_stops hbody) r'
      rw [spanStringBody_behind hbody hstops]
      cases cs with
      | nil => exact (hne rfl).elim
      | cons c cs =>
        split
        · rename_i heq
          cases heq
          exact (hopen _ rfl).elim
        · rename_i heq
          cases heq
          rfl
  · cases cs with
    | nil => exact h.replace hunclosed r'
    | cons c cs => exact h.replace hunclosed _

theorem isNext_symbol {sign : Symbol} (h : sign ≠ .slash) (rest : List Char) :
    IsNext [sign.char] (some (.symbol sign)) rest :=
  ⟨sign.char, [], rfl, Piece.next_symbol h rest⟩

end ReplEngine
