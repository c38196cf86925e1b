import ReplEngine.Proofs.Lexing.Scans
import ReplEngine.Proofs.Lexing.Starts
set_option autoImplicit false

/-!
# Writing a source on in a new line

A line break ends every piece of a source but a block comment: words, numbers and literals stop in
front of it, and so does a line comment.  A block comment that is open runs over the break and is
ended behind it.  So the tokens of a source stand fast in front of whatever is written in the next
line (`Scans.exists_nextLine`).
-/

namespace ReplEngine

open Text

/-! ## Runs and literals in front of a break -/

/-- A run that takes in all of a text stops in front of what is no part of it. -/
theorem span_of_span_nil {α : Type} {p : α → Bool} {cs run : List α} (h : cs.span p = (run, []))
    {d : α} (hd : p d = false) (r : List α) : (cs ++ d :: r).span p = (run, d :: r) := by
  have hrun := forall_mem_span p cs
  rw [h] at hrun
  have hcs := span_append h
  rw [List.append_nil] at hcs
  rw [hcs]
  exact span_eq_of_forall hrun hd

/-- A literal does not run over a break that comes to follow what stopped it. -/
theorem spanStringBody_break {cs : List Char} (h : spanStringBody cs = ([], cs)) (r : List Char) :
    spanStringBody (cs ++ '\n' :: r) = ([], cs ++ '\n' :: r) := by
  cases cs with
  | nil => rfl
  | cons c cs =>
    by_cases hc : c = '\\'
    · subst hc
      cases cs with
      | nil => rfl
      | cons c' cs =>
        rw [spanStringBody] at h
        split at h
        · rename_i hbreak
          rw [List.cons_append, List.cons_append, spanStringBody, if_pos hbreak]
        · cases h
    · rw [spanStringBody.eq_3 _ _ fun _ _ h _ => hc h] at h
      split at h
      · rename_i hstop
        rw [List.cons_append, spanStringBody.eq_3 _ _ fun _ _ h _ => hc h, if_pos hstop]
      · cases h

/-- A comment that nothing ends is ended by what ends one. -/
theorem splitAtCommentEnd?_of_none {cs : List Char} (h : splitAtCommentEnd? cs = none)
    (r : List Char) : splitAtCommentEnd? (cs ++ '*' :: '/' :: r) = some (cs, r) := by
  induction cs using splitAtCommentEnd?.induct with
  | case1 => rfl
  | case2 cs => cases h
  | case3 c cs hne ih =>
    rw [splitAtCommentEnd?.eq_3 _ _ hne, Option.map_eq_none_iff] at h
    rw [List.cons_append, splitAtCommentEnd?.eq_3 _ _ (ne_commentEnd_append hne (by simp)), ih h]
    rfl

/-- A break ends no comment. -/
theorem splitAtCommentEnd?_break {cs : List Char} (h : splitAtCommentEnd? cs = none) :
    splitAtCommentEnd? (cs ++ ['\n']) = none := by
  induction cs using splitAtCommentEnd?.induct with
  | case1 => rfl
  | case2 cs => cases h
  | case3 c cs hne ih =>
    rw [splitAtCommentEnd?.eq_3 _ _ hne, Option.map_eq_none_iff] at h
    rw [List.cons_append, splitAtCommentEnd?.eq_3 _ _ (ne_commentEnd_append hne (by simp)), ih h]
    rfl

/-! ## Pieces in front of a break -/

namespace Piece

theorem afterSlash_break {t : List Char} {kind : Option TokenKind}
    (h : afterSlash t = ⟨'/' :: t, kind, []⟩) (hclosed : ∀ body, kind ≠ some (.unclosedComment body))
    (r : List Char) : afterSlash (t ++ '\n' :: r) = ⟨'/' :: t, kind, '\n' :: r⟩ := by
  cases t with
  | nil =>
    cases h
    rfl
  | cons c t =>
    rw [List.cons_append]
    unfold afterSlash at h ⊢
    split at h
    · rename_i cs heq
      obtain ⟨rfl, rfl⟩ := List.cons.inj heq
      cases hspan : t.span (!isBreak ·) with
      | mk body rest =>
        rw [hspan] at h
        cases h
        simp only [span_of_span_nil hspan (d := '\n') rfl r]
    · rename_i cs heq
      obtain ⟨rfl, rfl⟩ := List.cons.inj heq
      split at h
      · rename_i body rest hend
        simp only [Piece.mk.injEq, List.cons.injEq, true_and] at h
        obtain ⟨rfl, rfl, rfl⟩ := h
        have hbody : body ++ ['*', '/'] ++ '\n' :: r = body ++ '*' :: '/' :: '\n' :: r := by simp
        simp only [hbody, splitAtCommentEnd?_replace hend ('\n' :: r)]
      · cases congrArg Piece.kind h
        exact (hclosed t rfl).elim
    · simp [token, TokenKind.text, Symbol.char] at h

theorem afterQuote_break {t : List Char} {kind : Option TokenKind}
    (h : afterQuote t = ⟨'"' :: t, kind, []⟩) (hstring : ¬ IsUnclosedString kind) (r : List Char) :
    afterQuote (t ++ '\n' :: r) = ⟨'"' :: t, kind, '\n' :: r⟩ := by
  unfold afterQuote at h ⊢
  split at h
  · rename_i body rest hbody
    simp only [token, TokenKind.text, Piece.mk.injEq, List.cons_append, List.cons.injEq,
      true_and] at h
    obtain ⟨rfl, rfl, rfl⟩ := h
    have hquote : body ++ ['"'] ++ '\n' :: r = body ++ '"' :: '\n' :: r := by simp
    rw [hquote, spanStringBody_replace hbody ('\n' :: r)]
    rfl
  · cases congrArg Piece.kind h
    exact (hstring trivial).elim

theorem next_break {c : Char} {t : List Char} {kind : Option TokenKind}
    (h : next c t = ⟨c :: t, kind, []⟩) (hseparator : isSeparator c = false)
    (hclosed : ∀ body, kind ≠ some (.unclosedComment body))
    (hstring : ¬ IsUnclosedString kind) (r : List Char) :
    next c (t ++ '\n' :: r) = ⟨c :: t, kind, '\n' :: r⟩ := by
  rcases first_cases c with hblank | rfl | rfl | hdigit | hword | ⟨sign, hsign, rfl⟩ | hillegal
  · cases hseparator.symm.trans hblank
  · exact afterSlash_break h hclosed r
  · exact afterQuote_break h hstring r
  · rw [next_digit hdigit] at h ⊢
    cases hspan : t.span isDigit with
    | mk run rest =>
      rw [hspan] at h
      cases h
      rw [span_of_span_nil hspan rfl r]
      rfl
  · rw [next_word hword] at h ⊢
    cases hspan : t.span isWordPart with
    | mk run rest =>
      rw [hspan] at h
      obtain rfl : rest = [] := congrArg Piece.rest h
      rw [span_of_span_nil hspan rfl r]
      obtain ⟨htext, hkind, -⟩ := Piece.mk.inj h
      exact congrArg₂ (Piece.mk · · ('\n' :: r)) htext hkind
  · rw [next_symbol hsign] at h ⊢
    cases h
    rfl
  · rw [hillegal] at h ⊢
    cases h
    rfl

/-- A comment that is open takes in all that is left of a text. -/
theorem next_unclosedComment {c : Char} {cs body : List Char}
    (h : (next c cs).kind = some (.unclosedComment body)) :
    c = '/' ∧ cs = '*' :: body ∧ splitAtCommentEnd? body = none := by
  rcases first_cases c with hblank | rfl | rfl | hdigit | hword | ⟨sign, hsign, rfl⟩ | hillegal
  · rw [next_blank hblank] at h
    cases h
  · replace h : (afterSlash cs).kind = _ := h
    unfold afterSlash at h
    split at h
    · cases h
    · rename_i cs
      split at h
      · cases h
      · rename_i hopen
        cases h
        exact ⟨rfl, rfl, hopen⟩
    · cases h
  · replace h : (afterQuote cs).kind = _ := h
    unfold afterQuote at h
    split at h <;> cases h
  · rw [next_digit hdigit] at h
    cases h
  · rw [next_word hword] at h
    have hkind : wordKind (String.ofList (c :: (cs.span isWordPart).1)) =
        .unclosedComment body := Option.some.inj h
    unfold wordKind at hkind
    split at hkind <;> cases hkind
  · rw [next_symbol hsign] at h
    cases h
  · rw [hillegal] at h
    cases h

end Piece

theorem IsNext.unclosedComment_rest {text body rest : List Char}
    (h : IsNext text (some (.unclosedComment body)) rest) : rest = [] := by
  obtain rfl := h.text_eq
  obtain ⟨c, t, htext, hnext⟩ := h
  obtain ⟨rfl, rfl⟩ := List.cons.inj htext
  obtain ⟨-, hall, -⟩ := Piece.next_unclosedComment (congrArg Piece.kind hnext)
  simpa using hall

/-- A run of blanks is one piece in front of what is no blank. -/
theorem isNext_blanks {c d : Char} {run : List Char} (hc : isSeparator c = true)
    (hrun : ∀ a ∈ run, isSeparator a = true) (hd : isSeparator d = false) (post : List Char) :
    IsNext (c :: run) none (d :: post) := by
  refine ⟨c, run, rfl, ?_⟩
  rw [Piece.next, if_pos hc, span_eq_of_forall hrun hd]

/-- A literal that nothing closes stops at a break, wherever it stopped before. -/
theorem IsNext.unclosedString_break {text body rest : List Char}
    (h : IsNext text (some (.unclosedString body)) rest) (r : List Char) :
    IsNext text (some (.unclosedString body)) (rest ++ '\n' :: r) := by
  obtain rfl := h.text_eq
  obtain ⟨c, t, htext, hnext⟩ := h
  obtain ⟨rfl, rfl⟩ := List.cons.inj htext
  refine ⟨'"', body, rfl, ?_⟩
  replace hnext : Piece.afterQuote (body ++ rest) = _ := hnext
  show Piece.afterQuote (body ++ (rest ++ '\n' :: r)) = _
  unfold Piece.afterQuote at hnext ⊢
  split at hnext
  · cases hnext
  rename_i body' rest' hopen hbody
  cases hnext
  have hstops := spanStringBody_break (spanStringBody_stops hbody) r
  rw [spanStringBody_behind hbody hstops]
  split
  · rename_i heq
    cases rest with
    | nil => cases heq
    | cons d rest =>
      cases heq
      exact (hopen _ rfl).elim
  · rename_i heq
    cases heq
    rfl

/-- A break that comes to follow a text ends its last piece, is taken into the blanks at its end,
or stands in the comment that is open there. -/
theorem IsNext.break_cases {text cs : List Char} {kind : Option TokenKind}
    (h : IsNext text kind cs) :
    (∀ r, IsNext text kind (cs ++ '\n' :: r)) ∨
      (cs = [] ∧ kind = none ∧
        ∀ c post, isSeparator c = false → IsNext (text ++ ['\n']) none (c :: post)) ∨
      cs = [] ∧ (∃ body, kind = some (.unclosedComment body)) ∧
        ∀ post, IsNext (text ++ ['\n', '*', '/']) none post := by
  by_cases hstring : ∃ body, kind = some (.unclosedString body)
  · obtain ⟨body, rfl⟩ := hstring
    exact .inl h.unclosedString_break
  have hclosed : ¬ Piece.IsUnclosedString kind := by
    intro hkind
    unfold Piece.IsUnclosedString at hkind
    split at hkind
    · exact hstring ⟨_, rfl⟩
    · exact hkind
  cases cs with
  | cons d cs => exact .inl fun r => h.replace hclosed _
  | nil =>
    obtain ⟨c, t, rfl, hnext⟩ := h
    rw [List.append_nil] at hnext
    cases hc : isSeparator c with
    | true =>
      right; left
      rw [Piece.next_blank hc] at hnext
      have hkind : none = kind := congrArg Piece.kind hnext
      have hrun : (t.span isSeparator).1 = t := (List.cons.inj (congrArg Piece.text hnext)).2
      have hall := forall_mem_span isSeparator t
      rw [hrun] at hall
      have hblank : ∀ a ∈ t ++ ['\n'], isSeparator a = true :=
        List.forall_mem_append.2 ⟨hall, List.forall_mem_singleton.2 rfl⟩
      exact ⟨rfl, hkind.symm, fun d post hd => isNext_blanks hc hblank hd post⟩
    | false =>
      by_cases hcomment : ∃ body, kind = some (.unclosedComment body)
      · right; right
        obtain ⟨body, rfl⟩ := hcomment
        obtain ⟨rfl, rfl, hopen⟩ := Piece.next_unclosedComment (congrArg Piece.kind hnext)
        refine ⟨rfl, ⟨body, rfl⟩, fun post => ⟨'/', '*' :: (body ++ ['\n', '*', '/']), rfl, ?_⟩⟩
        have hend : splitAtCommentEnd? (body ++ ['\n', '*', '/'] ++ post) =
            some (body ++ ['\n'], post) := by
          have hbreak := splitAtCommentEnd?_of_none (splitAtCommentEnd?_break hopen) post
          rwa [List.append_assoc] at hbreak ⊢
        show Piece.afterSlash ('*' :: (body ++ ['\n', '*', '/'] ++ post)) = _
        simp only [Piece.afterSlash, hend]
        simp
      · refine .inl fun r => ⟨c, t, rfl, ?_⟩
        exact Piece.next_break hnext hc (fun body hkind => hcomment ⟨body, hkind⟩) hclosed r

/-! ## The tokens of a text that is written on in a new line -/

/-- What the last line of a text is ended with: a break, and the end of the comment that is open
there, if one is. -/
def IsLineEnd (closer : List Char) : Prop := closer = ['\n'] ∨ closer = ['\n', '*', '/']

/-- Behind a last line that is ended, the tokens of a text stand as they were, but for a comment
that was open. -/
theorem Scans.exists_nextLine {offset : Nat} {cs : List Char} {ts : List Token}
    (h : Scans [] offset cs ts) :
    ∃ closer kept, IsLineEnd closer ∧
      (ts = kept ∨ ∃ body span, ts = kept ++ [⟨.unclosedComment body, span⟩]) ∧
      (∀ t ∈ kept, ∀ body, t.kind ≠ .unclosedComment body) ∧
      ∀ c post, isSeparator c = false → Scans (c :: post) offset (cs ++ closer) kept := by
  have hblank {offset : Nat} {text rest : List Char} (hnext : IsNext text none rest) :
      Scans rest offset text [] := by
    have hall : Scans rest offset (text ++ []) [] := .separator hnext (.nil _)
    rwa [List.append_nil] at hall
  -- a break in front of what is written next ends a piece that it ends in front of anything
  have hended {text cs closer post : List Char} {kind : Option TokenKind}
      (hbreak : ∀ r, IsNext text kind (cs ++ '\n' :: r)) (hcloser : IsLineEnd closer) :
      IsNext text kind (cs ++ closer ++ post) := by
    rw [List.append_assoc]
    rcases hcloser with rfl | rfl
    · exact hbreak post
    · exact hbreak ('*' :: '/' :: post)
  induction h with
  | nil offset =>
    refine ⟨['\n'], [], .inl rfl, .inl rfl, by simp, fun c post hc => hblank ?_⟩
    exact isNext_blanks rfl (by simp) hc post
  | @separator offset text cs ts hnext hlater ih =>
    rw [List.append_nil] at hnext
    rcases hnext.break_cases with hbreak | ⟨rfl, -, htaken⟩ | ⟨-, ⟨body, hkind⟩, -⟩
    · obtain ⟨closer, kept, hcloser, hkept, hopen, hscans⟩ := ih
      refine ⟨closer, kept, hcloser, hkept, hopen, fun c post hc => ?_⟩
      rw [List.append_assoc]
      exact .separator (hended hbreak hcloser) (hscans c post hc)
    · obtain rfl := hlater.unique (.nil _)
      refine ⟨['\n'], [], .inl rfl, .inl rfl, by simp, fun c post hc => hblank ?_⟩
      rw [List.append_nil]
      exact htaken c post hc
    · cases hkind
  | @token offset text cs kind ts hnext hlater ih =>
    rw [List.append_nil] at hnext
    rcases hnext.break_cases with hbreak | ⟨-, hkind, -⟩ | ⟨rfl, ⟨body, hkind⟩, hclosed⟩
    · obtain ⟨closer, kept, hcloser, hkept, hopen, hscans⟩ := ih
      refine ⟨closer, ⟨kind, .ofRange offset (offset + byteLength text)⟩ :: kept, hcloser, ?_, ?_,
        fun c post hc => ?_⟩
      · rcases hkept with rfl | ⟨body, span, rfl⟩
        · exact .inl rfl
        · exact .inr ⟨body, span, rfl⟩
      · intro t ht body hkind
        rcases List.mem_cons.1 ht with rfl | ht
        · obtain rfl : kind = .unclosedComment body := hkind
          have hall := (hbreak []).unclosedComment_rest
          simp at hall
        · exact hopen t ht body hkind
      · rw [List.append_assoc]
        exact .token (hended hbreak hcloser) (hscans c post hc)
    · cases hkind
    · cases hkind
      obtain rfl := hlater.unique (.nil _)
      refine ⟨['\n', '*', '/'], [], .inr rfl, .inr ⟨_, _, rfl⟩, by simp,
        fun c post hc => hblank ?_⟩
      rw [List.append_nil]
      exact hclosed (c :: post)

end ReplEngine
