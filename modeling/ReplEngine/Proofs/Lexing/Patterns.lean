import Mathlib.Computability.Language
import ReplEngine.Proofs.Lexing.Literals
import ReplEngine.Proofs.Lexing.NextLine
set_option autoImplicit false

/-!
# The patterns of tokens

Every kind of token has a pattern, a language over characters, and so has what is skipped between
tokens.  What a piece is made of matches the pattern of the piece (`Piece.matches_next`), and a
text that matches a pattern is a piece of its own (`Pattern.isNext_of_matches`): the only text that
two patterns share is a keyword, which is spelled like an identifier.
-/

namespace ReplEngine

open Text
open scoped Computability

/-! ## Patterns -/

/-- What can be read at the front of a text. -/
inductive Pattern where
  | blanks
  | lineComment
  | blockComment
  | keyword (word : Keyword)
  | symbol (sign : Symbol)
  | integer
  | quoted
  | unclosedString
  | identifier
  | unclosedComment
  deriving DecidableEq, Repr, Inhabited

namespace Pattern

/-- The range of one character. -/
def only (c : Char) : Char × Char := (c, c)

def blankRanges : List (Char × Char) := [only ' ', only '\t', only '\r', only '\n', only '\x0c']

def breakRanges : List (Char × Char) := [only '\r', only '\n']

def digitRanges : List (Char × Char) := [('0', '9')]

def startRanges : List (Char × Char) := [('A', 'Z'), ('a', 'z'), only '_', only '$']

/-- The character is in one of the ranges. -/
def inRanges (ranges : List (Char × Char)) (c : Char) : Bool :=
  ranges.any fun range => range.1 ≤ c && c ≤ range.2

/-- One character of a class. -/
def oneOf (p : Char → Bool) : Language Char := {text | ∃ c, p c = true ∧ text = [c]}

/-- One text. -/
def literal (text : List Char) : Language Char := {text}

/-- The texts that `stop` ends and does not stand in before. -/
def upTo (stop : List Char) : Language Char :=
  {text | stop <:+ text ∧ ¬ stop <:+: text.dropLast}

/-- The texts that `stop` does not stand in. -/
def without (stop : List Char) : Language Char := {text | ¬ stop <:+: text}

/-- What stands between the quotes of a string literal: characters other than a quote, a backslash
and a break, and backslashes with a character behind each that is no break. -/
def stringBody : Language Char :=
  (oneOf (!inRanges (only '"' :: only '\\' :: breakRanges) ·) +
    literal ['\\'] * oneOf (!inRanges breakRanges ·))∗

/-- The texts that match a pattern. -/
def language : Pattern → Language Char
  | blanks => oneOf (inRanges blankRanges) * (oneOf (inRanges blankRanges))∗
  | lineComment => literal ['/', '/'] * (oneOf (!inRanges breakRanges ·))∗
  | blockComment => literal ['/', '*'] * upTo ['*', '/']
  | keyword word => literal word.spelling.toList
  | symbol sign => literal [sign.char]
  | integer => oneOf (inRanges digitRanges) * (oneOf (inRanges digitRanges))∗
  | quoted => literal ['"'] * stringBody * literal ['"']
  | unclosedString => literal ['"'] * stringBody
  | identifier =>
    oneOf (inRanges startRanges) * (oneOf (inRanges (startRanges ++ digitRanges)))∗
  | unclosedComment => literal ['/', '*'] * without ['*', '/']

/-- What matches is skipped. -/
def Skipped : Pattern → Prop
  | blanks | lineComment | blockComment => True
  | _ => False

/-- The pattern is a word or a sign spelled out. -/
def IsLiteral : Pattern → Prop
  | keyword _ | symbol _ => True
  | _ => False

end Pattern

/-- The pattern that tokens of a kind are read by.  An illegal character is read by none. -/
def TokenKind.pattern? : TokenKind → Option Pattern
  | keyword word => some (.keyword word)
  | symbol sign => some (.symbol sign)
  | integer _ => some .integer
  | quoted _ => some .quoted
  | unclosedString _ => some .unclosedString
  | identifier _ => some .identifier
  | unclosedComment _ => some .unclosedComment
  | illegal _ => none

/-- What a text says that is read by a pattern. -/
def Pattern.Gives (p : Pattern) : Option TokenKind → Prop
  | none => p.Skipped
  | some kind => kind.pattern? = some p

namespace Pattern

/-! ## Classes of characters -/

theorem between_only (c d : Char) : (decide (d ≤ c) && decide (c ≤ d)) = (c == d) := by
  rw [Bool.eq_iff_iff]
  simp only [Bool.and_eq_true, decide_eq_true_eq, beq_iff_eq]
  exact ⟨fun h => Char.le_antisymm h.2 h.1, fun h => h ▸ ⟨Char.le_refl _, Char.le_refl _⟩⟩

@[simp] theorem inRanges_blank : inRanges blankRanges = isSeparator := by
  funext c
  simp [inRanges, blankRanges, only, between_only, isSeparator, Bool.or_assoc]

@[simp] theorem inRanges_break : inRanges breakRanges = isBreak := by
  funext c
  simp [inRanges, breakRanges, only, between_only, isBreak]

@[simp] theorem inRanges_digit : inRanges digitRanges = isDigit := by
  funext c
  simp [inRanges, digitRanges, isDigit]

@[simp] theorem inRanges_start : inRanges startRanges = isWordStart := by
  funext c
  simp [inRanges, startRanges, only, between_only, isWordStart, Bool.or_assoc]

@[simp] theorem inRanges_part : inRanges (startRanges ++ digitRanges) = isWordPart := by
  funext c
  rw [isWordPart, ← inRanges_start, ← inRanges_digit]
  exact List.any_append

@[simp] theorem inRanges_special (c : Char) :
    inRanges (only '"' :: only '\\' :: breakRanges) c = (c == '"' || c == '\\' || isBreak c) := by
  rw [← inRanges_break]
  simp [inRanges, only, between_only, Bool.or_assoc]

/-! ## Texts that match -/

theorem mem_literal {text t : List Char} : t ∈ literal text ↔ t = text := Iff.rfl

theorem mem_many {p : Char → Bool} {t : List Char} : t ∈ (oneOf p)∗ ↔ ∀ c ∈ t, p c = true := by
  rw [Language.mem_kstar]
  constructor
  · rintro ⟨parts, rfl, hparts⟩ c hc
    obtain ⟨part, hpart, hc⟩ := List.mem_flatten.1 hc
    obtain ⟨d, hd, rfl⟩ := hparts part hpart
    rwa [List.mem_singleton.1 hc]
  · intro h
    refine ⟨t.map fun c => [c], ?_, fun part hpart => ?_⟩
    · rw [← List.flatMap_def, List.flatMap_singleton']
    · obtain ⟨c, hc, rfl⟩ := List.mem_map.1 hpart
      exact ⟨c, h c hc, rfl⟩

theorem mem_run {p q : Char → Bool} {t : List Char} :
    t ∈ oneOf p * (oneOf q)∗ ↔ ∃ c run, t = c :: run ∧ p c = true ∧ ∀ d ∈ run, q d = true := by
  rw [Language.mem_mul]
  constructor
  · rintro ⟨_, ⟨c, hc, rfl⟩, run, hrun, rfl⟩
    exact ⟨c, run, rfl, hc, mem_many.1 hrun⟩
  · rintro ⟨c, run, rfl, hc, hrun⟩
    exact ⟨[c], ⟨c, hc, rfl⟩, run, mem_many.2 hrun, rfl⟩

theorem mem_blanks {t : List Char} : t ∈ blanks.language ↔
    ∃ c run, t = c :: run ∧ isSeparator c = true ∧ ∀ d ∈ run, isSeparator d = true := by
  rw [language, inRanges_blank, mem_run]

theorem mem_integer {t : List Char} : t ∈ integer.language ↔
    ∃ c run, t = c :: run ∧ isDigit c = true ∧ ∀ d ∈ run, isDigit d = true := by
  rw [language, inRanges_digit, mem_run]

theorem mem_identifier {t : List Char} : t ∈ identifier.language ↔
    ∃ c run, t = c :: run ∧ isWordStart c = true ∧ ∀ d ∈ run, isWordPart d = true := by
  rw [language, inRanges_start, inRanges_part, mem_run]

theorem mem_behind {text t : List Char} {l : Language Char} :
    t ∈ literal text * l ↔ ∃ u ∈ l, t = text ++ u := by
  rw [Language.mem_mul]
  constructor
  · rintro ⟨_, rfl, u, hu, rfl⟩
    exact ⟨u, hu, rfl⟩
  · rintro ⟨u, hu, rfl⟩
    exact ⟨text, rfl, u, hu, rfl⟩

theorem mem_lineComment {t : List Char} : t ∈ lineComment.language ↔
    ∃ body, t = '/' :: '/' :: body ∧ ∀ d ∈ body, (!isBreak d) = true := by
  rw [language, inRanges_break, mem_behind]
  simp only [mem_many, List.cons_append, List.nil_append, and_comm]

theorem append_mem_kstar {l : Language Char} {t u : List Char} (ht : t ∈ l) (hu : u ∈ l∗) :
    t ++ u ∈ l∗ := by
  rw [← Language.one_add_self_mul_kstar_eq_kstar]
  exact .inr (Language.append_mem_mul ht hu)

/-- The body of a literal is what the reader of literals runs over. -/
theorem mem_stringBody {t : List Char} : t ∈ stringBody ↔ spanStringBody t = (t, []) := by
  constructor
  · rintro ⟨parts, rfl, hparts⟩
    induction parts with
    | nil => rfl
    | cons part parts ih =>
      have hlater := ih fun u hu => hparts u (List.mem_cons_of_mem part hu)
      rw [List.flatten_cons]
      rcases hparts part List.mem_cons_self with ⟨c, hc, rfl⟩ | hescape
      · simp only [inRanges_special, Bool.not_eq_true'] at hc
        have hne : c ≠ '\\' := by
          rintro rfl
          cases hc
        rw [List.singleton_append, spanStringBody.eq_3 _ _ fun _ _ h _ => hne h, hc, hlater]
        rfl
      · obtain ⟨_, ⟨c, hc, rfl⟩, rfl⟩ := mem_behind.1 hescape
        have hbreak : ¬ isBreak c = true := by simpa using hc
        rw [List.append_assoc, List.singleton_append, List.singleton_append, spanStringBody,
          if_neg hbreak, hlater]
  · intro h
    induction t using spanStringBody.induct with
    | case1 => exact Language.nil_mem_kstar _
    | case2 c cs hbreak =>
      rw [spanStringBody, if_pos hbreak] at h
      cases h
    | case3 c cs hbreak body rest hlater ih =>
      rw [spanStringBody, if_neg hbreak, hlater] at h
      cases h
      have hescape : ['\\', c] ∈ literal ['\\'] * oneOf (!inRanges breakRanges ·) :=
        mem_behind.2 ⟨[c], ⟨c, by simpa using hbreak, rfl⟩, rfl⟩
      exact append_mem_kstar (.inr hescape) (ih hlater)
    | case4 c cs hne hstop =>
      rw [spanStringBody.eq_3 _ _ hne, if_pos hstop] at h
      cases h
    | case5 c cs hne hstop body rest hlater ih =>
      rw [spanStringBody.eq_3 _ _ hne, if_neg hstop, hlater] at h
      cases h
      have hplain : [c] ∈ oneOf (!inRanges (only '"' :: only '\\' :: breakRanges) ·) :=
        ⟨c, by simpa using hstop, rfl⟩
      exact append_mem_kstar (.inl hplain) (ih hlater)

theorem mem_without {t : List Char} :
    t ∈ without ['*', '/'] ↔ splitAtCommentEnd? t = none := by
  show ¬ ['*', '/'] <:+: t ↔ _
  induction t using splitAtCommentEnd?.induct with
  | case1 => simp [splitAtCommentEnd?]
  | case2 cs =>
    have hstop : ['*', '/'] <:+: '*' :: '/' :: cs := (List.prefix_append ['*', '/'] cs).isInfix
    exact iff_of_false (fun h => h hstop) (Option.some_ne_none _)
  | case3 c cs hne ih =>
    have hfront : ¬ ['*', '/'] <+: c :: cs := by
      rintro ⟨more, hmore⟩
      obtain ⟨rfl, rfl⟩ := List.cons.inj hmore
      exact hne more rfl rfl
    rw [splitAtCommentEnd?.eq_3 _ _ hne, Option.map_eq_none_iff, ← ih, List.infix_cons_iff,
      or_iff_right hfront]

/-- The star of the end of a comment does not end it. -/
theorem splitAtCommentEnd?_star {body rest : List Char}
    (h : splitAtCommentEnd? (body ++ '*' :: '/' :: rest) = some (body, rest)) :
    splitAtCommentEnd? (body ++ ['*']) = none := by
  induction body with
  | nil => rfl
  | cons c body ih =>
    obtain ⟨hne, hlater⟩ := splitAtCommentEnd?_tail h
    rw [List.cons_append, splitAtCommentEnd?.eq_3 _ _ (ne_commentEnd_append hne (by simp)),
      ih hlater]
    rfl

theorem mem_upTo {t : List Char} :
    t ∈ upTo ['*', '/'] ↔ ∃ body, t = body ++ ['*', '/'] ∧
      splitAtCommentEnd? t = some (body, []) := by
  have hlast (body : List Char) : (body ++ ['*', '/']).dropLast = body ++ ['*'] := by
    rw [List.dropLast_append_of_ne_nil (by simp)]
    rfl
  constructor
  · rintro ⟨⟨body, rfl⟩, hfirst⟩
    rw [hlast] at hfirst
    have hbody : ¬ ['*', '/'] <:+: body :=
      fun hstop => hfirst (hstop.trans (List.prefix_append body ['*']).isInfix)
    exact ⟨body, rfl, splitAtCommentEnd?_of_none (mem_without.1 hbody) []⟩
  · rintro ⟨body, rfl, hend⟩
    refine ⟨List.suffix_append body _, ?_⟩
    rw [hlast]
    exact mem_without.2 (splitAtCommentEnd?_star hend)

end Pattern

/-! ## Pieces match -/

namespace Piece

/-- The piece is what its pattern says, and an identifier is no keyword. -/
def Matches (piece : Piece) : Prop :=
  ∃ p : Pattern, p.Gives piece.kind ∧ piece.text ∈ p.language ∧
    (p = .identifier → ∀ k : Keyword, piece.text ≠ k.spelling.toList)

theorem afterSlash_matches (cs : List Char) : (afterSlash cs).Matches := by
  unfold afterSlash
  split
  · rename_i cs
    refine ⟨.lineComment, trivial, ?_, nofun⟩
    exact Pattern.mem_lineComment.2 ⟨_, rfl, forall_mem_span _ cs⟩
  · rename_i cs
    split
    · rename_i body rest hend
      have hcs := splitAtCommentEnd?_append hend
      rw [hcs] at hend
      refine ⟨.blockComment, trivial, Pattern.mem_behind.2 ⟨body ++ ['*', '/'], ?_, rfl⟩, nofun⟩
      exact Pattern.mem_upTo.2 ⟨body, rfl, splitAtCommentEnd?_replace hend []⟩
    · rename_i hopen
      refine ⟨.unclosedComment, rfl, ?_, nofun⟩
      exact Pattern.mem_behind.2 ⟨cs, Pattern.mem_without.2 hopen, rfl⟩
  · exact ⟨.symbol .slash, rfl, rfl, nofun⟩

theorem afterQuote_matches (cs : List Char) : (afterQuote cs).Matches := by
  have hbody {body rest : List Char} (h : spanStringBody cs = (body, rest)) :
      '"' :: body ∈ Pattern.unclosedString.language := by
    have hown : spanStringBody (body ++ []) = (body, []) := spanStringBody_behind h rfl
    rw [List.append_nil] at hown
    exact Pattern.mem_behind.2 ⟨body, Pattern.mem_stringBody.2 hown, rfl⟩
  unfold afterQuote
  split
  · rename_i body rest hspan
    exact ⟨.quoted, rfl, Language.append_mem_mul (hbody hspan) rfl, nofun⟩
  · rename_i body rest _ hspan
    exact ⟨.unclosedString, rfl, hbody hspan, nofun⟩

theorem word_matches {c : Char} (h : isWordStart c = true) (cs : List Char) :
    (next c cs).Matches := by
  rw [next_word h]
  have hrun := forall_mem_span isWordPart cs
  unfold wordKind
  split
  · rename_i k hk
    exact ⟨.keyword k, rfl, rfl, nofun⟩
  · rename_i hnone
    refine ⟨.identifier, rfl, ?_, fun _ k hk => ?_⟩
    · refine Pattern.mem_identifier.2 ⟨c, _, ?_, h, hrun⟩
      exact String.toList_ofList
    · replace hk : (String.ofList (c :: (cs.span isWordPart).1)).toList = k.spelling.toList := hk
      rw [String.toList_inj.1 hk, Keyword.ofSpelling?_spelling] at hnone
      cases hnone

/-- A piece matches a pattern that gives what it says, or its first character starts nothing. -/
theorem next_matches (c : Char) (cs : List Char) :
    (next c cs).Matches ∨ ∀ cs', next c cs' = token (.illegal c) cs' := by
  rcases first_cases c with hblank | rfl | rfl | hdigit | hword | ⟨sign, hsign, rfl⟩ | hillegal
  · rw [next_blank hblank]
    refine .inl ⟨.blanks, trivial, ?_, nofun⟩
    exact Pattern.mem_blanks.2 ⟨c, _, rfl, hblank, forall_mem_span _ cs⟩
  · exact .inl (afterSlash_matches cs)
  · exact .inl (afterQuote_matches cs)
  · rw [next_digit hdigit]
    refine .inl ⟨.integer, rfl, ?_, nofun⟩
    exact Pattern.mem_integer.2 ⟨c, _, rfl, hdigit, forall_mem_span _ cs⟩
  · exact .inl (word_matches hword cs)
  · rw [next_symbol hsign]
    exact .inl ⟨.symbol sign, rfl, rfl, nofun⟩
  · exact .inr hillegal

end Piece

/-! ## What matches is a piece -/

/-- A keyword is spelled like an identifier. -/
theorem Keyword.spelling_word (k : Keyword) :
    ∃ c run, k.spelling.toList = c :: run ∧ isWordStart c = true ∧
      ∀ d ∈ run, isWordPart d = true := by
  have hword : k.spelling.toList.head?.any isWordStart = true ∧
      k.spelling.toList.all isWordPart = true := by
    cases k <;> decide
  cases hspelling : k.spelling.toList with
  | nil =>
    rw [hspelling] at hword
    cases hword.1
  | cons c run =>
    rw [hspelling] at hword
    have hall := List.all_eq_true.1 hword.2
    exact ⟨c, run, rfl, hword.1, fun d hd => hall d (List.mem_cons_of_mem c hd)⟩

theorem isNext_word {c : Char} {run : List Char} (hc : isWordStart c = true)
    (hrun : ∀ d ∈ run, isWordPart d = true) :
    IsNext (c :: run) (some (Piece.wordKind (String.ofList (c :: run)))) [] := by
  refine ⟨c, run, rfl, ?_⟩
  rw [List.append_nil, Piece.next_word hc, span_all hrun]
  unfold Piece.token
  rw [wordKind_text, String.toList_ofList]

/-- What a text that matches a pattern says on its own: what the pattern gives, or that it is a
keyword. -/
theorem Pattern.isNext_of_matches {p : Pattern} {t : List Char} (h : t ∈ p.language) :
    ∃ kind, IsNext t kind [] ∧
      (p.Gives kind ∨ p = .identifier ∧ ∃ k, kind = some (.keyword k)) := by
  have hstring {body : List Char} (hbody : body ∈ stringBody) (rest : List Char)
      (hrest : spanStringBody rest = ([], rest)) :
      spanStringBody (body ++ rest) = (body, rest) :=
    spanStringBody_behind (mem_stringBody.1 hbody) hrest
  cases p with
  | blanks =>
    obtain ⟨c, run, rfl, hc, hrun⟩ := mem_blanks.1 h
    refine ⟨none, ⟨c, run, rfl, ?_⟩, .inl trivial⟩
    rw [List.append_nil, Piece.next_blank hc, span_all hrun]
  | lineComment =>
    obtain ⟨body, rfl, hbody⟩ := mem_lineComment.1 h
    refine ⟨none, ⟨'/', '/' :: body, rfl, ?_⟩, .inl trivial⟩
    show Piece.afterSlash ('/' :: (body ++ [])) = _
    rw [List.append_nil, Piece.afterSlash, span_all hbody]
  | blockComment =>
    obtain ⟨body, hbody, rfl⟩ := mem_behind.1 h
    obtain ⟨inner, rfl, hend⟩ := mem_upTo.1 hbody
    refine ⟨none, ⟨'/', '*' :: (inner ++ ['*', '/']), rfl, ?_⟩, .inl trivial⟩
    show Piece.afterSlash ('*' :: (inner ++ ['*', '/'] ++ [])) = _
    rw [List.append_nil]
    simp only [Piece.afterSlash, hend]
    rfl
  | keyword k =>
    obtain rfl := mem_literal.1 h
    obtain ⟨c, run, hk, hc, hrun⟩ := k.spelling_word
    have hnext := isNext_word hc hrun
    rw [← hk, String.ofList_toList, Piece.wordKind, k.ofSpelling?_spelling] at hnext
    exact ⟨_, hnext, .inl rfl⟩
  | symbol sign =>
    obtain rfl := mem_literal.1 h
    refine ⟨some (.symbol sign), ?_, .inl rfl⟩
    by_cases hsign : sign = .slash
    · subst hsign
      exact ⟨'/', [], rfl, rfl⟩
    · exact isNext_symbol hsign []
  | integer =>
    obtain ⟨c, run, rfl, hc, hrun⟩ := mem_integer.1 h
    refine ⟨some (.integer (c :: run)), ⟨c, run, rfl, ?_⟩, .inl rfl⟩
    rw [List.append_nil, Piece.next_digit hc, span_all hrun]
    rfl
  | quoted =>
    obtain ⟨_, hopen, _, rfl, rfl⟩ := Language.mem_mul.1 h
    obtain ⟨body, hbody, rfl⟩ := mem_behind.1 hopen
    refine ⟨some (.quoted body), ⟨'"', body ++ ['"'], rfl, ?_⟩, .inl rfl⟩
    show Piece.afterQuote (body ++ ['"'] ++ []) = _
    rw [List.append_nil, Piece.afterQuote, hstring hbody ['"'] rfl]
    rfl
  | unclosedString =>
    obtain ⟨body, hbody, rfl⟩ := mem_behind.1 h
    refine ⟨some (.unclosedString body), ⟨'"', body, rfl, ?_⟩, .inl rfl⟩
    show Piece.afterQuote (body ++ []) = _
    rw [Piece.afterQuote, hstring hbody [] rfl]
    rfl
  | identifier =>
    obtain ⟨c, run, rfl, hc, hrun⟩ := mem_identifier.1 h
    refine ⟨_, isNext_word hc hrun, ?_⟩
    unfold Piece.wordKind
    split
    · exact .inr ⟨rfl, _, rfl⟩
    · exact .inl rfl
  | unclosedComment =>
    obtain ⟨body, hbody, rfl⟩ := mem_behind.1 h
    refine ⟨some (.unclosedComment body), ⟨'/', '*' :: body, rfl, ?_⟩, .inl rfl⟩
    show Piece.afterSlash ('*' :: (body ++ [])) = _
    rw [List.append_nil]
    simp only [Piece.afterSlash, mem_without.1 hbody]
    rfl

end ReplEngine
