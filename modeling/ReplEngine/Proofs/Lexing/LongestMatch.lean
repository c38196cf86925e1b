import ReplEngine.Proofs.Lexing.Boundaries
import ReplEngine.Proofs.Lexing.Patterns
set_option autoImplicit false

/-!
# Tokens are longest matches

The tokens of a source are what its patterns say: each token, and each piece of what is skipped
between them, is the longest text that any pattern matches there, and where no pattern matches
anything, one character is an illegal token.  There is one way to take a source apart so, and
`Token.scan` finds it (`tokenises_iff`).
-/

namespace ReplEngine

open Text

/-! ## Reading at a place -/

/-- No pattern matches at the front of a text. -/
def NoMatch (cs : List Char) : Prop := ∀ (p : Pattern) (t : List Char), t ∈ p.language → ¬ t <+: cs

/-- The text in front of `rest` is what the pattern reads there: no pattern matches a longer text,
and none that is spelled out matches this one in place of one that is not. -/
structure Longest (p : Pattern) (text rest : List Char) : Prop where
  mem : text ∈ p.language
  longest : ∀ (q : Pattern) (t : List Char), t ∈ q.language → t <+: text ++ rest →
    t.length ≤ text.length
  preferred : ∀ q : Pattern, q.IsLiteral → text ∈ q.language → p.IsLiteral

/-- The text in front of `rest` is skipped. -/
def Skips (text rest : List Char) : Prop := ∃ p : Pattern, p.Skipped ∧ Longest p text rest

/-- In front of `rest` a token of this kind is read. -/
def Reads (kind : TokenKind) (rest : List Char) : Prop :=
  match kind.pattern? with
  | some p => Longest p kind.text rest
  | none => NoMatch (kind.text ++ rest)

/-! ## A piece takes in every match -/

namespace Piece

theorem prefix_of_span {p : Char → Bool} {cs : List Char} (h : (cs.span p).2 = [])
    (more : List Char) : cs <+: ((cs ++ more).span p).1 := by
  have hall : ∀ a ∈ cs, p a = true := by
    rw [List.span_eq_takeWhile_dropWhile] at h
    exact List.dropWhile_eq_nil_iff.1 h
  rw [List.span_eq_takeWhile_dropWhile, List.takeWhile_append_of_pos hall]
  exact List.prefix_append _ _

/-- A comment that is open stays open over all of its text, or is ended behind it. -/
theorem openComment_mono {cs : List Char} (h : splitAtCommentEnd? cs = none) (more : List Char) :
    '/' :: '*' :: cs <+: (afterSlash ('*' :: (cs ++ more))).text := by
  simp only [afterSlash]
  split
  · rename_i body rest hend
    have hall : cs ++ more = body ++ ['*', '/'] ++ rest := by
      rw [splitAtCommentEnd?_append hend]
      simp
    have hshort : cs <+: body ++ ['*', '/'] := by
      rcases List.prefix_or_prefix_of_prefix (List.prefix_append cs more)
        (hall ▸ List.prefix_append _ rest) with hshort | hlong
      · exact hshort
      · have hstop := (List.suffix_append body ['*', '/']).isInfix.trans hlong.isInfix
        exact (Pattern.mem_without.2 h hstop).elim
    exact List.cons_prefix_cons.2 ⟨rfl, List.cons_prefix_cons.2 ⟨rfl, hshort⟩⟩
  · exact List.prefix_append _ more

theorem afterSlash_mono {cs : List Char} (h : (afterSlash cs).rest = []) (hcs : cs ≠ [])
    (more : List Char) : '/' :: cs <+: (afterSlash (cs ++ more)).text := by
  unfold afterSlash at h
  split at h
  · exact List.cons_prefix_cons.2 ⟨rfl, List.cons_prefix_cons.2 ⟨rfl, prefix_of_span h more⟩⟩
  · rename_i cs
    split at h
    · rename_i body rest hend
      obtain rfl : rest = [] := h
      obtain rfl := splitAtCommentEnd?_append hend
      have hagain := splitAtCommentEnd?_replace hend more
      simp only [List.cons_append, List.append_assoc, List.nil_append, afterSlash, hagain]
      exact List.prefix_refl _
    · rename_i hopen
      exact openComment_mono hopen more
  · exact (hcs h).elim

/-- What is added to a literal that is open is read on from where the literal was left. -/
theorem spanStringBody_append_of_all {cs : List Char} (h : spanStringBody cs = (cs, []))
    (more : List Char) :
    spanStringBody (cs ++ more) = (cs ++ (spanStringBody more).1, (spanStringBody more).2) := by
  induction cs using spanStringBody.induct with
  | case1 => rfl
  | case2 c cs hbreak =>
    rw [spanStringBody, if_pos hbreak] at h
    cases h
  | case3 c cs hbreak body rest hlater ih =>
    rw [spanStringBody, if_neg hbreak, hlater] at h
    cases h
    rw [List.cons_append, List.cons_append, spanStringBody, if_neg hbreak, ih hlater]
    rfl
  | case4 c cs hne hstop =>
    rw [spanStringBody.eq_3 _ _ hne, if_pos hstop] at h
    cases h
  | case5 c cs hne hstop body rest hlater ih =>
    rw [spanStringBody.eq_3 _ _ hne, if_neg hstop, hlater] at h
    cases h
    have hc : c ≠ '\\' := by
      rintro rfl
      exact hstop rfl
    rw [List.cons_append, spanStringBody.eq_3 _ _ (fun _ _ h _ => hc h), if_neg hstop, ih hlater]
    rfl

theorem afterQuote_mono {cs : List Char} (h : (afterQuote cs).rest = [])
    (more : List Char) : '"' :: cs <+: (afterQuote (cs ++ more)).text := by
  unfold afterQuote at h
  split at h
  · rename_i body rest hbody
    obtain rfl : rest = [] := h
    obtain rfl := spanStringBody_append hbody
    have hagain := spanStringBody_replace hbody more
    rw [List.append_assoc, List.singleton_append, afterQuote, hagain]
    exact List.prefix_refl _
  · rename_i body rest _ hbody
    obtain rfl : rest = [] := h
    have hcs := spanStringBody_append hbody
    rw [List.append_nil] at hcs
    subst hcs
    rw [afterQuote, spanStringBody_append_of_all hbody]
    generalize spanStringBody more = found
    obtain ⟨added, rest⟩ := found
    split
    · rename_i heq
      cases heq
      exact (List.prefix_append ('"' :: cs) added).trans (List.prefix_append _ ['"'])
    · rename_i heq
      cases heq
      exact List.prefix_append ('"' :: cs) added

/-- A text that is one piece on its own stands at the front of the piece that is read where the
text is written on. -/
theorem next_mono {c : Char} {cs : List Char} (h : (next c cs).rest = []) (more : List Char) :
    c :: cs <+: (next c (cs ++ more)).text := by
  by_cases hcs : cs = []
  · subst hcs
    obtain ⟨t, htext, -⟩ := next_cuts c ([] ++ more)
    rw [htext]
    exact List.prefix_append [c] t
  rcases first_cases c with hblank | rfl | rfl | hdigit | hword | ⟨sign, hsign, rfl⟩ | hillegal
  · rw [next_blank hblank] at h ⊢
    exact List.cons_prefix_cons.2 ⟨rfl, prefix_of_span h more⟩
  · exact afterSlash_mono h hcs more
  · exact afterQuote_mono h more
  · rw [next_digit hdigit] at h ⊢
    exact List.cons_prefix_cons.2 ⟨rfl, prefix_of_span h more⟩
  · rw [next_word hword] at h ⊢
    show _ <+: (wordKind _).text
    rw [wordKind_text, String.toList_ofList]
    exact List.cons_prefix_cons.2 ⟨rfl, prefix_of_span h more⟩
  · rw [next_symbol hsign] at h
    exact (hcs h).elim
  · rw [hillegal] at h
    exact (hcs h).elim

/-- Whatever a pattern matches at the front of a text is part of the piece that is read there. -/
theorem prefix_of_mem {p : Pattern} {t : List Char} {c : Char} {cs : List Char}
    (h : t ∈ p.language) (hstart : t <+: c :: cs) : t <+: (next c cs).text := by
  obtain ⟨kind, ⟨d, u, rfl, hnext⟩, -⟩ := Pattern.isNext_of_matches h
  obtain ⟨rfl, more, rfl⟩ := List.cons_prefix_cons.1 hstart
  rw [List.append_nil] at hnext
  exact next_mono (congrArg Piece.rest hnext) more

end Piece

/-! ## Pieces are longest matches -/

theorem IsNext.unique {text text' rest rest' : List Char} {kind kind' : Option TokenKind}
    (h : IsNext text kind rest) (h' : IsNext text' kind' rest')
    (hsame : text ++ rest = text' ++ rest') : text = text' ∧ kind = kind' ∧ rest = rest' := by
  obtain ⟨c, cs, rfl, hnext⟩ := h
  obtain ⟨d, ds, rfl, hnext'⟩ := h'
  rw [List.cons_append, List.cons_append] at hsame
  obtain ⟨rfl, hrest⟩ := List.cons.inj hsame
  rw [hrest, hnext', Piece.mk.injEq] at hnext
  exact ⟨hnext.1.symm, hnext.2.1.symm, hnext.2.2.symm⟩

/-- The token that a text is by a pattern. -/
def Pattern.tokenOf (text : List Char) : Pattern → TokenKind
  | keyword word => .keyword word
  | symbol sign => .symbol sign
  | integer => .integer text
  | quoted => .quoted text.tail.dropLast
  | unclosedString => .unclosedString text.tail
  | identifier => .identifier (String.ofList text)
  | _ => .unclosedComment (text.drop 2)

theorem Pattern.tokenOf_text {p : Pattern} {kind : TokenKind} (h : p.Gives (some kind)) :
    p.tokenOf kind.text = kind := by
  cases kind <;> cases h <;> simp [tokenOf, TokenKind.text]

theorem Pattern.Gives.unique {p q : Pattern} {kind : TokenKind} (h : p.Gives (some kind))
    (h' : q.Gives (some kind)) : p = q :=
  Option.some.inj (h.symm.trans h')

/-- The text and the pattern tell what is said. -/
theorem Pattern.Gives.eq {p : Pattern} {text : List Char} {kind kind' : Option TokenKind}
    (h : p.Gives kind) (h' : p.Gives kind') (htext : ∀ k, kind = some k → text = k.text)
    (htext' : ∀ k, kind' = some k → text = k.text) : kind = kind' := by
  have hskipped {k : TokenKind} (hk : k.pattern? = some p) (hp : p.Skipped) : False := by
    cases k <;> cases hk <;> exact hp
  cases kind with
  | none =>
    cases kind' with
    | none => rfl
    | some k' => exact (hskipped h' h).elim
  | some k =>
    cases kind' with
    | none => exact (hskipped h h').elim
    | some k' =>
      rw [← tokenOf_text h, ← tokenOf_text h', ← htext k rfl, ← htext' k' rfl]

theorem IsNext.eq_text {text rest : List Char} {kind : Option TokenKind}
    (h : IsNext text kind rest) : ∀ k, kind = some k → text = k.text := by
  rintro k rfl
  exact h.text_eq

/-- What is read by one pattern of a text that another pattern matches as well: the same, unless
the text is a keyword and one of the patterns that of identifiers. -/
theorem Pattern.Gives.of_mem {p q : Pattern} {text rest : List Char} {kind : Option TokenKind}
    (h : IsNext text kind rest) (hp : p.Gives kind) (hmem : text ∈ p.language)
    (hword : p = .identifier → ∀ k : Keyword, text ≠ k.spelling.toList)
    (hq : text ∈ q.language) (hword' : q = .identifier → ∀ k : Keyword, text ≠ k.spelling.toList) :
    q.Gives kind := by
  have hnot {r : Pattern} {own : Option TokenKind} (hown : IsNext text own [])
      (hr : r = .identifier → ∀ k : Keyword, text ≠ k.spelling.toList) :
      ¬ (r = .identifier ∧ ∃ k, own = some (.keyword k)) := by
    rintro ⟨hident, k, rfl⟩
    exact hr hident k hown.text_eq
  obtain ⟨own, hown, hgives⟩ := Pattern.isNext_of_matches hmem
  obtain ⟨own', hown', hgives'⟩ := Pattern.isNext_of_matches hq
  obtain ⟨-, rfl, -⟩ := hown.unique hown' rfl
  replace hgives := hgives.resolve_right (hnot hown hword)
  replace hgives' := hgives'.resolve_right (hnot hown hword')
  rwa [hp.eq hgives h.eq_text hown.eq_text]

/-- No pattern matches a text whose first character starts nothing. -/
theorem Pattern.not_mem_of_illegal {p : Pattern} {c : Char}
    (h : ∀ cs, Piece.next c cs = Piece.token (.illegal c) cs) (cs : List Char) :
    c :: cs ∉ p.language := by
  intro hmem
  obtain ⟨own, ⟨d, u, hcs, hown⟩, hgives⟩ := isNext_of_matches hmem
  obtain ⟨rfl, rfl⟩ := List.cons.inj hcs
  rw [h] at hown
  obtain rfl : some (TokenKind.illegal c) = own := congrArg Piece.kind hown
  rcases hgives with hgives | ⟨-, k, hk⟩
  · cases hgives
  · cases hk

/-- A piece that is not an illegal character is the longest match there. -/
theorem IsNext.longest {text rest : List Char} {kind : Option TokenKind} (h : IsNext text kind rest)
    (hlegal : ∀ c, kind ≠ some (.illegal c)) : ∃ p : Pattern, p.Gives kind ∧ Longest p text rest := by
  have h' := h
  obtain ⟨c, cs, rfl, hnext⟩ := h'
  rcases Piece.next_matches c (cs ++ rest) with ⟨p, hgives, hmem, hword⟩ | hillegal
  · rw [hnext] at hgives hmem hword
    refine ⟨p, hgives, hmem, fun q t ht hstart => ?_, fun q hq hqmem => ?_⟩
    · rw [List.cons_append] at hstart
      have hpart := Piece.prefix_of_mem ht hstart
      rw [hnext] at hpart
      exact hpart.length_le
    · have hgives' : q.Gives kind := by
        refine hgives.of_mem h hmem hword hqmem ?_
        rintro rfl
        exact hq.elim
      cases kind with
      | none => cases q <;> first | exact hq.elim | exact hgives'.elim
      | some k => rwa [hgives.unique hgives']
  · rw [hillegal] at hnext
    exact (hlegal c (congrArg Piece.kind hnext).symm).elim

/-- A longest match is the piece there. -/
theorem Longest.isNext {p : Pattern} {text rest : List Char} (h : Longest p text rest) :
    ∃ kind, p.Gives kind ∧ IsNext text kind rest := by
  have hword : p = .identifier → ∀ k : Keyword, text ≠ k.spelling.toList := by
    rintro rfl k hk
    exact (h.preferred (.keyword k) trivial hk).elim
  obtain ⟨-, ⟨c, cs, rfl, -⟩, -⟩ := Pattern.isNext_of_matches h.mem
  have hpart : c :: cs <+: (Piece.next c (cs ++ rest)).text :=
    Piece.prefix_of_mem h.mem (List.prefix_append (c :: cs) rest)
  obtain ⟨hnext, happend⟩ := isNext_next c (cs ++ rest)
  rcases Piece.next_matches c (cs ++ rest) with ⟨q, hq, hmem, hwordq⟩ | hillegal
  · have hlength := h.longest q _ hmem ⟨_, happend⟩
    have htext := hpart.eq_of_length_le hlength
    rw [← htext] at hnext happend hmem hwordq
    obtain hrest := List.append_cancel_left happend
    rw [hrest] at hnext
    exact ⟨_, hq.of_mem hnext hmem hwordq h.mem hword, hnext⟩
  · exact (Pattern.not_mem_of_illegal hillegal cs h.mem).elim

theorem skips_iff {text rest : List Char} : Skips text rest ↔ IsNext text none rest := by
  constructor
  · rintro ⟨p, hskipped, hlongest⟩
    obtain ⟨kind, hgives, hnext⟩ := hlongest.isNext
    cases kind with
    | none => exact hnext
    | some k => cases k <;> cases hgives <;> exact hskipped.elim
  · intro h
    obtain ⟨p, hgives, hlongest⟩ := h.longest nofun
    exact ⟨p, hgives, hlongest⟩

theorem noMatch_iff {c : Char} {rest : List Char} :
    NoMatch (c :: rest) ↔ IsNext [c] (some (.illegal c)) rest := by
  constructor
  · intro h
    obtain ⟨hnext, happend⟩ := isNext_next c rest
    rcases Piece.next_matches c rest with ⟨p, -, hmem, -⟩ | hillegal
    · exact (h p _ hmem ⟨_, happend⟩).elim
    · exact ⟨c, [], rfl, hillegal rest⟩
  · rintro ⟨d, cs, hcs, hnext⟩ p t ht hstart
    obtain ⟨rfl, rfl⟩ := List.cons.inj hcs
    replace hnext : Piece.next c rest = ⟨[c], some (.illegal c), rest⟩ := hnext
    obtain ⟨-, ⟨d, u, rfl, -⟩, -⟩ := Pattern.isNext_of_matches ht
    obtain ⟨rfl, -⟩ := List.cons_prefix_cons.1 hstart
    rcases Piece.next_matches d rest with ⟨q, hgives, -⟩ | hillegal
    · rw [hnext] at hgives
      cases hgives
    · exact Pattern.not_mem_of_illegal hillegal u ht

/-- What a piece says is what the longest match there gives. -/
theorem reads_iff {kind : TokenKind} {rest : List Char} :
    Reads kind rest ↔ IsNext kind.text (some kind) rest := by
  unfold Reads
  cases hpattern : kind.pattern? with
  | some p =>
    constructor
    · intro h
      obtain ⟨own, hgives, hnext⟩ := h.isNext
      have hsame : own = some kind := by
        have hpieces : Pattern.Gives p (some kind) := hpattern
        refine hgives.eq hpieces hnext.eq_text ?_
        rintro k ⟨⟩
        rfl
      rwa [hsame] at hnext
    · intro h
      obtain ⟨q, hgives, hlongest⟩ := h.longest (by rintro c ⟨⟩; cases hpattern)
      rwa [hgives.unique hpattern] at hlongest
  | none =>
    cases kind with
    | illegal c => exact noMatch_iff
    | _ => cases hpattern

/-! ## Taking a source apart -/

/-- A gap between tokens: nothing but longest matches that are skipped. -/
inductive Gap (rest : List Char) : List Char → Prop where
  | nil : Gap rest []
  | skip {text more : List Char} (h : Skips text (more ++ rest)) (hmore : Gap rest more) :
      Gap rest (text ++ more)

/-- The text, which starts at the offset, is a gap and a token, again and again, and a gap at its
end. -/
inductive Tokenises : Nat → List Char → List Token → Prop where
  | last {offset : Nat} {gap : List Char} (hgap : Gap [] gap) : Tokenises offset gap []
  | token {offset : Nat} {gap rest : List Char} {kind : TokenKind} {ts : List Token}
      (hgap : Gap (kind.text ++ rest) gap) (h : Reads kind rest)
      (hlater : Tokenises (offset + byteLength (gap ++ kind.text)) rest ts) :
      Tokenises offset (gap ++ (kind.text ++ rest))
        (⟨kind, Span.ofRange (offset + byteLength gap)
          (offset + byteLength (gap ++ kind.text))⟩ :: ts)

theorem Gap.scans {rest gap : List Char} (h : Gap rest gap) (offset : Nat) :
    Scans rest offset gap [] := by
  induction h generalizing offset with
  | nil => exact .nil offset
  | skip h _ ih => exact .separator (skips_iff.1 h) (ih _)

theorem Tokenises.scans {offset : Nat} {cs : List Char} {ts : List Token}
    (h : Tokenises offset cs ts) : Scans [] offset cs ts := by
  induction h with
  | last hgap => exact hgap.scans _
  | @token offset gap rest kind ts hgap h hlater ih =>
    rw [byteLength_append, ← Nat.add_assoc] at ih ⊢
    have hnext := reads_iff.1 h
    rw [← List.append_nil rest] at hnext
    have hskipped := hgap.scans offset
    rw [← List.append_nil (kind.text ++ rest)] at hskipped
    exact hskipped.append (.token hnext ih)

/-- Skipped text in front of a source goes into its first gap. -/
theorem Tokenises.skip {offset : Nat} {text cs : List Char} {ts : List Token}
    (h : Skips text cs) (hlater : Tokenises (offset + byteLength text) cs ts) :
    Tokenises offset (text ++ cs) ts := by
  cases hlater with
  | last hgap => exact .last (.skip (by rwa [List.append_nil]) hgap)
  | @token _ gap rest kind ts hgap hread hlater =>
    have hbytes (behind : List Char) : offset + byteLength text + byteLength behind =
        offset + byteLength (text ++ behind) := by rw [byteLength_append, Nat.add_assoc]
    rw [hbytes, ← List.append_assoc] at hlater
    rw [hbytes, hbytes, ← List.append_assoc text gap, ← List.append_assoc text gap]
    exact .token (.skip h hgap) hread hlater

theorem Scans.tokenises {offset : Nat} {cs : List Char} {ts : List Token}
    (h : Scans [] offset cs ts) : Tokenises offset cs ts := by
  induction h with
  | nil offset => exact .last .nil
  | separator hnext _ ih =>
    rw [List.append_nil] at hnext
    exact .skip (skips_iff.2 hnext) ih
  | token hnext _ ih =>
    rw [List.append_nil] at hnext
    obtain rfl := hnext.text_eq
    exact .token .nil (reads_iff.2 hnext) ih

theorem tokenises_iff {source : List Char} {tokens : List Token} :
    Tokenises 0 source tokens ↔ tokens = Token.scan source :=
  ⟨fun h => (scan_eq_iff.2 h.scans).symm, fun h => (scan_eq_iff.1 h.symm).tokenises⟩

/-! ## The tokens of a source -/

/-- A token of a source: what is read at its place there. -/
structure ReadAt (source : List Char) (t : Token) : Prop where
  isPart : t.span.IsPart source
  /-- The text at the span is that of the token, and the token is read there. -/
  reads : ∃ before rest, source = before ++ (t.kind.text ++ rest) ∧
    t.span.start.toNat = byteLength before ∧
    t.span.stop.toNat = byteLength (before ++ t.kind.text) ∧ Reads t.kind rest
  not_keyword : ∀ name k, t.kind = .identifier name → name ≠ Keyword.spelling k
  to_end : ∀ body, t.kind = .unclosedComment body → t.span.stop.toNat = byteLength source

theorem readAt_of_mem_scan {source : List Char} (hsize : byteLength source < 4294967296) {t : Token}
    (ht : t ∈ Token.scan source) : ReadAt source t := by
  have hpart := isPart_of_mem_scan hsize ht
  obtain ⟨ts, us, hscan⟩ := List.append_of_mem ht
  obtain ⟨before, text, rest, rfl, -, hnext, -, hspan⟩ := (scan_eq_iff.1 hscan).cut_at
  obtain ⟨kind, span⟩ := t
  obtain rfl : span = _ := hspan
  rw [List.append_nil] at hnext
  obtain rfl : text = kind.text := hnext.text_eq
  have hreads : Reads kind rest := reads_iff.2 hnext
  rw [Nat.zero_add, Nat.zero_add] at hpart ⊢
  have hshort := hsize
  rw [byteLength_append, byteLength_append] at hshort
  have hstop : (wordOf (byteLength (before ++ kind.text))).toNat =
      byteLength (before ++ kind.text) := by
    apply toNat_wordOf
    rw [byteLength_append]
    omega
  refine ⟨hpart, ⟨before, rest, rfl, toNat_wordOf (by omega), hstop, hreads⟩, ?_, ?_⟩
  · rintro name k hkind hname
    obtain rfl : kind = .identifier name := hkind
    subst hname
    exact (show Longest _ _ _ from hreads).preferred (.keyword k) trivial rfl
  · rintro body hkind
    obtain rfl : kind = .unclosedComment body := hkind
    obtain rfl := hnext.unclosedComment_rest
    rw [List.append_nil]
    exact hstop

/-- **Scanning is longest match.** There is one way to take a source apart into gaps and tokens,
such that each token and each piece of a gap is the longest text that a pattern matches there, and
it is what scanning finds.  In a source of fewer than 2^32 bytes the spans of the tokens are parts
of the source, none of them empty, one behind the other; at each of them the text of the token
stands and the token is read.  No identifier is a keyword, a comment that is open goes on to the
end of the source, and an illegal character is one at which no pattern matches. -/
theorem scan_is_longest_match (source : List Char) (hsize : byteLength source < 2 ^ 32) :
    (∀ tokens, Tokenises 0 source tokens ↔ tokens = Token.scan source) ∧
      InOrder (Token.scan source) ∧ ∀ t ∈ Token.scan source, ReadAt source t :=
  ⟨fun _ => tokenises_iff, inOrder_scan hsize, fun _ => readAt_of_mem_scan hsize⟩

/-- A keyword and an identifier that starts like it, a comment that is closed, a quotient, a comment
up to the end of its line, a literal whose escape is cut off, a character outside the language and
a comment that is open. -/
theorem scan_is_longest_match_mixed :
    Tokenises 0 "int intx/**/ / //y\n\"a\\\n\u00e9/*/".toList
      [⟨.keyword .intWord, ⟨0, 3⟩⟩, ⟨.identifier "intx", ⟨4, 8⟩⟩, ⟨.symbol .slash, ⟨13, 14⟩⟩,
        ⟨.unclosedString ['a'], ⟨19, 21⟩⟩, ⟨.illegal '\\', ⟨21, 22⟩⟩,
        ⟨.illegal '\u00e9', ⟨23, 25⟩⟩, ⟨.unclosedComment ['/'], ⟨25, 28⟩⟩] := by
  have hsize : byteLength "int intx/**/ / //y\n\"a\\\n\u00e9/*/".toList < 2 ^ 32 := by decide
  refine ((scan_is_longest_match _ hsize).1 _).2 ?_
  decide +kernel

end ReplEngine
