import ReplEngine.Proofs.Lexing.Lines
set_option autoImplicit false

/-!
# Where tokens stand in a source

Both ends of a token are offsets at which the source can be cut: not inside a character, and not
inside a CR LF (`isPart_of_mem_scan`).  The second holds because a token that runs over a line
break runs to the end of the source.  Tokens follow one another without overlap
(`inOrder_scan`).

Offsets are exact only in sources of fewer than 2^32 bytes; in longer ones they are held.
-/

namespace ReplEngine

open Text

/-! ## Cutting a source -/

/-- The offset is at an end of the source or between two of its characters, which are not those
of a CR LF. -/
def Text.IsCut (source : List Char) (offset : Nat) : Prop :=
  ∃ before after, source = before ++ after ∧ byteLength before = offset ∧
    ¬ SplitsBreak before after

theorem Text.IsCut.le {source : List Char} {offset : Nat} (h : IsCut source offset) :
    offset ≤ byteLength source := by
  obtain ⟨before, after, rfl, rfl, -⟩ := h
  rw [byteLength_append]
  exact Nat.le_add_right _ _

theorem Text.isCut_zero (source : List Char) : IsCut source 0 := by
  refine ⟨[], source, rfl, rfl, ?_⟩
  rintro ⟨hlast, -⟩
  cases hlast

/-- Two ways to cut one text, the first cut in front of the second. -/
theorem Text.exists_between {before after before' after' : List Char}
    (h : before ++ after = before' ++ after') (hle : byteLength before ≤ byteLength before') :
    ∃ between, before' = before ++ between ∧ after = between ++ after' := by
  rcases List.append_eq_append_iff.mp h with hbetween | ⟨rest, rfl, rfl⟩
  · exact hbetween
  · rw [byteLength_append] at hle
    obtain rfl := eq_nil_of_byteLength (show byteLength rest = 0 by omega)
    exact ⟨[], by rw [List.append_nil, List.append_nil], rfl⟩

/-- The span is a part of the source that can be cut out. -/
structure Span.IsPart (s : Span) (source : List Char) : Prop where
  start_le_stop : s.start ≤ s.stop
  stop_le : s.stop.toNat ≤ byteLength source
  start_isCut : IsCut source s.start.toNat
  stop_isCut : IsCut source s.stop.toNat

theorem Span.isPart_point {source : List Char} {offset : UInt32}
    (h : IsCut source offset.toNat) : (Span.point offset).IsPart source :=
  ⟨UInt32.le_refl _, h.le, h, h⟩

/-! ## Breaks in tokens -/

/-- A class of characters without CR and LF has no break in it. -/
theorem isBreak_eq_false {p : Char → Bool} (hcr : p '\r' = false) (hlf : p '\n' = false) {d : Char}
    (h : p d = true) : isBreak d = false := by
  cases hbreak : isBreak d with
  | false => rfl
  | true =>
    simp only [isBreak, Bool.or_eq_true, beq_iff_eq] at hbreak
    rcases hbreak with rfl | rfl
    · rw [hcr] at h
      cases h
    · rw [hlf] at h
      cases h

/-- A string literal stops in front of a break. -/
theorem spanStringBody_unbroken (cs : List Char) :
    ∀ d ∈ (spanStringBody cs).1, isBreak d = false := by
  induction cs using spanStringBody.induct with
  | case1 => simp [spanStringBody]
  | case2 c cs hbreak => simp [spanStringBody, hbreak]
  | case3 c cs hbreak body rest hlater ih =>
    rw [hlater] at ih
    rw [spanStringBody, if_neg hbreak, hlater]
    intro d hd
    simp only [List.mem_cons] at hd
    rcases hd with rfl | rfl | hd
    · rfl
    · exact Bool.not_eq_true _ ▸ hbreak
    · exact ih d hd
  | case4 c cs hne hstop =>
    rw [spanStringBody.eq_3 _ _ hne, if_pos hstop]
    simp
  | case5 c cs hne hstop body rest hlater ih =>
    rw [hlater] at ih
    rw [spanStringBody.eq_3 _ _ hne, if_neg hstop, hlater]
    intro d hd
    rcases List.mem_cons.mp hd with rfl | hd
    · simp only [Bool.or_eq_true, not_or, Bool.not_eq_true] at hstop
      exact hstop.2
    · exact ih d hd

namespace Piece

/-- The piece ends the text, or there is no break in it. -/
def Unbroken (p : Piece) : Prop := p.rest = [] ∨ ∀ d ∈ p.text, isBreak d = false

theorem afterSlash_unbroken {cs : List Char} {kind : TokenKind}
    (h : (afterSlash cs).kind = some kind) : (afterSlash cs).Unbroken := by
  unfold afterSlash at h ⊢
  split at h
  · cases h
  · split at h
    · cases h
    · exact .inl rfl
  · exact .inr (by simp [token, TokenKind.text, Symbol.char, isBreak])

theorem afterQuote_unbroken (cs : List Char) : (afterQuote cs).Unbroken := by
  have hbody := spanStringBody_unbroken cs
  unfold afterQuote
  split
  · rename_i body rest heq
    rw [heq] at hbody
    refine .inr fun d hd => ?_
    simp only [token, TokenKind.text, List.cons_append, List.mem_cons, List.mem_append,
      List.not_mem_nil, or_false] at hd
    rcases hd with rfl | hd | rfl
    · rfl
    · exact hbody d hd
    · rfl
  · rename_i body rest _ heq
    rw [heq] at hbody
    refine .inr fun d hd => ?_
    rcases List.mem_cons.mp hd with rfl | hd
    · rfl
    · exact hbody d hd

/-- Only the end of the text stops a token that runs over a break. -/
theorem next_unbroken {c : Char} {cs : List Char} {kind : TokenKind}
    (h : (next c cs).kind = some kind) : (next c cs).Unbroken := by
  have hrun {p : Char → Bool} (hp : ∀ d, p d = true → isBreak d = false) (hc : p c = true) :
      ∀ d ∈ c :: (cs.span p).1, isBreak d = false := by
    intro d hd
    rcases List.mem_cons.mp hd with rfl | hd
    · exact hp d hc
    · rw [List.span_eq_takeWhile_dropWhile] at hd
      exact hp d (List.all_eq_true.1 List.all_takeWhile d hd)
  unfold next at h ⊢
  split at h
  · cases h
  rename_i hseparator
  rw [if_neg hseparator]
  split at h
  · rename_i hslash
    rw [if_pos hslash]
    exact afterSlash_unbroken h
  rename_i hslash
  rw [if_neg hslash]
  split at h
  · rename_i hquote
    rw [if_pos hquote]
    exact afterQuote_unbroken cs
  rename_i hquote
  rw [if_neg hquote]
  split at h
  · rename_i hdigit
    rw [if_pos hdigit]
    exact .inr (hrun (fun _ => isBreak_eq_false rfl rfl) hdigit)
  rename_i hdigit
  rw [if_neg hdigit]
  split at h
  · rename_i hword
    rw [if_pos hword]
    refine .inr fun d hd => ?_
    replace hd : d ∈ (wordKind (String.ofList (c :: (cs.span isWordPart).1))).text := hd
    rw [wordKind_text, String.toList_ofList] at hd
    exact hrun (fun _ => isBreak_eq_false rfl rfl) (by rw [isWordPart, hword, Bool.true_or]) d hd
  rename_i hword
  rw [if_neg hword]
  have hone : isBreak c = false :=
    isBreak_eq_false (p := fun d => !isSeparator d) rfl rfl (by simpa using hseparator)
  split
  · rename_i sign hsign
    refine .inr fun d hd => ?_
    rw [List.mem_singleton.mp hd, ofChar?_eq_some hsign]
    exact hone
  · refine .inr fun d hd => ?_
    rw [List.mem_singleton.mp hd]
    exact hone

end Piece

/-- A source can be cut in front of a token. -/
theorem IsNext.not_splitsBreak_front {text rest before : List Char} {kind : TokenKind}
    (h : IsNext text (some kind) rest) (after : List Char) :
    ¬ SplitsBreak before (text ++ after) := by
  obtain ⟨c, cs, rfl, hnext⟩ := h
  rintro ⟨-, hhead⟩
  cases hhead
  cases congrArg Piece.kind hnext

/-- A source can be cut behind a token. -/
theorem IsNext.not_splitsBreak_behind {text rest : List Char} {kind : TokenKind}
    (h : IsNext text (some kind) rest) (before : List Char) :
    ¬ SplitsBreak (before ++ text) rest := by
  obtain ⟨c, cs, rfl, hnext⟩ := h
  rintro ⟨hlast, hhead⟩
  have hunbroken := Piece.next_unbroken (congrArg Piece.kind hnext)
  rw [hnext] at hunbroken
  rcases hunbroken with hend | hunbroken
  · rw [show rest = [] from hend] at hhead
    cases hhead
  · rw [List.getLast?_append, List.getLast?_cons, Option.some_or, ← List.getLast?_cons] at hlast
    cases hunbroken _ (List.mem_of_getLast? hlast)

/-! ## The tokens of a source -/

theorem isPart_of_mem_scan {source : List Char} (hsize : byteLength source < 4294967296)
    {t : Token} (ht : t ∈ Token.scan source) : t.span.IsPart source := by
  obtain ⟨ts, us, hscan⟩ := List.append_of_mem ht
  have hscans := scan_eq_iff.mp (rfl : Token.scan source = _)
  rw [hscan] at hscans
  obtain ⟨body, text, behind, rfl, -, hnext, -, hspan⟩ := hscans.cut_at
  rw [List.append_nil] at hnext
  rw [byteLength_append, byteLength_append] at hsize
  rw [Nat.zero_add, Nat.zero_add, byteLength_append] at hspan
  have hstart : t.span.start.toNat = byteLength body := by
    rw [hspan]
    exact toNat_wordOf (by omega)
  have hstop : t.span.stop.toNat = byteLength (body ++ text) := by
    rw [hspan, byteLength_append]
    exact toNat_wordOf (by omega)
  refine ⟨?_, ?_, ?_, ?_⟩
  · rw [UInt32.le_iff_toNat_le, hstart, hstop, byteLength_append]
    omega
  · rw [hstop, ← List.append_assoc, byteLength_append _ behind]
    omega
  · exact ⟨body, text ++ behind, rfl, hstart.symm, hnext.not_splitsBreak_front behind⟩
  · exact ⟨body ++ text, behind, (List.append_assoc ..).symm, hstop.symm,
      hnext.not_splitsBreak_behind body⟩

/-- A token is on the line after the breaks that end at its start or in front of it. -/
theorem lineAt_of_mem_scan {source : List Char} (hsize : byteLength source < 4294967296)
    {t : Token} (ht : t ∈ Token.scan source) :
    ((LineTable.ofSource source).lineAt t.span.start).toNat =
      1 + breaksBy t.span.start.toNat source := by
  have hscans := scan_eq_iff.mp (rfl : Token.scan source = _)
  obtain ⟨start, stop, hspan, -, hlt, hstop⟩ := hscans.bounds t ht
  have hbreaks := breaksBy_le start source
  rw [hspan]
  show ((LineTable.ofSource source).lineAt (wordOf start)).toNat =
    1 + breaksBy (wordOf start).toNat source
  rw [lineAt_ofSource hsize (by omega), toNat_wordOf (by omega), toNat_wordOf (by omega),
    Nat.add_comm]

/-- The tokens stand one behind the other, and none of them is empty. -/
structure InOrder (ts : List Token) : Prop where
  wide : ∀ t ∈ ts, t.span.start < t.span.stop
  apart : ts.Pairwise fun t u => t.span.stop ≤ u.span.start

theorem InOrder.piece {ts us : List Token} (h : InOrder ts) (hus : us <:+: ts) : InOrder us :=
  ⟨fun t ht => h.wide t (hus.subset ht), h.apart.sublist hus.sublist⟩

theorem Scans.inOrder {rest cs : List Char} {offset : Nat} {ts : List Token}
    (h : Scans rest offset cs ts) (hsize : offset + byteLength cs < 4294967296) : InOrder ts := by
  induction h with
  | nil => exact ⟨nofun, .nil⟩
  | separator _ _ ih =>
    rw [byteLength_append] at hsize
    exact ih (by omega)
  | @token offset text cs kind ts hnext hlater ih =>
    rw [byteLength_append] at hsize
    have hpos := hnext.byteLength_pos
    obtain ⟨hwide, hapart⟩ := ih (by omega)
    refine ⟨?_, List.pairwise_cons.mpr ⟨?_, hapart⟩⟩
    · refine List.forall_mem_cons.mpr ⟨?_, hwide⟩
      show wordOf offset < wordOf (offset + byteLength text)
      rw [UInt32.lt_iff_toNat_lt, toNat_wordOf (by omega), toNat_wordOf (by omega)]
      omega
    · intro u hu
      obtain ⟨start, stop, hspan, hstart, hlt, hstop⟩ := hlater.bounds u hu
      rw [hspan]
      show wordOf (offset + byteLength text) ≤ wordOf start
      rw [UInt32.le_iff_toNat_le, toNat_wordOf (by omega), toNat_wordOf (by omega)]
      exact hstart

theorem inOrder_scan {source : List Char} (hsize : byteLength source < 4294967296) :
    InOrder (Token.scan source) :=
  (scan_eq_iff.mp (rfl : Token.scan source = _)).inOrder (by omega)

end ReplEngine
