import ReplEngine.Proofs.Lexing.Pieces
set_option autoImplicit false

/-!
# Scanning a part of a source

`Scans rest offset cs ts` says that `cs`, which stands at the offset in front of `rest`, is read
piece by piece as the tokens `ts`.  What stands behind it is part of the statement, so two such
facts can be put together without a word or a number being cut in two.

Scanning can be moved (`Scans.moved`), its end can be replaced (`Scans.replace`), and it can be
cut in front of its first token and on both sides of any other.
-/

namespace ReplEngine

open Text

/-! ## Moving positions -/

/-- An offset some bytes later, held at the largest word. -/
def later (k : Nat) (offset : UInt32) : UInt32 := wordOf (offset.toNat + k)

/-- An offset some bytes earlier, held at zero. -/
def earlier (k : Nat) (offset : UInt32) : UInt32 := wordOf (offset.toNat - k)

/-- The span with both of its bounds moved. -/
def Span.map (f : UInt32 → UInt32) (s : Span) : Span := ⟨f s.start, f s.stop⟩

/-- The token with its span moved. -/
def Token.map (f : UInt32 → UInt32) (t : Token) : Token := ⟨t.kind, t.span.map f⟩

@[simp] theorem Token.map_kind (f : UInt32 → UInt32) (t : Token) : (t.map f).kind = t.kind := rfl

@[simp] theorem Token.map_span (f : UInt32 → UInt32) (t : Token) :
    (t.map f).span = t.span.map f := rfl

theorem later_wordOf (k n : Nat) : later k (wordOf n) = wordOf (n + k) := by
  apply UInt32.toNat.inj
  unfold later
  rw [wordOf_toNat, wordOf_toNat, wordOf_toNat]
  omega

theorem later_later (j k : Nat) (offset : UInt32) :
    later k (later j offset) = later (j + k) offset := by
  show later k (wordOf (offset.toNat + j)) = wordOf (offset.toNat + (j + k))
  rw [later_wordOf, Nat.add_assoc]

theorem later_zero (offset : UInt32) : later 0 offset = offset := by
  have hlt := offset.toNat_lt
  apply UInt32.toNat.inj
  unfold later
  rw [wordOf_toNat]
  omega

theorem toNat_wordOf {n : Nat} (h : n < 4294967296) : (wordOf n).toNat = n := by
  rw [wordOf_toNat]
  omega

/-- Moving back undoes moving forth where no offset is held. -/
theorem earlier_later {k n : Nat} (h : n + k < 4294967296) :
    earlier k (later k (wordOf n)) = wordOf n := by
  unfold earlier
  rw [later_wordOf, toNat_wordOf h, Nat.add_sub_cancel]

theorem Span.map_ofRange (k start stop : Nat) :
    (Span.ofRange start stop).map (later k) = Span.ofRange (start + k) (stop + k) := by
  unfold Span.map Span.ofRange
  rw [later_wordOf, later_wordOf]

/-! ## The relation -/

/-- `cs` at the offset in front of `rest` is read as the tokens `ts`. -/
inductive Scans (rest : List Char) : Nat → List Char → List Token → Prop where
  | nil (offset : Nat) : Scans rest offset [] []
  | separator {offset : Nat} {text cs : List Char} {ts : List Token}
      (h : IsNext text none (cs ++ rest)) (hlater : Scans rest (offset + byteLength text) cs ts) :
      Scans rest offset (text ++ cs) ts
  | token {offset : Nat} {text cs : List Char} {kind : TokenKind} {ts : List Token}
      (h : IsNext text (some kind) (cs ++ rest))
      (hlater : Scans rest (offset + byteLength text) cs ts) :
      Scans rest offset (text ++ cs)
        (⟨kind, Span.ofRange offset (offset + byteLength text)⟩ :: ts)

theorem IsNext.length_pos {text rest : List Char} {kind : Option TokenKind}
    (h : IsNext text kind rest) : 0 < text.length := by
  obtain ⟨c, cs, rfl, -⟩ := h
  exact Nat.zero_lt_succ _

theorem scanWithin_scans (pieces offset : Nat) {cs : List Char} (h : cs.length ≤ pieces) :
    Scans [] offset cs (Token.scanWithin pieces offset cs) := by
  induction pieces generalizing offset cs with
  | zero =>
    cases cs with
    | nil => exact .nil offset
    | cons c cs => simp at h
  | succ pieces ih =>
    cases cs with
    | nil => exact .nil offset
    | cons c cs =>
      obtain ⟨hnext, happend⟩ := isNext_next c cs
      have hshort : (Piece.next c cs).rest.length ≤ pieces := by
        have hlength := congrArg List.length happend
        have hpos := hnext.length_pos
        rw [List.length_append] at hlength
        omega
      have hlater := ih (offset + byteLength (Piece.next c cs).text) hshort
      rw [Token.scanWithin, ← happend]
      split
      · rename_i kind hkind
        rw [hkind] at hnext
        exact .token (by rwa [List.append_nil]) hlater
      · rename_i hkind
        rw [hkind] at hnext
        exact .separator (by rwa [List.append_nil]) hlater

theorem Scans.scanWithin_eq {offset : Nat} {cs : List Char} {ts : List Token}
    (h : Scans [] offset cs ts) {pieces : Nat} (hpieces : cs.length ≤ pieces) :
    Token.scanWithin pieces offset cs = ts := by
  induction h generalizing pieces with
  | nil => cases pieces <;> rfl
  | separator hnext _ ih | token hnext _ ih =>
    have hpos := hnext.length_pos
    obtain ⟨c, t, rfl, hnext⟩ := hnext
    rw [List.length_append] at hpieces
    obtain ⟨pieces, rfl⟩ : ∃ n, pieces = n + 1 := ⟨pieces - 1, by omega⟩
    rw [List.append_nil] at hnext
    rw [List.cons_append, Token.scanWithin, hnext, ih (by omega)]

theorem scan_eq_iff {cs : List Char} {ts : List Token} : Token.scan cs = ts ↔ Scans [] 0 cs ts := by
  constructor
  · intro h
    rw [← h]
    exact scanWithin_scans _ 0 (Nat.le_refl _)
  · intro h
    exact h.scanWithin_eq (Nat.le_refl _)

/-- Identifiers are made of word characters only. -/
theorem Scans.identifier {rest cs : List Char} {offset : Nat} {ts : List Token}
    (h : Scans rest offset cs ts) {name : String} (span : Span)
    (hmem : ⟨.identifier name, span⟩ ∈ ts) : ∀ d ∈ name.toList, isWordPart d = true := by
  induction h with
  | nil => cases hmem
  | separator _ _ ih => exact ih hmem
  | token hnext _ ih =>
    rcases List.mem_cons.mp hmem with hhead | hlater
    · cases hhead
      obtain ⟨c, t, -, hpiece⟩ := hnext
      exact next_identifier (congrArg Piece.kind hpiece)
    · exact ih hlater

/-! ## Putting together, moving, replacing -/

theorem Scans.append {rest cs bs : List Char} {offset : Nat} {ts us : List Token}
    (h : Scans (bs ++ rest) offset cs ts) (h' : Scans rest (offset + byteLength cs) bs us) :
    Scans rest offset (cs ++ bs) (ts ++ us) := by
  induction h with
  | nil => exact h'
  | separator hnext _ ih =>
    rw [List.append_assoc]
    refine .separator (by rwa [List.append_assoc]) (ih ?_)
    rwa [byteLength_append, ← Nat.add_assoc] at h'
  | token hnext _ ih =>
    rw [List.append_assoc]
    refine .token (by rwa [List.append_assoc]) (ih ?_)
    rwa [byteLength_append, ← Nat.add_assoc] at h'

/-- The same text further on has the same tokens further on. -/
theorem Scans.moved {rest cs : List Char} {offset : Nat} {ts : List Token}
    (h : Scans rest offset cs ts) (k : Nat) :
    Scans rest (offset + k) cs (ts.map (Token.map (later k))) := by
  induction h with
  | nil offset => exact .nil _
  | @separator offset text _ _ hnext _ ih =>
    rw [Nat.add_right_comm] at ih
    exact .separator hnext ih
  | @token offset text _ kind ts hnext _ ih =>
    rw [Nat.add_right_comm] at ih
    have hspan := Span.map_ofRange k offset (offset + byteLength text)
    rw [Nat.add_right_comm offset] at hspan
    rw [List.map_cons, Token.map, hspan]
    exact .token hnext ih

/-- What stands behind may be replaced by a text with the same first character. -/
theorem Scans.replace {cs r : List Char} {d : Char} {offset : Nat} {ts : List Token}
    (h : Scans (d :: r) offset cs ts)
    (hclosed : ∀ t ∈ ts, ¬ Piece.IsUnclosedString (some t.kind)) (r' : List Char) :
    Scans (d :: r') offset cs ts := by
  have hpiece {text cs : List Char} {kind : Option TokenKind}
      (hnext : IsNext text kind (cs ++ d :: r)) (hkind : ¬ Piece.IsUnclosedString kind) :
      IsNext text kind (cs ++ d :: r') := by
    cases cs with
    | nil => exact hnext.replace hkind r'
    | cons c cs => exact hnext.replace hkind _
  induction h with
  | nil offset => exact .nil _
  | separator hnext _ ih => exact .separator (hpiece hnext (fun h => h)) (ih hclosed)
  | token hnext _ ih =>
    exact .token (hpiece hnext (hclosed _ List.mem_cons_self))
      (ih fun t ht => hclosed t (List.mem_cons_of_mem _ ht))

/-- What stands behind a plain character may be replaced, whatever is in front of it. -/
theorem Scans.replace_plain {cs r : List Char} {d : Char} {offset : Nat} {ts : List Token}
    (h : Scans (d :: r) offset cs ts) (hd : IsPlain d) (r' : List Char) :
    Scans (d :: r') offset cs ts := by
  induction h with
  | nil offset => exact .nil _
  | separator hnext _ ih => exact .separator (hnext.replace_plain hd r') ih
  | token hnext _ ih => exact .token (hnext.replace_plain hd r') ih

/-- What is read as nothing in front of a text is read as nothing on its own. -/
theorem Scans.front {rest cs : List Char} {offset : Nat} (h : Scans rest offset cs []) :
    Scans [] offset cs [] := by
  generalize hnone : ([] : List Token) = ts at h
  induction h with
  | nil offset => exact .nil offset
  | separator hnext _ ih =>
    refine .separator ?_ (ih hnone)
    rw [List.append_nil]
    exact hnext.front
  | token => cases hnone

/-! ## Cutting -/

/-- What stands in front of the first token is read as nothing. -/
theorem Scans.cut_first {rest cs : List Char} {offset : Nat} {t : Token} {ts : List Token}
    (h : Scans rest offset cs (t :: ts)) :
    ∃ before c body, cs = before ++ c :: body ∧ Scans (c :: body ++ rest) offset before [] ∧
      Scans rest (offset + byteLength before) (c :: body) (t :: ts) ∧
      t.span.start = wordOf (offset + byteLength before) ∧ isSeparator c = false := by
  generalize hall : t :: ts = all at h
  induction h with
  | nil => cases hall
  | @separator offset text cs _ hnext _ ih =>
    obtain ⟨before, c, body, rfl, hbefore, hbody, hstart, hc⟩ := ih hall
    refine ⟨text ++ before, c, body, by rw [List.append_assoc], ?_, ?_, ?_, hc⟩
    · exact .separator (by rwa [List.append_assoc] at hnext) hbefore
    · rwa [byteLength_append, ← Nat.add_assoc]
    · rwa [byteLength_append, ← Nat.add_assoc]
  | @token offset text cs kind us hnext hlater _ =>
    cases hall
    have hnext' := hnext
    obtain ⟨c, body, rfl, hpiece⟩ := hnext'
    refine ⟨[], c, body ++ cs, rfl, .nil _, .token hnext hlater, rfl, ?_⟩
    cases hc : isSeparator c with
    | false => rfl
    | true =>
      rw [Piece.next, if_pos hc] at hpiece
      have hkind : none = some kind := congrArg Piece.kind hpiece
      cases hkind

/-- A text is cut in front of one of its tokens and behind it. -/
theorem Scans.cut_at {rest cs : List Char} {offset : Nat} {t : Token} {ts us : List Token}
    (h : Scans rest offset cs (ts ++ t :: us)) :
    ∃ body text behind, cs = body ++ (text ++ behind) ∧
      Scans (text ++ behind ++ rest) offset body ts ∧ IsNext text (some t.kind) (behind ++ rest) ∧
      Scans rest (offset + byteLength (body ++ text)) behind us ∧
      t.span = Span.ofRange (offset + byteLength body) (offset + byteLength (body ++ text)) := by
  generalize hall : ts ++ t :: us = all at h
  induction h generalizing ts with
  | nil => simp at hall
  | @separator offset text₀ cs _ hnext _ ih =>
    obtain ⟨body, text, behind, rfl, hbody, hat, hbehind, hspan⟩ := ih hall
    refine ⟨text₀ ++ body, text, behind, by rw [List.append_assoc], ?_, hat, ?_, ?_⟩
    · refine .separator ?_ hbody
      simpa using hnext
    · rwa [List.append_assoc, byteLength_append, ← Nat.add_assoc]
    · rw [List.append_assoc, byteLength_append, byteLength_append text₀, ← Nat.add_assoc,
        ← Nat.add_assoc]
      exact hspan
  | @token offset text₀ cs kind vs hnext hlater ih =>
    cases ts with
    | nil =>
      cases hall
      exact ⟨[], text₀, cs, rfl, .nil _, hnext, hlater, rfl⟩
    | cons t₀ ts =>
      obtain ⟨rfl, hlater⟩ := List.cons.inj hall
      obtain ⟨body, text, behind, rfl, hbody, hat, hbehind, hspan⟩ := ih hlater
      refine ⟨text₀ ++ body, text, behind, by rw [List.append_assoc], ?_, hat, ?_, ?_⟩
      · refine .token ?_ hbody
        simpa using hnext
      · rwa [List.append_assoc, byteLength_append, ← Nat.add_assoc]
      · rw [List.append_assoc, byteLength_append, byteLength_append text₀, ← Nat.add_assoc,
          ← Nat.add_assoc]
        exact hspan

/-! ## Where tokens stand -/

theorem IsNext.byteLength_pos {text rest : List Char} {kind : Option TokenKind}
    (h : IsNext text kind rest) : 0 < byteLength text := by
  obtain ⟨c, cs, rfl, -⟩ := h
  have hpos := c.utf8Size_pos
  rw [byteLength_cons]
  omega

/-- Every token takes a range of the text, and not an empty one. -/
theorem Scans.bounds {rest cs : List Char} {offset : Nat} {ts : List Token}
    (h : Scans rest offset cs ts) :
    ∀ t ∈ ts, ∃ start stop, t.span = Span.ofRange start stop ∧ offset ≤ start ∧ start < stop ∧
      stop ≤ offset + byteLength cs := by
  induction h with
  | nil => simp
  | separator hnext _ ih =>
    intro t ht
    obtain ⟨start, stop, hspan, hstart, hlt, hstop⟩ := ih t ht
    refine ⟨start, stop, hspan, by omega, hlt, ?_⟩
    rw [byteLength_append]
    omega
  | @token offset text cs kind ts hnext _ ih =>
    intro t ht
    have hpos := hnext.byteLength_pos
    rw [byteLength_append]
    rcases List.mem_cons.1 ht with rfl | ht
    · exact ⟨offset, _, rfl, by omega, by omega, by omega⟩
    · obtain ⟨start, stop, hspan, hstart, hlt, hstop⟩ := ih t ht
      exact ⟨start, stop, hspan, by omega, hlt, by omega⟩

theorem Scans.unique {offset : Nat} {cs : List Char} {ts us : List Token}
    (h : Scans [] offset cs ts) (h' : Scans [] offset cs us) : ts = us :=
  (h.scanWithin_eq (Nat.le_refl _)).symm.trans (h'.scanWithin_eq (Nat.le_refl _))

/-- At the end of a source a text has the tokens it has on its own, moved. -/
theorem scans_scan (offset : Nat) (cs : List Char) :
    Scans [] offset cs ((Token.scan cs).map (Token.map (later offset))) := by
  have hown := (scan_eq_iff.1 (rfl : Token.scan cs = _)).moved offset
  rwa [Nat.zero_add] at hown

theorem Scans.eq_moved_scan {offset : Nat} {cs : List Char} {ts : List Token}
    (h : Scans [] offset cs ts) : ts = (Token.scan cs).map (Token.map (later offset)) :=
  h.unique (scans_scan offset cs)

end ReplEngine
