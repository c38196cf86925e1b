import ReplEngine.Proofs.Binary.ClassFile
import ReplEngine.Proofs.Lexing.Scans
import ReplEngine.Proofs.Syntax.Units
set_option autoImplicit false

/-!
# What is read from a source is no longer than the source

A source has at least a byte for every token, and at least the bytes of the token.  So the lists
and the texts of an item are no longer than the source that it was read from, and the class file
of a class whose source takes fewer than 2^64 bytes can be written (`fits_of_parse`).
-/

namespace ReplEngine

open Text Binary

/-! ## Bytes -/

theorem length_utf8_encode (cs : List Char) : (Utf8.encode cs).length = byteLength cs := by
  induction cs with
  | nil => rfl
  | cons c cs ih =>
    rw [byteLength_cons, ← ih, Utf8.encode, List.flatMap_cons, List.length_append,
      String.length_utf8EncodeChar]
    rfl

theorem textFits_iff {text : String} : TextFits text ↔ byteLength text.toList < 2 ^ 64 := by
  unfold TextFits LengthFits
  rw [length_utf8_encode]

/-- Every token takes a byte of the source at least, and all of its own bytes. -/
theorem Scans.sizes {rest cs : List Char} {offset : Nat} {ts : List Token}
    (h : Scans rest offset cs ts) :
    ts.length ≤ byteLength cs ∧ ∀ t ∈ ts, byteLength t.kind.text ≤ byteLength cs := by
  induction h with
  | nil => simp
  | separator _ _ ih =>
    obtain ⟨hlength, hbytes⟩ := ih
    rw [byteLength_append]
    refine ⟨by omega, fun t ht => ?_⟩
    have := hbytes t ht
    omega
  | token hnext _ ih =>
    obtain ⟨hlength, hbytes⟩ := ih
    have hpos := hnext.byteLength_pos
    rw [byteLength_append, List.length_cons]
    refine ⟨by omega, fun t ht => ?_⟩
    rcases List.mem_cons.mp ht with rfl | ht
    · rw [← hnext.text_eq]
      omega
    · have := hbytes t ht
      omega

namespace Language

open Grammar

/-! ## Tokens whose lengths can be written -/

/-- So many tokens, with so many bytes each, that both numbers can be written. -/
structure Short (ts : List Token) : Prop where
  count : LengthFits ts.length
  bytes : ∀ t ∈ ts, LengthFits (byteLength t.kind.text)

theorem short_scan {source : List Char} (h : byteLength source < 2 ^ 64) :
    Short (Token.scan source) := by
  obtain ⟨hcount, hbytes⟩ := (scan_eq_iff.mp (rfl : Token.scan source = _)).sizes
  exact ⟨Nat.lt_of_le_of_lt hcount h, fun t ht => Nat.lt_of_le_of_lt (hbytes t ht) h⟩

theorem Short.sublist {ts us : List Token} (h : Short us) (hsub : ts.Sublist us) : Short ts :=
  ⟨Nat.lt_of_le_of_lt hsub.length_le h.count, fun t ht => h.bytes t (hsub.subset ht)⟩

theorem Short.left {ts us : List Token} (h : Short (ts ++ us)) : Short ts :=
  h.sublist (List.sublist_append_left ts us)

theorem Short.right {ts us : List Token} (h : Short (ts ++ us)) : Short us :=
  h.sublist (List.sublist_append_right ts us)

theorem Short.tail {t : Token} {ts : List Token} (h : Short (t :: ts)) : Short ts :=
  h.sublist (List.sublist_cons_self t ts)

theorem Short.identifier {ts : List Token} (h : Short ts) {name : String} (span : Span)
    (hmem : ⟨.identifier name, span⟩ ∈ ts) : TextFits name :=
  textFits_iff.mpr (h.bytes _ hmem)

/-- What escapes stand for is no longer than they are. -/
theorem byteLength_of_unescapes {body cs : List Char} (h : Unescapes body cs) :
    byteLength cs ≤ byteLength body := by
  induction h with
  | nil => exact Nat.le_refl _
  | plain _ _ ih =>
    rw [byteLength_cons, byteLength_cons]
    omega
  | escape hc _ ih =>
    have hone : ∀ {c d : Char}, Escape c d → d.utf8Size = 1 := by
      intro c d hc
      cases hc <;> decide
    rw [byteLength_cons, byteLength_cons, byteLength_cons, hone hc]
    have hpos := Char.utf8Size_pos '\\'
    omega

/-! ## Phrases -/

/-- Phrases with commas between them: each is a part of the whole, and has tokens, so there are no
more phrases than tokens. -/
theorem sizes_of_listed {α : Type} {parts : List (List Token × α)} {us : List Token}
    (h : Listed parts us) (hne : ∀ p ∈ parts, p.1 ≠ []) :
    parts.length ≤ us.length ∧ ∀ p ∈ parts, p.1.Sublist us := by
  induction h with
  | none => simp
  | one ts a =>
    exact ⟨List.length_pos_iff.mpr (hne _ List.mem_cons_self), by simp⟩
  | more ts a comma _ ih =>
    obtain ⟨hlength, hparts⟩ := ih fun p hp => hne p (List.mem_cons_of_mem _ hp)
    simp only [List.length_append, List.length_cons] at hlength ⊢
    refine ⟨by omega, fun p hp => ?_⟩
    rcases List.mem_cons.mp hp with rfl | hp
    · exact List.sublist_append_left _ _
    · exact (hparts p hp).trans
        ((List.sublist_cons_self _ _).trans (List.sublist_append_right _ _))

theorem ne_nil_of_expression {l : Level} {ts : List Token} {e : Expr} (h : Expression l ts e) :
    ts ≠ [] := by
  induction h <;> simp_all

theorem fits_withSpan {e : Expr} (h : e.Fits) (s : Span) : (e.withSpan s).Fits := by
  cases e <;> exact h

/-- The arguments of a call. -/
theorem fits_arguments {parts : List (List Token × Expr)} {us : List Token}
    (hlist : Listed parts us) (hargs : ∀ p ∈ parts, Expression .sum p.1 p.2)
    (ih : ∀ p ∈ parts, Short p.1 → p.2.Fits) (h : Short us) :
    LengthFits (parts.map Prod.snd).length ∧ Expr.AllFit (parts.map Prod.snd) := by
  obtain ⟨hlength, hparts⟩ := sizes_of_listed hlist fun p hp => ne_nil_of_expression (hargs p hp)
  rw [List.length_map, Expr.allFit_iff]
  refine ⟨Nat.lt_of_le_of_lt hlength h.count, fun e he => ?_⟩
  obtain ⟨p, hp, rfl⟩ := List.mem_map.mp he
  exact ih p hp (h.sublist (hparts p hp))

theorem fits_of_expression {l : Level} {ts : List Token} {e : Expr} (h : Expression l ts e)
    (hshort : Short ts) : e.Fits := by
  induction h with
  | ofProduct _ ih | ofSigned _ ih | ofSuffixed _ ih | ofPrimary _ ih => exact ih hshort
  | binary op hop s _ _ ihl ihr => exact ⟨ihl hshort.left, ihr hshort.right.tail⟩
  | negate minus _ ih => exact ih hshort.tail
  | least | int | true | false | null => trivial
  | methodCall method dot name opening closing _ hlist hargs ihr ihargs =>
    obtain ⟨hlength, hall⟩ := fits_arguments hlist hargs ihargs hshort.right.tail.tail.tail.left
    exact ⟨ihr hshort.left, hshort.identifier name (by simp), hlength, hall⟩
  | string hbody s =>
    have hbytes := hshort.bytes _ List.mem_cons_self
    have hle := byteLength_of_unescapes hbody
    simp only [LengthFits, TokenKind.text, byteLength_cons, byteLength_append,
      List.cons_append] at hbytes
    refine textFits_iff.mpr ?_
    rw [String.toList_ofList]
    omega
  | name name s => exact hshort.identifier s (by simp)
  | call f name opening closing hlist hargs ih =>
    obtain ⟨hlength, hall⟩ := fits_arguments hlist hargs ih hshort.tail.tail.left
    exact ⟨hshort.identifier name (by simp), hlength, hall⟩
  | new className word name opening closing hlist hargs ih =>
    obtain ⟨hlength, hall⟩ := fits_arguments hlist hargs ih hshort.tail.tail.tail.left
    exact ⟨hshort.identifier name (by simp), hlength, hall⟩
  | paren opening closing _ ih => exact fits_withSpan (ih hshort.tail.left) _

theorem fits_of_namesType {kind : TokenKind} {type : TypeName} (h : NamesType kind type)
    {ts : List Token} (hshort : Short ts) (span : Span) (hmem : ⟨kind, span⟩ ∈ ts) :
    type.Fits := by
  cases h with
  | named name => exact hshort.identifier span hmem
  | _ => trivial

variable {line : UInt32 → UInt32}

theorem fits_of_simple {ts : List Token} {s : Stmt} (h : Simple line ts s) (hshort : Short ts) :
    s.Fits := by
  cases h with
  | ret word => simp [Stmt.Fits]
  | retValue word h =>
    intro e he
    cases he
    exact fits_of_expression h hshort.tail
  | throw word h => exact fits_of_expression h hshort.tail
  | var htype word name nameSpan =>
    refine ⟨fits_of_namesType htype hshort _ List.mem_cons_self, ?_, by simp⟩
    exact hshort.identifier nameSpan (by simp)
  | varInit htype word name nameSpan equals h =>
    refine ⟨fits_of_namesType htype hshort _ List.mem_cons_self, ?_, ?_⟩
    · exact hshort.identifier nameSpan (by simp)
    · intro e he
      cases he
      exact fits_of_expression h hshort.tail.tail.tail
  | expr h => exact fits_of_expression h hshort

theorem fits_of_statements {ts : List Token} {body : List Stmt} (h : Statements line ts body)
    (hshort : Short ts) : body.length ≤ ts.length ∧ ∀ s ∈ body, s.Fits := by
  induction h with
  | nil => simp
  | cons semicolon h _ ih =>
    obtain ⟨hlength, hall⟩ := ih hshort.right.tail
    rw [List.length_append, List.length_cons, List.length_cons]
    refine ⟨by omega, ?_⟩
    rw [List.forall_mem_cons]
    exact ⟨fits_of_simple h hshort.left, hall⟩

theorem fits_of_parameter {ts : List Token} {p : Param} (h : Parameter ts p)
    (hshort : Short ts) : p.Fits := by
  cases h with
  | mk htype hvar word name nameSpan =>
    exact ⟨fits_of_namesType htype hshort _ List.mem_cons_self,
      hshort.identifier nameSpan (by simp)⟩

theorem ne_nil_of_parameter {ts : List Token} {p : Param} (h : Parameter ts p) : ts ≠ [] := by
  cases h
  simp

theorem fits_of_method {ts : List Token} {m : MethodDecl} (h : Method line ts m)
    (hshort : Short ts) : m.Fits := by
  cases h with
  | mk htype name word nameSpan openParen closeParen openBrace closeBrace hlist hparams hbody =>
    have hinner := hshort.left
    obtain ⟨hcount, hparts⟩ :=
      sizes_of_listed hlist fun p hp => ne_nil_of_parameter (hparams p hp)
    have hlist := hinner.left.tail.tail.tail
    have hstatements := hinner.right.tail.tail
    obtain ⟨hlength, hall⟩ := fits_of_statements hbody hstatements
    refine ⟨fits_of_namesType htype hshort word (by simp),
      hshort.identifier nameSpan (by simp), ⟨?_, ?_⟩,
      Nat.lt_of_le_of_lt hlength hstatements.count, hall⟩
    · rw [List.length_map]
      exact Nat.lt_of_le_of_lt hcount hlist.count
    · intro p hp
      obtain ⟨part, hpart, rfl⟩ := List.mem_map.mp hp
      exact fits_of_parameter (hparams part hpart) (hlist.sublist (hparts part hpart))

theorem ne_nil_of_method {ts : List Token} {m : MethodDecl} (h : Method line ts m) : ts ≠ [] := by
  cases h
  simp

theorem fits_of_methods {ts : List Token} {ms : List MethodDecl} (h : Methods line ts ms)
    (hshort : Short ts) : ms.length ≤ ts.length ∧ ∀ m ∈ ms, m.Fits := by
  induction h with
  | nil => simp
  | cons h _ ih =>
    obtain ⟨hlength, hall⟩ := ih hshort.right
    have hpos := List.length_pos_iff.mpr (ne_nil_of_method h)
    rw [List.length_append, List.length_cons]
    refine ⟨by omega, ?_⟩
    rw [List.forall_mem_cons]
    exact ⟨fits_of_method h hshort.left, hall⟩

/-- The class file of a class can be written when the source of the class takes fewer than 2^64
bytes. -/
theorem fits_of_parse {source : String} {decl : ClassDecl}
    (h : Item.parse source = .ok (.typeDecl decl)) (hsize : byteLength source.toList < 2 ^ 64)
    (snippet : UInt32) : (ClassFile.ofDecl decl snippet).Fits := by
  rw [Item.parse_eq_ok_iff] at h
  have hshort := short_scan hsize
  generalize Token.scan source.toList = tokens at h hshort
  cases h with
  | typeDecl hclass hend =>
    cases hclass with
    | mk name word nameSpan opening closing hmethods =>
      have hinner := hshort.left
      have hms := hinner.left.tail.tail.tail
      obtain ⟨hlength, hall⟩ := fits_of_methods hmethods hms
      have hname : TextFits name := hshort.identifier nameSpan (by simp)
      exact ⟨hname,
        Nat.lt_of_le_of_lt hlength hms.count, hall⟩

/-- The name of a class that is read from a source consists of word characters. -/
theorem word_of_parse {source : String} {decl : ClassDecl}
    (h : Item.parse source = .ok (.typeDecl decl)) :
    ∀ d ∈ decl.name.toList, isWordPart d = true := by
  rw [Item.parse_eq_ok_iff] at h
  have hscan : Scans [] 0 source.toList (Token.scan source.toList) := scan_eq_iff.mp rfl
  generalize Token.scan source.toList = tokens at h hscan
  cases h with
  | typeDecl hclass hend =>
    cases hclass with
    | mk name word nameSpan opening closing hmethods =>
      exact hscan.identifier nameSpan (by simp)

end Language

end ReplEngine
