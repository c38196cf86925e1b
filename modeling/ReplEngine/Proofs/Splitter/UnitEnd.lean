import ReplEngine.Language.Splitter
import ReplEngine.Proofs.Lexing.Pieces
import ReplEngine.Proofs.Syntax.Grammar
set_option autoImplicit false

/-!
# Derived units end where the walk stops

`findEnd` counts brackets and looks for `;`.  On tokens that derive a unit the counts come back to
where they were behind every phrase (`findEnd_expression`, `findEnd_statements`), so the walk
meets its stop condition at the last token of the unit and at no token before it.
-/

namespace ReplEngine.Language

open Grammar

/-! ## Phrases leave the nesting as it was -/

/-- Kinds of token that the walk goes past without counting. -/
def Passed : TokenKind → Prop
  | .keyword _ | .integer _ | .quoted _ | .identifier _ => True
  | .symbol sign =>
    sign ≠ .openBrace ∧ sign ≠ .closeBrace ∧ sign ≠ .openParen ∧ sign ≠ .closeParen ∧
      sign ≠ .semicolon
  | _ => False

theorem findEnd_passed {t : Token} (h : Passed t.kind) (n : Nesting) (ts : List Token) :
    findEnd n (t :: ts) = findEnd n ts := by
  obtain ⟨kind, span⟩ := t
  cases kind with
  | symbol sign =>
    cases sign with
    | openBrace => exact (h.1 rfl).elim
    | closeBrace => exact (h.2.1 rfl).elim
    | openParen => exact (h.2.2.1 rfl).elim
    | closeParen => exact (h.2.2.2.1 rfl).elim
    | semicolon => exact (h.2.2.2.2 rfl).elim
    | _ => rfl
  | unclosedString body => exact h.elim
  | unclosedComment body => exact h.elim
  | _ => rfl

/-- The walk goes past the tokens and comes out at the nesting it went in with. -/
def Balanced (n : Nesting) (ts : List Token) : Prop :=
  ∀ rest, findEnd n (ts ++ rest) = findEnd n rest

theorem Balanced.nil (n : Nesting) : Balanced n [] := fun _ => rfl

theorem Balanced.append {n : Nesting} {ts us : List Token} (h : Balanced n ts)
    (h' : Balanced n us) : Balanced n (ts ++ us) := by
  intro rest
  rw [List.append_assoc, h, h']

theorem Balanced.cons {n : Nesting} {t : Token} {ts : List Token} (ht : Passed t.kind)
    (h : Balanced n ts) : Balanced n (t :: ts) := by
  intro rest
  rw [List.cons_append, findEnd_passed ht, h]

theorem balanced_parens (n : Nesting) {ts : List Token} (opening closing : Span)
    (h : Balanced { n with parens := n.parens + 1 } ts) :
    Balanced n (⟨.symbol .openParen, opening⟩ :: ts ++ [⟨.symbol .closeParen, closing⟩]) := by
  intro rest
  have hback : ({ n with parens := n.parens + 1 - 1 } : Nesting) = n := by
    rw [Int.add_sub_cancel]
  rw [List.append_assoc, List.cons_append]
  show findEnd { n with parens := n.parens + 1 } _ = _
  rw [h]
  show findEnd { n with parens := n.parens + 1 - 1 } rest = _
  rw [hback]

theorem balanced_listed {α : Type} {parts : List (List Token × α)} {us : List Token}
    (hlist : Listed parts us) {n : Nesting} (h : ∀ p ∈ parts, Balanced n p.1) : Balanced n us := by
  induction hlist with
  | none => exact .nil n
  | one ts a => exact h (ts, a) List.mem_cons_self
  | more ts a comma _ ih =>
    have hlater := ih fun p hp => h p (List.mem_cons_of_mem _ hp)
    exact (h (ts, a) List.mem_cons_self).append (.cons (by simp [Passed]) hlater)

theorem passed_sign (op : BinaryOp) : Passed (.symbol (sign op)) := by
  cases op <;> simp [sign, Passed]

theorem balanced_expression {l : Level} {ts : List Token} {e : Expr} (h : Expression l ts e)
    (n : Nesting) : Balanced n ts := by
  induction h generalizing n with
  | ofProduct _ ih | ofSigned _ ih | ofSuffixed _ ih | ofPrimary _ ih => exact ih n
  | binary op _ s _ _ ihl ihr => exact (ihl n).append (.cons (passed_sign op) (ihr n))
  | negate minus _ ih => exact .cons (by simp [Passed]) (ih n)
  | least minus s => exact .cons (by simp [Passed]) (.cons trivial (.nil n))
  | methodCall method dot name opening closing _ hlist _ ihr ihargs =>
    have hargs := balanced_parens n opening closing <|
      balanced_listed hlist fun p hp => ihargs p hp _
    exact (ihr n).append (.cons (by simp [Passed]) (.cons trivial hargs))
  | call f name opening closing hlist _ ihargs =>
    exact .cons trivial
      (balanced_parens n opening closing (balanced_listed hlist fun p hp => ihargs p hp _))
  | new className word name opening closing hlist _ ihargs =>
    exact .cons trivial (.cons trivial
      (balanced_parens n opening closing (balanced_listed hlist fun p hp => ihargs p hp _)))
  | paren opening closing _ ih => exact balanced_parens n opening closing (ih _)
  | _ => exact .cons trivial (.nil n)

theorem passed_of_namesType {kind : TokenKind} {type : TypeName} (h : NamesType kind type) :
    Passed kind := by
  cases h <;> trivial

theorem balanced_simple {line : UInt32 → UInt32} {ts : List Token} {s : Stmt}
    (h : Simple line ts s) (n : Nesting) : Balanced n ts := by
  cases h with
  | ret word => exact .cons trivial (.nil n)
  | retValue word he | throw word he => exact .cons trivial (balanced_expression he n)
  | var htype => exact .cons (passed_of_namesType htype) (.cons trivial (.nil n))
  | varInit htype word name nameSpan equals he =>
    exact .cons (passed_of_namesType htype)
      (.cons trivial (.cons (by simp [Passed]) (balanced_expression he n)))
  | expr he => exact balanced_expression he n

/-- Inside braces a `;` ends nothing. -/
theorem balanced_statements {line : UInt32 → UInt32} {ts : List Token} {body : List Stmt}
    (h : Statements line ts body) {n : Nesting} (hn : 0 < n.braces) : Balanced n ts := by
  induction h with
  | nil => exact .nil n
  | cons semicolon hs _ ih =>
    refine (balanced_simple hs n).append ?_
    intro rest
    have hopen : ¬ (n.braces ≤ 0 ∧ n.parens ≤ 0) := by omega
    rw [List.cons_append, findEnd]
    simp only [if_neg hopen]
    exact ih rest

theorem balanced_params {parts : List (List Token × Param)} {us : List Token}
    (hlist : Listed parts us) (hparams : ∀ p ∈ parts, Parameter p.1 p.2) (n : Nesting) :
    Balanced n us := by
  refine balanced_listed hlist ?_
  intro p hp
  obtain ⟨ts, q⟩ := p
  cases hparams _ hp with
  | mk htype => exact .cons (passed_of_namesType htype) (.cons trivial (.nil n))

/-- Up to its closing brace a method opens one brace. -/
theorem findEnd_method {line : UInt32 → UInt32} {ts : List Token} {m : MethodDecl}
    (h : Method line ts m) {n : Nesting} (hn : 0 ≤ n.braces) :
    ∃ us closing, ts = us ++ [⟨.symbol .closeBrace, closing⟩] ∧
      ∀ rest, findEnd n (us ++ rest) = findEnd { n with braces := n.braces + 1 } rest := by
  cases h with
  | @mk kind _ htype name word nameSpan openParen closeParen openBrace closeBrace us vs _ _ hlist
      hparams hbody =>
    refine ⟨_, closeBrace, rfl, ?_⟩
    intro rest
    have hlist' := balanced_parens n openParen closeParen (balanced_params hlist hparams _)
    have hhead : Balanced n (⟨kind, word⟩ :: ⟨.identifier name, nameSpan⟩ ::
        (⟨.symbol .openParen, openParen⟩ :: us ++ [⟨.symbol .closeParen, closeParen⟩])) :=
      .cons (passed_of_namesType htype) (.cons trivial hlist')
    have hbody' : Balanced { n with braces := n.braces + 1 } vs :=
      balanced_statements hbody (show 0 < n.braces + 1 by omega)
    have hsplit := hhead (⟨.symbol .openBrace, openBrace⟩ :: vs ++ rest)
    simp only [List.append_assoc, List.cons_append, List.nil_append] at hsplit ⊢
    rw [hsplit]
    exact hbody' rest

/-- Inside braces a method is balanced. -/
theorem balanced_method {line : UInt32 → UInt32} {ts : List Token} {m : MethodDecl}
    (h : Method line ts m) {n : Nesting} (hn : 0 < n.braces) : Balanced n ts := by
  obtain ⟨us, closing, rfl, hopened⟩ := findEnd_method h (show 0 ≤ n.braces by omega)
  intro rest
  have hback : ({ n with braces := n.braces + 1 - 1 } : Nesting) = n := by
    rw [Int.add_sub_cancel]
  have hopen : ¬ (n.braces + 1 - 1 = 0 ∧ n.parens ≤ 0) := by omega
  rw [List.append_assoc, hopened, List.cons_append, findEnd]
  simp only [if_neg hopen]
  rw [hback]
  rfl

theorem balanced_methods {line : UInt32 → UInt32} {ts : List Token} {ms : List MethodDecl}
    (h : Methods line ts ms) {n : Nesting} (hn : 0 < n.braces) : Balanced n ts := by
  induction h with
  | nil => exact .nil n
  | cons hm _ ih => exact (balanced_method hm hn).append ih

/-! ## Units -/

/-- The walk through a block ends at its closing brace, or at the `;` behind it. -/
def EndsAsBlock (ts : List Token) : Prop :=
  ∃ us closing, ts = us ++ [⟨.symbol .closeBrace, closing⟩] ∧
    ∀ rest, findEnd {} (ts ++ rest) = .at (blockEnd ⟨.symbol .closeBrace, closing⟩ rest)

theorem endsAsBlock_of_opened {us : List Token} {closing : Span}
    (h : ∀ rest, findEnd {} (us ++ rest) = findEnd { braces := 1 } rest) :
    EndsAsBlock (us ++ [⟨.symbol .closeBrace, closing⟩]) := by
  refine ⟨us, closing, rfl, ?_⟩
  intro rest
  rw [List.append_assoc, h]
  rfl

theorem endsAsBlock_method {line : UInt32 → UInt32} {ts : List Token} {m : MethodDecl}
    (h : Method line ts m) : EndsAsBlock ts := by
  obtain ⟨us, closing, rfl, hopened⟩ := findEnd_method h (n := {}) (Int.le_refl 0)
  exact endsAsBlock_of_opened hopened

theorem endsAsBlock_class {line : UInt32 → UInt32} {ts : List Token} {decl : ClassDecl}
    (h : Class line ts decl) : EndsAsBlock ts := by
  cases h with
  | mk name word nameSpan opening closing hms =>
    refine endsAsBlock_of_opened ?_
    intro rest
    exact balanced_methods hms (n := { braces := 1 }) (show (0 : Int) < 1 by decide) rest

/-- A kind of token that a unit can be cut behind. -/
def Closes (kind : TokenKind) : Prop := kind = .symbol .semicolon ∨ kind = .symbol .closeBrace

/-- A kind of token that a unit without a `;` can end with. -/
def EndsPlainly (kind : TokenKind) : Prop := ¬ Closes kind ∧ kind.expectsMore = false

theorem endsPlainly_of_expression {l : Level} {ts : List Token} {e : Expr}
    (h : Expression l ts e) : ∃ us t, ts = us ++ [t] ∧ EndsPlainly t.kind := by
  have hplain {kind : TokenKind} (hkind : kind.expectsMore = false)
      (h : kind ≠ .symbol .semicolon ∧ kind ≠ .symbol .closeBrace) : EndsPlainly kind :=
    ⟨fun hcloses => hcloses.elim h.1 h.2, hkind⟩
  have hparen : EndsPlainly (.symbol .closeParen) := hplain rfl (by simp)
  induction h with
  | ofProduct _ ih | ofSigned _ ih | ofSuffixed _ ih | ofPrimary _ ih => exact ih
  | @binary op _ _ s vs _ _ _ _ _ _ ihr =>
    obtain ⟨us, t, rfl, ht⟩ := ihr
    exact ⟨vs ++ ⟨.symbol (sign op), s⟩ :: us, t, by simp, ht⟩
  | negate minus _ ih =>
    obtain ⟨us, t, rfl, ht⟩ := ih
    exact ⟨_ :: us, t, rfl, ht⟩
  | least minus s => exact ⟨[_], _, rfl, hplain rfl (by simp)⟩
  | methodCall method dot name opening closing =>
    exact ⟨_, _, (List.append_assoc _ _ _).symm, hparen⟩
  | call | new | paren => exact ⟨_, _, rfl, hparen⟩
  | _ => exact ⟨[], _, rfl, hplain rfl (by simp)⟩

theorem endsPlainly_of_simple {line : UInt32 → UInt32} {ts : List Token} {s : Stmt}
    (h : Simple line ts s) : ∃ us t, ts = us ++ [t] ∧ EndsPlainly t.kind := by
  cases h with
  | ret word => exact ⟨[], _, rfl, by simp [Closes], rfl⟩
  | retValue word he | throw word he =>
    obtain ⟨us, t, rfl, ht⟩ := endsPlainly_of_expression he
    exact ⟨_ :: us, t, rfl, ht⟩
  | var htype word name nameSpan => exact ⟨[_], _, rfl, by simp [Closes], rfl⟩
  | varInit htype word name nameSpan equals he =>
    obtain ⟨us, t, rfl, ht⟩ := endsPlainly_of_expression he
    exact ⟨_ :: _ :: _ :: us, t, rfl, ht⟩
  | expr he => exact endsPlainly_of_expression he

/-- Tokens behind a unit that cannot be taken into it. -/
def Separate (rest : List Token) : Prop := ∀ t ∈ rest.head?, t.kind ≠ .symbol .semicolon

/-- The walk ends a unit at its last token when a unit can be cut there. -/
def EndsClosed (ts : List Token) : Prop :=
  ∃ us last, ts = us ++ [last] ∧ Closes last.kind ∧
    ∀ rest, Separate rest → findEnd {} (ts ++ rest) = .at last.span.stop.toNat

/-- The walk runs out of the tokens of a unit, with nothing open. -/
def EndsWithSource (ts : List Token) : Prop :=
  ∃ us last, ts = us ++ [last] ∧ EndsPlainly last.kind ∧ findEnd {} ts = .ran {}

theorem EndsAsBlock.endsClosed {ts us : List Token} (h : EndsAsBlock ts)
    (hend : MaySemicolon us) : EndsClosed (ts ++ us) := by
  obtain ⟨vs, closing, rfl, hwalk⟩ := h
  cases hend with
  | absent =>
    rw [List.append_nil]
    refine ⟨vs, _, rfl, .inr rfl, ?_⟩
    intro rest hrest
    rw [hwalk]
    cases rest with
    | nil => rfl
    | cons t rest =>
      have ht : t.kind ≠ .symbol .semicolon := hrest t rfl
      rw [blockEnd, if_neg ht]
  | present s =>
    refine ⟨_, _, rfl, .inl rfl, ?_⟩
    intro rest _
    rw [List.append_assoc, hwalk]
    rfl

theorem ends_of_topLevel {line : UInt32 → UInt32} {ts : List Token} {item : Item}
    (h : TopLevel line ts item) : EndsClosed ts ∨ EndsWithSource ts := by
  cases h with
  | typeDecl hdecl hend => exact .inl ((endsAsBlock_class hdecl).endsClosed hend)
  | method hdecl hend => exact .inl ((endsAsBlock_method hdecl).endsClosed hend)
  | @stmt ts us s hs hend =>
    have hbalanced := balanced_simple hs {}
    cases hend with
    | absent =>
      obtain ⟨vs, t, hvs, ht⟩ := endsPlainly_of_simple hs
      have hran := hbalanced []
      rw [List.append_nil] at hran ⊢
      exact .inr ⟨vs, t, hvs, ht, hran⟩
    | present semicolon =>
      refine .inl ⟨ts, _, rfl, .inl rfl, ?_⟩
      intro rest _
      rw [List.append_assoc, hbalanced]
      rfl

end ReplEngine.Language
