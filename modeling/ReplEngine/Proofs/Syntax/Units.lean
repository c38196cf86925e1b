import ReplEngine.Proofs.Syntax.Expressions
set_option autoImplicit false

/-!
# Units are read as the grammar derives them

Statements, declarations and whole units: again one pair of lemmas for each reader, and at the
end the reader of a source.  Which production a unit is read by depends on its first three
tokens; the complete half has to show that no other production starts with the same ones.
-/

namespace ReplEngine.Language.Reader

open Reading Grammar Text

variable {lines : LineTable}

/-! ## What is read is derived -/

/-- A statement that starts at `start` with neither `return` nor `throw`. -/
def plainStatement (lines : LineTable) (steps : Nat) (start : UInt32) : Reader Stmt := do
  if ← atDeclaration then
    let type ← typeName
    let (name, _) ← identifier
    let init ← if ← eat .equals then some <$> expression steps else pure none
    pure (.var ⟨type, name, init, ⟨start, ← lastEnd⟩, lines.lineAt start⟩)
  else
    let value ← expression steps
    pure (.expr value (lines.lineAt start))

/-- What follows the word `return` at `start`. -/
def returned (lines : LineTable) (steps : Nat) (start : UInt32) : Reader Stmt := do
  let value ←
    match ← kindAt 0 with
    | none | some (.symbol .semicolon) => pure none
    | _ => some <$> expression steps
  pure (.ret value ⟨start, ← lastEnd⟩ (lines.lineAt start))

/-- What follows the word `throw` at `start`. -/
def thrown (lines : LineTable) (steps : Nat) (start : UInt32) : Reader Stmt := do
  let value ← expression steps
  pure (.throw value ⟨start, ← lastEnd⟩ (lines.lineAt start))

theorem simpleStatement_return (steps : Nat) (word : Span) (ts : List Token) (k : UInt32) :
    simpleStatement lines steps ⟨⟨.keyword .returnWord, word⟩ :: ts, k⟩ =
      returned lines steps word.start ⟨ts, word.stop⟩ := rfl

theorem simpleStatement_throw (steps : Nat) (word : Span) (ts : List Token) (k : UInt32) :
    simpleStatement lines steps ⟨⟨.keyword .throwWord, word⟩ :: ts, k⟩ =
      thrown lines steps word.start ⟨ts, word.stop⟩ := rfl

theorem simpleStatement_plain (steps : Nat) {t : Token} (ts : List Token) (k : UInt32)
    (hreturn : t.kind ≠ .keyword .returnWord) (hthrow : t.kind ≠ .keyword .throwWord) :
    simpleStatement lines steps ⟨t :: ts, k⟩ =
      plainStatement lines steps t.span.start ⟨t :: ts, k⟩ := by
  obtain ⟨kind, span⟩ := t
  cases kind with
  | keyword word =>
    cases word with
    | returnWord => exact (hreturn rfl).elim
    | throwWord => exact (hthrow rfl).elim
    | _ => rfl
  | _ => rfl

theorem plainStatement_sound (steps : Nat) {t : Token} {ts : List Token} {k : UInt32}
    {c' : Cursor} {s : Stmt}
    (h : plainStatement lines steps t.span.start ⟨t :: ts, k⟩ = .ok (s, c')) :
    ∃ us, Takes us ⟨t :: ts, k⟩ c' ∧ Simple lines.lineAt us s := by
  unfold plainStatement at h
  rw [atDeclaration_bind] at h
  split at h
  · obtain ⟨type, c₁, htype, h⟩ := bind_eq_ok.1 h
    obtain ⟨kind, word, htaken, hnames⟩ := typeName_sound htype
    obtain ⟨⟨name, nameSpan⟩, c₂, hname, h⟩ := bind_eq_ok.1 h
    have hname := identifier_sound hname
    have hstart : t.span.start = word.start := by
      rw [(List.cons.inj htaken.tokens).1]
    obtain ⟨found, c₃, heat, h⟩ := bind_eq_ok.1 h
    rcases eat_cases heat with ⟨rfl, equals, hequals⟩ | ⟨rfl, rfl, -⟩
    · obtain ⟨init, c₄, hinit, h⟩ := bind_eq_ok.1 h
      obtain ⟨e, he, rfl⟩ := map_eq_ok.1 hinit
      obtain ⟨us, hus, hder⟩ := expression_sound steps _ _ _ he
      have htakes := htaken.cons (hname.cons (hequals.cons hus))
      simp only [lastEnd_bind, htakes.lastEnd, hstart] at h
      cases h
      exact ⟨_, htakes, .varInit hnames word name nameSpan equals hder⟩
    · have htakes := htaken.cons hname
      simp only [Bool.false_eq_true, if_false, pure_bind, lastEnd_bind, htakes.lastEnd,
        hstart] at h
      cases h
      exact ⟨_, htakes, .var hnames word name nameSpan⟩
  · obtain ⟨e, c₁, he, h⟩ := bind_eq_ok.1 h
    obtain ⟨us, hus, hder⟩ := expression_sound steps _ _ _ he
    obtain ⟨t', us, rfl, -⟩ := starts_of_expression hder
    have hfirst : t = t' := (List.cons.inj hus.tokens).1
    cases h
    rw [hfirst]
    exact ⟨_, hfirst ▸ hus, .expr hder⟩

theorem returned_sound (steps : Nat) {word : Span} {ts : List Token} {c' : Cursor} {s : Stmt}
    (h : returned lines steps word.start ⟨ts, word.stop⟩ = .ok (s, c')) :
    ∃ us, Takes us ⟨ts, word.stop⟩ c' ∧
      Simple lines.lineAt (⟨.keyword .returnWord, word⟩ :: us) s := by
  unfold returned at h
  rw [kindAt_bind] at h
  -- something other than a `;` follows
  have hvalue (h : (do
      let value ← some <$> expression steps
      pure (.ret value ⟨word.start, ← lastEnd⟩ (lines.lineAt word.start)) : Reader Stmt)
        ⟨ts, word.stop⟩ = .ok (s, c')) :
      ∃ us, Takes us ⟨ts, word.stop⟩ c' ∧
        Simple lines.lineAt (⟨.keyword .returnWord, word⟩ :: us) s := by
    obtain ⟨value, c₁, hvalue, h⟩ := bind_eq_ok.1 h
    obtain ⟨e, he, rfl⟩ := map_eq_ok.1 hvalue
    obtain ⟨us, hus, hder⟩ := expression_sound steps _ _ _ he
    simp only [lastEnd_bind, hus.lastEnd] at h
    cases h
    exact ⟨us, hus, .retValue word hder⟩
  cases ts with
  | nil =>
    cases h
    exact ⟨[], .refl _, .ret word⟩
  | cons t ts =>
    obtain ⟨kind, span⟩ := t
    cases kind with
    | symbol sign =>
      cases sign with
      | semicolon =>
        cases h
        exact ⟨[], .refl _, .ret word⟩
      | _ => exact hvalue h
    | _ => exact hvalue h

theorem thrown_sound (steps : Nat) {word : Span} {ts : List Token} {c' : Cursor} {s : Stmt}
    (h : thrown lines steps word.start ⟨ts, word.stop⟩ = .ok (s, c')) :
    ∃ us, Takes us ⟨ts, word.stop⟩ c' ∧
      Simple lines.lineAt (⟨.keyword .throwWord, word⟩ :: us) s := by
  obtain ⟨e, c₁, he, h⟩ := bind_eq_ok.1 h
  obtain ⟨us, hus, hder⟩ := expression_sound steps _ _ _ he
  simp only [lastEnd_bind, hus.lastEnd] at h
  cases h
  exact ⟨us, hus, .throw word hder⟩

theorem simpleStatement_sound (steps : Nat) :
    Sound (Simple lines.lineAt) (simpleStatement lines steps) := by
  intro c s c' h
  obtain ⟨ts, k⟩ := c
  cases ts with
  | nil =>
    -- there is no expression to read
    have hnone : simpleStatement lines steps ⟨[], k⟩ =
        plainStatement lines steps k ⟨[], k⟩ := rfl
    rw [hnone, plainStatement, atDeclaration_bind] at h
    simp only [declares, Bool.false_eq_true] at h
    obtain ⟨e, c₁, he, -⟩ := bind_eq_ok.1 h
    obtain ⟨us, hus, hder⟩ := expression_sound steps _ _ _ he
    obtain ⟨t, us', rfl, -⟩ := starts_of_expression hder
    have hempty := hus.tokens
    cases hempty
  | cons t ts =>
    by_cases hreturn : t.kind = .keyword .returnWord
    · obtain ⟨kind, word⟩ := t
      subst hreturn
      rw [simpleStatement_return] at h
      obtain ⟨us, hus, hder⟩ := returned_sound steps h
      exact ⟨_, (takes_one _ _ _).cons hus, hder⟩
    by_cases hthrow : t.kind = .keyword .throwWord
    · obtain ⟨kind, word⟩ := t
      subst hthrow
      rw [simpleStatement_throw] at h
      obtain ⟨us, hus, hder⟩ := thrown_sound steps h
      exact ⟨_, (takes_one _ _ _).cons hus, hder⟩
    rw [simpleStatement_plain steps ts k hreturn hthrow] at h
    exact plainStatement_sound steps h

/-- The `;` of a statement may only be missing at the end of the source. -/
theorem statement_sound (steps : Nat) (topLevel : Bool) {c c' : Cursor} {s : Stmt}
    (h : statement lines steps topLevel c = .ok (s, c')) :
    ∃ ts us, Takes (ts ++ us) c c' ∧ Simple lines.lineAt ts s ∧
      ((∃ semicolon, us = [⟨.symbol .semicolon, semicolon⟩]) ∨
        (topLevel = true ∧ us = [] ∧ c'.tokens = [])) := by
  unfold statement at h
  obtain ⟨s', c₁, hs, h⟩ := bind_eq_ok.1 h
  obtain ⟨ts, hts, hder⟩ := simpleStatement_sound steps _ _ _ hs
  obtain ⟨found, c₂, heat, h⟩ := bind_eq_ok.1 h
  rcases eat_cases heat with ⟨rfl, semicolon, hsemicolon⟩ | ⟨rfl, rfl, -⟩
  · cases h
    exact ⟨ts, _, hts.trans hsemicolon, hder, .inl ⟨semicolon, rfl⟩⟩
  · cases topLevel with
    | false =>
      exact (fail_eq_ok.1 h).elim
    | true =>
      simp only [Bool.true_and, Bool.false_eq_true, if_false] at h
      rw [atEnd_bind] at h
      split at h
      · rename_i hend
        cases h
        refine ⟨ts, [], by simpa using hts, hder, .inr ⟨rfl, rfl, ?_⟩⟩
        exact List.isEmpty_iff.1 hend
      · exact (fail_eq_ok.1 h).elim

theorem statementsFrom_sound (exprSteps steps : Nat) {c c' : Cursor} {body : List Stmt}
    (h : statementsFrom lines exprSteps steps c = .ok (body, c')) :
    ∃ ts closing, Takes (ts ++ [⟨.symbol .closeBrace, closing⟩]) c c' ∧
      Statements lines.lineAt ts body := by
  induction steps generalizing c body with
  | zero => exact (fail_eq_ok.1 h).elim
  | succ steps ih =>
    unfold statementsFrom at h
    obtain ⟨found, c₁, heat, h⟩ := bind_eq_ok.1 h
    rcases eat_cases heat with ⟨rfl, closing, hclose⟩ | ⟨rfl, rfl, -⟩
    · cases h
      exact ⟨[], closing, hclose, .nil⟩
    · simp only [Bool.false_eq_true, if_false] at h
      rw [atEnd_bind] at h
      split at h
      · exact (fail_eq_ok.1 h).elim
      · obtain ⟨s, c₂, hs, h⟩ := bind_eq_ok.1 h
        obtain ⟨ts, us, htakes, hder, hus⟩ := statement_sound exprSteps false hs
        rcases hus with ⟨semicolon, rfl⟩ | ⟨hfalse, -⟩
        · obtain ⟨later, c₃, hlater, h⟩ := bind_eq_ok.1 h
          obtain ⟨rfl, rfl⟩ := pure_eq_ok.1 h
          obtain ⟨vs, closing, hvs, hbody⟩ := ih hlater
          refine ⟨ts ++ ⟨.symbol .semicolon, semicolon⟩ :: vs, closing, ?_,
            .cons semicolon hder hbody⟩
          have := htakes.trans hvs
          simpa using this
        · cases hfalse

/-- One parameter. -/
def param : Reader Param := do
  let first ← current
  let type ← typeName
  if type = .infer then
    refuse "'var' is not allowed here" ((first.map Token.span).getD default)
  else
    let (name, _) ← identifier
    pure ⟨type, name⟩

theorem paramsFrom_eq (steps : Nat) : paramsFrom steps = listFrom param "<identifier>" steps := by
  induction steps with
  | zero => rfl
  | succ steps ih =>
    rw [paramsFrom, listFrom, ih]
    generalize listFrom param "<identifier>" steps = later
    rw [param, bind_assoc]
    refine bind_congr fun first => ?_
    rw [bind_assoc]
    refine bind_congr fun type => ?_
    split
    · rfl
    · simp only [bind_assoc, pure_bind]

theorem params_eq (steps : Nat) : params steps = list param "<identifier>" steps := by
  unfold params list
  rw [paramsFrom_eq]

theorem param_sound : Sound Parameter param := by
  intro c p c' h
  unfold param at h
  rw [current_bind] at h
  obtain ⟨type, c₁, htype, h⟩ := bind_eq_ok.1 h
  obtain ⟨kind, word, htaken, hnames⟩ := typeName_sound htype
  split at h
  · exact (refuse_eq_ok.1 h).elim
  · rename_i hvar
    obtain ⟨⟨name, nameSpan⟩, c₂, hname, h⟩ := bind_eq_ok.1 h
    cases h
    exact ⟨_, htaken.cons (identifier_sound hname), .mk hnames hvar word name nameSpan⟩

theorem method_sound (steps : Nat) : Sound (Method lines.lineAt) (method lines steps) := by
  intro c m c' h
  unfold method at h
  obtain ⟨returns, c₁, hreturns, h⟩ := bind_eq_ok.1 h
  obtain ⟨kind, word, htype, hnames⟩ := typeName_sound hreturns
  obtain ⟨⟨name, nameSpan⟩, c₂, hname, h⟩ := bind_eq_ok.1 h
  obtain ⟨_, c₃, hopen, h⟩ := bind_eq_ok.1 h
  obtain ⟨openParen, hopen⟩ := expect_sound hopen
  obtain ⟨ps, c₄, hps, h⟩ := bind_eq_ok.1 h
  rw [params_eq] at hps
  obtain ⟨parts, us, closeParen, hlisted, hlist, hall, rfl⟩ := list_sound param_sound _ _ hps
  obtain ⟨_, c₅, hbrace, h⟩ := bind_eq_ok.1 h
  obtain ⟨openBrace, hbrace⟩ := expect_sound hbrace
  obtain ⟨body, c₆, hbody, h⟩ := bind_eq_ok.1 h
  obtain ⟨vs, closeBrace, hstatements, hder⟩ := statementsFrom_sound _ _ hbody
  cases h
  have hhead := htype.cons ((identifier_sound hname).cons hopen)
  refine ⟨_, ?_, .mk hnames name word nameSpan openParen closeParen openBrace closeBrace hlist
    hall hder⟩
  have := ((hhead.trans hlisted).trans hbrace).trans hstatements
  simpa using this

theorem methodsFrom_sound (bodySteps steps : Nat) {c c' : Cursor} {ms : List MethodDecl}
    (h : methodsFrom lines bodySteps steps c = .ok (ms, c')) :
    ∃ ts closing, Takes (ts ++ [⟨.symbol .closeBrace, closing⟩]) c c' ∧
      Methods lines.lineAt ts ms := by
  induction steps generalizing c ms with
  | zero => exact (fail_eq_ok.1 h).elim
  | succ steps ih =>
    unfold methodsFrom at h
    obtain ⟨found, c₁, heat, h⟩ := bind_eq_ok.1 h
    rcases eat_cases heat with ⟨rfl, closing, hclose⟩ | ⟨rfl, rfl, -⟩
    · cases h
      exact ⟨[], closing, hclose, .nil⟩
    · simp only [Bool.false_eq_true, if_false] at h
      rw [current_bind] at h
      obtain ⟨ts, k⟩ := c
      cases ts with
      | nil => exact (fail_eq_ok.1 h).elim
      | cons t ts =>
        simp only [List.head?_cons, atDeclaration_bind] at h
        split at h
        · obtain ⟨m, c₂, hm, h⟩ := bind_eq_ok.1 h
          obtain ⟨us, hus, hder⟩ := method_sound bodySteps _ _ _ hm
          obtain ⟨later, c₃, hlater, h⟩ := bind_eq_ok.1 h
          obtain ⟨rfl, rfl⟩ := pure_eq_ok.1 h
          obtain ⟨vs, closing, hvs, hmethods⟩ := ih hlater
          refine ⟨us ++ vs, closing, ?_, .cons hder hmethods⟩
          rw [List.append_assoc]
          exact hus.trans hvs
        · exact (refuse_eq_ok.1 h).elim

theorem classDecl_sound (steps : Nat) {word : Span} {c c₁ c' : Cursor} {decl : ClassDecl}
    (hword : Takes [⟨.keyword .classWord, word⟩] c c₁)
    (h : classDecl lines steps c₁ = .ok (decl, c')) :
    ∃ ts, Takes ts c c' ∧ Class lines.lineAt ts decl := by
  unfold classDecl at h
  obtain ⟨⟨name, nameSpan⟩, c₂, hname, h⟩ := bind_eq_ok.1 h
  obtain ⟨_, c₃, hopen, h⟩ := bind_eq_ok.1 h
  obtain ⟨opening, hopen⟩ := expect_sound hopen
  obtain ⟨ms, c₄, hms, h⟩ := bind_eq_ok.1 h
  obtain ⟨ts, closing, hmethods, hder⟩ := methodsFrom_sound _ _ hms
  cases h
  exact ⟨_, (hword.cons (identifier_sound hname)).trans (hopen.trans hmethods),
    .mk name word nameSpan opening closing hder⟩

/-- A `;` that may be missing. -/
theorem eat_semicolon_sound {c c' : Cursor} {found : Bool}
    (h : eat .semicolon c = .ok (found, c')) : ∃ us, Takes us c c' ∧ MaySemicolon us := by
  rcases eat_cases h with ⟨-, s, hs⟩ | ⟨-, rfl, -⟩
  · exact ⟨_, hs, .present s⟩
  · exact ⟨[], .refl c, .absent⟩

/-- A unit that is no class. -/
def methodOrStatement (lines : LineTable) (steps : Nat) : Reader Item := do
  if (← atDeclaration) && (← kindAt 2) == some (.symbol .openParen) then
    let decl ← method lines steps
    let _ ← eat .semicolon
    pure (.method decl)
  else
    let stmt ← statement lines steps true
    pure (.stmt stmt)

theorem item_class (steps : Nat) (word : Span) (ts : List Token) (k : UInt32) :
    item lines steps ⟨⟨.keyword .classWord, word⟩ :: ts, k⟩ = (do
      let decl ← classDecl lines steps
      let _ ← eat .semicolon
      pure (.typeDecl decl) : Reader Item) ⟨ts, word.stop⟩ := rfl

theorem item_plain (steps : Nat) {ts : List Token} (k : UInt32)
    (h : NotAhead (· = .keyword .classWord) ts) :
    item lines steps ⟨ts, k⟩ = methodOrStatement lines steps ⟨ts, k⟩ := by
  cases ts with
  | nil => rfl
  | cons t ts =>
    obtain ⟨kind, span⟩ := t
    cases kind with
    | keyword word =>
      cases word with
      | classWord => simp at h
      | _ => rfl
    | _ => rfl

theorem methodOrStatement_sound (steps : Nat) :
    Sound (TopLevel lines.lineAt) (methodOrStatement lines steps) := by
  intro c i c' h
  unfold methodOrStatement at h
  rw [atDeclaration_bind, kindAt_bind] at h
  split at h
  · obtain ⟨decl, c₁, hdecl, h⟩ := bind_eq_ok.1 h
    obtain ⟨us, hus, hder⟩ := method_sound steps _ _ _ hdecl
    obtain ⟨found, c₂, heat, h⟩ := bind_eq_ok.1 h
    obtain ⟨vs, hvs, hend⟩ := eat_semicolon_sound heat
    cases h
    exact ⟨us ++ vs, hus.trans hvs, .method hder hend⟩
  · obtain ⟨s, c₁, hs, h⟩ := bind_eq_ok.1 h
    obtain ⟨us, vs, htakes, hder, hend⟩ := statement_sound steps true hs
    cases h
    refine ⟨us ++ vs, htakes, .stmt hder ?_⟩
    rcases hend with ⟨semicolon, rfl⟩ | ⟨-, rfl, -⟩
    · exact .present semicolon
    · exact .absent

theorem item_sound (steps : Nat) : Sound (TopLevel lines.lineAt) (item lines steps) := by
  intro c i c' h
  obtain ⟨ts, k⟩ := c
  rcases ahead_or_not (· = .keyword .classWord) ts with hplain | ⟨⟨kind, word⟩, us, rfl, rfl⟩
  · rw [item_plain steps k hplain] at h
    exact methodOrStatement_sound steps _ _ _ h
  · rw [item_class] at h
    obtain ⟨decl, c₁, hdecl, h⟩ := bind_eq_ok.1 h
    obtain ⟨us, hus, hder⟩ := classDecl_sound steps (takes_one _ _ k) hdecl
    obtain ⟨found, c₂, heat, h⟩ := bind_eq_ok.1 h
    obtain ⟨vs, hvs, hend⟩ := eat_semicolon_sound heat
    cases h
    exact ⟨us ++ vs, hus.trans hvs, .typeDecl hder hend⟩

/-! ## What phrases start with -/

theorem declares_of_namesType {kind : TokenKind} {type : TypeName} (h : NamesType kind type)
    (word : Span) (name : String) (nameSpan : Span) (ts : List Token) :
    declares (⟨kind, word⟩ :: ⟨.identifier name, nameSpan⟩ :: ts) = true := by
  cases h <;> rfl

theorem not_symbol_of_namesType {kind : TokenKind} {type : TypeName} (h : NamesType kind type)
    (sign : Symbol) : kind ≠ .symbol sign := by
  cases h <;> simp

/-- The words that only start something other than a declaration. -/
theorem not_word_of_namesType {kind : TokenKind} {type : TypeName} (h : NamesType kind type)
    {word : Keyword} (hword : typeOfKeyword? word = none) : kind ≠ .keyword word := by
  rintro rfl
  cases h <;> cases hword

/-- An expression never looks like a declaration, whatever may follow it. -/
theorem declares_of_expression {l : Level} {ts : List Token} {e : Expr}
    (h : Expression l ts e) {rest : List Token}
    (hrest : NotAhead (fun kind => ∃ name, kind = .identifier name) rest) :
    declares (ts ++ rest) = false := by
  induction h generalizing rest with
  | ofProduct _ ih | ofSigned _ ih | ofSuffixed _ ih | ofPrimary _ ih => exact ih hrest
  | binary op hop s hl hr ihl _ =>
    rw [List.append_assoc]
    exact ihl ((notAhead_cons _ _ _).2 (by simp))
  | methodCall method dot name opening closing hr hlist hargs ihr _ =>
    rw [List.append_assoc]
    exact ihr ((notAhead_cons _ ⟨.symbol .dot, dot⟩ _).2 (by simp))
  | name name s =>
    cases rest with
    | nil => rfl
    | cons t rest =>
      obtain ⟨kind, span⟩ := t
      cases kind with
      | identifier found => simp at hrest
      | _ => rfl
  | _ => rfl

/-- The only symbols that a statement starts with are those of an expression. -/
theorem head_of_simple {line : UInt32 → UInt32} {ts : List Token} {s : Stmt}
    (h : Simple line ts s) :
    ∃ t us, ts = t :: us ∧ ∀ sign, t.kind = .symbol sign → sign = .openParen ∨ sign = .minus := by
  cases h with
  | var htype | varInit htype =>
    exact ⟨_, _, rfl, fun sign hkind => (not_symbol_of_namesType htype sign hkind).elim⟩
  | expr he =>
    obtain ⟨t, us, hts, hstart⟩ := starts_of_expression he
    refine ⟨t, us, hts, ?_⟩
    intro sign hkind
    rw [hkind] at hstart
    exact hstart.imp id And.left
  | _ => exact ⟨_, _, rfl, by simp⟩

/-- No unit starts with a `;`. -/
theorem head_of_topLevel {line : UInt32 → UInt32} {ts : List Token} {item : Item}
    (h : TopLevel line ts item) : ∃ t us, ts = t :: us ∧ t.kind ≠ .symbol .semicolon := by
  cases h with
  | typeDecl hdecl hend =>
    cases hdecl with
    | mk => exact ⟨_, _, rfl, by simp⟩
  | method hdecl hend =>
    cases hdecl with
    | mk htype => exact ⟨_, _, rfl, not_symbol_of_namesType htype _⟩
  | stmt hs hend =>
    obtain ⟨t, us, rfl, ht⟩ := head_of_simple hs
    refine ⟨t, _, rfl, ?_⟩
    intro hkind
    rcases ht _ hkind with h | h <;> cases h

/-! ## What is derived is read -/

/-- A `;` or the end makes nothing more of an expression. -/
theorem notAhead_extends_of_end {rest : List Token}
    (h : NotAhead (· ≠ .symbol .semicolon) rest) : NotAhead (Extends .sum) rest := by
  refine h.mono ?_
  rintro _ hextends rfl
  exact hextends

theorem returned_value (steps : Nat) (start : UInt32) {t : Token} (ts : List Token) (k : UInt32)
    (h : t.kind ≠ .symbol .semicolon) :
    returned lines steps start ⟨t :: ts, k⟩ = (do
      let value ← some <$> expression steps
      pure (.ret value ⟨start, ← lastEnd⟩ (lines.lineAt start)) : Reader Stmt) ⟨t :: ts, k⟩ := by
  obtain ⟨kind, span⟩ := t
  cases kind with
  | symbol sign =>
    cases sign with
    | semicolon => exact (h rfl).elim
    | _ => rfl
  | _ => rfl

theorem plainStatement_declares (steps : Nat) (start : UInt32) {kind : TokenKind}
    {type : TypeName} (h : NamesType kind type) (word : Span) (name : String) (nameSpan : Span)
    (ts : List Token) (k : UInt32) :
    plainStatement lines steps start ⟨⟨kind, word⟩ :: ⟨.identifier name, nameSpan⟩ :: ts, k⟩ =
      (do
        let init ← if ← eat .equals then some <$> expression steps else pure none
        pure (.var ⟨type, name, init, ⟨start, ← lastEnd⟩, lines.lineAt start⟩) : Reader Stmt)
        ⟨ts, nameSpan.stop⟩ := by
  rw [plainStatement, atDeclaration_bind, declares_of_namesType h, if_pos rfl, typeName_bind h,
    identifier_bind]

theorem simpleStatement_complete {ts : List Token} {s : Stmt} (h : Simple lines.lineAt ts s)
    {steps : Nat} (hsteps : ts.length < steps) :
    Reads (simpleStatement lines steps) ts s (NotAhead (· ≠ .symbol .semicolon)) := by
  intro k rest hrest
  have hvalue {us : List Token} {e : Expr} (he : Expression .sum us e) (hus : us.length < steps)
      (stop : UInt32) :
      expression steps ⟨us ++ rest, stop⟩ = .ok (e, ⟨rest, stopAfter stop us⟩) :=
    expression_complete he hus stop rest (notAhead_extends_of_end hrest)
  cases h with
  | ret word =>
    rw [List.singleton_append, simpleStatement_return, returned, kindAt_bind]
    cases rest with
    | nil => rfl
    | cons t rest =>
      obtain ⟨kind, span⟩ := t
      obtain rfl : kind = .symbol .semicolon := by simpa using hrest
      rfl
  | retValue word he =>
    rw [List.length_cons] at hsteps
    have hread := hvalue he (by omega) word.stop
    obtain ⟨t, us, rfl, hstart⟩ := starts_of_expression he
    have hkind : t.kind ≠ .symbol .semicolon := by
      intro hkind
      rw [hkind] at hstart
      simp [Starts] at hstart
    rw [List.cons_append, simpleStatement_return, List.cons_append, returned_value _ _ _ _ hkind,
      ← List.cons_append, bind_of_ok (map_of_ok hread some), lastEnd_bind]
    rfl
  | throw word he =>
    rw [List.length_cons] at hsteps
    rw [List.cons_append, simpleStatement_throw, thrown,
      bind_of_ok (hvalue he (by omega) word.stop), lastEnd_bind]
    rfl
  | var htype word name nameSpan =>
    simp only [List.cons_append, List.nil_append]
    rw [simpleStatement_plain _ _ _ (not_word_of_namesType htype rfl)
      (not_word_of_namesType htype rfl), plainStatement_declares _ _ htype,
      bind_of_ok (eat_of_notAhead _ (hrest.mono ?_))]
    · rfl
    · rintro _ rfl
      simp
  | varInit htype word name nameSpan equals he =>
    simp only [List.length_cons] at hsteps
    simp only [List.cons_append]
    rw [simpleStatement_plain _ _ _ (not_word_of_namesType htype rfl)
      (not_word_of_namesType htype rfl), plainStatement_declares _ _ htype,
      bind_of_ok (eat_of_ahead _ _ _ _), if_pos rfl,
      bind_of_ok (map_of_ok (hvalue he (by omega) equals.stop) some)]
    rfl
  | @expr t us e he =>
    have hread := hvalue he hsteps k
    obtain ⟨t', us', hts, hstart⟩ := starts_of_expression he
    obtain ⟨rfl, rfl⟩ := List.cons.inj hts
    have hword (word : Keyword) (hword : word = .returnWord ∨ word = .throwWord) :
        t.kind ≠ .keyword word := by
      intro hkind
      rw [hkind] at hstart
      rcases hword with rfl | rfl <;> simp [Starts] at hstart
    have hdeclares : declares (t :: us ++ rest) = false :=
      declares_of_expression he (hrest.mono (by rintro _ ⟨name, rfl⟩; simp))
    rw [List.cons_append, simpleStatement_plain _ _ _ (hword _ (.inl rfl)) (hword _ (.inr rfl)),
      plainStatement, atDeclaration_bind, ← List.cons_append, hdeclares,
      if_neg Bool.false_ne_true, bind_of_ok hread]
    rfl

theorem statement_complete {ts : List Token} {s : Stmt} (h : Simple lines.lineAt ts s)
    {steps : Nat} (hsteps : ts.length < steps) (topLevel : Bool) (semicolon : Span)
    (rest : List Token) (k : UInt32) :
    statement lines steps topLevel ⟨ts ++ ⟨.symbol .semicolon, semicolon⟩ :: rest, k⟩ =
      .ok (s, ⟨rest, semicolon.stop⟩) := by
  unfold statement
  rw [bind_of_ok (simpleStatement_complete h hsteps k _ ((notAhead_cons _ _ _).2 (by simp))),
    bind_of_ok (eat_of_ahead _ _ _ _)]
  rfl

theorem statementsFrom_complete {ts : List Token} {body : List Stmt}
    (h : Statements lines.lineAt ts body) {exprSteps steps : Nat} (hexpr : ts.length < exprSteps)
    (hsteps : ts.length < steps) (closing : Span) (rest : List Token) (k : UInt32) :
    statementsFrom lines exprSteps steps ⟨ts ++ ⟨.symbol .closeBrace, closing⟩ :: rest, k⟩ =
      .ok (body, ⟨rest, closing.stop⟩) := by
  induction h generalizing steps k with
  | nil =>
    obtain ⟨steps, rfl⟩ : ∃ n, steps = n + 1 := ⟨steps - 1, by omega⟩
    rw [statementsFrom, List.nil_append, bind_of_ok (eat_of_ahead _ _ _ _)]
    rfl
  | cons semicolon hs _ ih =>
    rw [List.length_append, List.length_cons] at hexpr hsteps
    obtain ⟨steps, rfl⟩ : ∃ n, steps = n + 1 := ⟨steps - 1, by omega⟩
    have hstatement := statement_complete hs (show _ < exprSteps by omega) false semicolon
    obtain ⟨t, us, rfl, ht⟩ := head_of_simple hs
    have ht : t.kind ≠ .symbol .closeBrace := by
      intro hkind
      rcases ht _ hkind with h | h <;> cases h
    rw [statementsFrom, List.append_assoc, List.cons_append, List.cons_append,
      bind_of_ok (eat_of_notAhead _ ((notAhead_cons _ _ _).2 ht)), if_neg Bool.false_ne_true,
      atEnd_bind, List.isEmpty_cons, if_neg Bool.false_ne_true, ← List.cons_append,
      bind_of_ok (hstatement _ k), bind_of_ok (ih (by omega) (by omega) _)]
    rfl

theorem param_complete {ts : List Token} {p : Param} (h : Parameter ts p) :
    ReadsListed param ts p := by
  intro k rest _
  cases h with
  | mk htype hvar word name nameSpan =>
    rw [param, List.cons_append, List.singleton_append, current_bind, typeName_bind htype,
      if_neg hvar, identifier_bind]
    rfl

theorem method_complete {ts : List Token} {m : MethodDecl} (h : Method lines.lineAt ts m)
    {steps : Nat} (hsteps : ts.length < steps) :
    Reads (method lines steps) ts m (fun _ => True) := by
  intro k rest _
  cases h with
  | mk htype name word nameSpan openParen closeParen openBrace closeBrace hlist hparams hbody =>
    rename_i us vs parts body
    simp only [List.length_append, List.length_cons, List.length_nil] at hsteps
    simp only [List.append_assoc, List.cons_append, List.nil_append]
    have hps : params steps ⟨us ++ ⟨.symbol .closeParen, closeParen⟩ ::
        ⟨.symbol .openBrace, openBrace⟩ :: (vs ++ ⟨.symbol .closeBrace, closeBrace⟩ :: rest),
        openParen.stop⟩ = .ok (parts.map Prod.snd, ⟨⟨.symbol .openBrace, openBrace⟩ ::
        (vs ++ ⟨.symbol .closeBrace, closeBrace⟩ :: rest), closeParen.stop⟩) := by
      rw [params_eq]
      refine list_complete _ hlist (fun p hp => param_complete (hparams p hp)) ?_ (by omega) _ _ _
      intro p hp
      obtain ⟨ts, a⟩ := p
      cases hparams _ hp with
      | mk htype => exact ⟨_, _, rfl, not_symbol_of_namesType htype _⟩
    rw [method, typeName_bind htype, identifier_bind]
    dsimp only
    rw [expect_bind, bind_of_ok hps, expect_bind,
      bind_of_ok (statementsFrom_complete hbody (by omega) (by omega) _ _ _)]
    simp only [stopAfter_cons, stopAfter_append, stopAfter_nil]
    rfl

theorem methodsFrom_complete {ts : List Token} {ms : List MethodDecl}
    (h : Methods lines.lineAt ts ms) {bodySteps steps : Nat} (hbody : ts.length < bodySteps)
    (hsteps : ts.length < steps) (closing : Span) (rest : List Token) (k : UInt32) :
    methodsFrom lines bodySteps steps ⟨ts ++ ⟨.symbol .closeBrace, closing⟩ :: rest, k⟩ =
      .ok (ms, ⟨rest, closing.stop⟩) := by
  induction h generalizing steps k with
  | nil =>
    obtain ⟨steps, rfl⟩ : ∃ n, steps = n + 1 := ⟨steps - 1, by omega⟩
    rw [methodsFrom, List.nil_append, bind_of_ok (eat_of_ahead _ _ _ _)]
    rfl
  | @cons ts us m ms hm _ ih =>
    rw [List.length_append] at hbody hsteps
    have hread := method_complete hm (show ts.length < bodySteps by omega)
    have hhead : ∃ kind type word name nameSpan vs, NamesType kind type ∧
        ts = ⟨kind, word⟩ :: ⟨.identifier name, nameSpan⟩ :: vs := by
      cases hm with
      | mk htype => exact ⟨_, _, _, _, _, _, htype, rfl⟩
    obtain ⟨kind, type, word, name, nameSpan, vs, htype, rfl⟩ := hhead
    simp only [List.length_cons] at hbody hsteps
    obtain ⟨steps, rfl⟩ : ∃ n, steps = n + 1 := ⟨steps - 1, by omega⟩
    have hlater := ih (by omega) (show us.length < steps by omega)
    rw [methodsFrom, List.append_assoc, List.cons_append, List.cons_append,
      bind_of_ok (eat_of_notAhead _ ((notAhead_cons _ _ _).2 (not_symbol_of_namesType htype _))),
      if_neg Bool.false_ne_true, current_bind]
    simp only [List.head?_cons, atDeclaration_bind, declares_of_namesType htype, if_true]
    rw [← List.cons_append, ← List.cons_append, bind_of_ok (hread k _ trivial),
      bind_of_ok (hlater _)]
    rfl

theorem classDecl_complete {ts : List Token} {decl : ClassDecl} (h : Class lines.lineAt ts decl)
    {steps : Nat} (hsteps : ts.length < steps) :
    ∃ word us, ts = ⟨.keyword .classWord, word⟩ :: us ∧
      Reads (classDecl lines steps) us decl (fun _ => True) := by
  cases h with
  | mk name word nameSpan opening closing hms =>
    simp only [List.length_append, List.length_cons, List.length_nil] at hsteps
    refine ⟨word, _, rfl, ?_⟩
    intro k rest _
    simp only [List.append_eq, List.append_assoc, List.cons_append, List.nil_append]
    rw [classDecl, identifier_bind]
    dsimp only
    rw [expect_bind, bind_of_ok (methodsFrom_complete hms (by omega) (by omega) _ _ _)]
    simp only [stopAfter_cons, stopAfter_append, stopAfter_nil]
    rfl

theorem eat_semicolon_complete {us : List Token} (h : MaySemicolon us) (k : UInt32) :
    ∃ found, eat .semicolon ⟨us, k⟩ = .ok (found, ⟨[], stopAfter k us⟩) := by
  cases h with
  | absent => exact ⟨false, rfl⟩
  | present s => exact ⟨true, rfl⟩

/-- A statement at the end of the source, its `;` written or not, is not read as a method. -/
theorem methodOrStatement_stmt {ts us : List Token} {s : Stmt} (h : Simple lines.lineAt ts s)
    (hend : MaySemicolon us) {steps : Nat} (hsteps : ts.length < steps) (k : UInt32) :
    methodOrStatement lines steps ⟨ts ++ us, k⟩ =
      .ok (.stmt s, ⟨[], stopAfter k (ts ++ us)⟩) := by
  have hus : NotAhead (· ≠ .symbol .semicolon) us := by
    cases hend <;> simp
  have hmethod : (declares (ts ++ us) &&
      (ts ++ us)[2]?.map Token.kind == some (.symbol .openParen)) = false := by
    cases h with
    | ret | retValue | throw => rfl
    | var htype => cases hend <;> simp
    | varInit htype => simp
    | expr he =>
      rw [declares_of_expression he (hus.mono (by rintro _ ⟨name, rfl⟩; simp)), Bool.false_and]
  have hstatement : statement lines steps true ⟨ts ++ us, k⟩ =
      .ok (s, ⟨[], stopAfter k (ts ++ us)⟩) := by
    unfold statement
    rw [bind_of_ok (simpleStatement_complete h hsteps k us hus)]
    cases hend with
    | absent =>
      rw [bind_of_ok (eat_of_notAhead _ (notAhead_nil _)), List.append_nil]
      rfl
    | present semicolon =>
      rw [bind_of_ok (eat_of_ahead _ _ _ _), stopAfter_append]
      rfl
  rw [methodOrStatement, atDeclaration_bind, kindAt_bind, hmethod, if_neg Bool.false_ne_true,
    bind_of_ok hstatement]
  rfl

theorem methodOrStatement_method {ts us : List Token} {decl : MethodDecl}
    (h : Method lines.lineAt ts decl) (hend : MaySemicolon us) {steps : Nat}
    (hsteps : ts.length < steps) (k : UInt32) :
    methodOrStatement lines steps ⟨ts ++ us, k⟩ =
      .ok (.method decl, ⟨[], stopAfter k (ts ++ us)⟩) := by
  have hmethod : (declares (ts ++ us) &&
      (ts ++ us)[2]?.map Token.kind == some (.symbol .openParen)) = true := by
    cases h with
    | mk htype =>
      simp [declares_of_namesType htype]
  obtain ⟨found, heat⟩ := eat_semicolon_complete hend (stopAfter k ts)
  rw [methodOrStatement, atDeclaration_bind, kindAt_bind, hmethod, if_pos rfl,
    bind_of_ok (method_complete h hsteps k us trivial), bind_of_ok heat, stopAfter_append]
  rfl

theorem item_complete {ts : List Token} {i : Item} (h : TopLevel lines.lineAt ts i)
    {steps : Nat} (hsteps : ts.length < steps) (k : UInt32) :
    item lines steps ⟨ts, k⟩ = .ok (i, ⟨[], stopAfter k ts⟩) := by
  cases h with
  | @typeDecl ts us decl hdecl hend =>
    rw [List.length_append] at hsteps
    obtain ⟨word, vs, rfl, hread⟩ := classDecl_complete hdecl (show _ < steps by omega)
    obtain ⟨found, heat⟩ := eat_semicolon_complete hend (stopAfter word.stop vs)
    rw [List.cons_append, item_class, bind_of_ok (hread word.stop us trivial), bind_of_ok heat,
      stopAfter_cons, stopAfter_append]
    rfl
  | @method ts us decl hdecl hend =>
    rw [List.length_append] at hsteps
    have hplain : NotAhead (· = .keyword .classWord) (ts ++ us) := by
      cases hdecl with
      | mk htype =>
        exact (notAhead_cons _ ⟨_, _⟩ _).2 (not_word_of_namesType htype rfl)
    rw [item_plain _ _ hplain]
    exact methodOrStatement_method hdecl hend (by omega) k
  | @stmt ts us s hs hend =>
    rw [List.length_append] at hsteps
    have hplain : NotAhead (· = .keyword .classWord) (ts ++ us) := by
      cases hs with
      | var htype | varInit htype =>
        exact (notAhead_cons _ ⟨_, _⟩ _).2 (not_word_of_namesType htype rfl)
      | expr he =>
        obtain ⟨t, us', hts, hstart⟩ := starts_of_expression he
        rw [hts, List.cons_append, notAhead_cons]
        intro hkind
        rw [hkind] at hstart
        simp [Starts] at hstart
      | _ => exact (notAhead_cons _ ⟨_, _⟩ _).2 (by simp)
    rw [item_plain _ _ hplain]
    exact methodOrStatement_stmt hs hend (by omega) k

/-! ## Whole sources -/

theorem finish_eq_ok {c c' : Cursor} {u : Unit} :
    finish c = .ok (u, c') ↔ c.tokens = [] ∧ c = c' := by
  obtain ⟨ts, k⟩ := c
  unfold finish
  rw [current_bind]
  cases ts with
  | nil =>
    show (pure () : Reader Unit) ⟨[], k⟩ = .ok (u, c') ↔ _
    rw [pure_eq_ok]
    simp
  | cons t ts =>
    show (refuse _ _ : Reader Unit) _ = .ok (u, c') ↔ _
    rw [refuse_eq_ok]
    simp

/-- One item with nothing behind it. -/
def whole (lines : LineTable) (steps : Nat) : Reader Item := do
  let i ← item lines steps
  finish
  pure i

theorem whole_eq_ok {steps : Nat} {c c' : Cursor} {i : Item} :
    whole lines steps c = .ok (i, c') ↔
      item lines steps c = .ok (i, c') ∧ c'.tokens = [] := by
  simp only [whole, bind_eq_ok, finish_eq_ok, pure_eq_ok]
  constructor
  · intro h
    obtain ⟨_, c₁, hitem, _, c₂, ⟨hempty, rfl⟩, rfl, rfl⟩ := h
    exact ⟨hitem, hempty⟩
  · intro h
    obtain ⟨hitem, hempty⟩ := h
    exact ⟨i, c', hitem, (), c', ⟨hempty, rfl⟩, rfl, rfl⟩

end ReplEngine.Language.Reader

namespace ReplEngine.Language

open Reader Reading Grammar Text

/-- The lines of a source, as the grammar takes them. -/
def lineIn (source : String) : UInt32 → UInt32 := (LineTable.ofSource source.toList).lineAt

theorem Item.parse_eq_ok_iff (source : String) (item : Item) :
    Item.parse source = .ok item ↔
      TopLevel (lineIn source) (Token.scan source.toList) item := by
  have hparse : Item.parse source = (whole (LineTable.ofSource source.toList)
      ((Token.scan source.toList).length + 1) ⟨Token.scan source.toList, 0⟩).map Prod.fst := rfl
  rw [hparse]
  constructor
  · intro h
    obtain ⟨i, c, hwhole, rfl⟩ := map_fst_eq_ok.1 h
    obtain ⟨hitem, hempty⟩ := whole_eq_ok.1 hwhole
    obtain ⟨ts, htakes, hder⟩ := item_sound _ _ _ _ hitem
    have htokens : Token.scan source.toList = ts ++ c.tokens := htakes.tokens
    rw [hempty, List.append_nil] at htokens
    rw [htokens]
    exact hder
  · intro h
    have hitem := item_complete h (Nat.lt_succ_self _) 0
    exact map_fst_eq_ok.2 ⟨item, _, whole_eq_ok.2 ⟨hitem, rfl⟩, rfl⟩

/-- The reader accepts exactly the grammar: a source is read as an item if and only if its tokens
derive that item.  So a source has at most one reading, and one that has none is refused. -/
theorem parse_iff_derives (source : String) :
    (∀ item, Item.parse source = .ok item ↔
      TopLevel (lineIn source) (Token.scan source.toList) item) ∧
    (∀ i j, TopLevel (lineIn source) (Token.scan source.toList) i →
      TopLevel (lineIn source) (Token.scan source.toList) j → i = j) ∧
    ((¬ ∃ item, TopLevel (lineIn source) (Token.scan source.toList) item) →
      ∃ diag, Item.parse source = .error diag) := by
  refine ⟨Item.parse_eq_ok_iff source, ?_, ?_⟩
  · intro i j hi hj
    have hsame := ((Item.parse_eq_ok_iff source i).2 hi).symm.trans
      ((Item.parse_eq_ok_iff source j).2 hj)
    exact Except.ok.inj hsame
  · intro hnone
    cases hparse : Item.parse source with
    | error diag => exact ⟨diag, rfl⟩
    | ok item => exact (hnone ⟨item, (Item.parse_eq_ok_iff source item).1 hparse⟩).elim

end ReplEngine.Language
