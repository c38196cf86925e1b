import ReplEngine.Proofs.Syntax.Units
set_option autoImplicit false

/-!
# Where a unit is refused

A reader that refuses a unit points at a token of it, at the empty place behind one, or at the
start (`refused_span`).  One invariant of the cursor carries this through the readers: what can
still be pointed at from it (`Shows`).
-/

namespace ReplEngine.Language.Reader

open Reading Text

variable {P : Span → Prop} {α β : Type}

/-! ## What a cursor can point at -/

/-- What can be pointed at from the cursor is admitted by `P`. -/
structure Shows (P : Span → Prop) (c : Cursor) : Prop where
  token : ∀ t ∈ c.tokens, P t.span
  behind : ∀ t ∈ c.tokens, P (Span.point t.span.stop)
  lastEnd : P (Span.point c.lastEnd)

/-- The reader refuses a unit for spans that `P` admits, and hands on a cursor that shows no
others. -/
def Blames (P : Span → Prop) (p : Reader α) : Prop :=
  ∀ c, Shows P c →
    match p c with
    | .ok (_, c') => Shows P c'
    | .error d => P d.span

theorem blames_pure (a : α) : Blames P (pure a : Reader α) := fun _ hc => hc

theorem Blames.bind {p : Reader α} {f : α → Reader β} (hp : Blames P p)
    (hf : ∀ a, Blames P (f a)) : Blames P (p >>= f) := by
  intro c hc
  have hfirst := hp c hc
  simp only [Bind.bind, StateT.bind, Except.bind]
  cases hrun : p c with
  | error d =>
    rw [hrun] at hfirst
    exact hfirst
  | ok result =>
    rw [hrun] at hfirst
    exact hf result.1 result.2 hfirst

theorem Blames.map {p : Reader α} (hp : Blames P p) (f : α → β) : Blames P (f <$> p) := by
  rw [map_eq_pure_bind]
  exact hp.bind fun a => blames_pure (f a)

theorem Blames.ite {c : Prop} [Decidable c] {p q : Reader α} (hp : Blames P p)
    (hq : Blames P q) : Blames P (if c then p else q) := by
  by_cases hc : c
  · rwa [if_pos hc]
  · rwa [if_neg hc]

/-! ## The cursor -/

theorem blames_fail (expected : String) : Blames P (fail expected : Reader α) := by
  intro c hc
  show P (unexpected expected c).span
  obtain ⟨tokens, stop⟩ := c
  cases tokens with
  | nil => exact hc.lastEnd
  | cons t ts =>
    unfold unexpected
    split
    · exact hc.lastEnd
    · rename_i heq
      have ht : P t.span := hc.token t List.mem_cons_self
      cases heq
      split
      · exact ht
      · exact ht
      · exact ht
      · exact hc.lastEnd

theorem blames_refuse (message : String) {span : Span} (h : P span) :
    Blames P (refuse message span : Reader α) := fun _ _ => h

theorem blames_kindAt (ahead : Nat) : Blames P (kindAt ahead) := fun _ hc => hc

theorem blames_atEnd : Blames P atEnd := fun _ hc => hc

theorem blames_lastEnd : Blames P lastEnd := fun _ hc => hc

/-- A token that is looked at can be pointed at. -/
theorem blames_current_bind {f : Option Token → Reader α}
    (hf : ∀ first : Option Token, (∀ t ∈ first, P t.span) → Blames P (f first)) :
    Blames P (current >>= f) := by
  intro c hc
  rw [current_bind]
  exact hf _ (fun t ht => hc.token t (List.mem_of_mem_head? ht)) c hc

theorem blames_advance : Blames P advance := by
  intro c hc
  obtain ⟨tokens, stop⟩ := c
  cases tokens with
  | nil => exact hc
  | cons t ts =>
    exact ⟨(List.forall_mem_cons.mp hc.token).2, (List.forall_mem_cons.mp hc.behind).2,
      hc.behind t List.mem_cons_self⟩

theorem blames_eat (sign : Symbol) : Blames P (eat sign) := by
  refine (blames_kindAt 0).bind fun kind => ?_
  split
  · exact Blames.ite (blames_advance.bind fun _ => blames_pure _) (blames_pure _)
  · exact blames_pure _

theorem blames_expect (sign : Symbol) : Blames P (expect sign) :=
  (blames_eat sign).bind fun _ => Blames.ite (blames_fail _) (blames_pure _)

theorem blames_identifier : Blames P identifier := by
  refine blames_current_bind fun first _ => ?_
  split
  · exact blames_advance.bind fun _ => blames_pure _
  · exact blames_fail _

theorem blames_atDeclaration : Blames P atDeclaration := by
  refine (blames_kindAt 0).bind fun kind => ?_
  split
  · exact blames_pure _
  · refine (blames_kindAt 1).bind fun kind => ?_
    split <;> exact blames_pure _
  · exact blames_pure _

theorem blames_typeName : Blames P typeName := by
  refine (blames_kindAt 0).bind fun kind => ?_
  split
  · exact blames_advance.bind fun _ => blames_pure _
  · split
    · exact blames_advance.bind fun _ => blames_pure _
    · exact blames_fail _
  · exact blames_fail _

/-! ## Expressions -/

theorem blames_integer (digits : List Char) {span : Span} (h : P span) :
    Blames P (integer digits span) :=
  Blames.ite (blames_pure _) (blames_refuse _ h)

theorem blames_string (body : List Char) {span : Span} (h : P span) :
    Blames P (string body span) := by
  unfold string
  split
  · exact blames_pure _
  · exact blames_refuse _ h

theorem blames_joinLeft {operand : Reader Expr} (h : Blames P operand)
    (op? : TokenKind → Option BinaryOp) (steps : Nat) (lhs : Expr) :
    Blames P (joinLeft operand op? steps lhs) := by
  induction steps generalizing lhs with
  | zero => exact blames_fail _
  | succ steps ih =>
    refine (blames_kindAt 0).bind fun kind => ?_
    split
    · exact blames_pure _
    · exact blames_advance.bind fun _ => h.bind fun _ => ih _

theorem blames_leftAssociative {operand : Reader Expr} (h : Blames P operand)
    (op? : TokenKind → Option BinaryOp) (steps : Nat) :
    Blames P (leftAssociative operand op? steps) :=
  h.bind fun lhs => blames_joinLeft h op? steps lhs

theorem blames_listFrom {phrase : Reader α} (h : Blames P phrase) (missing : String)
    (steps : Nat) : Blames P (listFrom phrase missing steps) := by
  induction steps with
  | zero => exact blames_fail _
  | succ steps ih =>
    refine h.bind fun a => (blames_eat _).bind fun closed => ?_
    refine Blames.ite (blames_pure _) ?_
    exact (blames_expect _).bind fun _ => ih.bind fun _ => blames_pure _

theorem blames_list {phrase : Reader α} (h : Blames P phrase) (missing : String) (steps : Nat) :
    Blames P (list phrase missing steps) :=
  (blames_eat _).bind fun _ => Blames.ite (blames_pure _) (blames_listFrom h missing steps)

theorem blames_arguments {expr : Reader Expr} (h : Blames P expr) (steps : Nat) :
    Blames P (arguments expr steps) := by
  rw [arguments_eq]
  exact blames_list h _ steps

theorem blames_primary {expr : Reader Expr} (h : Blames P expr) (steps : Nat) :
    Blames P (primary expr steps) := by
  have hargs := blames_arguments h steps
  refine blames_current_bind fun first hfirst => ?_
  split
  · exact blames_fail _
  · rename_i kind span
    have hspan : P span := hfirst ⟨kind, span⟩ rfl
    split
    · exact (blames_integer _ hspan).bind fun _ => blames_advance.bind fun _ => blames_pure _
    · exact (blames_string _ hspan).bind fun _ => blames_advance.bind fun _ => blames_pure _
    · exact blames_advance.bind fun _ => blames_pure _
    · exact blames_advance.bind fun _ => blames_pure _
    · exact blames_advance.bind fun _ => blames_pure _
    · refine blames_advance.bind fun _ => (blames_eat _).bind fun _ => ?_
      exact Blames.ite (hargs.bind fun _ => blames_lastEnd.bind fun _ => blames_pure _)
        (blames_pure _)
    · refine blames_advance.bind fun _ => blames_identifier.bind fun _ => ?_
      refine (blames_expect _).bind fun _ => hargs.bind fun _ => ?_
      exact blames_lastEnd.bind fun _ => blames_pure _
    · refine blames_advance.bind fun _ => h.bind fun _ => (blames_expect _).bind fun _ => ?_
      exact blames_lastEnd.bind fun _ => blames_pure _
    · exact blames_fail _
    · exact blames_fail _
    · exact blames_fail _
    · exact blames_refuse _ hspan

theorem blames_methodCalls {expr : Reader Expr} (h : Blames P expr) (argumentSteps steps : Nat)
    (receiver : Expr) : Blames P (methodCalls expr argumentSteps steps receiver) := by
  induction steps generalizing receiver with
  | zero => exact blames_fail _
  | succ steps ih =>
    refine (blames_eat _).bind fun dot => Blames.ite ?_ (blames_pure _)
    refine blames_identifier.bind fun _ => (blames_expect _).bind fun _ => ?_
    exact (blames_arguments h _).bind fun _ => blames_lastEnd.bind fun _ => ih _

theorem blames_signed {expr : Reader Expr} (h : Blames P expr) (suffixSteps steps : Nat) :
    Blames P (signed expr suffixSteps steps) := by
  induction steps with
  | zero => exact blames_fail _
  | succ steps ih =>
    have hnegated (minus : Span) : Blames P (do
        let operand ← signed expr suffixSteps steps
        pure (Expr.neg operand (minus.merge operand.span))) :=
      ih.bind fun _ => blames_pure _
    refine blames_current_bind fun first _ => ?_
    split
    · refine blames_advance.bind fun _ => blames_current_bind fun second _ => ?_
      split
      · exact Blames.ite (blames_advance.bind fun _ => blames_pure _) (hnegated _)
      · exact hnegated _
    · exact (blames_primary h _).bind fun receiver => blames_methodCalls h _ _ receiver

theorem blames_expression (steps : Nat) : Blames P (expression steps) := by
  induction steps with
  | zero => exact blames_fail _
  | succ steps ih =>
    have hoperand := blames_signed ih (steps + 1) (steps + 1)
    exact blames_leftAssociative (blames_leftAssociative hoperand _ _) _ _

/-! ## Statements -/

variable (lines : LineTable)

theorem blames_simpleStatement (steps : Nat) : Blames P (simpleStatement lines steps) := by
  have hexpr := blames_expression (P := P) steps
  -- Whatever a statement says, the last thing to look at is where it ends.
  have hends {γ : Type} {p : Reader γ} (hp : Blames P p) (f : γ → UInt32 → Stmt) :
      Blames P (do let value ← p; pure (f value (← lastEnd))) :=
    hp.bind fun _ => blames_lastEnd.bind fun _ => blames_pure _
  refine blames_current_bind fun first _ => blames_lastEnd.bind fun stop => ?_
  dsimp only
  split
  · refine blames_advance.bind fun _ => (blames_kindAt 0).bind fun kind => ?_
    split
    · exact hends (blames_pure none) fun value stop => .ret value ⟨_, stop⟩ _
    · exact hends (blames_pure none) fun value stop => .ret value ⟨_, stop⟩ _
    · exact hends (hexpr.map some) fun value stop => .ret value ⟨_, stop⟩ _
  · exact blames_advance.bind fun _ => hends hexpr fun value stop => .throw value ⟨_, stop⟩ _
  · refine blames_atDeclaration.bind fun _ => Blames.ite ?_ (hexpr.bind fun _ => blames_pure _)
    refine blames_typeName.bind fun type => blames_identifier.bind fun name => ?_
    exact (blames_eat _).bind fun _ => Blames.ite
      (hends (hexpr.map some) fun init stop => .var ⟨type, name.1, init, ⟨_, stop⟩, _⟩)
      (hends (blames_pure none) fun init stop => .var ⟨type, name.1, init, ⟨_, stop⟩, _⟩)

theorem blames_statement (steps : Nat) (topLevel : Bool) :
    Blames P (statement lines steps topLevel) := by
  refine (blames_simpleStatement lines steps).bind fun stmt => (blames_eat _).bind fun _ => ?_
  refine Blames.ite (blames_pure _) (blames_atEnd.bind fun _ => ?_)
  exact Blames.ite (blames_pure _) (blames_fail _)

theorem blames_statementsFrom (exprSteps steps : Nat) :
    Blames P (statementsFrom lines exprSteps steps) := by
  induction steps with
  | zero => exact blames_fail _
  | succ steps ih =>
    refine (blames_eat _).bind fun _ => Blames.ite (blames_pure _) ?_
    refine blames_atEnd.bind fun _ => Blames.ite (blames_fail _) ?_
    exact (blames_statement lines exprSteps false).bind fun _ => ih.bind fun _ => blames_pure _

/-! ## Declarations -/

theorem blames_param (hstart : P default) : Blames P param := by
  refine blames_current_bind fun first hfirst => blames_typeName.bind fun type => ?_
  refine Blames.ite (blames_refuse _ ?_) (blames_identifier.bind fun _ => blames_pure _)
  cases first with
  | none => exact hstart
  | some t => exact hfirst t rfl

theorem blames_method (hstart : P default) (steps : Nat) : Blames P (method lines steps) := by
  have hparams : Blames P (params steps) := by
    rw [params_eq]
    exact blames_list (blames_param hstart) _ steps
  refine blames_typeName.bind fun _ => blames_identifier.bind fun _ => ?_
  refine (blames_expect _).bind fun _ => hparams.bind fun _ => ?_
  refine (blames_expect _).bind fun _ => (blames_statementsFrom lines _ _).bind fun _ => ?_
  exact blames_pure _

theorem blames_methodsFrom (hstart : P default) (bodySteps steps : Nat) :
    Blames P (methodsFrom lines bodySteps steps) := by
  induction steps with
  | zero => exact blames_fail _
  | succ steps ih =>
    refine (blames_eat _).bind fun _ => Blames.ite (blames_pure _) ?_
    refine blames_current_bind fun first hfirst => ?_
    split
    · exact blames_fail _
    · rename_i t
      refine blames_atDeclaration.bind fun _ => Blames.ite ?_ (blames_refuse _ (hfirst t rfl))
      exact (blames_method lines hstart _).bind fun _ => ih.bind fun _ => blames_pure _

theorem blames_item (hstart : P default) (steps : Nat) : Blames P (item lines steps) := by
  refine (blames_kindAt 0).bind fun kind => ?_
  split
  · refine blames_advance.bind fun _ => Blames.bind ?_ fun _ => ?_
    · refine blames_identifier.bind fun _ => (blames_expect _).bind fun _ => ?_
      exact (blames_methodsFrom lines hstart _ _).bind fun _ => blames_pure _
    · exact (blames_eat _).bind fun _ => blames_pure _
  · refine blames_atDeclaration.bind fun _ => (blames_kindAt 2).bind fun _ => Blames.ite ?_ ?_
    · refine (blames_method lines hstart steps).bind fun _ => ?_
      exact (blames_eat _).bind fun _ => blames_pure _
    · exact (blames_statement lines steps true).bind fun _ => blames_pure _

theorem blames_finish : Blames P finish := by
  refine blames_current_bind fun first hfirst => ?_
  split
  · exact blames_pure _
  · rename_i t
    exact blames_refuse _ (hfirst t rfl)

theorem blames_whole (hstart : P default) (steps : Nat) : Blames P (whole lines steps) :=
  (blames_item lines hstart steps).bind fun _ => blames_finish.bind fun _ => blames_pure _

end ReplEngine.Language.Reader

namespace ReplEngine.Language

open Reader Text

/-- A unit is refused at one of its tokens, behind one, or at the start of the source. -/
theorem refused_span {source : String} {d : Diag} (h : Item.parse source = .error d) :
    d.span = Span.point 0 ∨
      ∃ t ∈ Token.scan source.toList, d.span = t.span ∨ d.span = Span.point t.span.stop := by
  let lines := LineTable.ofSource source.toList
  let tokens := Token.scan source.toList
  let P (s : Span) : Prop :=
    s = Span.point 0 ∨ ∃ t ∈ tokens, s = t.span ∨ s = Span.point t.span.stop
  have hshows : Shows P ⟨tokens, 0⟩ :=
    ⟨fun t ht => .inr ⟨t, ht, .inl rfl⟩, fun t ht => .inr ⟨t, ht, .inr rfl⟩, .inl rfl⟩
  have hblames := blames_whole lines (P := P) (.inl rfl) (tokens.length + 1) _ hshows
  have hparse : Item.parse source =
    (whole lines (tokens.length + 1) ⟨tokens, 0⟩).map Prod.fst := rfl
  rw [hparse] at h
  cases hrun : whole lines (tokens.length + 1) ⟨tokens, 0⟩ with
  | ok result =>
    rw [hrun] at h
    cases h
  | error found =>
    rw [hrun] at h hblames
    cases h
    exact hblames

end ReplEngine.Language
