import ReplEngine.Language.Syntax
set_option autoImplicit false

/-!
# The spans in an item

Everything in an item that carries a span: its statements, the expressions in them at any depth,
and the names of what it declares.
-/

namespace ReplEngine

/-- The second span is inside the first. -/
def Span.Encloses (s t : Span) : Prop := s.start ≤ t.start ∧ t.stop ≤ s.stop

instance (s t : Span) : Decidable (s.Encloses t) := inferInstanceAs (Decidable (_ ∧ _))

namespace Language

/-! ## Expressions -/

mutual

/-- The expressions inside an expression, at any depth. -/
def Expr.inside : Expr → List Expr
  | .int _ _ | .string _ _ | .bool _ _ | .null _ | .name _ _ => []
  | .neg operand _ => operand :: operand.inside
  | .binary _ lhs rhs _ => (lhs :: lhs.inside) ++ (rhs :: rhs.inside)
  | .call _ args _ | .new _ args _ => Expr.insideAll args
  | .methodCall receiver _ args _ => (receiver :: receiver.inside) ++ Expr.insideAll args

/-- Some expressions and those inside them. -/
def Expr.insideAll : List Expr → List Expr
  | [] => []
  | e :: es => (e :: e.inside) ++ Expr.insideAll es

end

namespace Expr

/-- The spans in an expression, its own first. -/
def spans (e : Expr) : List Span := e.span :: e.inside.map span

theorem inside_withSpan (s : Span) (e : Expr) : (e.withSpan s).inside = e.inside := by
  cases e <;> rfl

theorem mem_insideAll {r : Expr} {es : List Expr} :
    r ∈ insideAll es ↔ ∃ e ∈ es, r = e ∨ r ∈ e.inside := by
  induction es with
  | nil => simp [insideAll]
  | cons e es ih => simp [insideAll, ih, or_assoc]

end Expr

/-! ## Statements and items -/

namespace Stmt

/-- The expression of a statement, if it has one. -/
def value? : Stmt → Option Expr
  | .var decl => decl.init
  | .ret value _ _ => value
  | .throw value _ _ | .expr value _ => some value

/-- The expressions in a statement, at any depth. -/
def expressions (stmt : Stmt) : List Expr :=
  match stmt.value? with
  | none => []
  | some e => e :: e.inside

/-- The spans in a statement, its own first. -/
def spans (stmt : Stmt) : List Span := stmt.span :: stmt.expressions.map Expr.span

theorem forall_mem_spans {P : Span → Prop} {stmt : Stmt} :
    (∀ s ∈ stmt.spans, P s) ↔ P stmt.span ∧ ∀ e ∈ stmt.value?, ∀ s ∈ e.spans, P s := by
  unfold spans expressions
  rw [List.forall_mem_cons]
  cases stmt.value? with
  | none => simp
  | some e => simp [Expr.spans]

end Stmt

namespace Item

/-- The statements of an item, in the order of the source. -/
def statements : Item → List Stmt
  | .typeDecl decl => decl.methods.flatMap MethodDecl.body
  | .method decl => decl.body
  | .stmt s => [s]

/-- The spans of the names that an item declares. -/
def nameSpans : Item → List Span
  | .typeDecl decl => decl.nameSpan :: decl.methods.map MethodDecl.nameSpan
  | .method decl => [decl.nameSpan]
  | .stmt _ => []

/-- The expressions in an item, at any depth. -/
def expressions (item : Item) : List Expr := item.statements.flatMap Stmt.expressions

/-- Every span in an item. -/
def spans (item : Item) : List Span := item.nameSpans ++ item.statements.flatMap Stmt.spans

end Item

end Language

end ReplEngine
