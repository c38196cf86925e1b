import ReplEngine.Language.ClassFile
import ReplEngine.Proofs.Binary.Exact
set_option autoImplicit false

/-!
# The layout of class files is exact

Every part of a class file, from spans to whole methods, is read back exactly as it is written.
The argument follows the syntax.  The one recursion is that of expressions: their reader allows so
many expressions inside each other, and gives those and only those that nest no deeper.  An
expression takes at least one byte for each level of its nesting, so a reader that starts with the
number of bytes at hand never runs out.
-/

namespace ReplEngine.Language

open Binary Reading

/-! ## Lengths that can be written -/

/-- The name in a written type fits. -/
def TypeName.Fits : TypeName → Prop
  | named className => TextFits className
  | _ => True

mutual

/-- Every text and every list in an expression fits. -/
def Expr.Fits : Expr → Prop
  | .int _ _ | .bool _ _ | .null _ => True
  | .string text _ | .name text _ => TextFits text
  | .neg operand _ => operand.Fits
  | .binary _ lhs rhs _ => lhs.Fits ∧ rhs.Fits
  | .call text args _ | .new text args _ =>
    TextFits text ∧ LengthFits args.length ∧ Expr.AllFit args
  | .methodCall receiver method args _ =>
    receiver.Fits ∧ TextFits method ∧ LengthFits args.length ∧ Expr.AllFit args

/-- Every one of some expressions fits. -/
def Expr.AllFit : List Expr → Prop
  | [] => True
  | e :: es => e.Fits ∧ Expr.AllFit es

end

mutual

/-- How many expressions stand inside each other. -/
def Expr.depth : Expr → Nat
  | .neg operand _ => operand.depth + 1
  | .binary _ lhs rhs _ => max lhs.depth rhs.depth + 1
  | .call _ args _ | .new _ args _ => Expr.listDepth args + 1
  | .methodCall receiver _ args _ => max receiver.depth (Expr.listDepth args) + 1
  | _ => 1

/-- The greatest depth among some expressions. -/
def Expr.listDepth : List Expr → Nat
  | [] => 0
  | e :: es => max e.depth (Expr.listDepth es)

end

/-- The parts of a variable declaration fit. -/
def VarDecl.Fits (d : VarDecl) : Prop :=
  d.type.Fits ∧ TextFits d.name ∧ ∀ e ∈ d.init, e.Fits

/-- The parts of a statement fit. -/
def Stmt.Fits : Stmt → Prop
  | .var decl => decl.Fits
  | .ret value _ _ => ∀ e ∈ value, e.Fits
  | .throw value _ _ | .expr value _ => value.Fits

/-- The parts of a parameter fit. -/
def Param.Fits (p : Param) : Prop := p.type.Fits ∧ TextFits p.name

/-- The parts of a method fit. -/
def MethodDecl.Fits (m : MethodDecl) : Prop :=
  m.returns.Fits ∧ TextFits m.name
    ∧ (LengthFits m.params.length ∧ ∀ p ∈ m.params, p.Fits)
    ∧ (LengthFits m.body.length ∧ ∀ s ∈ m.body, s.Fits)

/-- Every text of a class file takes fewer than 2^64 bytes, and every list of it has fewer than
2^64 elements. -/
def ClassFile.Fits (f : ClassFile) : Prop :=
  TextFits f.name ∧ LengthFits f.methods.length ∧ ∀ m ∈ f.methods, m.Fits

/-! ## The leaves -/

theorem span_exact : Exact Any putSpan getSpan := by
  intro bytes s rest
  obtain ⟨start, stop⟩ := s
  simp only [getSpan, bind_eq_ok, word_exact _ _ _, pure_eq_ok, putSpan, Any, true_and]
  constructor
  · rintro ⟨a, _, rfl, b, _, rfl, h, rfl⟩
    cases h
    rw [List.append_assoc]
  · rintro rfl
    exact ⟨start, _, List.append_assoc _ _ _, stop, rest, rfl, rfl, rfl⟩

theorem typeName_exact : Exact TypeName.Fits putTypeName getTypeName := by
  intro bytes t rest
  simp only [getTypeName, bind_eq_ok, getVariant_eq_ok 6 (by decide)]
  constructor
  · rintro ⟨index, mid, ⟨hindex, rfl⟩, h⟩
    have hcases : index = 0 ∨ index = 1 ∨ index = 2 ∨ index = 3 ∨ index = 4 ∨ index = 5 := by omega
    rcases hcases with rfl | rfl | rfl | rfl | rfl | rfl
    case inr.inr.inr.inr.inr =>
      obtain ⟨name, hname, rfl⟩ := map_eq_ok.1 h
      obtain ⟨hfits, rfl⟩ := (text_exact _ _ _).1 hname
      exact ⟨hfits, (List.append_assoc _ _ _).symm⟩
    all_goals
      obtain ⟨rfl, rfl⟩ := pure_eq_ok.1 h
      exact ⟨trivial, rfl⟩
  · rintro ⟨hfits, rfl⟩
    cases t with
    | int => exact ⟨0, rest, ⟨by decide, rfl⟩, rfl⟩
    | boolean => exact ⟨1, rest, ⟨by decide, rfl⟩, rfl⟩
    | string => exact ⟨2, rest, ⟨by decide, rfl⟩, rfl⟩
    | void => exact ⟨3, rest, ⟨by decide, rfl⟩, rfl⟩
    | infer => exact ⟨4, rest, ⟨by decide, rfl⟩, rfl⟩
    | named name =>
      refine ⟨5, _, ⟨by decide, List.append_assoc _ _ _⟩, ?_⟩
      exact map_eq_ok.2 ⟨name, (text_exact _ _ _).2 ⟨hfits, rfl⟩, rfl⟩

theorem op_exact : Exact Any putOp getOp := by
  intro bytes op rest
  simp only [getOp, bind_eq_ok, getVariant_eq_ok 5 (by decide), Any, true_and]
  constructor
  · rintro ⟨index, mid, ⟨hindex, rfl⟩, h⟩
    have hcases : index = 0 ∨ index = 1 ∨ index = 2 ∨ index = 3 ∨ index = 4 := by omega
    rcases hcases with rfl | rfl | rfl | rfl | rfl <;>
      (obtain ⟨rfl, rfl⟩ := pure_eq_ok.1 h; rfl)
  · rintro rfl
    cases op with
    | add => exact ⟨0, rest, ⟨by decide, rfl⟩, rfl⟩
    | sub => exact ⟨1, rest, ⟨by decide, rfl⟩, rfl⟩
    | mul => exact ⟨2, rest, ⟨by decide, rfl⟩, rfl⟩
    | div => exact ⟨3, rest, ⟨by decide, rfl⟩, rfl⟩
    | rem => exact ⟨4, rest, ⟨by decide, rfl⟩, rfl⟩

/-! ## Expressions -/

theorem Expr.allFit_iff {es : List Expr} : Expr.AllFit es ↔ ∀ e ∈ es, e.Fits := by
  induction es with
  | nil => simp [Expr.AllFit]
  | cons e es ih => simp [Expr.AllFit, ih]

theorem Expr.listDepth_le {es : List Expr} {n : Nat} :
    Expr.listDepth es ≤ n ↔ ∀ e ∈ es, e.depth ≤ n := by
  induction es with
  | nil => simp [Expr.listDepth]
  | cons e es ih => rw [Expr.listDepth, Nat.max_le, ih, List.forall_mem_cons]

theorem putExprs_eq (es : List Expr) : putExprs es = es.flatMap putExpr := by
  induction es with
  | nil => rfl
  | cons e es ih => rw [putExprs, List.flatMap_cons, ih]

/-- The name and the arguments of a call, read by an exact reader of expressions. -/
theorem getCall_eq_ok {fits : Expr → Prop} {expr : Get Expr} (h : Exact fits putExpr expr)
    {bytes : Bytes} {name : String} {args : List Expr} {rest : Bytes} :
    getCall expr bytes = .ok ((name, args), rest) ↔
      TextFits name ∧ (LengthFits args.length ∧ ∀ e ∈ args, fits e) ∧
        bytes = putText name ++ (putLength args.length ++ (putExprs args ++ rest)) := by
  simp only [getCall, bind_eq_ok, text_exact _ _ _, h.list _ _ _, pure_eq_ok, putList,
    putExprs_eq]
  constructor
  · rintro ⟨n, _, ⟨hn, rfl⟩, as, _, ⟨has, rfl⟩, hpair, rfl⟩
    cases hpair
    exact ⟨hn, has, by rw [List.append_assoc]⟩
  · rintro ⟨hn, has, rfl⟩
    exact ⟨name, _, ⟨hn, rfl⟩, args, rest, ⟨has, by rw [List.append_assoc]⟩, rfl, rfl⟩

theorem Expr.depth_pos (e : Expr) : 0 < e.depth := by
  cases e <;> simp [Expr.depth]

/-- The expressions that fit and nest at most so deep. -/
def Expr.FitsWithin (depth : Nat) (e : Expr) : Prop := e.Fits ∧ e.depth ≤ depth

/-- The arguments of a call fit when each of them does. -/
theorem Expr.fitsWithin_args {depth : Nat} {args : List Expr} :
    (∀ e ∈ args, e.FitsWithin depth) ↔ Expr.AllFit args ∧ Expr.listDepth args ≤ depth := by
  rw [Expr.allFit_iff, Expr.listDepth_le]
  constructor
  · intro h
    exact ⟨fun e he => (h e he).1, fun e he => (h e he).2⟩
  · rintro ⟨hfits, hdepth⟩ e he
    exact ⟨hfits e he, hdepth e he⟩

/-- One level of the reader: what stands inside is read by the level below. -/
theorem exprWithin_sound {depth : Nat}
    (ih : Exact (Expr.FitsWithin depth) putExpr (getExprWithin depth)) {bytes : Bytes} {e : Expr}
    {rest : Bytes} (h : getExprWithin (depth + 1) bytes = .ok (e, rest)) :
    e.FitsWithin (depth + 1) ∧ bytes = putExpr e ++ rest := by
  simp only [getExprWithin, bind_eq_ok, getVariant_eq_ok 10 (by decide)] at h
  obtain ⟨index, mid, ⟨hindex, rfl⟩, h⟩ := h
  match index, hindex with
  | 0, _ =>
    simp only [bind_eq_ok, word_exact _ _ _, span_exact _ _ _, pure_eq_ok] at h
    obtain ⟨v, _, ⟨-, rfl⟩, s, _, ⟨-, rfl⟩, rfl, rfl⟩ := h
    exact ⟨⟨trivial, Nat.le_add_left 1 depth⟩, by simp [putExpr]⟩
  | 1, _ =>
    simp only [bind_eq_ok, text_exact _ _ _, span_exact _ _ _, pure_eq_ok] at h
    obtain ⟨v, _, ⟨hv, rfl⟩, s, _, ⟨-, rfl⟩, rfl, rfl⟩ := h
    exact ⟨⟨hv, Nat.le_add_left 1 depth⟩, by simp [putExpr]⟩
  | 2, _ =>
    simp only [bind_eq_ok, bool_exact _ _ _, span_exact _ _ _, pure_eq_ok] at h
    obtain ⟨v, _, ⟨-, rfl⟩, s, _, ⟨-, rfl⟩, rfl, rfl⟩ := h
    exact ⟨⟨trivial, Nat.le_add_left 1 depth⟩, by simp [putExpr]⟩
  | 3, _ =>
    simp only [bind_eq_ok, span_exact _ _ _, pure_eq_ok] at h
    obtain ⟨s, _, ⟨-, rfl⟩, rfl, rfl⟩ := h
    exact ⟨⟨trivial, Nat.le_add_left 1 depth⟩, by simp [putExpr]⟩
  | 4, _ =>
    simp only [bind_eq_ok, text_exact _ _ _, span_exact _ _ _, pure_eq_ok] at h
    obtain ⟨v, _, ⟨hv, rfl⟩, s, _, ⟨-, rfl⟩, rfl, rfl⟩ := h
    exact ⟨⟨hv, Nat.le_add_left 1 depth⟩, by simp [putExpr]⟩
  | 5, _ =>
    simp only [bind_eq_ok, ih _ _ _, span_exact _ _ _, pure_eq_ok] at h
    obtain ⟨operand, _, ⟨⟨hfits, hdepth⟩, rfl⟩, s, _, ⟨-, rfl⟩, rfl, rfl⟩ := h
    exact ⟨⟨hfits, Nat.succ_le_succ hdepth⟩, by simp [putExpr]⟩
  | 6, _ =>
    simp only [bind_eq_ok, op_exact _ _ _, ih _ _ _, span_exact _ _ _, pure_eq_ok] at h
    obtain ⟨op, _, ⟨-, rfl⟩, lhs, _, ⟨⟨hl, hld⟩, rfl⟩, rhs, _, ⟨⟨hr, hrd⟩, rfl⟩, s, _, ⟨-, rfl⟩,
      rfl, rfl⟩ := h
    exact ⟨⟨⟨hl, hr⟩, Nat.succ_le_succ (Nat.max_le.2 ⟨hld, hrd⟩)⟩, by simp [putExpr]⟩
  | 7, _ =>
    simp only [bind_eq_ok, getCall_eq_ok ih, span_exact _ _ _, pure_eq_ok] at h
    obtain ⟨⟨name, args⟩, _, ⟨hname, ⟨hlen, hargs⟩, rfl⟩, s, _, ⟨-, rfl⟩, rfl, rfl⟩ := h
    obtain ⟨hfits, hdepth⟩ := Expr.fitsWithin_args.1 hargs
    exact ⟨⟨⟨hname, hlen, hfits⟩, Nat.succ_le_succ hdepth⟩, by simp [putExpr]⟩
  | 8, _ =>
    simp only [bind_eq_ok, getCall_eq_ok ih, span_exact _ _ _, pure_eq_ok] at h
    obtain ⟨⟨name, args⟩, _, ⟨hname, ⟨hlen, hargs⟩, rfl⟩, s, _, ⟨-, rfl⟩, rfl, rfl⟩ := h
    obtain ⟨hfits, hdepth⟩ := Expr.fitsWithin_args.1 hargs
    exact ⟨⟨⟨hname, hlen, hfits⟩, Nat.succ_le_succ hdepth⟩, by simp [putExpr]⟩
  | 9, _ =>
    simp only [bind_eq_ok, ih _ _ _, getCall_eq_ok ih, span_exact _ _ _, pure_eq_ok] at h
    obtain ⟨receiver, _, ⟨⟨hr, hrd⟩, rfl⟩, ⟨name, args⟩, _, ⟨hname, ⟨hlen, hargs⟩, rfl⟩, s, _,
      ⟨-, rfl⟩, rfl, rfl⟩ := h
    obtain ⟨hfits, hdepth⟩ := Expr.fitsWithin_args.1 hargs
    exact ⟨⟨⟨hr, hname, hlen, hfits⟩, Nat.succ_le_succ (Nat.max_le.2 ⟨hrd, hdepth⟩)⟩,
      by simp [putExpr]⟩

/-- One level of the reader finds the parts of an expression where they were written. -/
theorem exprWithin_complete {depth : Nat}
    (ih : Exact (Expr.FitsWithin depth) putExpr (getExprWithin depth)) {e : Expr}
    (h : e.FitsWithin (depth + 1)) (rest : Bytes) :
    getExprWithin (depth + 1) (putExpr e ++ rest) = .ok (e, rest) := by
  obtain ⟨hfits, hdepth⟩ := h
  simp only [getExprWithin, bind_eq_ok, getVariant_eq_ok 10 (by decide)]
  cases e with
  | int value s =>
    refine ⟨0, _, ⟨by decide, List.append_assoc _ _ _⟩, ?_⟩
    simp only [bind_eq_ok, word_exact _ _ _, span_exact _ _ _, pure_eq_ok]
    exact ⟨_, _, ⟨trivial, List.append_assoc _ _ _⟩, s, rest, ⟨trivial, rfl⟩, by simp, rfl⟩
  | string text s =>
    refine ⟨1, _, ⟨by decide, List.append_assoc _ _ _⟩, ?_⟩
    simp only [bind_eq_ok, text_exact _ _ _, span_exact _ _ _, pure_eq_ok]
    exact ⟨_, _, ⟨hfits, List.append_assoc _ _ _⟩, s, rest, ⟨trivial, rfl⟩, rfl, rfl⟩
  | bool value s =>
    refine ⟨2, _, ⟨by decide, List.append_assoc _ _ _⟩, ?_⟩
    simp only [bind_eq_ok, bool_exact _ _ _, span_exact _ _ _, pure_eq_ok]
    exact ⟨_, _, ⟨trivial, List.append_assoc _ _ _⟩, s, rest, ⟨trivial, rfl⟩, rfl, rfl⟩
  | null s =>
    refine ⟨3, _, ⟨by decide, List.append_assoc _ _ _⟩, ?_⟩
    simp only [bind_eq_ok, span_exact _ _ _, pure_eq_ok]
    exact ⟨s, rest, ⟨trivial, rfl⟩, rfl, rfl⟩
  | name text s =>
    refine ⟨4, _, ⟨by decide, List.append_assoc _ _ _⟩, ?_⟩
    simp only [bind_eq_ok, text_exact _ _ _, span_exact _ _ _, pure_eq_ok]
    exact ⟨_, _, ⟨hfits, List.append_assoc _ _ _⟩, s, rest, ⟨trivial, rfl⟩, rfl, rfl⟩
  | neg operand s =>
    refine ⟨5, _, ⟨by decide, List.append_assoc _ _ _⟩, ?_⟩
    simp only [bind_eq_ok, ih _ _ _, span_exact _ _ _, pure_eq_ok]
    exact ⟨operand, _, ⟨⟨hfits, Nat.le_of_succ_le_succ hdepth⟩, List.append_assoc _ _ _⟩, s, rest,
      ⟨trivial, rfl⟩, rfl, rfl⟩
  | binary op lhs rhs s =>
    obtain ⟨hl, hr⟩ := Nat.max_le.1 (Nat.le_of_succ_le_succ hdepth)
    refine ⟨6, _, ⟨by decide, List.append_assoc _ _ _⟩, ?_⟩
    simp only [bind_eq_ok, op_exact _ _ _, ih _ _ _, span_exact _ _ _, pure_eq_ok]
    exact ⟨op, _, ⟨trivial, List.append_assoc _ _ _⟩, lhs, _,
      ⟨⟨hfits.1, hl⟩, List.append_assoc _ _ _⟩, rhs, _, ⟨⟨hfits.2, hr⟩, List.append_assoc _ _ _⟩,
      s, rest, ⟨trivial, rfl⟩, rfl, rfl⟩
  | call text args s =>
    obtain ⟨htext, hlen, hall⟩ := hfits
    have hargs := Expr.fitsWithin_args.2 ⟨hall, Nat.le_of_succ_le_succ hdepth⟩
    refine ⟨7, _, ⟨by decide, List.append_assoc _ _ _⟩, ?_⟩
    simp only [bind_eq_ok, getCall_eq_ok ih, span_exact _ _ _, pure_eq_ok]
    exact ⟨(text, args), _, ⟨htext, ⟨hlen, hargs⟩, by simp only [List.append_assoc]⟩, s, rest,
      ⟨trivial, rfl⟩, rfl, rfl⟩
  | new text args s =>
    obtain ⟨htext, hlen, hall⟩ := hfits
    have hargs := Expr.fitsWithin_args.2 ⟨hall, Nat.le_of_succ_le_succ hdepth⟩
    refine ⟨8, _, ⟨by decide, List.append_assoc _ _ _⟩, ?_⟩
    simp only [bind_eq_ok, getCall_eq_ok ih, span_exact _ _ _, pure_eq_ok]
    exact ⟨(text, args), _, ⟨htext, ⟨hlen, hargs⟩, by simp only [List.append_assoc]⟩, s, rest,
      ⟨trivial, rfl⟩, rfl, rfl⟩
  | methodCall receiver text args s =>
    obtain ⟨hr, htext, hlen, hall⟩ := hfits
    obtain ⟨hrd, hdepth⟩ := Nat.max_le.1 (Nat.le_of_succ_le_succ hdepth)
    have hargs := Expr.fitsWithin_args.2 ⟨hall, hdepth⟩
    refine ⟨9, _, ⟨by decide, List.append_assoc _ _ _⟩, ?_⟩
    simp only [bind_eq_ok, ih _ _ _, getCall_eq_ok ih, span_exact _ _ _, pure_eq_ok]
    exact ⟨receiver, _, ⟨⟨hr, hrd⟩, List.append_assoc _ _ _⟩, (text, args), _,
      ⟨htext, ⟨hlen, hargs⟩, by simp only [List.append_assoc]⟩, s, rest, ⟨trivial, rfl⟩, rfl, rfl⟩

/-- The reader of expressions gives those that nest within its allowance. -/
theorem exprWithin_exact (depth : Nat) :
    Exact (Expr.FitsWithin depth) putExpr (getExprWithin depth) := by
  induction depth with
  | zero =>
    intro bytes e rest
    have hpos := e.depth_pos
    simp only [getExprWithin, refuse_eq_ok, Expr.FitsWithin]
    constructor
    · exact False.elim
    · rintro ⟨⟨-, hdepth⟩, -⟩
      omega
  | succ depth ih =>
    intro bytes e rest
    constructor
    · exact exprWithin_sound ih
    · rintro ⟨he, rfl⟩
      exact exprWithin_complete ih he rest

mutual

/-- An expression takes a byte at least for each level of its nesting. -/
theorem Expr.depth_le_length : (e : Expr) → e.depth ≤ (putExpr e).length
  | .int _ _ | .string _ _ | .bool _ _ | .null _ | .name _ _ => by
    simp [Expr.depth, putExpr, putVariant, putFixed]
  | .neg operand _ => by
    have := operand.depth_le_length
    simp [Expr.depth, putExpr, putVariant, putFixed]
    omega
  | .binary _ lhs rhs _ => by
    have := lhs.depth_le_length
    have := rhs.depth_le_length
    simp [Expr.depth, putExpr, putVariant, putFixed]
    omega
  | .call _ args _ | .new _ args _ => by
    have := Expr.listDepth_le_length args
    simp [Expr.depth, putExpr, putVariant, putFixed]
    omega
  | .methodCall receiver _ args _ => by
    have := receiver.depth_le_length
    have := Expr.listDepth_le_length args
    simp [Expr.depth, putExpr, putVariant, putFixed]
    omega

theorem Expr.listDepth_le_length : (es : List Expr) → Expr.listDepth es ≤ (putExprs es).length
  | [] => Nat.le_refl 0
  | e :: es => by
    have := e.depth_le_length
    have := Expr.listDepth_le_length es
    simp [Expr.listDepth, putExprs]
    omega

end

theorem expr_exact : Exact Expr.Fits putExpr getExpr := by
  intro bytes e rest
  rw [getExpr, exprWithin_exact _ _ _ _]
  constructor
  · rintro ⟨⟨hfits, -⟩, hbytes⟩
    exact ⟨hfits, hbytes⟩
  · rintro ⟨hfits, hbytes⟩
    refine ⟨⟨hfits, ?_⟩, hbytes⟩
    have hdepth := e.depth_le_length
    have hlen : bytes.length = (putExpr e).length + rest.length := by
      rw [hbytes, List.length_append]
    omega

/-! ## Statements, methods and the whole file -/

theorem varDecl_exact : Exact VarDecl.Fits putVarDecl getVarDecl := by
  intro bytes d rest
  simp only [getVarDecl, bind_eq_ok, typeName_exact _ _ _, text_exact _ _ _,
    expr_exact.option _ _ _, span_exact _ _ _, word_exact _ _ _, pure_eq_ok]
  constructor
  · rintro ⟨type, _, ⟨htype, rfl⟩, name, _, ⟨hname, rfl⟩, init, _, ⟨hinit, rfl⟩, span, _,
      ⟨-, rfl⟩, line, _, ⟨-, rfl⟩, rfl, rfl⟩
    exact ⟨⟨htype, hname, hinit⟩, by simp [putVarDecl]⟩
  · rintro ⟨⟨htype, hname, hinit⟩, rfl⟩
    exact ⟨d.type, _, ⟨htype, List.append_assoc _ _ _⟩, d.name, _,
      ⟨hname, List.append_assoc _ _ _⟩, d.init, _, ⟨hinit, List.append_assoc _ _ _⟩, d.span, _,
      ⟨trivial, List.append_assoc _ _ _⟩, d.line, rest, ⟨trivial, rfl⟩, rfl, rfl⟩

theorem stmt_exact : Exact Stmt.Fits putStmt getStmt := by
  intro bytes s rest
  simp only [getStmt, bind_eq_ok, getVariant_eq_ok 4 (by decide)]
  constructor
  · rintro ⟨index, mid, ⟨hindex, rfl⟩, h⟩
    match index, hindex with
    | 0, _ =>
      simp only [map_eq_ok, varDecl_exact _ _ _] at h
      obtain ⟨decl, ⟨hdecl, rfl⟩, rfl⟩ := h
      exact ⟨hdecl, by simp [putStmt]⟩
    | 1, _ =>
      simp only [bind_eq_ok, expr_exact.option _ _ _, span_exact _ _ _, word_exact _ _ _,
        pure_eq_ok] at h
      obtain ⟨value, _, ⟨hvalue, rfl⟩, span, _, ⟨-, rfl⟩, line, _, ⟨-, rfl⟩, rfl, rfl⟩ := h
      exact ⟨hvalue, by simp [putStmt]⟩
    | 2, _ =>
      simp only [bind_eq_ok, expr_exact _ _ _, span_exact _ _ _, word_exact _ _ _,
        pure_eq_ok] at h
      obtain ⟨value, _, ⟨hvalue, rfl⟩, span, _, ⟨-, rfl⟩, line, _, ⟨-, rfl⟩, rfl, rfl⟩ := h
      exact ⟨hvalue, by simp [putStmt]⟩
    | 3, _ =>
      simp only [bind_eq_ok, expr_exact _ _ _, word_exact _ _ _, pure_eq_ok] at h
      obtain ⟨value, _, ⟨hvalue, rfl⟩, line, _, ⟨-, rfl⟩, rfl, rfl⟩ := h
      exact ⟨hvalue, by simp [putStmt]⟩
  · rintro ⟨hfits, rfl⟩
    cases s with
    | var decl =>
      refine ⟨0, _, ⟨by decide, List.append_assoc _ _ _⟩, ?_⟩
      simp only [map_eq_ok, varDecl_exact _ _ _]
      exact ⟨decl, ⟨hfits, rfl⟩, rfl⟩
    | ret value span line =>
      refine ⟨1, _, ⟨by decide, List.append_assoc _ _ _⟩, ?_⟩
      simp only [bind_eq_ok, expr_exact.option _ _ _, span_exact _ _ _, word_exact _ _ _,
        pure_eq_ok]
      exact ⟨value, _, ⟨hfits, List.append_assoc _ _ _⟩, span, _,
        ⟨trivial, List.append_assoc _ _ _⟩, line, rest, ⟨trivial, rfl⟩, rfl, rfl⟩
    | throw value span line =>
      refine ⟨2, _, ⟨by decide, List.append_assoc _ _ _⟩, ?_⟩
      simp only [bind_eq_ok, expr_exact _ _ _, span_exact _ _ _, word_exact _ _ _, pure_eq_ok]
      exact ⟨value, _, ⟨hfits, List.append_assoc _ _ _⟩, span, _,
        ⟨trivial, List.append_assoc _ _ _⟩, line, rest, ⟨trivial, rfl⟩, rfl, rfl⟩
    | expr value line =>
      refine ⟨3, _, ⟨by decide, List.append_assoc _ _ _⟩, ?_⟩
      simp only [bind_eq_ok, expr_exact _ _ _, word_exact _ _ _, pure_eq_ok]
      exact ⟨value, _, ⟨hfits, List.append_assoc _ _ _⟩, line, rest, ⟨trivial, rfl⟩, rfl, rfl⟩

theorem param_exact : Exact Param.Fits putParam getParam := by
  intro bytes p rest
  simp only [getParam, bind_eq_ok, typeName_exact _ _ _, text_exact _ _ _, pure_eq_ok]
  constructor
  · rintro ⟨type, _, ⟨htype, rfl⟩, name, _, ⟨hname, rfl⟩, rfl, rfl⟩
    exact ⟨⟨htype, hname⟩, by simp [putParam]⟩
  · rintro ⟨⟨htype, hname⟩, rfl⟩
    exact ⟨p.type, _, ⟨htype, List.append_assoc _ _ _⟩, p.name, rest, ⟨hname, rfl⟩, rfl, rfl⟩

theorem method_exact : Exact MethodDecl.Fits putMethod getMethod := by
  intro bytes m rest
  simp only [getMethod, bind_eq_ok, typeName_exact _ _ _, text_exact _ _ _,
    param_exact.list _ _ _, stmt_exact.list _ _ _, span_exact _ _ _, pure_eq_ok]
  constructor
  · rintro ⟨returns, _, ⟨hreturns, rfl⟩, name, _, ⟨hname, rfl⟩, params, _, ⟨hparams, rfl⟩, body, _,
      ⟨hbody, rfl⟩, span, _, ⟨-, rfl⟩, rfl, rfl⟩
    exact ⟨⟨hreturns, hname, hparams, hbody⟩, by simp [putMethod]⟩
  · rintro ⟨⟨hreturns, hname, hparams, hbody⟩, rfl⟩
    exact ⟨m.returns, _, ⟨hreturns, List.append_assoc _ _ _⟩, m.name, _,
      ⟨hname, List.append_assoc _ _ _⟩, m.params, _, ⟨hparams, List.append_assoc _ _ _⟩, m.body, _,
      ⟨hbody, List.append_assoc _ _ _⟩, m.nameSpan, rest, ⟨trivial, rfl⟩, rfl, rfl⟩

/-- A class file is read back exactly as it is written. -/
theorem classFile_exact : Exact ClassFile.Fits ClassFile.encode getClassFile := by
  intro bytes f rest
  simp only [getClassFile, bind_eq_ok, text_exact _ _ _, word_exact _ _ _,
    method_exact.list _ _ _, pure_eq_ok]
  constructor
  · rintro ⟨name, _, ⟨hname, rfl⟩, snippet, _, ⟨-, rfl⟩, methods, _, ⟨hmethods, rfl⟩, rfl, rfl⟩
    exact ⟨⟨hname, hmethods⟩, by simp [ClassFile.encode]⟩
  · rintro ⟨⟨hname, hmethods⟩, rfl⟩
    exact ⟨f.name, _, ⟨hname, List.append_assoc _ _ _⟩, f.snippet, _,
      ⟨trivial, List.append_assoc _ _ _⟩, f.methods, rest, ⟨hmethods, rfl⟩, rfl, rfl⟩

end ReplEngine.Language
