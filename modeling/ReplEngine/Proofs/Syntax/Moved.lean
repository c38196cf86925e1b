import ReplEngine.Proofs.Lexing.Scans
import ReplEngine.Proofs.Syntax.Grammar
set_option autoImplicit false

/-!
# Derivations do not depend on positions

When the spans of some tokens are moved by a monotone map, the tokens derive the same item with
its spans moved alike.  KeepsOrder is what `Span.merge` needs; the lines of statements move by a
map of their own.
-/

namespace ReplEngine.Language

/-! ## Moving what was read -/

mutual

/-- The expression with every span moved. -/
def Expr.map (f : UInt32 → UInt32) : Expr → Expr
  | .int value s => .int value (s.map f)
  | .string value s => .string value (s.map f)
  | .bool value s => .bool value (s.map f)
  | .null s => .null (s.map f)
  | .name text s => .name text (s.map f)
  | .neg operand s => .neg (operand.map f) (s.map f)
  | .binary op lhs rhs s => .binary op (lhs.map f) (rhs.map f) (s.map f)
  | .call text args s => .call text (Expr.mapAll f args) (s.map f)
  | .new text args s => .new text (Expr.mapAll f args) (s.map f)
  | .methodCall receiver method args s =>
    .methodCall (receiver.map f) method (Expr.mapAll f args) (s.map f)

/-- The expressions with every span moved. -/
def Expr.mapAll (f : UInt32 → UInt32) : List Expr → List Expr
  | [] => []
  | e :: es => e.map f :: Expr.mapAll f es

end

/-- The statement with its spans moved by `f` and its line by `g`. -/
def Stmt.map (f g : UInt32 → UInt32) : Stmt → Stmt
  | .var decl =>
    .var ⟨decl.type, decl.name, decl.init.map (Expr.map f), decl.span.map f, g decl.line⟩
  | .ret value s line => .ret (value.map (Expr.map f)) (s.map f) (g line)
  | .throw value s line => .throw (value.map f) (s.map f) (g line)
  | .expr value line => .expr (value.map f) (g line)

/-- The method with its spans moved by `f` and its lines by `g`. -/
def MethodDecl.map (f g : UInt32 → UInt32) (m : MethodDecl) : MethodDecl :=
  { m with body := m.body.map (Stmt.map f g), nameSpan := m.nameSpan.map f }

/-- The class with its spans moved by `f` and its lines by `g`. -/
def ClassDecl.map (f g : UInt32 → UInt32) (c : ClassDecl) : ClassDecl :=
  { c with methods := c.methods.map (MethodDecl.map f g), nameSpan := c.nameSpan.map f }

/-- The item with its spans moved by `f` and its lines by `g`. -/
def Item.map (f g : UInt32 → UInt32) : Item → Item
  | .typeDecl decl => .typeDecl (decl.map f g)
  | .method decl => .method (decl.map f g)
  | .stmt s => .stmt (s.map f g)

theorem Expr.mapAll_eq (f : UInt32 → UInt32) (es : List Expr) :
    Expr.mapAll f es = es.map (Expr.map f) := by
  induction es with
  | nil => rfl
  | cons e es ih => rw [Expr.mapAll, List.map_cons, ih]

theorem Expr.map_span (f : UInt32 → UInt32) (e : Expr) : (e.map f).span = e.span.map f := by
  cases e <;> rfl

theorem Expr.map_withSpan (f : UInt32 → UInt32) (s : Span) (e : Expr) :
    (e.withSpan s).map f = (e.map f).withSpan (s.map f) := by
  cases e <;> rfl

/-! ## KeepsOrder maps -/

/-- The map keeps the order of offsets. -/
def KeepsOrder (f : UInt32 → UInt32) : Prop := ∀ a b, a ≤ b → f a ≤ f b

theorem keepsOrder_later (k : Nat) : KeepsOrder (later k) := by
  intro a b h
  have hle := UInt32.le_iff_toNat_le.1 h
  rw [UInt32.le_iff_toNat_le, later, later, wordOf_toNat, wordOf_toNat]
  omega

theorem keepsOrder_earlier (k : Nat) : KeepsOrder (earlier k) := by
  intro a b h
  have hle := UInt32.le_iff_toNat_le.1 h
  rw [UInt32.le_iff_toNat_le, earlier, earlier, wordOf_toNat, wordOf_toNat]
  omega

variable {f : UInt32 → UInt32}

theorem KeepsOrder.map_min (hf : KeepsOrder f) (a b : UInt32) :
    min (f a) (f b) = f (min a b) := by
  show (if f a ≤ f b then f a else f b) = f (if a ≤ b then a else b)
  by_cases h : a ≤ b
  · rw [if_pos h, if_pos (hf a b h)]
  · have hba : b ≤ a := (UInt32.le_total a b).resolve_left h
    rw [if_neg h]
    split
    · rename_i hle
      exact UInt32.le_antisymm hle (hf b a hba)
    · rfl

theorem KeepsOrder.map_max (hf : KeepsOrder f) (a b : UInt32) :
    max (f a) (f b) = f (max a b) := by
  show (if f a ≤ f b then f b else f a) = f (if a ≤ b then b else a)
  by_cases h : a ≤ b
  · rw [if_pos h, if_pos (hf a b h)]
  · have hba : b ≤ a := (UInt32.le_total a b).resolve_left h
    rw [if_neg h]
    split
    · rename_i hle
      exact UInt32.le_antisymm (hf b a hba) hle
    · rfl

theorem KeepsOrder.map_merge (hf : KeepsOrder f) (s t : Span) :
    (s.map f).merge (t.map f) = (s.merge t).map f := by
  unfold Span.map Span.merge
  rw [hf.map_min, hf.map_max]

/-! ## Moving derivations -/

namespace Grammar

theorem stopAfter_map (f : UInt32 → UInt32) (stop : UInt32) (ts : List Token) :
    stopAfter (f stop) (ts.map (Token.map f)) = f (stopAfter stop ts) := by
  induction ts generalizing stop with
  | nil => rfl
  | cons t ts ih => exact ih t.span.stop

theorem Listed.map {α β : Type} (f : UInt32 → UInt32) (h : α → β)
    {parts : List (List Token × α)} {us : List Token} (hlist : Listed parts us) :
    Listed (parts.map fun p => (p.1.map (Token.map f), h p.2)) (us.map (Token.map f)) := by
  induction hlist with
  | none => exact .none
  | one ts a => exact .one _ _
  | more ts a comma _ ih =>
    rw [List.map_append]
    exact .more _ _ _ ih

/-- Arguments that move one by one move as a list. -/
theorem map_arguments {f : UInt32 → UInt32} {parts : List (List Token × Expr)}
    (hargs : ∀ p ∈ parts, Expression .sum (p.1.map (Token.map f)) (p.2.map f)) :
    let moved := parts.map fun p => (p.1.map (Token.map f), p.2.map f)
    (∀ p ∈ moved, Expression .sum p.1 p.2) ∧
      Expr.mapAll f (parts.map Prod.snd) = moved.map Prod.snd := by
  refine ⟨?_, ?_⟩
  · intro p hp
    obtain ⟨q, hq, rfl⟩ := List.mem_map.1 hp
    exact hargs q hq
  · rw [Expr.mapAll_eq, List.map_map, List.map_map]
    rfl

theorem Expression.map (hf : KeepsOrder f) {l : Level} {ts : List Token} {e : Expr}
    (h : Expression l ts e) : Expression l (ts.map (Token.map f)) (e.map f) := by
  induction h with
  | ofProduct _ ih => exact .ofProduct ih
  | ofSigned _ ih => exact .ofSigned ih
  | ofSuffixed _ ih => exact .ofSuffixed ih
  | ofPrimary _ ih => exact .ofPrimary ih
  | binary op hop s _ _ ihl ihr =>
    rw [List.map_append, List.map_cons, Expr.map, ← hf.map_merge, ← Expr.map_span,
      ← Expr.map_span]
    exact .binary op hop (s.map f) ihl ihr
  | negate minus _ ih =>
    rw [List.map_cons, Expr.map, ← hf.map_merge, ← Expr.map_span]
    exact .negate (minus.map f) ih
  | least minus s =>
    rw [Expr.map, ← hf.map_merge]
    exact .least (minus.map f) (s.map f)
  | @methodCall method dot name opening closing _ _ receiver _ _ hlist _ ihr ihargs =>
    obtain ⟨hargs, hsnd⟩ := map_arguments ihargs
    simp only [List.map_append, List.map_cons, List.map_nil]
    have hstart : f (receiver.span.start) = (receiver.map f).span.start := by
      rw [Expr.map_span]
      rfl
    rw [Expr.map, hsnd, Span.map, hstart]
    exact .methodCall method (dot.map f) (name.map f) (opening.map f) (closing.map f) ihr
      (hlist.map f (Expr.map f)) hargs
  | int hfits s => exact .int hfits (s.map f)
  | string h s => exact .string h (s.map f)
  | true s => exact .true (s.map f)
  | false s => exact .false (s.map f)
  | null s => exact .null (s.map f)
  | name name s => exact .name name (s.map f)
  | call text name opening closing hlist _ ihargs =>
    obtain ⟨hargs, hsnd⟩ := map_arguments ihargs
    simp only [List.map_append, List.map_cons, List.map_nil]
    rw [Expr.map, hsnd]
    exact .call text (name.map f) (opening.map f) (closing.map f) (hlist.map f (Expr.map f)) hargs
  | new className word name opening closing hlist _ ihargs =>
    obtain ⟨hargs, hsnd⟩ := map_arguments ihargs
    simp only [List.map_append, List.map_cons, List.map_nil]
    rw [Expr.map, hsnd]
    exact .new className (word.map f) (name.map f) (opening.map f) (closing.map f)
      (hlist.map f (Expr.map f)) hargs
  | paren opening closing _ ih =>
    simp only [List.map_append, List.map_cons, List.map_nil]
    rw [Expr.map_withSpan]
    exact .paren (opening.map f) (closing.map f) ih

/-! ## Moving statements and declarations -/

/-- The lines of the tokens in one source are those in another, moved by `g`. -/
def LinesAgree (f g line line' : UInt32 → UInt32) (ts : List Token) : Prop :=
  ∀ t ∈ ts, line' (f t.span.start) = g (line t.span.start)

variable {g line line' : UInt32 → UInt32}

theorem LinesAgree.left {ts us : List Token} (h : LinesAgree f g line line' (ts ++ us)) :
    LinesAgree f g line line' ts := by
  intro t ht
  exact h t (List.mem_append_left us ht)

theorem LinesAgree.right {ts us : List Token} (h : LinesAgree f g line line' (ts ++ us)) :
    LinesAgree f g line line' us := by
  intro t ht
  exact h t (List.mem_append_right ts ht)

theorem LinesAgree.head {t : Token} {ts : List Token}
    (h : LinesAgree f g line line' (t :: ts)) : line' (f t.span.start) = g (line t.span.start) :=
  h t List.mem_cons_self

theorem LinesAgree.tail {t : Token} {ts : List Token}
    (h : LinesAgree f g line line' (t :: ts)) : LinesAgree f g line line' ts := by
  intro u hu
  exact h u (List.mem_cons_of_mem t hu)

theorem Simple.map (hf : KeepsOrder f) {ts : List Token} {s : Stmt} (h : Simple line ts s)
    (hlines : LinesAgree f g line line' ts) :
    Simple line' (ts.map (Token.map f)) (s.map f g) := by
  cases h with
  | ret word =>
    rw [Stmt.map, ← hlines.head]
    exact .ret (word.map f)
  | retValue word he =>
    rw [Stmt.map, ← hlines.head, Span.map, ← stopAfter_map f]
    exact .retValue (word.map f) (he.map hf)
  | throw word he =>
    rw [Stmt.map, ← hlines.head, Span.map, ← stopAfter_map f]
    exact .throw (word.map f) (he.map hf)
  | var htype word name nameSpan =>
    rw [Stmt.map, ← hlines.head]
    exact .var htype (word.map f) name (nameSpan.map f)
  | varInit htype word name nameSpan equals he =>
    rw [Stmt.map, ← hlines.head, Span.map, ← stopAfter_map f]
    exact .varInit htype (word.map f) name (nameSpan.map f) (equals.map f) (he.map hf)
  | expr he =>
    rw [Stmt.map, ← hlines.head]
    exact .expr (he.map hf)

theorem Statements.map (hf : KeepsOrder f) {ts : List Token} {body : List Stmt}
    (h : Statements line ts body) (hlines : LinesAgree f g line line' ts) :
    Statements line' (ts.map (Token.map f)) (body.map (Stmt.map f g)) := by
  induction h with
  | nil => exact .nil
  | cons semicolon hs _ ih =>
    rw [List.map_append, List.map_cons, List.map_cons]
    exact .cons (semicolon.map f) (hs.map hf hlines.left) (ih hlines.right.tail)

theorem Method.map (hf : KeepsOrder f) {ts : List Token} {m : MethodDecl}
    (h : Method line ts m) (hlines : LinesAgree f g line line' ts) :
    Method line' (ts.map (Token.map f)) (m.map f g) := by
  cases h with
  | @mk _ _ htype name word nameSpan openParen closeParen openBrace closeBrace _ _ parts _ hlist
      hparams hbody =>
    have hparams' : ∀ p ∈ parts.map fun p => (p.1.map (Token.map f), p.2), Parameter p.1 p.2 := by
      intro p hp
      obtain ⟨⟨ts, q⟩, hq, rfl⟩ := List.mem_map.1 hp
      cases hparams _ hq with
      | mk htype hvar word name nameSpan => exact .mk htype hvar _ name _
    have hsnd : parts.map Prod.snd =
        (parts.map fun p => (p.1.map (Token.map f), p.2)).map Prod.snd := by
      rw [List.map_map]
      rfl
    have hbody' := hbody.map hf hlines.left.right.tail.tail
    simp only [List.map_append, List.map_cons, List.map_nil]
    rw [MethodDecl.map]
    dsimp only
    rw [hsnd]
    exact .mk htype name (word.map f) (nameSpan.map f) (openParen.map f) (closeParen.map f)
      (openBrace.map f) (closeBrace.map f) (hlist.map f id) hparams' hbody'

theorem Methods.map (hf : KeepsOrder f) {ts : List Token} {ms : List MethodDecl}
    (h : Methods line ts ms) (hlines : LinesAgree f g line line' ts) :
    Methods line' (ts.map (Token.map f)) (ms.map (MethodDecl.map f g)) := by
  induction h with
  | nil => exact .nil
  | cons hm _ ih =>
    rw [List.map_append, List.map_cons]
    exact .cons (hm.map hf hlines.left) (ih hlines.right)

theorem MaySemicolon.map {us : List Token} (h : MaySemicolon us) :
    MaySemicolon (us.map (Token.map f)) := by
  cases h with
  | absent => exact .absent
  | present s => exact .present (s.map f)

theorem TopLevel.map (hf : KeepsOrder f) {ts : List Token} {item : Item}
    (h : TopLevel line ts item) (hlines : LinesAgree f g line line' ts) :
    TopLevel line' (ts.map (Token.map f)) (item.map f g) := by
  cases h with
  | typeDecl hdecl hend =>
    rw [List.map_append, Item.map]
    cases hdecl with
    | mk name word nameSpan opening closing hms =>
      refine .typeDecl ?_ hend.map
      simp only [List.map_append, List.map_cons, List.map_nil]
      exact .mk name (word.map f) (nameSpan.map f) (opening.map f) (closing.map f)
        (hms.map hf hlines.left.left.tail.tail.tail)
  | method hdecl hend =>
    rw [List.map_append, Item.map]
    exact .method (hdecl.map hf hlines.left) hend.map
  | stmt hs hend =>
    rw [List.map_append, Item.map]
    exact .stmt (hs.map hf hlines.left) hend.map

end Grammar

end ReplEngine.Language
