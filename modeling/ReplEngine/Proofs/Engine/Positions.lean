import Mathlib
import ReplEngine.Proofs.Engine.Compiling
import ReplEngine.Proofs.Lexing.Rendering
import ReplEngine.Proofs.Syntax.Positions
import ReplEngine.Proofs.Syntax.Refusals
set_option autoImplicit false

/-!
# Positions are exact

In a source of fewer than 2^32 bytes every position that a unit carries, and every one that is
reported against it, is what it is meant to be (`positions_exact`): spans are parts of the source,
an expression spans the tokens it is derived from, a statement knows its line, and a rejection is
shown as it stands.  Longer sources have tokens whose offsets are held at the largest word.
-/

namespace ReplEngine.Language

open Text Grammar Reader

/-! ## What is exact -/

/-- The expression is derived from one piece of the tokens of the source.  Its span runs from the
first of them to the last, and around the spans inside it. -/
structure Expr.Placed (e : Expr) (source : String) : Prop where
  readFrom : ∃! us, ReadFrom (Token.scan source.toList) us e
  runs : ∀ us, ReadFrom (Token.scan source.toList) us e → Grammar.Runs us e.span
  encloses : ∀ r ∈ e.inside, e.span.Encloses r.span

/-- The statement is derived from this piece of the tokens of the source. -/
def Stmt.ReadFrom (source : String) (ts : List Token) (stmt : Stmt) : Prop :=
  ts <:+: Token.scan source.toList ∧ Simple (lineIn source) ts stmt

/-- The statement is derived from one piece of the tokens of the source, `;` left out.  Its span
runs from the first of them to the last, and its line is one more than the breaks that end at the
first or in front of it. -/
structure Stmt.Placed (stmt : Stmt) (source : String) : Prop where
  readFrom : ∃! ts, stmt.ReadFrom source ts
  runs : ∀ ts, stmt.ReadFrom source ts → Grammar.Runs ts stmt.span
  line : ∀ first later, stmt.ReadFrom source (first :: later) →
    stmt.line.toNat = 1 + breaksBy first.span.start.toNat source.toList

/-! ## Items -/

section

variable {source : String} (hsize : byteLength source.toList < 4294967296)

include hsize

theorem placed_of_readFrom {us : List Token} {e : Expr}
    (h : Grammar.ReadFrom (Token.scan source.toList) us e) : e.Placed source := by
  have horder := inOrder_scan hsize
  exact ⟨⟨us, h, fun vs hvs => hvs.unique h horder⟩, fun vs hvs => hvs.runs horder,
    fun r hr => h.encloses horder hr⟩

theorem placed_of_simple {ts : List Token} {stmt : Stmt} (h : stmt.ReadFrom source ts) :
    stmt.Placed source := by
  have horder := inOrder_scan hsize
  have hruns : ∀ us, stmt.ReadFrom source us → Grammar.Runs us stmt.span :=
    fun us hus => runs_of_simple hus.2 (horder.piece hus.1)
  refine ⟨⟨ts, h, ?_⟩, hruns, ?_⟩
  · intro us hus
    rw [← filter_of_runs horder (hruns us hus) hus.1, ← filter_of_runs horder (hruns ts h) h.1]
  · intro first later hread
    rw [line_of_simple hread.2]
    exact lineAt_of_mem_scan hsize (hread.1.subset List.mem_cons_self)

theorem isPart_of_parse {item : Item} (h : Item.parse source = .ok item) :
    ∀ s ∈ item.spans, s.IsPart source.toList :=
  isPart_of_topLevel ((Item.parse_eq_ok_iff source item).mp h) (inOrder_scan hsize)
    fun _ ht => isPart_of_mem_scan hsize ht

theorem placed_expressions {item : Item} (h : Item.parse source = .ok item) :
    ∀ e ∈ item.expressions, e.Placed source := by
  intro e he
  obtain ⟨us, hus⟩ := readFrom_of_topLevel ((Item.parse_eq_ok_iff source item).mp h) e he
  exact placed_of_readFrom hsize hus

theorem placed_statements {item : Item} (h : Item.parse source = .ok item) :
    ∀ stmt ∈ item.statements, stmt.Placed source := by
  intro stmt hstmt
  obtain ⟨us, hus⟩ :=
    (parts_of_topLevel ((Item.parse_eq_ok_iff source item).mp h)).2 stmt hstmt
  exact placed_of_simple hsize hus

/-! ## Diagnostics -/

theorem isPart_of_refused {d : Diag} (h : Item.parse source = .error d) :
    d.span.IsPart source.toList := by
  rcases refused_span h with hstart | ⟨t, ht, htoken | hbehind⟩
  · rw [hstart]
    exact Span.isPart_point (isCut_zero source.toList)
  · rw [htoken]
    exact isPart_of_mem_scan hsize ht
  · rw [hbehind]
    exact Span.isPart_point (isPart_of_mem_scan hsize ht).stop_isCut

theorem isPart_of_check_error {item : Item} (h : Item.parse source = .ok item) {env : Env}
    {host : HostRegistry} {wrapper : String} {diags : List Diag}
    (hcheck : item.check env host wrapper = .error diags) :
    ∀ d ∈ diags, d.span.IsPart source.toList := by
  intro d hd
  exact isPart_of_parse hsize h _ (span_mem_of_check_error hcheck d hd)

theorem isPart_of_faults {s : SessionState} {diags : List Diag} (h : s.Faults source diags) :
    ∀ d ∈ diags, d.span.IsPart source.toList := by
  rcases h with ⟨d, hparse, rfl⟩ | ⟨item, hparse, hcheck⟩
  · intro d' hd'
    rw [List.mem_singleton.mp hd']
    exact isPart_of_refused hsize hparse
  · exact isPart_of_check_error hsize hparse hcheck

end

/-- A unit that is rejected has faults, and they are on record. -/
theorem faults_of_rejected {s : SessionState} {source : String}
    (h : (s.compile source).1.unit.body = .rejected) :
    (s.compile source).1.unit.snippet.source = source ∧
      s.Faults source ((s.compile source).2.diagnostics (s.compile source).1.unit.snippet) := by
  rcases faults_or_accepted s source with ⟨diags, hfaults⟩ | ⟨item, checked, hparse, hcheck⟩
  · obtain ⟨snippet, -, hsource, hreject⟩ := compile_rejected hfaults
    rw [hreject]
    refine ⟨hsource, ?_⟩
    have hrecord := diagnostics_reject s.numbered snippet diags
    exact hrecord.symm ▸ hfaults
  · obtain ⟨snippet, -, hcommit⟩ := compile_accepted hparse hcheck
    rw [hcommit] at h
    exact absurd h (commit_body s.numbered snippet checked)

/-- Positions are exact in every source of fewer than 2^32 bytes: those of the item it is read as,
those of the refusal to read it, and those that the check of the item reports.  So a unit is
rejected for at least one diagnostic, and each is shown against the source as it stands. -/
theorem positions_exact {source : String} (hsize : byteLength source.toList < 4294967296) :
    (∀ item, Item.parse source = .ok item →
      (∀ s ∈ item.spans, s.IsPart source.toList) ∧
        (∀ e ∈ item.expressions, e.Placed source) ∧
        (∀ stmt ∈ item.statements, stmt.Placed source) ∧
        ∀ env host wrapper diags, item.check env host wrapper = .error diags →
          ∀ d ∈ diags, d.span.IsPart source.toList) ∧
    (∀ d, Item.parse source = .error d → d.span.IsPart source.toList) ∧
    ∀ s : SessionState, (s.compile source).1.unit.body = .rejected →
      let snippet := (s.compile source).1.unit.snippet
      let diags := (s.compile source).2.diagnostics snippet
      snippet.source = source ∧ diags ≠ [] ∧
        ∀ d ∈ diags, d.strictRender? source.toList = some (d.renderChars source.toList) := by
  refine ⟨?_, fun d => isPart_of_refused hsize, ?_⟩
  · intro item hparse
    exact ⟨isPart_of_parse hsize hparse, placed_expressions hsize hparse,
      placed_statements hsize hparse, fun _ _ _ _ => isPart_of_check_error hsize hparse⟩
  · intro s hrejected
    obtain ⟨hsource, hfaults⟩ := faults_of_rejected hrejected
    exact ⟨hsource, hfaults.ne_nil,
      fun d hd => Diag.strictRender?_of_isPart (isPart_of_faults hsize hfaults d hd)⟩

/-- A difference on the second line of a method, which a String cannot be part of. -/
theorem positions_exact_method :
    let source := "int f() \x7b\r\n  return (\"é\") - 1;\r\n\x7d"
    let difference : Expr := .binary .sub (.string "é" ⟨20, 26⟩) (.int 1 ⟨29, 30⟩) ⟨20, 30⟩
    let statement : Stmt := .ret (some difference) ⟨13, 30⟩ 2
    let s : SessionState := { host := .standard }
    byteLength source.toList < 4294967296 ∧
      Item.parse source = .ok (.method ⟨.int, "f", [], [statement], ⟨4, 5⟩⟩) ∧
      difference.Placed source ∧ statement.Placed source ∧
      (s.compile source).2.diagnostics (s.compile source).1.unit.snippet ≠ [] := by
  intro source difference statement s
  have hsize : byteLength source.toList < 4294967296 := by decide
  have hparse : Item.parse source = .ok (.method ⟨.int, "f", [], [statement], ⟨4, 5⟩⟩) := by cbv
  have hrejected : (s.compile source).1.unit.body = .rejected := by cbv
  obtain ⟨hitem, -, hcompile⟩ := positions_exact hsize
  obtain ⟨-, hexpressions, hstatements, -⟩ := hitem _ hparse
  exact ⟨hsize, hparse, hexpressions _ List.mem_cons_self, hstatements _ List.mem_cons_self,
    (hcompile s hrejected).2.1⟩

end ReplEngine.Language
