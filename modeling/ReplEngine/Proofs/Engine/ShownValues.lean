import ReplEngine.Proofs.Engine.Answers
import ReplEngine.Proofs.Engine.HeldInput
import ReplEngine.Proofs.Engine.KeptValues
import ReplEngine.Proofs.Lexing.Literals
set_option autoImplicit false

/-!
# Shown values can be typed back

The text that an answer shows for an integer, a boolean, a string or `null` is a literal of the
language: an expression of its own, which is complete, has no name in it and gives the value
(`exists_literal`).  So typing it back gives the value again and shows the same text.
-/

namespace ReplEngine.Language

open Text Grammar

/-! ## Values that are written as literals -/

/-- An integer, a boolean, a string or `null`. -/
def Value.IsLiteral : Value → Prop
  | .int _ | .bool _ | .string _ | .null => True
  | _ => False

/-- Tokens that are an expression of their own and give the value, whatever has been declared. -/
structure Literal (v : Value) (tokens : List Token) (e : Expr) (type : Ty) : Prop where
  starts : ∃ t ts, tokens = t :: ts ∧ t.span.start = 0
  runsOut : findEnd {} tokens = .ran {}
  closed : endsOpen tokens = false
  derives : Expression .sum tokens e
  valued : type ≠ .void
  unnamed : e.isName = false
  accepted : ∀ env host wrapper line,
    (Item.stmt (.expr e line)).check env host wrapper = .ok (.expr e line type)
  value : ∀ files snippet line, evalTop files snippet line e = pure v

theorem sum_of_primary {ts : List Token} {e : Expr} (h : Expression .primary ts e) :
    Expression .sum ts e :=
  .ofProduct (.ofSigned (.ofSuffixed (.ofPrimary h)))

theorem literal_null (stop : Nat) :
    Literal .null [⟨.keyword .nullWord, Span.ofRange 0 stop⟩] (.null (Span.ofRange 0 stop))
      .null where
  starts := ⟨_, _, rfl, rfl⟩
  runsOut := rfl
  closed := rfl
  derives := sum_of_primary (.null _)
  valued := nofun
  unnamed := rfl
  accepted _ _ _ _ := rfl
  value _ _ _ := rfl

theorem literal_string (s : String) (stop : Nat) :
    Literal (.string s) [⟨.quoted (Quoted.encode s.toList), Span.ofRange 0 stop⟩]
      (.string s (Span.ofRange 0 stop)) .string where
  starts := ⟨_, _, rfl, rfl⟩
  runsOut := rfl
  closed := rfl
  derives := by
    have hbody := Reader.decode?_eq_some_iff.mp (Quoted.decode?_encode s.toList)
    have hstring := Expression.string hbody (Span.ofRange 0 stop)
    rw [String.ofList_toList] at hstring
    exact sum_of_primary hstring
  valued := nofun
  unnamed := rfl
  accepted _ _ _ _ := rfl
  value _ _ _ := rfl

theorem literal_bool (b : Bool) (stop : Nat) :
    Literal (.bool b) [⟨.keyword (if b then .trueWord else .falseWord), Span.ofRange 0 stop⟩]
      (.bool b (Span.ofRange 0 stop)) .boolean where
  starts := ⟨_, _, rfl, rfl⟩
  runsOut := by cases b <;> rfl
  closed := by cases b <;> rfl
  derives := by
    cases b
    · exact sum_of_primary (.false _)
    · exact sum_of_primary (.true _)
  valued := nofun
  unnamed := rfl
  accepted _ _ _ _ := rfl
  value _ _ _ := rfl

theorem literal_digits {n : Nat} (h : n ≤ 2147483647) (stop : Nat) :
    Literal (.int (Int32.ofNat n)) [⟨.integer (Nat.toDigits 10 n), Span.ofRange 0 stop⟩]
      (.int (Int32.ofNat n) (Span.ofRange 0 stop)) .int where
  starts := ⟨_, _, rfl, rfl⟩
  runsOut := rfl
  closed := rfl
  derives := by
    have hfits : Reader.decimalValue (Nat.toDigits 10 n) ≤ 2147483647 := by
      rwa [decimalValue_toDigits]
    have hint := Expression.int hfits (Span.ofRange 0 stop)
    rw [decimalValue_toDigits] at hint
    exact sum_of_primary hint
  valued := nofun
  unnamed := rfl
  accepted _ _ _ _ := rfl
  value _ _ _ := rfl

/-- The least integer, whose digits are no literal without the sign. -/
theorem literal_least (minus digits : Span) (h : minus.start = 0) :
    Literal (.int (-2147483648))
      [⟨.symbol .minus, minus⟩, ⟨.integer "2147483648".toList, digits⟩]
      (.int (-2147483648) (minus.merge digits)) .int where
  starts := ⟨_, _, rfl, h⟩
  runsOut := rfl
  closed := rfl
  derives := .ofProduct (.ofSigned (.least minus digits))
  valued := nofun
  unnamed := rfl
  accepted _ _ _ _ := rfl
  value _ _ _ := rfl

theorem literal_negative {n : Nat} (h : n ≤ 2147483647) (minus digits : Span)
    (hstart : minus.start = 0) :
    Literal (.int (-Int32.ofNat n))
      [⟨.symbol .minus, minus⟩, ⟨.integer (Nat.toDigits 10 n), digits⟩]
      (.neg (.int (Int32.ofNat n) digits) (minus.merge digits)) .int where
  starts := ⟨_, _, rfl, hstart⟩
  runsOut := rfl
  closed := rfl
  derives := by
    have hfits : Reader.decimalValue (Nat.toDigits 10 n) ≤ 2147483647 := by
      rwa [decimalValue_toDigits]
    have hint := Expression.int hfits digits
    rw [decimalValue_toDigits] at hint
    exact .ofProduct (.ofSigned (.negate minus (.ofSuffixed (.ofPrimary hint))))
  valued := nofun
  unnamed := rfl
  accepted _ _ _ _ := rfl
  value _ _ _ := rfl

/-- The text that an answer shows for such a value is a literal for it. -/
theorem exists_literal {v : Value} (h : v.IsLiteral) :
    ∃ e type, Literal v (Token.scan v.render.toList) e type := by
  cases v with
  | void => exact h.elim
  | object cls identity => exact h.elim
  | exception descriptor => exact h.elim
  | null => exact ⟨_, _, by
      rw [show Token.scan (Value.render .null).toList =
        [⟨.keyword .nullWord, Span.ofRange 0 4⟩] by cbv]
      exact literal_null 4⟩
  | bool b => exact ⟨_, _, by
      rw [show Token.scan (Value.render (.bool b)).toList =
        [⟨.keyword (if b then .trueWord else .falseWord), Span.ofRange 0 (if b then 4 else 5)⟩] by
          cases b <;> cbv]
      exact literal_bool b _⟩
  | string s =>
    have htext : (Value.render (.string s)).toList = Quoted.quote s.toList :=
      String.toList_ofList
    rw [htext, scan_quote]
    exact ⟨_, _, literal_string s _⟩
  | int n =>
    cases hn : n.toInt with
    | ofNat m =>
      have htext : (Value.render (.int n)).toList = Nat.toDigits 10 m := by
        show (toString n.toInt).toList = _
        rw [hn]
        exact Nat.toList_repr
      have hvalue : n = Int32.ofNat m := by
        rw [← Int32.ofInt_eq_ofNat, ← Int32.ofInt_toInt n, hn]
        rfl
      have hlt : (m : Int) < 2 ^ 31 := lt_of_eq_of_lt hn.symm n.toInt_lt
      rw [htext, scan_digits, hvalue]
      exact ⟨_, _, literal_digits (by omega) _⟩
    | negSucc m =>
      have htext : (Value.render (.int n)).toList = '-' :: Nat.toDigits 10 (m + 1) := by
        show (toString n.toInt).toList = _
        rw [hn]
        show ("-" ++ (m + 1).repr).toList = _
        rw [String.toList_append, Nat.toList_repr]
        rfl
      have hvalue : n = -Int32.ofNat (m + 1) := by
        rw [← Int32.ofInt_eq_ofNat, ← Int32.ofInt_neg, ← Int32.ofInt_toInt n, hn]
        rfl
      have hle := n.le_toInt
      rw [hn] at hle
      rw [htext, scan_negative, hvalue]
      by_cases hleast : m + 1 = 2147483648
      · rw [hleast]
        exact ⟨_, _, literal_least _ _ rfl⟩
      · exact ⟨_, _, literal_negative (by omega) _ _ rfl⟩

/-! ## Typing a literal -/

theorem lineAt_zero (cs : List Char) : (LineTable.ofSource cs).lineAt 0 = 1 := by
  have hlater : (((lineBreaks cs).map fun b => wordOf b.stop).countP (· ≤ 0)) = 0 := by
    rw [List.countP_eq_zero]
    intro start hstart
    obtain ⟨b, hb, rfl⟩ := List.mem_map.mp hstart
    have hpos := (lineBreaksFrom_bounds 0 cs b hb).1
    have hword := wordOf_toNat b.stop
    rw [decide_eq_true_eq, UInt32.le_iff_toNat_le, hword]
    show ¬ min b.stop 4294967295 ≤ 0
    omega
  unfold LineTable.ofSource LineTable.lineAt
  rw [List.countP_cons_of_pos (by simp), hlater]
  rfl

variable {source : String} {v : Value} {e : Expr} {type : Ty}

/-- A literal is one complete unit. -/
theorem Literal.nextUnit (h : Literal v (Token.scan source.toList) e type) :
    nextUnit source = .complete source "" := by
  obtain ⟨t, ts, htokens, hstart⟩ := h.starts
  have hruns := h.runsOut
  have hclosed := h.closed
  rw [htokens] at hruns hclosed
  have hcut := slice_middle [] source.toList []
  have hrest := sliceFrom_middle [] source.toList []
  simp only [List.nil_append, List.append_nil, byteLength_nil] at hcut hrest
  unfold Language.nextUnit nextUnitChars
  rw [htokens]
  simp only [hruns, hclosed, hstart]
  show (if (0 : Int) < 0 ∨ (0 : Int) < 0 ∨ false = true then NextUnit.incomplete else
    .complete (String.ofList (slice 0 (byteLength source.toList) source.toList))
      (String.ofList (sliceFrom (byteLength source.toList) source.toList))) = _
  rw [if_neg (by simp), hcut, hrest, String.ofList_toList]

theorem Literal.parse (h : Literal v (Token.scan source.toList) e type) :
    Item.parse source = .ok (.stmt (.expr e 1)) := by
  obtain ⟨t, ts, htokens, hstart⟩ := h.starts
  have hderives := h.derives
  rw [htokens] at hderives
  have hstmt : Grammar.TopLevel (lineIn source) _ _ := .stmt (.expr hderives) .absent
  rw [List.append_nil, ← htokens, hstart, lineIn, lineAt_zero] at hstmt
  exact (Item.parse_eq_ok_iff source _).mpr hstmt

/-- Running a literal keeps its value and says so. -/
theorem Literal.runUnit (h : Literal v (Token.scan source.toList) e type) (files : FileTree)
    {w : Workspace SessionState} (hopen : w.closed = false) :
    (Workspace.runUnit snippetCompiler files source).run w =
      (.ok [.value (SessionState.keptName (w.state.values + 1)) v.render],
        Workspace.keeping w type v) := by
  have hkept : ¬ (type = .void ∨ e.isName = true) := by
    rw [h.unnamed]
    simpa using h.valued
  obtain ⟨⟨id, kind, name, text⟩, rfl, rfl, hrun⟩ := evaluate_kept hopen files h.parse
    (h.accepted _ _ _ 1) hkept fun snippet => h.value files snippet 1
  exact (Reading.run_bind_ok hrun).trans (Outcome.ofEvents_run snippetCompiler _ _)

/-- A literal that is typed is run as the only unit. -/
theorem Literal.evaluateOutcomes (h : Literal v (Token.scan source.toList) e type)
    (files : FileTree) {s : Evaluator SessionState} (hopen : s.isClosed = false)
    (hholding : s.isHolding = false) :
    (Evaluator.evaluateOutcomes snippetCompiler files source).run s =
      (.ok [.value (SessionState.keptName (s.workspace.state.values + 1)) v.render],
        ⟨Workspace.keeping s.workspace type v, {}⟩) := by
  have hpending : s.pending.text = "" := by
    simpa [Evaluator.isHolding, PendingInput.isHolding] using hholding
  rw [Evaluator.evaluateOutcomes_run, Evaluator.evaluateWithin_run, hpending, String.empty_append]
  have hrun := Evaluator.runUnits_complete source.length (e := ⟨s.workspace, {}⟩) hopen h.nextUnit
    (h.runUnit files hopen)
  rw [hrun]
  rfl

/-- **Shown values can be typed back.**  Let a session be open and hold no input, and let a value
be an integer, a boolean, a string or `null`.  The text that an answer shows for it is one complete
unit, which is read as an expression and accepted whatever has been declared.  Evaluating it keeps
the value again, under the next number, and shows the same text behind that name.  A string in
quotes is one token, and reading what stands between the quotes gives it back. -/
theorem shown_value_typed_back {s : Evaluator SessionState} (hopen : s.isClosed = false)
    (hholding : s.isHolding = false) (files : FileTree) {v : Value} (hv : v.IsLiteral) :
    let name := SessionState.keptName (s.workspace.state.values + 1)
    Language.nextUnit v.render = .complete v.render "" ∧
    (∃ e type, Item.parse v.render = .ok (.stmt (.expr e 1)) ∧
      ∀ env host wrapper,
        (Item.stmt (.expr e 1)).check env host wrapper = .ok (.expr e 1 type)) ∧
    (∃ w : Workspace SessionState,
      (Evaluator.evaluateOutcomes snippetCompiler files v.render).run s =
        (.ok [.value name v.render], ⟨w, {}⟩) ∧
      (Evaluator.evaluate snippetCompiler files v.render).run s =
        (.ok (some (name ++ " ==> " ++ v.render)), ⟨w, {}⟩) ∧
      w.state.valueOf? name = some v) ∧
    ∀ text, v = .string text →
      Token.scan v.render.toList = [⟨.quoted (Quoted.encode text.toList),
        Span.ofRange 0 (byteLength v.render.toList)⟩] ∧
      Quoted.decode? (Quoted.encode text.toList) = some text.toList := by
  intro name
  obtain ⟨e, type, hliteral⟩ := exists_literal hv
  have houtcomes := hliteral.evaluateOutcomes files hopen hholding
  refine ⟨hliteral.nextUnit, ⟨e, type, hliteral.parse, fun env host wrapper =>
    hliteral.accepted env host wrapper 1⟩, ⟨_, houtcomes, ?_, ?_⟩, ?_⟩
  · have hshown : Outcome.renderAll s.workspace.loader.host [.value name v.render] =
        some (name ++ " ==> " ++ v.render) := rfl
    have hfull : (name ++ " ==> " ++ v.render).isEmpty = false := by
      simp
    rw [Evaluator.evaluate_run, houtcomes]
    show (Except.ok ((Outcome.renderAll s.workspace.loader.host [.value name v.render]).filter
      (!·.isEmpty)), _) = _
    rw [hshown, Option.filter_some, hfull]
    rfl
  · exact (Table.get?_insert _ _ _ _).trans (if_pos rfl)
  · rintro text rfl
    have htext : (Value.render (.string text)).toList = Quoted.quote text.toList :=
      String.toList_ofList
    rw [htext]
    exact ⟨scan_quote text.toList, Quoted.decode?_encode text.toList⟩

/-- A text with a quote, a backslash, a line break and a null character, and the least integer, each
shown in a new session and typed back. -/
theorem shown_value_typed_back_twice :
    newEvaluator.isClosed = false ∧ newEvaluator.isHolding = false ∧
    (Value.string "a\"\\\n\x00").IsLiteral ∧ (Value.int (-2147483648)).IsLiteral ∧
    ((Evaluator.evaluate snippetCompiler {} "\"a\\\"\\\\\\n\\0\"").run newEvaluator).1 =
      .ok (some "$1 ==> \"a\\\"\\\\\\n\\0\"") ∧
    ((Evaluator.evaluate snippetCompiler {} "-2147483648").run newEvaluator).1 =
      .ok (some "$1 ==> -2147483648") := by
  have hopen : newEvaluator.isClosed = false := rfl
  have hholding : newEvaluator.isHolding = false := by decide
  have htext : (Value.string "a\"\\\n\x00").IsLiteral := trivial
  have hleast : (Value.int (-2147483648)).IsLiteral := trivial
  obtain ⟨-, -, ⟨w, -, hshown, -⟩, -⟩ := shown_value_typed_back hopen hholding {} htext
  obtain ⟨-, -, ⟨w', -, hshown', -⟩, -⟩ := shown_value_typed_back hopen hholding {} hleast
  have hrender : (Value.string "a\"\\\n\x00").render = "\"a\\\"\\\\\\n\\0\"" := by cbv
  have hrender' : (Value.int (-2147483648)).render = "-2147483648" := by cbv
  have hname : SessionState.keptName (newEvaluator.workspace.state.values + 1) = "$1" := by cbv
  rw [hrender, hname] at hshown
  rw [hrender', hname] at hshown'
  exact ⟨hopen, hholding, htext, hleast, congrArg Prod.fst hshown, congrArg Prod.fst hshown'⟩

end ReplEngine.Language
