import ReplEngine.Proofs.Lexing.Boundaries
import ReplEngine.Proofs.Syntax.Grammar
import ReplEngine.Proofs.Syntax.Spans
set_option autoImplicit false

/-!
# Spans run from the first to the last token

Every phrase of an item is derived from one piece of the tokens, and its span runs from the first
of them to the last.  That needs the tokens in order: the span of a phrase with two operands is
computed as a least cover (`Span.merge`), and covers from first to last only because the right
operand stands behind the left one.
-/

namespace ReplEngine.Language.Grammar

/-! ## Runs of tokens -/

/-- The span runs from the first to the last of the tokens. -/
structure Runs (ts : List Token) (s : Span) : Prop where
  start : ts.head?.map (fun t => t.span.start) = some s.start
  stop : ts.getLast?.map (fun t => t.span.stop) = some s.stop

variable {ts us : List Token} {s s' : Span}

theorem runs_stopAfter (t : Token) (ts : List Token) :
    Runs (t :: ts) ⟨t.span.start, stopAfter t.span.stop ts⟩ := by
  refine ⟨rfl, ?_⟩
  induction ts generalizing t with
  | nil => rfl
  | cons u ts ih =>
    rw [List.getLast?_cons_cons]
    exact ih u

theorem runs_singleton (kind : TokenKind) (s : Span) : Runs [⟨kind, s⟩] s := ⟨rfl, rfl⟩

theorem Runs.around (h : Runs ts s) (between : List Token) (h' : Runs us s') :
    Runs (ts ++ (between ++ us)) ⟨s.start, s'.stop⟩ := by
  refine ⟨?_, ?_⟩
  · rw [List.head?_append, Option.map_or, h.start]
    rfl
  · rw [List.getLast?_append, List.getLast?_append, Option.map_or, Option.map_or, h'.stop]
    rfl

theorem Runs.exists_first (h : Runs ts s) : ∃ t us, ts = t :: us ∧ t.span.start = s.start := by
  obtain ⟨t, hfirst, hstart⟩ := Option.map_eq_some_iff.mp h.start
  obtain ⟨us, rfl⟩ := List.head?_eq_some_iff.mp hfirst
  exact ⟨t, us, rfl, hstart⟩

theorem Runs.exists_last (h : Runs ts s) : ∃ us t, ts = us ++ [t] ∧ t.span.stop = s.stop := by
  obtain ⟨t, hlast, hstop⟩ := Option.map_eq_some_iff.mp h.stop
  obtain ⟨us, rfl⟩ := List.getLast?_eq_some_iff.mp hlast
  exact ⟨us, t, rfl, hstop⟩

/-- No token of a run is outside its span. -/
theorem encloses_of_mem (hts : InOrder ts) (h : Runs ts s) {t : Token} (ht : t ∈ ts) :
    s.Encloses t.span := by
  refine ⟨?_, ?_⟩
  · obtain ⟨first, us, rfl, hstart⟩ := h.exists_first
    rw [← hstart]
    rcases List.mem_cons.mp ht with rfl | hlater
    · exact UInt32.le_refl _
    · have hwide := hts.wide first List.mem_cons_self
      have hapart := (List.pairwise_cons.mp hts.apart).1 t hlater
      exact UInt32.le_of_lt (UInt32.lt_of_lt_of_le hwide hapart)
  · obtain ⟨us, last, rfl, hstop⟩ := h.exists_last
    rw [← hstop]
    rcases List.mem_append.mp ht with hearlier | hlast
    · have hwide := hts.wide last (List.mem_append_right us List.mem_cons_self)
      have hapart := (List.pairwise_append.mp hts.apart).2.2 t hearlier last List.mem_cons_self
      exact UInt32.le_of_lt (UInt32.lt_of_le_of_lt hapart hwide)
    · rw [List.mem_singleton.mp hlast]
      exact UInt32.le_refl _

/-- A run of tokens in a run of tokens has its span inside the span of the other. -/
theorem Runs.encloses (h : Runs ts s) (hts : InOrder ts) (h' : Runs us s') (hus : us <:+: ts) :
    s.Encloses s' := by
  obtain ⟨first, rest, rfl, hstart⟩ := h'.exists_first
  obtain ⟨front, last, hlast, hstop⟩ := h'.exists_last
  have hmem : last ∈ first :: rest := hlast ▸ List.mem_append_right front List.mem_cons_self
  rw [Span.Encloses, ← hstart, ← hstop]
  exact ⟨(encloses_of_mem hts h (hus.subset List.mem_cons_self)).1,
    (encloses_of_mem hts h (hus.subset hmem)).2⟩

/-- The tokens of a run are those inside its span. -/
theorem filter_of_runs (hts : InOrder ts) (h : Runs us s) (hus : us <:+: ts) :
    ts.filter (fun t => s.Encloses t.span) = us := by
  have hinside : InOrder us := hts.piece hus
  obtain ⟨first, rest, hcons, hstart⟩ := h.exists_first
  obtain ⟨front, last, hconcat, hstop⟩ := h.exists_last
  have hfirst : first ∈ us := hcons ▸ List.mem_cons_self
  have hlast : last ∈ us := hconcat ▸ List.mem_append_right front List.mem_cons_self
  obtain ⟨before, after, rfl⟩ := hus
  obtain ⟨hfronts, -, hafter⟩ := List.pairwise_append.mp hts.apart
  obtain ⟨-, -, hbefore⟩ := List.pairwise_append.mp hfronts
  rw [List.filter_append, List.filter_append]
  have hnoneBefore : before.filter (fun t => s.Encloses t.span) = [] := by
    refine List.filter_eq_nil_iff.mpr fun t ht hencloses => ?_
    have hwide := hts.wide t (List.mem_append_left _ (List.mem_append_left _ ht))
    have hle : t.span.stop ≤ s.start := hstart ▸ hbefore t ht first hfirst
    have hge : s.start ≤ t.span.start := (of_decide_eq_true hencloses).1
    exact UInt32.not_le.mpr hwide (UInt32.le_trans hle hge)
  have hnoneAfter : after.filter (fun t => s.Encloses t.span) = [] := by
    refine List.filter_eq_nil_iff.mpr fun t ht hencloses => ?_
    have hwide := hts.wide t (List.mem_append_right _ ht)
    have hle : s.stop ≤ t.span.start := hstop ▸ hafter last (List.mem_append_right _ hlast) t ht
    have hge : t.span.stop ≤ s.stop := (of_decide_eq_true hencloses).2
    exact UInt32.not_le.mpr hwide (UInt32.le_trans hge hle)
  have hall : us.filter (fun t => s.Encloses t.span) = us :=
    List.filter_eq_self.mpr fun t ht => decide_eq_true (encloses_of_mem hinside h ht)
  rw [hnoneBefore, hnoneAfter, hall, List.nil_append, List.append_nil]

theorem Runs.isPart {source : List Char} (h : Runs ts s) (hts : InOrder ts)
    (hparts : ∀ t ∈ ts, t.span.IsPart source) : s.IsPart source := by
  obtain ⟨first, rest, hcons, hstart⟩ := h.exists_first
  obtain ⟨front, last, hconcat, hstop⟩ := h.exists_last
  have hfirst : first ∈ ts := hcons ▸ List.mem_cons_self
  have hlast : last ∈ ts := hconcat ▸ List.mem_append_right front List.mem_cons_self
  obtain ⟨-, hle⟩ := encloses_of_mem hts h hfirst
  refine ⟨?_, hstop ▸ (hparts last hlast).stop_le, hstart ▸ (hparts first hfirst).start_isCut,
    hstop ▸ (hparts last hlast).stop_isCut⟩
  rw [← hstart]
  exact UInt32.le_trans (hparts first hfirst).start_le_stop hle

/-! ## Expressions -/

theorem infix_behind (ts : List Token) (t : Token) (us : List Token) : us <:+: ts ++ t :: us :=
  ((List.suffix_cons t us).trans (List.suffix_append ts _)).isInfix

/-- The least cover of two spans, one behind the other. -/
theorem merge_of_runs (h : Runs ts s) (between : List Token) (h' : Runs us s')
    (hts : InOrder (ts ++ (between ++ us))) : s.merge s' = ⟨s.start, s'.stop⟩ := by
  have hwhole := h.around between h'
  obtain ⟨front, last, rfl, hlast⟩ := h.exists_last
  obtain ⟨first, rest, rfl, hfirst⟩ := h'.exists_first
  have hstart : s.start ≤ s'.start := hfirst ▸ (encloses_of_mem hts hwhole (by simp)).1
  have hstop : s.stop ≤ s'.stop := hlast ▸ (encloses_of_mem hts hwhole (by simp)).2
  show (⟨if s.start ≤ s'.start then s.start else s'.start,
    if s.stop ≤ s'.stop then s'.stop else s.stop⟩ : Span) = _
  rw [if_pos hstart, if_pos hstop]

/-- The span of an expression runs from its first token to its last, parentheses included. -/
theorem runs_of_expression {l : Level} {e : Expr} (h : Expression l ts e) (hts : InOrder ts) :
    Runs ts e.span := by
  induction h with
  | ofProduct _ ih | ofSigned _ ih | ofSuffixed _ ih | ofPrimary _ ih => exact ih hts
  | binary op hop s _ _ ihl ihr =>
    have hl := ihl (hts.piece (List.prefix_append _ _).isInfix)
    have hr := ihr (hts.piece (infix_behind _ _ _))
    rw [Expr.span, merge_of_runs hl [_] hr hts]
    exact hl.around [_] hr
  | negate minus _ ih =>
    have hminus := runs_singleton (.symbol .minus) minus
    have hoperand := ih (hts.piece (List.suffix_cons _ _).isInfix)
    rw [Expr.span, merge_of_runs hminus [] hoperand hts]
    exact hminus.around [] hoperand
  | least minus s =>
    have hminus := runs_singleton (.symbol .minus) minus
    have hdigits := runs_singleton (.integer "2147483648".toList) s
    rw [Expr.span, merge_of_runs hminus [] hdigits hts]
    exact hminus.around [] hdigits
  | methodCall method dot name opening closing hr _ _ ihr _ =>
    have hreceiver := ihr (hts.piece (List.prefix_append _ _).isInfix)
    exact hreceiver.around (_ :: _ :: _ :: _) (runs_singleton _ closing)
  | call f name opening closing =>
    exact (runs_singleton _ name).around (_ :: _)
      (runs_singleton _ closing)
  | new className word name opening closing =>
    exact (runs_singleton _ word).around (_ :: _ :: _)
      (runs_singleton _ closing)
  | paren opening closing =>
    rw [Expr.span_withSpan]
    exact (runs_singleton _ opening).around _
      (runs_singleton _ closing)
  | _ => exact runs_singleton _ _

/-- The expression is derived from this piece of the tokens. -/
def ReadFrom (tokens us : List Token) (e : Expr) : Prop := us <:+: tokens ∧ ∃ l, Expression l us e

variable {vs : List Token} {e r : Expr}

theorem ReadFrom.within (h : ReadFrom us vs e) (hus : us <:+: ts) : ReadFrom ts vs e :=
  ⟨h.1.trans hus, h.2⟩

theorem Listed.isInfix {α : Type} {parts : List (List Token × α)} (h : Listed parts us)
    {p : List Token × α} (hp : p ∈ parts) : p.1 <:+: us := by
  induction h with
  | none => cases hp
  | one ts a =>
    cases List.mem_singleton.mp hp
    exact List.infix_refl ts
  | more ts a comma _ ih =>
    rcases List.mem_cons.mp hp with rfl | hp
    · exact (List.prefix_append _ _).isInfix
    · exact (ih hp).trans (infix_behind _ _ _)

/-- What is in a list of expressions is derived from a piece of the tokens of the list. -/
theorem readFrom_of_listed {parts : List (List Token × Expr)} (hlist : Listed parts us)
    (hargs : ∀ p ∈ parts, Expression .sum p.1 p.2)
    (hinside : ∀ p ∈ parts, ∀ r ∈ p.2.inside, ∃ vs, ReadFrom p.1 vs r)
    (hr : r ∈ Expr.insideAll (parts.map Prod.snd)) : ∃ vs, ReadFrom us vs r := by
  obtain ⟨e, he, hr⟩ := Expr.mem_insideAll.mp hr
  obtain ⟨p, hp, rfl⟩ := List.mem_map.mp he
  rcases hr with rfl | hr
  · exact ⟨p.1, hlist.isInfix hp, .sum, hargs p hp⟩
  · obtain ⟨vs, hvs⟩ := hinside p hp r hr
    exact ⟨vs, hvs.within (hlist.isInfix hp)⟩

/-- A phrase that is derived from a piece of the tokens, and what is inside it. -/
theorem readFrom_of_operand {l : Level} (he : Expression l us e)
    (hinside : ∀ r ∈ e.inside, ∃ vs, ReadFrom us vs r) (hus : us <:+: ts) :
    ∀ r ∈ e :: e.inside, ∃ vs, ReadFrom ts vs r := by
  refine List.forall_mem_cons.mpr ⟨⟨us, hus, l, he⟩, ?_⟩
  intro r hr
  obtain ⟨vs, hvs⟩ := hinside r hr
  exact ⟨vs, hvs.within hus⟩

/-- What is inside an expression is derived from a piece of its tokens. -/
theorem readFrom_of_inside {l : Level} (h : Expression l ts e) :
    ∀ r ∈ e.inside, ∃ us, ReadFrom ts us r := by
  induction h with
  | ofProduct _ ih | ofSigned _ ih | ofSuffixed _ ih | ofPrimary _ ih => exact ih
  | @binary op l hop s ts us lhs rhs hl hr ihl ihr =>
    intro r hmem
    rcases List.mem_append.mp hmem with hmem | hmem
    · exact readFrom_of_operand hl ihl (List.prefix_append _ _).isInfix r hmem
    · exact readFrom_of_operand hr ihr (infix_behind _ _ _) r hmem
  | negate minus he ih =>
    exact readFrom_of_operand he ih (List.suffix_cons _ _).isInfix
  | methodCall method dot name opening closing hr hlist hargs ihr ihargs =>
    intro r hmem
    rcases List.mem_append.mp hmem with hmem | hmem
    · exact readFrom_of_operand hr ihr (List.prefix_append _ _).isInfix r hmem
    · obtain ⟨vs, hvs⟩ := readFrom_of_listed hlist hargs ihargs hmem
      exact ⟨vs, (hvs.within (List.infix_append [_, _, _] _ [_])).within
        (List.suffix_append _ _).isInfix⟩
  | call f name opening closing hlist hargs ihargs =>
    intro r hmem
    obtain ⟨vs, hvs⟩ := readFrom_of_listed hlist hargs ihargs hmem
    exact ⟨vs, hvs.within (List.infix_append [_, _] _ [_])⟩
  | new className word name opening closing hlist hargs ihargs =>
    intro r hmem
    obtain ⟨vs, hvs⟩ := readFrom_of_listed hlist hargs ihargs hmem
    exact ⟨vs, hvs.within (List.infix_append [_, _, _] _ [_])⟩
  | paren opening closing he ih =>
    intro r hmem
    rw [Expr.inside_withSpan] at hmem
    obtain ⟨vs, hvs⟩ := ih r hmem
    exact ⟨vs, hvs.within (List.infix_append [_] _ [_])⟩
  | _ => exact nofun

theorem ReadFrom.runs (h : ReadFrom ts us e) (hts : InOrder ts) : Runs us e.span := by
  obtain ⟨hus, l, he⟩ := h
  exact runs_of_expression he (hts.piece hus)

/-- An expression is derived from one piece of the tokens only: those inside its span. -/
theorem ReadFrom.unique (h : ReadFrom ts us e) (h' : ReadFrom ts vs e) (hts : InOrder ts) :
    us = vs := by
  rw [← filter_of_runs hts (h.runs hts) h.1, ← filter_of_runs hts (h'.runs hts) h'.1]

theorem ReadFrom.encloses (h : ReadFrom ts us e) (hts : InOrder ts) (hr : r ∈ e.inside) :
    e.span.Encloses r.span := by
  obtain ⟨hus, l, he⟩ := h
  obtain ⟨vs, hvs⟩ := readFrom_of_inside he r hr
  have hinside := hts.piece hus
  exact (runs_of_expression he hinside).encloses hinside (hvs.runs hinside) hvs.1

/-! ## Statements -/

variable {line : UInt32 → UInt32} {stmt : Stmt} {item : Item}

theorem runs_of_simple (h : Simple line ts stmt) (hts : InOrder ts) : Runs ts stmt.span := by
  cases h with
  | ret | retValue | throw | var | varInit => exact runs_stopAfter _ _
  | expr he => exact runs_of_expression he hts

theorem line_of_simple {t : Token} (h : Simple line (t :: ts) stmt) :
    stmt.line = line t.span.start := by
  cases h <;> rfl

theorem readFrom_of_simple (h : Simple line ts stmt) :
    ∀ e ∈ stmt.expressions, ∃ us, ReadFrom ts us e := by
  have hvalue {ts us : List Token} {e : Expr} (he : Expression .sum us e) (hus : us <:+: ts) :=
    readFrom_of_operand he (readFrom_of_inside he) hus
  cases h with
  | ret | var => exact nofun
  | retValue _ he | throw _ he => exact hvalue he (List.suffix_cons _ _).isInfix
  | varInit _ _ _ _ _ he => exact hvalue he (List.suffix_append [_, _, _] _).isInfix
  | expr he => exact hvalue he (List.infix_refl _)

/-! ## Items -/

/-- Each of the statements is derived from a piece of the tokens. -/
def Pieces (line : UInt32 → UInt32) (ts : List Token) (body : List Stmt) : Prop :=
  ∀ stmt ∈ body, ∃ us, us <:+: ts ∧ Simple line us stmt

theorem Pieces.within {body : List Stmt} (h : Pieces line us body) (hus : us <:+: ts) :
    Pieces line ts body := by
  intro stmt hmem
  obtain ⟨vs, hvs, hder⟩ := h stmt hmem
  exact ⟨vs, hvs.trans hus, hder⟩

theorem pieces_of_statements {body : List Stmt} (h : Statements line ts body) :
    Pieces line ts body := by
  induction h with
  | nil => exact nofun
  | cons semicolon hs _ ih =>
    refine List.forall_mem_cons.mpr ⟨⟨_, (List.prefix_append _ _).isInfix, hs⟩, ?_⟩
    exact ih.within (infix_behind _ _ _)

/-- The name of a method is one of its tokens, and its statements are pieces of them. -/
theorem parts_of_method {m : MethodDecl} (h : Method line ts m) :
    (∃ t ∈ ts, t.span = m.nameSpan) ∧ Pieces line ts m.body := by
  cases h with
  | mk htype name word nameSpan _ _ _ _ _ _ hbody =>
    refine ⟨⟨⟨.identifier name, nameSpan⟩, by simp, rfl⟩, ?_⟩
    refine (pieces_of_statements hbody).within ?_
    exact ((List.suffix_append [_, _] _).trans (List.suffix_append _ _)).isInfix.trans
      (List.prefix_append _ _).isInfix

theorem method_of_methods {ms : List MethodDecl} (h : Methods line ts ms) :
    ∀ m ∈ ms, ∃ us, us <:+: ts ∧ Method line us m := by
  induction h with
  | nil => exact nofun
  | cons hm _ ih =>
    refine List.forall_mem_cons.mpr ⟨⟨_, (List.prefix_append _ _).isInfix, hm⟩, ?_⟩
    intro m hmem
    obtain ⟨vs, hvs, hder⟩ := ih m hmem
    exact ⟨vs, hvs.trans (List.suffix_append _ _).isInfix, hder⟩

/-- The names that an item declares are tokens of it, and its statements are pieces of them. -/
theorem parts_of_topLevel (h : TopLevel line ts item) :
    (∀ s ∈ item.nameSpans, ∃ t ∈ ts, t.span = s) ∧ Pieces line ts item.statements := by
  cases h with
  | @typeDecl ts us decl hdecl hend =>
    cases hdecl with
    | @mk name word nameSpan opening closing ts ms hms =>
      have hmethods : ts <:+: (⟨.keyword .classWord, word⟩ :: ⟨.identifier name, nameSpan⟩ ::
          ⟨.symbol .openBrace, opening⟩ :: ts ++ [⟨.symbol .closeBrace, closing⟩]) ++ us :=
        (List.infix_append [_, _, _] ts [_]).trans (List.prefix_append _ us).isInfix
      refine ⟨List.forall_mem_cons.mpr ⟨⟨⟨.identifier name, nameSpan⟩, by simp, rfl⟩, ?_⟩, ?_⟩
      · intro s hs
        obtain ⟨m, hm, rfl⟩ := List.mem_map.mp hs
        obtain ⟨vs, hvs, hder⟩ := method_of_methods hms m hm
        obtain ⟨t, ht, hspan⟩ := (parts_of_method hder).1
        exact ⟨t, (hvs.trans hmethods).subset ht, hspan⟩
      · intro stmt hstmt
        obtain ⟨m, hm, hstmt⟩ := List.mem_flatMap.mp hstmt
        obtain ⟨vs, hvs, hder⟩ := method_of_methods hms m hm
        exact (parts_of_method hder).2.within (hvs.trans hmethods) stmt hstmt
  | method hdecl hend =>
    obtain ⟨⟨t, ht, hspan⟩, hbody⟩ := parts_of_method hdecl
    refine ⟨?_, hbody.within (List.prefix_append _ _).isInfix⟩
    intro s hs
    exact ⟨t, List.mem_append_left _ ht, hspan.trans (List.mem_singleton.mp hs).symm⟩
  | stmt hs hend =>
    refine ⟨nofun, ?_⟩
    intro stmt hstmt
    rw [List.mem_singleton.mp hstmt]
    exact ⟨_, (List.prefix_append _ _).isInfix, hs⟩

theorem readFrom_of_topLevel (h : TopLevel line ts item) :
    ∀ e ∈ item.expressions, ∃ us, ReadFrom ts us e := by
  intro e he
  obtain ⟨stmt, hstmt, he⟩ := List.mem_flatMap.mp he
  obtain ⟨us, hus, hder⟩ := (parts_of_topLevel h).2 stmt hstmt
  obtain ⟨vs, hvs⟩ := readFrom_of_simple hder e he
  exact ⟨vs, hvs.within hus⟩

/-- Every span of an item can be cut out of its source. -/
theorem isPart_of_topLevel {source : List Char} (h : TopLevel line ts item) (hts : InOrder ts)
    (hparts : ∀ t ∈ ts, t.span.IsPart source) : ∀ s ∈ item.spans, s.IsPart source := by
  intro s hs
  rcases List.mem_append.mp hs with hname | hs
  · obtain ⟨t, ht, rfl⟩ := (parts_of_topLevel h).1 s hname
    exact hparts t ht
  obtain ⟨stmt, hstmt, hs⟩ := List.mem_flatMap.mp hs
  obtain ⟨us, hus, hder⟩ := (parts_of_topLevel h).2 stmt hstmt
  have hpiece {vs : List Token} (hvs : vs <:+: us) {s : Span} (hruns : Runs vs s) :
      s.IsPart source :=
    hruns.isPart (hts.piece (hvs.trans hus)) fun t ht =>
      hparts t ((hvs.trans hus).subset ht)
  rcases List.mem_cons.mp hs with rfl | hs
  · exact hpiece (List.infix_refl us) (runs_of_simple hder (hts.piece hus))
  · obtain ⟨e, he, rfl⟩ := List.mem_map.mp hs
    obtain ⟨vs, hvs⟩ := readFrom_of_simple hder e he
    exact hpiece hvs.1 (hvs.runs (hts.piece hus))

end ReplEngine.Language.Grammar
