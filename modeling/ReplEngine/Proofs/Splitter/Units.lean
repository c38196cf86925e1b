import Mathlib.Algebra.Group.Nat.Defs
import ReplEngine.Proofs.Lexing.Lines
import ReplEngine.Proofs.Splitter.UnitEnd
import ReplEngine.Proofs.Syntax.Moved
import ReplEngine.Proofs.Syntax.Units
set_option autoImplicit false

/-!
# Sources fall into their units

A source that is read as one unit is never reported incomplete, never cut inside and never joined
to what follows it: `splits_join` says this of any number of such sources written one behind the
other.  Every piece that comes out has the tokens of the source it comes from, and is read as the
same item at other positions.
-/

namespace ReplEngine.Language

open Text Grammar Reader

/-! ## Cutting a source -/

/-- `body` is what is left of the source `u` without what stands in front of its first token and
some `trail` without tokens. -/
structure Cut (u before body trail : List Char) : Prop where
  eq : u = before ++ (body ++ trail)
  tokens : Token.scan u = (Token.scan body).map (Token.map (later (byteLength before)))
  trail_empty : Token.scan trail = []
  front : ¬ SplitsBreak before (body ++ trail)
  back : ¬ SplitsBreak body trail

theorem notSplitsBreak_of_front {before cs : List Char} {c : Char} (h : isSeparator c = false) :
    ¬ SplitsBreak before (c :: cs) := by
  intro hsplit
  obtain ⟨-, hhead⟩ := hsplit
  cases hhead
  cases h

theorem slice_middle (before body post : List Char) :
    slice (byteLength before) (byteLength (before ++ body)) (before ++ (body ++ post)) = body := by
  unfold slice
  rw [slice?_middle]
  rfl

theorem sliceFrom_middle (before body post : List Char) :
    sliceFrom (byteLength (before ++ body)) (before ++ (body ++ post)) = post := by
  unfold sliceFrom
  rw [← List.append_assoc, dropBytes?_append]
  rfl

/-- A unit is cut out from its first token on: up to where the walk ends, or up to the end of the
source where the walk runs out with nothing open. -/
theorem nextUnitChars_eq {before body post : List Char} {first : Token} {ts : List Token}
    (hsize : byteLength (before ++ (body ++ post)) < 4294967296)
    (htokens : Token.scan (before ++ (body ++ post)) = first :: ts)
    (hfirst : first.span.start = wordOf (byteLength before))
    (hend : findEnd {} (first :: ts) = .at (byteLength (before ++ body)) ∨
      findEnd {} (first :: ts) = .ran {} ∧ endsOpen (first :: ts) = false ∧ post = []) :
    nextUnitChars (before ++ (body ++ post)) =
      .complete (String.ofList body) (String.ofList post) := by
  have hstart : first.span.start.toNat = byteLength before := by
    rw [hfirst]
    apply toNat_wordOf
    rw [byteLength_append] at hsize
    omega
  have hcut := slice_middle before body post
  have hrest := sliceFrom_middle before body post
  unfold nextUnitChars
  rw [htokens]
  rcases hend with hat | ⟨hran, hopen, rfl⟩
  · simp only [hat, hstart, hcut, hrest]
  · rw [List.append_nil] at hcut hrest ⊢
    simp only [hran, hopen, hstart, hcut, hrest]
    rfl

/-- The spelling of a token that a unit can be cut behind is the same in front of any text. -/
theorem isNext_of_closes {text rest : List Char} {kind : TokenKind} (hcloses : Closes kind)
    (h : IsNext text (some kind) rest) :
    ∃ d, text = [d] ∧ IsPlain d ∧ ∀ rest', IsNext [d] (some kind) rest' := by
  have htext := h.text_eq
  rcases hcloses with rfl | rfl
  · exact ⟨Symbol.char .semicolon, htext, by decide, isNext_symbol (by decide)⟩
  · exact ⟨Symbol.char .closeBrace, htext, by decide, isNext_symbol (by decide)⟩

/-- What stands in front of the first token is read as nothing in front of any text that starts
like the token. -/
theorem cut_front {u : List Char} {first : Token} {ts : List Token}
    (h : Token.scan u = first :: ts) :
    ∃ before c behind, u = before ++ c :: behind ∧ isSeparator c = false ∧
      first.span.start = wordOf (byteLength before) ∧
      Scans [] (byteLength before) (c :: behind) (first :: ts) ∧
      ∀ cs, Scans (c :: cs) 0 before [] := by
  obtain ⟨before, c, behind, rfl, hbefore, hrest, hstart, hc⟩ := (scan_eq_iff.1 h).cut_first
  rw [Nat.zero_add] at hrest hstart
  refine ⟨before, c, behind, rfl, hc, hstart, hrest, ?_⟩
  intro cs
  exact hbefore.replace (by simp) cs

/-- What is cut behind a token that a unit can be cut behind is read in front of any text. -/
theorem cut_back {offset : Nat} {c : Char} {cs : List Char} {ts more : List Token} {last : Token}
    (h : Scans [] offset (c :: cs) (ts ++ last :: more)) (hlast : Closes last.kind) :
    ∃ body trail, cs = body ++ trail ∧ (c :: body).getLast? = last.kind.text.getLast? ∧
      (c :: body).getLast? ≠ some '\r' ∧
      last.span.stop = wordOf (offset + byteLength (c :: body)) ∧
      Scans [] (offset + byteLength (c :: body)) trail more ∧
      ∀ post, Scans post offset (c :: body) (ts ++ [last]) := by
  obtain ⟨inside, text, trail, hcut, hinside, hnext, htrail, hspan⟩ := h.cut_at
  have hkind := hnext.text_eq
  obtain ⟨d, rfl, hd, hany⟩ := isNext_of_closes hlast hnext
  obtain ⟨body, hbody⟩ : ∃ body, inside ++ [d] = c :: body := by
    cases inside with
    | nil => exact ⟨[], by rw [(List.cons.inj hcut).1]; rfl⟩
    | cons e inside => exact ⟨inside ++ [d], by rw [(List.cons.inj hcut).1]; rfl⟩
  rw [hbody] at htrail hspan
  refine ⟨body, trail, ?_, ?_, ?_, ?_, htrail, ?_⟩
  · rw [← List.append_assoc, hbody] at hcut
    exact (List.cons.inj hcut).2
  · rw [← hbody, List.getLast?_concat, ← hkind]
    rfl
  · rw [← hbody, List.getLast?_concat]
    intro heq
    cases heq
    exact absurd hd.2.2 (by decide)
  · rw [hspan]
    rfl
  · intro post
    have hone : Scans post (offset + byteLength inside) ([d] ++ []) [last] := by
      obtain ⟨kind, span⟩ := last
      rw [← hbody] at hspan
      obtain rfl := hspan
      rw [byteLength_append, ← Nat.add_assoc]
      exact .token (hany post) (.nil _)
    rw [← hbody]
    exact (hinside.replace_plain hd _).append hone

theorem separate_map {ts : List Token} (f : UInt32 → UInt32) :
    Separate (ts.map (Token.map f)) ↔ Separate ts := by
  cases ts with
  | nil => exact Iff.rfl
  | cons t ts => simp [Separate]

/-- A unit that ends behind tokens read in front of `post` is cut out in front of `post`. -/
theorem complete_in_front {before body post : List Char} {c : Char} {first : Token}
    {ts : List Token} (hbefore : ∀ cs, Scans (c :: cs) 0 before [])
    (hread : Scans post (byteLength before) (c :: body) (first :: ts))
    (hstart : first.span.start = wordOf (byteLength before))
    (hsize : byteLength (before ++ (c :: body ++ post)) < 4294967296)
    (hend : findEnd {} (first :: ts ++ (Token.scan post).map
      (Token.map (later (byteLength (before ++ c :: body))))) =
        .at (byteLength (before ++ c :: body))) :
    Token.scan (before ++ (c :: body ++ post)) = first :: ts ++ (Token.scan post).map
      (Token.map (later (byteLength (before ++ c :: body)))) ∧
    nextUnitChars (before ++ (c :: body ++ post)) =
      .complete (String.ofList (c :: body)) (String.ofList post) := by
  have hpost := scans_scan (byteLength before + byteLength (c :: body)) post
  have hbehind := Scans.append (by rwa [List.append_nil]) hpost
  rw [← Nat.zero_add (byteLength before)] at hbehind
  have hall := scan_eq_iff.2 (Scans.append (hbefore _) hbehind)
  rw [List.nil_append, Nat.zero_add, ← byteLength_append] at hall
  exact ⟨hall, nextUnitChars_eq hsize hall hstart (.inl hend)⟩

/-- Where the tokens of a source allow it, its unit is cut out whatever follows. -/
theorem cut_of_endsClosed {u : List Char} (hends : EndsClosed (Token.scan u)) :
    ∃ before body trail, Cut u before body trail ∧
      (∀ t, (Token.scan u).getLast? = some t →
        t.span.stop = wordOf (byteLength (before ++ body))) ∧
      ∀ post, byteLength (before ++ (body ++ post)) < 4294967296 →
        Separate (Token.scan post) →
        (∃ more, Token.scan (before ++ (body ++ post)) = Token.scan u ++ more) ∧
          nextUnitChars (before ++ (body ++ post)) =
            .complete (String.ofList body) (String.ofList post) := by
  obtain ⟨us, last, hts, hlast, hwalk⟩ := hends
  obtain ⟨first, ts, hfirst⟩ : ∃ first ts, Token.scan u = first :: ts := by
    rw [hts]
    cases us with
    | nil => exact ⟨_, _, rfl⟩
    | cons t us => exact ⟨_, _, rfl⟩
  obtain ⟨before, c, behind, hu, hc, hstart, hrest, hbefore⟩ := cut_front hfirst
  rw [← hfirst, hts] at hrest
  obtain ⟨body, trail, rfl, -, hback, hstop, htrail, hscans⟩ := cut_back hrest hlast
  replace htrail : Token.scan trail = [] := List.map_eq_nil_iff.1 htrail.eq_moved_scan.symm
  rw [← hts] at hscans
  rw [← byteLength_append] at hstop
  refine ⟨before, c :: body, trail, ?_, ?_, ?_⟩
  · exact ⟨hu, (hscans []).eq_moved_scan, htrail, notSplitsBreak_of_front hc,
      fun hsplit => hback hsplit.1⟩
  · intro t ht
    rw [hts, List.getLast?_concat] at ht
    cases ht
    exact hstop
  · intro post hsize hseparate
    have hend := hwalk _ ((separate_map (later (byteLength (before ++ c :: body)))).2 hseparate)
    rw [hstop, toNat_wordOf (by simp only [byteLength_append] at hsize ⊢; omega)] at hend
    rw [hfirst] at hend
    obtain ⟨hall, hnext⟩ := complete_in_front hbefore (hfirst ▸ hscans post) hstart hsize hend
    rw [← hfirst] at hall
    exact ⟨⟨_, hall⟩, hnext⟩

/-- Where the tokens of a source run out, all of it from the first token on is the unit. -/
theorem cut_of_endsWithSource {u : List Char} (hsize : byteLength u < 4294967296)
    (hends : EndsWithSource (Token.scan u)) :
    ∃ before body, Cut u before body [] ∧
      nextUnitChars u = .complete (String.ofList body) (String.ofList []) := by
  obtain ⟨us, last, hts, ⟨-, hmore⟩, hwalk⟩ := hends
  obtain ⟨first, ts, hfirst⟩ : ∃ first ts, Token.scan u = first :: ts := by
    rw [hts]
    cases us with
    | nil => exact ⟨_, _, rfl⟩
    | cons t us => exact ⟨_, _, rfl⟩
  obtain ⟨before, c, behind, hu, hc, hstart, hrest, -⟩ := cut_front hfirst
  refine ⟨before, c :: behind, ?_, ?_⟩
  · refine ⟨by rw [List.append_nil, hu], ?_, rfl, notSplitsBreak_of_front hc, ?_⟩
    · rw [hfirst]
      exact hrest.eq_moved_scan
    · intro hsplit
      cases hsplit.2
  · have hopen : endsOpen (first :: ts) = false := by
      rw [← hfirst, hts, endsOpen, List.getLast?_concat]
      exact hmore
    have hall : u = before ++ (c :: behind ++ []) := by rw [List.append_nil, hu]
    rw [hfirst] at hwalk
    rw [hall] at hsize hfirst ⊢
    exact nextUnitChars_eq hsize hfirst hstart (.inr ⟨hwalk, hopen, rfl⟩)

/-! ## What is cut out is read alike -/

/-- The unit has the tokens of the source and is read as the same item, at positions that are
some bytes and some lines earlier. -/
def SameReading (source unit : String) : Prop :=
  ∃ bytes lines,
    Token.scan source.toList = (Token.scan unit.toList).map (Token.map (later bytes)) ∧
    ∃ item, Item.parse unit = .ok item ∧
      Item.parse source = .ok (item.map (later bytes) (later lines))

theorem Cut.sameReading {source : String} {before body trail : List Char}
    (h : Cut source.toList before body trail) (hsize : byteLength source.toList < 2147483648)
    (hparse : ∃ item, Item.parse source = .ok item) :
    SameReading source (String.ofList body) := by
  obtain ⟨item, hitem⟩ := hparse
  have hsource := (Item.parse_eq_ok_iff source item).1 hitem
  have hbody : (String.ofList body).toList = body := String.toList_ofList
  have hfits := hsize
  rw [h.eq] at hsize
  have hparts := hsize
  rw [byteLength_append, byteLength_append] at hparts
  -- the tokens of the unit stand inside it, so moving them there and back changes nothing
  have hinside (t : Token) (ht : t ∈ Token.scan body) :
      ∃ start stop, t.span = Span.ofRange start stop ∧ start < byteLength body ∧
        stop ≤ byteLength body := by
    obtain ⟨start, stop, hspan, -, hlt, hstop⟩ :=
      (scan_eq_iff.1 (rfl : Token.scan body = _)).bounds t ht
    exact ⟨start, stop, hspan, by omega, by omega⟩
  have hback : (Token.scan source.toList).map (Token.map (earlier (byteLength before))) =
      Token.scan body := by
    have hsame : ∀ t ∈ Token.scan body, (Token.map (earlier (byteLength before)) ∘
        Token.map (later (byteLength before))) t = id t := by
      intro t ht
      obtain ⟨kind, span⟩ := t
      obtain ⟨start, stop, rfl, hstart, hstop⟩ := hinside _ ht
      simp only [Function.comp_apply, Token.map, Span.map, Span.ofRange, id_eq]
      rw [earlier_later (by omega), earlier_later (by omega)]
    rw [h.tokens, List.map_map, List.map_congr_left hsame, List.map_id]
  have hearlier : LinesAgree (earlier (byteLength before)) (earlier (lineBreaks before).length)
      (lineIn source) (lineIn (String.ofList body)) (Token.scan source.toList) := by
    intro t ht
    rw [h.tokens] at ht
    obtain ⟨u, hu, rfl⟩ := List.mem_map.1 ht
    obtain ⟨start, stop, hspan, hstart, hstop⟩ := hinside u hu
    obtain ⟨-, hline⟩ := lineAt_middle h.front h.back hsize hstart
    rw [← h.eq] at hline
    simp only [lineIn, hbody, Token.map_span, hspan, Span.map, Span.ofRange]
    rw [earlier_later (by omega)]
    exact hline
  have hlater : LinesAgree (later (byteLength before)) (later (lineBreaks before).length)
      (lineIn (String.ofList body)) (lineIn source) (Token.scan body) := by
    intro t ht
    obtain ⟨start, stop, hspan, hstart, hstop⟩ := hinside t ht
    obtain ⟨hline, -⟩ := lineAt_middle h.front h.back hsize hstart
    rw [← h.eq] at hline
    simp only [lineIn, hbody, hspan, Span.ofRange]
    exact hline
  have hunit := hsource.map (keepsOrder_earlier _) hearlier
  rw [hback] at hunit
  have hagain := hunit.map (keepsOrder_later _) hlater
  rw [← h.tokens] at hagain
  refine ⟨byteLength before, (lineBreaks before).length, ?_, ?_⟩
  · rw [hbody]
    exact h.tokens
  · refine ⟨_, (Item.parse_eq_ok_iff _ _).2 ?_, (Item.parse_eq_ok_iff _ _).2 hagain⟩
    rw [hbody]
    exact hunit

/-! ## Sources one behind the other -/

/-- The source ends with the last byte of a `;` or of a closing brace. -/
def EndsUnit (source : String) : Prop :=
  ∃ t, (Token.scan source.toList).getLast? = some t ∧
    t.span.stop.toNat = byteLength source.toList ∧
    (t.kind = .symbol .semicolon ∨ t.kind = .symbol .closeBrace)

/-- Taking complete units off the front of a source, one after the other, gives `units` and
leaves `rest`. -/
inductive Splits : String → List String → String → Prop where
  | done (rest : String) : Splits rest [] rest
  | next {source unit rest final : String} {units : List String}
      (h : nextUnit source = .complete unit rest) (hlater : Splits rest units final) :
      Splits source (unit :: units) final

/-- What an accepted source becomes when it stands in front of another. -/
theorem nextUnit_of_accepted {u : String} (hsize : byteLength u.toList < 2147483648)
    (hparse : ∃ item, Item.parse u = .ok item) :
    ∃ unit rest, nextUnit u = .complete unit rest ∧ SameReading u unit ∧
      Token.scan rest.toList = [] ∧ Separate (Token.scan u.toList) ∧
      (EndsUnit u → ∀ v : String, byteLength (u ++ v).toList < 2147483648 →
        Separate (Token.scan v.toList) →
          nextUnit (u ++ v) = .complete unit v ∧ Separate (Token.scan (u ++ v).toList)) := by
  obtain ⟨item, hitem⟩ := hparse
  have hder := (Item.parse_eq_ok_iff u item).1 hitem
  obtain ⟨first, ts, hfirst, hkind⟩ := head_of_topLevel hder
  have hseparate (more : List Token) : Separate (Token.scan u.toList ++ more) := by
    rw [hfirst]
    intro t ht
    cases ht
    exact hkind
  have hown : Separate (Token.scan u.toList) := by
    have := hseparate []
    rwa [List.append_nil] at this
  rcases ends_of_topLevel hder with hends | hends
  · obtain ⟨before, body, trail, hcut, hstop, hnext⟩ :=
      cut_of_endsClosed hends
    have hall : byteLength (before ++ (body ++ trail)) < 4294967296 := by
      rw [← hcut.eq]
      omega
    obtain ⟨-, hself⟩ := hnext trail hall (by rw [hcut.trail_empty]; simp [Separate])
    rw [← hcut.eq] at hself
    refine ⟨_, _, hself, hcut.sameReading hsize ⟨item, hitem⟩, ?_, hown, ?_⟩
    · rw [String.toList_ofList]
      exact hcut.trail_empty
    · intro hunit v hv hseparate'
      obtain ⟨t, hlast, hbytes, -⟩ := hunit
      have htrail : trail = [] := by
        apply eq_nil_of_byteLength
        have hstop := hstop t hlast
        rw [hstop, toNat_wordOf] at hbytes
        · rw [hcut.eq] at hbytes
          simp only [byteLength_append] at hbytes
          omega
        · simp only [byteLength_append] at hall ⊢
          omega
      subst htrail
      have hwhole : (u ++ v).toList = before ++ (body ++ v.toList) := by
        rw [String.toList_append, hcut.eq]
        simp
      rw [hwhole] at hv
      obtain ⟨⟨more, hmore⟩, hv⟩ := hnext v.toList (by omega) hseparate'
      unfold nextUnit
      rw [hwhole, hv, hmore, String.ofList_toList]
      exact ⟨rfl, hseparate more⟩
  · obtain ⟨before, body, hcut, hself⟩ := cut_of_endsWithSource (by omega) hends
    refine ⟨_, _, hself, hcut.sameReading hsize ⟨item, hitem⟩, rfl, hown, ?_⟩
    intro hunit
    obtain ⟨us, last, hts, ⟨hplain, -⟩, -⟩ := hends
    obtain ⟨t, hlast, -, hcloses⟩ := hunit
    rw [hts, List.getLast?_concat] at hlast
    cases hlast
    exact (hplain hcloses).elim

/-- The induction over the sources: the tokens of what follows a source never start with the `;`
that would be taken into its unit. -/
theorem splits_join_separate (us : List String) (hne : us ≠ [])
    (hsize : byteLength (String.join us).toList < 2147483648)
    (hparse : ∀ u ∈ us, ∃ item, Item.parse u = .ok item) (hends : ∀ u ∈ us.dropLast, EndsUnit u) :
    ∃ units rest, Splits (String.join us) units rest ∧ List.Forall₂ SameReading us units ∧
      Token.scan rest.toList = [] ∧ Separate (Token.scan (String.join us).toList) := by
  induction us with
  | nil => exact (hne rfl).elim
  | cons u us ih =>
    rw [String.join_cons] at hsize ⊢
    have hparts := hsize
    rw [String.toList_append, byteLength_append] at hparts
    obtain ⟨unit, rest, hself, hsame, hrest, hown, hfront⟩ :=
      nextUnit_of_accepted (by omega) (hparse u List.mem_cons_self)
    cases us with
    | nil =>
      rw [String.join_nil, String.append_empty]
      exact ⟨[unit], rest, .next hself (.done rest), .cons hsame .nil, hrest, hown⟩
    | cons v us =>
      have hlast : u ∈ (u :: v :: us).dropLast := List.mem_cons_self
      have hbehind : ∀ w ∈ (v :: us).dropLast, EndsUnit w := by
        intro w hw
        exact hends w (List.mem_cons_of_mem u hw)
      obtain ⟨units, final, hsplits, hunits, hfinal, hseparate⟩ :=
        ih (by simp) (by omega) (fun w hw => hparse w (List.mem_cons_of_mem u hw)) hbehind
      obtain ⟨hnext, hall⟩ := hfront (hends u hlast) _ hsize hseparate
      exact ⟨unit :: units, final, .next hnext hsplits, .cons hsame hunits, hfinal, hall⟩

theorem nextUnit_of_scan_nil {rest : String} (h : Token.scan rest.toList = []) :
    nextUnit rest = .empty := by
  unfold nextUnit nextUnitChars
  rw [h]

/-- Sources that are accepted one by one, written one behind the other, fall into as many units,
each read like the source it comes from; what is left has no tokens. -/
theorem splits_join (us : List String) (hne : us ≠ [])
    (hsize : byteLength (String.join us).toList < 2 ^ 31)
    (hparse : ∀ u ∈ us, ∃ item, Item.parse u = .ok item) (hends : ∀ u ∈ us.dropLast, EndsUnit u) :
    ∃ units rest, Splits (String.join us) units rest ∧ List.Forall₂ SameReading us units ∧
      Token.scan rest.toList = [] ∧ nextUnit rest = .empty := by
  obtain ⟨units, rest, hsplits, hunits, hrest, -⟩ := splits_join_separate us hne hsize hparse hends
  exact ⟨units, rest, hsplits, hunits, hrest, nextUnit_of_scan_nil hrest⟩

/-- Two uses of a variable, the second without a `;`. -/
theorem splits_join_names :
    ∃ units rest, Splits (String.join ["x;", " y"]) units rest ∧
      List.Forall₂ SameReading ["x;", " y"] units ∧ Token.scan rest.toList = [] ∧
      nextUnit rest = .empty := by
  have hfirst : "x;".toList = ['x', ';'] := by simp
  have hsecond : " y".toList = [' ', 'y'] := by simp
  have hx : Token.scan "x;".toList =
      [⟨.identifier "x", ⟨0, 1⟩⟩] ++ [⟨.symbol .semicolon, ⟨1, 2⟩⟩] := by
    rw [hfirst]
    decide
  have hy : Token.scan " y".toList = [⟨.identifier "y", ⟨1, 2⟩⟩] ++ [] := by
    rw [hsecond]
    decide
  have hname (line : UInt32 → UInt32) (name : String) (s : Span) :
      Simple line [⟨.identifier name, s⟩] (.expr (.name name s) (line s.start)) :=
    .expr (.ofProduct (.ofSigned (.ofSuffixed (.ofPrimary (.name name s)))))
  have hxItem : TopLevel (lineIn "x;") (Token.scan "x;".toList)
      (.stmt (.expr (.name "x" ⟨0, 1⟩) (lineIn "x;" 0))) := by
    rw [hx]
    exact .stmt (hname _ "x" _) (.present _)
  have hyItem : TopLevel (lineIn " y") (Token.scan " y".toList)
      (.stmt (.expr (.name "y" ⟨1, 2⟩) (lineIn " y" 1))) := by
    rw [hy]
    exact .stmt (hname _ "y" _) .absent
  refine splits_join ["x;", " y"] (by simp) ?_ ?_ ?_
  · rw [String.toList_join]
    simp only [List.flatMap_cons, List.flatMap_nil, hfirst, hsecond]
    decide
  · intro u hu
    simp only [List.mem_cons, List.not_mem_nil, or_false] at hu
    rcases hu with rfl | rfl
    · exact ⟨_, (Item.parse_eq_ok_iff _ _).2 hxItem⟩
    · exact ⟨_, (Item.parse_eq_ok_iff _ _).2 hyItem⟩
  · intro u hu
    obtain rfl : u = "x;" := by simpa using hu
    refine ⟨⟨.symbol .semicolon, ⟨1, 2⟩⟩, by rw [hx]; rfl, ?_, .inl rfl⟩
    rw [hfirst]
    decide

end ReplEngine.Language
