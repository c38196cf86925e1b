import ReplEngine.Proofs.Lexing.LineLookup
set_option autoImplicit false

/-!
# What a diagnostic is shown as

The lines of the message, the line of the source on which the span starts, and a marker under that
line.  `Marks` says what the marker of a span is in terms of texts, without offsets and columns: a
blank for every character of the line in front of the span, a caret, and what the characters of the
span ask for.  A span that can be cut out of the source has that marker (`marks_of_isBoundary`).
Any other span is shown by as many lines, and no line of a diagnostic is broken, so that a report
has one line for each (`shown_and_marked`).
-/

namespace ReplEngine

open Text

/-! ## Lines of a source -/

namespace Text

/-- A line and the texts above and below it: there is no break in the line, one ends what is above
and one starts what is below, and the first is not cut in two. -/
structure IsLine (above line below : List Char) : Prop where
  unbroken : ∀ c ∈ line, isBreak c = false
  above_ends : ∀ c, above.getLast? = some c → isBreak c = true
  below_starts : ∀ c, below.head? = some c → isBreak c = true
  uncut : ¬ SplitsBreak above (line ++ below)

/-- The first line of a text. -/
theorem IsLine.first {line below : List Char} (hline : ∀ c ∈ line, isBreak c = false)
    (hbelow : ∀ c, below.head? = some c → isBreak c = true) : IsLine [] line below :=
  ⟨hline, nofun, hbelow, fun h => nomatch h.1⟩

/-- In a text that starts at `offset`, a line runs from `start` to `stop`. -/
def HasLine (offset : Nat) (cs : List Char) (start stop : Nat) : Prop :=
  ∃ above line below, cs = above ++ (line ++ below) ∧ IsLine above line below ∧
    start = offset + byteLength above ∧ stop = offset + byteLength (above ++ line)

theorem HasLine.le {offset start stop : Nat} {cs : List Char} (h : HasLine offset cs start stop) :
    offset ≤ start := by
  obtain ⟨above, -, -, -, -, rfl, -⟩ := h
  exact Nat.le_add_right ..

/-- A text without characters is one line. -/
theorem HasLine.nil (offset : Nat) : HasLine offset [] offset (offset + byteLength []) :=
  ⟨[], [], [], rfl, .first nofun nofun, rfl, rfl⟩

/-- The first line of a text that starts with a break has nothing in it. -/
theorem HasLine.empty {c : Char} (offset : Nat) (cs : List Char) (hc : isBreak c = true) :
    HasLine offset (c :: cs) offset offset :=
  ⟨[], [], c :: cs, rfl, .first nofun fun _ hd => Option.some.inj hd ▸ hc, rfl, rfl⟩

/-- A character that is no break makes the first line longer. -/
theorem HasLine.longer {c : Char} {offset stop : Nat} {cs : List Char}
    (h : HasLine (offset + c.utf8Size) cs (offset + c.utf8Size) stop) (hc : isBreak c = false) :
    HasLine offset (c :: cs) offset stop := by
  obtain ⟨above, line, below, rfl, hline, hstart, rfl⟩ := h
  obtain rfl : above = [] := eq_nil_of_byteLength (by omega)
  refine ⟨[], c :: line, below, rfl, .first ?_ hline.below_starts, rfl, ?_⟩
  · exact List.forall_mem_cons.mpr ⟨hc, hline.unbroken⟩
  · rw [List.nil_append, List.nil_append, byteLength_cons, Nat.add_assoc]

/-- A line stays one behind one more character, which has to end a break if it is right in front of
the line. -/
theorem HasLine.cons {c : Char} {offset start stop : Nat} {cs : List Char}
    (h : HasLine (offset + c.utf8Size) cs start stop)
    (hc : start = offset + c.utf8Size → isBreak c = true ∧ ¬ SplitsBreak [c] cs) :
    HasLine offset (c :: cs) start stop := by
  obtain ⟨above, line, below, rfl, hline, rfl, rfl⟩ := h
  refine ⟨c :: above, line, below, rfl, ?_, ?_, ?_⟩
  · cases above with
    | nil =>
      obtain ⟨hbreak, huncut⟩ := hc rfl
      exact ⟨hline.unbroken, fun d hd => Option.some.inj hd ▸ hbreak, hline.below_starts, huncut⟩
    | cons d above =>
      exact ⟨hline.unbroken, hline.above_ends, hline.below_starts, hline.uncut⟩
  · rw [byteLength_cons, Nat.add_assoc]
  · rw [List.cons_append, byteLength_cons, Nat.add_assoc]

theorem stop_getLast?_cons (b : LineBreak) (bs : List LineBreak) (offset : Nat) :
    ((b :: bs).getLast?.map LineBreak.stop).getD offset =
      (bs.getLast?.map LineBreak.stop).getD b.stop := by
  rw [List.getLast?_cons]
  cases bs.getLast? <;> rfl

/-- The text between two neighbouring breaks is a line. -/
theorem hasLine_of_breaks {offset : Nat} {cs : List Char} {passed later : List LineBreak}
    (h : lineBreaksFrom offset cs = passed ++ later) :
    HasLine offset cs ((passed.getLast?.map LineBreak.stop).getD offset)
      ((later.head?.map LineBreak.start).getD (offset + byteLength cs)) := by
  induction offset, cs using lineBreaksFrom.induct generalizing passed with
  | case1 offset =>
    obtain ⟨rfl, rfl⟩ := List.append_eq_nil_iff.mp h.symm
    exact .nil offset
  | case2 offset cs ih =>
    rw [lineBreaksFrom.eq_2] at h
    cases passed with
    | nil =>
      obtain rfl := h
      exact .empty offset _ rfl
    | cons b passed =>
      obtain ⟨rfl, hlater⟩ := List.cons.inj h
      have hline := ih hlater
      rw [stop_getLast?_cons, byteLength_cons, byteLength_cons, utf8Size_break (.inl rfl),
        utf8Size_break (.inr rfl), ← Nat.add_assoc, ← Nat.add_assoc]
      have huncut : ¬ SplitsBreak ['\n'] cs := by
        rintro ⟨hcr, -⟩
        cases hcr
      refine .cons (.cons hline fun _ => ⟨rfl, huncut⟩) fun hfront => ?_
      -- the line starts behind the LF
      have hle := hline.le
      rw [utf8Size_break (.inl rfl)] at hfront
      dsimp only at hfront
      omega
  | case3 offset c cs hne hbreak ih =>
    rw [lineBreaksFrom.eq_3 _ _ _ hne, if_pos hbreak] at h
    have hc : isBreak c = true := by simpa [isBreak] using hbreak
    cases passed with
    | nil =>
      obtain rfl := h
      exact .empty offset _ hc
    | cons b passed =>
      obtain ⟨rfl, hlater⟩ := List.cons.inj h
      rw [stop_getLast?_cons, byteLength_cons, ← Nat.add_assoc]
      refine .cons ?_ fun _ => ⟨hc, ?_⟩
      · rw [utf8Size_break hbreak]
        exact ih hlater
      · rintro ⟨hcr, hlf⟩
        obtain ⟨ds, hds⟩ := List.head?_eq_some_iff.mp hlf
        exact hne ds (Option.some.inj hcr) hds
  | case4 offset c cs hne hbreak ih =>
    rw [lineBreaksFrom.eq_3 _ _ _ hne, if_neg hbreak] at h
    have hc : isBreak c = false := by simpa [isBreak] using hbreak
    have hline := ih h
    rw [byteLength_cons, ← Nat.add_assoc]
    cases hlast : passed.getLast? with
    | none =>
      rw [hlast] at hline
      exact hline.longer hc
    | some b =>
      rw [hlast] at hline
      have hmem : b ∈ lineBreaksFrom (offset + c.utf8Size) cs := by
        rw [h]
        exact List.mem_append_left _ (List.mem_of_getLast? hlast)
      refine hline.cons fun hfront => ?_
      -- a break has ended behind the character
      have hpassed := (lineBreaksFrom_bounds _ _ b hmem).1
      rw [Option.map_some, Option.getD_some] at hfront
      omega

/-- The line around an offset.  It holds the offset, unless that is inside a break. -/
theorem exists_lineBounds (source : List Char) (offset : Nat) :
    ∃ above line below, source = above ++ (line ++ below) ∧ IsLine above line below ∧
      lineBounds source offset = ⟨byteLength above, byteLength (above ++ line)⟩ ∧
      (¬ InsideBreak source (min offset (byteLength source)) →
        byteLength above ≤ min offset (byteLength source)) ∧
      min offset (byteLength source) ≤ byteLength (above ++ line) := by
  obtain ⟨passed, later, hbreaks, hpassed, hlater⟩ :=
    exists_passed source (min offset (byteLength source))
  obtain ⟨above, line, below, hsource, hline, hstart, hstop⟩ := hasLine_of_breaks hbreaks
  rw [Nat.zero_add] at hstart hstop
  rw [Nat.zero_add] at hstop
  have hbounds : lineBounds source offset = ⟨byteLength above, byteLength (above ++ line)⟩ := by
    rw [lineBounds_eq hbreaks hpassed hlater, numberedLine_append hbreaks, hstart, hstop]
  refine ⟨above, line, below, hsource, hline, hbounds, fun h => ?_, ?_⟩
  · have hstarts := (lineBounds_outside h).2
    rw [← (lineBounds_outside h).1, hbounds] at hstarts
    exact hstarts
  · rw [← hstop]
    cases hhead : later.head? with
    | none => exact Nat.min_le_right ..
    | some b => exact hlater b (List.mem_of_mem_head? hhead)

/-! ## Lines of a message -/

/-- A text is made of lines.  Every line but the last ends with LF or CR LF, and a CR in front of an
LF belongs to the end of the line; the last one has characters in it and runs to the end. -/
inductive Lines : List Char → List (List Char) → Prop
  | nil : Lines [] []
  | last {line : List Char} (hne : line ≠ []) (hlf : '\n' ∉ line) : Lines line [line]
  | lf {line rest : List Char} {lines : List (List Char)} (hlf : '\n' ∉ line)
      (hcr : line.getLast? ≠ some '\r') (h : Lines rest lines) :
      Lines (line ++ '\n' :: rest) (line :: lines)
  | crLf {line rest : List Char} {lines : List (List Char)} (hlf : '\n' ∉ line)
      (h : Lines rest lines) : Lines (line ++ '\r' :: '\n' :: rest) (line :: lines)

theorem Lines.cons {c : Char} {cs : List Char} {lines : List (List Char)} (h : Lines cs lines)
    (hlf : c ≠ '\n') (hcr : ∀ rest, c = '\r' → cs = '\n' :: rest → False) :
    Lines (c :: cs) (consFirst c lines) := by
  have hfree {line : List Char} (h : '\n' ∉ line) : '\n' ∉ c :: line := by
    simp only [List.mem_cons, not_or]
    exact ⟨Ne.symm hlf, h⟩
  cases h with
  | nil => exact .last (List.cons_ne_nil _ _) (hfree nofun)
  | last hne hline => exact .last (List.cons_ne_nil _ _) (hfree hline)
  | @lf line rest lines hline hlast h =>
    refine @Lines.lf (c :: line) rest lines (hfree hline) ?_ h
    cases line with
    | nil =>
      intro hc
      exact hcr rest (Option.some.inj hc) rfl
    | cons d line => exact hlast
  | crLf hline h => exact @Lines.crLf (c :: _) _ _ (hfree hline) h

theorem lines_textLines (cs : List Char) : Lines cs (textLines cs) := by
  induction cs using textLines.induct with
  | case1 => exact .nil
  | case2 cs ih =>
    rw [textLines.eq_2]
    exact @Lines.crLf [] cs _ nofun ih
  | case3 cs hne ih =>
    rw [textLines.eq_3 _ _ hne, if_pos rfl]
    exact @Lines.lf [] cs _ nofun nofun ih
  | case4 c cs hne hc ih =>
    rw [textLines.eq_3 _ _ hne, if_neg hc]
    exact ih.cons hc hne

theorem Lines.unbroken {cs : List Char} {lines : List (List Char)} (h : Lines cs lines) :
    ∀ line ∈ lines, '\n' ∉ line := by
  induction h with
  | nil => exact nofun
  | last hne hlf => exact List.forall_mem_cons.mpr ⟨hlf, nofun⟩
  | lf hlf hcr h ih => exact List.forall_mem_cons.mpr ⟨hlf, ih⟩
  | crLf hlf h ih => exact List.forall_mem_cons.mpr ⟨hlf, ih⟩

end Text

namespace Diag

/-- Behind its blanks the line starts with `location:`. -/
def NamesLocation (line : List Char) : Prop :=
  ∃ blanks rest, line = blanks ++ ("location:".toList ++ rest) ∧ ∀ c ∈ blanks, isBlank c = true

theorem isNoise_iff (line : List Char) : isNoise line = true ↔ NamesLocation line := by
  unfold isNoise trimStart
  rw [List.isPrefixOf_iff_prefix]
  constructor
  · rintro ⟨rest, hrest⟩
    refine ⟨line.takeWhile isBlank, rest, ?_, fun c hc => ?_⟩
    · rw [hrest, List.takeWhile_append_dropWhile]
    · exact List.all_eq_true.mp List.all_takeWhile c hc
  · rintro ⟨blanks, rest, rfl, hblanks⟩
    refine ⟨rest, ?_⟩
    rw [List.dropWhile_append_of_pos hblanks]
    rfl

instance : DecidablePred NamesLocation := fun line => decidable_of_iff _ (isNoise_iff line)

/-- The lines of the message that are shown: those with characters in them that do not name a
location. -/
theorem shownLines_eq {message : List Char} :
    shownLines message =
      (textLines message).filter fun line => line ≠ [] ∧ ¬ NamesLocation line := by
  unfold shownLines
  refine List.filter_congr fun line _ => ?_
  simp only [Bool.decide_and, decide_not, ← isNoise_iff]
  cases line <;> simp

/-! ## Markers -/

/-- The marker of a span under the line of its start.  The line is what stands in front of the span
and what stands behind its start; the span covers characters of the line only, or runs past it. -/
inductive Marks (source : List Char) (span : Span) : List Char → List Char → Prop
  /-- A span without characters has a caret. -/
  | lone {above front back below : List Char}
      (hsource : source = above ++ ((front ++ back) ++ below))
      (hline : IsLine above (front ++ back) below)
      (hstart : byteLength (above ++ front) = span.start.toNat) (hstop : span.stop = span.start) :
      Marks source span (front ++ back) (List.replicate front.length ' ' ++ ['^'])
  /-- Any other span has a second caret behind its last character, and dashes between the two. -/
  | closed {above front covered back below : List Char}
      (hsource : source = above ++ ((front ++ (covered ++ back)) ++ below))
      (hline : IsLine above (front ++ (covered ++ back)) below)
      (hstart : byteLength (above ++ front) = span.start.toNat)
      (hstop : byteLength (above ++ (front ++ covered)) = span.stop.toNat) (hne : covered ≠ []) :
      Marks source span (front ++ (covered ++ back))
        (List.replicate front.length ' ' ++
          '^' :: (List.replicate (covered.length - 1) '-' ++ ['^']))
  /-- A span that runs past the line has dashes up to the end of the line, and a sign that it goes
  on. -/
  | running {above front back below : List Char}
      (hsource : source = above ++ ((front ++ back) ++ below))
      (hline : IsLine above (front ++ back) below)
      (hstart : byteLength (above ++ front) = span.start.toNat)
      (hstop : byteLength (above ++ (front ++ back)) < span.stop.toNat) :
      Marks source span (front ++ back)
        (List.replicate front.length ' ' ++
          '^' :: (List.replicate (back.length - 1) '-' ++ "-...".toList))

end Diag

/-- The offset is at an end of the source or between two of its characters. -/
def Text.IsBoundary (source : List Char) (offset : Nat) : Prop :=
  ∃ before after, source = before ++ after ∧ byteLength before = offset

theorem Text.IsBoundary.le {source : List Char} {offset : Nat} (h : IsBoundary source offset) :
    offset ≤ byteLength source := by
  obtain ⟨before, after, rfl, rfl⟩ := h
  rw [byteLength_append]
  exact Nat.le_add_right _ _

namespace Diag

/-- A span that covers no character has the opening caret only. -/
theorem closedMarker_self (column : Nat) :
    closedMarker column column = List.replicate column ' ' ++ ['^'] := by
  unfold closedMarker
  rw [if_neg (Nat.lt_irrefl column)]

theorem closedMarker_append (front : List Char) {covered : List Char} (hne : covered ≠ []) :
    closedMarker front.length (front ++ covered).length =
      List.replicate front.length ' ' ++
        '^' :: (List.replicate (covered.length - 1) '-' ++ ['^']) := by
  have hpos := List.length_pos_iff.mpr hne
  unfold closedMarker
  rw [List.length_append, if_pos (by omega), Nat.add_sub_cancel_left]

theorem openMarker_append (front back : List Char) :
    openMarker front.length (front ++ back).length =
      List.replicate front.length ' ' ++
        '^' :: (List.replicate (back.length - 1) '-' ++ "-...".toList) := by
  unfold openMarker
  rw [List.length_append, Nat.add_sub_add_left]
  rfl

/-- A span that can be cut out of the source, and does not start inside a CR LF, has the marker of
the characters it covers. -/
theorem marks_of_isBoundary {source : List Char} {d : Diag} (hle : d.span.start ≤ d.span.stop)
    (hstart : IsBoundary source d.span.start.toNat) (hstop : IsBoundary source d.span.stop.toNat)
    (hwhole : ¬ InsideBreak source d.span.start.toNat) :
    ∃ line mark, Marks source d.span line mark ∧
      d.renderChars source = shownLines d.message.toList ++ [line, mark] := by
  have horder := UInt32.le_iff_toNat_le.mp hle
  have hsize := hstop.le
  have hheld : min d.span.start.toNat (byteLength source) = d.span.start.toNat := by omega
  have hheld' : min (max d.span.stop.toNat d.span.start.toNat) (byteLength source) =
      d.span.stop.toNat := by omega
  obtain ⟨above, line, below, hsource, hline, hbounds, hfront, hback⟩ :=
    exists_lineBounds source d.span.start.toNat
  rw [hheld] at hfront hback
  -- the start of the span cuts the line in two
  obtain ⟨before, after, hcut, hbefore⟩ := hstart
  obtain ⟨front, rfl, hafter⟩ :=
    exists_between (hsource.symm.trans hcut) (by have := hfront hwhole; omega)
  obtain ⟨back, rfl, rfl⟩ := exists_between hafter.symm (by
    simp only [byteLength_append] at hbefore hback
    omega)
  have hcolumn := (slice?_and_charWidth (hcut.trans (List.append_assoc ..)) rfl hbefore).2
  obtain ⟨hshown, hwidth⟩ := slice?_and_charWidth hsource rfl rfl
  have hrender : d.renderChars source = shownLines d.message.toList ++ [front ++ back,
      if byteLength (above ++ (front ++ back)) < d.span.stop.toNat then
        openMarker front.length (front ++ back).length
      else closedMarker front.length (charWidth source (byteLength above) d.span.stop.toNat)] := by
    unfold renderChars marker LineBounds.text slice
    simp only [hheld, hheld', hbounds, hcolumn, hshown, hwidth, Option.getD_some]
  rw [hrender]
  refine ⟨front ++ back, _, ?_, rfl⟩
  split
  · rename_i hruns
    rw [openMarker_append]
    exact .running hsource hline hbefore hruns
  · rename_i hends
    obtain ⟨before', after', hcut', hbefore'⟩ := hstop
    obtain ⟨covered, rfl, hafter'⟩ := exists_between (hcut.symm.trans hcut') (by omega)
    obtain ⟨behind, rfl, -⟩ := exists_between hafter'.symm (by
      simp only [byteLength_append] at hbefore hbefore' hends
      omega)
    have hcovered : source = above ++ ((front ++ covered) ++ after') := by
      rw [hcut', List.append_assoc, List.append_assoc, List.append_assoc]
    rw [List.append_assoc] at hbefore'
    rw [(slice?_and_charWidth hcovered rfl hbefore').2]
    by_cases hne : covered = []
    · subst hne
      rw [List.append_nil] at hbefore' ⊢
      rw [closedMarker_self]
      exact .lone hsource hline hbefore (UInt32.toNat.inj (hbefore'.symm.trans hbefore))
    · rw [closedMarker_append front hne]
      exact .closed hsource hline hbefore hbefore' hne

/-! ## Reports -/

/-- However wrong the span, a diagnostic is shown by the lines of its message and two more, a line
of the source and a marker. -/
theorem renderChars_parts (source : List Char) (d : Diag) :
    ∃ line column tail, d.renderChars source =
        shownLines d.message.toList ++ [line, List.replicate column ' ' ++ '^' :: tail] ∧
      (∀ c ∈ line, isBreak c = false) ∧ ∀ c ∈ tail, c ∈ ['-', '^', '.'] := by
  obtain ⟨above, line, below, hsource, hline, hbounds, -, -⟩ :=
    exists_lineBounds source (min d.span.start.toNat (byteLength source))
  obtain ⟨hshown, -⟩ := slice?_and_charWidth hsource rfl rfl
  have hdashes (n : Nat) : ∀ c ∈ List.replicate n '-', c ∈ ['-', '^', '.'] := fun c hc => by
    rw [List.eq_of_mem_replicate hc]
    exact List.mem_cons_self
  have hruns : ∀ c ∈ continuation, c ∈ ['-', '^', '.'] := by simp [continuation]
  have hends : ∀ c ∈ ['^'], c ∈ ['-', '^', '.'] := by simp
  unfold renderChars marker LineBounds.text slice
  simp only [hbounds, hshown, Option.getD_some]
  split
  · refine ⟨line, _, _, rfl, hline.unbroken, fun c hc => ?_⟩
    exact (List.mem_append.mp hc).elim (hdashes _ c) (hruns c)
  · refine ⟨line, _, _, rfl, hline.unbroken, fun c hc => ?_⟩
    split at hc
    · exact (List.mem_append.mp hc).elim (hdashes _ c) (hends c)
    · cases hc

/-- No line that is shown is broken by an LF. -/
theorem lf_notMem_of_mem_renderChars {source : List Char} {d : Diag} :
    ∀ line ∈ d.renderChars source, '\n' ∉ line := by
  obtain ⟨line, column, tail, hrender, hline, htail⟩ := renderChars_parts source d
  rw [hrender]
  intro shown hshown
  rcases List.mem_append.mp hshown with hmessage | hrest
  · exact (lines_textLines d.message.toList).unbroken shown (List.mem_filter.mp hmessage).1
  · rcases List.mem_cons.mp hrest with rfl | hmark
    · intro hlf
      cases hline _ hlf
    · rw [List.mem_singleton.mp hmark]
      simp only [List.mem_append, List.mem_cons, not_or]
      refine ⟨fun hlf => ?_, by decide, fun hlf => ?_⟩
      · cases List.eq_of_mem_replicate hlf
      · have := htail _ hlf
        revert this
        decide

theorem map_toList_render (source : String) (d : Diag) :
    (d.render source).map String.toList = d.renderChars source.toList := by
  simp [render]

/-- The lines of a report are the heading and, behind the bar, the lines of its diagnostics. -/
theorem splitOn_report (source : String) (ds : List Diag) :
    (report source ds).toList.splitOn '\n' =
      "|  Error:".toList ::
        (ds.flatMap (render source)).map fun line => "|  ".toList ++ line.toList := by
  have htext : (report source ds).toList = ['\n'].intercalate ("|  Error:".toList ::
      (ds.flatMap (render source)).map fun line => "|  ".toList ++ line.toList) := by
    unfold report
    rw [String.toList_intercalate, List.map_cons, List.map_map]
    congr 2
    exact List.map_congr_left fun line _ => String.toList_append
  rw [htext]
  refine List.splitOn_intercalate _ ?_ (List.cons_ne_nil _ _)
  refine List.forall_mem_cons.mpr ⟨by decide, fun barred hbarred => ?_⟩
  obtain ⟨line, hline, rfl⟩ := List.mem_map.mp hbarred
  obtain ⟨d, -, hd⟩ := List.mem_flatMap.mp hline
  have hchars : line.toList ∈ d.renderChars source.toList := by
    rw [← map_toList_render]
    exact List.mem_map_of_mem hd
  simp only [List.mem_append, not_or]
  exact ⟨by decide, lf_notMem_of_mem_renderChars _ hchars⟩

/-- **A diagnostic is marked where it points.**  It is shown as the lines of its message that have
characters in them and name no location, in order, and two more lines.  For every span that can be
cut out of the source and does not start inside a CR LF, these are the line on which the span starts
and the marker of the characters that the span covers; for every other span they are a line without
a break and some marker.  The report on any diagnostics has the heading and, behind the bar, one
line for each of theirs. -/
theorem shown_and_marked (source : String) :
    (∀ d : Diag, ∃ lines, Lines d.message.toList lines ∧
      let shown := lines.filter fun line => line ≠ [] ∧ ¬ NamesLocation line
      (d.span.start ≤ d.span.stop → IsBoundary source.toList d.span.start.toNat →
        IsBoundary source.toList d.span.stop.toNat →
        ¬ InsideBreak source.toList d.span.start.toNat →
        ∃ line mark, Marks source.toList d.span line mark ∧
          (d.render source).map String.toList = shown ++ [line, mark]) ∧
      ∃ line column tail, (∀ c ∈ line, isBreak c = false) ∧ (∀ c ∈ tail, c ∈ ['-', '^', '.']) ∧
        (d.render source).map String.toList =
          shown ++ [line, List.replicate column ' ' ++ '^' :: tail]) ∧
    ∀ ds, (report source ds).toList.splitOn '\n' = "|  Error:".toList ::
      (ds.flatMap (render source)).map fun line => "|  ".toList ++ line.toList := by
  refine ⟨fun d => ⟨textLines d.message.toList, lines_textLines _, ?_⟩, splitOn_report source⟩
  dsimp only
  rw [← shownLines_eq, map_toList_render]
  refine ⟨marks_of_isBoundary, ?_⟩
  obtain ⟨line, column, tail, hrender, hline, htail⟩ := renderChars_parts source.toList d
  exact ⟨line, column, tail, hline, htail, hrender⟩

/-- A difference on the second line, in which one character takes two bytes; of the message the
first line is shown only. -/
theorem shown_and_marked_second_line :
    let source := "int x;\r\n  \"é\" - 1;\n"
    let d : Diag := ⟨"bad operands\r\n\n  location: class $1", ⟨10, 18⟩⟩
    d.span.start ≤ d.span.stop ∧ IsBoundary source.toList d.span.start.toNat ∧
      IsBoundary source.toList d.span.stop.toNat ∧
      ¬ InsideBreak source.toList d.span.start.toNat ∧
      d.render source = ["bad operands", "  \"é\" - 1;", "  ^------^"] ∧
      Marks source.toList d.span "  \"é\" - 1;".toList "  ^------^".toList := by
  intro source d
  have hle : d.span.start ≤ d.span.stop := by decide
  have hstart : IsBoundary source.toList d.span.start.toNat :=
    ⟨source.toList.take 10, source.toList.drop 10, by decide, by decide⟩
  have hstop : IsBoundary source.toList d.span.stop.toNat :=
    ⟨source.toList.take 17, source.toList.drop 17, by decide, by decide⟩
  have hwhole : ¬ InsideBreak source.toList d.span.start.toNat := by
    rw [insideBreak_iff]
    decide
  have hrender : d.render source = ["bad operands", "  \"é\" - 1;", "  ^------^"] := by decide
  obtain ⟨lines, -, hmarked, -⟩ := (shown_and_marked source).1 d
  obtain ⟨line, mark, hmarks, hlines⟩ := hmarked hle hstart hstop hwhole
  rw [hrender] at hlines
  have hparts : ["bad operands".toList] ++ ["  \"é\" - 1;".toList, "  ^------^".toList] =
      _ ++ [line, mark] := hlines
  obtain ⟨-, hlast⟩ := List.append_inj' hparts rfl
  obtain ⟨rfl, hmark⟩ := List.cons.inj hlast
  obtain ⟨rfl, -⟩ := List.cons.inj hmark
  exact ⟨hle, hstart, hstop, hwhole, hrender, hmarks⟩

end Diag

end ReplEngine
