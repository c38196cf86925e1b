import ReplEngine.Diagnostic
import ReplEngine.Proofs.Lexing.Boundaries
set_option autoImplicit false

/-!
# Showing a span that is a part of its source

A diagnostic is shown for any span, however wrong: the span is held inside the source, and bytes
are counted where characters cannot be.  For a span that is a part of the source neither happens
(`strictRender?_of_isPart`).  Such a span does not start inside a CR LF, so the line around its
start begins in front of it.
-/

namespace ReplEngine

open Text

/-! ## The line around an offset -/

namespace Text

theorem boundsAmong_append {offset size start : Nat} {bs cs : List LineBreak}
    (h : ∀ b ∈ bs, b.start < offset) :
    boundsAmong offset size start (bs ++ cs) =
      boundsAmong offset size ((bs.getLast?.map LineBreak.stop).getD start) cs := by
  induction bs generalizing start with
  | nil => rfl
  | cons b bs ih =>
    obtain ⟨hfirst, hlater⟩ := List.forall_mem_cons.mp h
    rw [List.cons_append, boundsAmong, if_neg (Nat.not_le.mpr hfirst), ih hlater,
      List.getLast?_cons]
    cases bs.getLast? <;> rfl

theorem boundsAmong_of_le {offset size start : Nat} {bs : List LineBreak}
    (h : ∀ b ∈ bs, offset ≤ b.start) :
    boundsAmong offset size start bs = ⟨start, (bs.head?.map LineBreak.start).getD size⟩ := by
  cases bs with
  | nil => rfl
  | cons b bs =>
    rw [boundsAmong, if_pos (h b List.mem_cons_self)]
    rfl

/-- The line around a cut starts behind the last break in front of it, and stops at the first
break behind it. -/
theorem lineBounds_append {before after : List Char} (h : ¬ SplitsBreak before after) :
    lineBounds (before ++ after) (byteLength before) =
      ⟨((lineBreaks before).getLast?.map LineBreak.stop).getD 0,
        ((lineBreaksFrom (byteLength before) after).head?.map LineBreak.start).getD
          (byteLength (before ++ after))⟩ := by
  have hsize : min (byteLength before) (byteLength (before ++ after)) = byteLength before := by
    rw [byteLength_append]
    omega
  have hfront : ∀ b ∈ lineBreaksFrom 0 before, b.start < byteLength before := by
    intro b hb
    obtain ⟨front, text, back, rfl, hne, hstart, -⟩ := exists_of_mem_lineBreaksFrom hb
    obtain ⟨c, cs, rfl⟩ := List.exists_cons_of_ne_nil hne
    have hpos := c.utf8Size_pos
    simp only [byteLength_append, byteLength_cons]
    omega
  have hbehind : ∀ b ∈ lineBreaksFrom (byteLength before) after, byteLength before ≤ b.start := by
    intro b hb
    obtain ⟨front, text, back, -, -, hstart, -⟩ := exists_of_mem_lineBreaksFrom hb
    omega
  unfold lineBounds lineBreaks
  dsimp only
  rw [hsize, lineBreaksFrom_append h, Nat.zero_add, boundsAmong_append hfront,
    boundsAmong_of_le hbehind]

theorem exists_lineStart (before : List Char) :
    ∃ above front, before = above ++ front ∧
      ((lineBreaks before).getLast?.map LineBreak.stop).getD 0 = byteLength above := by
  cases hlast : (lineBreaks before).getLast? with
  | none => exact ⟨[], before, rfl, rfl⟩
  | some b =>
    obtain ⟨front, text, back, rfl, -, -, hstop⟩ :=
      exists_of_mem_lineBreaksFrom (List.mem_of_getLast? hlast)
    refine ⟨front ++ text, back, (List.append_assoc ..).symm, ?_⟩
    rw [Option.map_some, Option.getD_some, hstop, Nat.zero_add]

theorem exists_lineStop (before after : List Char) :
    ∃ behind below, after = behind ++ below ∧
      ((lineBreaksFrom (byteLength before) after).head?.map LineBreak.start).getD
        (byteLength (before ++ after)) = byteLength (before ++ behind) := by
  cases hhead : (lineBreaksFrom (byteLength before) after).head? with
  | none => exact ⟨after, [], (List.append_nil after).symm, rfl⟩
  | some b =>
    obtain ⟨front, text, back, rfl, -, hstart, -⟩ :=
      exists_of_mem_lineBreaksFrom (List.mem_of_mem_head? hhead)
    refine ⟨front, text ++ back, rfl, ?_⟩
    rw [Option.map_some, Option.getD_some, hstart, byteLength_append]

/-! ## Columns -/

/-- The number of characters between two offsets, where both are boundaries in this order. -/
def charWidth? (source : List Char) (start stop : Nat) : Option Nat :=
  (slice? start stop source).map List.length

/-- What stands between two boundaries is cut out, and its width is counted in characters. -/
theorem slice?_and_charWidth {source s t u : List Char} {start stop : Nat}
    (hsource : source = s ++ (t ++ u)) (hstart : byteLength s = start)
    (hstop : byteLength (s ++ t) = stop) :
    slice? start stop source = some t ∧ charWidth source start stop = t.length := by
  subst hsource hstart hstop
  have hslice := slice?_middle s t u
  refine ⟨hslice, ?_⟩
  unfold charWidth
  split
  · rename_i hle
    rw [byteLength_append] at hle
    rw [eq_nil_of_byteLength (show byteLength t = 0 by omega)]
    rfl
  · rw [hslice]

end Text

/-! ## Rendering -/

namespace Diag

/-- The lines that show a diagnostic whose span is inside the source, with every column counted
in characters; nothing where that cannot be done. -/
def strictRender? (source : List Char) (d : Diag) : Option (List (List Char)) := do
  guard (d.span.start ≤ d.span.stop ∧ d.span.stop.toNat ≤ byteLength source)
  let line := lineBounds source d.span.start.toNat
  let text ← slice? line.start line.stop source
  let column ← charWidth? source line.start d.span.start.toNat
  let marker ←
    if line.stop < d.span.stop.toNat then
      (charWidth? source line.start line.stop).map (openMarker column)
    else (charWidth? source line.start d.span.stop.toNat).map (closedMarker column)
  return shownLines d.message.toList ++ [text, marker]

/-- A span that is a part of the source is shown as it stands. -/
theorem strictRender?_of_isPart {source : List Char} {d : Diag} (h : d.span.IsPart source) :
    d.strictRender? source = some (d.renderChars source) := by
  obtain ⟨hle, hsize, hstart, hstop⟩ := h
  have horder := UInt32.le_iff_toNat_le.mp hle
  obtain ⟨before, after, hsource, hbefore, hcut⟩ := hstart
  obtain ⟨before', after', hsource', hbefore', -⟩ := hstop
  obtain ⟨covered, rfl, rfl⟩ := exists_between (hsource.symm.trans hsource') (by omega)
  have hline := lineBounds_append hcut
  obtain ⟨above, front, rfl, habove⟩ := exists_lineStart before
  obtain ⟨behind, below, hbehind, hbelow⟩ := exists_lineStop (above ++ front) (covered ++ after')
  rw [habove, hbelow, ← hsource, hbefore] at hline
  have hfront : source = above ++ (front ++ (covered ++ after')) := by
    rw [hsource, List.append_assoc]
  have hcovered : source = above ++ ((front ++ covered) ++ after') := by
    rw [hfront, List.append_assoc front]
  have hshown : source = above ++ ((front ++ behind) ++ below) := by
    rw [hfront, hbehind, List.append_assoc front]
  obtain ⟨hcolumn?, hcolumn⟩ := slice?_and_charWidth hfront rfl hbefore
  obtain ⟨hmarked?, hmarked⟩ := slice?_and_charWidth hcovered rfl
    (by rw [← List.append_assoc, hbefore'])
  obtain ⟨hshown?, hwidth⟩ := slice?_and_charWidth hshown rfl (by rw [← List.append_assoc])
  have hheld : min d.span.start.toNat (byteLength source) = d.span.start.toNat := by omega
  have hheld' : min (max d.span.stop.toNat d.span.start.toNat) (byteLength source) =
      d.span.stop.toNat := by omega
  have hpart : (guard (d.span.start ≤ d.span.stop ∧ d.span.stop.toNat ≤ byteLength source) :
      Option Unit) = some () := if_pos ⟨hle, hsize⟩
  unfold strictRender? renderChars marker charWidth? LineBounds.text slice
  rw [hpart]
  simp only [hheld, hheld', hline, hcolumn?, hcolumn, hmarked?, hmarked, hshown?, hwidth]
  split <;> simp

end Diag

end ReplEngine
