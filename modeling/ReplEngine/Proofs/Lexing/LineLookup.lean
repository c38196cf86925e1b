import ReplEngine.Proofs.Lexing.Rendering
set_option autoImplicit false

/-!
# The line of an offset, looked up in two ways

The bounds of a line are found by walking the breaks until one starts behind the offset; its number
is found among the starts of the lines, that is among the ends of the breaks.  The two agree at
every offset that is not inside a break (`line_of_offset`): a break has started in front of such an
offset exactly if it has ended by then.  Inside a CR LF the walk is one line ahead
(`lineBounds_ahead`).

Numbers are words, so the last line has one only if there are fewer than 2^32 lines.
-/

namespace ReplEngine.Text

/-! ## Breaks in order -/

theorem lineBreaksFrom_start_lt_stop {offset : Nat} {cs : List Char} {b : LineBreak}
    (hb : b ∈ lineBreaksFrom offset cs) : offset ≤ b.start ∧ b.start < b.stop := by
  obtain ⟨front, text, back, -, hne, hstart, hstop⟩ := exists_of_mem_lineBreaksFrom hb
  obtain ⟨c, cs, rfl⟩ := List.exists_cons_of_ne_nil hne
  have hpos := c.utf8Size_pos
  rw [byteLength_append, byteLength_cons] at hstop
  omega

/-- The breaks stand one behind the other. -/
theorem lineBreaksFrom_pairwise (offset : Nat) (cs : List Char) :
    (lineBreaksFrom offset cs).Pairwise fun b b' => b.stop ≤ b'.start := by
  induction offset, cs using lineBreaksFrom.induct with
  | case1 offset => exact .nil
  | case2 offset cs ih =>
    rw [lineBreaksFrom.eq_2]
    exact .cons (fun b hb => (lineBreaksFrom_start_lt_stop hb).1) ih
  | case3 offset c cs hne hbreak ih =>
    rw [lineBreaksFrom.eq_3 _ _ _ hne, if_pos hbreak]
    exact .cons (fun b hb => (lineBreaksFrom_start_lt_stop hb).1) ih
  | case4 offset c cs hne hbreak ih =>
    rw [lineBreaksFrom.eq_3 _ _ _ hne, if_neg hbreak]
    exact ih

/-! ## Offsets inside a break -/

/-- The offset is between a CR and its LF. -/
def InsideBreak (source : List Char) (offset : Nat) : Prop :=
  ∃ before after, source = before ++ after ∧ byteLength before = offset ∧ SplitsBreak before after

theorem exists_splitsBreak {x offset : Nat} {cs : List Char} {b : LineBreak}
    (hb : b ∈ lineBreaksFrom offset cs) (hstart : b.start < x) (hstop : x < b.stop) :
    ∃ before after, cs = before ++ after ∧ offset + byteLength before = x ∧
      SplitsBreak before after := by
  induction offset, cs using lineBreaksFrom.induct with
  | case1 offset => cases hb
  | case2 offset cs ih =>
    rw [lineBreaksFrom.eq_2] at hb
    rcases List.mem_cons.mp hb with rfl | hb
    · dsimp only at hstart hstop
      refine ⟨['\r'], '\n' :: cs, rfl, ?_, rfl, rfl⟩
      rw [byteLength_cons, utf8Size_break (.inl rfl), byteLength_nil]
      omega
    · obtain ⟨before, after, rfl, hx, hsplits⟩ := ih hb
      refine ⟨'\r' :: '\n' :: before, after, rfl, ?_, hsplits.cons.cons⟩
      rw [byteLength_cons, byteLength_cons, utf8Size_break (.inl rfl), utf8Size_break (.inr rfl)]
      omega
  | case3 offset c cs hne hbreak ih =>
    rw [lineBreaksFrom.eq_3 _ _ _ hne, if_pos hbreak] at hb
    rcases List.mem_cons.mp hb with rfl | hb
    · dsimp only at hstart hstop
      omega
    · obtain ⟨before, after, rfl, hx, hsplits⟩ := ih hb
      refine ⟨c :: before, after, rfl, ?_, hsplits.cons⟩
      rw [byteLength_cons, utf8Size_break hbreak]
      omega
  | case4 offset c cs hne hbreak ih =>
    rw [lineBreaksFrom.eq_3 _ _ _ hne, if_neg hbreak] at hb
    obtain ⟨before, after, rfl, hx, hsplits⟩ := ih hb
    refine ⟨c :: before, after, rfl, ?_, hsplits.cons⟩
    rw [byteLength_cons]
    omega

/-- An offset between a CR and its LF is inside a break, and no other is. -/
theorem insideBreak_iff {source : List Char} {x : Nat} :
    InsideBreak source x ↔ ∃ b ∈ lineBreaks source, b.start < x ∧ x < b.stop := by
  constructor
  · rintro ⟨before, after, rfl, rfl, hlast, hhead⟩
    obtain ⟨front, rfl⟩ := List.getLast?_eq_some_iff.mp hlast
    obtain ⟨back, rfl⟩ := List.head?_eq_some_iff.mp hhead
    have hcut : ¬ SplitsBreak front ('\r' :: '\n' :: back) := by
      rintro ⟨-, hhead⟩
      cases hhead
    refine ⟨⟨byteLength front, byteLength front + 2⟩, ?_, ?_⟩
    · unfold lineBreaks
      rw [List.append_assoc, List.singleton_append, lineBreaksFrom_append hcut, Nat.zero_add,
        lineBreaksFrom.eq_2]
      exact List.mem_append_right _ List.mem_cons_self
    · rw [byteLength_append, byteLength_cons, utf8Size_break (.inl rfl), byteLength_nil]
      dsimp only
      omega
  · rintro ⟨b, hb, hstart, hstop⟩
    obtain ⟨before, after, hsource, hx, hsplits⟩ := exists_splitsBreak hb hstart hstop
    exact ⟨before, after, hsource, by omega, hsplits⟩

/-- The breaks by an offset: those that start in front of it, and the others. -/
theorem exists_passed (source : List Char) (x : Nat) :
    ∃ passed later, lineBreaks source = passed ++ later ∧ (∀ b ∈ passed, b.start < x) ∧
      ∀ b ∈ later, x ≤ b.start := by
  have hapart : (lineBreaks source).Pairwise fun b b' => b.start ≤ b'.start :=
    (lineBreaksFrom_pairwise 0 source).imp_of_mem fun hb _ hle =>
      Nat.le_trans (Nat.le_of_lt (lineBreaksFrom_start_lt_stop hb).2) hle
  generalize lineBreaks source = bs at hapart ⊢
  induction bs with
  | nil => exact ⟨[], [], rfl, nofun, nofun⟩
  | cons b bs ih =>
    obtain ⟨hnext, hapart⟩ := List.pairwise_cons.mp hapart
    by_cases hx : b.start < x
    · obtain ⟨passed, later, rfl, hpassed, hlater⟩ := ih hapart
      exact ⟨b :: passed, later, rfl, List.forall_mem_cons.mpr ⟨hx, hpassed⟩, hlater⟩
    · have hbehind : x ≤ b.start := Nat.le_of_not_lt hx
      exact ⟨[], b :: bs, rfl, nofun, List.forall_mem_cons.mpr ⟨hbehind, fun b' hb' =>
        Nat.le_trans hbehind (hnext b' hb')⟩⟩

/-- An offset inside a break: the breaks in front of that one have ended by then, and those behind
it start later. -/
theorem InsideBreak.exists_breaks {source : List Char} {x : Nat} (h : InsideBreak source x) :
    ∃ ended b later, lineBreaks source = ended ++ b :: later ∧ (∀ c ∈ ended, c.stop ≤ x) ∧
      b.start < x ∧ x < b.stop ∧ ∀ c ∈ later, x ≤ c.start := by
  obtain ⟨b, hb, hstart, hstop⟩ := insideBreak_iff.mp h
  obtain ⟨ended, later, hbreaks⟩ := List.append_of_mem hb
  have hapart := lineBreaksFrom_pairwise 0 source
  rw [show lineBreaksFrom 0 source = _ from hbreaks, List.pairwise_append] at hapart
  obtain ⟨-, hlater, hended⟩ := hapart
  refine ⟨ended, b, later, hbreaks, fun c hc => ?_, hstart, hstop, fun c hc => ?_⟩
  · have := hended c hc b List.mem_cons_self
    omega
  · have := List.rel_of_pairwise_cons hlater hc
    omega

/-! ## Lines by number -/

/-- The line with a number, counted from one.  It starts where the break in front of it ends, or
with the source, and stops where the next break starts, or with the source. -/
def numberedLine (source : List Char) (number : Nat) : LineBounds where
  start := (((lineBreaks source).take (number - 1)).getLast?.map LineBreak.stop).getD 0
  stop := (((lineBreaks source).drop (number - 1)).head?.map LineBreak.start).getD
    (byteLength source)

theorem numberedLine_append {source : List Char} {above below : List LineBreak}
    (h : lineBreaks source = above ++ below) :
    numberedLine source (1 + above.length) =
      ⟨(above.getLast?.map LineBreak.stop).getD 0,
        (below.head?.map LineBreak.start).getD (byteLength source)⟩ := by
  unfold numberedLine
  rw [Nat.add_sub_cancel_left, h, List.take_left, List.drop_left]

/-- A line starts by an offset if the breaks in front of it have ended by then. -/
theorem numberedLine_start_le {source : List Char} {ended later : List LineBreak} {x : Nat}
    (h : lineBreaks source = ended ++ later) (hended : ∀ b ∈ ended, b.stop ≤ x) :
    (numberedLine source (1 + ended.length)).start ≤ x := by
  rw [numberedLine_append h]
  cases hlast : ended.getLast? with
  | none => exact Nat.zero_le x
  | some b => exact hended b (List.mem_of_getLast? hlast)

/-- The walk over the breaks comes to the line behind those that start in front of the offset. -/
theorem lineBounds_eq {source : List Char} {offset : Nat} {above below : List LineBreak}
    (h : lineBreaks source = above ++ below)
    (habove : ∀ b ∈ above, b.start < min offset (byteLength source))
    (hbelow : ∀ b ∈ below, min offset (byteLength source) ≤ b.start) :
    lineBounds source offset = numberedLine source (1 + above.length) := by
  unfold lineBounds
  dsimp only
  rw [h, boundsAmong_append habove, boundsAmong_of_le hbelow, numberedLine_append h]

/-! ## Numbers of lines -/

theorem breaksBy_of_append {source : List Char} {ended later : List LineBreak} {x : Nat}
    (h : lineBreaks source = ended ++ later) (hended : ∀ b ∈ ended, b.stop ≤ x)
    (hlater : ∀ b ∈ later, x < b.stop) : breaksBy x source = ended.length := by
  unfold breaksBy
  rw [h, List.countP_append, List.countP_eq_length.mpr (by simpa using hended),
    List.countP_eq_zero.mpr (by simpa using hlater), Nat.add_zero]

/-- No break ends behind the source. -/
theorem breaksBy_min (x : Nat) (source : List Char) :
    breaksBy (min x (byteLength source)) source = breaksBy x source := by
  refine List.countP_congr fun b hb => ?_
  have := lineBreaksFrom_bounds 0 source b hb
  simp only [decide_eq_true_eq]
  omega

theorem lineNumber_toNat {source : List Char} (hsize : byteLength source < 4294967296)
    (hlines : (lineBreaks source).length + 1 < 4294967296) (offset : UInt32) :
    (lineNumber source offset).toNat = 1 + breaksBy offset.toNat source := by
  have hbreaks : breaksBy offset.toNat source ≤ (lineBreaks source).length := List.countP_le_length
  have hword : wordOf offset.toNat = offset :=
    UInt32.toNat.inj (toNat_wordOf offset.toNat_lt)
  have hline := lineAt_ofSource hsize offset.toNat_lt
  rw [hword] at hline
  unfold lineNumber
  rw [hline, toNat_wordOf (by omega), Nat.add_comm]

/-- The starts of the lines in a table increase. -/
theorem ofSource_pairwise {source : List Char} (hsize : byteLength source < 4294967296) :
    (LineTable.ofSource source).starts.Pairwise (· < ·) := by
  have hword : ∀ b ∈ lineBreaks source, (wordOf b.stop).toNat = b.stop := fun b hb =>
    toNat_wordOf (by have := lineBreaksFrom_bounds 0 source b hb; omega)
  refine .cons ?_ (List.pairwise_map.mpr
    ((lineBreaksFrom_pairwise 0 source).imp_of_mem fun {b c} hb hc hle => ?_))
  · intro start hstart
    obtain ⟨b, hb, rfl⟩ := List.mem_map.mp hstart
    have := (lineBreaksFrom_bounds 0 source b hb).1
    rw [UInt32.lt_iff_toNat_lt, hword b hb]
    exact this
  · have := (lineBreaksFrom_start_lt_stop hc).2
    rw [UInt32.lt_iff_toNat_lt, hword b hb, hword c hc]
    omega

/-- However a table is searched, the last line that has started by an offset is the one whose
number the table gives. -/
theorem LineTable.lineAt_of_last {table : LineTable} (hincreases : table.starts.Pairwise (· < ·))
    {offset start : UInt32} {i : Nat} (hi : table.starts[i]? = some start) (hstart : start ≤ offset)
    (hnext : ∀ next, table.starts[i + 1]? = some next → offset < next) :
    table.lineAt offset = wordOf (i + 1) := by
  obtain ⟨hlt, hget⟩ := List.getElem?_eq_some_iff.mp hi
  have hstarts : table.starts = table.starts.take (i + 1) ++ table.starts.drop (i + 1) :=
    (List.take_append_drop ..).symm
  have hended : ∀ s ∈ table.starts.take (i + 1), s ≤ offset := by
    intro s hs
    obtain ⟨j, hj, rfl⟩ := List.getElem_of_mem hs
    rw [List.getElem_take]
    rw [List.length_take] at hj
    rcases Nat.lt_or_eq_of_le (show j ≤ i by omega) with hlt | rfl
    · have := List.pairwise_iff_getElem.mp hincreases j i (by omega) (by omega) hlt
      rw [hget] at this
      exact UInt32.le_trans (UInt32.le_of_lt this) hstart
    · rw [hget]
      exact hstart
  have hlater : ∀ s ∈ table.starts.drop (i + 1), offset < s := by
    intro s hs
    obtain ⟨j, hj, rfl⟩ := List.getElem_of_mem hs
    rw [List.getElem_drop]
    rw [List.length_drop] at hj
    have hfirst := hnext _ (List.getElem?_eq_getElem (by omega : i + 1 < table.starts.length))
    rcases Nat.eq_zero_or_pos j with rfl | hpos
    · exact hfirst
    · have := List.pairwise_iff_getElem.mp hincreases (i + 1) (i + 1 + j) (by omega) (by omega)
        (by omega)
      exact UInt32.lt_trans hfirst this
  unfold LineTable.lineAt
  rw [hstarts, List.countP_append, List.countP_eq_length.mpr (by simpa using hended),
    List.countP_eq_zero.mpr (by simpa using hlater), List.length_take]
  congr 1
  omega

/-! ## The two lookups -/

/-- Outside of breaks the walk comes to the line behind the breaks that have ended. -/
theorem lineBounds_outside {source : List Char} {offset : Nat}
    (h : ¬ InsideBreak source (min offset (byteLength source))) :
    let number := 1 + breaksBy (min offset (byteLength source)) source
    lineBounds source offset = numberedLine source number ∧
      (numberedLine source number).start ≤ min offset (byteLength source) := by
  obtain ⟨passed, later, hbreaks, hpassed, hlater⟩ :=
    exists_passed source (min offset (byteLength source))
  have hended : ∀ b ∈ passed, b.stop ≤ min offset (byteLength source) := by
    intro b hb
    by_contra hstop
    exact h (insideBreak_iff.mpr ⟨b, hbreaks ▸ List.mem_append_left _ hb, hpassed b hb, by omega⟩)
  have hopen : ∀ b ∈ later, min offset (byteLength source) < b.stop := fun b hb =>
    Nat.lt_of_le_of_lt (hlater b hb) (lineBreaksFrom_start_lt_stop
      (hbreaks ▸ List.mem_append_right _ hb : b ∈ lineBreaks source)).2
  dsimp only
  rw [breaksBy_of_append hbreaks hended hopen]
  exact ⟨lineBounds_eq hbreaks hpassed hlater, numberedLine_start_le hbreaks hended⟩

/-- Inside a break the walk passes that break as well, and comes to a line behind the offset. -/
theorem lineBounds_ahead {source : List Char} {offset : Nat}
    (h : InsideBreak source (min offset (byteLength source))) :
    let number := 1 + breaksBy (min offset (byteLength source)) source
    (numberedLine source number).start ≤ min offset (byteLength source) ∧
      lineBounds source offset = numberedLine source (number + 1) ∧
      min offset (byteLength source) < (numberedLine source (number + 1)).start := by
  obtain ⟨ended, b, later, hbreaks, hended, hstart, hstop, hlater⟩ := h.exists_breaks
  have hwide : ∀ c ∈ ended ++ b :: later, c.start < c.stop := fun c hc =>
    (lineBreaksFrom_start_lt_stop (hbreaks ▸ hc : c ∈ lineBreaks source)).2
  have hopen : ∀ c ∈ b :: later, min offset (byteLength source) < c.stop := by
    refine List.forall_mem_cons.mpr ⟨hstop, fun c hc => ?_⟩
    exact Nat.lt_of_le_of_lt (hlater c hc)
      (hwide c (List.mem_append_right _ (List.mem_cons_of_mem _ hc)))
  have hstarted : ∀ c ∈ ended ++ [b], c.start < min offset (byteLength source) := by
    intro c hc
    rcases List.mem_append.mp hc with hc | hc
    · exact Nat.lt_of_lt_of_le (hwide c (List.mem_append_left _ hc)) (hended c hc)
    · rw [List.mem_singleton.mp hc]
      exact hstart
  have hpassed : lineBreaks source = (ended ++ [b]) ++ later := by
    rw [hbreaks, List.append_assoc, List.singleton_append]
  have hnext : 1 + ended.length + 1 = 1 + (ended ++ [b]).length := by
    rw [List.length_append, List.length_singleton, Nat.add_assoc]
  dsimp only
  rw [breaksBy_of_append hbreaks hended hopen, hnext]
  refine ⟨numberedLine_start_le hbreaks hended, lineBounds_eq hpassed hstarted hlater, ?_⟩
  rw [numberedLine_append hpassed, List.getLast?_concat]
  exact hstop

/-- **The line of an offset.**  In a source of fewer than 2^32 bytes and fewer than 2^32 lines, the
number of the line of an offset is one more than the breaks that end at the offset or in front of
it.  The starts of the lines increase, and every search for the last one by the offset gives that
number.  The line with the number starts by the offset, and outside of breaks the walk over the
breaks finds the bounds of that line.  Between a CR and its LF, which belongs to the line in front
of it, the walk finds the bounds of the next line, which starts behind the offset. -/
theorem line_of_offset {source : List Char} (hsize : byteLength source < 4294967296)
    (hlines : (lineBreaks source).length + 1 < 4294967296) (offset : UInt32) :
    let x := min offset.toNat (byteLength source)
    let number := (lineNumber source offset).toNat
    let starts := (LineTable.ofSource source).starts
    number = 1 + breaksBy x source ∧
      (starts.Pairwise (· < ·) ∧ ∀ i start, starts[i]? = some start → start ≤ offset →
        (∀ next, starts[i + 1]? = some next → offset < next) → number = i + 1) ∧
      (numberedLine source number).start ≤ x ∧
      (¬ InsideBreak source x → lineBounds source offset.toNat = numberedLine source number) ∧
      (InsideBreak source x → lineBounds source offset.toNat = numberedLine source (number + 1) ∧
        x < (numberedLine source (number + 1)).start) := by
  intro x number starts
  have hnumber : number = 1 + breaksBy x source :=
    (lineNumber_toNat hsize hlines offset).trans (by rw [breaksBy_min])
  have hincreases : starts.Pairwise (· < ·) := ofSource_pairwise hsize
  have hlength : starts.length = (lineBreaks source).length + 1 := by
    simp [starts, LineTable.ofSource]
  refine ⟨hnumber, ⟨hincreases, fun i start hi hstart hnext => ?_⟩, ?_⟩
  · have hbound : i < starts.length := (List.getElem?_eq_some_iff.mp hi).1
    show ((LineTable.ofSource source).lineAt offset).toNat = i + 1
    rw [LineTable.lineAt_of_last hincreases hi hstart hnext]
    exact toNat_wordOf (by omega)
  · rw [hnumber]
    by_cases hinside : InsideBreak source x
    · obtain ⟨hstart, hbounds⟩ := lineBounds_ahead hinside
      exact ⟨hstart, fun h => absurd hinside h, fun _ => hbounds⟩
    · obtain ⟨hbounds, hstart⟩ := lineBounds_outside hinside
      exact ⟨hstart, fun _ => hbounds, fun h => absurd h hinside⟩

/-- Three breaks, an empty line, and a character of two bytes in front of the offset. -/
theorem line_of_offset_mixed :
    let source := "é\r\r\nb\n".toList
    byteLength source < 4294967296 ∧ (lineBreaks source).length + 1 < 4294967296 ∧
      lineNumber source 5 = 3 ∧ lineBounds source 5 = numberedLine source 3 ∧
      numberedLine source 3 = ⟨5, 6⟩ := by
  intro source
  have hsize : byteLength source < 4294967296 := by decide
  have hlines : (lineBreaks source).length + 1 < 4294967296 := by decide
  obtain ⟨-, -, -, hbounds, -⟩ := line_of_offset hsize hlines 5
  have houtside : ¬ InsideBreak source 5 := by
    rw [insideBreak_iff]
    decide
  exact ⟨hsize, hlines, by decide, hbounds houtside, by decide⟩

/-- The LF of a CR LF is on the first line, and the walk finds the second one for it. -/
theorem lineBounds_of_lineFeed :
    let source := "a\r\nb".toList
    lineNumber source 2 = 1 ∧ numberedLine source 1 = ⟨0, 1⟩ ∧
      lineBounds source 2 = numberedLine source 2 ∧ numberedLine source 2 = ⟨3, 4⟩ := by
  decide

end ReplEngine.Text
