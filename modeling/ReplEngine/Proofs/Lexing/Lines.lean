import ReplEngine.Proofs.Lexing.Scans
import ReplEngine.Text.Lines
set_option autoImplicit false

/-!
# Line numbers in a part of a source

A part that is cut out of a source has the line numbers of the source, less the breaks in front
of the part.  The cut may not go through a CR LF, which is one break.
-/

namespace ReplEngine.Text

/-! ## Breaks -/

/-- A CR and an LF would meet where the two texts meet. -/
def SplitsBreak (as bs : List Char) : Prop := as.getLast? = some '\r' ∧ bs.head? = some '\n'

theorem SplitsBreak.cons {c : Char} {as bs : List Char} (h : SplitsBreak as bs) :
    SplitsBreak (c :: as) bs := by
  obtain ⟨hlast, hhead⟩ := h
  refine ⟨?_, hhead⟩
  rw [List.getLast?_cons, hlast]
  rfl

theorem utf8Size_break {c : Char} (h : c = '\r' ∨ c = '\n') : c.utf8Size = 1 := by
  rcases h with rfl | rfl <;> rfl

theorem lineBreaksFrom_append {as bs : List Char} (h : ¬ SplitsBreak as bs) (offset : Nat) :
    lineBreaksFrom offset (as ++ bs) =
      lineBreaksFrom offset as ++ lineBreaksFrom (offset + byteLength as) bs := by
  -- a break at the front does not reach into `bs`
  have hfront {c : Char} {cs : List Char} (h : ¬ SplitsBreak (c :: cs) bs)
      (hne : ∀ ds, c = '\r' → cs = '\n' :: ds → False) :
      ∀ ds, c = '\r' → cs ++ bs = '\n' :: ds → False := by
    intro ds hc hds
    subst hc
    cases cs with
    | nil =>
      rw [List.nil_append] at hds
      exact h ⟨rfl, by rw [hds]; rfl⟩
    | cons d cs =>
      obtain ⟨rfl, -⟩ := List.cons.inj hds
      exact hne cs rfl rfl
  induction offset, as using lineBreaksFrom.induct with
  | case1 offset => rfl
  | case2 offset cs ih =>
    have hlater := ih (fun h' => h h'.cons.cons)
    simp only [List.cons_append, lineBreaksFrom.eq_2, hlater, byteLength_cons,
      utf8Size_break (.inl rfl), utf8Size_break (.inr rfl), ← Nat.add_assoc]
  | case3 offset c cs hne hbreak ih =>
    have hlater := ih (fun h' => h h'.cons)
    simp only [List.cons_append, lineBreaksFrom.eq_3 _ _ _ hne,
      lineBreaksFrom.eq_3 _ _ _ (hfront h hne), if_pos hbreak, hlater, byteLength_cons,
      utf8Size_break hbreak, ← Nat.add_assoc]
  | case4 offset c cs hne hbreak ih =>
    have hlater := ih (fun h' => h h'.cons)
    simp only [List.cons_append, lineBreaksFrom.eq_3 _ _ _ hne,
      lineBreaksFrom.eq_3 _ _ _ (hfront h hne), if_neg hbreak, hlater, byteLength_cons,
      ← Nat.add_assoc]

/-- A break is some characters of the text, and takes the bytes that they take. -/
theorem exists_of_mem_lineBreaksFrom {offset : Nat} {cs : List Char} {b : LineBreak}
    (hb : b ∈ lineBreaksFrom offset cs) :
    ∃ front text back, cs = front ++ (text ++ back) ∧ text ≠ [] ∧
      b.start = offset + byteLength front ∧ b.stop = offset + byteLength (front ++ text) := by
  induction offset, cs using lineBreaksFrom.induct with
  | case1 offset => cases hb
  | case2 offset cs ih =>
    rw [lineBreaksFrom.eq_2] at hb
    rcases List.mem_cons.mp hb with rfl | hb
    · exact ⟨[], ['\r', '\n'], cs, rfl, List.cons_ne_nil _ _, rfl, rfl⟩
    · obtain ⟨front, text, back, rfl, hne, hstart, hstop⟩ := ih hb
      refine ⟨'\r' :: '\n' :: front, text, back, rfl, hne, ?_, ?_⟩
      · simp only [hstart, byteLength_cons, utf8Size_break (.inl rfl), utf8Size_break (.inr rfl)]
        omega
      · simp only [hstop, List.cons_append, byteLength_cons, utf8Size_break (.inl rfl),
          utf8Size_break (.inr rfl)]
        omega
  | case3 offset c cs hne hbreak ih =>
    rw [lineBreaksFrom.eq_3 _ _ _ hne, if_pos hbreak] at hb
    have hsize := utf8Size_break hbreak
    rcases List.mem_cons.mp hb with rfl | hb
    · refine ⟨[], [c], cs, rfl, List.cons_ne_nil _ _, rfl, ?_⟩
      rw [List.nil_append, byteLength_cons, hsize]
      rfl
    · obtain ⟨front, text, back, rfl, hne, hstart, hstop⟩ := ih hb
      refine ⟨c :: front, text, back, rfl, hne, ?_, ?_⟩
      · rw [hstart, byteLength_cons, hsize, Nat.add_assoc]
      · rw [hstop, List.cons_append, byteLength_cons, hsize, Nat.add_assoc]
  | case4 offset c cs hne hbreak ih =>
    rw [lineBreaksFrom.eq_3 _ _ _ hne, if_neg hbreak] at hb
    obtain ⟨front, text, back, rfl, hne, hstart, hstop⟩ := ih hb
    refine ⟨c :: front, text, back, rfl, hne, ?_, ?_⟩
    · rw [hstart, byteLength_cons, Nat.add_assoc]
    · rw [hstop, List.cons_append, byteLength_cons, Nat.add_assoc]

/-- A break ends behind the offset and not behind the text. -/
theorem lineBreaksFrom_bounds (offset : Nat) (cs : List Char) :
    ∀ b ∈ lineBreaksFrom offset cs, offset < b.stop ∧ b.stop ≤ offset + byteLength cs := by
  intro b hb
  obtain ⟨front, text, back, rfl, hne, -, hstop⟩ := exists_of_mem_lineBreaksFrom hb
  obtain ⟨c, cs, rfl⟩ := List.exists_cons_of_ne_nil hne
  have hpos := c.utf8Size_pos
  rw [hstop]
  simp only [byteLength_append, byteLength_cons]
  omega

/-- A break takes a byte at least. -/
theorem countP_lineBreaksFrom_le (x offset : Nat) (cs : List Char) :
    ((lineBreaksFrom offset cs).countP fun b => b.stop ≤ x) ≤ x - offset := by
  induction offset, cs using lineBreaksFrom.induct with
  | case1 offset => exact Nat.zero_le _
  | case2 offset cs ih =>
    rw [lineBreaksFrom.eq_2, List.countP_cons]
    split
    · rename_i hstop
      simp only [decide_eq_true_eq] at hstop
      omega
    · omega
  | case3 offset c cs hne hbreak ih =>
    rw [lineBreaksFrom.eq_3 _ _ _ hne, if_pos hbreak, List.countP_cons]
    split
    · rename_i hstop
      simp only [decide_eq_true_eq] at hstop
      omega
    · omega
  | case4 offset c cs hne hbreak ih =>
    rw [lineBreaksFrom.eq_3 _ _ _ hne, if_neg hbreak]
    omega

/-- The same text further on has the same breaks further on. -/
theorem lineBreaksFrom_stops (offset k : Nat) (cs : List Char) :
    (lineBreaksFrom (offset + k) cs).map LineBreak.stop =
      (lineBreaksFrom offset cs).map fun b => b.stop + k := by
  induction offset, cs using lineBreaksFrom.induct with
  | case1 offset => rfl
  | case2 offset cs ih =>
    rw [Nat.add_right_comm] at ih
    simp only [lineBreaksFrom.eq_2, List.map_cons, ih, Nat.add_right_comm]
  | case3 offset c cs hne hbreak ih =>
    rw [Nat.add_right_comm] at ih
    simp only [lineBreaksFrom.eq_3 _ _ _ hne, if_pos hbreak, List.map_cons, ih,
      Nat.add_right_comm]
  | case4 offset c cs hne hbreak ih =>
    rw [Nat.add_right_comm] at ih
    simp only [lineBreaksFrom.eq_3 _ _ _ hne, if_neg hbreak, ih]

/-! ## Line numbers -/

/-- How many breaks of a text end at the offset or in front of it. -/
def breaksBy (x : Nat) (cs : List Char) : Nat := (lineBreaks cs).countP fun b => b.stop ≤ x

theorem breaksBy_le (x : Nat) (cs : List Char) : breaksBy x cs ≤ x :=
  countP_lineBreaksFrom_le x 0 cs

/-- The line of an offset is one more than the breaks by then. -/
theorem lineAt_ofSource {cs : List Char} (hcs : byteLength cs < 4294967296) {x : Nat}
    (hx : x < 4294967296) :
    (LineTable.ofSource cs).lineAt (wordOf x) = wordOf (breaksBy x cs + 1) := by
  unfold LineTable.ofSource LineTable.lineAt breaksBy
  rw [List.countP_cons_of_pos (by simp), List.countP_map]
  congr 2
  refine List.countP_congr ?_
  intro b hb
  have hstop := lineBreaksFrom_bounds 0 cs b hb
  simp only [Function.comp_apply, decide_eq_true_eq, UInt32.le_iff_toNat_le]
  rw [toNat_wordOf hx, toNat_wordOf (by omega)]

/-- The breaks of a source by an offset in its middle part: those in front of the part, and those
in the part. -/
theorem breaksBy_middle {before body trail : List Char}
    (hbefore : ¬ SplitsBreak before (body ++ trail)) (htrail : ¬ SplitsBreak body trail) {x : Nat}
    (hx : x < byteLength body) :
    breaksBy (x + byteLength before) (before ++ (body ++ trail)) =
      breaksBy x body + (lineBreaks before).length := by
  unfold breaksBy lineBreaks
  rw [lineBreaksFrom_append hbefore, lineBreaksFrom_append htrail, List.countP_append,
    List.countP_append]
  have hall : (lineBreaksFrom 0 before).countP (fun b => b.stop ≤ x + byteLength before) =
      (lineBreaksFrom 0 before).length := by
    rw [List.countP_eq_length]
    intro b hb
    have := lineBreaksFrom_bounds 0 before b hb
    simp only [decide_eq_true_eq]
    omega
  have hbody : (lineBreaksFrom (0 + byteLength before) body).countP
        (fun b => b.stop ≤ x + byteLength before) =
      (lineBreaksFrom 0 body).countP (fun b => b.stop ≤ x) := by
    have hstops := congrArg (List.countP fun stop => stop ≤ x + byteLength before)
      (lineBreaksFrom_stops 0 (byteLength before) body)
    rw [List.countP_map, List.countP_map] at hstops
    refine hstops.trans (List.countP_congr ?_)
    intro b _
    simp
  have hnone : (lineBreaksFrom (0 + byteLength before + byteLength body) trail).countP
      (fun b => b.stop ≤ x + byteLength before) = 0 := by
    rw [List.countP_eq_zero]
    intro b hb
    have := lineBreaksFrom_bounds _ trail b hb
    simp only [decide_eq_true_eq]
    omega
  rw [hall, hbody, hnone]
  omega

/-- A source has the line numbers of its middle part, with the breaks in front of it added. -/
theorem lineAt_middle {before body trail : List Char}
    (hbefore : ¬ SplitsBreak before (body ++ trail)) (htrail : ¬ SplitsBreak body trail)
    (hsize : byteLength (before ++ (body ++ trail)) < 2147483648) {x : Nat}
    (hx : x < byteLength body) :
    (LineTable.ofSource (before ++ (body ++ trail))).lineAt
        (later (byteLength before) (wordOf x)) =
      later (lineBreaks before).length ((LineTable.ofSource body).lineAt (wordOf x)) ∧
    (LineTable.ofSource body).lineAt (wordOf x) =
      earlier (lineBreaks before).length
        ((LineTable.ofSource (before ++ (body ++ trail))).lineAt
          (later (byteLength before) (wordOf x))) := by
  have hbreaks := breaksBy_le (x + byteLength before) (before ++ (body ++ trail))
  have hmiddle := breaksBy_middle hbefore htrail hx
  have hparts := hsize
  rw [byteLength_append, byteLength_append] at hparts
  have hbody := lineAt_ofSource (show byteLength body < 4294967296 by omega)
    (show x < 4294967296 by omega)
  have hlater : (LineTable.ofSource (before ++ (body ++ trail))).lineAt
        (later (byteLength before) (wordOf x)) =
      later (lineBreaks before).length ((LineTable.ofSource body).lineAt (wordOf x)) := by
    rw [later_wordOf, lineAt_ofSource (by omega) (by omega), hmiddle, hbody, later_wordOf,
      Nat.add_right_comm]
  refine ⟨hlater, ?_⟩
  rw [hlater, hbody, earlier_later (by omega)]

end ReplEngine.Text
