import ReplEngine.Proofs.Splitter.Units
set_option autoImplicit false

/-!
# Units in front of more text

A unit that has been found at the front of a source, with something left behind it, is found
there again when the source is written on (`LeadingUnit.append`).  The exception is a block whose
closing brace is the last that stands fast: a `;` that comes to follow it is taken into it.
-/

namespace ReplEngine.Language

open Text

/-! ## What the walk has seen when it ends -/

/-- The walk has seen a token that a unit can be cut behind and, if that is a brace, that no `;`
follows it.  The rest of the tokens does not matter. -/
def Stops (n : Nesting) (offset : Nat) (ts : List Token) : Prop :=
  ∃ us last more, ts = us ++ last :: more ∧ Closes last.kind ∧ offset = last.span.stop.toNat ∧
    (last.kind = .symbol .closeBrace → Separate more) ∧
    ∀ more', (last.kind = .symbol .closeBrace → Separate more') →
      findEnd n (us ++ last :: more') = .at offset

/-- A token that the walk goes past. -/
theorem Stops.cons {n n' : Nesting} {offset : Nat} {t : Token} {ts : List Token}
    (h : Stops n' offset ts) (hstep : ∀ vs, vs ≠ [] → findEnd n (t :: vs) = findEnd n' vs) :
    Stops n offset (t :: ts) := by
  obtain ⟨us, last, more, rfl, hcloses, hoffset, hseparate, hwalk⟩ := h
  refine ⟨t :: us, last, more, rfl, hcloses, hoffset, hseparate, ?_⟩
  intro more' hmore'
  rw [List.cons_append, hstep _ (by simp)]
  exact hwalk more' hmore'

theorem stops_semicolon {n : Nesting} (span : Span) (ts : List Token)
    (h : n.braces ≤ 0 ∧ n.parens ≤ 0) :
    Stops n span.stop.toNat (⟨.symbol .semicolon, span⟩ :: ts) := by
  refine ⟨[], _, ts, rfl, .inl rfl, rfl, nofun, ?_⟩
  intro more' _
  rw [List.nil_append, findEnd]
  exact if_pos h

theorem stops_block {n : Nesting} (span : Span) (ts : List Token)
    (h : n.braces - 1 = 0 ∧ n.parens ≤ 0) :
    Stops n (blockEnd ⟨.symbol .closeBrace, span⟩ ts) (⟨.symbol .closeBrace, span⟩ :: ts) := by
  have hends (vs : List Token) : findEnd n (⟨.symbol .closeBrace, span⟩ :: vs) =
      .at (blockEnd ⟨.symbol .closeBrace, span⟩ vs) := by
    rw [findEnd]
    exact if_pos h
  have hbare (vs : List Token) (hvs : Separate vs) :
      blockEnd ⟨.symbol .closeBrace, span⟩ vs = span.stop.toNat := by
    cases vs with
    | nil => rfl
    | cons v vs => exact if_neg (hvs v rfl)
  by_cases hts : Separate ts
  · refine ⟨[], _, ts, rfl, .inr rfl, hbare ts hts, fun _ => hts, ?_⟩
    intro more' hmore'
    rw [List.nil_append, hends, hbare ts hts, hbare more' (hmore' rfl)]
  · -- the `;` behind the brace is the last token of the unit
    cases ts with
    | nil => exact (hts fun t ht => by cases ht).elim
    | cons next more =>
      have hnext : next.kind = .symbol .semicolon := by
        rcases Decidable.em (next.kind = .symbol .semicolon) with hnext | hnext
        · exact hnext
        · refine (hts fun t ht => ?_).elim
          cases ht
          exact hnext
      have htaken (vs : List Token) :
          blockEnd ⟨.symbol .closeBrace, span⟩ (next :: vs) = next.span.stop.toNat := if_pos hnext
      refine ⟨[⟨.symbol .closeBrace, span⟩], next, more, rfl, .inl hnext, htaken more, ?_, ?_⟩
      · intro hbrace
        rw [hnext] at hbrace
        cases hbrace
      · intro more' _
        rw [List.singleton_append, hends, htaken, htaken]

theorem stops_of_findEnd {n : Nesting} {ts : List Token} {offset : Nat}
    (h : findEnd n ts = .at offset) : Stops n offset ts := by
  induction ts generalizing n with
  | nil => cases h
  | cons t ts ih =>
    obtain ⟨kind, span⟩ := t
    cases kind with
    | unclosedComment body => cases h
    | unclosedString body =>
      rw [findEnd] at h
      cases ts with
      | nil => cases h
      | cons u us =>
        refine (ih h).cons fun vs hvs => ?_
        rw [findEnd]
        cases vs with
        | nil => exact (hvs rfl).elim
        | cons v vs => rfl
    | symbol sign =>
      cases sign with
      | semicolon =>
        rw [findEnd] at h
        simp only at h
        split at h
        · rename_i hends
          cases h
          exact stops_semicolon span ts hends
        · rename_i hgoes
          exact (ih h).cons fun vs _ => by
            rw [findEnd]
            exact if_neg hgoes
      | closeBrace =>
        rw [findEnd] at h
        simp only at h
        split at h
        · rename_i hends
          cases h
          exact stops_block span ts hends
        · rename_i hgoes
          exact (ih h).cons fun vs _ => by
            rw [findEnd]
            exact if_neg hgoes
      | _ => exact (ih h).cons fun vs _ => rfl
    | _ => exact (ih h).cons fun vs _ => rfl

/-! ## The unit in front -/

/-- A source is a unit in front of `rest`, and what may be written behind it. -/
structure LeadingUnit (source unit rest : List Char) : Prop where
  eq : ∃ before, source = before ++ (unit ++ rest)
  ne_nil : unit ≠ []
  /-- No `;` follows a unit that ends with a brace. -/
  separate : unit.getLast? = some '\x7d' → Separate (Token.scan rest)
  /-- With more text the unit is found again, unless a `;` comes to follow its brace. -/
  append : ∀ more, byteLength (source ++ more) < 4294967296 →
    (unit.getLast? = some '\x7d' → Separate (Token.scan (rest ++ more))) →
      nextUnitChars (source ++ more) =
        .complete (String.ofList unit) (String.ofList (rest ++ more)) ∧
      (Separate (Token.scan source) → Separate (Token.scan (source ++ more)))

theorem leadingUnit_of_nextUnit {source : List Char} {unit rest : String}
    (hsize : byteLength source < 4294967296) (h : nextUnitChars source = .complete unit rest)
    (hrest : rest ≠ "") : LeadingUnit source unit.toList rest.toList := by
  cases htokens : Token.scan source with
  | nil =>
    unfold nextUnitChars at h
    rw [htokens] at h
    cases h
  | cons first ts =>
    cases hend : findEnd {} (first :: ts) with
    | unclosed =>
      unfold nextUnitChars at h
      rw [htokens] at h
      simp only [hend] at h
      cases h
    | ran n =>
      -- the tokens run out: the unit is all of the source
      have hall : sliceFrom (byteLength source) source = [] := by
        have hmiddle := sliceFrom_middle source [] []
        rwa [List.append_nil, List.append_nil, List.append_nil] at hmiddle
      unfold nextUnitChars at h
      rw [htokens] at h
      simp only [hend, hall] at h
      split at h
      · cases h
      · cases h
        exact (hrest rfl).elim
    | «at» offset =>
      obtain ⟨us, last, more, hts, hcloses, hoffset, hseparate, hwalk⟩ := stops_of_findEnd hend
      obtain ⟨before, c, behind, rfl, -, hstart, hread, hbefore⟩ := cut_front htokens
      rw [hts] at hread
      obtain ⟨body, trail, rfl, hlast, -, hstop, htrail, hreads⟩ := cut_back hread hcloses
      obtain ⟨vs, hvs⟩ : ∃ vs, us ++ [last] = first :: vs := by
        cases us with
        | nil => exact ⟨[], by rw [(List.cons.inj hts).1]; rfl⟩
        | cons u us => exact ⟨us ++ [last], by rw [(List.cons.inj hts).1]; rfl⟩
      rw [← byteLength_append] at hstop htrail
      have hbrace : (c :: body).getLast? = some '\x7d' ↔ last.kind = .symbol .closeBrace := by
        rw [hlast]
        rcases hcloses with hkind | hkind <;> rw [hkind] <;> decide
      -- in front of any text that may follow, the walk ends where it did
      have hcut (post : List Char) (hsize : byteLength (before ++ (c :: body ++ post)) < 4294967296)
          (hpost : last.kind = .symbol .closeBrace → Separate (Token.scan post)) :=
        complete_in_front hbefore (hvs ▸ hreads post) hstart hsize <| by
          have hends := hwalk ((Token.scan post).map
            (Token.map (later (byteLength (before ++ c :: body)))))
            fun hkind => (separate_map _).2 (hpost hkind)
          rw [hoffset, hstop, toNat_wordOf (by simp only [byteLength_append] at hsize ⊢; omega)]
            at hends
          rwa [← hvs, List.append_assoc]
      have hrestSeparate : last.kind = .symbol .closeBrace → Separate (Token.scan trail) := by
        intro hkind
        have hmore := hseparate hkind
        rw [htrail.eq_moved_scan] at hmore
        exact (separate_map _).1 hmore
      obtain ⟨-, hself⟩ := hcut trail hsize hrestSeparate
      have hunit := h.symm.trans hself
      cases hunit
      rw [String.toList_ofList, String.toList_ofList]
      refine ⟨⟨before, rfl⟩, List.cons_ne_nil c body, fun h => hrestSeparate (hbrace.1 h), ?_⟩
      intro more hmore hfollows
      have hassoc : before ++ c :: (body ++ trail) ++ more =
          before ++ (c :: body ++ (trail ++ more)) := by simp
      rw [hassoc] at hmore ⊢
      obtain ⟨hall, hnext⟩ := hcut (trail ++ more) hmore fun hkind => hfollows (hbrace.2 hkind)
      refine ⟨hnext, ?_⟩
      rw [htokens, hall]
      exact fun h t ht => h t ht

/-! ## What is cut off a text -/

theorem byteLength_le_of_sublist {cs ds : List Char} (h : cs.Sublist ds) :
    byteLength cs ≤ byteLength ds := by
  induction h with
  | slnil => exact Nat.le_refl _
  | cons c _ ih =>
    rw [byteLength_cons]
    omega
  | cons_cons c _ ih =>
    rw [byteLength_cons, byteLength_cons]
    omega

theorem dropBytes?_sublist {n : Nat} {cs ds : List Char} (h : dropBytes? n cs = some ds) :
    ds.Sublist cs := by
  induction cs generalizing n with
  | nil =>
    unfold dropBytes? at h
    split at h
    · cases h
      exact .slnil
    · cases h
  | cons c cs ih =>
    unfold dropBytes? at h
    split at h
    · cases h
      exact List.Sublist.refl _
    · split at h
      · exact (ih h).cons c
      · cases h

theorem takeBytes?_sublist {n : Nat} {cs ds : List Char} (h : takeBytes? n cs = some ds) :
    ds.Sublist cs := by
  induction cs generalizing n ds with
  | nil =>
    unfold takeBytes? at h
    split at h
    · cases h
      exact .slnil
    · cases h
  | cons c cs ih =>
    unfold takeBytes? at h
    split at h
    · cases h
      exact List.nil_sublist _
    · split at h
      · obtain ⟨taken, htaken, rfl⟩ := Option.map_eq_some_iff.mp h
        exact (ih htaken).cons_cons c
      · cases h

theorem sliceFrom_sublist (n : Nat) (cs : List Char) : (sliceFrom n cs).Sublist cs := by
  unfold sliceFrom
  cases h : dropBytes? n cs with
  | none => exact List.nil_sublist cs
  | some ds => exact dropBytes?_sublist h

theorem slice_sublist (start stop : Nat) (cs : List Char) : (slice start stop cs).Sublist cs := by
  unfold slice
  cases h : slice? start stop cs with
  | none => exact List.nil_sublist cs
  | some es =>
    unfold slice? at h
    split at h
    · obtain ⟨ds, hdropped, htaken⟩ := Option.bind_eq_some_iff.mp h
      exact (takeBytes?_sublist htaken).trans (dropBytes?_sublist hdropped)
    · cases h

theorem length_sliceFrom_lt {n : Nat} {cs : List Char} (hn : 0 < n) (hcs : cs ≠ []) :
    (sliceFrom n cs).length < cs.length := by
  cases cs with
  | nil => exact (hcs rfl).elim
  | cons c cs =>
    rw [sliceFrom, dropBytes?, if_neg (Nat.ne_of_gt hn), List.length_cons]
    split
    · cases hrest : dropBytes? (n - c.utf8Size) cs with
      | none => exact Nat.zero_lt_succ _
      | some rest => exact Nat.lt_succ_of_le (dropBytes?_sublist hrest).length_le
    · exact Nat.zero_lt_succ _

theorem ne_nil_of_scan {source : List Char} {t : Token} {ts : List Token}
    (h : Token.scan source = t :: ts) : source ≠ [] := by
  rintro rfl
  cases h

/-- A unit and what is left behind it are parts of the text that they are cut from. -/
theorem sublist_of_nextUnit {source unit rest : String}
    (h : nextUnit source = .complete unit rest) :
    unit.toList.Sublist source.toList ∧ rest.toList.Sublist source.toList := by
  unfold nextUnit nextUnitChars at h
  simp only at h
  split at h
  · cases h
  split at h
  · cases h
    exact ⟨by simpa using slice_sublist _ _ _, by simpa using sliceFrom_sublist _ _⟩
  · cases h
  · split at h
    · cases h
    · cases h
      exact ⟨by simpa using slice_sublist _ _ _, by simpa using sliceFrom_sublist _ _⟩

theorem byteLength_of_nextUnit {source unit rest : String}
    (h : nextUnit source = .complete unit rest) :
    byteLength unit.toList ≤ byteLength source.toList ∧
      byteLength rest.toList ≤ byteLength source.toList := by
  obtain ⟨hunit, hrest⟩ := sublist_of_nextUnit h
  exact ⟨byteLength_le_of_sublist hunit, byteLength_le_of_sublist hrest⟩

/-- Every unit takes text away. -/
theorem length_rest_lt {source : List Char} {unit rest : String}
    (h : nextUnitChars source = .complete unit rest) : rest.length < source.length := by
  unfold nextUnitChars at h
  cases htokens : Token.scan source with
  | nil =>
    rw [htokens] at h
    cases h
  | cons first ts =>
    have hne := ne_nil_of_scan htokens
    rw [htokens] at h
    cases hend : findEnd {} (first :: ts) with
    | unclosed =>
      simp only [hend] at h
      cases h
    | ran n =>
      have hpos : 0 < byteLength source :=
        Nat.pos_of_ne_zero fun hzero => hne (eq_nil_of_byteLength hzero)
      simp only [hend] at h
      split at h
      · cases h
      · cases h
        rw [String.length_ofList]
        exact length_sliceFrom_lt hpos hne
    | «at» offset =>
      obtain ⟨us, last, more, hts, -, rfl, -⟩ := stops_of_findEnd hend
      have hmem : last ∈ Token.scan source := by rw [htokens, hts]; simp
      obtain ⟨start, stop, hspan, -, hlt, -⟩ :=
        (scan_eq_iff.1 (rfl : Token.scan source = _)).bounds last hmem
      have hpos : 0 < last.span.stop.toNat := by
        rw [hspan, Span.ofRange, wordOf_toNat]
        omega
      simp only [hend] at h
      cases h
      rw [String.length_ofList]
      exact length_sliceFrom_lt hpos hne

end ReplEngine.Language
