import ReplEngine.Proofs.Splitter.Behind
set_option autoImplicit false

/-!
# Taking units off a source loses nothing

A source from which a unit is taken is what is skipped, the unit, and what is left, and its tokens
are those of the unit and those of what is left (`parts_of_nextUnit`): no token is cut in two, none
comes twice and none goes.  So a source falls into at most as many units as it has tokens, and the
tokens of the units are its tokens, in order (`nextUnit_lossless`).
-/

namespace ReplEngine.Language

open Text

/-! ## Tokens at an offset -/

/-- The tokens of a text that stands at an offset. -/
def tokensAt (offset : Nat) (text : List Char) : List Token :=
  (Token.scan text).map (Token.map (later offset))

theorem tokensAt_zero (text : List Char) : tokensAt 0 text = Token.scan text := by
  have hsame : Token.map (later 0) = id := by
    funext t
    obtain ⟨kind, start, stop⟩ := t
    simp only [Token.map, Span.map, later_zero, id_eq]
  rw [tokensAt, hsame, List.map_id]

theorem map_tokensAt (offset k : Nat) (text : List Char) :
    (tokensAt offset text).map (Token.map (later k)) = tokensAt (offset + k) text := by
  have hboth : Token.map (later k) ∘ Token.map (later offset) = Token.map (later (offset + k)) := by
    funext t
    obtain ⟨kind, start, stop⟩ := t
    simp only [Function.comp_apply, Token.map, Span.map, later_later]
  rw [tokensAt, List.map_map, hboth, tokensAt]

theorem map_kind_tokensAt (offset : Nat) (text : List Char) :
    (tokensAt offset text).map Token.kind = (Token.scan text).map Token.kind := by
  rw [tokensAt, List.map_map]
  rfl

/-! ## One unit -/

/-- A source is what is skipped, a unit that starts with a token, and what is left.  It has the
tokens of the unit and of what is left, each where it stands. -/
structure Parts (source skipped unit rest : List Char) : Prop where
  eq : source = skipped ++ (unit ++ rest)
  skipped_empty : Token.scan skipped = []
  starts : ∃ t ts, Token.scan unit = t :: ts ∧ t.span.start = 0
  tokens : Token.scan source =
    tokensAt (byteLength skipped) unit ++ tokensAt (byteLength (skipped ++ unit)) rest

/-- Where the tokens of a unit are read alike in front of what is left and on their own, the
source is cut between tokens. -/
theorem parts_of_scans {skipped body rest : List Char} {c : Char} {first : Token}
    {ts more : List Token} (hskipped : ∀ cs, Scans (c :: cs) 0 skipped [])
    (hunit : Scans [] (byteLength skipped) (c :: body) (first :: ts))
    (hrest : Scans [] (byteLength (skipped ++ c :: body)) rest more)
    (hstart : first.span.start = wordOf (byteLength skipped))
    (hsize : byteLength skipped < 4294967295)
    (htokens : Token.scan (skipped ++ (c :: body ++ rest)) = first :: ts ++ more) :
    Parts (skipped ++ (c :: body ++ rest)) skipped (c :: body) rest := by
  have hunit := hunit.eq_moved_scan
  refine ⟨rfl, scan_eq_iff.2 (hskipped []).front, ?_, ?_⟩
  · cases hown : Token.scan (c :: body) with
    | nil => simp [hown] at hunit
    | cons t us =>
      rw [hown, List.map_cons] at hunit
      obtain ⟨rfl, -⟩ := List.cons.inj hunit
      refine ⟨t, us, rfl, UInt32.toNat.inj ?_⟩
      -- the unit starts where its first token does
      have hsame := congrArg UInt32.toNat hstart
      simp only [Token.map_span, Span.map, later, wordOf_toNat] at hsame
      show t.span.start.toNat = 0
      omega
  · rw [htokens, hunit, hrest.eq_moved_scan]
    rfl

/-- A unit is cut out of its source between tokens. -/
theorem parts_of_nextUnit {source : List Char} {unit rest : String}
    (hsize : byteLength source < 4294967295)
    (h : nextUnitChars source = .complete unit rest) :
    ∃ skipped, Parts source skipped unit.toList rest.toList := by
  cases htokens : Token.scan source with
  | nil =>
    unfold nextUnitChars at h
    rw [htokens] at h
    cases h
  | cons first ts =>
    obtain ⟨skipped, c, behind, rfl, -, hstart, hread, hskipped⟩ := cut_front htokens
    have hskippedSize : byteLength skipped < 4294967295 := by
      rw [byteLength_append] at hsize
      omega
    have hfirst : first.span.start.toNat = byteLength skipped := by
      rw [hstart, toNat_wordOf (by omega)]
    unfold nextUnitChars at h
    rw [htokens] at h
    cases hend : findEnd {} (first :: ts) with
    | unclosed =>
      simp only [hend] at h
      cases h
    | ran n =>
      -- all of the source from its first token on is the unit
      have hcut := slice_middle skipped (c :: behind) []
      have hleft := sliceFrom_middle skipped (c :: behind) []
      rw [List.append_nil] at hcut hleft
      simp only [hend, hfirst, hcut, hleft] at h
      split at h
      · cases h
      · cases h
        rw [String.toList_ofList, String.toList_ofList]
        refine ⟨skipped, ?_⟩
        have hparts : Parts (skipped ++ (c :: behind ++ [])) skipped (c :: behind) [] :=
          parts_of_scans hskipped hread (.nil _) hstart hskippedSize
            (by rw [List.append_nil, List.append_nil, htokens])
        rwa [List.append_nil] at hparts
    | «at» offset =>
      obtain ⟨us, last, more, hts, hcloses, rfl, -, -⟩ := stops_of_findEnd hend
      rw [hts] at hread
      obtain ⟨body, trail, rfl, -, -, hstop, htrail, hreads⟩ := cut_back hread hcloses
      rw [← byteLength_append] at hstop htrail
      obtain ⟨vs, hvs⟩ : ∃ vs, us ++ [last] = first :: vs := by
        cases us with
        | nil => exact ⟨[], by rw [(List.cons.inj hts).1]; rfl⟩
        | cons u us => exact ⟨us ++ [last], by rw [(List.cons.inj hts).1]; rfl⟩
      have hlast : last.span.stop.toNat = byteLength (skipped ++ c :: body) := by
        rw [hstop, toNat_wordOf]
        simp only [byteLength_append, byteLength_cons] at hsize ⊢
        omega
      simp only [hend, hfirst, hlast] at h
      rw [← List.cons_append, slice_middle, sliceFrom_middle] at h
      cases h
      rw [String.toList_ofList, String.toList_ofList]
      refine ⟨skipped, parts_of_scans hskipped (hvs ▸ hreads []) htrail hstart hskippedSize ?_⟩
      rw [List.cons_append, htokens, hts, ← hvs, List.append_assoc]
      rfl

theorem Parts.unit_pos {source skipped unit rest : List Char} (h : Parts source skipped unit rest) :
    0 < byteLength unit := by
  obtain ⟨t, ts, hscan, -⟩ := h.starts
  exact Nat.pos_of_ne_zero fun hzero => ne_nil_of_scan hscan (eq_nil_of_byteLength hzero)

theorem Parts.byteLength_rest {source skipped unit rest : List Char}
    (h : Parts source skipped unit rest) : byteLength rest < byteLength source := by
  have hpos := h.unit_pos
  rw [h.eq, byteLength_append, byteLength_append]
  omega

/-- Nothing but blanks and comments: that is when there is no unit. -/
theorem nextUnit_eq_empty_iff (source : String) :
    nextUnit source = .empty ↔ Token.scan source.toList = [] := by
  refine ⟨fun h => ?_, nextUnit_of_scan_nil⟩
  cases htokens : Token.scan source.toList with
  | nil => rfl
  | cons first ts =>
    unfold nextUnit nextUnitChars at h
    rw [htokens] at h
    cases hend : findEnd {} (first :: ts) with
    | unclosed | «at» offset =>
      simp only [hend] at h
      cases h
    | ran n =>
      simp only [hend] at h
      split at h <;> cases h

/-! ## One unit after the other -/

/-- The tokens of parts, each of them skipped text and a unit behind it, and of what is left behind
them, from an offset on. -/
def tokensOf : Nat → List (List Char × List Char) → List Char → List Token
  | offset, [], rest => tokensAt offset rest
  | offset, (skipped, unit) :: parts, rest =>
    tokensAt (offset + byteLength skipped) unit ++
      tokensOf (offset + byteLength skipped + byteLength unit) parts rest

theorem map_tokensOf (k : Nat) (parts : List (List Char × List Char)) (rest : List Char)
    (offset : Nat) :
    (tokensOf offset parts rest).map (Token.map (later k)) = tokensOf (offset + k) parts rest := by
  induction parts generalizing offset with
  | nil => exact map_tokensAt offset k rest
  | cons part parts ih =>
    obtain ⟨skipped, unit⟩ := part
    simp only [tokensOf, List.map_append, map_tokensAt, ih]
    congr 2 <;> omega

/-- A source is cut into parts between tokens. -/
structure Laid (source : List Char) (parts : List (List Char × List Char)) (rest : List Char) :
    Prop where
  eq : source = parts.flatMap (fun part => part.1 ++ part.2) ++ rest
  skipped_empty : ∀ part ∈ parts, Token.scan part.1 = []
  starts : ∀ part ∈ parts, ∃ t ts, Token.scan part.2 = t :: ts ∧ t.span.start = 0
  tokens : Token.scan source = tokensOf 0 parts rest

theorem Parts.laid {source skipped unit rest final : List Char}
    {parts : List (List Char × List Char)} (h : Parts source skipped unit rest)
    (hlater : Laid rest parts final) : Laid source ((skipped, unit) :: parts) final where
  eq := by
    rw [h.eq, hlater.eq, List.flatMap_cons]
    simp only [List.append_assoc]
  skipped_empty := List.forall_mem_cons.mpr ⟨h.skipped_empty, hlater.skipped_empty⟩
  starts := List.forall_mem_cons.mpr ⟨h.starts, hlater.starts⟩
  tokens := by
    rw [h.tokens, tokensAt, tokensAt, hlater.tokens, map_tokensOf, byteLength_append, tokensOf,
      Nat.zero_add, Nat.zero_add]
    rfl

theorem laid_of_splits {source final : String} {units : List String}
    (h : Splits source units final) (hsize : byteLength source.toList < 4294967295) :
    ∃ parts, parts.map Prod.snd = units.map String.toList ∧
      Laid source.toList parts final.toList := by
  induction h with
  | done rest => exact ⟨[], rfl, by simp, by simp, by simp, (tokensAt_zero rest.toList).symm⟩
  | @next source unit rest final units hnext _ ih =>
    obtain ⟨skipped, hparts⟩ := parts_of_nextUnit hsize hnext
    obtain ⟨parts, hunits, hlaid⟩ := ih (Nat.lt_trans hparts.byteLength_rest hsize)
    exact ⟨(skipped, unit.toList) :: parts, by rw [List.map_cons, hunits, List.map_cons],
      hparts.laid hlaid⟩

theorem Laid.kinds {source rest : List Char} {parts : List (List Char × List Char)}
    (h : Laid source parts rest) :
    (Token.scan source).map Token.kind =
      parts.flatMap (fun part => (Token.scan part.2).map Token.kind) ++
        (Token.scan rest).map Token.kind := by
  have hkinds (offset : Nat) : (tokensOf offset parts rest).map Token.kind =
      parts.flatMap (fun part => (Token.scan part.2).map Token.kind) ++
        (Token.scan rest).map Token.kind := by
    clear h
    induction parts generalizing offset with
    | nil => exact map_kind_tokensAt offset rest
    | cons part parts ih =>
      obtain ⟨skipped, unit⟩ := part
      simp only [tokensOf, List.map_append, map_kind_tokensAt, ih, List.flatMap_cons,
        List.append_assoc]
  rw [h.tokens, hkinds]

/-- Every part has a token. -/
theorem Laid.length_le {source rest : List Char} {parts : List (List Char × List Char)}
    (h : Laid source parts rest) : parts.length ≤ (Token.scan source).length := by
  have hkinds := congrArg List.length h.kinds
  have hstarts := h.starts
  rw [List.length_map, List.length_append, List.length_flatMap] at hkinds
  have hone : parts.length ≤
      (parts.map fun part => ((Token.scan part.2).map Token.kind).length).sum := by
    clear h hkinds
    induction parts with
    | nil => exact Nat.le_refl 0
    | cons part parts ih =>
      obtain ⟨⟨t, ts, hscan, -⟩, hlater⟩ := List.forall_mem_cons.mp hstarts
      have hle := ih hlater
      rw [List.map_cons, List.sum_cons, hscan, List.length_cons, List.length_map, List.length_cons]
      omega
  omega

/-- Units are taken off a source until none is complete. -/
theorem exists_splits (source : String) :
    ∃ units rest, Splits source units rest ∧
      (nextUnit rest = .empty ∨ nextUnit rest = .incomplete) := by
  induction hlength : source.length using Nat.strongRecOn generalizing source with
  | _ length ih =>
    cases hnext : nextUnit source with
    | empty => exact ⟨[], source, .done source, .inl hnext⟩
    | incomplete => exact ⟨[], source, .done source, .inr hnext⟩
    | complete unit rest =>
      have hshorter : rest.length < length := by
        rw [← hlength, ← String.length_toList (s := source)]
        exact length_rest_lt hnext
      obtain ⟨units, final, hsplits, hends⟩ := ih rest.length hshorter rest rfl
      exact ⟨unit :: units, final, .next hnext hsplits, hends⟩

/-- **Taking units off a source loses and doubles nothing.**  There is no unit exactly where there
is no token.  A unit that is taken stands behind text without tokens, starts with a token and has,
with what is left behind it, the tokens of the source; less is left.  Taking units one after the
other comes to an end, with no more units than the source has tokens, and the tokens of the units
and of what is left are those of the source, each where it stands. -/
theorem nextUnit_lossless (source : String) (hsize : byteLength source.toList < 2 ^ 31) :
    (nextUnit source = .empty ↔ Token.scan source.toList = []) ∧
    (∀ unit rest, nextUnit source = .complete unit rest →
      unit ≠ "" ∧ byteLength rest.toList < byteLength source.toList ∧
        ∃ skipped, Parts source.toList skipped unit.toList rest.toList) ∧
    (∃ units rest, Splits source units rest ∧
      (nextUnit rest = .empty ∨ nextUnit rest = .incomplete)) ∧
    ∀ units rest, Splits source units rest →
      units.length ≤ (Token.scan source.toList).length ∧
      (Token.scan source.toList).map Token.kind =
        units.flatMap (fun unit => (Token.scan unit.toList).map Token.kind) ++
          (Token.scan rest.toList).map Token.kind ∧
      ∃ parts, parts.map Prod.snd = units.map String.toList ∧
        Laid source.toList parts rest.toList := by
  refine ⟨nextUnit_eq_empty_iff source, fun unit rest hnext => ?_, exists_splits source,
    fun units rest hsplits => ?_⟩
  · obtain ⟨skipped, hparts⟩ := parts_of_nextUnit (by omega) hnext
    refine ⟨?_, hparts.byteLength_rest, skipped, hparts⟩
    rintro rfl
    exact Nat.lt_irrefl 0 hparts.unit_pos
  · obtain ⟨parts, hunits, hlaid⟩ := laid_of_splits hsplits (by omega)
    have hlength := congrArg List.length hunits
    rw [List.length_map, List.length_map] at hlength
    refine ⟨hlength ▸ hlaid.length_le, ?_, parts, hunits, hlaid⟩
    have hkinds := hlaid.kinds
    rwa [← List.flatMap_map Prod.snd (fun unit => (Token.scan unit).map Token.kind), hunits,
      List.flatMap_map] at hkinds

/-- A literal that a break leaves open, and a brace that closes nothing. -/
theorem nextUnit_lossless_open :
    byteLength " \"a\n;\x7db/*;*/;c".toList < 2 ^ 31 ∧
    Splits " \"a\n;\x7db/*;*/;c" ["\"a\n;", "\x7db/*;*/;", "c"] "" ∧
    ∃ parts, parts.map Prod.snd = ["\"a\n;".toList, "\x7db/*;*/;".toList, "c".toList] ∧
      Laid " \"a\n;\x7db/*;*/;c".toList parts "".toList := by
  have hsize : byteLength " \"a\n;\x7db/*;*/;c".toList < 2 ^ 31 := by decide
  have hfirst : nextUnit " \"a\n;\x7db/*;*/;c" = .complete "\"a\n;" "\x7db/*;*/;c" := by
    decide +kernel
  have hsecond : nextUnit "\x7db/*;*/;c" = .complete "\x7db/*;*/;" "c" := by decide +kernel
  have hthird : nextUnit "c" = .complete "c" "" := by decide +kernel
  have hsplits : Splits " \"a\n;\x7db/*;*/;c" ["\"a\n;", "\x7db/*;*/;", "c"] "" :=
    .next hfirst (.next hsecond (.next hthird (.done "")))
  obtain ⟨-, -, -, hall⟩ := nextUnit_lossless " \"a\n;\x7db/*;*/;c" hsize
  obtain ⟨-, -, hlaid⟩ := hall _ _ hsplits
  exact ⟨hsize, hsplits, hlaid⟩

end ReplEngine.Language
