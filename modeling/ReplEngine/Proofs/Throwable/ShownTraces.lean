import ReplEngine.Proofs.Throwable.Rebuilding
set_option autoImplicit false

/-!
# Traces as they are shown

A printed trace is shown after three replacements in its whole text and a trim at its end.  None of
the replacements makes or hides an occurrence for a later one, so the text is what comes of changing
every line on its own (`indentTabs_lines`).  Where no name, message or frame has a break in it, the
lines are one for the header of each link and one for each of its frames (`shown_trace_lines`).
-/

namespace ReplEngine

open Text

/-! ## Replacing in a text -/

namespace Text

/-- Replaces a pattern where it occurs, from left to right, after so many characters that an
occurrence in front of them has taken. -/
def replaceFrom (pattern new : List Char) : Nat → List Char → List Char
  | _, [] => []
  | taken + 1, _ :: cs => replaceFrom pattern new taken cs
  | 0, c :: cs =>
    if pattern.isPrefixOf (c :: cs) then new ++ replaceFrom pattern new (pattern.length - 1) cs
    else c :: replaceFrom pattern new 0 cs

/-- Replaces a pattern, which has characters in it, where it occurs. -/
def replaceAll (pattern new cs : List Char) : List Char := replaceFrom pattern new 0 cs

/-- A pattern of one character is replaced character by character. -/
theorem replaceAll_char (a b : Char) (cs : List Char) :
    replaceAll [a] [b] cs = cs.map fun c => if c = a then b else c := by
  unfold replaceAll
  induction cs with
  | nil => rfl
  | cons c cs ih =>
    by_cases h : c = a
    · simp [replaceFrom, ih, h]
    · simp [replaceFrom, ih, h, Ne.symm h]

theorem replaceAll_pair (a b : Char) (new cs : List Char) :
    replaceAll [a, b] new (a :: b :: cs) = new ++ replaceAll [a, b] new cs := by
  simp [replaceAll, replaceFrom]

theorem replaceAll_other {a b c : Char} {new cs : List Char}
    (h : ∀ rest, c = a → cs = b :: rest → False) :
    replaceAll [a, b] new (c :: cs) = c :: replaceAll [a, b] new cs := by
  unfold replaceAll
  rw [replaceFrom, if_neg]
  rw [List.isPrefixOf_iff_prefix, List.cons_prefix_cons]
  rintro ⟨rfl, hrest⟩
  obtain ⟨rest, rfl⟩ := hrest
  exact h rest rfl rfl

end Text

namespace Throwable

/-- Making one break of CR LF and of CR: first the pairs are replaced, then every CR that is
left. -/
theorem unifyBreaks_eq (cs : List Char) :
    unifyBreaks cs = replaceAll ['\r'] ['\n'] (replaceAll ['\r', '\n'] ['\n'] cs) := by
  rw [replaceAll_char]
  induction cs using unifyBreaks.induct with
  | case1 => rfl
  | case2 cs ih => rw [unifyBreaks.eq_2, replaceAll_pair, ih]; rfl
  | case3 c cs hne ih =>
    rw [unifyBreaks.eq_3 _ _ hne, replaceAll_other (by simpa using hne), ih, List.map_cons]

theorem indentTabs_eq (cs : List Char) :
    indentTabs cs = replaceAll ['\n', '\t'] ('\n' :: frameIndent) cs := by
  induction cs using indentTabs.induct with
  | case1 => rfl
  | case2 cs ih => rw [indentTabs.eq_2, replaceAll_pair, ih]; rfl
  | case3 c cs hne ih => rw [indentTabs.eq_3 _ _ hne, replaceAll_other (by simpa using hne), ih]

/-! ## Line by line -/

/-- A line with one tab in front shown with the indent of a frame. -/
def indentTab : List Char → List Char
  | '\t' :: cs => frameIndent ++ cs
  | cs => cs

/-- The lines of a text, those behind the first indented. -/
def indentLater : List (List Char) → List (List Char)
  | [] => []
  | first :: later => first :: later.map indentTab

theorem indentTab_eq_self {cs : List Char} (h : cs.head? ≠ some '\t') : indentTab cs = cs := by
  unfold indentTab
  split
  · exact absurd rfl h
  · rfl

theorem intercalate_cons (c : Char) (line : List Char) (lines : List (List Char)) :
    ['\n'].intercalate ((c :: line) :: lines) = c :: ['\n'].intercalate (line :: lines) := by
  cases lines <;> rfl

theorem intercalate_nil_cons (line : List Char) (lines : List (List Char)) :
    ['\n'].intercalate ([] :: line :: lines) = '\n' :: ['\n'].intercalate (line :: lines) := rfl

theorem intercalate_append (front line : List Char) (lines : List (List Char)) :
    ['\n'].intercalate ((front ++ line) :: lines) =
      front ++ ['\n'].intercalate (line :: lines) := by
  induction front with
  | nil => rfl
  | cons c front ih => rw [List.cons_append, intercalate_cons, ih, List.cons_append]

/-- The first line of a text starts as the text does. -/
theorem head?_splitOn {cs line : List Char} {lines : List (List Char)}
    (h : cs.splitOn '\n' = line :: lines) {c : Char} (hc : line.head? = some c) :
    cs.head? = some c := by
  cases cs with
  | nil =>
    cases h
    cases hc
  | cons d cs =>
    rw [List.splitOn_cons_eq_if_modifyHead] at h
    split at h
    · cases h
      cases hc
    · obtain ⟨first, later, hsplit⟩ := List.exists_cons_of_ne_nil (List.splitOn_ne_nil '\n' cs)
      rw [hsplit, List.modifyHead_cons] at h
      cases h
      exact hc

/-- Replacing the tabs behind breaks is indenting every line but the first. -/
theorem indentTabs_lines (cs : List Char) :
    indentTabs cs = ['\n'].intercalate (indentLater (cs.splitOn '\n')) := by
  induction cs using indentTabs.induct with
  | case1 => rfl
  | case2 cs ih =>
    obtain ⟨line, lines, hsplit⟩ := List.exists_cons_of_ne_nil (List.splitOn_ne_nil '\n' cs)
    rw [hsplit, indentLater] at ih
    have hlines : ('\n' :: '\t' :: cs).splitOn '\n' = [] :: ('\t' :: line) :: lines := by
      simp [List.splitOn_cons_eq_if_modifyHead, hsplit]
    rw [indentTabs.eq_2, hlines, indentLater, List.map_cons, indentTab, intercalate_nil_cons,
      intercalate_append, ih]
  | case3 c cs hne ih =>
    obtain ⟨line, lines, hsplit⟩ := List.exists_cons_of_ne_nil (List.splitOn_ne_nil '\n' cs)
    rw [hsplit, indentLater] at ih
    rw [indentTabs.eq_3 _ _ hne, List.splitOn_cons_eq_if_modifyHead, hsplit]
    split
    · rename_i hc
      obtain rfl : c = '\n' := by simpa using hc
      have htab : line.head? ≠ some '\t' := by
        intro htab
        obtain ⟨rest, hrest⟩ := List.head?_eq_some_iff.mp (head?_splitOn hsplit htab)
        exact hne rest rfl hrest
      rw [indentLater, List.map_cons, indentTab_eq_self htab, intercalate_nil_cons, ih]
    · rw [List.modifyHead_cons, indentLater, intercalate_cons, ih]

/-! ## What is not in a shown trace -/

theorem cr_notMem_unifyBreaks (cs : List Char) : '\r' ∉ unifyBreaks cs := by
  induction cs using unifyBreaks.induct with
  | case1 => exact nofun
  | case2 cs ih =>
    rw [unifyBreaks.eq_2, List.mem_cons, not_or]
    exact ⟨by decide, ih⟩
  | case3 c cs hne ih =>
    rw [unifyBreaks.eq_3 _ _ hne, List.mem_cons, not_or]
    refine ⟨?_, ih⟩
    split
    · decide
    · rename_i hc
      exact Ne.symm hc

theorem head?_indentTabs (cs : List Char) : (indentTabs cs).head? = cs.head? := by
  cases cs using indentTabs.fun_cases with
  | case1 => rfl
  | case2 cs => rw [indentTabs.eq_2]; rfl
  | case3 c cs hne => rw [indentTabs.eq_3 _ _ hne]; rfl

theorem cr_notMem_indentTabs {cs : List Char} (h : '\r' ∉ cs) : '\r' ∉ indentTabs cs := by
  induction cs using indentTabs.induct with
  | case1 => exact h
  | case2 cs ih =>
    rw [indentTabs.eq_2]
    simp only [List.mem_cons, not_or] at h
    simp only [List.mem_cons, List.mem_append, not_or]
    exact ⟨by decide, by decide, ih h.2.2⟩
  | case3 c cs hne ih =>
    rw [indentTabs.eq_3 _ _ hne]
    rw [List.mem_cons, not_or] at h ⊢
    exact ⟨h.1, ih h.2⟩

theorem pair_infix_of_append {front cs : List Char} (h : '\n' ∉ front)
    (hpart : ['\n', '\t'] <:+: front ++ cs) : ['\n', '\t'] <:+: cs := by
  induction front with
  | nil => exact hpart
  | cons c front ih =>
    rw [List.mem_cons, not_or] at h
    rcases List.infix_cons_iff.mp hpart with hstarts | hpart
    · exact absurd (List.cons_prefix_cons.mp hstarts).1 h.1
    · exact ih h.2 hpart

/-- No break in front of a tab is left. -/
theorem pair_not_infix_indentTabs (cs : List Char) : ¬ ['\n', '\t'] <:+: indentTabs cs := by
  induction cs using indentTabs.induct with
  | case1 => simp [indentTabs]
  | case2 cs ih =>
    rw [indentTabs.eq_2, List.infix_cons_iff]
    rintro (hstarts | hpart)
    · have htab := (List.cons_prefix_cons.mp (List.cons_prefix_cons.mp hstarts).2).1
      revert htab
      decide
    · exact ih (pair_infix_of_append (by decide) hpart)
  | case3 c cs hne ih =>
    rw [indentTabs.eq_3 _ _ hne, List.infix_cons_iff]
    rintro (hstarts | hpart)
    · obtain ⟨hc, rest, hrest⟩ := List.cons_prefix_cons.mp hstarts
      have hhead := head?_indentTabs cs
      rw [← hrest] at hhead
      obtain ⟨later, hlater⟩ := List.head?_eq_some_iff.mp hhead.symm
      exact hne later hc.symm hlater
    · exact ih hpart

end Throwable

/-! ## Trimming -/

namespace Text

theorem dropEndWhile_isPrefix (p : Char → Bool) (cs : List Char) : dropEndWhile p cs <+: cs := by
  unfold dropEndWhile
  rw [← List.reverse_suffix, List.reverse_reverse]
  exact List.dropWhile_suffix p

theorem dropEndWhile_concat {p : Char → Bool} {c : Char} (h : p c = true) (cs : List Char) :
    dropEndWhile p (cs ++ [c]) = dropEndWhile p cs := by
  unfold dropEndWhile
  rw [List.reverse_append, List.reverse_singleton, List.singleton_append, List.dropWhile_cons,
    if_pos h]

theorem dropEndWhile_eq_self {p : Char → Bool} {cs : List Char}
    (h : ∀ c, cs.getLast? = some c → p c = false) : dropEndWhile p cs = cs := by
  unfold dropEndWhile
  rw [← List.head?_reverse] at h
  cases hreverse : cs.reverse with
  | nil =>
    rw [List.reverse_eq_nil_iff.mp hreverse]
    rfl
  | cons c rest =>
    rw [hreverse] at h
    rw [List.dropWhile_cons, h c rfl]
    exact List.reverse_eq_iff.mpr hreverse.symm |>.trans rfl

end Text

/-! ## The lines of a trace -/

namespace Text

/-- A text of one line. -/
def OneLine (s : String) : Prop := '\r' ∉ s.toList ∧ '\n' ∉ s.toList

instance : DecidablePred OneLine := fun _ => inferInstanceAs (Decidable (_ ∧ _))

theorem OneLine.append {s t : String} (hs : OneLine s) (ht : OneLine t) : OneLine (s ++ t) := by
  unfold OneLine
  simp only [String.toList_append, List.mem_append, not_or]
  exact ⟨⟨hs.1, ht.1⟩, hs.2, ht.2⟩

theorem intercalate_eq_flatMap (separator first : List Char) (later : List (List Char)) :
    separator.intercalate (first :: later) = first ++ later.flatMap (separator ++ ·) := by
  induction later generalizing first with
  | nil => rw [List.intercalate_singleton, List.flatMap_nil, List.append_nil]
  | cons line later ih =>
    rw [List.intercalate_cons_cons, ih line, List.flatMap_cons, List.append_assoc,
      List.append_assoc]

/-- Lines that all end with a break are the lines of the text, with an empty one behind the last
break. -/
theorem splitOn_terminated {lines : List String} (h : ∀ line ∈ lines, OneLine line) :
    (lines.flatMap fun line => line.toList ++ ['\n']).splitOn '\n' =
      lines.map String.toList ++ [[]] := by
  induction lines with
  | nil => rfl
  | cons line lines ih =>
    obtain ⟨hline, hlines⟩ := List.forall_mem_cons.mp h
    rw [List.flatMap_cons, List.append_assoc, List.singleton_append,
      List.splitOn_append_cons_self_of_not_mem hline.2, ih hlines, List.map_cons,
      List.cons_append]

theorem intercalate_concat_nil {lines : List (List Char)} (h : lines ≠ []) :
    ['\n'].intercalate (lines ++ [[]]) = ['\n'].intercalate lines ++ ['\n'] := by
  obtain ⟨first, later, rfl⟩ := List.exists_cons_of_ne_nil h
  rw [List.cons_append, intercalate_eq_flatMap, intercalate_eq_flatMap, List.flatMap_append,
    List.append_assoc]
  rfl

/-- Lines put together do not end with a break where no line behind the first is empty. -/
theorem getLast?_intercalate {first : String} {later : List String}
    (hlines : ∀ line ∈ first :: later, OneLine line) (hlater : ∀ line ∈ later, line ≠ "") :
    (['\n'].intercalate ((first :: later).map String.toList)).getLast? ≠ some '\n' := by
  induction later generalizing first with
  | nil =>
    intro hlast
    have hmem := List.mem_of_getLast? hlast
    rw [List.map_cons, List.map_nil, List.intercalate_singleton] at hmem
    exact (hlines first List.mem_cons_self).2 hmem
  | cons next later ih =>
    obtain ⟨hnext, hlater⟩ := List.forall_mem_cons.mp hlater
    have hrest : ['\n'].intercalate ((next :: later).map String.toList) ≠ [] := by
      rw [List.map_cons, intercalate_eq_flatMap]
      refine List.append_ne_nil_of_left_ne_nil ?_ _
      simpa using hnext
    have hjoin : ['\n'].intercalate ((first :: next :: later).map String.toList) =
        (first.toList ++ ['\n']) ++ ['\n'].intercalate ((next :: later).map String.toList) :=
      List.intercalate_cons_cons
    have hends := ih (List.forall_mem_cons.mp hlines).2 hlater
    rw [hjoin, List.getLast?_append]
    cases hlast : (['\n'].intercalate ((next :: later).map String.toList)).getLast? with
    | none => exact absurd (List.getLast?_eq_none_iff.mp hlast) hrest
    | some c => rwa [hlast] at hends

end Text

namespace Throwable

/-- The lines of the frames of a link, behind an indent. -/
def frameLines (indent : String) (t : Throwable) : List String :=
  t.link.frames.map fun frame => indent ++ "at " ++ frame.render

/-- The lines of one link of a chain: its header behind a lead, then its frames. -/
def linkLines (indent lead : String) (t : Throwable) : List String :=
  (lead ++ t.header) :: t.frameLines indent

/-- The lines of a chain. -/
def chainLines (indent : String) : List Throwable → List String
  | [] => []
  | first :: later =>
    first.linkLines indent "" ++ later.flatMap (linkLines indent "Caused by: ")

/-- Nothing that a trace prints of a link has a break in it. -/
structure IsPlain (t : Throwable) : Prop where
  name : OneLine t.displayName
  message : ∀ text, t.message = some text → OneLine text
  frames : ∀ frame ∈ t.link.frames, OneLine frame.render

theorem IsPlain.header {t : Throwable} (h : t.IsPlain) : OneLine t.header := by
  unfold Throwable.header headerText
  split
  · rename_i text hmessage
    have hcolon : OneLine ": " := by decide
    exact (h.name.append hcolon).append (h.message text hmessage)
  · exact h.name

theorem unifyBreaks_eq_self {cs : List Char} (h : '\r' ∉ cs) : unifyBreaks cs = cs := by
  induction cs using unifyBreaks.induct with
  | case1 => rfl
  | case2 cs ih => exact absurd List.mem_cons_self h
  | case3 c cs hne ih =>
    rw [List.mem_cons, not_or] at h
    rw [unifyBreaks.eq_3 _ _ hne, if_neg (Ne.symm h.1), ih h.2]

theorem linkLines_oneLine {indent lead : String} (hindent : OneLine indent) (hlead : OneLine lead)
    {t : Throwable} (h : t.IsPlain) : ∀ line ∈ t.linkLines indent lead, OneLine line := by
  refine List.forall_mem_cons.mpr ⟨hlead.append h.header, fun line hline => ?_⟩
  obtain ⟨frame, hframe, rfl⟩ := List.mem_map.mp hline
  exact (hindent.append (by decide)).append (h.frames frame hframe)

/-- No line of a plain chain has a break in it. -/
theorem chainLines_oneLine {indent : String} (hindent : OneLine indent) {ts : List Throwable}
    (h : ∀ t ∈ ts, t.IsPlain) : ∀ line ∈ chainLines indent ts, OneLine line := by
  cases ts with
  | nil => exact nofun
  | cons first later =>
    obtain ⟨hfirst, hlater⟩ := List.forall_mem_cons.mp h
    intro line hline
    rcases List.mem_append.mp hline with hline | hline
    · exact linkLines_oneLine hindent (by decide) hfirst line hline
    · obtain ⟨t, ht, hline⟩ := List.mem_flatMap.mp hline
      exact linkLines_oneLine hindent (by decide) (hlater t ht) line hline

/-- No line of a chain behind its first header is empty. -/
theorem ne_empty_of_mem_tail (indent : String) (ts : List Throwable) :
    ∀ line ∈ (chainLines indent ts).tail, line ≠ "" := by
  have hframes (t : Throwable) : ∀ line ∈ t.frameLines indent, line ≠ "" := by
    intro line hline
    obtain ⟨frame, -, rfl⟩ := List.mem_map.mp hline
    simp
  cases ts with
  | nil => exact nofun
  | cons first later =>
    intro line hline
    rcases List.mem_append.mp hline with hline | hline
    · exact hframes first line hline
    · obtain ⟨t, -, hline⟩ := List.mem_flatMap.mp hline
      rcases List.mem_cons.mp hline with rfl | hline
      · simp
      · exact hframes t line hline

/-- The indent of a printed frame is a tab, and that of a shown one stands in its place. -/
theorem indentTab_frameLines (t : Throwable) :
    ((t.frameLines "\t").map String.toList).map indentTab =
      (t.frameLines "|        ").map String.toList := by
  unfold frameLines
  rw [List.map_map, List.map_map, List.map_map]
  refine List.map_congr_left fun frame _ => ?_
  simp only [Function.comp_apply, String.append_assoc, String.toList_append]
  rfl

theorem indentTab_linkLines (t : Throwable) :
    ((t.linkLines "\t" "Caused by: ").map String.toList).map indentTab =
      (t.linkLines "|        " "Caused by: ").map String.toList := by
  have hheader : ("Caused by: " ++ t.header).toList.head? ≠ some '\t' := by
    rw [String.toList_append]
    exact nofun
  unfold linkLines
  rw [List.map_cons, List.map_cons, List.map_cons, indentTab_eq_self hheader,
    indentTab_frameLines]

/-- Indenting the lines of a printed chain gives the lines of the chain as they are shown. -/
theorem indentLater_chainLines (ts : List Throwable) :
    indentLater ((chainLines "\t" ts).map String.toList ++ [[]]) =
      (chainLines "|        " ts).map String.toList ++ [[]] := by
  cases ts with
  | nil => rfl
  | cons first later =>
    have hlater : ((later.flatMap (linkLines "\t" "Caused by: ")).map String.toList).map indentTab =
        (later.flatMap (linkLines "|        " "Caused by: ")).map String.toList := by
      simp only [List.map_flatMap, indentTab_linkLines]
    have hlines (indent : String) : chainLines indent (first :: later) =
        ("" ++ first.header) :: (first.frameLines indent ++
          later.flatMap (linkLines indent "Caused by: ")) := rfl
    rw [hlines, hlines, List.map_cons, List.map_cons, List.cons_append, List.cons_append,
      indentLater, List.map_append, List.map_append, List.map_append, List.map_append,
      indentTab_frameLines, hlater]
    rfl

/-! ## The links of a chain -/

/-- The throwables of links that could not be rebuilt, each with those behind it as its causes. -/
def ofUnknown : List Link → List Throwable
  | [] => []
  | l :: unknown => .described ⟨l, unknown⟩ :: ofUnknown unknown

/-- The throwables of a chain of links, each with those behind it as its causes. -/
def ofLinks : List Link → List Link → List Throwable
  | [], unknown => ofUnknown unknown
  | l :: known, unknown => .live ⟨l, ⟨known, unknown⟩⟩ :: ofLinks known unknown

theorem getElem?_ofUnknown (unknown : List Link) (i : Nat) :
    (ofUnknown unknown)[i]? = (CauseChain.mk [] (unknown.drop i)).first? := by
  induction unknown generalizing i with
  | nil =>
    rw [List.drop_nil]
    rfl
  | cons l unknown ih =>
    cases i with
    | zero => rfl
    | succ i => exact ih i

theorem getElem?_ofLinks (known unknown : List Link) (i : Nat) :
    (ofLinks known unknown)[i]? = ((CauseChain.mk known unknown).drop i).first? := by
  induction known generalizing i with
  | nil =>
    simp only [CauseChain.drop, List.drop_nil, List.length_nil, Nat.sub_zero]
    exact getElem?_ofUnknown unknown i
  | cons l known ih =>
    cases i with
    | zero =>
      simp only [CauseChain.drop, List.drop_zero, Nat.zero_sub]
      rfl
    | succ i =>
      simp only [CauseChain.drop, List.drop_succ_cons, List.length_cons, Nat.reduceSubDiff]
      exact ih i

/-- The throwables of a chain from the one thrown to the innermost cause. -/
def links (t : Throwable) : List Throwable := ofLinks t.chain.live t.chain.described

/-- A chain is listed as the steps from cause to cause go through it. -/
theorem getElem?_links (t : Throwable) (i : Nat) : t.links[i]? = t.causeAt? i := by
  rw [causeAt?_eq]
  exact getElem?_ofLinks _ _ i

/-- What a trace prints of one link are its lines. -/
theorem flatMap_linkLines (lead : String) (t : Throwable) :
    ((t.linkLines "\t" lead).flatMap fun line => line.toList ++ ['\n']) =
      lead.toList ++ (traceLink { t.link with className := t.displayName }).toList := by
  unfold linkLines traceLink frameLines
  rw [List.flatMap_cons, List.flatMap_map]
  simp only [String.toList_append, String.toList_join, List.flatMap_map, List.append_assoc]
  rfl

theorem printedChain_eq (t : Throwable) :
    t.printedChain = t.links.map fun u => { u.link with className := u.displayName } := by
  have hunknown (unknown : List Link) :
      unknown.map (fun l => { l with className := genericName }) =
        (ofUnknown unknown).map fun u => { u.link with className := u.displayName } := by
    induction unknown with
    | nil => rfl
    | cons l unknown ih =>
      rw [ofUnknown, List.map_cons, List.map_cons, ih]
      rfl
  unfold printedChain links
  rw [hunknown]
  generalize t.chain.described = unknown
  induction t.chain.live with
  | nil => rfl
  | cons l known ih =>
    rw [ofLinks, List.map_cons, ← ih]
    rfl

/-- A printed trace is the lines of the chain, each with a break behind it. -/
theorem trace_eq (t : Throwable) :
    t.trace.toList = (chainLines "\t" t.links).flatMap fun line => line.toList ++ ['\n'] := by
  unfold trace
  rw [String.toList_intercalate, printedChain_eq]
  cases t.links with
  | nil => rfl
  | cons first later =>
    rw [List.map_cons, List.map_cons, List.map_cons, intercalate_eq_flatMap, chainLines,
      List.flatMap_append, flatMap_linkLines, List.flatMap_assoc]
    simp only [flatMap_linkLines, List.flatMap_map]
    rfl

/-- The lines of a plain chain are shown as they are, but for the indent of the frames. -/
theorem shownTrace_plain {t : Throwable} (hplain : ∀ u ∈ t.links, u.IsPlain) :
    t.shownTrace.toList =
      ['\n'].intercalate ((chainLines "|        " t.links).map String.toList) := by
  have hprinted := chainLines_oneLine (by decide : OneLine "\t") hplain
  have hcr : '\r' ∉ t.trace.toList := by
    rw [trace_eq]
    intro hmem
    obtain ⟨line, hline, hmem⟩ := List.mem_flatMap.mp hmem
    rcases List.mem_append.mp hmem with hmem | hmem
    · exact (hprinted line hline).1 hmem
    · exact absurd hmem (by decide)
  unfold shownTrace shownTraceChars
  rw [String.toList_ofList, unifyBreaks_eq_self hcr, indentTabs_lines, trace_eq,
    splitOn_terminated hprinted, indentLater_chainLines]
  have hshown := chainLines_oneLine (by decide : OneLine "|        ") hplain
  have hlater := ne_empty_of_mem_tail "|        " t.links
  cases hlines : chainLines "|        " t.links with
  | nil => rfl
  | cons first later =>
    rw [hlines] at hshown hlater
    rw [intercalate_concat_nil (by simp), dropEndWhile_concat rfl]
    refine dropEndWhile_eq_self fun c hc => beq_false_of_ne ?_
    rintro rfl
    exact getLast?_intercalate hshown hlater hc

theorem chainLines_ne_nil (indent : String) (t : Throwable) : chainLines indent t.links ≠ [] := by
  have hfirst := t.getElem?_links 0
  cases hlinks : t.links with
  | nil =>
    rw [hlinks] at hfirst
    exact nomatch hfirst
  | cons first later => exact List.cons_ne_nil _ _

/-- **Shown traces.**  Let `unified` be the printed trace of a throwable with one break in place of
every CR LF, and then of every CR.  What is shown is `unified` with the indent of a frame in place
of every tab behind a break, without the breaks at its end.  It is also what comes of changing
`unified` line by line, one tab in front of every line but the first, and there is neither a CR nor
a tab behind a break in it.  Where nothing that is printed of the links has a break in it, the
lines shown are the header of every link, led by `Caused by: ` behind the first, each header with a
line for every frame under it. -/
theorem shown_trace_lines (t : Throwable) :
    let unified := replaceAll ['\r'] ['\n'] (replaceAll ['\r', '\n'] ['\n'] t.trace.toList)
    t.shownTrace.toList =
      dropEndWhile (· == '\n') (replaceAll ['\n', '\t'] ('\n' :: frameIndent) unified) ∧
    t.shownTrace.toList =
      dropEndWhile (· == '\n') (['\n'].intercalate (indentLater (unified.splitOn '\n'))) ∧
    '\r' ∉ t.shownTrace.toList ∧
    ¬ ['\n', '\t'] <:+: t.shownTrace.toList ∧
    (∀ i, t.links[i]? = t.causeAt? i) ∧
    ((∀ u ∈ t.links, u.IsPlain) →
      t.shownTrace.toList.splitOn '\n' = (chainLines "|        " t.links).map String.toList) := by
  intro unified
  have hshown : t.shownTrace.toList = dropEndWhile (· == '\n') (indentTabs unified) := by
    unfold shownTrace shownTraceChars
    rw [String.toList_ofList, unifyBreaks_eq]
  have hstarts : t.shownTrace.toList <+: indentTabs unified := by
    rw [hshown]
    exact dropEndWhile_isPrefix _ _
  have hcr : '\r' ∉ unified := by
    have hunify := cr_notMem_unifyBreaks t.trace.toList
    rwa [unifyBreaks_eq] at hunify
  refine ⟨hshown.trans (by rw [indentTabs_eq]), hshown.trans (by rw [indentTabs_lines]),
    fun hmem => cr_notMem_indentTabs hcr (hstarts.subset hmem),
    fun hpart => pair_not_infix_indentTabs unified (hpart.trans hstarts.isInfix),
    t.getElem?_links, ?_⟩
  intro hplain
  have hshown := chainLines_oneLine (by decide : OneLine "|        ") hplain
  rw [shownTrace_plain hplain, List.splitOn_intercalate]
  · intro line hline
    obtain ⟨text, htext, rfl⟩ := List.mem_map.mp hline
    exact (hshown text htext).2
  · rw [ne_eq, List.map_eq_nil_iff]
    exact chainLines_ne_nil _ t

/-- An exception whose cause could not be rebuilt. -/
def overUnknown : Throwable :=
  .live ⟨⟨"lang.IllegalStateException", some "outer", [⟨"A", "f", some "#1", some 2⟩]⟩,
    ⟨[], [⟨"app.Missing", some "inner", [⟨"B", "g", none, none⟩]⟩]⟩⟩

/-- Both links are shown with their frames, the cause under the generic name. -/
theorem shown_trace_lines_cause :
    (∀ u ∈ overUnknown.links, u.IsPlain) ∧
    overUnknown.shownTrace.toList.splitOn '\n' =
      ["lang.IllegalStateException: outer", "|        at A.f(#1:2)",
        "Caused by: kiln.EvalException: inner", "|        at B.g(Unknown Source)"].map
          String.toList := by
  have hplain : ∀ u ∈ overUnknown.links, u.IsPlain := by
    refine List.forall_mem_cons.mpr ⟨⟨by decide, ?_, by decide +kernel⟩,
      List.forall_mem_singleton.mpr ⟨by decide, ?_, by decide +kernel⟩⟩
    · rintro text ⟨⟩
      decide
    · rintro text ⟨⟩
      decide
  obtain ⟨-, -, -, -, -, hlines⟩ := shown_trace_lines overUnknown
  exact ⟨hplain, (hlines hplain).trans (by decide +kernel)⟩

end Throwable

end ReplEngine
