import ReplEngine.Proofs.Lexing.NextLine
import ReplEngine.Proofs.Splitter.Units
import ReplEngine.Proofs.Syntax.Sizes
set_option autoImplicit false

/-!
# Completing a source

A source that is incomplete becomes complete when the comment that it leaves open is ended, then
every parenthesis and then every brace, with a `;` where no brace is open (`exists_completion`).
A closer does nothing about what was closed too often: of the two counts the walk keeps, the one
that is above zero is brought down to it, and one below zero never holds a unit open.
-/

namespace ReplEngine.Language

open Text

/-! ## How deep the walk can come out -/

/-- The walk ends at a token or goes past it, one bracket deeper at most. -/
theorem findEnd_token {t : Token} (hopen : ∀ body, t.kind ≠ .unclosedComment body) (n : Nesting) :
    (∀ ts, ∃ offset, findEnd n (t :: ts) = .at offset) ∨
      ∃ n' : Nesting, n'.braces ≤ n.braces + 1 ∧ n'.parens ≤ n.parens + 1 ∧
        ∀ ts, ts ≠ [] → findEnd n (t :: ts) = findEnd n' ts := by
  have hpassed (h : ∀ ts, ts ≠ [] → findEnd n (t :: ts) = findEnd n ts) :
      ∃ n' : Nesting, n'.braces ≤ n.braces + 1 ∧ n'.parens ≤ n.parens + 1 ∧
        ∀ ts, ts ≠ [] → findEnd n (t :: ts) = findEnd n' ts := ⟨n, by omega, by omega, h⟩
  obtain ⟨kind, span⟩ := t
  cases kind with
  | unclosedComment body => exact (hopen body rfl).elim
  | unclosedString body =>
    refine .inr (hpassed fun ts hts => ?_)
    cases ts with
    | nil => exact (hts rfl).elim
    | cons u us => rfl
  | symbol sign =>
    cases sign with
    | semicolon =>
      by_cases hends : n.braces ≤ 0 ∧ n.parens ≤ 0
      · exact .inl fun ts => ⟨_, if_pos hends⟩
      · exact .inr (hpassed fun ts _ => if_neg hends)
    | closeBrace =>
      by_cases hends : n.braces - 1 = 0 ∧ n.parens ≤ 0
      · exact .inl fun ts => ⟨_, if_pos hends⟩
      · refine .inr ⟨{ n with braces := n.braces - 1 }, ?_, ?_, fun ts _ => if_neg hends⟩
        · show n.braces - 1 ≤ n.braces + 1
          omega
        · show n.parens ≤ n.parens + 1
          omega
    | openBrace =>
      refine .inr ⟨{ n with braces := n.braces + 1 }, Int.le_refl _, ?_, fun ts _ => rfl⟩
      show n.parens ≤ n.parens + 1
      omega
    | openParen =>
      refine .inr ⟨{ n with parens := n.parens + 1 }, ?_, Int.le_refl _, fun ts _ => rfl⟩
      show n.braces ≤ n.braces + 1
      omega
    | closeParen =>
      refine .inr ⟨{ n with parens := n.parens - 1 }, ?_, ?_, fun ts _ => rfl⟩
      · show n.braces ≤ n.braces + 1
        omega
      · show n.parens - 1 ≤ n.parens + 1
        omega
    | _ => exact .inr (hpassed fun ts _ => rfl)
  | _ => exact .inr (hpassed fun ts _ => rfl)

/-- The walk over tokens that leave no comment open ends among them, or comes out behind them no
deeper than there are tokens. -/
theorem findEnd_through {ts : List Token}
    (hopen : ∀ t ∈ ts, ∀ body, t.kind ≠ .unclosedComment body) (n : Nesting) :
    (∀ more, ∃ offset, findEnd n (ts ++ more) = .at offset) ∨
      ∃ n' : Nesting, n'.braces ≤ n.braces + ts.length ∧ n'.parens ≤ n.parens + ts.length ∧
        ∀ more, more ≠ [] → findEnd n (ts ++ more) = findEnd n' more := by
  induction ts generalizing n with
  | nil => exact .inr ⟨n, by simp, by simp, fun more _ => rfl⟩
  | cons t ts ih =>
    rcases findEnd_token (hopen t List.mem_cons_self) n with hends | ⟨n₁, hbraces, hparens, hstep⟩
    · exact .inl fun more => hends (ts ++ more)
    · rcases ih (fun u hu => hopen u (List.mem_cons_of_mem t hu)) n₁ with hends | hpasses
      · -- the walk cannot end among no tokens
        have hne : ts ≠ [] := by
          rintro rfl
          obtain ⟨offset, hat⟩ := hends []
          cases hat
        refine .inl fun more => ?_
        rw [List.cons_append, hstep _ (by simp [hne])]
        exact hends more
      · obtain ⟨n', hbraces', hparens', hlater⟩ := hpasses
        refine .inr ⟨n', ?_, ?_, fun more hmore => ?_⟩
        · rw [List.length_cons]
          omega
        · rw [List.length_cons]
          omega
        · rw [List.cons_append, hstep _ (by simp [hmore]), hlater more hmore]

/-! ## Closers -/

/-- The tokens of symbols written one behind the other from an offset on. -/
def signsAt (offset : Nat) : List Symbol → List Token
  | [] => []
  | sign :: signs =>
    ⟨.symbol sign, Span.ofRange offset (offset + 1)⟩ :: signsAt (offset + 1) signs

theorem byteLength_signs (signs : List Symbol) :
    byteLength (signs.map Symbol.char) = signs.length := by
  induction signs with
  | nil => rfl
  | cons sign signs ih =>
    have hone : sign.char.utf8Size = 1 := by cases sign <;> rfl
    rw [List.map_cons, byteLength_cons, ih, hone, List.length_cons, Nat.add_comm]

theorem scans_signs {signs : List Symbol} (h : ∀ sign ∈ signs, sign ≠ .slash) (offset : Nat) :
    Scans [] offset (signs.map Symbol.char) (signsAt offset signs) := by
  induction signs generalizing offset with
  | nil => exact .nil offset
  | cons sign signs ih =>
    have hbytes : byteLength [sign.char] = 1 := byteLength_signs [sign]
    have hlater := ih (fun s hs => h s (List.mem_cons_of_mem sign hs)) (offset + 1)
    have hnext := isNext_symbol (h sign List.mem_cons_self) (signs.map Symbol.char ++ [])
    rw [← hbytes] at hlater
    have hall := Scans.token hnext hlater
    rw [hbytes] at hall
    exact hall

/-- What closes a nesting: every parenthesis that is open, then every brace, or a `;` where no
brace is open. -/
def closers (n : Nesting) : List Symbol :=
  List.replicate n.parens.toNat .closeParen ++
    if 0 < n.braces then List.replicate n.braces.toNat .closeBrace else [.semicolon]

theorem closers_ne_slash (n : Nesting) : ∀ sign ∈ closers n, sign ≠ .slash := by
  intro sign hsign
  unfold closers at hsign
  rcases List.mem_append.1 hsign with hsign | hsign
  · rw [List.eq_of_mem_replicate hsign]
    decide
  · split at hsign
    · rw [List.eq_of_mem_replicate hsign]
      decide
    · rw [List.mem_singleton.1 hsign]
      decide

theorem findEnd_closeParens (n : Nesting) (count offset : Nat) (signs : List Symbol) :
    findEnd n (signsAt offset (List.replicate count .closeParen ++ signs)) =
      findEnd { n with parens := n.parens - count } (signsAt (offset + count) signs) := by
  induction count generalizing n offset with
  | zero => simp
  | succ count ih =>
    rw [List.replicate_succ, List.cons_append]
    show findEnd { n with parens := n.parens - 1 } (signsAt (offset + 1) _) = _
    rw [ih]
    have hparens : n.parens - 1 - (count : Int) = n.parens - (count + 1 : Nat) := by omega
    have hoffset : offset + 1 + count = offset + (count + 1) := by omega
    simp only [hparens, hoffset]

theorem findEnd_closeBraces {n : Nesting} {count : Nat} (hbraces : n.braces = count + 1)
    (hparens : n.parens ≤ 0) (offset : Nat) :
    findEnd n (signsAt offset (List.replicate (count + 1) .closeBrace)) =
      .at (wordOf (offset + (count + 1))).toNat := by
  induction count generalizing n offset with
  | zero =>
    have hends : n.braces - 1 = 0 ∧ n.parens ≤ 0 := ⟨by omega, hparens⟩
    exact if_pos hends
  | succ count ih =>
    have hgoes : ¬ (n.braces - 1 = 0 ∧ n.parens ≤ 0) := by omega
    rw [List.replicate_succ]
    refine (if_neg hgoes).trans ?_
    rw [ih (n := { n with braces := n.braces - 1 }) (show n.braces - 1 = _ by omega) hparens]
    have hoffset : offset + 1 + (count + 1) = offset + (count + 1 + 1) := by omega
    rw [hoffset]

/-- The walk ends behind the last of the closers. -/
theorem findEnd_closers (n : Nesting) (offset : Nat) :
    findEnd n (signsAt offset (closers n)) =
      .at (wordOf (offset + (closers n).length)).toNat := by
  unfold closers
  rw [findEnd_closeParens]
  have hparens : n.parens - (n.parens.toNat : Int) ≤ 0 := by omega
  by_cases hbraces : 0 < n.braces
  · obtain ⟨count, hcount⟩ : ∃ count : Nat, n.braces = count + 1 :=
      ⟨n.braces.toNat - 1, by omega⟩
    have hnat : n.braces.toNat = count + 1 := by omega
    rw [if_pos hbraces, hnat,
      findEnd_closeBraces (n := { n with parens := n.parens - n.parens.toNat }) hcount hparens]
    simp [Nat.add_assoc]
  · have hends : n.braces ≤ 0 ∧ n.parens - (n.parens.toNat : Int) ≤ 0 := ⟨by omega, hparens⟩
    rw [if_neg hbraces]
    refine (if_pos hends).trans ?_
    simp [Nat.add_assoc, Span.ofRange]

theorem closers_ne_nil (n : Nesting) : closers n ≠ [] := by
  unfold closers
  split
  · simp
    omega
  · simp

/-! ## The completed source -/

/-- A source that is incomplete has tokens, and the walk over them does not end. -/
theorem of_nextUnit_incomplete {source : List Char} (h : nextUnitChars source = .incomplete) :
    Token.scan source ≠ [] ∧ ∀ offset, findEnd {} (Token.scan source) ≠ .at offset := by
  unfold nextUnitChars at h
  cases htokens : Token.scan source with
  | nil =>
    rw [htokens] at h
    cases h
  | cons first ts =>
    rw [htokens] at h
    refine ⟨List.cons_ne_nil _ _, fun offset hat => ?_⟩
    simp only [hat] at h
    cases h

/-- A source whose tokens the walk stops behind is all one unit. -/
theorem complete_at_end {source : List Char} (hsize : byteLength source < 4294967296)
    (hne : Token.scan source ≠ [])
    (hend : findEnd {} (Token.scan source) = .at (byteLength source)) :
    ∃ unit, nextUnitChars source = .complete unit "" := by
  obtain ⟨first, ts, hfirst⟩ := List.exists_cons_of_ne_nil hne
  obtain ⟨before, c, behind, hsource, -, hstart, -, -⟩ := cut_front hfirst
  have hall : source = before ++ (c :: behind ++ []) := by rw [List.append_nil, hsource]
  refine ⟨String.ofList (c :: behind), ?_⟩
  rw [hfirst] at hend
  rw [hsource] at hend
  rw [hall] at hsize hfirst ⊢
  exact nextUnitChars_eq hsize hfirst hstart (.inl hend)

theorem length_closers {n : Nesting} {depth : Nat} (hbraces : n.braces ≤ depth)
    (hparens : n.parens ≤ depth) : (closers n).length ≤ 2 * depth + 1 := by
  unfold closers
  rw [List.length_append, List.length_replicate]
  split
  · rw [List.length_replicate]
    omega
  · rw [List.length_singleton]
    omega

/-- The tokens of an incomplete source that stand when its last line is ended, and the nesting that
the walk comes out of them at. -/
theorem exists_held {source : List Char} (h : nextUnitChars source = .incomplete) :
    ∃ closer kept n, IsLineEnd closer ∧ kept.length ≤ (Token.scan source).length ∧
      (n.braces ≤ kept.length ∧ n.parens ≤ kept.length) ∧
      (∀ more, more ≠ [] → findEnd {} (kept ++ more) = findEnd n more) ∧
      ∀ c post, isSeparator c = false → Scans (c :: post) 0 (source ++ closer) kept := by
  obtain ⟨hne, hends⟩ := of_nextUnit_incomplete h
  obtain ⟨closer, kept, hcloser, hkept, hopen, hline⟩ := (scan_eq_iff.1 rfl).exists_nextLine
  obtain ⟨more, hmore⟩ : ∃ more, Token.scan source = kept ++ more := by
    rcases hkept with hkept | ⟨body, span, hkept⟩
    · exact ⟨[], hkept.trans (List.append_nil kept).symm⟩
    · exact ⟨_, hkept⟩
  have hpasses : ¬ ∀ more, ∃ offset, findEnd {} (kept ++ more) = .at offset := by
    intro hall
    obtain ⟨offset, hat⟩ := hall more
    rw [← hmore] at hat
    exact hends offset hat
  obtain ⟨n, hbraces, hparens, hwalk⟩ := (findEnd_through hopen {}).resolve_left hpasses
  refine ⟨closer, kept, n, hcloser, ?_, ⟨by simpa using hbraces, by simpa using hparens⟩, hwalk,
    hline⟩
  rw [hmore, List.length_append]
  omega

/-- Behind its last line, when that is ended, an incomplete source is completed by the closers of
the nesting that the walk comes out at. -/
theorem exists_completion {source : List Char} (hsize : byteLength source < 2 ^ 30)
    (h : nextUnitChars source = .incomplete) :
    ∃ closer n unit, IsLineEnd closer ∧
      nextUnitChars (source ++ closer ++ (closers n).map Symbol.char) = .complete unit "" := by
  obtain ⟨closer, kept, n, hcloser, hkept, ⟨hbraces, hparens⟩, hwalk, hline⟩ := exists_held h
  refine ⟨closer, n, ?_⟩
  obtain ⟨sign, signs, hclosers⟩ := List.exists_cons_of_ne_nil (closers_ne_nil n)
  -- the tokens of what is written behind the last line are the closers
  have hsigns := scans_signs (closers_ne_slash n) (0 + byteLength (source ++ closer))
  have hkeeps : Scans ((closers n).map Symbol.char ++ []) 0 (source ++ closer) kept := by
    have hblank : isSeparator sign.char = false := by cases sign <;> rfl
    rw [hclosers]
    exact hline sign.char _ hblank
  have hall := scan_eq_iff.2 (hkeeps.append hsigns)
  rw [Nat.zero_add] at hall
  have htotal : byteLength (source ++ closer ++ (closers n).map Symbol.char) < 4294967296 := by
    have hcount : (Token.scan source).length ≤ byteLength source := (scan_eq_iff.1 rfl).sizes.1
    have hshort := length_closers hbraces hparens
    have hcloserBytes : byteLength closer ≤ 3 := by rcases hcloser with rfl | rfl <;> decide
    rw [byteLength_append, byteLength_append, byteLength_signs]
    omega
  have hnonempty : signsAt (byteLength (source ++ closer)) (closers n) ≠ [] := by
    rw [hclosers]
    exact List.cons_ne_nil _ _
  have hend := findEnd_closers n (byteLength (source ++ closer))
  rw [← byteLength_signs, ← byteLength_append, toNat_wordOf htotal, ← hwalk _ hnonempty,
    ← hall] at hend
  have hsome : Token.scan (source ++ closer ++ (closers n).map Symbol.char) ≠ [] := by
    rw [hall]
    exact List.append_ne_nil_of_right_ne_nil _ hnonempty
  obtain ⟨unit, hunit⟩ := complete_at_end htotal hsome hend
  exact ⟨unit, hcloser, hunit⟩

end ReplEngine.Language
