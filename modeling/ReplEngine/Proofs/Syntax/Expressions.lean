import ReplEngine.Proofs.Syntax.Cursor
set_option autoImplicit false

/-!
# Expressions are read as the grammar derives them

One pair of lemmas for each reader of expressions.  The sound half follows the reader.  The
complete half follows the derivation: a phrase joined to the left is derived from its end, so
what the induction carries is not that a loop gives the phrase, but that the loop comes to stand
behind the phrase with enough steps left (`Arrives`).
-/

namespace ReplEngine.Language.Reader

open Reading Grammar

/-! ## Lists in parentheses -/

section Lists

variable {α : Type}

/-- One or more phrases with commas between them, through the `)`. -/
def listFrom (phrase : Reader α) (missing : String) : Nat → Reader (List α)
  | 0 => fail missing
  | steps + 1 => do
    let a ← phrase
    if ← eat .closeParen then pure [a]
    else
      expect .comma
      return a :: (← listFrom phrase missing steps)

/-- Phrases behind a `(` already taken, through the `)`. -/
def list (phrase : Reader α) (missing : String) (steps : Nat) : Reader (List α) := do
  if ← eat .closeParen then pure [] else listFrom phrase missing steps

theorem argumentsFrom_eq (expr : Reader Expr) (steps : Nat) :
    argumentsFrom expr steps = listFrom expr "<expression>" steps := by
  induction steps with
  | zero => rfl
  | succ steps ih => rw [argumentsFrom, listFrom, ih]

theorem arguments_eq (expr : Reader Expr) (steps : Nat) :
    arguments expr steps = list expr "<expression>" steps := by
  unfold arguments list
  rw [argumentsFrom_eq]

theorem listFrom_sound {G : List Token → α → Prop} {phrase : Reader α} (h : Sound G phrase)
    (missing : String) (steps : Nat) {c c' : Cursor} {as : List α}
    (hrun : listFrom phrase missing steps c = .ok (as, c')) :
    ∃ part parts us closing, Takes (us ++ [⟨.symbol .closeParen, closing⟩]) c c' ∧
      Listed (part :: parts) us ∧ (∀ p ∈ part :: parts, G p.1 p.2) ∧
      as = (part :: parts).map Prod.snd := by
  induction steps generalizing c as with
  | zero => exact (fail_eq_ok.1 hrun).elim
  | succ steps ih =>
    unfold listFrom at hrun
    obtain ⟨a, c₁, ha, hrun⟩ := bind_eq_ok.1 hrun
    obtain ⟨ts, htakes, hder⟩ := h _ _ _ ha
    obtain ⟨found, c₂, heat, hrun⟩ := bind_eq_ok.1 hrun
    rcases eat_cases heat with ⟨rfl, closing, hclose⟩ | ⟨rfl, rfl, -⟩
    · obtain ⟨rfl, rfl⟩ := pure_eq_ok.1 hrun
      refine ⟨(ts, a), [], ts, closing, htakes.trans hclose, .one ts a, ?_, rfl⟩
      intro p hp
      rw [List.mem_singleton.1 hp]
      exact hder
    · obtain ⟨_, c₃, hcomma, hrun⟩ := bind_eq_ok.1 hrun
      obtain ⟨comma, hcomma⟩ := expect_sound hcomma
      obtain ⟨as', c₄, hlater, hrun⟩ := bind_eq_ok.1 hrun
      obtain ⟨rfl, rfl⟩ := pure_eq_ok.1 hrun
      obtain ⟨part, parts, us, closing, htaken, hlist, hall, rfl⟩ := ih hlater
      refine ⟨(ts, a), part :: parts, ts ++ ⟨.symbol .comma, comma⟩ :: us, closing, ?_,
        .more ts a comma hlist, ?_, rfl⟩
      · have := (htakes.trans hcomma).trans htaken
        simpa using this
      · intro p hp
        rcases List.mem_cons.1 hp with rfl | hp
        · exact hder
        · exact hall p hp

theorem list_sound {G : List Token → α → Prop} {phrase : Reader α} (h : Sound G phrase)
    (missing : String) (steps : Nat) {c c' : Cursor} {as : List α}
    (hrun : list phrase missing steps c = .ok (as, c')) :
    ∃ parts us closing, Takes (us ++ [⟨.symbol .closeParen, closing⟩]) c c' ∧
      Listed parts us ∧ (∀ p ∈ parts, G p.1 p.2) ∧ as = parts.map Prod.snd := by
  unfold list at hrun
  obtain ⟨found, mid, heat, hrun⟩ := bind_eq_ok.1 hrun
  rcases eat_cases heat with ⟨rfl, closing, hclose⟩ | ⟨rfl, rfl, -⟩
  · obtain ⟨rfl, rfl⟩ := pure_eq_ok.1 hrun
    exact ⟨[], [], closing, hclose, .none, by simp, rfl⟩
  · obtain ⟨part, parts, us, closing, hrest⟩ := listFrom_sound h missing steps hrun
    exact ⟨part :: parts, us, closing, hrest⟩

/-- A phrase is read whether a comma or the `)` follows it. -/
def ReadsListed (phrase : Reader α) (ts : List Token) (a : α) : Prop :=
  Reads phrase ts a (NotAhead fun kind => kind ≠ .symbol .comma ∧ kind ≠ .symbol .closeParen)

theorem listFrom_complete {phrase : Reader α} (missing : String) {parts : List (List Token × α)}
    {us : List Token} (hlist : Listed parts us) (hne : parts ≠ [])
    (hread : ∀ p ∈ parts, ReadsListed phrase p.1 p.2) {steps : Nat} (hsteps : us.length < steps)
    (closing : Span) (rest : List Token) (k : UInt32) :
    listFrom phrase missing steps ⟨us ++ ⟨.symbol .closeParen, closing⟩ :: rest, k⟩ =
      .ok (parts.map Prod.snd, ⟨rest, closing.stop⟩) := by
  induction hlist generalizing steps k with
  | none => exact (hne rfl).elim
  | one ts a =>
    obtain ⟨steps, rfl⟩ := Nat.exists_eq_add_of_lt hsteps
    have hphrase : ReadsListed phrase ts a := hread (ts, a) (by simp)
    rw [listFrom, bind_of_ok (hphrase k _ (by simp)), bind_of_ok (eat_of_ahead _ _ _ _)]
    rfl
  | @more ts a comma part parts us _ ih =>
    cases steps with
    | zero => simp at hsteps
    | succ steps =>
      have hphrase : ReadsListed phrase ts a := hread (ts, a) (by simp)
      have hlater : us.length < steps := by
        simp only [List.length_append, List.length_cons] at hsteps
        omega
      rw [listFrom, List.append_assoc, List.cons_append, bind_of_ok (hphrase k _ (by simp)),
        bind_of_ok (eat_of_notAhead _ (by simp)), if_neg Bool.false_ne_true, expect_bind,
        bind_of_ok (ih (by simp) (fun p hp => hread p (List.mem_cons_of_mem _ hp)) hlater _)]
      rfl

theorem list_complete {phrase : Reader α} (missing : String) {parts : List (List Token × α)}
    {us : List Token} (hlist : Listed parts us) (hread : ∀ p ∈ parts, ReadsListed phrase p.1 p.2)
    (hhead : ∀ p ∈ parts, ∃ t ts, p.1 = t :: ts ∧ t.kind ≠ .symbol .closeParen)
    {steps : Nat} (hsteps : us.length < steps) (closing : Span) (rest : List Token)
    (k : UInt32) :
    list phrase missing steps ⟨us ++ ⟨.symbol .closeParen, closing⟩ :: rest, k⟩ =
      .ok (parts.map Prod.snd, ⟨rest, closing.stop⟩) := by
  unfold list
  cases parts with
  | nil =>
    cases hlist
    rw [List.nil_append, bind_of_ok (eat_of_ahead _ _ _ _)]
    rfl
  | cons part parts =>
    obtain ⟨t, ts, hpart, ht⟩ := hhead part (by simp)
    have hcut : ∃ us', us = t :: us' := by
      cases hlist with
      | one ts a => exact ⟨_, hpart⟩
      | more ts a comma h => exact ⟨_, by simp at hpart; rw [hpart]; rfl⟩
    obtain ⟨us', rfl⟩ := hcut
    rw [List.cons_append, bind_of_ok (eat_of_notAhead _ (by simpa using ht)),
      if_neg Bool.false_ne_true]
    exact listFrom_complete missing hlist (by simp) hread hsteps closing rest k

end Lists

/-! ## Literals -/

theorem escaped?_eq_some_iff {c d : Char} : Text.Quoted.escaped? c = some d ↔ Escape c d := by
  constructor
  · intro h
    unfold Text.Quoted.escaped? at h
    split at h
    · subst c; cases h; exact .newline
    split at h
    · subst c; cases h; exact .tab
    split at h
    · subst c; cases h; exact .return
    split at h
    · subst c; cases h; exact .zero
    split at h
    · rename_i hc
      cases h
      rcases hc with rfl | rfl | rfl
      · exact .quote
      · exact .apostrophe
      · exact .backslash
    · cases h
  · intro h
    cases h <;> decide

theorem decode?_eq_some_iff {body cs : List Char} :
    Text.Quoted.decode? body = some cs ↔ Unescapes body cs := by
  constructor
  · intro h
    induction body using Text.Quoted.decode?.induct generalizing cs with
    | case1 => cases h; exact .nil
    | case2 => simp [Text.Quoted.decode?] at h
    | case3 d ds ih =>
      simp only [Text.Quoted.decode?, if_pos, Option.bind_eq_some_iff, Option.map_eq_some_iff] at h
      obtain ⟨e, he, es, hes, rfl⟩ := h
      exact .escape (escaped?_eq_some_iff.1 he) (ih hes)
    | case4 c ds hc ih =>
      rw [Text.Quoted.decode?.eq_def] at h
      simp only [if_neg hc, Option.map_eq_some_iff] at h
      obtain ⟨es, hes, rfl⟩ := h
      exact .plain hc (ih hes)
  · intro h
    induction h with
    | nil => rfl
    | plain hc _ ih =>
      rw [Text.Quoted.decode?.eq_def]
      simp [hc, ih]
    | escape hc _ ih =>
      simp [Text.Quoted.decode?, escaped?_eq_some_iff.2 hc, ih]

/-! ## What is read is derived -/

section Soundness

variable {expr : Reader Expr}

theorem integer_sound {digits : List Char} {s : Span} {c c' : Cursor} {e : Expr}
    (h : integer digits s c = .ok (e, c')) :
    c = c' ∧ Expression .primary [⟨.integer digits, s⟩] e := by
  unfold integer at h
  split at h
  · rename_i hfits
    cases h
    exact ⟨rfl, .int hfits s⟩
  · exact (refuse_eq_ok.1 h).elim

theorem string_sound {body : List Char} {s : Span} {c c' : Cursor} {e : Expr}
    (h : string body s c = .ok (e, c')) :
    c = c' ∧ Expression .primary [⟨.quoted body, s⟩] e := by
  unfold string at h
  cases hcs : Text.Quoted.decode? body with
  | none =>
    rw [hcs] at h
    exact (refuse_eq_ok.1 h).elim
  | some cs =>
    rw [hcs] at h
    cases h
    exact ⟨rfl, .string (decode?_eq_some_iff.1 hcs) s⟩

/-- The arguments of a call, from its `(` on, and where they end. -/
theorem arguments_sound (hexpr : Sound (Expression .sum) expr) {steps : Nat} {s : Span}
    {c₁ c₂ c' : Cursor} {args : List Expr} (hopen : Takes [⟨.symbol .openParen, s⟩] c₁ c₂)
    (hargs : arguments expr steps c₂ = .ok (args, c')) :
    ∃ parts us closing,
      Takes (⟨.symbol .openParen, s⟩ :: us ++ [⟨.symbol .closeParen, closing⟩]) c₁ c' ∧
        c'.lastEnd = closing.stop ∧ Listed parts us ∧
        (∀ p ∈ parts, Expression .sum p.1 p.2) ∧ args = parts.map Prod.snd := by
  rw [arguments_eq] at hargs
  obtain ⟨parts, us, closing, htakes, hlist, hall, rfl⟩ := list_sound hexpr _ _ hargs
  have hend := htakes.lastEnd
  rw [stopAfter_append] at hend
  exact ⟨parts, us, closing, hopen.cons htakes, hend, hlist, hall, rfl⟩

theorem primary_sound (hexpr : Sound (Expression .sum) expr) (steps : Nat) :
    Sound (Expression .primary) (primary expr steps) := by
  intro c e c' h
  obtain ⟨ts, k⟩ := c
  unfold primary at h
  rw [current_bind] at h
  cases ts with
  | nil => exact (fail_eq_ok.1 h).elim
  | cons t ts =>
    obtain ⟨kind, s⟩ := t
    simp only [List.head?_cons] at h
    cases kind with
    | integer digits =>
      obtain ⟨e', mid, he, h⟩ := bind_eq_ok.1 h
      obtain ⟨rfl, hder⟩ := integer_sound he
      cases h
      exact ⟨_, takes_one _ _ _, hder⟩
    | quoted body =>
      obtain ⟨e', mid, he, h⟩ := bind_eq_ok.1 h
      obtain ⟨rfl, hder⟩ := string_sound he
      cases h
      exact ⟨_, takes_one _ _ _, hder⟩
    | identifier name =>
      simp only [advance_bind] at h
      obtain ⟨found, mid, heat, h⟩ := bind_eq_ok.1 h
      rcases eat_cases heat with ⟨rfl, opening, hopen⟩ | ⟨rfl, rfl, -⟩
      · obtain ⟨args, mid', hargs, h⟩ := bind_eq_ok.1 h
        obtain ⟨parts, us, closing, htakes, hend, hlist, hall, rfl⟩ :=
          arguments_sound hexpr hopen hargs
        rw [lastEnd_bind, hend] at h
        cases h
        exact ⟨_, (takes_one _ _ _).cons htakes, .call name s opening closing hlist hall⟩
      · cases h
        exact ⟨_, takes_one _ _ _, .name name s⟩
    | keyword word =>
      cases word with
      | trueWord => cases h; exact ⟨_, takes_one _ _ _, .true s⟩
      | falseWord => cases h; exact ⟨_, takes_one _ _ _, .false s⟩
      | nullWord => cases h; exact ⟨_, takes_one _ _ _, .null s⟩
      | newWord =>
        simp only [advance_bind] at h
        obtain ⟨⟨name, nameSpan⟩, c₁, hname, h⟩ := bind_eq_ok.1 h
        obtain ⟨_, c₂, hopen, h⟩ := bind_eq_ok.1 h
        obtain ⟨opening, hopen⟩ := expect_sound hopen
        obtain ⟨args, c₃, hargs, h⟩ := bind_eq_ok.1 h
        obtain ⟨parts, us, closing, htakes, hend, hlist, hall, rfl⟩ :=
          arguments_sound hexpr hopen hargs
        rw [lastEnd_bind, hend] at h
        cases h
        exact ⟨_, (takes_one _ _ _).cons ((identifier_sound hname).cons htakes),
          .new name s nameSpan opening closing hlist hall⟩
      | _ => exact (refuse_eq_ok.1 h).elim
    | symbol sign =>
      cases sign with
      | openParen =>
        simp only [advance_bind] at h
        obtain ⟨inner, c₁, hinner, h⟩ := bind_eq_ok.1 h
        obtain ⟨us, hus, hder⟩ := hexpr _ _ _ hinner
        obtain ⟨_, c₂, hclose, h⟩ := bind_eq_ok.1 h
        obtain ⟨closing, hclose⟩ := expect_sound hclose
        rw [lastEnd_bind, hclose.lastEnd] at h
        cases h
        exact ⟨_, (takes_one _ _ _).cons (hus.trans hclose), .paren s closing hder⟩
      | _ => exact (refuse_eq_ok.1 h).elim
    | _ => exact (fail_eq_ok.1 h).elim

/-- The receiver has been read already; its tokens are `ts`. -/
theorem methodCalls_sound (hexpr : Sound (Expression .sum) expr) (argumentSteps steps : Nat)
    {ts : List Token} {receiver e : Expr} {c c₁ c' : Cursor} (hreceiver : Takes ts c c₁)
    (hder : Expression .suffixed ts receiver)
    (h : methodCalls expr argumentSteps steps receiver c₁ = .ok (e, c')) :
    ∃ us, Takes us c c' ∧ Expression .suffixed us e := by
  induction steps generalizing ts receiver c₁ with
  | zero => exact (fail_eq_ok.1 h).elim
  | succ steps ih =>
    unfold methodCalls at h
    obtain ⟨found, c₂, heat, h⟩ := bind_eq_ok.1 h
    rcases eat_cases heat with ⟨rfl, dot, hdot⟩ | ⟨rfl, rfl, -⟩
    · obtain ⟨⟨method, nameSpan⟩, c₃, hname, h⟩ := bind_eq_ok.1 h
      obtain ⟨_, c₄, hopen, h⟩ := bind_eq_ok.1 h
      obtain ⟨opening, hopen⟩ := expect_sound hopen
      obtain ⟨args, c₅, hargs, h⟩ := bind_eq_ok.1 h
      obtain ⟨parts, us, closing, htakes, hend, hlist, hall, rfl⟩ :=
        arguments_sound hexpr hopen hargs
      rw [lastEnd_bind, hend] at h
      exact ih (hreceiver.trans (hdot.cons ((identifier_sound hname).cons htakes)))
        (.methodCall method dot nameSpan opening closing hder hlist hall) h
    · cases h
      exact ⟨ts, hreceiver, hder⟩

theorem suffixed_sound (hexpr : Sound (Expression .sum) expr) (steps : Nat) :
    Sound (Expression .suffixed) (suffixed expr steps) := by
  intro c e c' h
  unfold suffixed at h
  obtain ⟨receiver, c₁, hreceiver, h⟩ := bind_eq_ok.1 h
  obtain ⟨ts, htakes, hder⟩ := primary_sound hexpr steps _ _ _ hreceiver
  exact methodCalls_sound hexpr steps steps htakes (.ofPrimary hder) h

theorem signed_sound (hexpr : Sound (Expression .sum) expr) (suffixSteps steps : Nat) :
    Sound (Expression .signed) (signed expr suffixSteps steps) := by
  induction steps with
  | zero =>
    intro c e c' h
    exact (fail_eq_ok.1 h).elim
  | succ steps ih =>
    intro c e c' h
    obtain ⟨ts, k⟩ := c
    -- without a sign the operand is read as it stands
    have hplain (h : suffixed expr suffixSteps ⟨ts, k⟩ = .ok (e, c')) :
        ∃ us, Takes us ⟨ts, k⟩ c' ∧ Expression .signed us e := by
      obtain ⟨us, htakes, hder⟩ := suffixed_sound hexpr suffixSteps _ _ _ h
      exact ⟨us, htakes, .ofSuffixed hder⟩
    unfold signed at h
    rw [current_bind] at h
    cases ts with
    | nil => exact hplain h
    | cons t ts =>
      obtain ⟨kind, minus⟩ := t
      cases kind with
      | symbol sign =>
        cases sign with
        | minus =>
          simp only [List.head?_cons, advance_bind, current_bind] at h
          have hnegate (h : (do
              let operand ← signed expr suffixSteps steps
              pure (Expr.neg operand (minus.merge operand.span)) : Reader Expr)
                ⟨ts, minus.stop⟩ = .ok (e, c')) :
              ∃ us, Takes us ⟨⟨.symbol .minus, minus⟩ :: ts, k⟩ c' ∧
                Expression .signed us e := by
            obtain ⟨operand, c₁, hoperand, h⟩ := bind_eq_ok.1 h
            obtain ⟨us, htakes, hder⟩ := ih _ _ _ hoperand
            cases h
            exact ⟨_, (takes_one _ _ _).cons htakes, .negate minus hder⟩
          cases ts with
          | nil => exact hnegate h
          | cons t ts =>
            obtain ⟨kind, s⟩ := t
            cases kind with
            | integer digits =>
              simp only [List.head?_cons] at h
              split at h
              · subst digits
                cases h
                exact ⟨_, (takes_one _ _ _).cons (takes_one _ _ _), .least minus s⟩
              · exact hnegate h
            | _ => exact hnegate h
        | _ => exact hplain h
      | _ => exact hplain h

/-- The operators of a level, as the reader of that level admits them. -/
def Admits (l : Level) (op? : TokenKind → Option BinaryOp) : Prop :=
  ∀ kind op, op? kind = some op ↔ kind = .symbol (sign op) ∧ level op = l

theorem productOp?_admits : Admits .product productOp? := by
  intro kind op
  constructor
  · intro h
    unfold productOp? at h
    split at h <;> cases h <;> exact ⟨rfl, rfl⟩
  · rintro ⟨rfl, h⟩
    cases op <;> first | rfl | cases h

theorem sumOp?_admits : Admits .sum sumOp? := by
  intro kind op
  constructor
  · intro h
    unfold sumOp? at h
    split at h <;> cases h <;> exact ⟨rfl, rfl⟩
  · rintro ⟨rfl, h⟩
    cases op <;> first | rfl | cases h

/-- The left operand has been read already; its tokens are `ts`. -/
theorem joinLeft_sound {l m : Level} {operand : Reader Expr}
    (hoperand : Sound (Expression m) operand) {op? : TokenKind → Option BinaryOp}
    (hop : Admits l op?) (hm : ∀ op, level op = l → operandLevel op = m) (steps : Nat)
    {ts : List Token} {lhs e : Expr} {c c₁ c' : Cursor} (hlhs : Takes ts c c₁) (hder : Expression l ts lhs)
    (h : joinLeft operand op? steps lhs c₁ = .ok (e, c')) :
    ∃ us, Takes us c c' ∧ Expression l us e := by
  induction steps generalizing ts lhs c₁ with
  | zero => exact (fail_eq_ok.1 h).elim
  | succ steps ih =>
    obtain ⟨us, k⟩ := c₁
    unfold joinLeft at h
    rw [kindAt_bind] at h
    cases hfound : (us[0]?.map Token.kind).bind op? with
    | none =>
      simp only [hfound] at h
      cases h
      exact ⟨ts, hlhs, hder⟩
    | some op =>
      simp only [hfound] at h
      cases us with
      | nil => cases hfound
      | cons t us =>
        obtain ⟨kind, s⟩ := t
        obtain ⟨rfl, hlevel⟩ := (hop kind op).1 hfound
        rw [advance_bind] at h
        obtain ⟨rhs, c₂, hrhs, h⟩ := bind_eq_ok.1 h
        obtain ⟨vs, htakes, hright⟩ := hoperand _ _ _ hrhs
        rw [← hm op hlevel] at hright
        exact ih (hlhs.trans ((takes_one _ _ _).cons htakes)) (.binary op hlevel s hder hright) h

theorem leftAssociative_sound {l m : Level} {operand : Reader Expr}
    (hoperand : Sound (Expression m) operand) {op? : TokenKind → Option BinaryOp}
    (hop : Admits l op?) (hm : ∀ op, level op = l → operandLevel op = m)
    (hlift : ∀ ts e, Expression m ts e → Expression l ts e) (steps : Nat) :
    Sound (Expression l) (leftAssociative operand op? steps) := by
  intro c e c' h
  unfold leftAssociative at h
  obtain ⟨lhs, c₁, hlhs, h⟩ := bind_eq_ok.1 h
  obtain ⟨ts, htakes, hder⟩ := hoperand _ _ _ hlhs
  exact joinLeft_sound hoperand hop hm steps htakes (hlift _ _ hder) h

theorem operandLevel_of_product (op : BinaryOp) (h : level op = .product) :
    operandLevel op = .signed := by
  cases op <;> first | rfl | cases h

theorem operandLevel_of_sum (op : BinaryOp) (h : level op = .sum) :
    operandLevel op = .product := by
  cases op <;> first | rfl | cases h

theorem expression_sound (steps : Nat) : Sound (Expression .sum) (expression steps) := by
  induction steps with
  | zero =>
    intro c e c' h
    exact (fail_eq_ok.1 h).elim
  | succ steps ih =>
    have hsigned := signed_sound ih (steps + 1) (steps + 1)
    have hproduct := leftAssociative_sound hsigned productOp?_admits operandLevel_of_product
      (fun _ _ => .ofSigned) (steps + 1)
    exact leftAssociative_sound hproduct sumOp?_admits operandLevel_of_sum
      (fun _ _ => .ofProduct) (steps + 1)

end Soundness

/-! ## What expressions start with -/

/-- The kinds of token that an expression of the level starts with. -/
def Starts (l : Level) : TokenKind → Prop
  | .integer digits => decimalValue digits ≤ 2147483647
  | .quoted _ | .identifier _ => True
  | .keyword word => word = .trueWord ∨ word = .falseWord ∨ word = .nullWord ∨ word = .newWord
  | .symbol sign => sign = .openParen ∨ (sign = .minus ∧ l ≠ .suffixed ∧ l ≠ .primary)
  | _ => False

theorem Starts.loosen {l m : Level}
    (h : l = .primary ∨ l = .suffixed ∨ m ≠ .suffixed ∧ m ≠ .primary) {kind : TokenKind} (hs : Starts l kind) : Starts m kind := by
  cases kind with
  | symbol sign =>
    rcases hs with hs | ⟨hs, hl⟩
    · exact .inl hs
    · rcases h with h | h | h
      · exact (hl.2 h).elim
      · exact (hl.1 h).elim
      · exact .inr ⟨hs, h⟩
  | _ => exact hs

theorem starts_of_expression {l : Level} {ts : List Token} {e : Expr} (h : Expression l ts e) :
    ∃ t us, ts = t :: us ∧ Starts l t.kind := by
  induction h with
  | ofProduct _ ih | ofSigned _ ih | ofSuffixed _ ih =>
    obtain ⟨t, us, rfl, hs⟩ := ih
    exact ⟨t, us, rfl, hs.loosen (by simp)⟩
  | ofPrimary _ ih =>
    obtain ⟨t, us, rfl, hs⟩ := ih
    exact ⟨t, us, rfl, hs.loosen (by simp)⟩
  | binary _ _ _ _ _ ih | methodCall _ _ _ _ _ _ _ _ ih =>
    obtain ⟨t, us, rfl, hs⟩ := ih
    exact ⟨t, _, rfl, hs⟩
  | int hfits s => exact ⟨_, _, rfl, hfits⟩
  | string => exact ⟨_, _, rfl, trivial⟩
  | _ => exact ⟨_, _, rfl, by simp [Starts]⟩

/-! ## What can follow an expression -/

/-- The kinds of token that make more of an expression of the level. -/
def Extends (l : Level) : TokenKind → Prop
  | .symbol .openParen => True
  | .symbol .dot => l ≠ .primary
  | .symbol .star | .symbol .slash | .symbol .percent => l = .product ∨ l = .sum
  | .symbol .plus | .symbol .minus => l = .sum
  | _ => False

/-- An operator extends the phrases it joins its operands to. -/
theorem extends_sign (op : BinaryOp) : Extends (level op) (.symbol (sign op)) := by
  cases op <;> simp [level, sign, Extends]

theorem not_extends_sign (op : BinaryOp) : ¬ Extends (operandLevel op) (.symbol (sign op)) := by
  cases op <;> simp [operandLevel, sign, Extends]

/-- What extends a tighter phrase extends a looser one. -/
theorem Extends.loosen {kind : TokenKind} :
    (Extends .primary kind → Extends .suffixed kind) ∧
      (Extends .suffixed kind → Extends .signed kind) ∧
      (Extends .signed kind → Extends .product kind) ∧
      (Extends .product kind → Extends .sum kind) := by
  unfold Extends
  split <;> simp

theorem length_le_of_listed {α : Type} {parts : List (List Token × α)} {us : List Token}
    (h : Listed parts us) : ∀ p ∈ parts, p.1.length ≤ us.length := by
  induction h with
  | none => simp
  | one ts a => simp
  | more ts a comma _ ih =>
    intro p hp
    rw [List.length_append, List.length_cons]
    rcases List.mem_cons.1 hp with rfl | hp
    · exact Nat.le_add_right _ _
    · have := ih p hp
      omega

/-! ## What is derived is read -/

section Completeness

/-- In front of tokens that do not extend the level, the reader comes to stand behind `ts` in its
loop, with `e` read and no more steps gone than `ts` has tokens. -/
def Arrives (p : Reader Expr) (loop : Nat → Expr → Reader Expr) (steps : Nat) (l : Level)
    (ts : List Token) (e : Expr) : Prop :=
  ∀ k rest, NotAhead (Extends l) rest → ∃ left, steps ≤ left + ts.length ∧
    p ⟨ts ++ rest, k⟩ = loop left e ⟨rest, stopAfter k ts⟩

/-- The reader of operands with their signs that `expression` uses. -/
abbrev operand (steps : Nat) : Reader Expr := signed (expression steps) (steps + 1) (steps + 1)

/-- The reader of products that `expression` uses. -/
abbrev product (steps : Nat) : Reader Expr :=
  leftAssociative (operand steps) productOp? (steps + 1)

/-- What completeness says of a phrase, level by level: levels with a loop arrive in it. -/
def Completes : Level → List Token → Expr → Prop
  | .primary, ts, e => ∀ steps, ts.length ≤ steps →
    Reads (primary (expression steps) (steps + 1)) ts e (NotAhead (Extends .primary))
  | .suffixed, ts, e => ∀ steps, ts.length ≤ steps →
    Arrives (suffixed (expression steps) (steps + 1))
      (methodCalls (expression steps) (steps + 1)) (steps + 1) .primary ts e
  | .signed, ts, e => ∀ steps, ts.length ≤ steps → ∀ signs, ts.length ≤ signs →
    Reads (signed (expression steps) (steps + 1) (signs + 1)) ts e (NotAhead (Extends .signed))
  | .product, ts, e => ∀ steps, ts.length ≤ steps →
    Arrives (product steps) (joinLeft (operand steps) productOp?) (steps + 1) .signed ts e
  | .sum, ts, e => ∀ steps, ts.length ≤ steps →
    Arrives (expression (steps + 1)) (joinLeft (product steps) sumOp?) (steps + 1) .product ts e

/-- A loop that has arrived stops where no operator follows. -/
theorem Arrives.reads {l m : Level} {p operand : Reader Expr}
    {op? : TokenKind → Option BinaryOp} (hop : Admits l op?)
    (hm : ∀ kind, Extends m kind → Extends l kind) {steps : Nat} {ts : List Token} {e : Expr}
    (h : Arrives p (joinLeft operand op?) (steps + 1) m ts e) (hsteps : ts.length ≤ steps) :
    Reads p ts e (NotAhead (Extends l)) := by
  intro k rest hrest
  obtain ⟨left, hleft, harrive⟩ := h k rest (hrest.mono hm)
  obtain ⟨left, rfl⟩ : ∃ n, left = n + 1 := ⟨left - 1, by omega⟩
  have hnone : (rest[0]?.map Token.kind).bind op? = none := by
    cases rest with
    | nil => rfl
    | cons t rest =>
      cases hfound : op? t.kind with
      | none => exact hfound
      | some op =>
        obtain ⟨hkind, hlevel⟩ := (hop _ _).1 hfound
        refine ((notAhead_cons _ _ _).1 hrest ?_).elim
        rw [hkind, ← hlevel]
        exact extends_sign op
  rw [harrive, joinLeft, kindAt_bind, hnone]
  rfl

theorem Completes.reads_sum {ts : List Token} {e : Expr} (h : Completes .sum ts e) {steps : Nat}
    (hsteps : ts.length < steps) : Reads (expression steps) ts e (NotAhead (Extends .sum)) := by
  obtain ⟨steps, rfl⟩ : ∃ n, steps = n + 1 := ⟨steps - 1, by omega⟩
  exact (h steps (by omega)).reads sumOp?_admits (fun _ => Extends.loosen.2.2.2) (by omega)

theorem Completes.reads_product {ts : List Token} {e : Expr} (h : Completes .product ts e)
    {steps : Nat} (hsteps : ts.length ≤ steps) :
    Reads (product steps) ts e (NotAhead (Extends .product)) :=
  (h steps hsteps).reads productOp?_admits (fun _ => Extends.loosen.2.2.1) hsteps

theorem completes_ofProduct {ts : List Token} {e : Expr} (h : Completes .product ts e) :
    Completes .sum ts e := by
  intro steps hsteps k rest hrest
  refine ⟨steps + 1, by omega, ?_⟩
  exact bind_of_ok (h.reads_product hsteps k rest hrest) _

theorem completes_ofSigned {ts : List Token} {e : Expr} (h : Completes .signed ts e) :
    Completes .product ts e := by
  intro steps hsteps k rest hrest
  refine ⟨steps + 1, by omega, ?_⟩
  exact bind_of_ok (h steps hsteps steps hsteps k rest hrest) _

/-- One more operand: the loop has arrived behind the left one and goes on behind the right
one. -/
theorem Arrives.binary {l m : Level} {p operand : Reader Expr}
    {op? : TokenKind → Option BinaryOp} (hop : Admits l op?) {steps : Nat} {ts us : List Token}
    {lhs rhs : Expr} (h : Arrives p (joinLeft operand op?) (steps + 1) m ts lhs) (op : BinaryOp)
    (hlevel : level op = l) (hm : operandLevel op = m)
    (hright : Reads operand us rhs (NotAhead (Extends m))) (s : Span)
    (hsteps : ts.length ≤ steps) :
    Arrives p (joinLeft operand op?) (steps + 1) m (ts ++ ⟨.symbol (sign op), s⟩ :: us)
      (.binary op lhs rhs (lhs.span.merge rhs.span)) := by
  intro k rest hrest
  have hsign : NotAhead (Extends m) (⟨.symbol (sign op), s⟩ :: us ++ rest) := by
    rw [← hm]
    exact (notAhead_cons _ _ _).2 (not_extends_sign op)
  obtain ⟨left, hleft, harrive⟩ := h k _ hsign
  obtain ⟨left, rfl⟩ : ∃ n, left = n + 1 := ⟨left - 1, by omega⟩
  refine ⟨left, ?_, ?_⟩
  · simp only [List.length_append, List.length_cons]
    omega
  · have hfound : op? (.symbol (sign op)) = some op := (hop _ _).2 ⟨rfl, hlevel⟩
    rw [List.append_assoc, harrive, joinLeft, kindAt_bind]
    simp only [List.cons_append, List.getElem?_cons_zero, Option.map_some, Option.bind_some,
      hfound, advance_bind]
    rw [bind_of_ok (hright s.stop rest hrest), stopAfter_append, stopAfter_cons]

theorem completes_binary {op : BinaryOp} {l : Level} (hop : level op = l) (s : Span)
    {ts us : List Token} {lhs rhs : Expr} (hl : Completes l ts lhs)
    (hr : Completes (operandLevel op) us rhs) :
    Completes l (ts ++ ⟨.symbol (sign op), s⟩ :: us)
      (.binary op lhs rhs (lhs.span.merge rhs.span)) := by
  have hlengths (steps : Nat) (h : (ts ++ ⟨.symbol (sign op), s⟩ :: us).length ≤ steps) :
      ts.length ≤ steps ∧ us.length ≤ steps := by
    rw [List.length_append, List.length_cons] at h
    omega
  cases l with
  | sum =>
    have hm := operandLevel_of_sum op hop
    rw [hm] at hr
    intro steps hsteps
    obtain ⟨hts, hus⟩ := hlengths steps hsteps
    exact (hl steps hts).binary sumOp?_admits op hop hm (hr.reads_product hus) s hts
  | product =>
    have hm := operandLevel_of_product op hop
    rw [hm] at hr
    intro steps hsteps
    obtain ⟨hts, hus⟩ := hlengths steps hsteps
    exact (hl steps hts).binary productOp?_admits op hop hm (hr steps hus steps hus) s hts
  | _ => cases op <;> cases hop

theorem completes_ofPrimary {ts : List Token} {e : Expr} (h : Completes .primary ts e) :
    Completes .suffixed ts e := by
  intro steps hsteps k rest hrest
  refine ⟨steps + 1, by omega, ?_⟩
  exact bind_of_ok (h steps hsteps k rest hrest) _

/-- Arguments that are read one by one are read as a list. -/
theorem arguments_complete {parts : List (List Token × Expr)} {us : List Token}
    (hlist : Listed parts us) (hargs : ∀ p ∈ parts, Expression .sum p.1 p.2)
    (hread : ∀ p ∈ parts, Completes .sum p.1 p.2) {steps : Nat} (hsteps : us.length < steps)
    (closing : Span) (rest : List Token) (k : UInt32) :
    arguments (expression steps) (steps + 1) ⟨us ++ ⟨.symbol .closeParen, closing⟩ :: rest, k⟩ =
      .ok (parts.map Prod.snd, ⟨rest, closing.stop⟩) := by
  rw [arguments_eq]
  refine list_complete _ hlist ?_ ?_ (by omega) closing rest k
  · intro p hp k rest hrest
    have hlength := length_le_of_listed hlist p hp
    refine (hread p hp).reads_sum (by omega) k rest (hrest.mono ?_)
    intro kind hkind
    constructor
    · rintro rfl
      exact hkind
    · rintro rfl
      exact hkind
  · intro p hp
    obtain ⟨t, ts, hts, hstart⟩ := starts_of_expression (hargs p hp)
    refine ⟨t, ts, hts, ?_⟩
    intro hkind
    rw [hkind] at hstart
    simp [Starts] at hstart

theorem completes_methodCall (method : String) (dot name opening closing : Span)
    {ts us : List Token} {receiver : Expr} {parts : List (List Token × Expr)}
    (hr : Completes .suffixed ts receiver) (hlist : Listed parts us)
    (hargs : ∀ p ∈ parts, Expression .sum p.1 p.2)
    (hread : ∀ p ∈ parts, Completes .sum p.1 p.2) :
    Completes .suffixed
      (ts ++ (⟨.symbol .dot, dot⟩ :: ⟨.identifier method, name⟩ ::
        ⟨.symbol .openParen, opening⟩ :: us ++ [⟨.symbol .closeParen, closing⟩]))
      (.methodCall receiver method (parts.map Prod.snd) ⟨receiver.span.start, closing.stop⟩) := by
  intro steps hsteps k rest hrest
  simp only [List.length_append, List.length_cons, List.length_nil] at hsteps
  obtain ⟨left, hleft, harrive⟩ := hr steps (by omega) k _
    ((notAhead_cons _ ⟨.symbol .dot, dot⟩ _).2 (by simp [Extends]))
  obtain ⟨left, rfl⟩ : ∃ n, left = n + 1 := ⟨left - 1, by omega⟩
  refine ⟨left, ?_, ?_⟩
  · simp only [List.length_append, List.length_cons]
    omega
  · simp only [List.append_assoc, List.cons_append, List.nil_append]
    rw [harrive, methodCalls, bind_of_ok (eat_of_ahead _ _ _ _), if_pos rfl, identifier_bind]
    dsimp only
    rw [expect_bind, bind_of_ok (arguments_complete hlist hargs hread (by omega) _ _ _),
      lastEnd_bind]
    simp

theorem completes_ofSuffixed {ts : List Token} {e : Expr} (hder : Expression .suffixed ts e)
    (h : Completes .suffixed ts e) : Completes .signed ts e := by
  intro steps hsteps signs _ k rest hrest
  obtain ⟨left, hleft, harrive⟩ := h steps hsteps k rest (hrest.mono fun _ => by
    exact fun h => Extends.loosen.2.1 (Extends.loosen.1 h))
  obtain ⟨left, rfl⟩ : ∃ n, left = n + 1 := ⟨left - 1, by omega⟩
  have hstop : suffixed (expression steps) (steps + 1) ⟨ts ++ rest, k⟩ =
      .ok (e, ⟨rest, stopAfter k ts⟩) := by
    rw [harrive, methodCalls, bind_of_ok (eat_of_notAhead _ (hrest.mono ?_))]
    · rfl
    · rintro _ rfl
      simp [Extends]
  obtain ⟨⟨kind, s⟩, us, rfl, hstart⟩ := starts_of_expression hder
  rw [signed, current_bind]
  cases kind with
  | symbol sign =>
    cases sign with
    | minus => simp [Starts] at hstart
    | _ => exact hstop
  | _ => exact hstop

theorem completes_negate (minus : Span) {ts : List Token} {e : Expr}
    (hder : Expression .signed ts e) (h : Completes .signed ts e) :
    Completes .signed (⟨.symbol .minus, minus⟩ :: ts) (.neg e (minus.merge e.span)) := by
  intro steps hsteps signs hsigns k rest hrest
  rw [List.length_cons] at hsteps hsigns
  obtain ⟨signs, rfl⟩ : ∃ n, signs = n + 1 := ⟨signs - 1, by omega⟩
  have hoperand := h steps (by omega) signs (by omega) minus.stop rest hrest
  have hnegate : (do
      let operand ← signed (expression steps) (steps + 1) (signs + 1)
      pure (Expr.neg operand (minus.merge operand.span)) : Reader Expr)
        ⟨ts ++ rest, minus.stop⟩ =
      .ok (.neg e (minus.merge e.span), ⟨rest, stopAfter minus.stop ts⟩) := by
    rw [bind_of_ok hoperand]
    rfl
  rw [signed, List.cons_append, current_bind]
  simp only [List.head?_cons, advance_bind, current_bind]
  obtain ⟨⟨kind, s⟩, us, rfl, hstart⟩ := starts_of_expression hder
  cases kind with
  | integer digits =>
    have hne : digits ≠ leastDigits := by
      rintro rfl
      have hlarge : ¬ decimalValue leastDigits ≤ 2147483647 := by decide
      exact hlarge hstart
    simp only [List.cons_append, List.head?_cons, if_neg hne]
    exact hnegate
  | _ => exact hnegate

theorem completes_least (minus s : Span) :
    Completes .signed [⟨.symbol .minus, minus⟩, ⟨.integer "2147483648".toList, s⟩]
      (.int (-2147483648) (minus.merge s)) := by
  intro steps _ signs _ k rest _
  rfl

theorem completes_int {digits : List Char} (hfits : decimalValue digits ≤ 2147483647) (s : Span) :
    Completes .primary [⟨.integer digits, s⟩] (.int (Int32.ofNat (decimalValue digits)) s) := by
  intro steps _ k rest _
  have hliteral (c : Cursor) : integer digits s c =
      .ok (.int (Int32.ofNat (decimalValue digits)) s, c) := by
    unfold integer
    rw [if_pos hfits]
    rfl
  rw [primary, List.singleton_append, current_bind]
  exact bind_of_ok (hliteral _) _

theorem completes_string {body cs : List Char} (h : Unescapes body cs) (s : Span) :
    Completes .primary [⟨.quoted body, s⟩] (.string (String.ofList cs) s) := by
  intro steps _ k rest _
  have hliteral (c : Cursor) : string body s c = .ok (.string (String.ofList cs) s, c) := by
    unfold string
    rw [decode?_eq_some_iff.2 h]
    rfl
  rw [primary, List.singleton_append, current_bind]
  exact bind_of_ok (hliteral _) _

theorem completes_name (name : String) (s : Span) :
    Completes .primary [⟨.identifier name, s⟩] (.name name s) := by
  intro steps _ k rest hrest
  rw [primary, List.singleton_append, current_bind]
  simp only [List.head?_cons, advance_bind]
  rw [bind_of_ok (eat_of_notAhead _ (hrest.mono ?_))]
  · rfl
  · rintro _ rfl
    simp [Extends]

theorem completes_call (f : String) (name opening closing : Span) {us : List Token}
    {parts : List (List Token × Expr)} (hlist : Listed parts us)
    (hargs : ∀ p ∈ parts, Expression .sum p.1 p.2)
    (hread : ∀ p ∈ parts, Completes .sum p.1 p.2) :
    Completes .primary
      (⟨.identifier f, name⟩ :: ⟨.symbol .openParen, opening⟩ :: us ++
        [⟨.symbol .closeParen, closing⟩])
      (.call f (parts.map Prod.snd) ⟨name.start, closing.stop⟩) := by
  intro steps hsteps k rest _
  simp only [List.length_append, List.length_cons, List.length_nil] at hsteps
  rw [primary, current_bind]
  simp only [List.append_assoc, List.cons_append, List.nil_append, List.head?_cons, advance_bind]
  rw [bind_of_ok (eat_of_ahead _ _ _ _), if_pos rfl,
    bind_of_ok (arguments_complete hlist hargs hread (by omega) _ _ _), lastEnd_bind]
  simp only [stopAfter_cons, stopAfter_append, stopAfter_nil]
  rfl

theorem completes_new (className : String) (word name opening closing : Span) {us : List Token}
    {parts : List (List Token × Expr)} (hlist : Listed parts us)
    (hargs : ∀ p ∈ parts, Expression .sum p.1 p.2)
    (hread : ∀ p ∈ parts, Completes .sum p.1 p.2) :
    Completes .primary
      (⟨.keyword .newWord, word⟩ :: ⟨.identifier className, name⟩ ::
        ⟨.symbol .openParen, opening⟩ :: us ++ [⟨.symbol .closeParen, closing⟩])
      (.new className (parts.map Prod.snd) ⟨word.start, closing.stop⟩) := by
  intro steps hsteps k rest _
  simp only [List.length_append, List.length_cons, List.length_nil] at hsteps
  rw [primary, current_bind]
  simp only [List.append_assoc, List.cons_append, List.nil_append, List.head?_cons, advance_bind]
  rw [identifier_bind, expect_bind,
    bind_of_ok (arguments_complete hlist hargs hread (by omega) _ _ _), lastEnd_bind]
  simp only [stopAfter_cons, stopAfter_append, stopAfter_nil]
  rfl

theorem completes_paren (opening closing : Span) {ts : List Token} {e : Expr}
    (h : Completes .sum ts e) :
    Completes .primary
      (⟨.symbol .openParen, opening⟩ :: ts ++ [⟨.symbol .closeParen, closing⟩])
      (e.withSpan ⟨opening.start, closing.stop⟩) := by
  intro steps hsteps k rest _
  simp only [List.length_append, List.length_cons, List.length_nil] at hsteps
  rw [primary, current_bind]
  simp only [List.append_assoc, List.cons_append, List.nil_append, List.head?_cons, advance_bind]
  rw [bind_of_ok (h.reads_sum (by omega) _ _ ((notAhead_cons _ _ _).2 (by simp [Extends]))),
    expect_bind, lastEnd_bind]
  simp only [stopAfter_cons, stopAfter_append, stopAfter_nil]
  rfl

theorem completes_of_expression {l : Level} {ts : List Token} {e : Expr}
    (h : Expression l ts e) : Completes l ts e := by
  induction h with
  | ofProduct _ ih => exact completes_ofProduct ih
  | ofSigned _ ih => exact completes_ofSigned ih
  | ofSuffixed h ih => exact completes_ofSuffixed h ih
  | ofPrimary _ ih => exact completes_ofPrimary ih
  | binary op hop s _ _ ihl ihr => exact completes_binary hop s ihl ihr
  | negate minus h ih => exact completes_negate minus h ih
  | least minus s => exact completes_least minus s
  | methodCall method dot name opening closing _ hlist hargs ihr ihargs =>
    exact completes_methodCall method dot name opening closing ihr hlist hargs ihargs
  | int hfits s => exact completes_int hfits s
  | string h s => exact completes_string h s
  | true | false | null => intro steps _ k rest _; rfl
  | name name s => exact completes_name name s
  | call f name opening closing hlist hargs ih =>
    exact completes_call f name opening closing hlist hargs ih
  | new className word name opening closing hlist hargs ih =>
    exact completes_new className word name opening closing hlist hargs ih
  | paren opening closing _ ih => exact completes_paren opening closing ih

/-- Every derived expression is read, in front of anything that does not make more of it. -/
theorem expression_complete {ts : List Token} {e : Expr} (h : Expression .sum ts e) {steps : Nat}
    (hsteps : ts.length < steps) : Reads (expression steps) ts e (NotAhead (Extends .sum)) :=
  (completes_of_expression h).reads_sum hsteps

end Completeness

end ReplEngine.Language.Reader
