import ReplEngine.Proofs.Reading
import ReplEngine.Proofs.Syntax.Grammar
set_option autoImplicit false

/-!
# What the small readers take

`Sound G p` says that a reader invents nothing: the tokens it has taken derive its result by `G`.
`Reads p ts a follow` says that a reader misses nothing: put in front of tokens that `follow`
admits, it takes exactly `ts` and gives `a`.

The readers that take one token are described here, each by the tokens it accepts.
-/

namespace ReplEngine.Language.Reader

open Reading Grammar

/-! ## Sound and complete readers -/

/-- Between two cursors exactly the given tokens have been taken. -/
structure Takes (ts : List Token) (c c' : Cursor) : Prop where
  tokens : c.tokens = ts ++ c'.tokens
  lastEnd : c'.lastEnd = stopAfter c.lastEnd ts

theorem Takes.refl (c : Cursor) : Takes [] c c := ⟨rfl, rfl⟩

theorem Takes.trans {ts us : List Token} {a b c : Cursor} (h : Takes ts a b) (h' : Takes us b c) :
    Takes (ts ++ us) a c := by
  refine ⟨?_, ?_⟩
  · rw [h.tokens, h'.tokens, List.append_assoc]
  · rw [h'.lastEnd, h.lastEnd, stopAfter_append]

theorem Takes.cons {t : Token} {us : List Token} {a b c : Cursor} (h : Takes [t] a b)
    (h' : Takes us b c) : Takes (t :: us) a c := h.trans h'

/-- `p` gives only what the tokens it takes derive. -/
def Sound {α : Type} (G : List Token → α → Prop) (p : Reader α) : Prop :=
  ∀ c a c', p c = .ok (a, c') → ∃ ts, Takes ts c c' ∧ G ts a

/-- In front of tokens that `follow` admits, `p` takes the tokens `ts` and gives `a`. -/
def Reads {α : Type} (p : Reader α) (ts : List Token) (a : α) (follow : List Token → Prop) :
    Prop :=
  ∀ k rest, follow rest → p ⟨ts ++ rest, k⟩ = .ok (a, ⟨rest, stopAfter k ts⟩)

/-- The first of some tokens, if there is one, is not of a kind that `p` admits. -/
def NotAhead (p : TokenKind → Prop) (rest : List Token) : Prop :=
  ∀ t ∈ rest.head?, ¬ p t.kind

@[simp] theorem notAhead_nil (p : TokenKind → Prop) : NotAhead p [] := by
  simp [NotAhead]

@[simp] theorem notAhead_cons (p : TokenKind → Prop) (t : Token) (ts : List Token) :
    NotAhead p (t :: ts) ↔ ¬ p t.kind := by
  simp [NotAhead]

theorem ahead_or_not (p : TokenKind → Prop) [DecidablePred p] (rest : List Token) :
    NotAhead p rest ∨ ∃ t ts, rest = t :: ts ∧ p t.kind := by
  cases rest with
  | nil => exact .inl (notAhead_nil p)
  | cons t ts =>
    by_cases hp : p t.kind
    · exact .inr ⟨t, ts, rfl, hp⟩
    · exact .inl ((notAhead_cons p t ts).2 hp)

theorem NotAhead.mono {p q : TokenKind → Prop} (hpq : ∀ kind, p kind → q kind)
    {rest : List Token} (h : NotAhead q rest) : NotAhead p rest := by
  intro t ht hp
  exact h t ht (hpq _ hp)

/-! ## Looking -/

theorem fail_eq_ok {α : Type} {expected : String} {c : Cursor} {r : α × Cursor} :
    (fail expected : Reader α) c = .ok r ↔ False := by
  simp [fail]

theorem refuse_eq_ok {α : Type} {message : String} {span : Span} {c : Cursor}
    {r : α × Cursor} : (refuse message span : Reader α) c = .ok r ↔ False := by
  simp [refuse]

theorem current_bind {α : Type} (f : Option Token → Reader α) (c : Cursor) :
    (current >>= f) c = f c.tokens.head? c := rfl

theorem kindAt_bind {α : Type} (ahead : Nat) (f : Option TokenKind → Reader α) (c : Cursor) :
    (kindAt ahead >>= f) c = f (c.tokens[ahead]?.map Token.kind) c := rfl

theorem atEnd_bind {α : Type} (f : Bool → Reader α) (c : Cursor) :
    (atEnd >>= f) c = f c.tokens.isEmpty c := rfl

theorem lastEnd_bind {α : Type} (f : UInt32 → Reader α) (c : Cursor) :
    (lastEnd >>= f) c = f c.lastEnd c := rfl

theorem advance_bind {α : Type} (f : Unit → Reader α) (t : Token) (ts : List Token)
    (k : UInt32) : (advance >>= f) ⟨t :: ts, k⟩ = f () ⟨ts, t.span.stop⟩ := rfl

theorem takes_one (t : Token) (ts : List Token) (k : UInt32) :
    Takes [t] ⟨t :: ts, k⟩ ⟨ts, t.span.stop⟩ := ⟨rfl, rfl⟩

/-! ## Taking one token -/

theorem eat_of_ahead (sign : Symbol) (s : Span) (ts : List Token) (k : UInt32) :
    eat sign ⟨⟨.symbol sign, s⟩ :: ts, k⟩ = .ok (true, ⟨ts, s.stop⟩) := by
  simp only [eat, kindAt_bind, List.getElem?_cons_zero, Option.map_some, if_pos]
  rfl

theorem eat_of_notAhead {sign : Symbol} {ts : List Token} (k : UInt32)
    (h : NotAhead (· = .symbol sign) ts) : eat sign ⟨ts, k⟩ = .ok (false, ⟨ts, k⟩) := by
  unfold eat
  rw [kindAt_bind]
  cases ts with
  | nil => rfl
  | cons t ts =>
    obtain ⟨kind, s⟩ := t
    simp only [notAhead_cons] at h
    cases kind with
    | symbol found =>
      have hne : found ≠ sign := by
        intro heq
        exact h (by rw [heq])
      simp only [List.getElem?_cons_zero, Option.map_some, if_neg hne]
      rfl
    | _ => rfl

/-- `eat` takes the symbol, or takes nothing and something else stands there. -/
theorem eat_cases {sign : Symbol} {c c' : Cursor} {found : Bool}
    (h : eat sign c = .ok (found, c')) :
    (found = true ∧ ∃ s, Takes [⟨.symbol sign, s⟩] c c') ∨
      (found = false ∧ c = c' ∧ NotAhead (· = .symbol sign) c.tokens) := by
  obtain ⟨ts, k⟩ := c
  rcases ahead_or_not (· = .symbol sign) ts with hnot | ⟨⟨kind, s⟩, us, rfl, rfl⟩
  · rw [eat_of_notAhead k hnot] at h
    cases h
    exact .inr ⟨rfl, rfl, hnot⟩
  · rw [eat_of_ahead] at h
    cases h
    exact .inl ⟨rfl, s, takes_one _ _ _⟩

theorem expect_bind {α : Type} (sign : Symbol) (f : Unit → Reader α) (s : Span)
    (ts : List Token) (k : UInt32) :
    (expect sign >>= f) ⟨⟨.symbol sign, s⟩ :: ts, k⟩ = f () ⟨ts, s.stop⟩ := by
  apply bind_of_ok
  unfold expect
  rw [bind_of_ok (eat_of_ahead sign s ts k)]
  rfl

theorem expect_sound {sign : Symbol} {c c' : Cursor} {u : Unit}
    (h : expect sign c = .ok (u, c')) : ∃ s, Takes [⟨.symbol sign, s⟩] c c' := by
  unfold expect at h
  obtain ⟨found, mid, heat, h⟩ := bind_eq_ok.1 h
  rcases eat_cases heat with ⟨rfl, htakes⟩ | ⟨rfl, -, -⟩
  · obtain ⟨-, rfl⟩ := pure_eq_ok.1 h
    exact htakes
  · exact (fail_eq_ok.1 h).elim

theorem identifier_bind {α : Type} (f : String × Span → Reader α) (name : String) (s : Span)
    (ts : List Token) (k : UInt32) :
    (identifier >>= f) ⟨⟨.identifier name, s⟩ :: ts, k⟩ = f (name, s) ⟨ts, s.stop⟩ := rfl

theorem identifier_sound {c c' : Cursor} {name : String} {s : Span}
    (h : identifier c = .ok ((name, s), c')) : Takes [⟨.identifier name, s⟩] c c' := by
  obtain ⟨ts, k⟩ := c
  cases ts with
  | nil => cases h
  | cons t ts =>
    obtain ⟨kind, span⟩ := t
    cases kind with
    | identifier found =>
      cases h
      exact takes_one _ _ _
    | _ => cases h

/-! ## Types -/

theorem typeName_bind {α : Type} {kind : TokenKind} {type : TypeName} (h : NamesType kind type)
    (f : TypeName → Reader α) (s : Span) (ts : List Token) (k : UInt32) :
    (typeName >>= f) ⟨⟨kind, s⟩ :: ts, k⟩ = f type ⟨ts, s.stop⟩ := by
  cases h <;> rfl

theorem typeName_sound {c c' : Cursor} {type : TypeName} (h : typeName c = .ok (type, c')) :
    ∃ kind s, Takes [⟨kind, s⟩] c c' ∧ NamesType kind type := by
  obtain ⟨ts, k⟩ := c
  cases ts with
  | nil => cases h
  | cons t ts =>
    obtain ⟨kind, s⟩ := t
    cases kind with
    | identifier name =>
      cases h
      exact ⟨_, s, takes_one _ _ _, .named name⟩
    | keyword word =>
      cases word <;> cases h <;> exact ⟨_, s, takes_one _ _ _, by constructor⟩
    | _ => cases h

/-- Whether a type and a name start at the cursor. -/
def declares : List Token → Bool
  | ⟨.keyword word, _⟩ :: _ => (typeOfKeyword? word).isSome
  | ⟨.identifier _, _⟩ :: ⟨.identifier _, _⟩ :: _ => true
  | _ => false

theorem atDeclaration_bind {α : Type} (f : Bool → Reader α) (c : Cursor) :
    (atDeclaration >>= f) c = f (declares c.tokens) c := by
  apply bind_of_ok
  obtain ⟨ts, k⟩ := c
  unfold atDeclaration
  rw [kindAt_bind]
  cases ts with
  | nil => rfl
  | cons t ts =>
    obtain ⟨kind, s⟩ := t
    cases kind with
    | identifier name =>
      cases ts with
      | nil => rfl
      | cons t' ts =>
        obtain ⟨kind', s'⟩ := t'
        cases kind' <;> rfl
    | _ => rfl

end ReplEngine.Language.Reader
