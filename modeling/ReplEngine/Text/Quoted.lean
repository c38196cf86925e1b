set_option autoImplicit false

/-!
# Escapes in string literals

Six characters are written with a backslash inside quotes: the quote, the backslash, LF, tab, CR
and NUL.  Reading also admits an escaped apostrophe.
-/

namespace ReplEngine.Text.Quoted

/-- How a character is written inside quotes. -/
def encodeChar (c : Char) : List Char :=
  if c = '"' then ['\\', '"']
  else if c = '\\' then ['\\', '\\']
  else if c = '\n' then ['\\', 'n']
  else if c = '\t' then ['\\', 't']
  else if c = '\r' then ['\\', 'r']
  else if c = '\x00' then ['\\', '0']
  else [c]

/-- How a text is written inside quotes. -/
def encode (cs : List Char) : List Char := cs.flatMap encodeChar

/-- The written form of a text, quotes included. -/
def quote (cs : List Char) : List Char := '"' :: encode cs ++ ['"']

/-- The character that a backslash and `c` stand for. -/
def escaped? (c : Char) : Option Char :=
  if c = 'n' then some '\n'
  else if c = 't' then some '\t'
  else if c = 'r' then some '\r'
  else if c = '0' then some '\x00'
  else if c = '"' ∨ c = '\'' ∨ c = '\\' then some c
  else none

/-- Reads what stands inside quotes; `none` for an escape that stands for nothing. -/
def decode? : List Char → Option (List Char)
  | [] => some []
  | c :: cs =>
    if c = '\\' then
      match cs with
      | [] => none
      | d :: ds => (escaped? d).bind fun e => (decode? ds).map (e :: ·)
    else (decode? cs).map (c :: ·)

theorem escaped?_eq_none_of_ne {c : Char} (h : c ∉ ['n', 't', 'r', '0', '"', '\'', '\\']) :
    escaped? c = none := by
  simp only [List.mem_cons, List.not_mem_nil, or_false, not_or] at h
  simp [escaped?, h]

/-- Reading gives back what was written. -/
theorem decode?_encode (cs : List Char) : decode? (encode cs) = some cs := by
  induction cs with
  | nil => rfl
  | cons c cs ih =>
    simp only [encode, List.flatMap_cons] at ih ⊢
    simp only [encodeChar]
    split
    · subst c; simp [decode?, escaped?, ih]
    split
    · subst c; simp [decode?, escaped?, ih]
    split
    · subst c; simp [decode?, escaped?, ih]
    split
    · subst c; simp [decode?, escaped?, ih]
    split
    · subst c; simp [decode?, escaped?, ih]
    split
    · subst c; simp [decode?, escaped?, ih]
    · rename_i h _ _ _ _
      rw [List.singleton_append, decode?.eq_def]
      simp [h, ih]

end ReplEngine.Text.Quoted
