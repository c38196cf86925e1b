set_option autoImplicit false

/-!
# Byte offsets into text

Texts are lists of characters; offsets into them count the bytes of their UTF-8 form.  An
offset that falls inside a character is no boundary, and cutting there gives nothing.
-/

namespace ReplEngine.Text

/-- The number of bytes that a text takes in UTF-8. -/
def byteLength : List Char → Nat
  | [] => 0
  | c :: cs => c.utf8Size + byteLength cs

@[simp] theorem byteLength_nil : byteLength [] = 0 := rfl

@[simp] theorem byteLength_cons (c : Char) (cs : List Char) :
    byteLength (c :: cs) = c.utf8Size + byteLength cs := rfl

@[simp] theorem byteLength_append (s t : List Char) :
    byteLength (s ++ t) = byteLength s + byteLength t := by
  induction s with
  | nil => simp
  | cons c cs ih => simp [ih, Nat.add_assoc]

theorem eq_nil_of_byteLength {cs : List Char} (h : byteLength cs = 0) : cs = [] := by
  cases cs with
  | nil => rfl
  | cons c cs =>
    have hpos := c.utf8Size_pos
    rw [byteLength_cons] at h
    omega

/-- The text after its first `n` bytes, if `n` is a boundary. -/
def dropBytes? (n : Nat) : List Char → Option (List Char)
  | [] => if n = 0 then some [] else none
  | c :: cs =>
    if n = 0 then some (c :: cs)
    else if c.utf8Size ≤ n then dropBytes? (n - c.utf8Size) cs
    else none

/-- The first `n` bytes of the text, if `n` is a boundary. -/
def takeBytes? (n : Nat) : List Char → Option (List Char)
  | [] => if n = 0 then some [] else none
  | c :: cs =>
    if n = 0 then some []
    else if c.utf8Size ≤ n then (takeBytes? (n - c.utf8Size) cs).map (c :: ·)
    else none

/-- The bytes from `start` to `stop`, if both are boundaries in this order. -/
def slice? (start stop : Nat) (cs : List Char) : Option (List Char) :=
  if start ≤ stop then (dropBytes? start cs).bind (takeBytes? (stop - start)) else none

/-- The bytes from `start` to `stop`, and nothing where they cannot be cut out. -/
def slice (start stop : Nat) (cs : List Char) : List Char := (slice? start stop cs).getD []

/-- The text after its first `n` bytes, and nothing where it cannot be cut. -/
def sliceFrom (n : Nat) (cs : List Char) : List Char := (dropBytes? n cs).getD []

theorem takeBytes?_append (s t : List Char) : takeBytes? (byteLength s) (s ++ t) = some s := by
  induction s with
  | nil => cases t <;> simp [takeBytes?]
  | cons c cs ih =>
    have hpos := c.utf8Size_pos
    simp only [List.cons_append, takeBytes?, byteLength_cons]
    rw [if_neg (by omega), if_pos (by omega), Nat.add_sub_cancel_left, ih]
    rfl

theorem dropBytes?_append (s t : List Char) : dropBytes? (byteLength s) (s ++ t) = some t := by
  induction s with
  | nil => cases t <;> simp [dropBytes?]
  | cons c cs ih =>
    have hpos := c.utf8Size_pos
    simp only [List.cons_append, dropBytes?, byteLength_cons]
    rw [if_neg (by omega), if_pos (by omega), Nat.add_sub_cancel_left, ih]

theorem slice?_middle (s t u : List Char) :
    slice? (byteLength s) (byteLength (s ++ t)) (s ++ (t ++ u)) = some t := by
  have hlength : byteLength (s ++ t) - byteLength s = byteLength t := by
    rw [byteLength_append]
    omega
  unfold slice?
  rw [if_pos (by rw [byteLength_append]; omega), dropBytes?_append, Option.bind_some, hlength,
    takeBytes?_append]

end ReplEngine.Text
