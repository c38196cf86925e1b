set_option autoImplicit false

/-!
# Spans

A span is a range of byte offsets into one source text.  Offsets are 32-bit words, because
spans travel inside class files; an offset that does not fit is held at the largest word.
-/

namespace ReplEngine

/-- The word nearest to `n`: `n` itself, or the largest word when `n` does not fit. -/
def wordOf (n : Nat) : UInt32 :=
  if n < 4294967296 then UInt32.ofNat n else 4294967295

theorem wordOf_toNat (n : Nat) : (wordOf n).toNat = min n 4294967295 := by
  unfold wordOf
  split
  · rename_i h
    rw [UInt32.toNat_ofNat_of_lt' h]
    omega
  · rename_i h
    have : (4294967295 : UInt32).toNat = 4294967295 := rfl
    omega

/-- A range of bytes: `start` is the first byte in it, `stop` the first byte after it. -/
structure Span where
  start : UInt32
  stop : UInt32
  deriving DecidableEq, Repr, Inhabited

namespace Span

/-- The span of a range of any size, each bound held at the largest word. -/
def ofRange (start stop : Nat) : Span := ⟨wordOf start, wordOf stop⟩

/-- The empty span at an offset. -/
def point (offset : UInt32) : Span := ⟨offset, offset⟩

/-- Number of bytes covered; a reversed span covers none. -/
def length (s : Span) : UInt32 := if s.start ≤ s.stop then s.stop - s.start else 0

/-- No byte is covered. -/
def isEmpty (s : Span) : Bool := s.stop ≤ s.start

/-- The least span that covers both. -/
def merge (s t : Span) : Span := ⟨min s.start t.start, max s.stop t.stop⟩

/-- The written form `start..stop`. -/
def render (s : Span) : String := s!"{s.start.toNat}..{s.stop.toNat}"

end Span

end ReplEngine
