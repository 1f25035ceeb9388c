/-!
# Spans

A span is a half-open range of byte offsets into a line of notation. Tokens, the parts of a row and the parts
of a layout carry the span of the text they come from, so that a problem can point back at it.
-/

namespace Dotwork

/-- The bytes from `start` up to, not including, `stop`; the default is the empty span at the start of the line. -/
structure Span where
  start : Nat
  stop : Nat
deriving DecidableEq, Inhabited

namespace Span

/-- The number of bytes covered. -/
def length (s : Span) : Nat :=
  s.stop - s.start

def isEmpty (s : Span) : Bool :=
  s.start == s.stop

/-- The least span that covers both. -/
def union (s t : Span) : Span :=
  ⟨min s.start t.start, max s.stop t.stop⟩

/-- A span is written as its two offsets with two points between. -/
def text (s : Span) : String :=
  s!"{s.start}..{s.stop}"

theorem union_self (s : Span) : s.union s = s := by
  simp only [union, Nat.min_self, Nat.max_self]

end Span

/-- A value with the span of the text that it was read from. -/
structure Located (α : Type) where
  value : α
  span : Span
deriving DecidableEq, Inhabited

namespace Located

def map {α β : Type} (f : α → β) (x : Located α) : Located β :=
  ⟨f x.value, x.span⟩

/-- The same value without its place. -/
def forget {α : Type} (x : Located α) : Located α :=
  ⟨x.value, default⟩

end Located

end Dotwork
