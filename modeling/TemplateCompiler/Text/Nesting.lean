/-
Brackets and string literals inside a text.

A scan from left to right knows how many brackets are open and whether it stands in a
string literal.  A character is at the top when neither is the case and it is not itself
a bracket or the mark that opens a literal.  A closing bracket too many is passed over,
so the depth never falls below zero and every text can be scanned.

Which marks open a literal, and whether a backslash protects the character after it,
differs between expressions and style declarations, and is the parameter `Quoting`.
-/
namespace TemplateCompiler

/-- How string literals are written. -/
structure Quoting where
  /-- The characters that open a literal; the same character closes it. -/
  marks : List Char
  /-- Inside a literal a backslash takes the next character as it is. -/
  escapes : Bool

/-- Where a scan stands. -/
structure Nesting where
  /-- The number of brackets open. -/
  depth : Nat
  /-- The mark of the open literal. -/
  quote : Option Char
  /-- The character before was a backslash inside a literal. -/
  escaped : Bool
  deriving DecidableEq

namespace Nesting

/-- The start of every scan. -/
def outside : Nesting := ⟨0, none, false⟩

/-- The characters that open a bracket. -/
def isOpening (c : Char) : Bool := c == '(' || c == '[' || c == '{'

/-- The characters that close a bracket; the kinds of brackets are not told apart. -/
def isClosing (c : Char) : Bool := c == ')' || c == ']' || c == '}'

/-- Where the scan stands after `c`. -/
def step (q : Quoting) (s : Nesting) (c : Char) : Nesting :=
  match s.quote with
  | some mark =>
    if s.escaped then { s with escaped := false }
    else if q.escapes && c == '\\' then { s with escaped := true }
    else if c == mark then { s with quote := none }
    else s
  | none =>
    if q.marks.contains c then { s with quote := some c }
    else if isOpening c then { s with depth := s.depth + 1 }
    else if isClosing c then { s with depth := s.depth - 1 }
    else s

/-- `c` stands outside all brackets and literals. -/
def atTop (q : Quoting) (s : Nesting) (c : Char) : Bool :=
  s.quote.isNone && s.depth == 0 && !q.marks.contains c && !isOpening c && !isClosing c

/-- The scan of a whole text. -/
def scan (q : Quoting) (s : Nesting) (cs : List Char) : Nesting := cs.foldl (step q) s

/-- The pieces of a text between the separators at the top; there is always a first one. -/
def splitTop (q : Quoting) (separator : Char) (s : Nesting) : List Char → List (List Char)
  | [] => [[]]
  | c :: rest =>
    let pieces := splitTop q separator (s.step q c) rest
    if c == separator && s.atTop q c then [] :: pieces else pieces.modifyHead (c :: ·)

/-! ### Small laws -/

/-- A character at the top leaves the scan where it is. -/
theorem step_of_atTop {q : Quoting} {s : Nesting} {c : Char} (h : s.atTop q c = true) :
    s.step q c = s := by
  simp only [atTop, Bool.and_eq_true, Bool.not_eq_true', Option.isNone_iff_eq_none] at h
  obtain ⟨⟨⟨⟨hquote, -⟩, hmarks⟩, hopen⟩, hclose⟩ := h
  simp only [step, hquote, hmarks, hopen, hclose]
  rfl

theorem splitTop_ne_nil (q : Quoting) (separator : Char) (s : Nesting) (cs : List Char) :
    splitTop q separator s cs ≠ [] := by
  induction cs generalizing s with
  | nil => simp [splitTop]
  | cons c rest ih =>
    simp only [splitTop]
    split
    · simp
    · have hne := ih (s.step q c)
      revert hne
      cases splitTop q separator (s.step q c) rest <;> simp

/-- The pieces with the separators put back are the text. -/
theorem intercalate_splitTop (q : Quoting) (separator : Char) (s : Nesting) (cs : List Char) :
    [separator].intercalate (splitTop q separator s cs) = cs := by
  induction cs generalizing s with
  | nil => simp [splitTop]
  | cons c rest ih =>
    have hne := splitTop_ne_nil q separator (s.step q c) rest
    have hrest := ih (s.step q c)
    simp only [splitTop]
    revert hne hrest
    cases splitTop q separator (s.step q c) rest with
    | nil => simp
    | cons piece pieces =>
      intro _ hrest
      split
      · rename_i h
        simp only [Bool.and_eq_true, beq_iff_eq] at h
        rw [List.intercalate_cons_cons, hrest, h.1]
        simp
      · cases pieces <;> simp_all [List.intercalate_cons_cons]

end Nesting

end TemplateCompiler
