/-
Which paths a pattern matches.

A path is matched byte by byte and as a whole.  What a part does is the list of the ends
at which it can stop: given the bytes still to be matched, those that may be left after
it.  A sequence of parts carries all ends along, each once, so that the work is bounded by
the product of the lengths whatever the pattern.
-/
import TemplateCompiler.Glob.Pattern

namespace TemplateCompiler

/-- The bytes of characters in UTF-8. -/
def bytesOf (cs : List Char) : List UInt8 := cs.flatMap String.utf8EncodeChar

namespace Glob

/-- The bytes that a range of characters covers.  A range is taken between the last byte
of its first character and the first byte of its last; the other bytes stand for
themselves. -/
def rangeCovers (range : Char × Char) (b : UInt8) : Bool :=
  let low := String.utf8EncodeChar range.1
  let high := String.utf8EncodeChar range.2
  if range.1 == range.2 then low.contains b
  else
    low.dropLast.contains b || high.tail.contains b ||
      (low.getLastD 0 ≤ b && b ≤ high.headD 0)

/-- All that can be left of the bytes. -/
def tails : List UInt8 → List (List UInt8)
  | [] => [[]]
  | b :: rest => (b :: rest) :: tails rest

/-- What can be left after a slash. -/
def afterSlashes : List UInt8 → List (List UInt8)
  | [] => []
  | b :: rest => if b = '/'.toUInt8 then rest :: afterSlashes rest else afterSlashes rest

/-- What is left after a slash that comes next. -/
def afterSlash : List UInt8 → List (List UInt8)
  | [] => []
  | b :: rest => if b = '/'.toUInt8 then [rest] else []

/-- What is left after one byte that satisfies `p`. -/
def afterByte (p : UInt8 → Bool) : List UInt8 → List (List UInt8)
  | [] => []
  | b :: rest => if p b then [rest] else []

mutual

/-- What can be left after a part. -/
def Part.ends : Part → List UInt8 → List (List UInt8)
  | .literal c, bytes => ((String.utf8EncodeChar c).isPrefixOf? bytes).toList
  | .anyByte, bytes => afterByte (fun _ => true) bytes
  | .anyRun, bytes => tails bytes
  | .leadingDirs, bytes => bytes :: afterSlashes bytes
  | .trailingDirs, bytes => (afterSlash bytes).flatMap tails
  | .innerDirs, bytes => (afterSlash bytes).flatMap fun rest => rest :: afterSlashes rest
  | .charClass negated ranges, bytes =>
    afterByte (fun b => ranges.any (rangeCovers · b) != negated) bytes
  | .alternatives branches, bytes =>
    if allBlank branches then [bytes] else branchEnds branches bytes

/-- What can be left after parts in sequence. -/
def sequenceEnds : List Part → List (List UInt8) → List (List UInt8)
  | [], rests => rests
  | part :: parts, rests => sequenceEnds parts (rests.flatMap part.ends).eraseDups

/-- What can be left after one of the branches.  A branch without anything to match is no
alternative. -/
def branchEnds : List (List Part) → List UInt8 → List (List UInt8)
  | [], _ => []
  | branch :: branches, bytes =>
    (if blankSequence branch then [] else sequenceEnds branch [bytes]) ++ branchEnds branches bytes

/-- The part asks for nothing: it is a group without a branch that asks for anything. -/
def Part.isBlank : Part → Bool
  | .alternatives branches => allBlank branches
  | _ => false

/-- Every part in the sequence asks for nothing. -/
def blankSequence : List Part → Bool
  | [] => true
  | part :: parts => part.isBlank && blankSequence parts

/-- Every branch asks for nothing. -/
def allBlank : List (List Part) → Bool
  | [] => true
  | branch :: branches => blankSequence branch && allBlank branches

end

end Glob

namespace Glob

/-- The pattern matches the whole path.  A pattern of nothing but `**` matches all. -/
def matchesPath (glob : Glob) (path : String) : Bool :=
  match glob.parts with
  | [.leadingDirs] => true
  | parts => (sequenceEnds parts [bytesOf path.toList]).contains []

end Glob

end TemplateCompiler
