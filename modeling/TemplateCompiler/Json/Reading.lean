/-
Reading JSON.

The grammar is the strict one: no comments, no commas at the end, no zeros in front of a
number, no control characters in a string, and nothing after the value but blanks.  Every
reader gives the characters that are left with the proof that they are fewer, which is why
the readers of nested values end.
-/
import TemplateCompiler.Json.Value

namespace TemplateCompiler

namespace Json

/-- The blanks between tokens. -/
def isJsonBlank (c : Char) : Bool := c == ' ' || c == '\t' || c == '\n' || c == '\r'

/-- What follows any blanks. -/
def skipJsonBlanks (cs : List Char) : List Char := cs.dropWhile isJsonBlank

theorem length_skipJsonBlanks_le (cs : List Char) : (skipJsonBlanks cs).length ≤ cs.length :=
  (List.dropWhile_suffix _).length_le

/-! ### Strings -/

/-- The value of a hexadecimal digit. -/
def hexDigit? (c : Char) : Option Nat :=
  if c.isDigit then some (c.toNat - '0'.toNat)
  else if 'a' ≤ c ∧ c ≤ 'f' then some (c.toNat - 'a'.toNat + 10)
  else if 'A' ≤ c ∧ c ≤ 'F' then some (c.toNat - 'A'.toNat + 10)
  else none

/-- The value of four hexadecimal digits, and what follows them. -/
def readHex? : List Char → Option (Nat × List Char)
  | a :: b :: c :: d :: rest =>
    match hexDigit? a, hexDigit? b, hexDigit? c, hexDigit? d with
    | some a, some b, some c, some d => some (((a * 16 + b) * 16 + c) * 16 + d, rest)
    | _, _, _, _ => none
  | _ => none

/-- The second half of a surrogate pair as an escape, and what follows it. -/
def readLowHalf? : List Char → Option (Nat × List Char)
  | '\\' :: 'u' :: rest =>
    (readHex? rest).bind fun (unit, rest) =>
      if 0xdc00 ≤ unit ∧ unit < 0xe000 then some (unit, rest) else none
  | _ => none

/-- The character of a unit of four digits, where `rest` follows.  There is none for half
of a pair. -/
def readUnit (unit : Nat) (rest : List Char) : Option Char × List Char :=
  if unit < 0xd800 ∨ 0xe000 ≤ unit then (some (Char.ofNat unit), rest)
  else if unit < 0xdc00 then
    match readLowHalf? rest with
    | some (low, left) =>
      (some (Char.ofNat (0x10000 + (unit - 0xd800) * 0x400 + (low - 0xdc00))), left)
    | none => (none, rest)
  else (none, rest)

/-- The character of an escape, read after the backslash. -/
def readEscape? : List Char → Option (Option Char × List Char)
  | '"' :: rest => some (some '"', rest)
  | '\\' :: rest => some (some '\\', rest)
  | '/' :: rest => some (some '/', rest)
  | 'b' :: rest => some (some '\x08', rest)
  | 'f' :: rest => some (some '\x0c', rest)
  | 'n' :: rest => some (some '\n', rest)
  | 'r' :: rest => some (some '\r', rest)
  | 't' :: rest => some (some '\t', rest)
  | 'u' :: rest => (readHex? rest).map fun (unit, rest) => readUnit unit rest
  | _ => none

theorem length_readHex?_lt {cs rest : List Char} {unit : Nat} (h : readHex? cs = some (unit, rest)) :
    rest.length < cs.length := by
  unfold readHex? at h
  split at h
  · split at h
    · cases h
      simp only [List.length_cons]
      omega
    · cases h
  · cases h

theorem length_readUnit_le (unit : Nat) (rest : List Char) :
    (readUnit unit rest).2.length ≤ rest.length := by
  unfold readUnit
  split
  · simp
  · split
    · split
      · rename_i low left h
        unfold readLowHalf? at h
        split at h
        · obtain ⟨⟨u, r⟩, hr, hu⟩ := Option.bind_eq_some_iff.1 h
          have := length_readHex?_lt hr
          simp only at hu
          split at hu
          · cases hu
            simp only [List.length_cons]
            omega
          · cases hu
        · cases h
      · simp
    · simp

theorem length_readEscape?_lt {cs rest : List Char} {c : Option Char}
    (h : readEscape? cs = some (c, rest)) : rest.length < cs.length := by
  unfold readEscape? at h
  split at h
  case h_9 left =>
    obtain ⟨⟨unit, r⟩, hr, hu⟩ := Option.map_eq_some_iff.1 h
    have h₁ := length_readHex?_lt hr
    have h₂ := length_readUnit_le unit r
    change readUnit unit r = (c, rest) at hu
    rw [hu] at h₂
    exact Nat.lt_succ_of_lt (Nat.lt_of_le_of_lt h₂ h₁)
  case h_10 => cases h
  all_goals
    cases h
    simp

/-- The characters of a string, read after its opening quote.  There are none if one of
its escapes stands for no character. -/
def readString? (cs : List Char) :
    Option (Option (List Char) × { rest : List Char // rest.length < cs.length }) :=
  match cs with
  | [] => none
  | c :: rest =>
    if c = '"' then some (some [], ⟨rest, by simp⟩)
    else if c = '\\' then
      match h : readEscape? rest with
      | none => none
      | some (escaped, left) =>
        have hlt := length_readEscape?_lt h
        (readString? left).map fun (text, left) =>
          (escaped.bind fun c => text.map (c :: ·),
            ⟨left.1, Nat.lt_trans left.2 (Nat.lt_succ_of_lt hlt)⟩)
    else if c.toNat < 0x20 then none
    else
      (readString? rest).map fun (text, left) =>
        (text.map (c :: ·), ⟨left.1, Nat.lt_succ_of_lt left.2⟩)
termination_by cs.length

/-! ### Numbers -/

/-- The digits before the point: one zero, or digits that begin with another. -/
def readWhole? : List Char → Option (List Char × List Char)
  | '0' :: rest => some (['0'], rest)
  | cs =>
    let digits := cs.takeWhile Char.isDigit
    if digits.isEmpty then none else some (digits, cs.dropWhile Char.isDigit)

/-- The digits after the point, if there is a point. -/
def readFraction? : List Char → Option (List Char × List Char)
  | '.' :: rest =>
    let digits := rest.takeWhile Char.isDigit
    if digits.isEmpty then none else some (digits, rest.dropWhile Char.isDigit)
  | cs => some ([], cs)

/-- The exponent, if its mark is there. -/
def readPower? : List Char → Option (Option Int × List Char)
  | [] => some (none, [])
  | c :: rest =>
    if c = 'e' ∨ c = 'E' then
      let (negative, rest) := Decimal.splitSign rest
      let digits := rest.takeWhile Char.isDigit
      if digits.isEmpty then none
      else
        let n : Int := Decimal.ofDigits digits
        some (some (if negative then -n else n), rest.dropWhile Char.isDigit)
    else some (none, c :: rest)

theorem length_takeWhile_add_dropWhile (p : Char → Bool) (cs : List Char) :
    (cs.takeWhile p).length + (cs.dropWhile p).length = cs.length := by
  rw [← List.length_append, List.takeWhile_append_dropWhile]

theorem length_readWhole?_lt {cs digits rest : List Char} (h : readWhole? cs = some (digits, rest)) :
    rest.length < cs.length := by
  unfold readWhole? at h
  split at h
  · cases h
    simp
  · simp only at h
    split at h
    · cases h
    · rename_i hdigits
      cases h
      have := length_takeWhile_add_dropWhile Char.isDigit cs
      have : (cs.takeWhile Char.isDigit).length ≠ 0 := by simpa using hdigits
      omega

theorem length_readFraction?_le {cs digits rest : List Char}
    (h : readFraction? cs = some (digits, rest)) : rest.length ≤ cs.length := by
  unfold readFraction? at h
  split at h
  · rename_i left
    simp only at h
    split at h
    · cases h
    · cases h
      have := length_takeWhile_add_dropWhile Char.isDigit left
      simp only [List.length_cons]
      omega
  · cases h
    exact Nat.le_refl _

theorem length_splitSign_le (cs : List Char) : (Decimal.splitSign cs).2.length ≤ cs.length := by
  unfold Decimal.splitSign
  split <;> simp

theorem length_readPower?_le {cs rest : List Char} {exponent : Option Int}
    (h : readPower? cs = some (exponent, rest)) : rest.length ≤ cs.length := by
  unfold readPower? at h
  split at h
  · cases h
    exact Nat.le_refl _
  · rename_i c left
    split at h
    · have h₁ := length_splitSign_le left
      have h₂ := length_takeWhile_add_dropWhile Char.isDigit (Decimal.splitSign left).2
      simp only at h
      split at h
      · cases h
      · cases h
        simp only [List.length_cons]
        omega
    · cases h
      exact Nat.le_refl _

/-- A number, and what follows it. -/
def readNumber? (cs : List Char) : Option (Number × { rest : List Char // rest.length < cs.length }) :=
  let negative := cs.head? == some '-'
  match hwhole : readWhole? (if negative then cs.drop 1 else cs) with
  | none => none
  | some (whole, rest) =>
    match hfraction : readFraction? rest with
    | none => none
    | some (fraction, rest') =>
      match hpower : readPower? rest' with
      | none => none
      | some (exponent, left) =>
        some (⟨negative, whole, fraction, exponent⟩, ⟨left, by
          have h₁ := length_readWhole?_lt hwhole
          have h₂ := length_readFraction?_le hfraction
          have h₃ := length_readPower?_le hpower
          have : (if negative then cs.drop 1 else cs).length ≤ cs.length := by
            split <;> simp
          omega⟩)

/-! ### Values -/

/-- What follows a word, if the characters begin with it. -/
def afterWord? (word cs : List Char) : Option { rest : List Char // rest.length ≤ cs.length } :=
  if word.isPrefixOf cs then some ⟨cs.drop word.length, by simp⟩ else none

mutual

/-- A value, with blanks before it. -/
def readValue? (cs : List Char) : Option (Value × { rest : List Char // rest.length < cs.length }) :=
  match h : skipJsonBlanks cs with
  | [] => none
  | c :: rest =>
    have hlt : rest.length < cs.length := by
      have := length_skipJsonBlanks_le cs
      rw [h] at this
      exact this
    if c = '"' then
      (readString? rest).map fun (text, left) =>
        (.string (text.map String.ofList), ⟨left.1, Nat.lt_trans left.2 hlt⟩)
    else if c = '[' then
      (readItems? true rest).map fun (items, left) =>
        (.array items, ⟨left.1, Nat.lt_trans left.2 hlt⟩)
    else if c = '{' then
      (readMembers? true rest).map fun (members, left) =>
        (.object members, ⟨left.1, Nat.lt_trans left.2 hlt⟩)
    else if c = 'n' then
      (afterWord? ['u', 'l', 'l'] rest).map fun left => (.null, ⟨left.1, Nat.lt_of_le_of_lt left.2 hlt⟩)
    else if c = 't' then
      (afterWord? ['r', 'u', 'e'] rest).map fun left =>
        (.bool true, ⟨left.1, Nat.lt_of_le_of_lt left.2 hlt⟩)
    else if c = 'f' then
      (afterWord? ['a', 'l', 's', 'e'] rest).map fun left =>
        (.bool false, ⟨left.1, Nat.lt_of_le_of_lt left.2 hlt⟩)
    else
      (readNumber? (c :: rest)).map fun (number, left) =>
        (.number number, ⟨left.1, Nat.lt_of_lt_of_le left.2 hlt⟩)
termination_by (cs.length, 0)

/-- The items of an array up to its closing bracket.  Before the first there is no comma,
and there may be none at all. -/
def readItems? (isFirst : Bool) (cs : List Char) :
    Option (List Value × { rest : List Char // rest.length < cs.length }) :=
  match h : skipJsonBlanks cs with
  | [] => none
  | c :: rest =>
    have hlt : rest.length < cs.length := by
      have := length_skipJsonBlanks_le cs
      rw [h] at this
      exact this
    if c = ']' then some ([], ⟨rest, hlt⟩)
    else if isFirst then
      match readValue? cs with
      | none => none
      | some (item, left) =>
        (readItems? false left.1).map fun (items, left') =>
          (item :: items, ⟨left'.1, Nat.lt_trans left'.2 left.2⟩)
    else if c = ',' then
      match readValue? rest with
      | none => none
      | some (item, left) =>
        have hleft := Nat.lt_trans left.2 hlt
        (readItems? false left.1).map fun (items, left') =>
          (item :: items, ⟨left'.1, Nat.lt_trans left'.2 hleft⟩)
    else none
termination_by (cs.length, 1)

/-- The members of an object up to its closing brace, in the same way. -/
def readMembers? (isFirst : Bool) (cs : List Char) :
    Option (List (Option String × Value) × { rest : List Char // rest.length < cs.length }) :=
  match h : skipJsonBlanks cs with
  | [] => none
  | c :: rest =>
    have hlt : rest.length < cs.length := by
      have := length_skipJsonBlanks_le cs
      rw [h] at this
      exact this
    if c = '}' then some ([], ⟨rest, hlt⟩)
    else if isFirst then
      match readMember? cs with
      | none => none
      | some (member, left) =>
        (readMembers? false left.1).map fun (members, left') =>
          (member :: members, ⟨left'.1, Nat.lt_trans left'.2 left.2⟩)
    else if c = ',' then
      match readMember? rest with
      | none => none
      | some (member, left) =>
        have hleft := Nat.lt_trans left.2 hlt
        (readMembers? false left.1).map fun (members, left') =>
          (member :: members, ⟨left'.1, Nat.lt_trans left'.2 hleft⟩)
    else none
termination_by (cs.length, 2)

/-- A key, a colon and a value. -/
def readMember? (cs : List Char) :
    Option ((Option String × Value) × { rest : List Char // rest.length < cs.length }) :=
  match h : skipJsonBlanks cs with
  | '"' :: rest =>
    have hlt : rest.length < cs.length := by
      have := length_skipJsonBlanks_le cs
      rw [h] at this
      exact this
    match readString? rest with
    | none => none
    | some (key, left) =>
      match hcolon : skipJsonBlanks left.1 with
      | ':' :: afterColon =>
        have hafter : afterColon.length < cs.length := by
          have h₁ := length_skipJsonBlanks_le left.1
          have h₂ := left.2
          rw [hcolon] at h₁
          simp only [List.length_cons] at h₁
          omega
        (readValue? afterColon).map fun (value, left') =>
          ((key.map String.ofList, value), ⟨left'.1, Nat.lt_trans left'.2 hafter⟩)
      | _ => none
  | _ => none
termination_by (cs.length, 1)

end

/-- The value that a text spells. -/
def parse? (text : String) : Option Value :=
  (readValue? text.toList).bind fun (value, left) =>
    if (skipJsonBlanks left.1).isEmpty then some value else none

end Json

end TemplateCompiler
