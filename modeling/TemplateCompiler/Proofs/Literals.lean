/-
Literals are read back.

What is written for a literal tells where it ends, whatever is written after it.  In a string
every quote and every backslash has a backslash before it, so the first quote that is read on its
own is the last character of the literal; and an array is read string by string, so that a comma
or a bracket in an entry is never taken for one of the array's own.

In the literal of the options, all that stands before the list of browsers is keys, truth values
and numbers.  None of them has a bracket, so the list begins at the first one.
-/
import Mathlib.Logic.Function.Basic
import TemplateCompiler.Proofs.Blanks
import TemplateCompiler.Style.Config

namespace TemplateCompiler

namespace Script

/-! ### Readers -/

/-- What follows a string is shorter than what was read. -/
theorem length_unquote_lt {cs text left : List Char} (h : unquote cs = some (text, left)) :
    left.length < cs.length := by
  fun_induction unquote cs generalizing text left with
  | case1 => cases h
  | case2 rest =>
      cases h
      exact Nat.lt_succ_self _
  | case3 rest ih | case4 rest ih | case5 rest ih =>
      obtain ⟨parts, hparts, heq⟩ := Option.map_eq_some_iff.mp h
      cases heq
      exact Nat.lt_succ_of_lt (Nat.lt_succ_of_lt (ih hparts))
  | case6 c rest _ _ _ _ ih =>
      obtain ⟨parts, hparts, heq⟩ := Option.map_eq_some_iff.mp h
      cases heq
      exact Nat.lt_succ_of_lt (ih hparts)

/-- A string literal, and what follows it. -/
def readString : List Char → Option (String × List Char)
  | '\'' :: rest => (unquote rest).map fun (text, left) => (String.ofList text, left)
  | _ => none

theorem length_readString_lt {cs left : List Char} {text : String}
    (h : readString cs = some (text, left)) : left.length < cs.length := by
  unfold readString at h
  split at h
  · obtain ⟨parts, hparts, heq⟩ := Option.map_eq_some_iff.mp h
    cases heq
    exact Nat.lt_succ_of_lt (length_unquote_lt hparts)
  · cases h

/-- String literals with commas between them up to a closing bracket, and what follows it. -/
def readStrings (cs : List Char) : Option (List String × List Char) :=
  match _hread : readString cs with
  | some (text, ',' :: rest) => (readStrings rest).map fun (texts, left) => (text :: texts, left)
  | some (text, ']' :: left) => some ([text], left)
  | _ => none
termination_by cs.length
decreasing_by
  have := length_readString_lt _hread
  simp only [List.length_cons] at this
  omega

theorem readStrings_comma {cs rest : List Char} {text : String}
    (h : readString cs = some (text, ',' :: rest)) :
    readStrings cs = (readStrings rest).map fun (texts, left) => (text :: texts, left) := by
  rw [readStrings]
  split
  · rename_i heq
    cases h.symm.trans heq
    rfl
  · rename_i heq
    cases h.symm.trans heq
  · rename_i hcomma _
    exact absurd h (hcomma text rest)

theorem readStrings_bracket {cs left : List Char} {text : String}
    (h : readString cs = some (text, ']' :: left)) : readStrings cs = some ([text], left) := by
  rw [readStrings]
  split
  · rename_i heq
    cases h.symm.trans heq
  · rename_i heq
    cases h.symm.trans heq
    rfl
  · rename_i hbracket
    exact absurd h (hbracket text left)

/-- An array literal of strings, and what follows it. -/
def readArray : List Char → Option (List String × List Char)
  | '[' :: ']' :: left => some ([], left)
  | '[' :: rest => readStrings rest
  | _ => none

/-! ### Reading what is written -/

theorem toList_quote (s : String) : (quote s).toList = quoteChars s.toList := String.toList_ofList

/-- A string is read back, whatever follows it. -/
theorem readString_quote (s : String) (rest : List Char) :
    readString ((quote s).toList ++ rest) = some (s, rest) := by
  have hread : unquote (s.toList.flatMap quoteChar ++ ['\''] ++ rest) = some (s.toList, rest) := by
    rw [List.append_assoc]
    exact unquote_flatMap_quoteChar s.toList rest
  rw [toList_quote]
  show (unquote (s.toList.flatMap quoteChar ++ ['\''] ++ rest)).map _ = _
  rw [hread, Option.map_some]
  dsimp only
  rw [String.ofList_toList]

/-- What is read back whatever follows it is written in one way only. -/
theorem injective_of_read {α : Type} {write : α → String}
    {read : List Char → Option (α × List Char)}
    (h : ∀ x rest, read ((write x).toList ++ rest) = some (x, rest)) :
    Function.Injective write := by
  intro x y heq
  have hsame : some (x, []) = some (y, ([] : List Char)) := by
    rw [← h x [], ← h y [], heq]
  cases hsame
  rfl

/-- The literals of some strings, with commas between them. -/
def joinQuoted (items : List String) : List Char :=
  [','].intercalate (items.map fun item => (quote item).toList)

theorem joinQuoted_singleton (s : String) : joinQuoted [s] = (quote s).toList :=
  List.intercalate_singleton

theorem joinQuoted_cons_cons (s next : String) (items : List String) :
    joinQuoted (s :: next :: items) = (quote s).toList ++ ',' :: joinQuoted (next :: items) := by
  unfold joinQuoted
  rw [List.map_cons, List.map_cons, List.intercalate_cons_cons, List.append_assoc]
  rfl

/-- Strings with commas between them are read back, up to the bracket after them. -/
theorem readStrings_joinQuoted (s : String) (items : List String) (rest : List Char) :
    readStrings (joinQuoted (s :: items) ++ ']' :: rest) = some (s :: items, rest) := by
  induction items generalizing s with
  | nil =>
      rw [joinQuoted_singleton]
      exact readStrings_bracket (readString_quote s _)
  | cons next items ih =>
      rw [joinQuoted_cons_cons, List.append_assoc, List.cons_append,
        readStrings_comma (readString_quote s _), ih, Option.map_some]

theorem toList_array (items : List String) :
    (array items).toList = '[' :: (joinQuoted items ++ [']']) := by
  unfold array joinQuoted
  rw [String.toList_append, String.toList_append, String.toList_intercalate, List.map_map]
  rfl

/-- An array is read back, whatever follows it. -/
theorem readArray_array (items : List String) (rest : List Char) :
    readArray ((array items).toList ++ rest) = some (items, rest) := by
  rw [toList_array, List.cons_append, List.append_assoc, List.singleton_append]
  cases items with
  | nil => rfl
  | cons s items =>
      -- The first entry begins with a quote, so the bracket does not close at once.
      obtain ⟨tail, htail⟩ : ∃ tail, joinQuoted (s :: items) ++ ']' :: rest = '\'' :: tail := by
        cases items with
        | nil =>
            rw [joinQuoted_singleton, toList_quote]
            exact ⟨_, rfl⟩
        | cons next items =>
            rw [joinQuoted_cons_cons, toList_quote]
            exact ⟨_, rfl⟩
      rw [htail]
      show readStrings ('\'' :: tail) = _
      rw [← htail]
      exact readStrings_joinQuoted s items rest

/-! ### Texts without an array -/

/-- No array begins in the text. -/
def Unbracketed (text : String) : Prop := '[' ∉ text.toList

instance (text : String) : Decidable (Unbracketed text) :=
  inferInstanceAs (Decidable ('[' ∉ text.toList))

theorem Unbracketed.append {a b : String} (ha : Unbracketed a) (hb : Unbracketed b) :
    Unbracketed (a ++ b) := by
  unfold Unbracketed
  rw [String.toList_append, List.mem_append, not_or]
  exact ⟨ha, hb⟩

/-- A number is written with digits, a sign and a point, or as a word. -/
theorem isDigit_or_of_mem_positional {d : Decimal} {c : Char} (h : c ∈ d.positional) :
    c.isDigit = true ∨ c = '.' := by
  have hdigits : ∀ c ∈ Nat.toDigits 10 d.coefficient, c.isDigit = true := fun c hc =>
    Nat.isDigit_of_mem_toDigits (by decide) (by decide) hc
  have hzeros : ∀ n, ∀ c ∈ List.replicate n '0', c.isDigit = true := by
    intro n c hc
    rw [List.eq_of_mem_replicate hc]
    decide
  unfold Decimal.positional at h
  dsimp only at h
  split at h
  · rcases List.mem_append.mp h with h | h
    · exact .inl (hdigits c h)
    · exact .inl (hzeros _ c h)
  · have hpadded : ∀ n, ∀ c ∈ List.replicate n '0' ++ Nat.toDigits 10 d.coefficient,
        c.isDigit = true := by
      intro n c hc
      rcases List.mem_append.mp hc with hc | hc
      · exact hzeros n c hc
      · exact hdigits c hc
    split at h
    · exact .inl (hpadded _ c (List.mem_of_mem_take h))
    · rcases List.mem_append.mp h with h | h
      · exact .inl (hpadded _ c (List.mem_of_mem_take h))
      · rcases List.mem_cons.mp h with h | h
        · exact .inr h
        · have hfraction := (List.dropWhile_sublist _).mem (List.mem_reverse.mp h)
          exact .inl (hpadded _ c (List.mem_of_mem_drop (List.mem_reverse.mp hfraction)))

theorem unbracketed_shortestText (x : Float) : Unbracketed (shortestText x) := by
  have hpositional : ∀ d : Decimal, Unbracketed (String.ofList d.positional) := by
    intro d
    unfold Unbracketed
    rw [String.toList_ofList]
    intro h
    rcases isDigit_or_of_mem_positional h with h | h
    · exact absurd h (by decide)
    · exact absurd h (by decide)
  have hsign : Unbracketed (if x.toBits.toNat / Nat.pow 2 63 = 1 then "-" else "") := by
    split
    · decide
    · decide
  unfold shortestText
  dsimp only
  split
  · split
    · exact hsign.append (by decide)
    · decide
  · split
    · exact hsign.append (by decide)
    · exact hsign.append (hpositional _)

theorem unbracketed_number (x : Float) : Unbracketed (number x) := by
  unfold number
  dsimp only
  split
  · decide
  · exact unbracketed_shortestText _

section

variable {fields : List (String × String)}

/-- Neither the keys nor the values have an array in them. -/
def UnbracketedFields (fields : List (String × String)) : Prop :=
  ∀ field ∈ fields, Unbracketed (quote field.1) ∧ Unbracketed field.2

theorem UnbracketedFields.append {others : List (String × String)} (h : UnbracketedFields fields)
    (hothers : UnbracketedFields others) : UnbracketedFields (fields ++ others) := by
  intro field hfield
  rcases List.mem_append.mp hfield with hfield | hfield
  · exact h field hfield
  · exact hothers field hfield

theorem UnbracketedFields.intercalate (h : UnbracketedFields fields) :
    Unbracketed (",".intercalate (fields.map fun (key, value) => quote key ++ ":" ++ value)) := by
  refine Text.not_mem_intercalate (by decide) fun text htext => ?_
  obtain ⟨field, hfield, rfl⟩ := List.mem_map.mp htext
  exact ((h field hfield).1.append (by decide)).append (h field hfield).2

theorem UnbracketedFields.object (h : UnbracketedFields fields) : Unbracketed (object fields) :=
  (Unbracketed.append (by decide) h.intercalate).append (by decide)

/-- The value of the last field stands before the brace that closes the object. -/
theorem UnbracketedFields.object_concat (h : UnbracketedFields fields) {key : String}
    (hkey : Unbracketed (quote key)) (value : String) :
    ∃ before, Unbracketed before ∧
      Script.object (fields ++ [(key, value)]) = before ++ value ++ "\x7d" := by
  have hopen : Unbracketed "\x7b" := by decide
  have hlast : Unbracketed (quote key ++ ":") := hkey.append (by decide)
  unfold Script.object
  rw [List.map_append, List.map_singleton]
  by_cases hfields : fields = []
  · subst hfields
    refine ⟨"\x7b" ++ (quote key ++ ":"), hopen.append hlast, ?_⟩
    rw [List.map_nil, List.nil_append, String.intercalate_singleton]
    simp only [String.append_assoc]
  · have hcomma : Unbracketed "," := by decide
    refine ⟨"\x7b" ++ (",".intercalate (fields.map fun (key, value) => quote key ++ ":" ++ value)
      ++ "," ++ (quote key ++ ":")), hopen.append ((h.intercalate.append hcomma).append hlast), ?_⟩
    rw [String.intercalate_append_of_ne_nil (by simpa using hfields) (by simp),
      String.intercalate_singleton]
    simp only [String.append_assoc]

end

end Script

namespace StyleConfig

open Script

/-- The browsers, read from the literal of the options: the array that begins at the first bracket,
if there is one. -/
def browsersOf? (literal : String) : Option (List String) :=
  (readArray (literal.toList.dropWhile (· != '['))).map Prod.fst

theorem browsersOf?_of_unbracketed {literal : String} (h : Unbracketed literal) :
    browsersOf? literal = none := by
  have hall : ∀ c ∈ literal.toList, (c != '[') = true := by
    intro c hc
    rw [bne_iff_ne]
    rintro rfl
    exact h hc
  unfold browsersOf?
  rw [List.dropWhile_eq_nil_iff.mpr hall]
  rfl

theorem browsersOf?_append {before : String} (h : Unbracketed before) (browsers : List String)
    (after : String) : browsersOf? (before ++ array browsers ++ after) = some browsers := by
  have hall : ∀ c ∈ before.toList, (c != '[') = true := by
    intro c hc
    rw [bne_iff_ne]
    rintro rfl
    exact h hc
  have hread := readArray_array browsers after.toList
  unfold browsersOf?
  rw [String.toList_append, String.toList_append, List.append_assoc,
    List.dropWhile_append_of_pos hall]
  rw [toList_array, List.cons_append] at hread ⊢
  rw [List.dropWhile_cons_of_neg (by simp), hread]
  rfl

theorem unbracketedFields_optionField {α : Type} {key : String} {write : α → String}
    (hkey : Unbracketed (quote key)) (hwrite : ∀ x, Unbracketed (write x)) (option : Option α) :
    UnbracketedFields (optionField key write option) := by
  intro field hfield
  obtain ⟨x, -, rfl⟩ := List.mem_map.mp hfield
  exact ⟨hkey, hwrite x⟩

theorem unbracketed_remLiteral (options : RemOptions) : Unbracketed (remLiteral options) :=
  ((unbracketedFields_optionField (by decide) unbracketed_number options.rootValue).append
    (unbracketedFields_optionField (by decide) unbracketed_number options.minPixelValue)).object

/-- The options that stand before the browsers. -/
theorem unbracketedFields_lengths (config : StyleConfig) :
    UnbracketedFields (optionField "rem" toString config.rem ++
      optionField "scale" Script.number config.scale ++
      optionField "remOptions" remLiteral config.remOptions) := by
  have htruth : ∀ b : Bool, Unbracketed (toString b) := by decide
  exact ((unbracketedFields_optionField (by decide) htruth config.rem).append
    (unbracketedFields_optionField (by decide) unbracketed_number config.scale)).append
    (unbracketedFields_optionField (by decide) unbracketed_remLiteral config.remOptions)

/-- The browsers are read back from the literal of the options, and so is that there are none. -/
theorem browsersOf?_literal (config : StyleConfig) :
    browsersOf? config.literal = config.browsers := by
  have hfields := unbracketedFields_lengths config
  unfold literal
  cases config.browsers with
  | none =>
      refine browsersOf?_of_unbracketed ?_
      rw [show optionField "autoprefixOptions" _ (none : Option (List String)) = [] from rfl,
        List.append_nil]
      exact hfields.object
  | some browsers =>
      have hempty : UnbracketedFields [] := fun _ h => nomatch h
      have hinnerKey : Unbracketed (quote "browsers") := by decide
      have houterKey : Unbracketed (quote "autoprefixOptions") := by decide
      obtain ⟨inner, hinner, heq⟩ := hempty.object_concat hinnerKey (array browsers)
      obtain ⟨before, hbefore, hliteral⟩ :=
        hfields.object_concat houterKey (object [("browsers", array browsers)])
      rw [List.nil_append] at heq
      rw [show optionField "autoprefixOptions" _ (some browsers)
        = [("autoprefixOptions", object [("browsers", array browsers)])] from rfl, hliteral, heq,
        show before ++ (inner ++ array browsers ++ "\x7d") ++ "\x7d"
          = (before ++ inner) ++ array browsers ++ "\x7d\x7d" by
            simp only [String.append_assoc]; rfl]
      exact browsersOf?_append (hbefore.append hinner) browsers _

end StyleConfig

/-- Strings and arrays of strings are uniquely decodable: each is read back from where it is
written, whatever follows it, so no two are written alike; and the list of browsers is read back
from the literal of the options, whatever its entries are. -/
theorem Script.literals_decode :
    (∀ s rest, readString ((quote s).toList ++ rest) = some (s, rest)) ∧
      (∀ items rest, readArray ((array items).toList ++ rest) = some (items, rest)) ∧
      Function.Injective quote ∧ Function.Injective array ∧
      ∀ config : StyleConfig, StyleConfig.browsersOf? config.literal = config.browsers :=
  ⟨readString_quote, readArray_array, injective_of_read readString_quote,
    injective_of_read readArray_array, StyleConfig.browsersOf?_literal⟩

end TemplateCompiler
