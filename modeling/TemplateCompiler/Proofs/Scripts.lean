/-
What scripts are made of.

A script that is written into an attribute consists of text that is copied and of literals of
strings.  Which is which cannot be seen from the script, since the expressions of the author have
literals of their own.  So each function that writes a script, or a part of one, is said again as a
list of fragments, and what it writes is what they are written as (`write_listener`, `write_sum`,
`write_config`, `write_call`).  With that every literal is known for what it stands for.

The language knows a literal by its characters.  Between the quotes there is no quote on its own,
after a backslash there is a character that has a meaning there, and no line ends.  A line feed is
written with a backslash, but a carriage return is copied, and so the literal of a string is one
exactly if the string has no carriage return (`isLiteral_quote_iff`).
-/
import TemplateCompiler.Proofs.Blanks
import TemplateCompiler.Proofs.Showing

namespace TemplateCompiler

namespace Script

/-! ### Literals as the language reads them -/

/-- The characters that end a line, which no string literal holds. -/
def lineEnds : List Char := ['\n', '\r']

/-- The characters that have a meaning after a backslash. -/
def escapable : List Char := ['\'', '"', '\\', 'b', 'f', 'n', 'r', 't', 'v']

/-- What may stand between the quotes of a string literal. -/
inductive LiteralBody : List Char → Prop
  | nil : LiteralBody []
  | plain {c : Char} {cs : List Char} (hmark : c ∉ ['\'', '\\']) (hline : c ∉ lineEnds)
      (h : LiteralBody cs) : LiteralBody (c :: cs)
  | escape {c : Char} {cs : List Char} (hc : c ∈ escapable) (h : LiteralBody cs) :
      LiteralBody ('\\' :: c :: cs)

/-- The text is one string literal. -/
def IsLiteral (text : String) : Prop :=
  ∃ body, text.toList = '\'' :: body ++ ['\''] ∧ LiteralBody body

/-- No line ends inside a literal. -/
theorem LiteralBody.not_mem {cs : List Char} (h : LiteralBody cs) {c : Char} (hc : c ∈ lineEnds) :
    c ∉ cs := by
  have hbackslash : '\\' ∉ lineEnds := by decide
  have hescapable : ∀ d ∈ escapable, d ∉ lineEnds := by simp [escapable, lineEnds]
  induction h with
  | nil => exact List.not_mem_nil
  | plain hmark hline h ih =>
      intro hmem
      rcases List.mem_cons.mp hmem with rfl | hmem
      · exact hline hc
      · exact ih hmem
  | escape hd h ih =>
      intro hmem
      rcases List.mem_cons.mp hmem with rfl | hmem
      · exact hbackslash hc
      · rcases List.mem_cons.mp hmem with rfl | hmem
        · exact hescapable _ hd hc
        · exact ih hmem

/-- The text has no carriage return. -/
def ReturnFree (text : String) : Prop := '\r' ∉ text.toList

instance (text : String) : Decidable (ReturnFree text) :=
  inferInstanceAs (Decidable ('\r' ∉ text.toList))

theorem lineFeed_not_mem_quoteChar (c : Char) : '\n' ∉ quoteChar c := by
  unfold quoteChar
  split
  · decide
  · split
    · decide
    · split
      · decide
      · rename_i hfeed
        simpa using Ne.symm (show c ≠ '\n' by simpa using hfeed)

/-- Every line feed is written with a backslash. -/
theorem lineFeed_not_mem_quote (s : String) : '\n' ∉ (quote s).toList := by
  rw [toList_quote]
  unfold quoteChars
  simp only [List.cons_append, List.mem_cons, List.mem_append, List.mem_flatMap, List.not_mem_nil,
    or_false, not_or, not_exists, not_and]
  exact ⟨by decide, fun c _ => lineFeed_not_mem_quoteChar c, by decide⟩

theorem LiteralBody.quoteChar_append {c : Char} (hc : c ≠ '\r') {cs : List Char}
    (h : LiteralBody cs) : LiteralBody (quoteChar c ++ cs) := by
  unfold quoteChar
  split
  · exact .escape (by decide) h
  · rename_i hbackslash
    split
    · exact .escape (by decide) h
    · rename_i hquote
      split
      · exact .escape (by decide) h
      · rename_i hfeed
        simp only [beq_iff_eq] at hbackslash hquote hfeed
        exact .plain (by simp [hbackslash, hquote]) (by simp [lineEnds, hfeed, hc]) h

theorem LiteralBody.of_flatMap_quoteChar {cs : List Char} (hfree : '\r' ∉ cs) :
    LiteralBody (cs.flatMap quoteChar) := by
  induction cs with
  | nil => exact .nil
  | cons c cs ih =>
      rw [List.mem_cons, not_or] at hfree
      rw [List.flatMap_cons]
      exact .quoteChar_append (Ne.symm hfree.1) (ih hfree.2)

/-- The literal of a string is one exactly if the string has no carriage return. -/
theorem isLiteral_quote_iff (s : String) : IsLiteral (quote s) ↔ ReturnFree s := by
  have hquote : (quote s).toList = '\'' :: s.toList.flatMap quoteChar ++ ['\''] := toList_quote s
  constructor
  · rintro ⟨body, hbody, hliteral⟩ hreturn
    rw [hquote] at hbody
    have hsame : s.toList.flatMap quoteChar = body := by simpa using hbody
    refine hliteral.not_mem (c := '\r') (by decide) ?_
    rw [← hsame]
    exact List.mem_flatMap.mpr ⟨'\r', hreturn, by decide⟩
  · intro hfree
    exact ⟨_, hquote, .of_flatMap_quoteChar hfree⟩

/-! ### Fragments -/

/-- A part of a script. -/
inductive Fragment
  /-- Text that is copied. -/
  | copied (text : String)
  /-- The literal of a string. -/
  | string (text : String)
  deriving DecidableEq

/-- The fragment as it is written. -/
def Fragment.written : Fragment → List Char
  | copied text => text.toList
  | string text => (quote text).toList

/-- The fragments as they are written, one after the other. -/
def write (fragments : List Fragment) : String := String.ofList (fragments.flatMap Fragment.written)

/-- Lists of fragments with a copied text between each two of them. -/
def join (separator : String) (parts : List (List Fragment)) : List Fragment :=
  [Fragment.copied separator].intercalate parts

theorem toList_write (fragments : List Fragment) :
    (write fragments).toList = fragments.flatMap Fragment.written := String.toList_ofList

theorem write_nil : write [] = "" := rfl

theorem write_append (fragments others : List Fragment) :
    write (fragments ++ others) = write fragments ++ write others := by
  rw [← String.toList_inj, String.toList_append, toList_write, toList_write, toList_write,
    List.flatMap_append]

theorem write_copied (text : String) (fragments : List Fragment) :
    write (.copied text :: fragments) = text ++ write fragments := by
  rw [← String.toList_inj, String.toList_append, toList_write, toList_write]
  rfl

theorem write_one (text : String) : write [.copied text] = text := by
  rw [write_copied, write_nil, String.append_empty]

theorem write_string (text : String) (fragments : List Fragment) :
    write (.string text :: fragments) = quote text ++ write fragments := by
  rw [← String.toList_inj, String.toList_append, toList_write, toList_write]
  rfl

theorem write_join (separator : String) (parts : List (List Fragment)) :
    write (join separator parts) = separator.intercalate (parts.map write) := by
  unfold join
  induction parts with
  | nil => rfl
  | cons part parts ih =>
      cases parts with
      | nil => rw [List.intercalate_singleton, List.map_singleton, String.intercalate_singleton]
      | cons next parts =>
          rw [List.intercalate_cons_cons, List.map_cons, List.map_cons,
            String.intercalate_cons_cons, write_append, write_append, ih, write_one]
          rfl

/-- What holds of the strings of a list of fragments. -/
def Strings (P : String → Prop) (fragments : List Fragment) : Prop :=
  ∀ text, Fragment.string text ∈ fragments → P text

section

variable {P : String → Prop} {fragments others : List Fragment}

theorem strings_nil : Strings P [] := fun _ h => nomatch h

theorem Strings.copied (h : Strings P fragments) (text : String) :
    Strings P (.copied text :: fragments) := fun t ht => h t (by simpa using ht)

theorem Strings.string {text : String} (htext : P text) (h : Strings P fragments) :
    Strings P (.string text :: fragments) := by
  intro t ht
  rcases List.mem_cons.mp ht with heq | ht
  · cases heq
    exact htext
  · exact h t ht

theorem Strings.append (h : Strings P fragments) (hothers : Strings P others) :
    Strings P (fragments ++ others) := by
  intro t ht
  rcases List.mem_append.mp ht with ht | ht
  · exact h t ht
  · exact hothers t ht

theorem Strings.join {parts : List (List Fragment)} (h : ∀ part ∈ parts, Strings P part)
    (separator : String) : Strings P (Script.join separator parts) := by
  intro t ht
  unfold Script.join at ht
  rcases Text.mem_of_mem_intercalate ht with ht | ⟨part, hpart, ht⟩
  · exact nomatch List.mem_singleton.mp ht
  · exact h part hpart t ht

end

/-! ### Sums -/

/-- A piece of a text as an operand of the sum. -/
def Segment.fragments : Segment → List Fragment
  | literal text => [.string (.ofList text)]
  | interpolation expression => [.copied (.ofList ('(' :: Text.trimChars expression ++ [')']))]

/-- The sum of the pieces of a text. -/
def sumFragments (text : String) : List Fragment :=
  let segments := Segment.ofText text.toList
  let operands := segments.map Segment.fragments
  join "+" (if segments.head?.all Segment.isInterpolation then [.string ""] :: operands
    else operands)

theorem Segment.write_fragments (segment : Segment) :
    write segment.fragments = String.ofList segment.operand := by
  unfold fragments operand
  cases segment with
  | literal text =>
      dsimp only
      rw [write_string, write_nil, String.append_empty]
      unfold quote
      rw [String.toList_ofList]
  | interpolation expression => exact write_one _

theorem write_sum (text : String) : write (sumFragments text) = ofInterpolated text := by
  have hoperands : ∀ segments : List Segment,
      (segments.map Segment.fragments).map write
        = (segments.map Segment.operand).map String.ofList := by
    intro segments
    rw [List.map_map, List.map_map]
    exact List.map_congr_left fun segment _ => segment.write_fragments
  have hempty : write [.string ""] = String.ofList (quoteChars []) := by decide
  have hintercalate : ∀ parts : List (List Char),
      "+".intercalate (parts.map String.ofList) = String.ofList (['+'].intercalate parts) := by
    intro parts
    have hlists : (parts.map String.ofList).map String.toList = parts := by
      rw [List.map_map]
      exact (List.map_congr_left fun _ _ => String.toList_ofList).trans (List.map_id _)
    rw [← String.toList_inj, String.toList_intercalate, hlists]
    exact String.toList_ofList.symm
  unfold sumFragments ofInterpolated
  dsimp only
  rw [write_join, ← hintercalate]
  split
  · rw [List.map_cons, List.map_cons, hoperands, hempty]
  · rw [hoperands]

/-- The strings of a sum are stretches of its text. -/
theorem strings_sum {P : String → Prop} {text : String} (hempty : P "")
    (h : ∀ stretch : List Char, stretch ⊆ text.toList → P (.ofList stretch)) :
    Strings P (sumFragments text) := by
  have hoperands : ∀ part ∈ (Segment.ofText text.toList).map Segment.fragments,
      Strings P part := by
    intro part hpart
    obtain ⟨segment, hsegment, rfl⟩ := List.mem_map.mp hpart
    cases segment with
    | literal stretch =>
        refine strings_nil.string (h stretch fun c hc => ?_)
        rw [← Segment.flatMap_source_ofText text.toList]
        exact List.mem_flatMap.mpr ⟨_, hsegment, hc⟩
    | interpolation expression => exact strings_nil.copied _
  unfold sumFragments
  refine Strings.join (fun part hpart => ?_) "+"
  split at hpart
  · rcases List.mem_cons.mp hpart with rfl | hpart
    · exact strings_nil.string hempty
    · exact hoperands part hpart
  · exact hoperands part hpart

/-! ### Arrays and objects -/

/-- An array literal of strings. -/
def arrayFragments (items : List String) : List Fragment :=
  .copied "[" :: (join "," (items.map fun item => [.string item]) ++ [.copied "]"])

/-- An object literal. -/
def objectFragments (fields : List (String × List Fragment)) : List Fragment :=
  .copied "\x7b" :: (join "," (fields.map fun field =>
    .string field.1 :: .copied ":" :: field.2) ++ [.copied "\x7d"])

theorem write_array (items : List String) : write (arrayFragments items) = array items := by
  have hitems : (items.map fun item => [Fragment.string item]).map write = items.map quote := by
    rw [List.map_map]
    refine List.map_congr_left fun item _ => ?_
    rw [Function.comp_apply, write_string, write_nil, String.append_empty]
  unfold arrayFragments array
  rw [write_copied, write_append, write_join, hitems, write_one, String.append_assoc]

theorem write_object (fields : List (String × List Fragment)) :
    write (objectFragments fields) = object (fields.map fun field => (field.1, write field.2)) := by
  unfold objectFragments object
  rw [write_copied, write_append, write_join, write_one, List.map_map, List.map_map,
    String.append_assoc]
  refine congrArg (fun parts => "\x7b" ++ (",".intercalate parts ++ "\x7d"))
    (List.map_congr_left fun field _ => ?_)
  show write (.string field.1 :: .copied ":" :: field.2) = quote field.1 ++ ":" ++ write field.2
  rw [write_string, write_copied, String.append_assoc]

theorem strings_array {P : String → Prop} {items : List String} (h : ∀ item ∈ items, P item) :
    Strings P (arrayFragments items) := by
  refine Strings.copied (.append (.join (fun part hpart => ?_) ",") (strings_nil.copied _)) _
  obtain ⟨item, hitem, rfl⟩ := List.mem_map.mp hpart
  exact strings_nil.string (h item hitem)

theorem strings_object {P : String → Prop} {fields : List (String × List Fragment)}
    (h : ∀ field ∈ fields, P field.1 ∧ Strings P field.2) :
    Strings P (objectFragments fields) := by
  refine Strings.copied (.append (.join (fun part hpart => ?_) ",") (strings_nil.copied _)) _
  obtain ⟨field, hfield, rfl⟩ := List.mem_map.mp hpart
  obtain ⟨hkey, hvalue⟩ := h field hfield
  exact .string hkey (hvalue.copied ":")

/-! ### Two-way bindings -/

/-- The listener of input that is told the key. -/
def listenerFragments (key : String) : List Fragment :=
  [.copied (Dialect.modelProxy ++ "($event,"), .string key, .copied ")"]

theorem write_listener (eventName valueName key : String) :
    (ModelForm.listener eventName valueName).attributes key
      = [(eventName, some (write (listenerFragments key))), (valueName, some key)] := by
  unfold listenerFragments ModelForm.attributes
  rw [write_copied, write_string, write_one, String.append_assoc]

theorem strings_listener {P : String → Prop} {key : String} (h : P key) :
    Strings P (listenerFragments key) := .copied (.string h (strings_nil.copied _)) _

/-! ### The style options -/

/-- A field that is there if the option is. -/
def fieldFragments {α : Type} (key : String) (fragments : α → List Fragment) (option : Option α) :
    List (String × List Fragment) :=
  option.toList.map fun x => (key, fragments x)

/-- The options for lengths as an object literal. -/
def remFragments (options : RemOptions) : List Fragment :=
  objectFragments
    (fieldFragments "rootValue" (fun x => [.copied (number x)]) options.rootValue ++
      fieldFragments "minPixelValue" (fun x => [.copied (number x)]) options.minPixelValue)

/-- The options as an object literal. -/
def configFragments (config : StyleConfig) : List Fragment :=
  objectFragments (fieldFragments "rem" (fun x => [.copied (toString x)]) config.rem ++
    fieldFragments "scale" (fun x => [.copied (number x)]) config.scale ++
    fieldFragments "remOptions" remFragments config.remOptions ++
    fieldFragments "autoprefixOptions"
      (fun browsers => objectFragments [("browsers", arrayFragments browsers)]) config.browsers)

theorem map_write_field {α : Type} (key : String) {fragments : α → List Fragment}
    {written : α → String} (h : ∀ x, write (fragments x) = written x) (option : Option α) :
    (fieldFragments key fragments option).map (fun field => (field.1, write field.2))
      = StyleConfig.optionField key written option := by
  unfold fieldFragments StyleConfig.optionField
  rw [List.map_map]
  exact List.map_congr_left fun x _ => congrArg (key, ·) (h x)

theorem write_rem (options : RemOptions) :
    write (remFragments options) = StyleConfig.remLiteral options := by
  unfold remFragments StyleConfig.remLiteral
  rw [write_object, List.map_append, map_write_field _ fun x => write_one (number x),
    map_write_field _ fun x => write_one (number x)]

theorem write_config (config : StyleConfig) : write (configFragments config) = config.literal := by
  have hbrowsers : ∀ browsers : List String,
      write (objectFragments [("browsers", arrayFragments browsers)])
        = object [("browsers", array browsers)] := by
    intro browsers
    rw [write_object, ← write_array]
    rfl
  unfold configFragments StyleConfig.literal
  rw [write_object, List.map_append, List.map_append, List.map_append,
    map_write_field _ fun x => write_one (toString x),
    map_write_field _ fun x => write_one (number x), map_write_field _ write_rem,
    map_write_field _ hbrowsers]

theorem strings_field {α : Type} {P : String → Prop} {key : String}
    {fragments : α → List Fragment} {option : Option α} (hkey : P key)
    (h : ∀ x ∈ option, Strings P (fragments x)) :
    ∀ field ∈ fieldFragments key fragments option, P field.1 ∧ Strings P field.2 := by
  intro field hfield
  obtain ⟨x, hx, rfl⟩ := List.mem_map.mp hfield
  exact ⟨hkey, h x (Option.mem_toList.mp hx)⟩

/-- The strings of the options are the names of fields and the browsers. -/
theorem strings_config {config : StyleConfig}
    (h : ∀ browser ∈ config.browsers.getD [], ReturnFree browser) :
    Strings ReturnFree (configFragments config) := by
  have hone : ∀ text, Strings ReturnFree [.copied text] := fun text => strings_nil.copied text
  have hrem : ∀ options ∈ config.remOptions, Strings ReturnFree (remFragments options) := by
    intro options _
    refine strings_object (List.forall_mem_append.mpr ⟨?_, ?_⟩)
    · exact strings_field (by decide) fun x _ => hone (number x)
    · exact strings_field (by decide) fun x _ => hone (number x)
  have hbrowsers : ∀ browsers ∈ config.browsers,
      Strings ReturnFree (objectFragments [("browsers", arrayFragments browsers)]) := by
    intro browsers hmem
    refine strings_object fun field hfield => ?_
    rw [List.mem_singleton.mp hfield]
    rw [Option.mem_def.mp hmem, Option.getD_some] at h
    exact ⟨show ReturnFree "browsers" by decide, strings_array h⟩
  refine strings_object ?_
  rw [List.forall_mem_append, List.forall_mem_append, List.forall_mem_append]
  refine ⟨⟨⟨?_, ?_⟩, ?_⟩, ?_⟩
  · exact strings_field (by decide) fun x _ => hone (toString x)
  · exact strings_field (by decide) fun x _ => hone (number x)
  · exact strings_field (by decide) hrem
  · exact strings_field (by decide) hbrowsers

/-! ### Dynamic styles -/

/-- The expression of a binding of the style. -/
def operandFragments (text : String) : List Fragment :=
  let expression := Text.trim text
  if Text.holds "\x7b\x7b" expression then sumFragments expression else [.copied expression]

/-- The text of all expressions together. -/
def joinedFragments : List (List Fragment) → List Fragment
  | [operand] => operand
  | operands => join "+';'+" (operands.map fun operand => .copied "(" :: (operand ++ [.copied ")"]))

/-- The call that resolves a dynamic style. -/
def callFragments (mode : StyleMode) (config : Option StyleConfig) (expression : List Fragment) :
    List Fragment :=
  .copied (Dialect.styleProxy ++ "((") :: (expression ++
    match mode, config with
    | .proxyWithConfig, some config => .copied ")," :: (configFragments config ++ [.copied ")"])
    | _, _ => [.copied "))"])

/-- The expressions of the texts, where blank ones are dropped. -/
def mergedFragments (texts : List String) : List (List Fragment) :=
  (texts.filter fun text => !Text.isBlankText text).map operandFragments

theorem write_operand (text : String) : write (operandFragments text) = styleOperandOf text := by
  unfold operandFragments styleOperandOf
  dsimp only
  split
  · exact write_sum _
  · exact write_one _

theorem map_write_merged (texts : List String) :
    (mergedFragments texts).map write = mergedOperands texts := by
  unfold mergedFragments mergedOperands
  rw [List.map_map]
  exact List.map_congr_left fun text _ => write_operand text

theorem write_joined (operands : List (List Fragment)) :
    write (joinedFragments operands) = joinStyles (operands.map write) := by
  have hmany : write (join "+';'+"
        (operands.map fun operand => .copied "(" :: (operand ++ [.copied ")"])))
      = "+';'+".intercalate ((operands.map write).map fun operand => "(" ++ operand ++ ")") := by
    rw [write_join, List.map_map, List.map_map]
    refine congrArg _ (List.map_congr_left fun operand _ => ?_)
    rw [Function.comp_apply, Function.comp_apply, write_copied, write_append, write_one,
      String.append_assoc]
  match operands with
  | [] => exact hmany
  | [operand] => rfl
  | _ :: _ :: _ => exact hmany

theorem write_call (mode : StyleMode) (config : Option StyleConfig) (expression : List Fragment) :
    write (callFragments mode config expression) = styleCall mode config (write expression) := by
  unfold callFragments styleCall
  rw [write_copied, write_append]
  split
  · rw [write_copied, write_append, write_one, write_config]
    simp only [String.append_assoc]
  · rw [write_one]
    simp only [String.append_assoc]

/-- The strings of an operand are stretches of its text. -/
theorem strings_operand {P : String → Prop} {text : String} (hempty : P "")
    (h : ∀ stretch : List Char, stretch ⊆ (Text.trim text).toList → P (.ofList stretch)) :
    Strings P (operandFragments text) := by
  unfold operandFragments
  dsimp only
  split
  · exact strings_sum hempty h
  · exact strings_nil.copied _

theorem strings_joined {P : String → Prop} {operands : List (List Fragment)}
    (h : ∀ operand ∈ operands, Strings P operand) : Strings P (joinedFragments operands) := by
  have hmany : Strings P (join "+';'+"
      (operands.map fun operand => .copied "(" :: (operand ++ [.copied ")"]))) := by
    refine .join (fun part hpart => ?_) _
    obtain ⟨operand, hoperand, rfl⟩ := List.mem_map.mp hpart
    exact .copied (.append (h operand hoperand) (strings_nil.copied _)) _
  unfold joinedFragments
  split
  · exact h _ (List.mem_singleton_self _)
  · exact hmany

theorem strings_call {config : Option StyleConfig} {expression : List Fragment}
    (mode : StyleMode) (hexpression : Strings ReturnFree expression)
    (h : ∀ browser ∈ (config.bind StyleConfig.browsers).getD [], ReturnFree browser) :
    Strings ReturnFree (callFragments mode config expression) := by
  unfold callFragments
  refine .copied (hexpression.append ?_) _
  split
  · exact .copied (.append (strings_config h) (strings_nil.copied _)) _
  · exact strings_nil.copied _

end Script

end TemplateCompiler
