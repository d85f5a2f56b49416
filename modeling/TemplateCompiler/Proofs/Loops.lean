/-
Loop expressions, written and taken apart again.

A loop names its aliases in a list in parentheses, or it has one alias, which is an identifier
or a pattern in brackets.  Then come blanks, the keyword, ASCII blanks and the source.  However
this is written, the aliases and the source are found again, whatever the source holds.

The keyword is found because no other can stand before it: what is between brackets is not at
the top, a character of an identifier has nothing before it after which a keyword can stand,
and blanks are no keywords.  The aliases of a list are found because each of them is closed
and has no comma at the top, so they are the pieces of what stands between the parentheses.
-/
import TemplateCompiler.Adapter.Iteration
import TemplateCompiler.Proofs.Blanks
import TemplateCompiler.Proofs.Closed
import TemplateCompiler.Proofs.Spelling

namespace TemplateCompiler

namespace Iteration

variable {s : Nesting} {previous : Option Char} {front back cs : List Char} {b c o : Char}

/-! ### Before the keyword -/

/-- No keyword begins in the text, whatever follows it. -/
def Passed (s : Nesting) (previous : Option Char) : List Char → Prop
  | [] => True
  | c :: rest => (s.atTop quoting c = true → opensKeyword previous = true → c ≠ 'i' ∧ c ≠ 'o') ∧
      Passed (s.step quoting c) (some c) rest

theorem atKeyword_eq_false {rest : List Char} (h : c ≠ 'i' ∧ c ≠ 'o') :
    atKeyword (c :: rest) = false := by
  unfold atKeyword
  split
  · rename_i heq
    exact absurd (List.cons.inj heq).1 h.1
  · rename_i heq
    exact absurd (List.cons.inj heq).1 h.2
  · rfl

theorem getLast?_cons_or (c : Char) (cs : List Char) (previous : Option Char) :
    (c :: cs).getLast?.or previous = cs.getLast?.or (some c) := by
  cases cs using List.reverseRecOn with
  | nil => rfl
  | append_singleton cs d =>
      rw [← List.cons_append, List.getLast?_concat, List.getLast?_concat]
      rfl

theorem Passed.splitKeyword_append (h : Passed s previous front) (back : List Char) :
    splitKeyword s previous (front ++ back)
      = (splitKeyword (Nesting.scan quoting s front) (front.getLast?.or previous) back).map
          fun (before, after) => (front ++ before, after) := by
  induction front generalizing s previous with
  | nil =>
      show splitKeyword s previous back = (splitKeyword s previous back).map id
      rw [Option.map_id, id]
  | cons c front ih =>
      obtain ⟨hhere, hrest⟩ := h
      have hnot : ¬(s.atTop quoting c && opensKeyword previous
          && atKeyword (c :: (front ++ back))) = true := by
        intro hat
        rw [Bool.and_eq_true, Bool.and_eq_true] at hat
        rw [atKeyword_eq_false (hhere hat.1.1 hat.1.2)] at hat
        cases hat.2
      rw [List.cons_append, splitKeyword, if_neg hnot, ih hrest, Option.map_map,
        getLast?_cons_or]
      rfl

theorem Passed.append (hfront : Passed s previous front)
    (hback : Passed (Nesting.scan quoting s front) (front.getLast?.or previous) back) :
    Passed s previous (front ++ back) := by
  induction front generalizing s previous with
  | nil => exact hback
  | cons c front ih =>
      rw [getLast?_cons_or] at hback
      exact ⟨hfront.1, ih hfront.2 hback⟩

/-- Nothing begins where nothing is at the top. -/
theorem passed_of_throughout
    (h : Nesting.throughout quoting (fun s c => !s.atTop quoting c) s cs = true) :
    Passed s previous cs := by
  induction cs generalizing s previous with
  | nil => trivial
  | cons c cs ih =>
      obtain ⟨hhere, hrest⟩ := Nesting.throughout_cons_iff.mp h
      refine ⟨fun htop => ?_, ih hrest⟩
      rw [htop] at hhere
      cases hhere

theorem passed_of_forall (h : ∀ c ∈ cs, c ≠ 'i' ∧ c ≠ 'o') : Passed s previous cs := by
  induction cs generalizing s previous with
  | nil => trivial
  | cons c cs ih =>
      exact ⟨fun _ _ => h c List.mem_cons_self, ih fun d hd => h d (List.mem_cons_of_mem c hd)⟩

/-- Within a text after whose characters no keyword can stand none begins. -/
theorem passed_of_opens (hprevious : opensKeyword previous = false)
    (h : ∀ c ∈ cs, opensKeyword (some c) = false) : Passed s previous cs := by
  induction cs generalizing s previous with
  | nil => trivial
  | cons c cs ih =>
      refine ⟨fun _ hopens => ?_,
        ih (h c List.mem_cons_self) fun d hd => h d (List.mem_cons_of_mem c hd)⟩
      rw [hprevious] at hopens
      cases hopens

/-- The keyword is found behind a text in which none begins. -/
theorem splitKeyword_of_passed {keyword : String} (hkeyword : keyword = "in" ∨ keyword = "of")
    (hpassed : Passed .outside none front) (hscan : Nesting.scan quoting .outside front = .outside)
    (hlast : opensKeyword front.getLast? = true) (hb : isAsciiBlank b = true) (back : List Char) :
    splitKeyword .outside none (front ++ (keyword.toList ++ b :: back)) = some (front, b :: back) := by
  have htop : Nesting.outside.atTop quoting 'i' = true ∧ Nesting.outside.atTop quoting 'o' = true := by
    decide
  have hhere : splitKeyword .outside front.getLast? (keyword.toList ++ b :: back)
      = some ([], b :: back) := by
    rcases hkeyword with rfl | rfl
    · show splitKeyword .outside front.getLast? ('i' :: 'n' :: b :: back) = _
      rw [splitKeyword, htop.1, hlast, atKeyword, hb]
      rfl
    · show splitKeyword .outside front.getLast? ('o' :: 'f' :: b :: back) = _
      rw [splitKeyword, htop.2, hlast, atKeyword, hb]
      rfl
  rw [hpassed.splitKeyword_append, hscan, Option.or_none, hhere, Option.map_some]
  dsimp only
  rw [List.append_nil]

/-! ### Characters -/

/-- A blank is at the top where nothing is open, and no keyword begins with one. -/
theorem atTop_of_isBlank (h : isBlank c = true) :
    Nesting.outside.atTop quoting c = true ∧ c ≠ 'i' ∧ c ≠ 'o' :=
  @forall_isBlank (fun c => Nesting.outside.atTop quoting c = true ∧ c ≠ 'i' ∧ c ≠ 'o')
    (by decide +kernel) c h

theorem isBlank_of_isAsciiBlank (h : isAsciiBlank c = true) : isBlank c = true := by
  simp only [isAsciiBlank, Bool.or_eq_true, beq_iff_eq] at h
  rcases h with (((rfl | rfl) | rfl) | rfl) | rfl <;> decide

/-- Brackets are neither blanks nor marks of literals. -/
theorem bracket_plain (h : Nesting.isOpening c = true ∨ Nesting.isClosing c = true) :
    isBlank c = false ∧ quoting.marks.contains c = false := by
  simp only [Nesting.isOpening, Nesting.isClosing, Bool.or_eq_true, beq_iff_eq] at h
  rcases h with ((rfl | rfl) | rfl) | (rfl | rfl) | rfl <;> decide

/-- A character of an identifier is no blank, and at the top where nothing is open. -/
theorem isIdentifierPart_plain (h : isIdentifierPart c = true) :
    isBlank c = false ∧ Nesting.outside.atTop quoting c = true := by
  constructor
  · rw [← Bool.not_eq_true]
    intro hblank
    have hnot : isIdentifierPart c = false :=
      @forall_isBlank (isIdentifierPart · = false) (by decide +kernel) c hblank
    rw [hnot] at h
    cases h
  · have hplain : ['\'', '"', '`', '(', '[', '{', ')', ']', '}'].any isIdentifierPart = false := by
      decide +kernel
    have hne : ∀ d ∈ ['\'', '"', '`', '(', '[', '{', ')', ']', '}'], c ≠ d := by
      rintro d hd rfl
      exact List.any_eq_false.mp hplain c hd h
    simp only [List.forall_mem_cons] at hne
    simp [Nesting.atTop, Nesting.outside, Nesting.isOpening, Nesting.isClosing, quoting, hne]

theorem scan_of_forall (h : ∀ c ∈ cs, Nesting.outside.atTop quoting c = true) :
    Nesting.scan quoting .outside cs = .outside := by
  induction cs with
  | nil => rfl
  | cons c cs ih =>
      show Nesting.scan quoting (Nesting.outside.step quoting c) cs = _
      rw [Nesting.step_of_atTop (h c List.mem_cons_self)]
      exact ih fun d hd => h d (List.mem_cons_of_mem c hd)

/-! ### Names of aliases -/

/-- An alias that a list of aliases can hold. -/
structure IsAlias (name : String) : Prop where
  ne_empty : name ≠ ""
  trimmed : Text.trim name = name
  closed : Nesting.Closed quoting name.toList
  /-- No comma stands outside brackets and literals. -/
  whole : Nesting.lacksTop quoting ',' name.toList = true

instance (name : String) : Decidable (IsAlias name) :=
  decidable_of_iff (name ≠ "" ∧ Text.trim name = name ∧ Nesting.Closed quoting name.toList ∧
      Nesting.lacksTop quoting ',' name.toList = true)
    ⟨fun h => ⟨h.1, h.2.1, h.2.2.1, h.2.2.2⟩, fun h => ⟨h.ne_empty, h.trimmed, h.closed, h.whole⟩⟩

/-- How the aliases of a loop can be written. -/
inductive Naming
  /-- A list in parentheses. -/
  | list (aliases : List String) (ne_nil : aliases ≠ []) (valid : ∀ name ∈ aliases, IsAlias name)
  /-- One identifier. -/
  | identifier (name : String) (valid : isIdentifier name = true)
  /-- One pattern in braces. -/
  | braces (pattern : String) (closed : Nesting.Closed quoting pattern.toList)
  /-- One pattern in square brackets. -/
  | brackets (pattern : String) (closed : Nesting.Closed quoting pattern.toList)

namespace Naming

/-- The text that names the aliases. -/
def text : Naming → String
  | list aliases _ _ => "(" ++ ",".intercalate aliases ++ ")"
  | identifier name _ => name
  | braces pattern _ => "\x7b" ++ pattern ++ "\x7d"
  | brackets pattern _ => "[" ++ pattern ++ "]"

/-- The aliases. -/
def aliases : Naming → List String
  | list aliases _ _ => aliases
  | single => [single.text]

/-- A keyword is set off from an identifier. -/
def needsGap : Naming → Bool
  | identifier _ _ => true
  | _ => false

end Naming

/-- The text is passed over on the way to the keyword, and then names these aliases. -/
structure Reads (cs : List Char) (aliases : List (List Char)) : Prop where
  trimmed : Text.Trimmed cs
  ne_nil : cs ≠ []
  passed : Passed .outside none cs
  scan : Nesting.scan quoting .outside cs = .outside
  split : splitAliases cs = aliases
  filled : ∀ name ∈ aliases, name ≠ []

/-- What is in brackets is passed over as a whole. -/
theorem reads_enclosed {aliases : List (List Char)} (h : Nesting.Closed quoting cs)
    (ho : Nesting.isOpening o = true) (hc : Nesting.isClosing c = true)
    (haliases : splitAliases (o :: cs ++ [c]) = aliases) (hfilled : ∀ name ∈ aliases, name ≠ []) :
    Reads (o :: cs ++ [c]) aliases := by
  obtain ⟨hblank, hmark⟩ := bracket_plain (.inl ho)
  obtain ⟨hblank', hmark'⟩ := bracket_plain (.inr hc)
  obtain ⟨hscan, hthroughout⟩ := h.enclosed ho hc ⟨hmark, hmark'⟩
  refine ⟨?_, List.cons_ne_nil o _, passed_of_throughout hthroughout, hscan, haliases, hfilled⟩
  exact Text.trimChars_eq_self hblank hblank' cs ▸ Text.trimmed_trimChars _

theorem splitAliases_of_ne (h : cs.head? ≠ some '(') : splitAliases cs = [cs] := by
  have hinside : insideParentheses? cs = none := by
    unfold insideParentheses?
    split
    · exact absurd rfl h
    · rfl
  unfold splitAliases
  rw [hinside]

/-- Aliases between parentheses are the pieces between the commas at the top. -/
theorem splitAliases_list {aliases : List String} (hne : aliases ≠ [])
    (h : ∀ name ∈ aliases, IsAlias name) :
    splitAliases ('(' :: [','].intercalate (aliases.map String.toList) ++ [')'])
      = aliases.map String.toList := by
  have hpieces : Nesting.Pieces quoting ',' (aliases.map String.toList) := by
    refine ⟨List.forall_mem_map.mpr fun name hname =>
      Nesting.unbroken_of_lacksTop (h name hname).whole,
      List.pairwise_of_forall_mem_list (List.forall_mem_map.mpr fun name hname _ _ =>
        (h name hname).closed.scan_eq)⟩
  have hinside : ∀ list, insideParentheses? ('(' :: list ++ [')']) = some list := by
    intro list
    show (if (list ++ [')']).getLast? == some ')' then some (list ++ [')']).dropLast else none) = _
    rw [List.getLast?_concat, List.dropLast_concat]
    rfl
  unfold splitAliases
  rw [hinside]
  dsimp only
  rw [hpieces.splitTop_intercalate (by decide) (by simpa using hne), List.map_map]
  exact List.map_congr_left fun name hname =>
    (Text.trimmed_of_trim_eq (h name hname).trimmed).trimChars_eq

theorem reads_identifier {name : String} (h : isIdentifier name = true) :
    Reads name.toList [name.toList] := by
  have hplain : ∀ c ∈ name.toList, isBlank c = false ∧ Nesting.outside.atTop quoting c = true :=
    fun c hc => isIdentifierPart_plain (isIdentifierPart_of_mem h hc)
  have hopens : ∀ c ∈ name.toList, opensKeyword (some c) = false := by
    intro c hc
    obtain ⟨hblank, htop⟩ := hplain c hc
    have hclosing : Nesting.isClosing c = false := by
      rw [Nesting.atTop, Bool.and_eq_true, Bool.not_eq_true'] at htop
      exact htop.2
    rw [opensKeyword, hblank, hclosing]
    rfl
  have hne : name.toList ≠ [] := by
    intro hnil
    rw [isIdentifier, hnil] at h
    cases h
  refine ⟨⟨fun c hc => (hplain c (List.mem_of_mem_head? hc)).1,
    fun c hc => (hplain c (List.mem_of_mem_getLast? hc)).1⟩, hne, passed_of_opens rfl hopens,
    scan_of_forall fun c hc => (hplain c hc).2, splitAliases_of_ne ?_, ?_⟩
  · intro hhead
    exact absurd (hplain '(' (List.mem_of_mem_head? hhead)).2 (by decide)
  · intro name hname
    exact List.mem_singleton.mp hname ▸ hne

theorem toList_around {front close : String} (hfront : front.toList = [o])
    (hclose : close.toList = [c]) (s : String) :
    (front ++ s ++ close).toList = o :: s.toList ++ [c] := by
  rw [String.toList_append, String.toList_append, hfront, hclose]
  rfl

/-- A pattern in other brackets than parentheses is one alias. -/
theorem reads_pattern {pattern front close : String} (h : Nesting.Closed quoting pattern.toList)
    (hfront : front.toList = [o]) (hclose : close.toList = [c]) (ho : Nesting.isOpening o = true)
    (hc : Nesting.isClosing c = true) (hne : o ≠ '(') :
    Reads (front ++ pattern ++ close).toList [(front ++ pattern ++ close).toList] := by
  rw [toList_around hfront hclose]
  refine reads_enclosed h ho hc (splitAliases_of_ne fun hhead => hne ?_) fun name hname => ?_
  · exact Option.some.inj hhead
  · rw [List.mem_singleton.mp hname]
    exact List.cons_ne_nil o _

theorem Naming.reads (naming : Naming) :
    Reads naming.text.toList (naming.aliases.map String.toList) := by
  cases naming with
  | list aliases hne h =>
      have hclosed : Nesting.Closed quoting (",".intercalate aliases).toList := by
        rw [String.toList_intercalate]
        exact Nesting.closed_intercalate (by decide)
          (List.forall_mem_map.mpr fun name hname => (h name hname).closed)
      have haliases := splitAliases_list hne h
      rw [show [','] = ",".toList from rfl, ← String.toList_intercalate] at haliases
      show Reads ("(" ++ ",".intercalate aliases ++ ")").toList _
      rw [toList_around rfl rfl]
      exact reads_enclosed hclosed rfl rfl haliases (List.forall_mem_map.mpr fun name hname hnil =>
        (h name hname).ne_empty (String.toList_inj.mp hnil))
  | identifier name h => exact reads_identifier h
  | braces pattern h => exact reads_pattern h rfl rfl rfl rfl (by decide)
  | brackets pattern h => exact reads_pattern h rfl rfl rfl rfl (by decide)

/-! ### Loop expressions -/

/-- A loop expression put together from its parts. -/
structure Rendering where
  naming : Naming
  gap : String
  keyword : String
  space : String
  source : String
  gap_blank : Text.isBlankText gap = true
  gap_ne : naming.needsGap = true → gap ≠ ""
  keyword_eq : keyword = "in" ∨ keyword = "of"
  space_blank : space.toList.all isAsciiBlank = true
  space_ne : space ≠ ""
  /-- Nothing else is asked of the source. -/
  source_trimmed : Text.trim source = source
  source_ne : source ≠ ""

namespace Rendering

/-- The loop expression. -/
def text (r : Rendering) : String :=
  r.naming.text ++ r.gap ++ r.keyword ++ r.space ++ r.source

/-- A keyword can stand after the aliases and the blanks that follow them. -/
theorem opensKeyword_getLast? (r : Rendering) :
    opensKeyword (r.naming.text.toList ++ r.gap.toList).getLast? = true := by
  cases hgap : r.gap.toList using List.reverseRecOn with
  | append_singleton gap c =>
      have hblank : isBlank c = true :=
        List.all_eq_true.mp r.gap_blank c (by rw [hgap]; exact List.mem_concat_self)
      rw [← List.append_assoc, List.getLast?_concat, opensKeyword, hblank]
      rfl
  | nil =>
      -- Without blanks the aliases end with a bracket.
      have hneeds : r.naming.needsGap ≠ true := fun hneeds =>
        r.gap_ne hneeds (String.toList_inj.mp hgap)
      have hend : ∀ (front close : String) {c : Char}, close.toList = [c] →
          Nesting.isClosing c = true → opensKeyword (front ++ close).toList.getLast? = true := by
        intro front close c hclose hc
        rw [String.toList_append, hclose, List.getLast?_concat, opensKeyword, hc, Bool.or_true]
      rw [List.append_nil]
      cases hnaming : r.naming with
      | list aliases hne h => exact hend _ ")" rfl rfl
      | identifier name h => exact absurd (by rw [hnaming]; rfl) hneeds
      | braces pattern h => exact hend _ "\x7d" rfl rfl
      | brackets pattern h => exact hend _ "]" rfl rfl

/-- The parts of a loop expression are found again. -/
theorem parse?_text (r : Rendering) : parse? r.text = some ⟨r.naming.aliases, r.source⟩ := by
  have hreads := r.naming.reads
  have hgap : ∀ c ∈ r.gap.toList, isBlank c = true := List.all_eq_true.mp r.gap_blank
  obtain ⟨b, space, hspace⟩ :=
    List.exists_cons_of_ne_nil fun hnil => r.space_ne (String.toList_inj.mp hnil)
  have hascii : ∀ c ∈ b :: space, isAsciiBlank c = true :=
    hspace ▸ List.all_eq_true.mp r.space_blank
  have hsource : r.source.toList ≠ [] := fun hnil => r.source_ne (String.toList_inj.mp hnil)
  have htext : r.text.toList = (r.naming.text.toList ++ r.gap.toList)
      ++ (r.keyword.toList ++ b :: (space ++ r.source.toList)) := by
    simp only [text, String.toList_append, hspace, List.append_assoc, List.cons_append]
  have hpassed : Passed .outside none (r.naming.text.toList ++ r.gap.toList) :=
    hreads.passed.append (passed_of_forall fun c hc => (atTop_of_isBlank (hgap c hc)).2)
  have hscan : Nesting.scan quoting .outside (r.naming.text.toList ++ r.gap.toList) = .outside := by
    have hblanks := scan_of_forall fun c hc => (atTop_of_isBlank (hgap c hc)).1
    rw [Nesting.scan_append, hreads.scan, hblanks]
  have hsplit := splitKeyword_of_passed r.keyword_eq hpassed hscan r.opensKeyword_getLast?
    (hascii b List.mem_cons_self) (space ++ r.source.toList)
  have hnamed : Text.trimChars (r.naming.text.toList ++ r.gap.toList) = r.naming.text.toList :=
    hreads.trimmed.trimChars_append hreads.ne_nil (fun c hc => absurd hc List.not_mem_nil) hgap
  have hafter : Text.trimChars (b :: (space ++ r.source.toList)) = r.source.toList := by
    have htrimmed := (Text.trimmed_of_trim_eq r.source_trimmed).trimChars_append hsource
      (fun c hc => isBlank_of_isAsciiBlank (hascii c hc)) (fun c hc => absurd hc List.not_mem_nil)
    rwa [List.append_nil] at htrimmed
  have hfilled : (r.naming.aliases.map String.toList).any List.isEmpty = false :=
    List.any_eq_false.mpr fun name hname hempty =>
      hreads.filled name hname (List.isEmpty_iff.mp hempty)
  unfold parse? parseChars?
  rw [htext, hsplit]
  dsimp only
  rw [hnamed, hafter, hreads.split, hfilled, List.isEmpty_eq_false_iff.mpr hreads.ne_nil,
    List.isEmpty_eq_false_iff.mpr hsource]
  show some (Iteration.mk ((r.naming.aliases.map String.toList).map String.ofList)
    (String.ofList r.source.toList)) = _
  rw [List.map_map, String.ofList_toList]
  simp

end Rendering

end Iteration

namespace Adapter

/-- However a loop expression is put together, its aliases and its source are found again.  A mini
program accepts it if there are at most two aliases and each is an identifier, and then the item,
the index and the source stand where the loop stood. -/
theorem iteration_rendering (r : Iteration.Rendering) :
    Iteration.parse? r.text = some ⟨r.naming.aliases, r.source⟩ ∧
    ∀ {target : Target}, target.isMiniProgram = true → ∀ {setting : Setting},
      setting.dialect = target.dialect → ∀ (site : Site) {attrs : Attributes} {d : Directive},
        attrs.directive? .forEach = some d → d.expression = r.text →
          ∃ itemName indexName sourceName encoding,
            target.dialect.iteration = .split itemName indexName sourceName encoding ∧
            iteration setting site attrs
              = if r.naming.aliases.length ≤ 2 ∧ ∀ name ∈ r.naming.aliases, isIdentifier name = true
                then .ok (attrs.replaceD d.name [(itemName, some (r.naming.aliases.headD "")),
                  (indexName, some ((r.naming.aliases[1]?).getD "index")),
                  (sourceName, some (encoding.encode r.source))])
                else .error (.badIteration site.tag r.text site.span) := by
  refine ⟨r.parse?_text, fun {target} hmini {setting} hdialect site {attrs d} hd hexpression => ?_⟩
  obtain ⟨itemName, indexName, sourceName, encoding, hform⟩ : ∃ itemName indexName sourceName
      encoding, target.dialect.iteration = .split itemName indexName sourceName encoding := by
    cases target with
    | web | weex => cases hmini
    | wx | alipay | baidu => exact ⟨_, _, _, _, rfl⟩
  refine ⟨itemName, indexName, sourceName, encoding, hform, ?_⟩
  have hfits : Iteration.isSplittable ⟨r.naming.aliases, r.source⟩ = true ↔
      r.naming.aliases.length ≤ 2 ∧ ∀ name ∈ r.naming.aliases, isIdentifier name = true := by
    rw [Iteration.isSplittable, Iteration.hasSimpleAliases, Bool.and_eq_true, decide_eq_true_eq,
      List.all_eq_true]
  rw [iteration_of_split (hdialect ▸ hform) hd, hexpression, r.parse?_text, Option.filter_some]
  by_cases h : r.naming.aliases.length ≤ 2 ∧ ∀ name ∈ r.naming.aliases, isIdentifier name = true
  · rw [if_pos h, if_pos (hfits.mpr h)]
    rfl
  · rw [if_neg h, if_neg (mt hfits.mp h)]

/-- A pattern that holds a keyword and a comma is one alias and no identifier; a source may hold the
keyword again and brackets that nothing closes. -/
theorem iteration_rendering_pattern :
    let site : Site := ⟨"view", ⟨0, 0⟩, fun _ => none⟩
    let pattern := "(\x7b a = \" in, \" \x7d,i)in\tlist of (x"
    let plain := "größe of in [x"
    Iteration.parse? pattern = some ⟨["\x7b a = \" in, \" \x7d", "i"], "list of (x"⟩ ∧
    iteration (.forTarget .wx none) site ⟨[("v-for", some pattern)]⟩
      = .error (.badIteration "view" pattern ⟨0, 0⟩) ∧
    iteration (.forTarget .wx none) site ⟨[("id", none), ("v-for", some plain), ("k", none)]⟩
      = .ok ⟨[("id", none), ("wx:for-item", some "größe"), ("wx:for-index", some "index"),
          ("wx:for", some "\x7b\x7bin [x\x7d\x7d"), ("k", none)]⟩ := by
  intro site pattern plain
  let r : Iteration.Rendering := {
    naming := .list ["\x7b a = \" in, \" \x7d", "i"] (by decide) (by decide +kernel)
    gap := "", keyword := "in", space := "\t", source := "list of (x"
    gap_blank := rfl, gap_ne := nofun, keyword_eq := .inl rfl, space_blank := rfl
    space_ne := by decide, source_trimmed := by decide +kernel, source_ne := by decide }
  let r' : Iteration.Rendering := {
    naming := .identifier "größe" (by decide +kernel)
    gap := " ", keyword := "of", space := " ", source := "in [x"
    gap_blank := rfl, gap_ne := fun _ => by decide, keyword_eq := .inr rfl, space_blank := rfl
    space_ne := by decide, source_trimmed := by decide +kernel, source_ne := by decide }
  have htext : r.text = pattern ∧ r'.text = plain := by decide +kernel
  obtain ⟨hparse, hadapt⟩ := iteration_rendering r
  obtain ⟨itemName, indexName, sourceName, encoding, hform, heq⟩ :=
    @hadapt .wx rfl (.forTarget .wx none) rfl site ⟨[("v-for", some pattern)]⟩
      ⟨.forEach, "v-for", none, [], some pattern⟩ (by decide) htext.1.symm
  obtain ⟨-, hadapt'⟩ := iteration_rendering r'
  obtain ⟨itemName', indexName', sourceName', encoding', hform', heq'⟩ :=
    @hadapt' .wx rfl (.forTarget .wx none) rfl site ⟨[("id", none), ("v-for", some plain), ("k", none)]⟩
      ⟨.forEach, "v-for", none, [], some plain⟩ (by decide) htext.2.symm
  cases hform'
  rw [htext.1] at hparse
  refine ⟨hparse, ?_, ?_⟩
  · rw [heq, if_neg (by decide +kernel), htext.1]
  · rw [heq', if_pos (by decide +kernel)]
    decide +kernel

end Adapter

end TemplateCompiler
