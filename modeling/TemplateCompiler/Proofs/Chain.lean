/-
The pass over conditions accepts exactly the templates whose chains are whole.

The adapter looks at the attributes of the element before, and these are adapted already:
they carry the platform's names and not the author's.  What it reads there is nevertheless
what the author wrote.  An adapted element has the platform's name for a condition if and
only if it had the condition, because at most one condition stands on it, the platform's
names for the three conditions differ, and no element had such a name to begin with.

The last point is an assumption where the platform's names are its own.  Where they are
the names of the directives themselves, an element that has one has the condition.
-/
import TemplateCompiler.Proofs.Adaptation
import TemplateCompiler.Proofs.Writing

namespace TemplateCompiler

/-! ### Whole chains -/

namespace Attributes

/-- The element begins or continues a chain, as the author wrote it. -/
def BeginsChain (attrs : Attributes) : Prop :=
  ∃ c ∈ attrs.conditionals, c.kind = .ifCond ∨ c.kind = .elseIf

end Attributes

namespace Document

/-- The nearest element before, among the siblings, begins or continues a chain. -/
def FollowsChain (d : Document) (id : Nat) : Prop :=
  ∃ p e, d.previousElement? id = some p ∧ d.element? p = some e ∧ e.attrs.BeginsChain

/-- The element has at most one condition, and one that continues a chain has a chain to
continue. -/
structure ChainedAt (d : Document) (id : Nat) (e : Element) : Prop where
  one : e.attrs.conditionals.length ≤ 1
  follows : ∀ c ∈ e.attrs.conditionals, c.kind = .elseIf ∨ c.kind = .otherwise → d.FollowsChain id

end Document

/-! ### The names of a platform -/

namespace ConditionalNames

/-- The names for the three conditions differ. -/
structure Apart (names : ConditionalNames) : Prop where
  if_elseIf : names.ifName ≠ names.elseIfName
  if_else : names.ifName ≠ names.elseName
  elseIf_else : names.elseIfName ≠ names.elseName

/-- No attribute has the name for a condition by chance. -/
def FreeIn (names : ConditionalNames) (attrs : Attributes) : Prop :=
  ∀ n ∈ attrs.names, n = names.ifName ∨ n = names.elseIfName →
    ∃ c ∈ attrs.conditionals, c.name = n

variable {names : ConditionalNames} {attrs attrs' : Attributes} {c : Directive}

/-- The name for a condition is that of one which can be continued, or of the last one. -/
theorem Apart.nameOf_iff (h : names.Apart) (hc : c.kind.isConditional = true) :
    (names.nameOf c.kind = names.ifName ∨ names.nameOf c.kind = names.elseIfName)
      ↔ c.kind = .ifCond ∨ c.kind = .elseIf := by
  cases hkind : c.kind with
  | ifCond => simp [nameOf]
  | elseIf => simp [nameOf]
  | otherwise =>
      have h₁ := h.if_else.symm
      have h₂ := h.elseIf_else.symm
      simp [nameOf, h₁, h₂]
  | _ =>
      rw [hkind] at hc
      cases hc

theorem continuedBy_iff :
    names.continuedBy attrs = true ↔
      names.ifName ∈ attrs.names ∨ names.elseIfName ∈ attrs.names := by
  unfold continuedBy
  rw [Bool.or_eq_true, Attributes.contains_iff, Attributes.contains_iff]

end ConditionalNames

theorem Target.apart (target : Target) : target.dialect.conditional.Apart := by
  cases target <;> exact ⟨by decide, by decide, by decide⟩

/-- Where a platform's names are those of the directives, only a condition has them. -/
theorem Target.freeIn {target : Target} {attrs : Attributes}
    (h : target.isMiniProgram = true → target.dialect.conditional.continuedBy attrs = false) :
    target.dialect.conditional.FreeIn attrs := by
  intro n hn hname
  have hkinds : target.isMiniProgram = false →
      Directive.kind? target.dialect.conditional.ifName = some .ifCond ∧
        Directive.kind? target.dialect.conditional.elseIfName = some .elseIf := by
    cases target <;> decide
  by_cases hmini : target.isMiniProgram = true
  · have hnot := h hmini
    rw [← Bool.not_eq_true, ConditionalNames.continuedBy_iff, not_or] at hnot
    rcases hname with rfl | rfl
    · exact absurd hn hnot.1
    · exact absurd hn hnot.2
  · obtain ⟨hif, helseIf⟩ := hkinds (Bool.not_eq_true _ ▸ hmini)
    rcases hname with rfl | rfl
    · obtain ⟨c, hc, hcname, hkind⟩ := Attributes.exists_directive_of_mem_names hn hif
      exact ⟨c, Attributes.mem_conditionals.mpr ⟨hc, by rw [hkind]; rfl⟩, hcname⟩
    · obtain ⟨c, hc, hcname, hkind⟩ := Attributes.exists_directive_of_mem_names hn helseIf
      exact ⟨c, Attributes.mem_conditionals.mpr ⟨hc, by rw [hkind]; rfl⟩, hcname⟩

/-! ### One element -/

/-- What the conditions of an element are written as: the one that stands there is replaced where
it stands, and an attribute that had the platform's name gives way. -/
def Attributes.withConditionals (names : ConditionalNames) (attrs : Attributes) : List Attribute :=
  match attrs.conditionals with
  | [] => attrs.entries
  | c :: _ =>
    attrs.entries.flatMap
      (Attributes.replaceEntry c.name [(names.nameOf c.kind, c.value.map names.encoding.encode)])

namespace Adapter

variable {setting : Setting} {site : Site} {attrs attrs' : Attributes}

/-- When the adapter succeeds, and what it writes then. -/
theorem conditional_eq_ok (hd : attrs.Distinct) (h : conditional setting site attrs = .ok attrs') :
    attrs.conditionals.length ≤ 1 ∧
      (∀ c ∈ attrs.conditionals, c.kind = .ifCond ∨
        (site.previous ()).any setting.dialect.conditional.continuedBy = true) ∧
      attrs'.entries = attrs.withConditionals setting.dialect.conditional := by
  unfold conditional at h
  unfold Attributes.withConditionals
  dsimp only at h
  split at h
  · rename_i hnone
    cases h
    rw [hnone]
    exact ⟨Nat.zero_le _, fun c hc => absurd hc List.not_mem_nil, rfl⟩
  · cases h
  · rename_i c hone
    split at h
    · rename_i hchain
      cases h
      have hname : c.name ∈ attrs.names :=
        Attributes.name_mem_of_mem_conditionals (by rw [hone]; simp)
      rw [hone]
      refine ⟨Nat.le_refl _, ?_, hd.entries_replaceD hname (List.nodup_singleton _)⟩
      intro c' hc'
      rw [List.mem_singleton] at hc'
      rw [hc']
      exact hchain
    · cases h

/-- Why the adapter fails. -/
theorem conditional_eq_error {error : CompileError}
    (h : conditional setting site attrs = .error error) :
    (∃ first second rest, attrs.conditionals = first :: second :: rest ∧
      error = .conflict site.tag first.name second.name site.span) ∨
    ∃ c, attrs.conditionals = [c] ∧ c.kind ≠ .ifCond ∧
      (site.previous ()).any setting.dialect.conditional.continuedBy ≠ true ∧
      error = .brokenChain site.tag c.name site.span := by
  unfold conditional at h
  dsimp only at h
  split at h
  · cases h
  · rename_i first second rest hmany
    cases h
    exact Or.inl ⟨first, second, rest, hmany, rfl⟩
  · rename_i c hone
    split at h
    · cases h
    · rename_i hbroken
      rw [not_or] at hbroken
      cases h
      exact Or.inr ⟨c, hone, hbroken.1, hbroken.2, rfl⟩

/-- An adapted element can be continued exactly if the author's began or continued a chain. -/
theorem continuedBy_of_conditional (hnames : setting.dialect.conditional.Apart)
    (hfree : setting.dialect.conditional.FreeIn attrs) (hd : attrs.Distinct)
    (h : conditional setting site attrs = .ok attrs') :
    setting.dialect.conditional.continuedBy attrs' = true ↔ attrs.BeginsChain := by
  rw [ConditionalNames.continuedBy_iff]
  unfold conditional at h
  dsimp only at h
  split at h
  · rename_i hnone
    cases h
    constructor
    · intro hmem
      rcases hmem with hmem | hmem
      · obtain ⟨c, hc, -⟩ := hfree _ hmem (Or.inl rfl)
        rw [hnone] at hc
        exact absurd hc List.not_mem_nil
      · obtain ⟨c, hc, -⟩ := hfree _ hmem (Or.inr rfl)
        rw [hnone] at hc
        exact absurd hc List.not_mem_nil
    · rintro ⟨c, hc, -⟩
      rw [hnone] at hc
      exact absurd hc List.not_mem_nil
  · cases h
  · rename_i c hone
    split at h
    · cases h
      have hc : c ∈ attrs.conditionals := by rw [hone]; simp
      have hcname := Attributes.name_mem_of_mem_conditionals hc
      have hkind := (Attributes.mem_conditionals.mp hc).2
      -- The condition itself is the only attribute that had one of the two names.
      have hnew : ∀ n, n = setting.dialect.conditional.ifName ∨
          n = setting.dialect.conditional.elseIfName →
          (n ∈ (attrs.replaceD c.name [(setting.dialect.conditional.nameOf c.kind,
            c.value.map setting.dialect.conditional.encoding.encode)]).names ↔
            setting.dialect.conditional.nameOf c.kind = n) := by
        intro n hn
        rw [Attributes.mem_names_replaceD_one hd hcname]
        constructor
        · rintro (rfl | ⟨hmem, hne⟩)
          · rfl
          · obtain ⟨c', hc', hname⟩ := hfree n hmem hn
            rw [hone, List.mem_singleton] at hc'
            rw [hc'] at hname
            exact absurd hname.symm hne
        · intro hname
          exact Or.inl hname.symm
      rw [hnew _ (Or.inl rfl), hnew _ (Or.inr rfl), hnames.nameOf_iff hkind]
      unfold Attributes.BeginsChain
      rw [hone]
      simp
    · cases h

end Adapter

/-! ### The pass -/

namespace Document

variable {setting : Setting} {d d' : Document} {done : List Nat} {id : Nat} {e : Element}

/-- What an element sees before it is what the author wrote, once the elements before it are
adapted. -/
theorem AdaptedOn.previous_iff (hdistinct : ∀ id e, d.element? id = some e → e.attrs.Distinct)
    (hnames : setting.dialect.conditional.Apart)
    (hfree : ∀ id e, d.element? id = some e → setting.dialect.conditional.FreeIn e.attrs)
    (h : AdaptedOn .conditional setting done d d')
    (hprevious : ∀ p, d.previousElement? id = some p → p ∈ done) :
    ((d'.siteOf id e).previous ()).any setting.dialect.conditional.continuedBy = true
      ↔ d.FollowsChain id := by
  show ((d'.previousElement? id).bind fun p => (d'.element? p).map Element.attrs).any _ = true ↔ _
  rw [h.tree.previousElement?_eq]
  unfold FollowsChain
  cases hp : d.previousElement? id with
  | none => simp
  | some p =>
      obtain ⟨e', he'⟩ := Option.isSome_iff_exists.mp (isElement_of_previousElement? hp)
      obtain ⟨attrs, hattrs, hnow⟩ := h.adapted p (hprevious p hp) e' he'
      have hiff := Adapter.continuedBy_of_conditional hnames (hfree p e' he')
        (hdistinct p e' he') hattrs
      simp [hnow, he', hiff]

/-- An element that was adapted has a whole chain. -/
theorem AdaptedOn.chainedAt (hdistinct : ∀ id e, d.element? id = some e → e.attrs.Distinct)
    (hnames : setting.dialect.conditional.Apart)
    (hfree : ∀ id e, d.element? id = some e → setting.dialect.conditional.FreeIn e.attrs)
    (h : AdaptedOn .conditional setting done d d') (hid : id ∈ done) (he : d.element? id = some e)
    (hprevious : ∀ p, d.previousElement? id = some p → p ∈ done) : d.ChainedAt id e := by
  obtain ⟨attrs, hattrs, -⟩ := h.adapted id hid e he
  obtain ⟨hone, hchain, -⟩ := Adapter.conditional_eq_ok (hdistinct id e he) hattrs
  refine ⟨hone, ?_⟩
  intro c hc hkind
  refine (h.previous_iff hdistinct hnames hfree hprevious).mp ((hchain c hc).resolve_left ?_)
  intro hif
  rw [hif] at hkind
  simp at hkind

/-- All elements of a part of the preorder that was adapted have whole chains: what stands before
one of them among its siblings stands before it in the preorder. -/
theorem AdaptedOn.chainedAt_of_prefix (hd : Linked d)
    (hdistinct : ∀ id e, d.element? id = some e → e.attrs.Distinct)
    (hnames : setting.dialect.conditional.Apart)
    (hfree : ∀ id e, d.element? id = some e → setting.dialect.conditional.FreeIn e.attrs)
    (h : AdaptedOn .conditional setting done d d') {rest : List Nat}
    (hsplit : d.preorder = done ++ rest) (hid : id ∈ done) (he : d.element? id = some e) :
    d.ChainedAt id e := by
  refine h.chainedAt hdistinct hnames hfree hid he ?_
  intro p hp
  obtain ⟨front, back, rfl⟩ := List.append_of_mem hid
  rw [List.append_assoc, List.cons_append] at hsplit
  exact List.mem_append_left _ (hd.previousElement?_mem hp hsplit)

/-- An element that failed has no whole chain, and its error says which of two things is wrong. -/
theorem AdaptedOn.not_chainedAt (hdistinct : ∀ id e, d.element? id = some e → e.attrs.Distinct)
    (hnames : setting.dialect.conditional.Apart)
    (hfree : ∀ id e, d.element? id = some e → setting.dialect.conditional.FreeIn e.attrs)
    (h : AdaptedOn .conditional setting done d d')
    (hprevious : ∀ p, d.previousElement? id = some p → p ∈ done) {error : CompileError}
    (herror : Adapter.conditional setting (d'.siteOf id e) e.attrs = .error error) :
    ¬ d.ChainedAt id e ∧
      ((∃ first second rest, e.attrs.conditionals = first :: second :: rest ∧
          error = .conflict e.tag first.name second.name (d.spanOf id)) ∨
        ∃ c, e.attrs.conditionals = [c] ∧ error = .brokenChain e.tag c.name (d.spanOf id)) := by
  rw [← h.span id]
  rcases Adapter.conditional_eq_error herror with
    ⟨first, second, rest, hmany, rfl⟩ | ⟨c, hone, hif, hbroken, rfl⟩
  · refine ⟨?_, Or.inl ⟨first, second, rest, hmany, rfl⟩⟩
    intro hchained
    have := hchained.one
    rw [hmany, List.length_cons, List.length_cons] at this
    omega
  · refine ⟨?_, Or.inr ⟨c, hone, rfl⟩⟩
    intro hchained
    have hc : c ∈ e.attrs.conditionals := by
      rw [hone]
      exact List.mem_singleton_self c
    have hkind := (Attributes.mem_conditionals.mp hc).2
    refine hbroken ((h.previous_iff hdistinct hnames hfree hprevious).mpr ?_)
    refine hchained.follows c hc ?_
    cases hck : c.kind <;> simp [hck, DirectiveKind.isConditional] at hkind hif ⊢

end Document

/-- The pass over conditions, for every tree that is built and every platform: it succeeds exactly
if all chains are whole, it stops at the first element of the preorder whose chain is not and says
so, and otherwise it writes every condition under the platform's name.  On a mini-program platform
no element may have the platform's names from the start.  Trees that are parsed are built, too. -/
theorem run_conditional {d : Document} (hd : d.Built) (target : Target) (style : Option StyleConfig)
    (normalizer : Target → Option StyleConfig → String → String)
    (hfree : target.isMiniProgram = true → ∀ id e, d.element? id = some e →
      target.dialect.conditional.continuedBy e.attrs = false) :
    let progress := Pass.conditional.run ⟨target.dialect, style, normalizer⟩ d
    (progress.error = none ↔ ∀ id e, d.element? id = some e → d.ChainedAt id e) ∧
    (∀ error, progress.error = some error → ∃ before id after e,
      d.preorder = before ++ id :: after ∧ d.element? id = some e ∧ ¬ d.ChainedAt id e ∧
      (∀ i ∈ before, ∀ e', d.element? i = some e' → d.ChainedAt i e') ∧
      ((∃ first second rest, e.attrs.conditionals = first :: second :: rest ∧
          error = .conflict e.tag first.name second.name (d.spanOf id)) ∨
        ∃ c, e.attrs.conditionals = [c] ∧ error = .brokenChain e.tag c.name (d.spanOf id))) ∧
    (progress.error = none → d.SameTree progress.document ∧
      (∀ id, progress.document.spanOf id = d.spanOf id) ∧
      ∀ id e, d.element? id = some e → ∃ attrs,
        progress.document.element? id = some { e with attrs } ∧
          attrs.entries = e.attrs.withConditionals target.dialect.conditional) := by
  intro progress
  have hlinked := hd.linked
  have hdistinct := hd.distinct
  have hnames := target.apart
  have hfreeIn : ∀ id e, d.element? id = some e → target.dialect.conditional.FreeIn e.attrs :=
    fun id e he => Target.freeIn fun hmini => hfree hmini id e he
  rcases Document.adaptAll_cases hlinked .conditional ⟨target.dialect, style, normalizer⟩ with
    ⟨hnone, hall⟩ | ⟨front, id, back, e, error, hsplit, hsome, hfront, he, herror⟩
  · have hchained : ∀ id e, d.element? id = some e → d.ChainedAt id e := by
      intro id e he
      exact hall.chainedAt_of_prefix hlinked hdistinct hnames hfreeIn (List.append_nil _).symm
        (Document.mem_preorder_of_element? hlinked he) he
    refine ⟨iff_of_true hnone hchained, ?_, ?_⟩
    · intro error hsome
      exact absurd (hnone.symm.trans hsome) (by simp)
    · intro _
      refine ⟨hall.tree, hall.span, ?_⟩
      intro id e he
      obtain ⟨attrs, hattrs, hnow⟩ :=
        hall.adapted id (Document.mem_preorder_of_element? hlinked he) e he
      exact ⟨attrs, hnow, (Adapter.conditional_eq_ok (hdistinct id e he) hattrs).2.2⟩
  · have hfailed := hfront.not_chainedAt hdistinct hnames hfreeIn
      (fun p hp => hlinked.previousElement?_mem hp hsplit) herror
    refine ⟨?_, ?_, ?_⟩
    · refine iff_of_false ?_ ?_
      · intro hnone
        exact absurd (hsome.symm.trans hnone) (by simp)
      · intro hchained
        exact hfailed.1 (hchained id e he)
    · intro error' hsome'
      obtain rfl : error = error' := Option.some.inj (hsome.symm.trans hsome')
      refine ⟨front, id, back, e, hsplit, he, hfailed.1, ?_, hfailed.2⟩
      intro i hi e' he'
      exact hfront.chainedAt_of_prefix hlinked hdistinct hnames hfreeIn hsplit hi he'
    · intro hnone
      exact absurd (hsome.symm.trans hnone) (by simp)

/-- A chain of three elements with a text between them, and the same with a text in the place of
the first, so that the chain is broken. -/
theorem run_conditional_siblings :
    let first : Element := ⟨"a", .ofEntries [("v-if", some "x")], .normal⟩
    let second : Element := ⟨"b", .ofEntries [("id", some "i"), ("v-else-if", some "y")], .normal⟩
    let third : Element := ⟨"c", .ofEntries [("v-else", none)], .normal⟩
    let whole := [.element first, .text "t", .element second, .element third].foldl
      (fun d kind => d.push none kind .detached) Document.empty
    let broken := whole.setKind 0 (.text "s")
    let run := Pass.conditional.run (.forTarget .wx none)
    (∀ d ∈ [whole, broken], d.Built ∧
      (∀ id e, d.element? id = some e → Dialect.wx.conditional.continuedBy e.attrs = false) ∧
      ((run d).error = none ↔ ∀ id e, d.element? id = some e → d.ChainedAt id e)) ∧
    (run whole).error = none ∧
    (run whole).document.element? 0
      = some { first with attrs := ⟨[("wx:if", some "\x7b\x7bx\x7d\x7d")]⟩ } ∧
    (run whole).document.element? 2
      = some { second with attrs := ⟨[("id", some "i"), ("wx:elif", some "\x7b\x7by\x7d\x7d")]⟩ } ∧
    (run whole).document.element? 3 = some { third with attrs := ⟨[("wx:else", none)]⟩ } ∧
    (run broken).error = some (.brokenChain "b" "v-else-if" .detached) ∧
    ∃ before id after e, broken.preorder = before ++ id :: after ∧
      broken.element? id = some e ∧ e.tag = "b" ∧ ¬ broken.ChainedAt id e := by
  intro first second third whole broken run
  have hkind : ∀ (tag : String) (entries : List Attribute) (closing : Closing),
      (NodeKind.element ⟨tag, .ofEntries entries, closing⟩).Distinct := by
    intro tag entries closing e he
    cases he
    exact Attributes.distinct_ofEntries entries
  have htext : ∀ text, (NodeKind.text text).Distinct := fun _ _ he => nomatch he
  have hwhole : whole.Built := by
    refine List.foldlRecOn _ _ Document.Built.empty fun d hd kind hmem => ?_
    refine hd.push none kind .detached (fun p hp => nomatch hp) ?_
    simp only [List.mem_cons, List.not_mem_nil, or_false] at hmem
    rcases hmem with rfl | rfl | rfl | rfl
    · exact hkind "a" _ .normal
    · exact htext "t"
    · exact hkind "b" _ .normal
    · exact hkind "c" _ .normal
  have hbuilt : ∀ d ∈ [whole, broken], d.Built :=
    List.forall_mem_cons.mpr
      ⟨hwhole, List.forall_mem_singleton.mpr (hwhole.setKind 0 _ (htext "s"))⟩
  have hfree : ∀ d ∈ [whole, broken], ∀ id e, d.element? id = some e →
      Dialect.wx.conditional.continuedBy e.attrs = false := by
    intro d hd id e he
    have hall : ∀ d ∈ [whole, broken], ∀ id < d.size, ∀ e ∈ d.element? id,
        Dialect.wx.conditional.continuedBy e.attrs = false := by decide +kernel
    exact hall d hd id (Document.lt_size_of_element? he) e he
  have hrun := fun d (hd : d ∈ [whole, broken]) =>
    run_conditional (hbuilt d hd) .wx none Style.normalize fun _ => hfree d hd
  have hnone : (run whole).error = none := by decide +kernel
  have hsome : (run broken).error = some (.brokenChain "b" "v-else-if" .detached) := by
    decide +kernel
  have hwritten : ∀ id e entries, whole.element? id = some e →
      e.attrs.withConditionals Dialect.wx.conditional = entries →
      (run whole).document.element? id = some { e with attrs := ⟨entries⟩ } := by
    rintro id e entries he rfl
    obtain ⟨-, -, hdone⟩ := hrun whole (by simp)
    obtain ⟨⟨now⟩, hnow, rfl⟩ := (hdone hnone).2.2 id e he
    exact hnow
  refine ⟨fun d hd => ⟨hbuilt d hd, hfree d hd, (hrun d hd).1⟩, hnone,
    hwritten 0 first _ (by decide +kernel) (by decide +kernel),
    hwritten 2 second _ (by decide +kernel) (by decide +kernel),
    hwritten 3 third _ (by decide +kernel) (by decide +kernel), hsome, ?_⟩
  obtain ⟨-, hfailed, -⟩ := hrun broken (by simp)
  obtain ⟨before, id, after, e, hsplit, he, hnot, -, hsaid⟩ := hfailed _ hsome
  refine ⟨before, id, after, e, hsplit, he, ?_, hnot⟩
  rcases hsaid with ⟨c, c', rest, -, heq⟩ | ⟨c, -, heq⟩
  · nomatch heq
  · injection heq with htag
    exact htag.symm

end TemplateCompiler
