/-
Where the nodes of a parsed template stand.

The reader goes from token to token and leaves nothing out, so the nodes of a list stand side by
side, and an element is its start tag, its children side by side, and its end tag.  The span of
an open element is known in part only: it starts at the `<`, and its end is moved when the end
tag is read.  So along a reading two things are kept.  The nodes that have been read `Lies` as a
forest does, which is said of the final document; and of the nodes that were there, the one that
is open gets the offset after its end tag and no other span changes.

`Lies` speaks of cursors.  What a cursor takes is a slice of the text, and so every span cuts out
the piece that its node was read from.
-/
import TemplateCompiler.Proofs.Content
import TemplateCompiler.Proofs.Reading.Extent

namespace TemplateCompiler

/-- The token that begins a node. -/
def NodeKind.token : NodeKind → Token
  | element e => .startTag e.tag e.attrs e.closing
  | text content => .text content
  | comment content => .comment content

/-- A node that is one token and has no content. -/
def NodeKind.IsLeaf (kind : NodeKind) : Prop := ∀ e, kind = .element e → e.closing ≠ .normal

namespace Element

/-- `tag` is the start tag of the element, where `before` and `after` stand around it. -/
structure StartTag (e : Element) (before tag after : List Char) : Prop where
  bounds : ∃ inner, tag = '<' :: (inner ++ ['>'])
  read : Token.next ⟨byteLength before, tag ++ after⟩
    = .ok (.startTag e.tag e.attrs e.closing, ⟨byteLength (before ++ tag), after⟩)

/-- `tag` is an end tag of the element, where `before` and `after` stand around it. -/
structure EndTag (e : Element) (before tag after : List Char) : Prop where
  bounds : ['<', '/'] <+: tag
  read : ∃ name, Text.lowerAscii e.tag = Text.lowerAscii name ∧
    Token.next ⟨byteLength before, tag ++ after⟩
      = .ok (.endTag name, ⟨byteLength (before ++ tag), after⟩)

end Element

namespace Document

/-- The spans of the nodes are adjacent in order, the first starting at one offset and the last
ending at the other. -/
def Adjoin (d : Document) (start stop : Nat) : List Nat → Prop
  | [] => start = stop
  | id :: rest => (d.spanOf id).start = start ∧ d.Adjoin (d.spanOf id).stop stop rest

/-- `d.Written before after kind children piece` says that `piece` is how a node of this kind with
these children is written, where `before` and `after` stand around it. -/
inductive Written (d : Document) (before after : List Char) :
    NodeKind → List Nat → List Char → Prop
  | text {content : String} : d.Written before after (.text content) [] content.toList
  | comment {content : String} :
      d.Written before after (.comment content) []
        ("<!--".toList ++ content.toList ++ "-->".toList)
  | endlessComment {content : String} (hafter : after = []) :
      d.Written before after (.comment content) [] ("<!--".toList ++ content.toList)
  | leaf {e : Element} {tag : List Char} (hclosing : e.closing ≠ .normal)
      (htag : e.StartTag before tag after) : d.Written before after (.element e) [] tag
  | nest {e : Element} {opening inner closing : List Char} {children : List Nat}
      (hclosing : e.closing = .normal)
      (hopening : e.StartTag before opening (inner ++ closing ++ after))
      (hchildren : d.Adjoin (byteLength (before ++ opening))
        (byteLength (before ++ opening ++ inner)) children)
      (hend : e.EndTag (before ++ opening ++ inner) closing after) :
      d.Written before after (.element e) children (opening ++ inner ++ closing)

end Document

namespace Forest

open Document

variable {d d' : Document}

/-- `F.Lies d start k k'`: from `k` up to `k'`, the tokens of the forest are read one after the
other, and each node of `d` has the span that is read for it, where `start` is the index of the
first one. -/
inductive Lies (d : Document) : Nat → Forest → Cursor → Cursor → Prop
  | nil {start : Nat} {k : Cursor} : Lies d start nil k k
  | leaf {start : Nat} {kind : NodeKind} {rest : Forest} {k k₁ k' : Cursor} (hleaf : kind.IsLeaf)
      (hk : k.rest ≠ []) (hnext : Token.next k = .ok (kind.token, k₁))
      (hspan : d.spanOf start = ⟨k.offset, k₁.offset⟩) (hrest : Lies d (start + 1) rest k₁ k') :
      Lies d start (cons kind .nil rest) k k'
  | nest {start : Nat} {e : Element} {content rest : Forest} {k k₁ k₂ k₃ k' : Cursor}
      {name : String} (hclosing : e.closing = .normal) (hk : k.rest ≠ [])
      (hnext : Token.next k = .ok ((NodeKind.element e).token, k₁))
      (hcontent : Lies d (start + 1) content k₁ k₂) (hk₂ : k₂.rest ≠ [])
      (hend : Token.next k₂ = .ok (.endTag name, k₃))
      (hname : Text.lowerAscii e.tag = Text.lowerAscii name)
      (hspan : d.spanOf start = ⟨k.offset, k₃.offset⟩)
      (hrest : Lies d (start + 1 + content.size) rest k₃ k') :
      Lies d start (cons (.element e) content rest) k k'

/-- It depends on the spans of the forest's own nodes. -/
theorem Lies.congr {start : Nat} {F : Forest} {k k' : Cursor} (h : F.Lies d start k k')
    (hsame : ∀ id, start ≤ id → id < start + F.size → d'.spanOf id = d.spanOf id) :
    F.Lies d' start k k' := by
  induction h with
  | nil => exact .nil
  | leaf hleaf hk hnext hspan hrest ih =>
      simp only [size] at hsame
      refine .leaf hleaf hk hnext ?_ (ih fun id h₁ h₂ => hsame id (by omega) (by omega))
      rw [hsame _ (Nat.le_refl _) (by omega)]
      exact hspan
  | nest hclosing hk hnext hcontent hk₂ hend hname hspan hrest ihc ihr =>
      simp only [size] at hsame
      refine .nest hclosing hk hnext (ihc fun id h₁ h₂ => hsame id (by omega) (by omega)) hk₂ hend
        hname ?_ (ihr fun id h₁ h₂ => hsame id (by omega) (by omega))
      rw [hsame _ (Nat.le_refl _) (by omega)]
      exact hspan

/-- All that is read lies between the two cursors. -/
theorem Lies.exists_takes {start : Nat} {F : Forest} {k k' : Cursor} (h : F.Lies d start k k') :
    ∃ piece, k.Takes piece k' := by
  induction h with
  | nil => exact ⟨_, .refl _⟩
  | leaf hleaf hk hnext hspan hrest ih =>
      obtain ⟨piece, hpiece, -⟩ := Token.exists_takes_of_next hk hnext
      obtain ⟨more, hmore⟩ := ih
      exact ⟨_, hpiece.trans hmore⟩
  | nest hclosing hk hnext hcontent hk₂ hend hname hspan hrest ihc ihr =>
      obtain ⟨opening, hopening, -⟩ := Token.exists_takes_of_next hk hnext
      obtain ⟨inner, hinner⟩ := ihc
      obtain ⟨closing, hclosing, -⟩ := Token.exists_takes_of_next hk₂ hend
      obtain ⟨more, hmore⟩ := ihr
      exact ⟨_, ((hopening.trans hinner).trans hclosing).trans hmore⟩

/-- The outermost nodes stand side by side. -/
theorem Lies.adjoin {start : Nat} {F : Forest} {k k' : Cursor} (h : F.Lies d start k k') :
    d.Adjoin k.offset k'.offset (F.ids start) := by
  induction h with
  | nil => rfl
  | leaf hleaf hk hnext hspan hrest ih =>
      refine ⟨by rw [hspan], ?_⟩
      rw [hspan]
      exact ih
  | nest hclosing hk hnext hcontent hk₂ hend hname hspan hrest ihc ihr =>
      refine ⟨by rw [hspan], ?_⟩
      rw [hspan]
      exact ihr

end Forest

namespace Document

open Forest

variable {d d₂ d' : Document} {opened : Option OpenTag} {k k₁ k₂ k₃ k' : Cursor}

/-! ### Along a reading -/

theorem spanOf_push_self (d : Document) (parent : Option Nat) (kind : NodeKind) (span : Span) :
    (d.push parent kind span).spanOf d.size = span := by
  unfold spanOf
  rw [node?_push_self]

/-- The nodes that are there keep their spans. -/
theorem spanOf_push_of_lt {id : Nat} (hid : id < d.size) (parent : Option Nat) (kind : NodeKind)
    (span : Span) : (d.push parent kind span).spanOf id = d.spanOf id := by
  have hne : id ≠ d.nodes.size := Nat.ne_of_lt hid
  cases parent with
  | none =>
      unfold spanOf node?
      simp only [push, Array.getElem?_push, if_neg hne]
  | some p =>
      unfold spanOf node?
      simp only [push, Array.getElem?_push, Array.size_modify, if_neg hne, Array.getElem?_modify]
      by_cases hp : p = id
      · rw [if_pos hp]
        cases d.nodes[id]? <;> rfl
      · rw [if_neg hp]

theorem spanOf_setStop {id : Nat} (hid : id < d.size) (stop i : Nat) :
    (d.setStop id stop).spanOf i = if id = i then ⟨(d.spanOf i).start, stop⟩ else d.spanOf i := by
  unfold spanOf setStop
  rw [node?_modify]
  by_cases hi : id = i
  · rw [if_pos hi, if_pos hi]
    have hnode : d.node? i = some d.nodes[id] := hi ▸ Array.getElem?_eq_getElem hid
    rw [hnode]
    rfl
  · rw [if_neg hi, if_neg hi]

/-- What ends the content: the end tag of the element that is open, or the end of everything. -/
def EndsAt (opened : Option OpenTag) (k k' : Cursor) : Prop :=
  match opened with
  | none => k.rest = [] ∧ k' = k
  | some o => k.rest ≠ [] ∧ ∃ name, o.matchesEnd name = true ∧ Token.next k = .ok (.endTag name, k')

/-- Reading content from `k` to `k'` has laid out the forest up to `k₂`, where the content ends. -/
structure Lays (opened : Option OpenTag) (d : Document) (k : Cursor) (F : Forest) (k₂ : Cursor)
    (d' : Document) (k' : Cursor) : Prop where
  layout : Extends d (opened.map OpenTag.id) F d'
  lies : F.Lies d' d.size k k₂
  ends : EndsAt opened k₂ k'
  /-- Of the nodes that were there, only the one that is open gets another span. -/
  old : ∀ id, id < d.size → d'.spanOf id =
    if opened.map OpenTag.id = some id then ⟨(d.spanOf id).start, k'.offset⟩ else d.spanOf id

/-- The node that is pushed is not the one that is open. -/
theorem ne_of_lt_size (ho : ∀ p, opened.map OpenTag.id = some p → p < d.size) :
    opened.map OpenTag.id ≠ some d.size := fun h => Nat.lt_irrefl _ (ho _ h)

/-- A token that is a node, and what follows it. -/
theorem Lays.leaf (kind : NodeKind) {F : Forest} (hleaf : kind.IsLeaf) (hk : k.rest ≠ [])
    (hnext : Token.next k = .ok (kind.token, k₁))
    (ho : ∀ p, opened.map OpenTag.id = some p → p < d.size)
    (h : Lays opened (d.push (opened.map OpenTag.id) kind ⟨k.offset, k₁.offset⟩) k₁ F k₂ d' k') :
    Lays opened d k (.cons kind .nil F) k₂ d' k' where
  layout := .leaf ho h.layout
  lies := by
    have hlies := h.lies
    rw [size_push] at hlies
    refine .leaf hleaf hk hnext ?_ hlies
    rw [h.old _ (by rw [size_push]; omega), if_neg (ne_of_lt_size ho), spanOf_push_self]
  ends := h.ends
  old id hid := by
    rw [h.old id (by rw [size_push]; omega), spanOf_push_of_lt hid]

/-- An element with its content and its end tag, and what follows it. -/
theorem Lays.nest {e : Element} {content F : Forest} (hclosing : e.closing = .normal)
    (hk : k.rest ≠ []) (hnext : Token.next k = .ok ((NodeKind.element e).token, k₁))
    (ho : ∀ p, opened.map OpenTag.id = some p → p < d.size)
    (hc : Lays (some ⟨d.size, e.tag, ⟨k.offset, k₁.offset⟩⟩)
      (d.push (opened.map OpenTag.id) (.element e) ⟨k.offset, k₁.offset⟩) k₁ content k₂ d₂ k₃)
    {k₄ : Cursor} (h : Lays opened d₂ k₃ F k₄ d' k') :
    Lays opened d k (.cons (.element e) content F) k₄ d' k' := by
  have hsize : d₂.size = d.size + 1 + content.size := by
    rw [hc.layout.size, size_push]
  have hkeep : ∀ id, d.size ≤ id → id < d₂.size → d'.spanOf id = d₂.spanOf id := by
    intro id h₁ h₂
    have hne : opened.map OpenTag.id ≠ some id := fun hp => absurd (ho id hp) (Nat.not_lt.mpr h₁)
    rw [h.old id h₂, if_neg hne]
  have hspan : d₂.spanOf d.size = ⟨k.offset, k₃.offset⟩ := by
    rw [hc.old _ (by rw [size_push]; omega), spanOf_push_self]
    exact if_pos rfl
  obtain ⟨hk₂, name, hname, hend⟩ := hc.ends
  refine ⟨.cons ho hc.layout h.layout, ?_, h.ends, ?_⟩
  · have hcontent := hc.lies
    rw [size_push] at hcontent
    have hrest := h.lies
    rw [hsize] at hrest
    refine .nest hclosing hk hnext (hcontent.congr fun id h₁ h₂ => ?_) hk₂ hend
      (beq_iff_eq.mp hname) ?_ hrest
    · exact hkeep id (by omega) (by omega)
    · rw [hkeep _ (Nat.le_refl _) (by omega)]
      exact hspan
  · intro id hid
    -- What is open inside is the new element, so the content leaves the old spans alone.
    have hne : ¬ (some d.size : Option Nat) = some id := by
      rw [Option.some.injEq]
      omega
    have hbefore : d₂.spanOf id = d.spanOf id := by
      rw [hc.old id (by rw [size_push]; omega), spanOf_push_of_lt hid]
      exact if_neg hne
    rw [h.old id (by omega), hbefore]

/-- Every reading lays out a forest. -/
theorem Reads.exists_lays (h : Reads opened d k d' k')
    (ho : ∀ p, opened.map OpenTag.id = some p → p < d.size) :
    ∃ F k₂, Lays opened d k F k₂ d' k' := by
  induction h with
  | done hk => exact ⟨.nil, _, .nil _ _, .nil, ⟨hk, rfl⟩, fun id _ => (if_neg (by simp)).symm⟩
  | @close o d k k₁ name hk hnext hname =>
      refine ⟨.nil, k, (Extends.nil _ _).setStop _ _, .nil, ⟨hk, name, hname, hnext⟩, ?_⟩
      intro id hid
      rw [spanOf_setStop (ho o.id rfl)]
      simp
  | @comment opened d d' k k₁ k' content hk hnext hrest ih =>
      obtain ⟨F, k₂, hlays⟩ := ih (lt_size_push ho _ _ _)
      exact ⟨_, k₂, .leaf (.comment content) (fun e he => nomatch he) hk hnext ho hlays⟩
  | @text opened d d' k k₁ k' content hk hnext hrest ih =>
      obtain ⟨F, k₂, hlays⟩ := ih (lt_size_push ho _ _ _)
      exact ⟨_, k₂, .leaf (.text content) (fun e he => nomatch he) hk hnext ho hlays⟩
  | @leaf opened d d' k k₁ k' e hk hnext hclosing hrest ih =>
      obtain ⟨F, k₂, hlays⟩ := ih (lt_size_push ho _ _ _)
      refine ⟨_, k₂, .leaf (.element e) (fun e' he => ?_) hk hnext ho hlays⟩
      cases he
      exact hclosing
  | nest hk hnext hclosing hcontent hrest ihc ihr =>
      obtain ⟨content, k₂, hc⟩ := ihc fun p hp => by
        cases hp
        rw [size_push]
        exact Nat.lt_succ_self _
      have hsize := hc.layout.size
      rw [size_push] at hsize
      obtain ⟨F, k₄, hlays⟩ := ihr fun p hp => by
        have := ho p hp
        omega
      exact ⟨_, k₄, .nest hclosing hk hnext ho hc hlays⟩

/-- A parsed template is a forest that lies in the text from its start to its end. -/
theorem exists_lies_of_parse {source : String} (h : parse source = .ok d) :
    ∃ F k', d.Represents F ∧ F.Lies d 0 (.ofText source) k' ∧ k'.rest = [] := by
  rw [parse_eq] at h
  cases hc : contentOf none .empty (.ofText source) with
  | error e =>
      rw [hc] at h
      cases h
  | ok result =>
      rw [hc] at h
      cases h
      obtain ⟨F, k₂, hlays⟩ := (reads_of_contentOf hc).exists_lays fun p hp => nomatch hp
      exact ⟨F, k₂, hlays.layout.represents, hlays.lies, hlays.ends.1⟩

/-! ### From cursors to slices -/

/-- The node stands in the text: its span cuts out a piece, and that is how a node of the kind with
the children is written there. -/
def StandsIn (d : Document) (text : List Char) (id : Nat) (kind : NodeKind)
    (children : List Nat) : Prop :=
  ∃ before piece after, text = before ++ piece ++ after ∧ piece ≠ [] ∧
    d.spanOf id = ⟨byteLength before, byteLength (before ++ piece)⟩ ∧
    d.Written before after kind children piece

/-- A token is read alike wherever the characters before it are counted. -/
theorem next_of_after {text before piece : List Char} {token : Token} (hk : k.After text before)
    (htakes : k.Takes piece k₁) (h : Token.next k = .ok (token, k₁)) :
    Token.next ⟨byteLength before, piece ++ k₁.rest⟩
      = .ok (token, ⟨byteLength (before ++ piece), k₁.rest⟩) := by
  have hstart : k = ⟨byteLength before, piece ++ k₁.rest⟩ := by
    rw [← htakes.1, ← hk.2]
  have hstop : k₁ = ⟨byteLength (before ++ piece), k₁.rest⟩ := by
    rw [← (hk.takes htakes).2]
  rw [← hstop, ← hstart]
  exact h

theorem startTag_of_next {text before piece : List Char} {e : Element} (hk : k.After text before)
    (htakes : k.Takes piece k₁) (hform : (NodeKind.element e).token.Form piece k₁.rest)
    (h : Token.next k = .ok ((NodeKind.element e).token, k₁)) :
    e.StartTag before piece k₁.rest := ⟨hform, next_of_after hk htakes h⟩

theorem StandsIn.of_leaf {text before : List Char} {id : Nat} {kind : NodeKind}
    (hafter : k.After text before) (hleaf : kind.IsLeaf) (hk : k.rest ≠ [])
    (hnext : Token.next k = .ok (kind.token, k₁)) (hspan : d.spanOf id = ⟨k.offset, k₁.offset⟩) :
    d.StandsIn text id kind [] := by
  obtain ⟨piece, htakes, hform⟩ := Token.exists_takes_of_next hk hnext
  refine ⟨before, piece, k₁.rest, (hafter.takes htakes).1, Token.ne_nil_of_next hk hnext htakes,
    ?_, ?_⟩
  · rw [hspan, hafter.2, (hafter.takes htakes).2]
  · cases kind with
    | element e => exact .leaf (hleaf e rfl) (startTag_of_next hafter htakes hform hnext)
    | text content =>
        cases hform
        exact .text
    | comment content =>
        rcases hform with rfl | ⟨rfl, hend⟩
        · exact .comment
        · exact .endlessComment hend

theorem StandsIn.of_nest {text before : List Char} {id start : Nat} {e : Element}
    {content : Forest} {name : String} (hafter : k.After text before)
    (hclosing : e.closing = .normal) (hk : k.rest ≠ [])
    (hnext : Token.next k = .ok ((NodeKind.element e).token, k₁))
    (hcontent : content.Lies d start k₁ k₂) (hk₂ : k₂.rest ≠ [])
    (hend : Token.next k₂ = .ok (.endTag name, k₃))
    (hname : Text.lowerAscii e.tag = Text.lowerAscii name)
    (hspan : d.spanOf id = ⟨k.offset, k₃.offset⟩) :
    d.StandsIn text id (.element e) (content.ids start) := by
  obtain ⟨opening, htakes, hform⟩ := Token.exists_takes_of_next hk hnext
  obtain ⟨inner, hinner⟩ := hcontent.exists_takes
  obtain ⟨closing, htakes₂, hform₂⟩ := Token.exists_takes_of_next hk₂ hend
  have hafter₁ := hafter.takes htakes
  have hafter₂ := hafter₁.takes hinner
  have hafter₃ := hafter₂.takes htakes₂
  refine ⟨before, opening ++ inner ++ closing, k₃.rest, ?_, ?_, ?_, .nest hclosing ?_ ?_ ?_⟩
  · rw [hafter₃.1]
    simp only [List.append_assoc]
  · have := Token.ne_nil_of_next hk hnext htakes
    simp [this]
  · rw [hspan, hafter.2, hafter₃.2]
    simp only [List.append_assoc]
  · have hrest : k₁.rest = inner ++ closing ++ k₃.rest := by
      rw [hinner.1, htakes₂.1, List.append_assoc]
    rw [← hrest]
    exact startTag_of_next hafter htakes hform hnext
  · rw [← hafter₁.2, ← hafter₂.2]
    exact hcontent.adjoin
  · exact ⟨hform₂, name, hname, next_of_after hafter₂ htakes₂ hend⟩

end Document

namespace Forest

open Document

variable {d : Document}

/-- Every node of a forest that is held and lies in a text stands in it. -/
theorem Lies.standsIn {text : List Char} {start : Nat} {F : Forest} {k k' : Cursor}
    (h : F.Lies d start k k') :
    ∀ {parent : Option Nat} {before : List Char}, F.Holds d parent start → k.After text before →
      ∀ id, start ≤ id → id < start + F.size →
        ∃ s, d.shape? id = some s ∧ d.StandsIn text id s.kind s.children := by
  induction h with
  | nil =>
      intro parent before _ _ id h₁ h₂
      simp only [size] at h₂
      omega
  | leaf hleaf hk hnext hspan hrest ih =>
      intro parent before hheld hafter id h₁ h₂
      obtain ⟨hnode, -, hheld⟩ := hheld
      simp only [size] at h₂ hheld
      obtain ⟨piece, htakes, -⟩ := Token.exists_takes_of_next hk hnext
      rcases Nat.eq_or_lt_of_le h₁ with rfl | hlt
      · exact ⟨_, hnode, .of_leaf hafter hleaf hk hnext hspan⟩
      · exact ih hheld (hafter.takes htakes) id hlt (by omega)
  | @nest start e content rest k k₁ k₂ k₃ k' name hclosing hk hnext hcontent hk₂ hend hname hspan
      hrest ihc ihr =>
      intro parent before hheld hafter id h₁ h₂
      obtain ⟨hnode, hheldc, hheldr⟩ := hheld
      simp only [size] at h₂
      obtain ⟨opening, htakes, -⟩ := Token.exists_takes_of_next hk hnext
      obtain ⟨inner, hinner⟩ := hcontent.exists_takes
      obtain ⟨closing, htakes₂, -⟩ := Token.exists_takes_of_next hk₂ hend
      have hafter₁ := hafter.takes htakes
      rcases Nat.eq_or_lt_of_le h₁ with rfl | hlt
      · exact ⟨_, hnode, .of_nest hafter hclosing hk hnext hcontent hk₂ hend hname hspan⟩
      · by_cases hc : id < start + 1 + content.size
        · exact ihc hheldc hafter₁ id hlt hc
        · exact ihr hheldr ((hafter₁.takes hinner).takes htakes₂) id (by omega) (by omega)

/-- The walk through a forest meets its indices in order. -/
theorem Holds.flatMap_subtree {F : Forest} :
    ∀ {parent : Option Nat} {start : Nat}, F.Holds d parent start →
      (F.ids start).flatMap d.subtree = List.range' start F.size := by
  induction F with
  | nil => intro parent start _; rfl
  | cons kind content rest ihc ihr =>
      intro parent start h
      obtain ⟨hnode, hcontent, hrest⟩ := h
      have hchildren : d.children start = content.ids (start + 1) := by
        rw [children_eq, hnode]
        rfl
      have hsize : (cons kind content rest).size = (content.size + rest.size) + 1 := by
        rw [size]
        omega
      rw [ids, List.flatMap_cons, subtree_eq, hchildren, ihc hcontent, ihr hrest, hsize,
        List.range'_succ, ← List.range'_append_1]
      rfl

end Forest

namespace Document

variable {d : Document} {source : String}

/-- Every node of a parsed template stands in it. -/
theorem standsIn_of_parse (h : parse source = .ok d) {id : Nat} (hid : id < d.size) :
    ∃ s, d.shape? id = some s ∧ d.StandsIn source.toList id s.kind s.children := by
  obtain ⟨F, k', hrep, hlies, -⟩ := exists_lies_of_parse h
  refine hlies.standsIn hrep.holds (Cursor.after_ofText source) id (Nat.zero_le _) ?_
  rw [Nat.zero_add, ← hrep.size]
  exact hid

/-- The spans of the document tile the text. -/
structure Tiles (d : Document) (source : String) : Prop where
  /-- Every node has a nonempty slice of the text between two characters, and that is how it is
  written there. -/
  nodes : ∀ id n, d.node? id = some n →
    ∃ before piece after, source.toList = before ++ piece ++ after ∧ piece ≠ [] ∧
      n.span = ⟨byteLength before, byteLength (before ++ piece)⟩ ∧
      d.Written before after n.kind n.children.toList piece
  /-- The roots stand side by side from the start of the text to its end. -/
  roots : d.Adjoin 0 source.utf8ByteSize d.roots.toList
  /-- The indices are the preorder. -/
  preorder : d.preorder = List.range d.size

/-- The spans of a parsed template tile its text: text is its content, a comment stands between its
marks, where the last one is missing only at the end of everything, and an element is its start tag,
its children side by side, and its end tag. -/
theorem tiles_of_parse (h : parse source = .ok d) : d.Tiles source := by
  obtain ⟨F, k', hrep, hlies, hend⟩ := exists_lies_of_parse h
  refine ⟨fun id n hn => ?_, ?_, ?_⟩
  · have hid : id < d.size := (Array.getElem?_eq_some_iff.mp hn).1
    obtain ⟨s, hs, before, piece, after, htext, hne, hspan, hwritten⟩ := standsIn_of_parse h hid
    have hshape : s = n.shape := by
      unfold shape? at hs
      rw [hn] at hs
      exact (Option.some.inj hs).symm
    have hnode : d.spanOf id = n.span := by
      unfold spanOf
      rw [hn]
    rw [hnode] at hspan
    rw [hshape] at hwritten
    exact ⟨before, piece, after, htext, hne, hspan, hwritten⟩
  · obtain ⟨piece, hpiece⟩ := hlies.exists_takes
    obtain ⟨htext, hoffset⟩ := (Cursor.after_ofText source).takes hpiece
    rw [hend, List.append_nil, List.nil_append] at htext
    rw [List.nil_append, ← htext, byteLength_toList] at hoffset
    rw [hrep.roots, ← hoffset]
    exact hlies.adjoin
  · rw [preorder_eq_flatMap, hrep.roots, hrep.holds.flatMap_subtree, ← hrep.size,
      List.range_eq_range']

/-- Characters of several bytes, end tags without their `>`, and a comment that does not end. -/
theorem tiles_of_parse_lenient :
    let source := "<a x='é'>ü<b/><C>z</c\n</a <br><!-- é--><!-- é"
    ∃ d, parse source = .ok d ∧
      (List.range d.size).map d.spanOf
        = [⟨0, 28⟩, ⟨10, 12⟩, ⟨12, 16⟩, ⟨16, 24⟩, ⟨19, 20⟩, ⟨28, 32⟩, ⟨32, 42⟩, ⟨42, 49⟩] ∧
      d.Tiles source := by
  intro source
  have hspans : (parse source).toOption.map (fun d => (List.range d.size).map d.spanOf)
      = some [⟨0, 28⟩, ⟨10, 12⟩, ⟨12, 16⟩, ⟨16, 24⟩, ⟨19, 20⟩, ⟨28, 32⟩, ⟨32, 42⟩, ⟨42, 49⟩] := by
    decide +kernel
  cases h : parse source with
  | error e =>
      rw [h] at hspans
      cases hspans
  | ok d =>
      rw [h] at hspans
      exact ⟨d, rfl, Option.some.inj hspans, tiles_of_parse h⟩

end Document

end TemplateCompiler
