/-
What becomes of one attribute, and in which order.

`translate` is what all passes together make of one attribute.  Each attribute that is
written anew is written by one pass, and `stage` numbers the passes; an attribute that no
pass writes has the number zero.  `settle` puts the translations next to each other, in
the order of the attributes, and settles which of two attributes of one name is kept: the
one that is written later, where a pass writes its attributes from the first to the last.

The passes rewrite stage by stage.  That this comes to `settle` needs little of a dialect:
what is written for one attribute must not be taken for another one that is still to be
written.  `Orderly` says so.
-/
import TemplateCompiler.Pipeline
import TemplateCompiler.Proofs.Directives
import TemplateCompiler.Proofs.Rewriting

namespace TemplateCompiler

/-- The attribute that a directive was read off. -/
def Directive.attribute (d : Directive) : Attribute := (d.name, d.value)

namespace Dialect

/-! ### One attribute -/

/-- What a directive is written as. -/
def translateDirective (δ : Dialect) (d : Directive) : List Attribute :=
  match d.kind with
  | .ref =>
    match δ.reference with
    | .drop => []
    | .identity idName _ =>
      let name := Text.trim d.expression
      if name.isEmpty then [] else [(idName, some name)]
  | .model =>
    let key := Text.trim d.expression
    if key.isEmpty then [] else δ.model.attributes key
  | .bind =>
    match δ.binding, d.arg with
    | .plain encoding, some property => [(property, d.value.map encoding.encode)]
    | _, _ => [d.attribute]
  | .ifCond | .elseIf | .otherwise =>
    [(δ.conditional.nameOf d.kind, d.value.map δ.conditional.encoding.encode)]
  | .forEach =>
    match δ.iteration, Iteration.parse? d.expression with
    | .split itemName indexName sourceName encoding, some it =>
      it.attributes itemName indexName sourceName encoding
    | _, _ => [d.attribute]
  | .showIf | .staticClass | .classBinding | .staticStyle | .styleBinding => [d.attribute]

/-- What an attribute is written as; one that is no directive stays as it is. -/
def translate (δ : Dialect) (attr : Attribute) : List Attribute :=
  match Directive.ofAttribute? attr with
  | none => [attr]
  | some d => δ.translateDirective d

/-- The number of the pass that writes directives of a kind; zero if they are left alone. -/
def stageOf (δ : Dialect) : DirectiveKind → Nat
  | .ref => 1
  | .model => 2
  | .bind => if δ.binding = .keep then 0 else 3
  | .ifCond | .elseIf | .otherwise => 4
  | .forEach => if δ.iteration = .keep then 0 else 5
  | .showIf | .staticClass | .classBinding | .staticStyle | .styleBinding => 0

/-- The number of the pass that writes the attribute. -/
def stage (δ : Dialect) (attr : Attribute) : Nat :=
  ((Directive.kind? attr.1).map δ.stageOf).getD 0

/-! ### All attributes -/

/-- An attribute of the name is among those that the attribute is written as. -/
def writes (δ : Dialect) (attr : Attribute) (name : String) : Bool :=
  (δ.translate attr).any fun new => new.1 == name

/-- What is written for `attr` is not overwritten: no attribute before it is written by a later
pass, and none after it by a later pass or the same, under the name of `new`. -/
def survives (δ : Dialect) (before : List Attribute) (attr : Attribute) (after : List Attribute)
    (new : Attribute) : Bool :=
  !(before.any fun other => decide (δ.stage attr < δ.stage other) && δ.writes other new.1) &&
    !(after.any fun other => decide (δ.stage attr ≤ δ.stage other) && δ.writes other new.1)

/-- The translations of the attributes in order, without those that are overwritten; the attributes
in `before` stand before them. -/
def settle (δ : Dialect) : List Attribute → List Attribute → List Attribute
  | _, [] => []
  | before, attr :: after =>
    (δ.translate attr).filter (δ.survives before attr after) ++ δ.settle (before ++ [attr]) after

variable {δ : Dialect} {entries : List Attribute}

theorem writes_iff {attr : Attribute} {name : String} :
    δ.writes attr name = true ↔ ∃ new ∈ δ.translate attr, new.1 = name := by
  unfold writes
  rw [List.any_eq_true]
  simp

theorem survives_iff {before after : List Attribute} {attr new : Attribute} :
    δ.survives before attr after new = true ↔
      (∀ other ∈ before, δ.stage attr < δ.stage other → δ.writes other new.1 = false) ∧
        ∀ other ∈ after, δ.stage attr ≤ δ.stage other → δ.writes other new.1 = false := by
  unfold survives
  rw [Bool.and_eq_true, Bool.not_eq_true', Bool.not_eq_true', List.any_eq_false, List.any_eq_false]
  simp

/-- Where all names that are written differ, nothing is overwritten. -/
theorem settle_eq_flatMap :
    ∀ {before after : List Attribute},
      (((before ++ after).flatMap δ.translate).map Prod.fst).Nodup →
      δ.settle before after = after.flatMap δ.translate := by
  intro before after
  induction after generalizing before with
  | nil => intro _; rfl
  | cons attr after ih =>
      intro hnodup
      have hrest : (((before ++ [attr] ++ after).flatMap δ.translate).map Prod.fst).Nodup := by
        rw [← List.append_cons]
        exact hnodup
      rw [List.flatMap_append, List.flatMap_cons, List.map_append, List.map_append] at hnodup
      obtain ⟨-, hback, hfront⟩ := List.nodup_append'.mp hnodup
      obtain ⟨-, -, hself⟩ := List.nodup_append'.mp hback
      have hmem : ∀ {others : List Attribute} {other : Attribute} {name : String}, other ∈ others →
          δ.writes other name = true → name ∈ (others.flatMap δ.translate).map Prod.fst := by
        intro others other name hother hwrites
        obtain ⟨new, hnew, rfl⟩ := writes_iff.mp hwrites
        exact List.mem_map_of_mem (List.mem_flatMap.mpr ⟨other, hother, hnew⟩)
      show (δ.translate attr).filter _ ++ δ.settle (before ++ [attr]) after = _
      rw [List.flatMap_cons, ih hrest, List.filter_eq_self.mpr]
      intro new hnew
      have hname : new.1 ∈ (δ.translate attr).map Prod.fst := List.mem_map_of_mem hnew
      rw [survives_iff]
      refine ⟨?_, ?_⟩
      · intro other hother _
        by_contra hwrites
        rw [Bool.not_eq_false] at hwrites
        exact hfront (hmem hother hwrites) (List.mem_append_left _ hname)
      · intro other hother _
        by_contra hwrites
        rw [Bool.not_eq_false] at hwrites
        exact hself hname (hmem hother hwrites)

/-! ### Stage by stage -/

/-- The rewritings of one stage. -/
def rewritings (δ : Dialect) (entries : List Attribute) (k : Nat) : List Rewriting :=
  (entries.filter fun attr => δ.stage attr = k).map fun attr => ⟨attr.1, δ.translate attr⟩

/-- The rewritings of several stages. -/
def rewritingsOf (δ : Dialect) (entries : List Attribute) (ks : List Nat) : List Rewriting :=
  ks.flatMap (δ.rewritings entries)

/-- The stages in their order. -/
def stages : List Nat := [1, 2, 3, 4, 5]

theorem mem_rewritings {k : Nat} {r : Rewriting} :
    r ∈ δ.rewritings entries k ↔
      ∃ attr ∈ entries, δ.stage attr = k ∧ r = ⟨attr.1, δ.translate attr⟩ := by
  unfold rewritings
  rw [List.mem_map]
  constructor
  · rintro ⟨attr, hattr, rfl⟩
    obtain ⟨hmem, hstage⟩ := List.mem_filter.mp hattr
    exact ⟨attr, hmem, by simpa using hstage, rfl⟩
  · rintro ⟨attr, hmem, hstage, rfl⟩
    exact ⟨attr, List.mem_filter.mpr ⟨hmem, by simpa using hstage⟩, rfl⟩

theorem mem_rewritingsOf {ks : List Nat} {r : Rewriting} :
    r ∈ δ.rewritingsOf entries ks ↔
      ∃ attr ∈ entries, δ.stage attr ∈ ks ∧ r = ⟨attr.1, δ.translate attr⟩ := by
  unfold rewritingsOf
  rw [List.mem_flatMap]
  constructor
  · rintro ⟨k, hk, hr⟩
    obtain ⟨attr, hmem, hstage, hattr⟩ := mem_rewritings.mp hr
    exact ⟨attr, hmem, by rw [hstage]; exact hk, hattr⟩
  · rintro ⟨attr, hmem, hk, hr⟩
    exact ⟨_, hk, mem_rewritings.mpr ⟨attr, hmem, rfl, hr⟩⟩

theorem stage_le (δ : Dialect) (attr : Attribute) : δ.stage attr ≤ 5 := by
  unfold stage
  cases Directive.kind? attr.1 with
  | none => exact Nat.zero_le _
  | some kind =>
      show δ.stageOf kind ≤ 5
      cases kind <;> simp only [stageOf] <;> first | omega | (split <;> omega)

/-- An attribute that no pass writes stays as it is. -/
theorem translate_of_stage_eq_zero {attr : Attribute} (h : δ.stage attr = 0) :
    δ.translate attr = [attr] := by
  unfold translate
  cases hd : Directive.ofAttribute? attr with
  | none => rfl
  | some d =>
      unfold stage at h
      rw [Directive.kind?_eq hd] at h
      have hattr : d.attribute = attr := Directive.attribute_eq hd
      show δ.translateDirective d = [attr]
      rw [← hattr]
      have h : δ.stageOf d.kind = 0 := h
      unfold translateDirective
      cases hkind : d.kind with
      | ref | model | ifCond | elseIf | otherwise =>
          rw [hkind] at h
          cases h
      | bind =>
          rw [hkind] at h
          have h : (if δ.binding = .keep then 0 else 3) = 0 := h
          by_cases hkeep : δ.binding = .keep
          · simp only [hkeep]
          · rw [if_neg hkeep] at h
            cases h
      | forEach =>
          rw [hkind] at h
          have h : (if δ.iteration = .keep then 0 else 5) = 0 := h
          by_cases hkeep : δ.iteration = .keep
          · simp only [hkeep]
          · rw [if_neg hkeep] at h
            cases h
      | _ => rfl

/-- What is written for one attribute is not mistaken for another.  Of two conditions nothing is
asked, because an element with two is an error. -/
structure Orderly (δ : Dialect) (entries : List Attribute) : Prop where
  distinct : (entries.map Prod.fst).Nodup
  /-- No attribute that is still to be written is overwritten, and none that has been written is
  taken for one that is to be written. -/
  fresh : ∀ a ∈ entries, ∀ b ∈ entries, a.1 ≠ b.1 → δ.stage b ≠ 0 → δ.stage a ≠ 4 ∨ δ.stage b ≠ 4 →
    ∀ x ∈ δ.translate a, x.1 ≠ b.1
  /-- What is written is left alone by all other passes. -/
  stays : ∀ a ∈ entries, ∀ x ∈ δ.translate a, δ.stage x = 0 ∨ δ.stage x = δ.stage a

namespace Orderly

/-- An attribute is known by its name. -/
theorem eq_of_name (h : δ.Orderly entries) {a b : Attribute} (ha : a ∈ entries) (hb : b ∈ entries)
    (hname : a.1 = b.1) : a = b := List.inj_on_of_nodup_map h.distinct ha hb hname

theorem writes_eq_false {a : Attribute} {name : String} (h : ∀ x ∈ δ.translate a, x.1 ≠ name) :
    δ.writes a name = false := by
  rw [← Bool.not_eq_true, writes_iff]
  rintro ⟨x, hx, hname⟩
  exact h x hx hname

/-- What the stages before a later one leave to it of one attribute. -/
theorem filter_stage_singleton (h : δ.Orderly entries) {ks : List Nat} {j : Nat}
    (hks : ∀ k ∈ ks, 1 ≤ k ∧ k < j) {a : Attribute} (ha : a ∈ entries) :
    (Rewriting.all (δ.rewritingsOf entries ks) [a]).filter (fun attr => δ.stage attr = j)
      = [a].filter fun attr => δ.stage attr = j := by
  by_cases hj : δ.stage a = j
  · -- No earlier stage replaces it or writes its name.
    have hother : ∀ b ∈ entries, δ.stage b ∈ ks → b.1 ≠ a.1 := by
      intro b hb hk hname
      have hlt := hks _ hk
      rw [h.eq_of_name hb ha hname, hj] at hlt
      omega
    rw [Rewriting.all_singleton_of_ne]
    · intro r hr
      obtain ⟨b, hb, hk, rfl⟩ := mem_rewritingsOf.mp hr
      exact (hother b hb hk).symm
    · intro r hr
      obtain ⟨b, hb, hk, rfl⟩ := mem_rewritingsOf.mp hr
      have hlt := hks _ hk
      exact writes_eq_false (h.fresh b hb a ha (hother b hb hk) (by omega) (by omega))
  · -- Nothing that an earlier stage writes is left to a later one.
    have hnone : [a].filter (fun attr => δ.stage attr = j) = [] := by simp [hj]
    rw [hnone, List.filter_eq_nil_iff]
    intro x hx
    rw [decide_eq_true_eq]
    rcases Rewriting.mem_of_mem_all hx with hx | ⟨r, hr, hx⟩
    · rw [List.mem_singleton.mp hx]
      exact hj
    · obtain ⟨b, hb, hk, rfl⟩ := mem_rewritingsOf.mp hr
      have hlt := hks _ hk
      rcases h.stays b hb x hx with hstage | hstage <;> omega

/-- The stages up to some number do not touch the attributes of a later one. -/
theorem filter_stage (h : δ.Orderly entries) {ks : List Nat} {j : Nat}
    (hks : ∀ k ∈ ks, 1 ≤ k ∧ k < j) :
    (Rewriting.all (δ.rewritingsOf entries ks) entries).filter (fun attr => δ.stage attr = j)
      = entries.filter fun attr => δ.stage attr = j := by
  have hpart : ∀ part : List Attribute, (∀ a ∈ part, a ∈ entries) →
      (Rewriting.all (δ.rewritingsOf entries ks) part).filter (fun attr => δ.stage attr = j)
        = part.filter fun attr => δ.stage attr = j := by
    intro part
    induction part with
    | nil =>
        intro _
        rw [Rewriting.all_nil_right]
    | cons a part ih =>
        intro hsub
        rw [Rewriting.all_cons_right, List.filter_append, ih fun x hx => hsub x (by simp [hx]),
          h.filter_stage_singleton hks (hsub a (by simp)), ← List.filter_append]
        rfl
  exact hpart entries fun _ ha => ha

/-- With one condition at most, nothing at all is mistaken for another. -/
theorem fresh_of_one (h : δ.Orderly entries)
    (hone : (entries.filter fun attr => δ.stage attr = 4).length ≤ 1) {a b : Attribute}
    (ha : a ∈ entries) (hb : b ∈ entries) (hne : a.1 ≠ b.1) (hstage : δ.stage b ≠ 0) :
    ∀ x ∈ δ.translate a, x.1 ≠ b.1 := by
  refine h.fresh a ha b hb hne hstage ?_
  by_contra hboth
  rw [not_or, not_not, not_not] at hboth
  have ha' : a ∈ entries.filter fun attr => δ.stage attr = 4 :=
    List.mem_filter.mpr ⟨ha, decide_eq_true hboth.1⟩
  have hb' : b ∈ entries.filter fun attr => δ.stage attr = 4 :=
    List.mem_filter.mpr ⟨hb, decide_eq_true hboth.2⟩
  exact hne (congrArg Prod.fst (eq_of_length_le_one hone ha' hb'))

theorem mem_stages {k : Nat} : k ∈ stages ↔ k ≠ 0 ∧ k ≤ 5 := by
  simp only [stages, List.mem_cons, List.not_mem_nil, or_false]
  omega

/-- The stages before a number and after it. -/
theorem exists_stages {k : Nat} (hk : k ∈ stages) :
    ∃ lo hi, stages = lo ++ k :: hi ∧ (∀ j ∈ lo, j ≠ 0 ∧ j < k) ∧ ∀ j, j ∈ hi ↔ k < j ∧ j ≤ 5 := by
  refine ⟨stages.filter (· < k), stages.filter (k < ·), ?_, ?_, ?_⟩
  · simp only [stages, List.mem_cons, List.not_mem_nil, or_false] at hk
    rcases hk with rfl | rfl | rfl | rfl | rfl <;> rfl
  · intro j hj
    obtain ⟨hmem, hlt⟩ := List.mem_filter.mp hj
    exact ⟨(mem_stages.mp hmem).1, by simpa using hlt⟩
  · intro j
    rw [List.mem_filter, mem_stages, decide_eq_true_eq]
    omega

/-- None of the rewritings writes the name. -/
theorem not_any_writes_iff {ks : List Nat} {name : String} :
    (!(δ.rewritingsOf entries ks).any fun r => r.writes name) = true ↔
      ∀ b ∈ entries, δ.stage b ∈ ks → δ.writes b name = false := by
  rw [Bool.not_eq_true', List.any_eq_false]
  constructor
  · intro hall b hb hk
    rw [← Bool.not_eq_true]
    exact hall _ (mem_rewritingsOf.mpr ⟨b, hb, hk, rfl⟩)
  · intro hall r hr
    obtain ⟨b, hb, hk, rfl⟩ := mem_rewritingsOf.mp hr
    rw [Bool.not_eq_true]
    exact hall b hb hk

section

variable {before after : List Attribute} {a : Attribute}

/-- The attributes before and after one have other names. -/
theorem ne_of_split (h : δ.Orderly entries) (hsplit : entries = before ++ a :: after) :
    (∀ b ∈ before, a.1 ≠ b.1) ∧ ∀ b ∈ after, a.1 ≠ b.1 := by
  have hnodup := h.distinct
  rw [hsplit, List.map_append, List.map_cons] at hnodup
  obtain ⟨-, hback, hdisj⟩ := List.nodup_append'.mp hnodup
  rw [List.nodup_cons] at hback
  refine ⟨?_, ?_⟩
  · intro b hb hname
    exact hdisj (List.mem_map_of_mem hb) (by rw [← hname]; simp)
  · intro b hb hname
    exact hback.1 (hname ▸ List.mem_map_of_mem hb)

theorem mem_of_split (hsplit : entries = before ++ a :: after) {b : Attribute} (hb : b ∈ entries)
    (hne : a.1 ≠ b.1) : b ∈ before ∨ b ∈ after := by
  rw [hsplit, List.mem_append, List.mem_cons] at hb
  rcases hb with hb | rfl | hb
  · exact Or.inl hb
  · exact absurd rfl hne
  · exact Or.inr hb

/-- An attribute that no pass writes is kept, unless another one is written under its name. -/
theorem all_singleton_of_stage_eq_zero (h : δ.Orderly entries)
    (hsplit : entries = before ++ a :: after) (hzero : δ.stage a = 0) :
    Rewriting.all (δ.rewritingsOf entries stages) [a]
      = (δ.translate a).filter (δ.survives before a after) := by
  have ha : a ∈ entries := by rw [hsplit]; simp
  have hne : ∀ r ∈ δ.rewritingsOf entries stages, ∀ x ∈ [a], x.1 ≠ r.name := by
    intro r hr x hx hname
    obtain ⟨b, hb, hk, rfl⟩ := mem_rewritingsOf.mp hr
    rw [List.mem_singleton.mp hx] at hname
    rw [← h.eq_of_name ha hb hname] at hk
    exact (mem_stages.mp hk).1 hzero
  rw [translate_of_stage_eq_zero hzero, Rewriting.all_of_ne hne]
  refine List.filter_congr ?_
  intro x hx
  rw [List.mem_singleton.mp hx, Bool.eq_iff_iff, not_any_writes_iff, survives_iff, hzero]
  constructor
  · intro hall
    refine ⟨?_, ?_⟩
    · intro b hb hpos
      exact hall b (by rw [hsplit]; simp [hb]) (mem_stages.mpr ⟨Nat.ne_of_gt hpos, δ.stage_le b⟩)
    · intro b hb _
      by_cases hbzero : δ.stage b = 0
      · refine writes_eq_false ?_
        rw [translate_of_stage_eq_zero hbzero]
        intro x hx
        rw [List.mem_singleton.mp hx]
        exact ((h.ne_of_split hsplit).2 b hb).symm
      · exact hall b (by rw [hsplit]; simp [hb]) (mem_stages.mpr ⟨hbzero, δ.stage_le b⟩)
  · rintro ⟨hbefore, hafter⟩ b hb hk
    obtain ⟨hpos, -⟩ := mem_stages.mp hk
    have hname : a.1 ≠ b.1 := fun hname => hpos (h.eq_of_name ha hb hname ▸ hzero)
    rcases mem_of_split hsplit hb hname with hb | hb
    · exact hbefore b hb (Nat.pos_of_ne_zero hpos)
    · exact hafter b hb (Nat.zero_le _)

/-- The rewriting of one attribute among those of all stages. -/
theorem rewritingsOf_split (hsplit : entries = before ++ a :: after) {lo hi : List Nat}
    (hstages : stages = lo ++ δ.stage a :: hi) :
    δ.rewritingsOf entries stages
      = (δ.rewritingsOf entries lo ++ δ.rewritings before (δ.stage a))
        ++ ⟨a.1, δ.translate a⟩ ::
          (δ.rewritings after (δ.stage a) ++ δ.rewritingsOf entries hi) := by
  have hstage : δ.rewritings entries (δ.stage a)
      = δ.rewritings before (δ.stage a) ++ ⟨a.1, δ.translate a⟩ ::
        δ.rewritings after (δ.stage a) := by
    unfold rewritings
    rw [hsplit, List.filter_append, List.filter_cons_of_pos (by simp), List.map_append,
      List.map_cons]
  unfold rewritingsOf
  rw [hstages, List.flatMap_append, List.flatMap_cons, hstage]
  simp

/-- Up to its own rewriting an attribute is left alone. -/
theorem all_singleton_before (h : δ.Orderly entries)
    (hone : (entries.filter fun attr => δ.stage attr = 4).length ≤ 1)
    (hsplit : entries = before ++ a :: after) (hpos : δ.stage a ≠ 0) {lo : List Nat}
    (hlo : ∀ k ∈ lo, k < δ.stage a) :
    Rewriting.all (δ.rewritingsOf entries lo ++ δ.rewritings before (δ.stage a)) [a] = [a] := by
  have ha : a ∈ entries := by rw [hsplit]; simp
  have hearlier : ∀ r ∈ δ.rewritingsOf entries lo ++ δ.rewritings before (δ.stage a),
      ∃ b ∈ entries, b.1 ≠ a.1 ∧ r = ⟨b.1, δ.translate b⟩ := by
    intro r hr
    rcases List.mem_append.mp hr with hr | hr
    · obtain ⟨b, hb, hk, rfl⟩ := mem_rewritingsOf.mp hr
      refine ⟨b, hb, ?_, rfl⟩
      intro hname
      have hlt := hlo _ hk
      rw [h.eq_of_name hb ha hname] at hlt
      exact Nat.lt_irrefl _ hlt
    · obtain ⟨b, hb, -, rfl⟩ := mem_rewritings.mp hr
      exact ⟨b, by rw [hsplit]; simp [hb], ((h.ne_of_split hsplit).1 b hb).symm, rfl⟩
  refine Rewriting.all_singleton_of_ne ?_ ?_
  · intro r hr
    obtain ⟨b, -, hne, rfl⟩ := hearlier r hr
    exact hne.symm
  · intro r hr
    obtain ⟨b, hb, hne, rfl⟩ := hearlier r hr
    exact writes_eq_false (h.fresh_of_one hone hb ha hne hpos)

/-- After its own rewriting no other one replaces what an attribute is written as. -/
theorem ne_of_mem_translate (h : δ.Orderly entries)
    (hone : (entries.filter fun attr => δ.stage attr = 4).length ≤ 1)
    (hsplit : entries = before ++ a :: after) (hpos : δ.stage a ≠ 0) {hi : List Nat}
    (hhi : ∀ k ∈ hi, δ.stage a < k) :
    ∀ r ∈ δ.rewritings after (δ.stage a) ++ δ.rewritingsOf entries hi,
      ∀ x ∈ δ.translate a, x.1 ≠ r.name := by
  have ha : a ∈ entries := by rw [hsplit]; simp
  intro r hr
  rcases List.mem_append.mp hr with hr | hr
  · obtain ⟨b, hb, hk, rfl⟩ := mem_rewritings.mp hr
    refine h.fresh_of_one hone ha (by rw [hsplit]; simp [hb]) ((h.ne_of_split hsplit).2 b hb) ?_
    rw [hk]
    exact hpos
  · obtain ⟨b, hb, hk, rfl⟩ := mem_rewritingsOf.mp hr
    have hlt := hhi _ hk
    refine h.fresh_of_one hone ha hb ?_ (by omega)
    intro hname
    rw [← h.eq_of_name ha hb hname] at hlt
    exact Nat.lt_irrefl _ hlt

/-- An attribute that a pass writes is translated, but for what is written later under the name of
one of the new attributes. -/
theorem all_singleton_of_stage_ne_zero (h : δ.Orderly entries)
    (hone : (entries.filter fun attr => δ.stage attr = 4).length ≤ 1)
    (hsplit : entries = before ++ a :: after) (hpos : δ.stage a ≠ 0) :
    Rewriting.all (δ.rewritingsOf entries stages) [a]
      = (δ.translate a).filter (δ.survives before a after) := by
  have ha : a ∈ entries := by rw [hsplit]; simp
  obtain ⟨lo, hi, hstages, hlo, hhi⟩ := exists_stages (mem_stages.mpr ⟨hpos, δ.stage_le a⟩)
  rw [rewritingsOf_split hsplit hstages, Rewriting.all_append,
    h.all_singleton_before hone hsplit hpos fun k hk => (hlo k hk).2, Rewriting.all_cons,
    Rewriting.flatMap_replaceEntry_singleton rfl,
    Rewriting.all_of_ne (h.ne_of_mem_translate hone hsplit hpos fun k hk => ((hhi k).mp hk).1)]
  refine List.filter_congr ?_
  intro x _
  rw [Bool.eq_iff_iff, List.any_append, Bool.not_or, Bool.and_eq_true, not_any_writes_iff,
    survives_iff, Bool.not_eq_true', List.any_eq_false]
  constructor
  · rintro ⟨hsame, hlate⟩
    refine ⟨?_, ?_⟩
    · intro b hb hlt
      exact hlate b (by rw [hsplit]; simp [hb]) ((hhi _).mpr ⟨hlt, δ.stage_le b⟩)
    · intro b hb hle
      by_cases heq : δ.stage b = δ.stage a
      · rw [← Bool.not_eq_true]
        exact hsame _ (mem_rewritings.mpr ⟨b, hb, heq, rfl⟩)
      · exact hlate b (by rw [hsplit]; simp [hb]) ((hhi _).mpr ⟨by omega, δ.stage_le b⟩)
  · rintro ⟨hbefore, hafter⟩
    refine ⟨?_, ?_⟩
    · intro r hr
      obtain ⟨b, hb, hk, rfl⟩ := mem_rewritings.mp hr
      rw [Bool.not_eq_true]
      exact hafter b hb (Nat.le_of_eq hk.symm)
    · intro b hb hk
      obtain ⟨hlt, -⟩ := (hhi _).mp hk
      have hname : a.1 ≠ b.1 := by
        intro hname
        rw [← h.eq_of_name ha hb hname] at hlt
        exact Nat.lt_irrefl _ hlt
      rcases mem_of_split hsplit hb hname with hb | hb
      · exact hbefore b hb hlt
      · exact hafter b hb (Nat.le_of_lt hlt)

/-- What becomes of one attribute through all stages. -/
theorem all_singleton (h : δ.Orderly entries)
    (hone : (entries.filter fun attr => δ.stage attr = 4).length ≤ 1)
    (hsplit : entries = before ++ a :: after) :
    Rewriting.all (δ.rewritingsOf entries stages) [a]
      = (δ.translate a).filter (δ.survives before a after) := by
  by_cases hzero : δ.stage a = 0
  · exact h.all_singleton_of_stage_eq_zero hsplit hzero
  · exact h.all_singleton_of_stage_ne_zero hone hsplit hzero

end

/-- All stages together settle the translations. -/
theorem all_eq_settle (h : δ.Orderly entries)
    (hone : (entries.filter fun attr => δ.stage attr = 4).length ≤ 1) :
    Rewriting.all (δ.rewritingsOf entries stages) entries = δ.settle [] entries := by
  have hpart : ∀ after before : List Attribute, entries = before ++ after →
      Rewriting.all (δ.rewritingsOf entries stages) after = δ.settle before after := by
    intro after
    induction after with
    | nil =>
        intro before _
        rw [Rewriting.all_nil_right]
        rfl
    | cons a after ih =>
        intro before hsplit
        rw [Rewriting.all_cons_right, h.all_singleton hone hsplit,
          ih (before ++ [a]) (by rw [hsplit]; simp)]
        rfl
  exact hpart entries [] rfl

end Orderly

end Dialect

end TemplateCompiler
