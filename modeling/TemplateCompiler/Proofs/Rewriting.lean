/-
Replacements, one after the other.

A rewriting puts entries in the place of the attribute of one name, and other attributes
of the new names give way.  Rewritings work on each entry on its own, so a sequence of
them is known by what becomes of a single entry.  An entry that is not replaced is kept,
unless one of the rewritings writes its name; what a rewriting puts in is treated the same
way by the ones after it.
-/
import Mathlib.Data.List.Nodup
import TemplateCompiler.Proofs.Attributes

namespace TemplateCompiler

/-- What is put in the place of the attribute of a name. -/
structure Rewriting where
  name : String
  new : List Attribute

namespace Rewriting

/-- The rewriting makes an attribute of the name. -/
def writes (r : Rewriting) (name : String) : Bool := r.new.any fun entry => entry.1 == name

theorem writes_iff {r : Rewriting} {name : String} :
    r.writes name = true ↔ name ∈ r.new.map Prod.fst := by
  unfold writes
  rw [List.any_eq_true, List.mem_map]
  constructor
  · rintro ⟨entry, hentry, hname⟩
    exact ⟨entry, hentry, by simpa using hname⟩
  · rintro ⟨entry, hentry, hname⟩
    exact ⟨entry, hentry, by simpa using hname⟩

/-- The entries after the rewritings, done in their order. -/
def all (rs : List Rewriting) (entries : List Attribute) : List Attribute :=
  rs.foldl (fun entries r => entries.flatMap (Attributes.replaceEntry r.name r.new)) entries

variable {r : Rewriting} {rs : List Rewriting} {entries : List Attribute}

/-! ### Sequences of rewritings and lists of entries -/

theorem all_nil (entries : List Attribute) : all [] entries = entries := rfl

theorem all_cons (r : Rewriting) (rs : List Rewriting) (entries : List Attribute) :
    all (r :: rs) entries = all rs (entries.flatMap (Attributes.replaceEntry r.name r.new)) := rfl

theorem all_append (rs rs' : List Rewriting) (entries : List Attribute) :
    all (rs ++ rs') entries = all rs' (all rs entries) := List.foldl_append ..

theorem all_nil_right (rs : List Rewriting) : all rs [] = [] := by
  induction rs with
  | nil => rfl
  | cons r rs ih => exact ih

/-- Every part of the entries is rewritten on its own. -/
theorem all_append_right (rs : List Rewriting) :
    ∀ xs ys : List Attribute, all rs (xs ++ ys) = all rs xs ++ all rs ys := by
  induction rs with
  | nil => intro xs ys; rfl
  | cons r rs ih =>
      intro xs ys
      rw [all_cons, List.flatMap_append, ih]
      rfl

theorem all_cons_right (rs : List Rewriting) (x : Attribute) (xs : List Attribute) :
    all rs (x :: xs) = all rs [x] ++ all rs xs := all_append_right rs [x] xs

/-- The rewritings can be done one entry at a time. -/
theorem all_eq_flatMap (rs : List Rewriting) (entries : List Attribute) :
    all rs entries = entries.flatMap fun x => all rs [x] := by
  induction entries with
  | nil => exact all_nil_right rs
  | cons x xs ih => rw [all_cons_right, ih, List.flatMap_cons]

/-! ### One entry -/

/-- Entries that are not replaced are kept, unless their names are written. -/
theorem all_of_ne (h : ∀ r ∈ rs, ∀ x ∈ entries, x.1 ≠ r.name) :
    all rs entries = entries.filter fun x => !rs.any fun r => r.writes x.1 := by
  induction rs generalizing entries with
  | nil =>
      rw [all_nil, List.filter_eq_self.mpr]
      intro x _
      rfl
  | cons r rs ih =>
      have hname : r.name ∉ entries.map Prod.fst := by
        intro hmem
        obtain ⟨x, hx, hxr⟩ := List.mem_map.mp hmem
        exact h r (by simp) x hx hxr
      have hrest : ∀ r' ∈ rs, ∀ x ∈ Attributes.withoutAll (r.new.map Prod.fst) entries,
          x.1 ≠ r'.name := by
        intro r' hr' x hx
        exact h r' (by simp [hr']) x (List.mem_filter.mp hx).1
      rw [all_cons, Attributes.flatMap_replaceEntry_of_not_mem hname, ih hrest]
      unfold Attributes.withoutAll
      rw [List.filter_filter]
      refine List.filter_congr ?_
      intro x _
      by_cases hw : r.writes x.1 = true
      · have hmem := writes_iff.mp hw
        simp [hw, hmem]
      · have hmem : x.1 ∉ r.new.map Prod.fst := fun hmem => hw (writes_iff.mpr hmem)
        simp [hw, hmem]

/-- An entry whose name nothing replaces or writes stays as it is. -/
theorem all_singleton_of_ne {x : Attribute} (hne : ∀ r ∈ rs, x.1 ≠ r.name)
    (hwrites : ∀ r ∈ rs, r.writes x.1 = false) : all rs [x] = [x] := by
  have hkept : (rs.any fun r => r.writes x.1) = false := by
    rw [List.any_eq_false]
    intro r hr
    rw [hwrites r hr]
    exact Bool.false_ne_true
  rw [all_of_ne (by simpa using hne)]
  simp [hkept]

/-- The entry that is replaced. -/
theorem flatMap_replaceEntry_singleton {x : Attribute} (h : x.1 = r.name) :
    [x].flatMap (Attributes.replaceEntry r.name r.new) = r.new := by
  rw [List.flatMap_singleton]
  unfold Attributes.replaceEntry
  rw [if_pos h]

/-- An entry is replaced by its own rewriting, and stays so, if no other rewriting has to do with
the entry or with what is put in its place. -/
theorem all_singleton_of_mem {x : Attribute} (hnodup : (rs.map Rewriting.name).Nodup) (hr : r ∈ rs)
    (hbefore : ∀ r' ∈ rs, r'.writes r.name = false)
    (hafter : ∀ r' ∈ rs, r'.name ≠ r.name → ∀ y ∈ r.new, y.1 ≠ r'.name ∧ r'.writes y.1 = false)
    (hx : x.1 = r.name) : all rs [x] = r.new := by
  obtain ⟨front, back, rfl⟩ := List.append_of_mem hr
  rw [List.map_append, List.map_cons] at hnodup
  obtain ⟨-, hback, hdisjoint⟩ := List.nodup_append'.mp hnodup
  have hfront : ∀ r' ∈ front, x.1 ≠ r'.name := fun r' hr' heq =>
    hdisjoint (List.mem_map_of_mem hr') (by rw [← heq, hx]; exact List.mem_cons_self)
  have hkept : all front [x] = [x] :=
    all_singleton_of_ne hfront fun r' hr' => hx ▸ hbefore r' (List.mem_append_left _ hr')
  have hlater : ∀ r' ∈ back, ∀ y ∈ r.new, y.1 ≠ r'.name ∧ r'.writes y.1 = false := by
    intro r' hr'
    refine hafter r' (by simp [hr']) fun heq => ?_
    exact (List.nodup_cons.mp hback).1 (heq ▸ List.mem_map_of_mem hr')
  rw [all_append, hkept, all_cons, flatMap_replaceEntry_singleton hx,
    all_of_ne fun r' hr' y hy => (hlater r' hr' y hy).1, List.filter_eq_self]
  intro y hy
  rw [Bool.not_eq_true', List.any_eq_false]
  intro r' hr'
  rw [(hlater r' hr' y hy).2]
  exact Bool.false_ne_true

/-- What is there afterwards was there before or was put in. -/
theorem mem_of_mem_all {x : Attribute} (h : x ∈ all rs entries) :
    x ∈ entries ∨ ∃ r ∈ rs, x ∈ r.new := by
  induction rs generalizing entries with
  | nil => exact Or.inl h
  | cons r rs ih =>
      rcases ih h with hmem | ⟨r', hr', hmem⟩
      · rcases Attributes.mem_flatMap_replaceEntry.mp hmem with ⟨-, hnew⟩ | ⟨hold, -⟩
        · exact Or.inr ⟨r, by simp, hnew⟩
        · exact Or.inl hold
      · exact Or.inr ⟨r', by simp [hr'], hmem⟩

end Rewriting

namespace Attributes

variable {attrs : Attributes}

/-! ### Operations as rewritings -/

theorem erase_entries (attrs : Attributes) (name : String) :
    (attrs.erase name).entries = Rewriting.all [⟨name, []⟩] attrs.entries := by
  show without name attrs.entries = attrs.entries.flatMap (replaceEntry name [])
  unfold without
  induction attrs.entries with
  | nil => rfl
  | cons x xs ih =>
      rw [List.flatMap_cons, ← ih, List.filter_cons, replaceEntry_nil]
      by_cases hx : x.1 = name
      · simp [hx]
      · simp [hx]

/-- Replacing an attribute that is there. -/
theorem Distinct.entries_replace (hd : attrs.Distinct) (r : Rewriting)
    (hname : r.name ∈ attrs.names) (hnew : (r.new.map Prod.fst).Nodup) :
    (attrs.replaceD r.name r.new).entries = Rewriting.all [r] attrs.entries :=
  hd.entries_replaceD hname hnew

/-- Replacing attributes that are there, one after the other, each once. -/
theorem Distinct.entries_foldl_replaceD {rs : List Rewriting} :
    ∀ {attrs : Attributes}, attrs.Distinct → (rs.map Rewriting.name).Nodup →
      (∀ r ∈ rs, r.name ∈ attrs.names) → (∀ r ∈ rs, (r.new.map Prod.fst).Nodup) →
      (rs.foldl (fun attrs r => attrs.replaceD r.name r.new) attrs).entries
        = Rewriting.all rs attrs.entries := by
  induction rs with
  | nil => intro attrs _ _ _ _; rfl
  | cons r rs ih =>
      intro attrs hd hnodup hmem hnew
      rw [List.map_cons, List.nodup_cons] at hnodup
      have hname := hmem r (by simp)
      have hnewr := hnew r (by simp)
      rw [List.foldl_cons, Rewriting.all_cons, ← hd.entries_replaceD hname hnewr]
      refine ih (hd.replaceD r.name hnewr) hnodup.2 ?_ fun r' hr' => hnew r' (by simp [hr'])
      intro r' hr'
      rw [mem_names_replaceD hd hname hnewr]
      refine Or.inr ⟨hmem r' (by simp [hr']), ?_⟩
      intro heq
      exact hnodup.1 (heq ▸ List.mem_map.mpr ⟨r', hr', rfl⟩)

end Attributes

end TemplateCompiler
