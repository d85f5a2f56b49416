/-
Sequences of changes to attributes.

Three things are said of every edit, and so of every sequence of them.  Names stay distinct.
Carried out by positions it never leaves the bounds of the array and ends with the same
entries.  And what it makes of the entries is what `onList` says, which cuts the list at the
entry that is concerned and puts it together again.

All of it rests on one picture: the entries are those before a place and those after it, and
the place is the number of those before.  A splice keeps it, because an entry that is taken
from before the place moves it by one, and there is one such entry at most (`spliceAt_eq`).
-/
import Mathlib.Data.List.TakeWhile
import TemplateCompiler.Markup.Edit
import TemplateCompiler.Proofs.Attributes

namespace TemplateCompiler

namespace Edit

open Attributes (without withoutAll spliceEntry)

variable {entries front back : List Attribute} {name : String} {value : Option String}

/-! ### Lists of entries -/

/-- The entries before the first one of a name, its value, and the entries after it. -/
def cut? (name : String) : List Attribute → Option (List Attribute × Option String × List Attribute)
  | [] => none
  | entry :: entries =>
    if entry.1 = name then some ([], entry.2, entries)
    else (cut? name entries).map fun (before, value, after) => (entry :: before, value, after)

/-- Of entries of one name the last one. -/
def lastOfEach : List Attribute → List Attribute
  | [] => []
  | entry :: entries =>
    if entry.1 ∈ entries.map Prod.fst then lastOfEach entries else entry :: lastOfEach entries

/-- A name's value in its place, or at the end. -/
def setOnList (entries : List Attribute) (name : String) (value : Option String) :
    List Attribute :=
  match cut? name entries with
  | some (before, _, after) => before ++ (name, value) :: after
  | none => entries ++ [(name, value)]

/-- New entries in the place of one, where none of the others keeps one of their names. -/
def replaceOnList (entries : List Attribute) (name : String) (new : List Attribute) :
    List Attribute × Answer :=
  match cut? name entries with
  | some (before, _, after) =>
    (withoutAll (new.map Prod.fst) before ++ lastOfEach new ++ withoutAll (new.map Prod.fst) after,
      .changed true)
  | none => (entries, .changed false)

/-- What an edit makes of a list of entries, and what is answered to it. -/
def onList (edit : Edit) (entries : List Attribute) : List Attribute × Answer :=
  match edit with
  | insert name value => (setOnList entries name (some value), .done)
  | insertBare name => (setOnList entries name none, .done)
  | insertBefore anchor name value =>
    let others := without name entries
    match cut? anchor others with
    | some (before, old, after) => (before ++ (name, some value) :: (anchor, old) :: after, .done)
    | none => (others ++ [(name, some value)], .done)
  | remove name =>
    match cut? name entries with
    | some (before, value, after) => (before ++ after, .removed (some value))
    | none => (entries, .removed none)
  | rename old new =>
    match cut? old entries with
    | some (_, value, _) => replaceOnList entries old [(new, value)]
    | none => (entries, .changed false)
  | replaceWith name new => replaceOnList entries name new
  | collect new => (new.foldl (fun made entry => setOnList made entry.1 (some entry.2)) [], .done)

/-! ### Cutting -/

theorem cut?_eq_none_iff : cut? name entries = none ↔ name ∉ entries.map Prod.fst := by
  induction entries with
  | nil => simp [cut?]
  | cons entry entries ih =>
      unfold cut?
      split
      · rename_i h
        simp [h]
      · rename_i h
        rw [Option.map_eq_none_iff, ih, List.map_cons, List.mem_cons, not_or]
        exact ⟨fun hnot => ⟨fun heq => h heq.symm, hnot⟩, And.right⟩

theorem cut?_append (hfront : name ∉ front.map Prod.fst) :
    cut? name (front ++ (name, value) :: back) = some (front, value, back) := by
  induction front with
  | nil => simp [cut?]
  | cons entry front ih =>
      rw [List.map_cons, List.mem_cons, not_or] at hfront
      rw [List.cons_append, cut?, if_neg fun heq => hfront.1 heq.symm, ih hfront.2]
      rfl

/-- Where names are distinct, an entry is the only one of its name. -/
theorem exists_cut (hd : (entries.map Prod.fst).Nodup) (hname : name ∈ entries.map Prod.fst) :
    ∃ front value back, entries = front ++ (name, value) :: back ∧
      name ∉ front.map Prod.fst ∧ name ∉ back.map Prod.fst := by
  obtain ⟨⟨n, value⟩, hmem, rfl⟩ := List.mem_map.mp hname
  obtain ⟨front, back, rfl⟩ := List.append_of_mem hmem
  rw [List.map_append, List.map_cons, List.nodup_append'] at hd
  exact ⟨front, value, back, rfl, fun h => hd.2.2 h List.mem_cons_self,
    (List.nodup_cons.mp hd.2.1).1⟩

theorem without_eq_self (h : name ∉ entries.map Prod.fst) : without name entries = entries := by
  refine List.filter_eq_self.mpr fun entry hentry => ?_
  rw [bne_iff_ne]
  exact fun heq => h (List.mem_map.mpr ⟨entry, hentry, heq⟩)

theorem without_append (hfront : name ∉ front.map Prod.fst) (hback : name ∉ back.map Prod.fst) :
    without name (front ++ (name, value) :: back) = front ++ back := by
  have hskip : without name ((name, value) :: back) = without name back := by
    unfold without
    rw [List.filter_cons_of_neg (by simp)]
  have happend : without name (front ++ (name, value) :: back)
      = without name front ++ without name ((name, value) :: back) := List.filter_append ..
  rw [happend, hskip, without_eq_self hfront, without_eq_self hback]

theorem nodup_without (hd : (entries.map Prod.fst).Nodup) (name : String) :
    ((without name entries).map Prod.fst).Nodup :=
  @Attributes.Distinct.erase ⟨entries⟩ hd name

/-! ### Repeated names in a replacement -/

theorem mem_names_lastOfEach {new : List Attribute} {n : String} :
    n ∈ (lastOfEach new).map Prod.fst ↔ n ∈ new.map Prod.fst := by
  induction new with
  | nil => simp [lastOfEach]
  | cons entry new ih =>
      unfold lastOfEach
      split
      · rename_i h
        rw [ih, List.map_cons, List.mem_cons]
        exact ⟨Or.inr, fun hn => hn.elim (fun heq => heq ▸ h) id⟩
      · rw [List.map_cons, List.mem_cons, ih, List.map_cons, List.mem_cons]

theorem nodup_lastOfEach (new : List Attribute) : ((lastOfEach new).map Prod.fst).Nodup := by
  induction new with
  | nil => exact List.nodup_nil
  | cons entry new ih =>
      unfold lastOfEach
      split
      · exact ih
      · rename_i h
        rw [List.map_cons, List.nodup_cons, mem_names_lastOfEach]
        exact ⟨h, ih⟩

/-- The splices one after the other.  An entry whose name is spliced in again gives way to the
later one. -/
theorem foldl_spliceEntry_eq (new : List Attribute) :
    ∀ front back : List Attribute, new.foldl spliceEntry (front, back)
      = (withoutAll (new.map Prod.fst) front ++ lastOfEach new,
        withoutAll (new.map Prod.fst) back) := by
  induction new with
  | nil => intro front back; simp [withoutAll, lastOfEach]
  | cons entry new ih =>
      intro front back
      have hentry : withoutAll (new.map Prod.fst) [entry] ++ lastOfEach new
          = lastOfEach (entry :: new) := by
        rw [lastOfEach]
        unfold withoutAll
        by_cases h : entry.1 ∈ new.map Prod.fst
        · simp [h]
        · simp [h]
      rw [List.foldl_cons]
      show new.foldl spliceEntry (without entry.1 front ++ [entry], without entry.1 back) = _
      rw [ih, Attributes.withoutAll_append, Attributes.withoutAll_without,
        Attributes.withoutAll_without, List.append_assoc, hentry, List.map_cons]

theorem mem_names_withoutAll {names : List String} {n : String} :
    n ∈ (withoutAll names entries).map Prod.fst ↔ n ∈ entries.map Prod.fst ∧ n ∉ names := by
  unfold withoutAll
  simp only [List.mem_map, List.mem_filter, Bool.not_eq_true', List.contains_eq_mem,
    decide_eq_false_iff_not]
  constructor
  · rintro ⟨entry, ⟨hmem, hnot⟩, rfl⟩
    exact ⟨⟨entry, hmem, rfl⟩, hnot⟩
  · rintro ⟨⟨entry, hmem, rfl⟩, hnot⟩
    exact ⟨entry, ⟨hmem, hnot⟩, rfl⟩

/-- What is spliced between the entries before a place and those after it leaves names distinct. -/
theorem nodup_spliced (hd : ((front ++ back).map Prod.fst).Nodup) (new : List Attribute) :
    ((withoutAll (new.map Prod.fst) front ++ lastOfEach new
      ++ withoutAll (new.map Prod.fst) back).map Prod.fst).Nodup := by
  have hkept : ∀ entries : List Attribute, (entries.map Prod.fst).Nodup →
      ((withoutAll (new.map Prod.fst) entries).map Prod.fst).Nodup := fun entries h =>
    h.sublist (List.filter_sublist.map _)
  rw [List.map_append, List.nodup_append'] at hd
  obtain ⟨hfront, hback, hdisj⟩ := hd
  rw [List.map_append, List.map_append, List.nodup_append', List.nodup_append']
  refine ⟨⟨hkept _ hfront, nodup_lastOfEach new, fun n hn hn' => ?_⟩, hkept _ hback,
    fun n hn hn' => ?_⟩
  · exact (mem_names_withoutAll.mp hn).2 (mem_names_lastOfEach.mp hn')
  · rw [mem_names_withoutAll] at hn'
    rcases List.mem_append.mp hn with hn | hn
    · exact hdisj (mem_names_withoutAll.mp hn).1 hn'.1
    · exact hn'.2 (mem_names_lastOfEach.mp hn)

/-! ### Positions -/

theorem position?_eq_none (h : name ∉ entries.map Prod.fst) : position? entries name = none := by
  unfold position?
  rw [List.findIdx?_eq_none_iff]
  intro entry hentry
  rw [beq_eq_false_iff_ne]
  exact fun heq => h (List.mem_map.mpr ⟨entry, hentry, heq⟩)

theorem position?_append (hfront : name ∉ front.map Prod.fst) :
    position? (front ++ (name, value) :: back) name = some front.length := by
  have hnone : List.findIdx? (fun entry : Attribute => entry.1 == name) front = none :=
    position?_eq_none hfront
  unfold position?
  rw [List.findIdx?_append, hnone, List.findIdx?_cons]
  simp

theorem removeAt_append (entry : Attribute) :
    removeAt (front ++ entry :: back) front.length = some (front ++ back) := by
  unfold removeAt
  rw [if_pos (by simp), List.eraseIdx_append_of_length_le (Nat.le_refl _), Nat.sub_self,
    List.eraseIdx_cons_zero]

theorem insertIdx_append (front back : List Attribute) (entry : Attribute) :
    (front ++ back).insertIdx front.length entry = front ++ entry :: back := by
  induction front with
  | nil => rfl
  | cons first front ih =>
      rw [List.cons_append, List.length_cons, List.insertIdx_succ_cons, ih, List.cons_append]

theorem insertAt_append {entry : Attribute} (h : entry.1 ∉ (front ++ back).map Prod.fst) :
    insertAt (front ++ back) front.length entry = some (front ++ entry :: back) := by
  unfold insertAt
  rw [position?_eq_none h]
  dsimp only
  rw [if_pos (by simp), insertIdx_append]

theorem writeAt_append (value' : Option String) :
    writeAt (front ++ (name, value) :: back) front.length value'
      = some (front ++ (name, value') :: back) := by
  unfold writeAt
  rw [List.getElem?_append_right (Nat.le_refl _), Nat.sub_self, List.getElem?_cons_zero,
    Option.map_some, List.set_append_right (h := Nat.le_refl _), Nat.sub_self, List.set_cons_zero]

/-! ### Each operation, by positions and on lists -/

variable {attrs : Attributes}

theorem setAt_eq (hd : attrs.Distinct) (name : String) (value : Option String) :
    setAt attrs.entries name value = some (attrs.set name value).entries ∧
      setOnList attrs.entries name value = (attrs.set name value).entries := by
  unfold setAt setOnList
  by_cases hname : name ∈ attrs.entries.map Prod.fst
  · obtain ⟨front, old, back, hsplit, hfront, hback⟩ := exists_cut hd hname
    have hset : (attrs.set name value).entries = front ++ (name, value) :: back := by
      have hkept : ∀ entries : List Attribute, name ∉ entries.map Prod.fst →
          entries.map (fun entry => if entry.1 == name then (entry.1, value) else entry)
            = entries := by
        intro entries hnot
        refine (List.map_congr_left fun entry hentry => ?_).trans (List.map_id _)
        rw [if_neg fun heq => hnot (List.mem_map.mpr ⟨entry, hentry, beq_iff_eq.mp heq⟩)]
        rfl
      unfold Attributes.set
      rw [if_pos (Attributes.contains_iff.mpr hname)]
      show attrs.entries.map _ = _
      rw [hsplit, List.map_append, List.map_cons, hkept front hfront, hkept back hback]
      simp
    rw [hset, hsplit, position?_append hfront, cut?_append hfront]
    exact ⟨writeAt_append value, rfl⟩
  · rw [position?_eq_none hname, cut?_eq_none_iff.mpr hname,
      Attributes.entries_set_of_not_mem value hname]
    exact ⟨rfl, rfl⟩

theorem eraseAt_eq (hd : (entries.map Prod.fst).Nodup) (name : String) :
    eraseAt entries name = some (without name entries) := by
  unfold eraseAt
  by_cases hname : name ∈ entries.map Prod.fst
  · obtain ⟨front, old, back, rfl, hfront, hback⟩ := exists_cut hd hname
    rw [position?_append hfront, without_append hfront hback]
    exact removeAt_append _
  · rw [position?_eq_none hname, without_eq_self hname]

theorem insertBeforeAt_eq (hd : attrs.Distinct) (anchor name value : String) :
    insertBeforeAt attrs.entries anchor name value
        = some (attrs.insertBefore anchor name value).entries ∧
      (onList (.insertBefore anchor name value) attrs.entries).1
        = (attrs.insertBefore anchor name value).entries := by
  have hothers := nodup_without hd name
  have hgone : name ∉ (without name attrs.entries).map Prod.fst :=
    Attributes.not_mem_without name attrs.entries
  rw [Attributes.entries_insertBefore]
  unfold insertBeforeAt onList
  rw [eraseAt_eq hd, Option.bind_eq_bind, Option.bind_some]
  dsimp only
  generalize without name attrs.entries = others at hothers hgone ⊢
  by_cases hanchor : anchor ∈ others.map Prod.fst
  · obtain ⟨front, old, back, rfl, hfront, hback⟩ := exists_cut hothers hanchor
    have hkeep : ∀ entry ∈ front, (entry.1 != anchor) = true := by
      intro entry hentry
      rw [bne_iff_ne]
      exact fun heq => hfront (List.mem_map.mpr ⟨entry, hentry, heq⟩)
    rw [position?_append hfront, cut?_append hfront, List.takeWhile_append_of_pos hkeep,
      List.dropWhile_append_of_pos hkeep]
    refine ⟨(insertAt_append hgone).trans ?_, ?_⟩ <;> simp
  · have hkeep : ∀ entry ∈ others, (entry.1 != anchor) = true := by
      intro entry hentry
      rw [bne_iff_ne]
      exact fun heq => hanchor (List.mem_map.mpr ⟨entry, hentry, heq⟩)
    rw [position?_eq_none hanchor, cut?_eq_none_iff.mpr hanchor,
      List.takeWhile_eq_self_iff.mpr hkeep, List.dropWhile_eq_nil_iff.mpr hkeep]
    dsimp only
    rw [setAt, position?_eq_none hgone]
    exact ⟨rfl, rfl⟩

/-- One splice: what was before the place is still before it, and the new entry is too. -/
theorem spliceAt_eq (hd : ((front ++ back).map Prod.fst).Nodup) (entry : Attribute) :
    spliceAt (front ++ back, front.length) entry
      = some ((spliceEntry (front, back) entry).1 ++ (spliceEntry (front, back) entry).2,
        (spliceEntry (front, back) entry).1.length) := by
  have hinsert : ∀ {front back : List Attribute}, entry.1 ∉ (front ++ back).map Prod.fst →
      (do
        let entries ← insertAt (front ++ back) front.length entry
        return (entries, front.length + 1))
        = some (front ++ [entry] ++ back, (front ++ [entry]).length) := by
    intro front back hnot
    rw [insertAt_append hnot]
    simp
  have hgone : entry.1 ∉ (without entry.1 front ++ without entry.1 back).map Prod.fst := by
    rw [List.map_append, List.mem_append, not_or]
    exact ⟨Attributes.not_mem_without _ _, Attributes.not_mem_without _ _⟩
  obtain ⟨n, value⟩ := entry
  dsimp only at hgone hinsert ⊢
  unfold spliceAt spliceEntry
  dsimp only
  rw [List.map_append, List.nodup_append'] at hd
  obtain ⟨hdfront, hdback, hdisj⟩ := hd
  by_cases hfront : n ∈ front.map Prod.fst
  · -- The entry is taken from before the place, which moves back by one.
    have hback : n ∉ back.map Prod.fst := fun h => hdisj hfront h
    obtain ⟨front₁, old, front₂, rfl, h₁, h₂⟩ := exists_cut hdfront hfront
    have hmoved : before? (front₁ ++ (n, old) :: front₂).length
        = some (front₁ ++ front₂).length := by
      rw [List.length_append, List.length_cons, ← Nat.add_assoc, List.length_append]
      rfl
    rw [without_append h₁ h₂, without_eq_self hback] at hgone ⊢
    rw [List.append_assoc, List.cons_append, position?_append h₁]
    simp only [Option.bind_eq_bind, removeAt_append, Option.bind_some]
    rw [if_pos (by simp), hmoved, Option.bind_some, ← List.append_assoc]
    exact hinsert hgone
  · rw [without_eq_self hfront] at hgone ⊢
    by_cases hback : n ∈ back.map Prod.fst
    · obtain ⟨back₁, old, back₂, rfl, h₁, h₂⟩ := exists_cut hdback hback
      have hbefore : n ∉ (front ++ back₁).map Prod.fst := by
        rw [List.map_append, List.mem_append, not_or]
        exact ⟨hfront, h₁⟩
      rw [without_append h₁ h₂] at hgone ⊢
      rw [← List.append_assoc, position?_append hbefore]
      simp only [Option.bind_eq_bind, removeAt_append, Option.bind_some]
      rw [if_neg (by simp), List.append_assoc]
      exact hinsert hgone
    · rw [without_eq_self hback] at hgone ⊢
      rw [position?_eq_none (by rwa [List.map_append, List.mem_append, not_or] at hgone ⊢)]
      exact hinsert hgone

theorem foldlM_spliceAt (new : List Attribute) :
    ∀ front back : List Attribute, ((front ++ back).map Prod.fst).Nodup →
      new.foldlM spliceAt (front ++ back, front.length)
        = some ((new.foldl spliceEntry (front, back)).1 ++ (new.foldl spliceEntry (front, back)).2,
          (new.foldl spliceEntry (front, back)).1.length) := by
  induction new with
  | nil => exact fun front back _ => rfl
  | cons entry new ih =>
      intro front back hd
      have hd' : (((spliceEntry (front, back) entry).1
          ++ (spliceEntry (front, back) entry).2).map Prod.fst).Nodup := by
        have hone : spliceEntry (front, back) entry = _ := foldl_spliceEntry_eq [entry] front back
        rw [hone]
        exact nodup_spliced hd [entry]
      rw [List.foldlM_cons, spliceAt_eq hd, List.foldl_cons]
      exact ih _ _ hd'

/-- A replacement, by positions and on lists. -/
theorem replaceAt_eq (hd : attrs.Distinct) (name : String) (new : List Attribute) :
    replaceAt attrs.entries name new
        = some ((attrs.replaceD name new).entries, attrs.contains name) ∧
      replaceOnList attrs.entries name new
        = ((attrs.replaceD name new).entries, .changed (attrs.contains name)) ∧
      (attrs.replaceD name new).Distinct := by
  unfold replaceAt replaceOnList
  by_cases hname : name ∈ attrs.entries.map Prod.fst
  · obtain ⟨front, old, back, hsplit, hfront, hback⟩ := exists_cut hd hname
    have hrest : ((front ++ back).map Prod.fst).Nodup := by
      have := nodup_without hd name
      rwa [hsplit, without_append hfront hback] at this
    have hkeep : ∀ entry ∈ front, (entry.1 != name) = true := by
      intro entry hentry
      rw [bne_iff_ne]
      exact fun heq => hfront (List.mem_map.mpr ⟨entry, hentry, heq⟩)
    have hcontains : attrs.contains name = true := Attributes.contains_iff.mpr hname
    have hreplaced : (attrs.replaceD name new).entries
        = withoutAll (new.map Prod.fst) front ++ lastOfEach new
          ++ withoutAll (new.map Prod.fst) back := by
      unfold Attributes.replaceD Attributes.replace
      rw [if_pos hcontains, List.span_eq_takeWhile_dropWhile, hsplit,
        List.takeWhile_append_of_pos hkeep, List.dropWhile_append_of_pos hkeep]
      simp [foldl_spliceEntry_eq]
    unfold Attributes.Distinct Attributes.names
    rw [hreplaced, hcontains, hsplit, position?_append hfront, cut?_append hfront]
    refine ⟨?_, rfl, nodup_spliced hrest new⟩
    simp only [Option.bind_eq_bind, removeAt_append, Option.bind_some,
      foldlM_spliceAt new front back hrest, foldl_spliceEntry_eq]
    rfl
  · rw [position?_eq_none hname, cut?_eq_none_iff.mpr hname, Attributes.replaceD_of_not_mem hname,
      Attributes.contains_eq_false_iff.mpr hname]
    exact ⟨rfl, rfl, hd⟩

/-! ### Every edit -/

/-- The edit leaves names distinct, and is the same by positions and on the list of entries. -/
structure Agrees (edit : Edit) (attrs : Attributes) : Prop where
  distinct : (edit.apply attrs).1.Distinct
  position : edit.applyAt attrs.entries = some ((edit.apply attrs).1.entries, (edit.apply attrs).2)
  list : edit.onList attrs.entries = ((edit.apply attrs).1.entries, (edit.apply attrs).2)

theorem lookup?_eq_none (h : name ∉ attrs.entries.map Prod.fst) : attrs.lookup? name = none :=
  Option.map_eq_none_iff.mp (Attributes.get?_eq_none_iff.mpr h)

theorem agrees_insert (hd : attrs.Distinct) (name value : String) :
    (insert name value).Agrees attrs where
  distinct := hd.set name _
  position := congrArg (Option.map fun entries => (entries, Answer.done))
    (setAt_eq hd name (some value)).1
  list := congrArg (fun entries => (entries, Answer.done)) (setAt_eq hd name (some value)).2

theorem agrees_insertBare (hd : attrs.Distinct) (name : String) :
    (insertBare name).Agrees attrs where
  distinct := hd.set name _
  position := congrArg (Option.map fun entries => (entries, Answer.done)) (setAt_eq hd name none).1
  list := congrArg (fun entries => (entries, Answer.done)) (setAt_eq hd name none).2

theorem agrees_insertBefore (hd : attrs.Distinct) (anchor name value : String) :
    (insertBefore anchor name value).Agrees attrs where
  distinct := hd.insertBefore anchor name value
  position := congrArg (Option.map fun entries => (entries, Answer.done))
    (insertBeforeAt_eq hd anchor name value).1
  list := by
    refine Prod.ext (insertBeforeAt_eq hd anchor name value).2 ?_
    unfold onList
    dsimp only
    split <;> rfl

theorem agrees_remove (hd : attrs.Distinct) (name : String) : (remove name).Agrees attrs where
  distinct := hd.erase name
  position := congrArg
    (Option.map fun entries => (entries, Answer.removed (attrs.lookup? name))) (eraseAt_eq hd name)
  list := by
    unfold onList apply
    dsimp only
    by_cases hname : name ∈ attrs.entries.map Prod.fst
    · obtain ⟨front, old, back, hsplit, hfront, hback⟩ := exists_cut hd hname
      have hlookup : attrs.lookup? name = some old := hd.lookup?_eq (by rw [hsplit]; simp)
      have herase : (attrs.erase name).entries = front ++ back := by
        show without name attrs.entries = _
        rw [hsplit, without_append hfront hback]
      rw [hlookup, herase, hsplit, cut?_append hfront]
    · have herase : (attrs.erase name).entries = attrs.entries := without_eq_self hname
      rw [lookup?_eq_none hname, herase, cut?_eq_none_iff.mpr hname]

theorem apply_replaceWith (attrs : Attributes) (name : String) (new : List Attribute) :
    (replaceWith name new).apply attrs
      = (attrs.replaceD name new, .changed (attrs.contains name)) := by
  have hsome : (attrs.replace name new).isSome = attrs.contains name := by
    unfold Attributes.replace
    split
    · rename_i h
      exact h.symm
    · rename_i h
      exact (Bool.eq_false_iff.mpr h).symm
  unfold apply Attributes.replaceD
  dsimp only
  rw [← hsome]
  cases attrs.replace name new <;> rfl

theorem agrees_replaceWith (hd : attrs.Distinct) (name : String) (new : List Attribute) :
    (replaceWith name new).Agrees attrs := by
  obtain ⟨hposition, hlist, hdistinct⟩ := replaceAt_eq hd name new
  have happly := apply_replaceWith attrs name new
  refine ⟨?_, ?_, ?_⟩
  · rw [happly]
    exact hdistinct
  · rw [happly]
    exact congrArg (Option.map fun after => (after.1, Answer.changed after.2)) hposition
  · rw [happly]
    exact hlist

/-- Renaming is a replacement by one entry of the same value. -/
theorem agrees_rename (hd : attrs.Distinct) (old new : String) : (rename old new).Agrees attrs := by
  by_cases hname : old ∈ attrs.entries.map Prod.fst
  · obtain ⟨front, value, back, hsplit, hfront, -⟩ := exists_cut hd hname
    have hlookup : attrs.lookup? old = some value := hd.lookup?_eq (by rw [hsplit]; simp)
    have happly : (rename old new).apply attrs = (replaceWith old [(new, value)]).apply attrs := by
      rw [apply_replaceWith, Attributes.contains_iff.mpr hname]
      unfold apply
      dsimp only
      rw [Attributes.rename_eq hlookup]
    have hposition : (rename old new).applyAt attrs.entries
        = (replaceWith old [(new, value)]).applyAt attrs.entries := by
      unfold applyAt renameAt
      dsimp only
      rw [show attrs.entries.lookup old = some value from hlookup]
    have hlist : (rename old new).onList attrs.entries
        = (replaceWith old [(new, value)]).onList attrs.entries := by
      unfold onList
      dsimp only
      rw [hsplit, cut?_append hfront]
    obtain ⟨hdistinct, hposition', hlist'⟩ := agrees_replaceWith hd old [(new, value)]
    refine ⟨?_, ?_, ?_⟩
    · rw [happly]
      exact hdistinct
    · rw [hposition, happly]
      exact hposition'
    · rw [hlist, happly]
      exact hlist'
  · have happly : (rename old new).apply attrs = (attrs, .changed false) := by
      unfold apply
      dsimp only
      rw [Attributes.rename_eq_none hname]
    refine ⟨?_, ?_, ?_⟩
    · rw [happly]
      exact hd
    · rw [happly]
      unfold applyAt renameAt
      dsimp only
      rw [show attrs.entries.lookup old = none from lookup?_eq_none hname]
      rfl
    · rw [happly]
      unfold onList
      dsimp only
      rw [cut?_eq_none_iff.mpr hname]

/-- Entries that are set one after the other, on a map that has some already. -/
theorem foldlM_setAt (new : List (String × String)) : ∀ attrs : Attributes, attrs.Distinct →
    new.foldlM (fun entries entry => setAt entries entry.1 (some entry.2)) attrs.entries
        = some ((new.map fun entry => (entry.1, some entry.2)).foldl
          (fun attrs entry => attrs.set entry.1 entry.2) attrs).entries ∧
      new.foldl (fun made entry => setOnList made entry.1 (some entry.2)) attrs.entries
        = ((new.map fun entry => (entry.1, some entry.2)).foldl
          (fun attrs entry => attrs.set entry.1 entry.2) attrs).entries := by
  induction new with
  | nil => exact fun attrs _ => ⟨rfl, rfl⟩
  | cons entry new ih =>
      intro attrs hd
      obtain ⟨hposition, hlist⟩ := setAt_eq hd entry.1 (some entry.2)
      rw [List.foldlM_cons, hposition, List.foldl_cons, hlist]
      exact ih (attrs.set entry.1 (some entry.2)) (hd.set _ _)

theorem agrees_collect (attrs : Attributes) (new : List (String × String)) :
    (collect new).Agrees attrs where
  distinct := Attributes.distinct_ofEntries _
  position := congrArg (Option.map fun entries => (entries, Answer.done))
    (foldlM_setAt new .empty List.nodup_nil).1
  list := congrArg (fun entries => (entries, Answer.done))
    (foldlM_setAt new .empty List.nodup_nil).2

theorem agrees (edit : Edit) (hd : attrs.Distinct) : edit.Agrees attrs := by
  cases edit with
  | insert name value => exact agrees_insert hd name value
  | insertBare name => exact agrees_insertBare hd name
  | insertBefore anchor name value => exact agrees_insertBefore hd anchor name value
  | remove name => exact agrees_remove hd name
  | rename old new => exact agrees_rename hd old new
  | replaceWith name new => exact agrees_replaceWith hd name new
  | collect new => exact agrees_collect attrs new

/-! ### Every sequence of edits -/

/-- Edits on a list of entries, one after the other. -/
def runOnList (edits : List Edit) (entries : List Attribute) : List Attribute × List Answer :=
  Id.run (runWith (fun edit entries => pure (edit.onList entries)) edits entries)

theorem runAt_cons {edit : Edit} {edits : List Edit} {entries entries' : List Attribute}
    {answer : Answer} (h : edit.applyAt entries = some (entries', answer)) :
    runAt (edit :: edits) entries
      = (runAt edits entries').map fun (entries, answers) => (entries, answer :: answers) := by
  unfold runAt
  rw [runWith, h, Option.bind_eq_bind, Option.bind_some]
  dsimp only
  cases runWith applyAt edits entries' <;> rfl

theorem runOnList_cons (edit : Edit) (edits : List Edit) (entries : List Attribute) :
    runOnList (edit :: edits) entries
      = ((runOnList edits (edit.onList entries).1).1,
        (edit.onList entries).2 :: (runOnList edits (edit.onList entries).1).2) := rfl

theorem run_eq (edits : List Edit) : ∀ attrs : Attributes, attrs.Distinct →
    (run edits attrs).1.Distinct ∧
      runAt edits attrs.entries = some ((run edits attrs).1.entries, (run edits attrs).2) ∧
      runOnList edits attrs.entries = ((run edits attrs).1.entries, (run edits attrs).2) := by
  induction edits with
  | nil => exact fun attrs hd => ⟨hd, rfl, rfl⟩
  | cons edit edits ih =>
      intro attrs hd
      obtain ⟨hdistinct, hposition, hlist⟩ := edit.agrees hd
      obtain ⟨hrest, hpositions, hlists⟩ := ih (edit.apply attrs).1 hdistinct
      refine ⟨hrest, ?_, ?_⟩
      · rw [runAt_cons hposition, hpositions]
        rfl
      · rw [runOnList_cons, hlist, hlists]
        rfl

/-- However a map of attributes is built and changed, its names stay distinct, every position that
is used on the way lies within the bounds, and every edit does to the list of entries what is said
of lists, and answers so. -/
theorem run_agrees (edits : List Edit) :
    (run edits .empty).1.Distinct ∧
      runAt edits [] = some ((run edits .empty).1.entries, (run edits .empty).2) ∧
      runOnList edits [] = ((run edits .empty).1.entries, (run edits .empty).2) :=
  run_eq edits .empty List.nodup_nil

/-- Names that repeat in a replacement, stand elsewhere, or are the one that is replaced. -/
example :
    let new : List Attribute := [("a", some "1"), ("b", none), ("c", none), ("a", some "2")]
    onList (.replaceWith "b" new)
        [("x", none), ("c", none), ("b", none), ("a", none), ("y", none)]
      = ([("x", none), ("b", none), ("c", none), ("a", some "2"), ("y", none)], .changed true) := by
  decide

end Edit

end TemplateCompiler
