/-
Attributes stay a map.

The entries are a list, so nothing in the type keeps a name from occurring twice.
`Distinct` says that none does, and every operation keeps it.  Under that invariant an
operation is known by what it does to each entry on its own: `replaceD` is the list with
every entry rewritten by `replaceEntry`, because the entry that is replaced is the only
one of its name and the entries that give way are told by their names alone.  The
adapters are sequences of such rewritings, and sequences of them compose.
-/
import Mathlib.Data.List.Induction
import Mathlib.Data.List.Nodup
import Mathlib.Data.List.TakeDrop
import TemplateCompiler.Markup.Attributes

namespace TemplateCompiler

/-- A list of one element at most has no two. -/
theorem eq_of_length_le_one {α : Type} {l : List α} (h : l.length ≤ 1) {a b : α} (ha : a ∈ l)
    (hb : b ∈ l) : a = b := by
  match l with
  | [] => cases ha
  | [only] => rw [List.mem_singleton.mp ha, List.mem_singleton.mp hb]
  | _ :: _ :: _ => simp at h

namespace Attributes

variable {attrs : Attributes} {name : String}

theorem eq_of_entries {attrs' : Attributes} (h : attrs.entries = attrs'.entries) : attrs = attrs' :=
  congrArg Attributes.mk h

/-- No two entries have one name. -/
def Distinct (attrs : Attributes) : Prop := attrs.names.Nodup

/-! ### Looking up -/

theorem mem_names {name : String} :
    name ∈ attrs.names ↔ ∃ value, (name, value) ∈ attrs.entries := by
  unfold names
  constructor
  · intro h
    obtain ⟨⟨n, v⟩, hmem, rfl⟩ := List.mem_map.mp h
    exact ⟨v, hmem⟩
  · rintro ⟨v, hmem⟩
    exact List.mem_map.mpr ⟨(name, v), hmem, rfl⟩

theorem contains_iff : attrs.contains name = true ↔ name ∈ attrs.names := by
  rw [mem_names]
  unfold contains lookup?
  rw [List.lookup_isSome_iff]
  constructor
  · rintro ⟨⟨n, v⟩, hmem, hn⟩
    rw [beq_iff_eq] at hn
    exact ⟨v, by rw [hn]; exact hmem⟩
  · rintro ⟨v, hmem⟩
    exact ⟨(name, v), hmem, by simp⟩

theorem contains_eq_false_iff : attrs.contains name = false ↔ name ∉ attrs.names := by
  rw [← contains_iff, Bool.not_eq_true]

/-- Where names are distinct, an entry is what is found under its name. -/
theorem Distinct.lookup?_eq (hd : attrs.Distinct) {value : Option String}
    (h : (name, value) ∈ attrs.entries) : attrs.lookup? name = some value := by
  unfold lookup?
  obtain ⟨front, back, hsplit⟩ := List.append_of_mem h
  rw [List.lookup_eq_some_iff]
  refine ⟨front, back, hsplit, ?_⟩
  intro entry hentry
  have hnodup : (front.map Prod.fst ++ name :: back.map Prod.fst).Nodup := by
    have := hd
    unfold Distinct names at this
    rw [hsplit, List.map_append] at this
    exact this
  have hne : name ∉ front.map Prod.fst := by
    intro hmem
    exact List.disjoint_of_nodup_append hnodup hmem (by simp)
  rw [bne_iff_ne]
  intro heq
  exact hne (List.mem_map.mpr ⟨entry, hentry, heq.symm⟩)

/-- A name without a value counts as an empty text. -/
theorem Distinct.get?_of_mem (hd : attrs.Distinct) {value : Option String}
    (h : (name, value) ∈ attrs.entries) : attrs.get? name = some (value.getD "") := by
  unfold get?
  rw [hd.lookup?_eq h]
  rfl

theorem get?_eq_none_iff : attrs.get? name = none ↔ name ∉ attrs.names := by
  rw [← contains_iff]
  unfold get? contains
  simp

theorem mem_names_of_get? {value : String} (h : attrs.get? name = some value) :
    name ∈ attrs.names := by
  by_contra hnot
  rw [get?_eq_none_iff.mpr hnot] at h
  cases h

/-! ### Setting and erasing -/

theorem names_set_of_mem (value : Option String) (h : name ∈ attrs.names) :
    (attrs.set name value).names = attrs.names := by
  unfold set
  rw [if_pos (contains_iff.mpr h)]
  unfold names
  rw [List.map_map]
  refine List.map_congr_left fun entry _ => ?_
  show (if entry.1 == name then (entry.1, value) else entry).1 = entry.1
  split <;> rfl

theorem entries_set_of_not_mem (value : Option String) (h : name ∉ attrs.names) :
    (attrs.set name value).entries = attrs.entries ++ [(name, value)] := by
  unfold set
  rw [if_neg (by rw [contains_iff]; exact h)]

theorem names_set_of_not_mem (value : Option String) (h : name ∉ attrs.names) :
    (attrs.set name value).names = attrs.names ++ [name] := by
  unfold names
  rw [entries_set_of_not_mem value h, List.map_append]
  rfl

/-- The last entry keeps its place when its name is given a value. -/
theorem entries_set_last {front : List Attribute} {old : Option String}
    (h : attrs.entries = front ++ [(name, old)]) (hfront : ∀ x ∈ front, x.1 ≠ name)
    (value : Option String) : (attrs.set name value).entries = front ++ [(name, value)] := by
  have hmem : name ∈ attrs.names := by
    unfold names
    rw [h]
    simp
  have hkept : front.map (fun entry => if entry.1 == name then (entry.1, value) else entry)
      = front.map id := by
    refine List.map_congr_left ?_
    intro x hx
    rw [if_neg (by simpa using hfront x hx)]
    rfl
  unfold set
  rw [if_pos (contains_iff.mpr hmem), h]
  show (front ++ [(name, old)]).map _ = _
  rw [List.map_append, hkept, List.map_id]
  simp

theorem mem_names_set {value : Option String} {n : String} :
    n ∈ (attrs.set name value).names ↔ n ∈ attrs.names ∨ n = name := by
  by_cases h : name ∈ attrs.names
  · rw [names_set_of_mem value h]
    constructor
    · exact Or.inl
    · rintro (hn | rfl)
      · exact hn
      · exact h
  · rw [names_set_of_not_mem value h]
    simp

theorem Distinct.set (hd : attrs.Distinct) (name : String) (value : Option String) :
    (attrs.set name value).Distinct := by
  unfold Distinct
  by_cases h : name ∈ attrs.names
  · rw [names_set_of_mem value h]
    exact hd
  · rw [names_set_of_not_mem value h]
    refine List.nodup_append'.mpr ⟨hd, List.nodup_singleton name, ?_⟩
    intro n hn hn'
    rw [List.mem_singleton] at hn'
    exact h (hn' ▸ hn)

theorem mem_names_erase {n : String} :
    n ∈ (attrs.erase name).names ↔ n ∈ attrs.names ∧ n ≠ name := by
  rw [names_erase, List.mem_filter, bne_iff_ne]

theorem Distinct.erase (hd : attrs.Distinct) (name : String) : (attrs.erase name).Distinct := by
  unfold Distinct
  rw [names_erase]
  exact List.Nodup.filter _ hd

/-- A map that is built from a list whose names are distinct is that list. -/
theorem entries_ofEntries {entries : List Attribute} (h : (entries.map Prod.fst).Nodup) :
    (ofEntries entries).entries = entries := by
  have hfold : ∀ (rest : List Attribute) (start : Attributes),
      (start.names ++ rest.map Prod.fst).Nodup →
      (rest.foldl (fun attrs entry => attrs.set entry.1 entry.2) start).entries
        = start.entries ++ rest := by
    intro rest
    induction rest with
    | nil => intro start _; simp
    | cons entry rest ih =>
        intro start hnodup
        have hnew : entry.1 ∉ start.names := fun hmem =>
          List.disjoint_of_nodup_append hnodup hmem (by simp)
        rw [List.foldl_cons, ih (start.set entry.1 entry.2), entries_set_of_not_mem _ hnew]
        · simp
        · rw [names_set_of_not_mem _ hnew]
          simpa using hnodup
  have := hfold entries empty (by simpa [empty, names] using h)
  simpa [ofEntries, empty] using this

theorem distinct_ofEntries (entries : List Attribute) : (ofEntries entries).Distinct := by
  have hfold : ∀ (rest : List Attribute) (start : Attributes), start.Distinct →
      (rest.foldl (fun attrs entry => attrs.set entry.1 entry.2) start).Distinct := by
    intro rest
    induction rest with
    | nil => intro start h; exact h
    | cons entry rest ih => intro start h; exact ih _ (h.set entry.1 entry.2)
  exact hfold entries empty List.nodup_nil

theorem ofEntries_concat (entries : List Attribute) (entry : Attribute) :
    ofEntries (entries ++ [entry]) = (ofEntries entries).set entry.1 entry.2 := by
  unfold ofEntries
  rw [List.foldl_append]
  rfl

/-- A name has the place where it stands first. -/
theorem names_ofEntries (entries : List Attribute) :
    (ofEntries entries).names = (entries.map Prod.fst).eraseDups := by
  induction entries using List.reverseRecOn with
  | nil => rfl
  | append_singleton entries entry ih =>
      have hmem : entry.1 ∈ (ofEntries entries).names ↔ entry.1 ∈ entries.map Prod.fst := by
        rw [ih, List.mem_eraseDups]
      rw [ofEntries_concat, List.map_append, List.map_singleton, List.eraseDups_append, ← ih,
        List.cons_removeAll]
      by_cases h : entry.1 ∈ entries.map Prod.fst
      · rw [names_set_of_mem _ (hmem.mpr h), if_neg (by simpa using h)]
        exact (List.append_nil _).symm
      · rw [names_set_of_not_mem _ (mt hmem.mp h), if_pos (by simpa using h)]
        rfl

theorem mem_names_ofEntries {entries : List Attribute} {n : String} :
    n ∈ (ofEntries entries).names ↔ n ∈ entries.map Prod.fst := by
  rw [names_ofEntries, List.mem_eraseDups]

/-- The value that a name is given last, if it is given one at all. -/
def lastValue (entries : List Attribute) (name : String) : Option String :=
  (entries.reverse.lookup name).getD none

theorem lastValue_concat (entries : List Attribute) (entry : Attribute) (name : String) :
    lastValue (entries ++ [entry]) name
      = if name = entry.1 then entry.2 else lastValue entries name := by
  unfold lastValue
  rw [List.reverse_append, List.reverse_singleton, List.singleton_append, List.lookup_cons]
  by_cases h : name = entry.1
  · rw [if_pos h, beq_iff_eq.mpr h]
    rfl
  · rw [if_neg h, beq_eq_false_iff_ne.mpr h]

/-- In the place where it stands first, a name has the value that it is given last. -/
theorem entries_ofEntries_eq (entries : List Attribute) :
    (ofEntries entries).entries
      = (entries.map Prod.fst).eraseDups.map fun name => (name, lastValue entries name) := by
  rw [← names_ofEntries]
  induction entries using List.reverseRecOn with
  | nil => rfl
  | append_singleton entries entry ih =>
      rw [ofEntries_concat]
      by_cases h : entry.1 ∈ (ofEntries entries).names
      · rw [names_set_of_mem _ h]
        unfold set
        rw [if_pos (contains_iff.mpr h)]
        show (ofEntries entries).entries.map _ = _
        rw [ih, List.map_map]
        refine List.map_congr_left fun name _ => ?_
        show (if name == entry.1 then _ else _) = _
        rw [lastValue_concat]
        by_cases hname : name = entry.1
        · rw [if_pos (beq_iff_eq.mpr hname), if_pos hname]
        · rw [if_neg (by simpa using hname), if_neg hname]
      · rw [entries_set_of_not_mem _ h, names_set_of_not_mem _ h, ih, List.map_append,
          List.map_singleton, lastValue_concat, if_pos rfl]
        congr 1
        refine List.map_congr_left fun name hname => ?_
        have hne : name ≠ entry.1 := fun heq => h (heq ▸ hname)
        rw [lastValue_concat, if_neg hne]

/-! ### Putting one entry before another -/

/-- What `insertBefore` leaves before the new entry and after it. -/
theorem entries_insertBefore (attrs : Attributes) (anchor name value : String) :
    (attrs.insertBefore anchor name value).entries
      = (without name attrs.entries).takeWhile (fun entry => entry.1 != anchor)
        ++ (name, some value) ::
          (without name attrs.entries).dropWhile (fun entry => entry.1 != anchor) := by
  simp only [insertBefore, List.span_eq_takeWhile_dropWhile]

theorem names_insertBefore_perm (attrs : Attributes) (anchor name value : String) :
    (attrs.insertBefore anchor name value).names.Perm (name :: (attrs.erase name).names) := by
  unfold names
  rw [entries_insertBefore, List.map_append, List.map_cons]
  refine List.perm_middle.trans ?_
  rw [← List.map_append, List.takeWhile_append_dropWhile]
  exact List.Perm.refl _

theorem Distinct.insertBefore (hd : attrs.Distinct) (anchor name value : String) :
    (attrs.insertBefore anchor name value).Distinct := by
  refine (names_insertBefore_perm attrs anchor name value).nodup_iff.mpr ?_
  rw [List.nodup_cons]
  refine ⟨?_, hd.erase name⟩
  rw [mem_names_erase]
  exact fun h => h.2 rfl

theorem mem_names_insertBefore {anchor value n : String} :
    n ∈ (attrs.insertBefore anchor name value).names ↔ n ∈ attrs.names ∨ n = name := by
  rw [(names_insertBefore_perm attrs anchor name value).mem_iff, List.mem_cons, mem_names_erase]
  by_cases h : n = name
  · simp [h]
  · simp [h]

/-! ### Replacing one entry by others -/

/-- The entries without those that have one of the names. -/
def withoutAll (names : List String) (entries : List Attribute) : List Attribute :=
  entries.filter fun entry => !names.contains entry.1

theorem withoutAll_append (names : List String) (front back : List Attribute) :
    withoutAll names (front ++ back) = withoutAll names front ++ withoutAll names back :=
  List.filter_append ..

theorem withoutAll_without (name : String) (names : List String) (entries : List Attribute) :
    withoutAll names (without name entries) = withoutAll (name :: names) entries := by
  unfold withoutAll without
  rw [List.filter_filter]
  refine List.filter_congr fun entry _ => ?_
  by_cases h : entry.1 = name
  · simp [h]
  · simp [h]

theorem withoutAll_eq_self {names : List String} {entries : List Attribute}
    (h : ∀ entry ∈ entries, entry.1 ∉ names) : withoutAll names entries = entries := by
  refine List.filter_eq_self.mpr fun entry hentry => ?_
  simpa using h entry hentry

/-- The splices one after the other, where no name is spliced in twice. -/
theorem foldl_spliceEntry {new : List Attribute} (hnew : (new.map Prod.fst).Nodup) :
    ∀ front back : List Attribute,
      new.foldl spliceEntry (front, back)
        = (withoutAll (new.map Prod.fst) front ++ new, withoutAll (new.map Prod.fst) back) := by
  induction new with
  | nil => intro front back; simp [withoutAll]
  | cons entry rest ih =>
      intro front back
      rw [List.map_cons, List.nodup_cons] at hnew
      have hself : withoutAll (rest.map Prod.fst) [entry] = [entry] :=
        withoutAll_eq_self (by simpa using hnew.1)
      rw [List.foldl_cons]
      show rest.foldl spliceEntry (without entry.1 front ++ [entry], without entry.1 back) = _
      rw [ih hnew.2, withoutAll_append, hself, withoutAll_without, withoutAll_without,
        List.map_cons, List.append_assoc]
      rfl

/-- What becomes of one entry when `name` is replaced. -/
def replaceEntry (name : String) (new : List Attribute) (entry : Attribute) : List Attribute :=
  if entry.1 = name then new else if entry.1 ∈ new.map Prod.fst then [] else [entry]

theorem replaceEntry_nil (name : String) (entry : Attribute) :
    replaceEntry name [] entry = if entry.1 = name then [] else [entry] := rfl

/-- Where only the value is new, no other entry is taken away. -/
theorem replaceEntry_value (name : String) (value : Option String) (entry : Attribute) :
    replaceEntry name [(name, value)] entry
      = if entry.1 = name then [(name, value)] else [entry] := by
  unfold replaceEntry
  split
  · rfl
  · rename_i hne
    exact if_neg (by simpa using hne)

theorem flatMap_replaceEntry_of_not_mem {new entries : List Attribute}
    (h : name ∉ entries.map Prod.fst) :
    entries.flatMap (replaceEntry name new) = withoutAll (new.map Prod.fst) entries := by
  induction entries with
  | nil => rfl
  | cons entry rest ih =>
      rw [List.map_cons, List.mem_cons, not_or] at h
      rw [List.flatMap_cons, ih h.2]
      unfold replaceEntry
      rw [if_neg (fun hc => h.1 hc.symm)]
      unfold withoutAll
      rw [List.filter_cons]
      by_cases hc : entry.1 ∈ new.map Prod.fst
      · rw [if_pos hc]
        simp [hc]
      · rw [if_neg hc]
        simp [hc]

/-- Where names are distinct, replacing is done entry by entry. -/
theorem Distinct.entries_replaceD (hd : attrs.Distinct) (hname : name ∈ attrs.names)
    {new : List Attribute} (hnew : (new.map Prod.fst).Nodup) :
    (attrs.replaceD name new).entries = attrs.entries.flatMap (replaceEntry name new) := by
  obtain ⟨value, hvalue⟩ := mem_names.mp hname
  obtain ⟨front, back, hsplit⟩ := List.append_of_mem hvalue
  have hnodup : (front.map Prod.fst ++ name :: back.map Prod.fst).Nodup := by
    have := hd
    unfold Distinct names at this
    rw [hsplit, List.map_append] at this
    exact this
  obtain ⟨-, hback, hdisj⟩ := List.nodup_append'.mp hnodup
  have hfront : name ∉ front.map Prod.fst := fun hmem => hdisj hmem (by simp)
  rw [List.nodup_cons] at hback
  have hkeep : ∀ entry ∈ front, (entry.1 != name) = true := by
    intro entry hentry
    rw [bne_iff_ne]
    rintro rfl
    exact hfront (List.mem_map.mpr ⟨entry, hentry, rfl⟩)
  have hspan : attrs.entries.span (fun entry => entry.1 != name)
      = (front, (name, value) :: back) := by
    rw [List.span_eq_takeWhile_dropWhile, hsplit, List.takeWhile_append_of_pos hkeep,
      List.dropWhile_append_of_pos hkeep]
    simp
  unfold replaceD replace
  rw [if_pos (contains_iff.mpr hname), hspan]
  show (new.foldl spliceEntry (front, back)).1 ++ (new.foldl spliceEntry (front, back)).2 = _
  rw [foldl_spliceEntry hnew, hsplit, List.flatMap_append, List.flatMap_cons,
    flatMap_replaceEntry_of_not_mem hfront, flatMap_replaceEntry_of_not_mem hback.1,
    List.append_assoc]
  unfold replaceEntry
  rw [if_pos rfl]

theorem replaceD_of_not_mem {new : List Attribute} (h : name ∉ attrs.names) :
    attrs.replaceD name new = attrs := by
  unfold replaceD
  rw [replace_eq_none (contains_eq_false_iff.mpr h)]
  rfl

theorem mem_flatMap_replaceEntry {new entries : List Attribute} {entry : Attribute} :
    entry ∈ entries.flatMap (replaceEntry name new)
      ↔ (name ∈ entries.map Prod.fst ∧ entry ∈ new)
        ∨ (entry ∈ entries ∧ entry.1 ≠ name ∧ entry.1 ∉ new.map Prod.fst) := by
  rw [List.mem_flatMap]
  constructor
  · rintro ⟨old, hold, hmem⟩
    unfold replaceEntry at hmem
    split at hmem
    · rename_i heq
      exact Or.inl ⟨List.mem_map.mpr ⟨old, hold, heq⟩, hmem⟩
    · rename_i hne
      split at hmem
      · cases hmem
      · rename_i hnot
        rw [List.mem_singleton] at hmem
        subst hmem
        exact Or.inr ⟨hold, hne, hnot⟩
  · rintro (⟨hname, hmem⟩ | ⟨hmem, hne, hnot⟩)
    · obtain ⟨old, hold, heq⟩ := List.mem_map.mp hname
      refine ⟨old, hold, ?_⟩
      unfold replaceEntry
      rw [if_pos heq]
      exact hmem
    · refine ⟨entry, hmem, ?_⟩
      unfold replaceEntry
      rw [if_neg hne, if_neg hnot]
      exact List.mem_singleton_self entry

/-- Rewriting every entry leaves names distinct, because what is spliced in gives way to
nothing and everything else of its names is gone. -/
theorem nodup_names_flatMap {new entries : List Attribute} (hd : (entries.map Prod.fst).Nodup)
    (hnew : (new.map Prod.fst).Nodup) :
    ((entries.flatMap (replaceEntry name new)).map Prod.fst).Nodup := by
  induction entries with
  | nil => simp
  | cons entry rest ih =>
      rw [List.map_cons, List.nodup_cons] at hd
      rw [List.flatMap_cons, List.map_append]
      refine List.nodup_append'.mpr ⟨?_, ih hd.2, ?_⟩
      · unfold replaceEntry
        split
        · exact hnew
        · split
          · exact List.nodup_nil
          · exact List.nodup_singleton _
      · intro n hn hrest
        obtain ⟨x, hx, rfl⟩ := List.mem_map.mp hn
        obtain ⟨y, hy, hxy⟩ := List.mem_map.mp hrest
        rw [mem_flatMap_replaceEntry] at hy
        unfold replaceEntry at hx
        split at hx
        · rename_i heq
          rcases hy with ⟨hname, -⟩ | ⟨-, -, hnot⟩
          · exact hd.1 (heq ▸ hname)
          · exact hnot (List.mem_map.mpr ⟨x, hx, hxy.symm⟩)
        · split at hx
          · cases hx
          · rename_i hne hnot
            rw [List.mem_singleton] at hx
            subst hx
            rcases hy with ⟨-, hmem⟩ | ⟨hmem, -, -⟩
            · exact hnot (List.mem_map.mpr ⟨y, hmem, hxy⟩)
            · exact hd.1 (List.mem_map.mpr ⟨y, hmem, hxy⟩)

theorem Distinct.replaceD (hd : attrs.Distinct) (name : String) {new : List Attribute}
    (hnew : (new.map Prod.fst).Nodup) : (attrs.replaceD name new).Distinct := by
  by_cases hname : name ∈ attrs.names
  · unfold Distinct names
    rw [hd.entries_replaceD hname hnew]
    exact nodup_names_flatMap hd hnew
  · rw [replaceD_of_not_mem hname]
    exact hd

theorem mem_names_replaceD (hd : attrs.Distinct) (hname : name ∈ attrs.names) {n : String}
    {new : List Attribute} (hnew : (new.map Prod.fst).Nodup) :
    n ∈ (attrs.replaceD name new).names
      ↔ n ∈ new.map Prod.fst ∨ (n ∈ attrs.names ∧ n ≠ name) := by
  unfold names
  rw [hd.entries_replaceD hname hnew]
  constructor
  · intro h
    obtain ⟨entry, hentry, rfl⟩ := List.mem_map.mp h
    rcases mem_flatMap_replaceEntry.mp hentry with ⟨-, hmem⟩ | ⟨hmem, hne, -⟩
    · exact Or.inl (List.mem_map.mpr ⟨entry, hmem, rfl⟩)
    · exact Or.inr ⟨List.mem_map.mpr ⟨entry, hmem, rfl⟩, hne⟩
  · intro h
    by_cases hn : n ∈ new.map Prod.fst
    · obtain ⟨entry, hmem, rfl⟩ := List.mem_map.mp hn
      exact List.mem_map.mpr ⟨entry, mem_flatMap_replaceEntry.mpr (Or.inl ⟨hname, hmem⟩), rfl⟩
    · obtain ⟨hmem, hne⟩ := h.resolve_left hn
      obtain ⟨entry, hentry, rfl⟩ := List.mem_map.mp hmem
      exact List.mem_map.mpr ⟨entry, mem_flatMap_replaceEntry.mpr (Or.inr ⟨hentry, hne, hn⟩), rfl⟩

theorem mem_names_replaceD_one (hd : attrs.Distinct) (hname : name ∈ attrs.names) {n new : String}
    {value : Option String} :
    n ∈ (attrs.replaceD name [(new, value)]).names ↔ n = new ∨ (n ∈ attrs.names ∧ n ≠ name) := by
  have hnodup : ([(new, value)].map Prod.fst).Nodup := List.nodup_singleton new
  rw [mem_names_replaceD hd hname hnodup, List.map_cons, List.map_nil, List.mem_singleton]

/-- A replacement brings no names but the new ones, and takes the replaced one away. -/
theorem mem_names_of_replaceD (hd : attrs.Distinct) {n : String} {new : List Attribute}
    (hnew : (new.map Prod.fst).Nodup) (h : n ∈ (attrs.replaceD name new).names) :
    n ∈ new.map Prod.fst ∨ (n ∈ attrs.names ∧ n ≠ name) := by
  by_cases hname : name ∈ attrs.names
  · exact (mem_names_replaceD hd hname hnew).mp h
  · rw [replaceD_of_not_mem hname] at h
    exact Or.inr ⟨h, fun heq => hname (heq ▸ h)⟩

theorem mem_names_of_replaceD_one (hd : attrs.Distinct) {n new : String} {value : Option String}
    (h : n ∈ (attrs.replaceD name [(new, value)]).names) :
    n = new ∨ (n ∈ attrs.names ∧ n ≠ name) := by
  have hnodup : ([(new, value)].map Prod.fst).Nodup := List.nodup_singleton new
  rcases mem_names_of_replaceD hd hnodup h with hmem | hold
  · rw [List.map_cons, List.map_nil, List.mem_singleton] at hmem
    exact Or.inl hmem
  · exact Or.inr hold

/-- Renaming is replacing by one entry of the same value. -/
theorem rename_eq {value : Option String} {new : String} (h : attrs.lookup? name = some value) :
    attrs.rename name new = some (attrs.replaceD name [(new, value)]) := by
  unfold rename replaceD replace contains
  rw [h]
  rfl

/-- Nothing is renamed where the name is not there. -/
theorem rename_eq_none {new : String} (h : name ∉ attrs.names) : attrs.rename name new = none := by
  have hlookup : attrs.lookup? name = none := Option.map_eq_none_iff.mp (get?_eq_none_iff.mpr h)
  unfold rename
  rw [hlookup]
  rfl

/-! ### Entries after a change -/

theorem mem_entries_set_self (attrs : Attributes) (name : String) (value : Option String) :
    (name, value) ∈ (attrs.set name value).entries := by
  by_cases h : name ∈ attrs.names
  · obtain ⟨old, hold⟩ := mem_names.mp h
    unfold set
    rw [if_pos (contains_iff.mpr h)]
    exact List.mem_map.mpr ⟨_, hold, by simp⟩
  · rw [entries_set_of_not_mem value h]
    simp

theorem mem_entries_set_of_ne {entry : Attribute} {value : Option String} (h : entry.1 ≠ name) :
    entry ∈ (attrs.set name value).entries ↔ entry ∈ attrs.entries := by
  by_cases hname : name ∈ attrs.names
  · unfold set
    rw [if_pos (contains_iff.mpr hname), List.mem_map]
    constructor
    · rintro ⟨old, hold, rfl⟩
      by_cases hn : (old.1 == name) = true
      · rw [if_pos hn] at h
        exact absurd (beq_iff_eq.mp hn) h
      · rw [if_neg hn]
        exact hold
    · intro hmem
      exact ⟨entry, hmem, if_neg (by simpa using h)⟩
  · rw [entries_set_of_not_mem value hname, List.mem_append, List.mem_singleton, or_iff_left]
    rintro rfl
    exact h rfl

theorem mem_entries_erase {entry : Attribute} :
    entry ∈ (attrs.erase name).entries ↔ entry ∈ attrs.entries ∧ entry.1 ≠ name := by
  unfold Attributes.erase without
  rw [List.mem_filter, bne_iff_ne]

/-- Where names are distinct, what is looked up depends on the entries of the name alone. -/
theorem Distinct.get?_congr {attrs' : Attributes} (hd : attrs.Distinct) (hd' : attrs'.Distinct)
    (h : ∀ value, (name, value) ∈ attrs'.entries ↔ (name, value) ∈ attrs.entries) :
    attrs'.get? name = attrs.get? name := by
  by_cases hname : name ∈ attrs.names
  · obtain ⟨value, hvalue⟩ := mem_names.mp hname
    rw [hd.get?_of_mem hvalue, hd'.get?_of_mem ((h value).mpr hvalue)]
  · have hname' : name ∉ attrs'.names := by
      intro hmem
      obtain ⟨value, hvalue⟩ := mem_names.mp hmem
      exact hname (mem_names.mpr ⟨value, (h value).mp hvalue⟩)
    rw [get?_eq_none_iff.mpr hname, get?_eq_none_iff.mpr hname']

theorem Distinct.get?_eq (hd : attrs.Distinct) {value : String}
    (h : (name, some value) ∈ attrs.entries) : attrs.get? name = some value :=
  hd.get?_of_mem h

/-- What has been given a name is found under it. -/
theorem Distinct.get?_insert (hd : attrs.Distinct) (name value : String) :
    (attrs.insert name value).get? name = some value :=
  (hd.set name _).get?_eq (mem_entries_set_self attrs name _)

/-- Giving an attribute the value that it has changes nothing. -/
theorem Distinct.insert_eq_self (hd : attrs.Distinct) {value : String}
    (h : attrs.get? name = some value) (hne : value ≠ "") : attrs.insert name value = attrs := by
  obtain ⟨old, hlookup, hold⟩ := Option.map_eq_some_iff.mp h
  have hcontains : attrs.contains name = true := by
    unfold contains
    rw [hlookup]
    rfl
  have hentry : ∀ entry ∈ attrs.entries,
      (if entry.1 == name then (entry.1, some value) else entry) = entry := by
    rintro ⟨n, value'⟩ hmem
    split
    · rename_i hn
      obtain rfl : n = name := beq_iff_eq.mp hn
      rw [hd.lookup?_eq hmem, Option.some.injEq] at hlookup
      subst hlookup
      cases value' with
      | none => exact absurd hold.symm hne
      | some text => exact congrArg (fun text => (n, some text)) hold.symm
    · rfl
  unfold Attributes.insert Attributes.set
  rw [if_pos hcontains, List.map_congr_left hentry, List.map_id']

end Attributes

end TemplateCompiler
