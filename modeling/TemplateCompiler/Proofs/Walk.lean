/-
Walking a directory.

What a walk finds below a place are the files whose places continue it (`mem_walk`), and no
place is longer than the tree is high, so `filesBelow` finds all of them
(`mem_filesBelow`).

A walk goes by the names that a directory lists in the order of their bytes.  Two files it
finds part ways at some directory, and the one with the smaller name there comes first with
everything else below that name: so they are in the order of their names, the first names
first, and none comes twice (`walk_sorted`).  Nothing is said of the order of whole paths
as texts, where a slash may come before or after what a name goes on with.
-/
import Mathlib.Data.List.Nodup
import TemplateCompiler.Proofs.Files

namespace TemplateCompiler

namespace Path

theorem bytes_inj {a b : String} (h : bytes a = bytes b) : a = b := by
  unfold bytes at h
  exact String.toByteArray_inj.mp (ByteArray.ext (Array.toList_inj.mp h))

/-- Names that lead to one place come before those that lead to another one. -/
def Before (a b : List String) : Prop := a.map bytes < b.map bytes

theorem before_cons {a b : String} {as bs : List String} (h : bytes a < bytes b) :
    Before (a :: as) (b :: bs) :=
  List.cons_lt_cons_iff.mpr (.inl h)

theorem before_cons_same {a : String} {as bs : List String} (h : Before as bs) :
    Before (a :: as) (a :: bs) :=
  List.cons_lt_cons_iff.mpr (.inr ⟨rfl, h⟩)

theorem Before.ne {a b : List String} (h : Before a b) : a ≠ b := by
  rintro rfl
  exact List.lt_irrefl _ h

theorem Before.asymm {a b : List String} (h : Before a b) : ¬ Before b a :=
  fun h' => List.lt_irrefl _ (List.lt_trans h h')

end Path

namespace FileTree

variable {t : FileTree} {place names : List String} {name : String} {entry : Entry}
  {bytes : ByteArray}

/-! ### What a directory lists -/

theorem listed_iff {listed : List String} (hne : listed ≠ []) :
    (if listed.dropLast = place then listed.getLast? else none) = some name ↔
      listed = place ++ [name] := by
  constructor
  · intro h
    split at h
    · next hplace =>
      rw [← hplace]
      exact (List.dropLast_append_getLast? name h).symm
    · nomatch h
  · rintro rfl
    rw [List.dropLast_concat, if_pos rfl, List.getLast?_concat]

theorem mem_namesIn (hs : t.Sound) :
    name ∈ t.namesIn place ↔ ∃ entry, t.find? (place ++ [name]) = some entry := by
  unfold namesIn
  rw [List.mem_mergeSort, List.mem_filterMap]
  constructor
  · rintro ⟨listed, hmem, hname⟩
    have hplaces := List.mem_map_of_mem (f := Prod.fst) hmem
    have heq := (listed_iff (hs.ne_nil _ hplaces)).mp hname
    exact heq ▸ exists_entry (hs.ne_nil _ hplaces) hplaces
  · rintro ⟨entry, hentry⟩
    obtain ⟨listed, hmem, heq⟩ :=
      List.mem_map.mp (mem_places_of_find? (by simp) hentry)
    exact ⟨listed, hmem, (listed_iff (by simp [heq])).mpr heq⟩

/-- A directory lists its names in the order of their bytes, each once. -/
theorem namesIn_sorted (hs : t.Sound) :
    (t.namesIn place).Pairwise fun a b => Path.bytes a < Path.bytes b := by
  have hnodup : (t.namesIn place).Nodup := by
    unfold namesIn
    refine (List.mergeSort_perm _ _).nodup_iff.mpr ?_
    rw [List.Nodup, List.pairwise_filterMap]
    have hplaces := hs.nodup
    unfold places at hplaces
    rw [List.Nodup, List.pairwise_map] at hplaces
    refine hplaces.imp_of_mem ?_
    intro a b ha hb hab n hn m hm hnm
    subst hnm
    have hne : ∀ {c}, c ∈ t.entries → c.1 ≠ [] :=
      fun hc => hs.ne_nil _ (List.mem_map_of_mem (f := Prod.fst) hc)
    exact hab (((listed_iff (hne ha)).mp hn).trans ((listed_iff (hne hb)).mp hm).symm)
  have hsorted : (t.namesIn place).Pairwise fun a b => Path.bytes a ≤ Path.bytes b := by
    unfold namesIn
    refine (List.pairwise_mergeSort ?_ ?_ _).imp fun h => of_decide_eq_true h
    · intro a b c hab hbc
      exact decide_eq_true (List.le_trans (of_decide_eq_true hab) (of_decide_eq_true hbc))
    · intro a b
      rw [Bool.or_eq_true, decide_eq_true_iff, decide_eq_true_iff]
      exact List.le_total _ _
  refine (hsorted.and hnodup).imp fun ⟨hle, hne⟩ => ?_
  exact (List.le_iff_lt_or_eq.mp hle).resolve_right fun heq => hne (Path.bytes_inj heq)

/-! ### What a walk finds -/

theorem mem_through {below : List String → List (List String × ByteArray)} :
    (names, bytes) ∈ t.through below place name ↔
      (names = [name] ∧ t.find? (place ++ [name]) = some (.file bytes)) ∨
        t.find? (place ++ [name]) = some .directory ∧
          ∃ rest, (rest, bytes) ∈ below (place ++ [name]) ∧ names = name :: rest := by
  unfold through
  cases t.find? (place ++ [name]) with
  | none => simp
  | some entry =>
      cases entry with
      | file stored => simp [eq_comm]
      | directory =>
          rw [List.mem_map]
          constructor
          · rintro ⟨⟨rest, stored⟩, hrest, heq⟩
            obtain ⟨rfl, rfl⟩ := Prod.mk.inj heq
            exact .inr ⟨rfl, rest, hrest, rfl⟩
          · rintro (⟨-, hfile⟩ | ⟨-, rest, hrest, rfl⟩)
            · exact absurd hfile.symm file_ne_directory
            · exact ⟨(rest, bytes), hrest, rfl⟩

theorem mem_walk (hs : t.Sound) {steps : Nat} :
    (names, bytes) ∈ t.walk steps place ↔
      names ≠ [] ∧ names.length ≤ steps ∧ t.find? (place ++ names) = some (.file bytes) := by
  induction steps generalizing place names with
  | zero =>
      unfold walk
      refine ⟨nofun, fun ⟨hne, hlength, _⟩ => ?_⟩
      exact absurd (List.length_eq_zero_iff.mp (Nat.le_zero.mp hlength)) hne
  | succ steps ih =>
      unfold walk
      rw [List.mem_flatMap]
      constructor
      · rintro ⟨name, -, hfound⟩
        obtain ⟨rfl, hfile⟩ | ⟨-, rest, hrest, rfl⟩ := mem_through.mp hfound
        · exact ⟨List.cons_ne_nil _ _, by simp, hfile⟩
        · obtain ⟨-, hlength, hfile⟩ := ih.mp hrest
          refine ⟨List.cons_ne_nil _ _, by simpa using hlength, ?_⟩
          rwa [List.append_assoc, List.singleton_append] at hfile
      · rintro ⟨hne, hlength, hfile⟩
        obtain ⟨name, rest, rfl⟩ := List.exists_cons_of_ne_nil hne
        rw [List.append_cons] at hfile
        by_cases hrest : rest = []
        · subst hrest
          rw [List.append_nil] at hfile
          exact ⟨name, (mem_namesIn hs).mpr ⟨_, hfile⟩, mem_through.mpr (.inl ⟨rfl, hfile⟩)⟩
        · have hdir := hs.above hfile hrest
          have hfound := ih.mpr ⟨hrest, by simpa using hlength, hfile⟩
          exact ⟨name, (mem_namesIn hs).mpr ⟨_, hdir⟩,
            mem_through.mpr (.inr ⟨hdir, rest, hfound, rfl⟩)⟩

/-- What is found through a name begins with it. -/
theorem exists_rest_of_mem_through {below : List String → List (List String × ByteArray)}
    {found : List String × ByteArray} (h : found ∈ t.through below place name) :
    ∃ rest, found.1 = name :: rest := by
  obtain ⟨hfound, -⟩ | ⟨-, rest, -, hfound⟩ := mem_through.mp h
  · exact ⟨[], hfound⟩
  · exact ⟨rest, hfound⟩

/-- A walk finds the files in the order of their names, each once. -/
theorem walk_sorted (hs : t.Sound) (steps : Nat) (place : List String) :
    (t.walk steps place).Pairwise fun a b => Path.Before a.1 b.1 := by
  induction steps generalizing place with
  | zero => exact List.Pairwise.nil
  | succ steps ih =>
      unfold walk
      rw [List.pairwise_flatMap]
      refine ⟨fun name _ => ?_, (namesIn_sorted hs).imp fun hab x hx y hy => ?_⟩
      · unfold through
        split
        · exact List.Pairwise.nil
        · exact List.pairwise_singleton _ _
        · rw [List.pairwise_map]
          exact (ih (place ++ [name])).imp Path.before_cons_same
      · obtain ⟨rest, hrest⟩ := exists_rest_of_mem_through hx
        obtain ⟨rest', hrest'⟩ := exists_rest_of_mem_through hy
        rw [hrest, hrest']
        exact Path.before_cons hab

theorem length_le_height (h : t.find? place = some entry) : place.length ≤ t.height := by
  by_cases hne : place = []
  · rw [hne]
    exact Nat.zero_le _
  obtain ⟨listed, hmem, heq⟩ := List.mem_map.mp (mem_places_of_find? hne h)
  subst heq
  unfold height
  exact List.le_max?_getD_of_mem (List.mem_map.mpr ⟨listed, hmem, rfl⟩)

/-- Below a directory all files are found. -/
theorem mem_filesBelow (hs : t.Sound) {path : String}
    (hpath : t.locate path = .ok (place, some .directory)) :
    (names, bytes) ∈ t.filesBelow path ↔
      names ≠ [] ∧ t.find? (place ++ names) = some (.file bytes) := by
  unfold filesBelow
  rw [hpath]
  show (names, bytes) ∈ t.walk t.height place ↔ _
  rw [mem_walk hs]
  constructor
  · rintro ⟨hne, -, hfile⟩
    exact ⟨hne, hfile⟩
  · rintro ⟨hne, hfile⟩
    refine ⟨hne, ?_, hfile⟩
    have hlength := length_le_height hfile
    rw [List.length_append] at hlength
    omega

theorem filesBelow_sorted (hs : t.Sound) (path : String) :
    (t.filesBelow path).Pairwise fun a b => Path.Before a.1 b.1 := by
  unfold filesBelow
  split
  · exact walk_sorted hs _ _
  · exact List.Pairwise.nil

end FileTree

end TemplateCompiler
