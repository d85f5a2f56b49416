/-
The tree of files: where a path leads, and what writing changes.

A tree is sound (`Sound`) if everything in it stands in a directory, under a proper name
and under no other, and the working directory is one.  In a sound tree what stands at a
place is reached name by name, so `follow` can be told from the ends alone
(`Sound.follow_to`, `Sound.follow_step`): nothing on the way has to be looked at.

Where a path leads does not depend on the tree: `resolve` says it from the text alone, and
a path that can be followed leads there (`follow_ok`).  So two trees differ only in what
they have at a place, and what a write changes is said place by place.  Making directories
adds directories on the way and nothing else (`Grows`), a write that succeeds also puts its
file at the end of its path (`Written`), and both keep the tree sound.
-/
import Mathlib.Data.List.Induction
import Mathlib.Tactic.ByContra
import TemplateCompiler.Project.Disk
import TemplateCompiler.Proofs.Paths

namespace TemplateCompiler

namespace FileTree

variable {t t' : FileTree} {place names front pieces q : List String} {name : String}
  {entry : Entry} {bytes : ByteArray}

/-- Everything in the tree. -/
def places (t : FileTree) : List (List String) := t.entries.map Prod.fst

/-- A tree in which everything stands in a directory, and under one proper name. -/
structure Sound (t : FileTree) : Prop where
  nodup : t.places.Nodup
  ne_nil : ∀ place ∈ t.places, place ≠ []
  isName : ∀ place ∈ t.places, ∀ name ∈ place, Path.IsName name
  closed : ∀ place ∈ t.places, t.find? place.dropLast = some .directory
  working : t.find? t.working = some .directory

/-! ### What stands at a place -/

@[simp]
theorem find?_nil (t : FileTree) : t.find? [] = some .directory := rfl

theorem file_ne_directory : some (Entry.file bytes) ≠ some .directory := nofun

theorem find?_of_ne_nil (h : place ≠ []) : t.find? place = t.entries.lookup place := by
  unfold find?
  rw [if_neg (by simpa using h)]

theorem mem_places_of_find? (hne : place ≠ []) (h : t.find? place = some entry) :
    place ∈ t.places := by
  rw [find?_of_ne_nil hne] at h
  obtain ⟨before, after, hentries, -⟩ := List.lookup_eq_some_iff.mp h
  refine List.mem_map.mpr ⟨(place, entry), ?_, rfl⟩
  rw [hentries]
  exact List.mem_append_right _ List.mem_cons_self

theorem exists_entry (hne : place ≠ []) (h : place ∈ t.places) :
    ∃ entry, t.find? place = some entry := by
  obtain ⟨listed, hmem, rfl⟩ := List.mem_map.mp h
  rw [find?_of_ne_nil hne, ← Option.isSome_iff_exists, List.lookup_isSome_iff]
  exact ⟨listed, hmem, beq_self_eq_true _⟩

theorem lookup_others {entries : List (List String × Entry)} (h : q ≠ place) :
    (entries.filter fun other => other.1 != place).lookup q = entries.lookup q := by
  induction entries with
  | nil => rfl
  | cons listed entries ih =>
      by_cases hlisted : listed.1 = place
      · rw [List.filter_cons_of_neg (by simp [hlisted]), ih, List.lookup_cons,
          beq_eq_false_iff_ne.mpr (hlisted ▸ h)]
      · rw [List.filter_cons_of_pos (by simp [hlisted]), List.lookup_cons, List.lookup_cons, ih]

/-- A tree that has had something put in it has that there, and all else as before. -/
theorem find?_put (hne : place ≠ []) :
    (t.put place entry).find? q = if q = place then some entry else t.find? q := by
  by_cases hq : q = []
  · rw [hq, if_neg hne.symm, find?_nil, find?_nil]
  rw [find?_of_ne_nil hq, find?_of_ne_nil hq]
  unfold put
  by_cases heq : q = place
  · rw [heq, List.lookup_cons_self, if_pos rfl]
  · rw [List.lookup_cons, beq_eq_false_iff_ne.mpr heq, if_neg heq]
    exact lookup_others heq

/-! ### Sound trees -/

namespace Sound

theorem above_last (hs : t.Sound) (h : t.find? (place ++ [name]) = some entry) :
    t.find? place = some .directory := by
  have hclosed := hs.closed _ (mem_places_of_find? (by simp) h)
  rwa [List.dropLast_concat] at hclosed

/-- Above everything there is a directory. -/
theorem above (hs : t.Sound) (h : t.find? (place ++ names) = some entry) (hne : names ≠ []) :
    t.find? place = some .directory := by
  induction names using List.reverseRec generalizing entry with
  | nil => exact absurd rfl hne
  | append_singleton names name ih =>
      rw [← List.append_assoc] at h
      have hlast := hs.above_last h
      by_cases hnames : names = []
      · rwa [hnames, List.append_nil] at hlast
      · exact ih hlast hnames

theorem isName_of_find? (hs : t.Sound) (h : t.find? place = some entry) :
    ∀ name ∈ place, Path.IsName name := by
  intro name hname
  exact hs.isName place (mem_places_of_find? (List.ne_nil_of_mem hname) h) name hname

/-- Nothing is below a file. -/
theorem not_below (hs : t.Sound) (h : t.find? place = some (.file bytes))
    (hbelow : t.find? (place ++ names) = some entry) : names = [] := by
  by_contra hne
  have hdir := hs.above hbelow hne
  rw [h] at hdir
  nomatch hdir

theorem dropLast (hs : t.Sound) (h : t.find? place = some .directory) :
    t.find? place.dropLast = some .directory := by
  by_cases hne : place = []
  · rw [hne]
    rfl
  · exact hs.closed place (mem_places_of_find? hne h)

/-- What can be put in a sound tree: anything under a new name in a directory, and a file
in the place of a file. -/
theorem put (hs : t.Sound) (hname : Path.IsName name)
    (hplace : t.find? place = some .directory)
    (hfree : t.find? (place ++ [name]) ≠ some .directory) :
    (t.put (place ++ [name]) entry).Sound := by
  have hne : place ++ [name] ≠ [] := by simp
  have hkept : ∀ {q : List String}, t.find? q = some .directory →
      (t.put (place ++ [name]) entry).find? q = some .directory := by
    intro q hq
    rw [find?_put hne, if_neg fun (heq : q = place ++ [name]) => hfree (heq ▸ hq), hq]
  have hplaces : (t.put (place ++ [name]) entry).places
      = (place ++ [name]) :: t.places.filter (· != place ++ [name]) := by
    unfold places FileTree.put
    rw [List.map_cons, List.filter_map]
    rfl
  refine ⟨?_, ?_, ?_, ?_, hkept hs.working⟩
  · rw [hplaces, List.nodup_cons]
    exact ⟨by simp, hs.nodup.filter _⟩
  all_goals
    intro listed hlisted
    rw [hplaces, List.mem_cons] at hlisted
    obtain rfl | hlisted := hlisted
  · exact hne
  · exact hs.ne_nil listed (List.mem_filter.mp hlisted).1
  · intro n hn
    obtain hn | hn := List.mem_append.mp hn
    · exact hs.isName_of_find? hplace n hn
    · exact List.mem_singleton.mp hn ▸ hname
  · exact hs.isName listed (List.mem_filter.mp hlisted).1
  · rw [List.dropLast_concat]
    exact hkept hplace
  · exact hkept (hs.closed listed (List.mem_filter.mp hlisted).1)

end Sound

theorem sound_empty : empty.Sound := by
  have hhome : ∀ place ∈ empty.places, place = ["home"] := fun _ => List.mem_singleton.mp
  refine ⟨by decide, by decide, fun place hplace name hname => ?_, fun place hplace => ?_, rfl⟩
  · rw [hhome place hplace] at hname
    obtain rfl := List.mem_singleton.mp hname
    exact ⟨by decide, by decide, by decide, by decide⟩
  · rw [hhome place hplace]
    rfl

/-! ### Following a path -/

/-- The place that pieces of a path lead to, whatever is there. -/
def resolve (place pieces : List String) : List String := pieces.foldl stepTo place

theorem stepTo_name (h : Path.IsName name) : stepTo place name = place ++ [name] := by
  unfold stepTo
  rw [if_neg (not_or.mpr ⟨h.ne_empty, h.ne_dot⟩), if_neg h.ne_dots]

theorem resolve_append :
    resolve place (front ++ pieces) = resolve (resolve place front) pieces :=
  List.foldl_append

theorem resolve_names (h : ∀ name ∈ names, Path.IsName name) :
    resolve place names = place ++ names := by
  induction names generalizing place with
  | nil => exact (List.append_nil place).symm
  | cons name names ih =>
      unfold resolve
      rw [List.foldl_cons, stepTo_name (h name List.mem_cons_self)]
      refine (ih fun n hn => h n (List.mem_cons_of_mem _ hn)).trans ?_
      rw [List.append_assoc, List.singleton_append]

theorem follow_cons {piece : String} (h : t.find? place = some .directory) :
    t.follow place (piece :: pieces) = t.follow (stepTo place piece) pieces := by
  conv_lhs => unfold follow
  rw [h]

theorem directory_of_follow_cons {piece : String} {found : List String × Option Entry}
    (h : t.follow place (piece :: pieces) = .ok found) : t.find? place = some .directory := by
  unfold follow at h
  split at h
  · nomatch h
  · nomatch h
  · assumption

/-- A path that can be followed leads where its text says. -/
theorem follow_ok {found : List String × Option Entry} (h : t.follow place pieces = .ok found) :
    found = (resolve place pieces, t.find? (resolve place pieces)) := by
  induction pieces generalizing place with
  | nil => exact (Except.ok.inj h).symm
  | cons piece rest ih =>
      rw [follow_cons (directory_of_follow_cons h)] at h
      exact ih h

theorem follow_append :
    t.follow place (front ++ pieces) =
      (t.follow place front).bind fun found => t.follow found.1 pieces := by
  induction front generalizing place with
  | nil => rfl
  | cons piece front ih =>
      simp only [List.cons_append, follow]
      split
      · rfl
      · rfl
      · exact ih

/-- Whatever keeps the directories keeps every way. -/
theorem follow_mono {found : List String × Option Entry}
    (hkept : ∀ q, t.find? q = some .directory → t'.find? q = some .directory)
    (h : t.follow place pieces = .ok found) :
    t'.follow place pieces = .ok (resolve place pieces, t'.find? (resolve place pieces)) := by
  induction pieces generalizing place with
  | nil => rfl
  | cons piece rest ih =>
      have hplace := directory_of_follow_cons h
      rw [follow_cons hplace] at h
      rw [follow_cons (hkept place hplace)]
      exact ih h

/-- What is followed by another piece is a directory. -/
theorem follow_of_concat {piece : String} {found : List String × Option Entry}
    (h : t.follow place (front ++ [piece]) = .ok found) :
    t.follow place front = .ok (resolve place front, some .directory) := by
  rw [follow_append] at h
  cases hfront : t.follow place front with
  | error fault => rw [hfront] at h; nomatch h
  | ok reached =>
      obtain rfl := follow_ok hfront
      rw [hfront] at h
      rw [directory_of_follow_cons h]

namespace Sound

/-- What is in the tree is reached by its names. -/
theorem follow_to (hs : t.Sound) (h : t.find? (place ++ names) = some entry) :
    t.follow place names = .ok (place ++ names, some entry) := by
  induction names generalizing place with
  | nil =>
      rw [List.append_nil] at h ⊢
      unfold follow
      rw [h]
  | cons name names ih =>
      have hname : Path.IsName name :=
        hs.isName_of_find? h name (List.mem_append_right _ List.mem_cons_self)
      have hplace := hs.above h (List.cons_ne_nil _ _)
      rw [← List.singleton_append, ← List.append_assoc] at h ⊢
      rw [List.singleton_append, follow_cons hplace, stepTo_name hname]
      exact ih h

/-- Where a path ends at nothing, it ends with a new name in a directory. -/
theorem exists_parent (hs : t.Sound) (hplace : t.find? place = some .directory)
    (hslash : ∀ piece ∈ pieces, '/' ∉ piece.toList) (h : t.follow place pieces = .ok (q, none)) :
    ∃ parent name, q = parent ++ [name] ∧ Path.IsName name ∧
      t.find? parent = some .directory := by
  have hq := follow_ok h
  rw [Prod.mk.injEq] at hq
  cases pieces using List.reverseRec with
  | nil =>
      have hnone : none = t.find? place := hq.2
      rw [hplace] at hnone
      nomatch hnone
  | append_singleton front piece =>
      have hfront := follow_of_concat h
      have hdir : t.find? (resolve place front) = some .directory :=
        (congrArg Prod.snd (follow_ok hfront)).symm
      have hstep : resolve place (front ++ [piece]) = stepTo (resolve place front) piece :=
        resolve_append
      rw [hstep] at hq
      by_cases hskip : piece = "" ∨ piece = "."
      · rw [stepTo, if_pos hskip, hdir] at hq
        nomatch hq.2
      by_cases hup : piece = ".."
      · rw [stepTo, if_neg hskip, if_pos hup, hs.dropLast hdir] at hq
        nomatch hq.2
      rw [not_or] at hskip
      have hname : Path.IsName piece :=
        ⟨hskip.1, hskip.2, hup, hslash piece (List.mem_append_right _ List.mem_cons_self)⟩
      rw [stepTo_name hname] at hq
      exact ⟨_, piece, hq.1, hname, hdir⟩

end Sound

/-! ### Making directories -/

/-- Nothing changes, but for directories that are added on the way along a path. -/
structure Grows (t t' : FileTree) (place pieces : List String) : Prop where
  working : t'.working = t.working
  entries : ∀ q, t'.find? q = t.find? q ∨
    (∃ front, front <+: pieces ∧ q = resolve place front) ∧
      t.find? q = none ∧ t'.find? q = some .directory

namespace Grows

theorem refl (t : FileTree) (place pieces : List String) : Grows t t place pieces :=
  ⟨rfl, fun _ => .inl rfl⟩

theorem trans {t'' : FileTree} (h : Grows t t' place front) (hfront : front <+: pieces)
    (h' : Grows t' t'' place pieces) : Grows t t'' place pieces := by
  refine ⟨h'.working.trans h.working, fun q => ?_⟩
  obtain hq | ⟨⟨way, hway, hplace⟩, hnone, hdir⟩ := h.entries q
  · rw [← hq]
    exact h'.entries q
  · refine .inr ⟨⟨way, hway.trans hfront, hplace⟩, hnone, ?_⟩
    obtain hq | ⟨-, hnone', -⟩ := h'.entries q
    · rw [hq, hdir]
    · rw [hdir] at hnone'
      nomatch hnone'

theorem kept (h : Grows t t' place pieces) (hq : t.find? q = some entry) :
    t'.find? q = some entry := by
  obtain heq | ⟨-, hnone, -⟩ := h.entries q
  · rw [heq, hq]
  · rw [hq] at hnone
    nomatch hnone

end Grows

/-- One directory is made where there was nothing. -/
theorem makeDirectory_ok (hs : t.Sound) (hplace : t.find? place = some .directory)
    (hslash : ∀ piece ∈ pieces, '/' ∉ piece.toList) (h : t.makeDirectory place pieces = .ok t') :
    t'.Sound ∧ Grows t t' place pieces ∧
      t'.follow place pieces = .ok (resolve place pieces, some .directory) := by
  unfold makeDirectory at h
  split at h
  · nomatch h
  · nomatch h
  · next target hfollow =>
    obtain rfl := Except.ok.inj h
    obtain ⟨rfl, hnone⟩ := Prod.mk.inj (follow_ok hfollow)
    obtain ⟨parent, name, htarget, hname, hparent⟩ := hs.exists_parent hplace hslash hfollow
    have hput : ∀ q, (t.put (resolve place pieces) .directory).find? q
        = if q = resolve place pieces then some .directory else t.find? q := by
      intro q
      rw [find?_put (by rw [htarget]; simp)]
    refine ⟨?_, ⟨rfl, fun q => ?_⟩, ?_⟩
    · rw [htarget]
      rw [htarget] at hnone
      exact hs.put hname hparent (by rw [← hnone]; nofun)
    · rw [hput q]
      split
      · next heq => exact .inr ⟨⟨pieces, List.prefix_rfl, heq⟩, by rw [heq, hnone], rfl⟩
      · exact .inl rfl
    · refine (follow_mono (fun q hq => ?_) hfollow).trans ?_
      · rw [hput q]
        split
        · rfl
        · exact hq
      · rw [hput, if_pos rfl]

theorem isDirectory_iff :
    t.isDirectory place pieces = true ↔
      t.follow place pieces = .ok (resolve place pieces, some .directory) := by
  unfold isDirectory
  constructor
  · intro h
    split at h
    · next hfollow =>
      have hplace := congrArg Prod.fst (follow_ok hfollow)
      rw [hfollow, ← show _ = resolve place pieces from hplace]
    · nomatch h
  · intro h
    rw [h]

/-- Making directories changes nothing else, and where it succeeds they are there. -/
theorem makeDirectories_grows (hs : t.Sound) (hplace : t.find? place = some .directory)
    (reversed : List String) (hslash : ∀ piece ∈ reversed, '/' ∉ piece.toList) :
    (t.makeDirectories place reversed).1.Sound ∧
      Grows t (t.makeDirectories place reversed).1 place reversed.reverse ∧
      ((t.makeDirectories place reversed).2 = .ok () →
        (t.makeDirectories place reversed).1.follow place reversed.reverse
          = .ok (resolve place reversed.reverse, some .directory)) := by
  induction reversed with
  | nil =>
      refine ⟨hs, .refl _ _ _, fun _ => ?_⟩
      show Except.ok (place, t.find? place) = _
      rw [hplace]
      rfl
  | cons last above ih =>
      have hpieces : ∀ piece ∈ (last :: above).reverse, '/' ∉ piece.toList :=
        fun piece hmem => hslash piece (List.mem_reverse.mp hmem)
      have hunchanged : ∀ {t : FileTree} {fault : DiskFault},
          (if t.isDirectory place (last :: above).reverse then .ok () else .error fault)
              = Except.ok () →
            t.follow place (last :: above).reverse
              = .ok (resolve place (last :: above).reverse, some .directory) := by
        intro t fault h
        split at h
        · next hdir => exact isDirectory_iff.mp hdir
        · nomatch h
      unfold makeDirectories
      simp only
      split
      · next made hmade =>
        obtain ⟨hsound, hgrows, hthere⟩ := makeDirectory_ok hs hplace hpieces hmade
        exact ⟨hsound, hgrows, fun _ => hthere⟩
      · obtain ⟨hsound, hgrows, -⟩ := ih fun piece hmem => hslash piece (List.mem_cons_of_mem _ hmem)
        have habove : above.reverse <+: (last :: above).reverse := by
          rw [List.reverse_cons]
          exact List.prefix_append _ _
        generalize t.makeDirectories place above = after at hsound hgrows
        obtain ⟨t₁, result⟩ := after
        have hgrown : Grows t t₁ place (last :: above).reverse :=
          hgrows.trans habove (.refl _ _ _)
        cases result with
        | error fault => exact ⟨hsound, hgrown, nofun⟩
        | ok _ =>
            simp only
            split
            · next made hmade =>
              obtain ⟨hsound', hgrows', hthere⟩ :=
                makeDirectory_ok hsound (hgrows.kept hplace) hpieces hmade
              exact ⟨hsound', hgrows.trans habove hgrows', fun _ => hthere⟩
            · exact ⟨hsound, hgrown, hunchanged⟩
      · exact ⟨hs, .refl _ _ _, hunchanged⟩

end FileTree
end TemplateCompiler
