import CompletionCheck.Files.Tree
import CompletionCheck.Text.Find
import Mathlib.Data.List.Induction
import Mathlib.Data.List.Nodup
import Mathlib.Data.List.TakeDrop

/-!
# What a directory lists

A tree of files is a list of entries, and not every list is a tree: two entries could have one
place, and a name could hold a slash.  `Tree.Sound` leaves those out.  Nothing else is asked, not
even that the directory of an entry is there.

A program comes by its tree in one way only: it begins with a working directory and no entries, and
makes one entry after the other with `Tree.make`, which takes the names of a place from between the
slashes of a path.  `Tree.Made` says that, and every tree of which it can be said is sound
(`Tree.Made.sound`).  What a directory of a sound tree lists are names without slashes, none of them
twice (`Tree.Sound.names_list`).

The converse does not hold: a sound tree may have an entry that is called `..`, and no such entry is
ever made.  But a root in which every name is one that an entry can have comes about by making its
entries in turn (`Tree.made_ofRoot`).
-/

namespace CompletionCheck.Files

/-- A place whose names are names: none of them holds a slash. -/
def Proper (place : List FileName) : Prop :=
  ∀ name ∈ place, slash ∉ name

/-- One entry at a place, and no name with a slash. -/
structure Tree.Sound (t : Tree) : Prop where
  single : (t.entries.map Prod.fst).Nodup
  named : ∀ e ∈ t.entries, Proper e.1
  rooted : Proper t.cwd

/-- The trees that come about: a working directory without entries, and a tree in which something
more has been made. -/
inductive Tree.Made : Tree → Prop
  | bare {cwd : List FileName} (h : Proper cwd) : Made { cwd }
  | make {t : Tree} (h : Made t) (path : List UInt8) (n : Node) : Made (t.make path n)

/-! ## Names of paths -/

theorem Proper.append {x y : List FileName} (hx : Proper x) (hy : Proper y) : Proper (x ++ y) := by
  intro name h
  rcases List.mem_append.mp h with h | h
  · exact hx name h
  · exact hy name h

theorem Proper.tail {name : FileName} {rest : List FileName} (h : Proper (name :: rest)) :
    Proper rest :=
  fun other hother => h other (List.mem_cons_of_mem _ hother)

theorem Proper.head {name : FileName} {rest : List FileName} (h : Proper (name :: rest)) :
    Proper [name] :=
  fun other hother => h other (List.mem_singleton.mp hother ▸ List.mem_cons_self)

theorem Proper.dropLast {place : List FileName} (h : Proper place) : Proper place.dropLast :=
  fun name hname => h name (List.dropLast_subset place hname)

theorem Proper.reverse {place : List FileName} (h : Proper place) : Proper place.reverse :=
  fun name hname => h name (List.mem_reverse.mp hname)

theorem proper_nil : Proper [] :=
  fun _ h => absurd h List.not_mem_nil

theorem proper_splitPath (path : List UInt8) : Proper (splitPath path) :=
  fun _ h => Text.not_mem_of_mem_splitOn h

/-! ## What can be made -/

/-- A name that an entry of a directory can have: a path of this one name is a path, and leads to
the entry rather than to the directory or to the one above. -/
structure IsName (name : FileName) : Prop where
  undivided : slash ∉ name
  unended : 0 ∉ name
  naming : isIdle name = false
  beneath : name ≠ aboveName
  short : name.length ≤ maxNameLength

instance (name : FileName) : Decidable (IsName name) :=
  decidable_of_iff
    (slash ∉ name ∧ 0 ∉ name ∧ isIdle name = false ∧ name ≠ aboveName ∧
      name.length ≤ maxNameLength)
    ⟨fun ⟨undivided, unended, naming, beneath, short⟩ =>
        ⟨undivided, unended, naming, beneath, short⟩,
      fun h => ⟨h.undivided, h.unended, h.naming, h.beneath, h.short⟩⟩

theorem IsName.isOk_checkPath {name : FileName} (h : IsName name) :
    (checkPath name).isOk = true := by
  have hunended : name.contains 0 = false := by simpa using h.unended
  have hshort : ¬maxPathLength < name.length :=
    Nat.not_lt.mpr (Nat.le_trans h.short (by decide))
  rw [checkPath, hunended, if_neg (by decide), if_neg hshort]
  rfl

/-- Whether an entry can be this.  A link has to hold a path, which need not lead anywhere. -/
def Node.isMakable : Node → Bool
  | .link target => !target.isEmpty && (checkPath target).isOk
  | _ => true

namespace Tree

variable {t : Tree}

/-- The names on the way along a path are those of the path and of the links that stand on it. -/
theorem proper_walk {fresh : Bool} {links : Nat} {here names place : List FileName}
    (hhere : Proper here) (hnames : Proper names)
    (h : t.walk fresh links here names = .ok place) : Proper place := by
  fun_induction t.walk fresh links here names with
  | case1 links here =>
      cases h
      exact hhere
  | case2 => cases h
  | case3 links here name rest _ _ ih => exact ih hhere hnames.tail h
  | case4 links here rest _ _ ih => exact ih hhere.dropLast hnames.tail h
  | case5 => cases h
  | case6 links here name rest =>
      cases h
      exact hhere.append hnames.head
  | case7 => cases h
  | case8 => cases h
  | case9 here name rest _ _ _ _ target _ links ih =>
      refine ih ?_ ((proper_splitPath target).append hnames.tail) h
      split
      · exact proper_nil
      · exact hhere
  | case10 links here name rest _ _ _ _ _ _ _ ih =>
      exact ih (hhere.append hnames.head) hnames.tail h

/-! ## Paths of one name -/

theorem walk_idle {fresh : Bool} {links : Nat} {here : List FileName} {name : FileName}
    (names : List FileName) (hidle : isIdle name = true) (h : t.find? here = some .directory) :
    t.walk fresh links here (name :: names) = t.walk fresh links here names := by
  rw [walk, if_neg (not_not_intro h), if_pos hidle]

theorem walk_self {fresh : Bool} {links : Nat} {here : List FileName} (names : List FileName)
    (h : t.find? here = some .directory) :
    t.walk fresh links here (selfName :: names) = t.walk fresh links here names :=
  walk_idle names rfl h

theorem walk_file {fresh : Bool} {links : Nat} {here : List FileName} {name : FileName}
    {content : List UInt8} (hhere : t.find? here = some .directory) (hname : IsName name)
    (hfile : t.find? (here ++ [name]) = some (.file content)) :
    t.walk fresh links here [name] = .ok (here ++ [name]) := by
  rw [walk, if_neg (not_not_intro hhere), hname.naming, if_neg (by decide), if_neg hname.beneath,
    if_neg (Nat.not_lt.mpr hname.short), hfile]
  dsimp only
  rw [walk]

/-- A name that a directory does not have leads nowhere, or to the place of its entry when that may
be a new one. -/
theorem walk_missing {fresh : Bool} {links : Nat} {here : List FileName} {name : FileName}
    (hhere : t.find? here = some .directory) (hname : IsName name)
    (hnone : t.find? (here ++ [name]) = none) :
    t.walk fresh links here [name]
      = if fresh then .ok (here ++ [name]) else .error .notFound := by
  rw [walk, if_neg (not_not_intro hhere), hname.naming, if_neg (by decide), if_neg hname.beneath,
    if_neg (Nat.not_lt.mpr hname.short), hnone]
  cases fresh <;> rfl

theorem list_self (h : t.find? t.cwd = some .directory) :
    t.list "." = .ok (t.entries.filterMap fun e =>
      (nameIn? t.cwd e.1).map fun name => (name, e.2)) := by
  have hresolve : t.resolve (pathBytes ".") = .ok t.cwd := by
    have hwalk : t.walk false maxLinks t.cwd [selfName] = .ok t.cwd := by rw [walk_self _ h, walk]
    exact hwalk
  rw [list, hresolve]
  simp only [bind, Except.bind, h]

/-! ## Making entries -/

theorem keys_map_replace (place : List FileName) (n : Node) (entries : List (List FileName × Node)) :
    (entries.map fun e => if e.1 = place then (place, n) else e).map Prod.fst
      = entries.map Prod.fst := by
  rw [List.map_map]
  refine List.map_congr_left fun e _ => ?_
  by_cases he : e.1 = place <;> simp [he]

theorem Sound.put (h : t.Sound) {place : List FileName} (hplace : Proper place) (n : Node) :
    (t.put place n).Sound := by
  unfold Tree.put
  split
  · refine ⟨?_, fun e he => ?_, h.rooted⟩
    · rw [keys_map_replace]
      exact h.single
    · obtain ⟨e', he', rfl⟩ := List.mem_map.mp he
      split
      · exact hplace
      · exact h.named e' he'
  · next habsent =>
      refine ⟨?_, fun e he => ?_, h.rooted⟩
      · have hnew : place ∉ t.entries.map Prod.fst := by
          intro hmem
          obtain ⟨e, he, rfl⟩ := List.mem_map.mp hmem
          exact habsent (List.lookup_isSome_iff.mpr ⟨e, he, beq_self_eq_true _⟩)
        rw [List.map_append, List.map_singleton]
        exact h.single.append (List.nodup_singleton _) (by simpa using hnew)
      · rcases List.mem_append.mp he with he | he
        · exact h.named e he
        · rw [List.mem_singleton.mp he]
          exact hplace

theorem Sound.putNew (h : t.Sound) {place : List FileName} (hplace : Proper place) (n : Node) :
    (t.putNew place n).Sound := by
  unfold Tree.putNew
  split
  · exact h
  · exact h.put hplace n

theorem Sound.makeDirectories {here names : List FileName} (h : t.Sound)
    (hhere : Proper here) (hnames : Proper names) :
    (t.makeDirectories here names).1.Sound ∧
      ∀ place, (t.makeDirectories here names).2 = some place → Proper place := by
  fun_induction t.makeDirectories here names with
  | case1 t here =>
      refine ⟨h, fun place hplace => ?_⟩
      cases hplace
      exact hhere
  | case2 t here name rest _ ih => exact ih h hhere hnames.tail
  | case3 t here rest _ ih => exact ih h hhere.dropLast hnames.tail
  | case4 => exact ⟨h, fun place hplace => by cases hplace⟩
  | case5 t here name rest _ _ _ made place hwalk _ ih =>
      exact ih (h.putNew (hhere.append hnames.head) .directory)
        (proper_walk hhere hnames.head hwalk) hnames.tail
  | case6 t here name rest _ _ _ made =>
      exact ⟨h.putNew (hhere.append hnames.head) .directory, fun place hplace => by cases hplace⟩
  | case7 t here name rest _ _ _ made =>
      exact ⟨h.putNew (hhere.append hnames.head) .directory, fun place hplace => by cases hplace⟩

theorem Sound.makeEntry (h : t.Sound) {above : List FileName} {name : FileName}
    (habove : Proper above) (hname : Proper [name]) (n : Node) :
    (t.makeEntry above name n).Sound := by
  unfold Tree.makeEntry
  split
  · exact h
  · cases n with
    | directory => exact h.putNew (habove.append hname) _
    | link target =>
        dsimp only
        split
        · exact h
        · exact h.putNew (habove.append hname) _
    | file content =>
        dsimp only
        split
        · next place hwalk =>
            split
            · exact h
            · exact h.put (proper_walk habove hname hwalk) _
        · exact h

theorem sound_bare {cwd : List FileName} (h : Proper cwd) : Sound { cwd } where
  single := List.nodup_nil
  named := fun _ he => absurd he List.not_mem_nil
  rooted := h

theorem Sound.make (h : t.Sound) (path : List UInt8) (n : Node) : (t.make path n).Sound := by
  have hstart : Proper (t.start path) := by
    unfold Tree.start
    split
    · exact proper_nil
    · exact h.rooted
  have hnames : Proper (splitPath path).reverse := (proper_splitPath path).reverse
  unfold Tree.make
  rw [List.span_eq_takeWhile_dropWhile]
  dsimp only
  split
  · exact h
  · next name before hrest =>
      have hleft : Proper (name :: before) := fun other hother =>
        hnames other ((List.dropWhile_suffix _).subset (hrest ▸ hother))
      have hparents : Proper before.reverse := hleft.tail.reverse
      split
      · exact h
      · obtain ⟨hmade, habove⟩ := h.makeDirectories hstart hparents
        split
        · next made hdirectories =>
            rw [hdirectories] at hmade
            exact hmade
        · next made above hdirectories =>
            rw [hdirectories] at hmade habove
            split
            · exact Sound.makeEntry hmade (habove above rfl) hleft.head n
            · exact hmade

/-- **Every tree that comes about is sound**, whatever paths were asked for on the way. -/
theorem Made.sound (h : t.Made) : t.Sound := by
  induction h with
  | bare h => exact sound_bare h
  | make _ path n ih => exact ih.make path n

/-! ## Listing -/

theorem nameIn?_eq_some_iff {place entry : List FileName} {name : FileName} :
    nameIn? place entry = some name ↔ entry = place ++ [name] := by
  unfold nameIn?
  constructor
  · intro h
    split at h
    · next last hlast =>
        split at h
        · next hplace =>
            cases h
            rw [← hplace]
            exact (List.dropLast_append_getLast? name hlast).symm
        · cases h
    · cases h
  · rintro rfl
    simp

theorem exists_place_of_list {path : String} {entries : List (FileName × Node)}
    (h : t.list path = .ok entries) : ∃ place, entries
      = t.entries.filterMap fun e => (nameIn? place e.1).map fun name => (name, e.2) := by
  unfold Tree.list at h
  cases hresolve : t.resolve (pathBytes path) with
  | error why =>
      rw [hresolve] at h
      cases h
  | ok place =>
      rw [hresolve] at h
      refine ⟨place, ?_⟩
      simp only [bind, Except.bind] at h
      split at h <;> cases h
      rfl

theorem Sound.names_list (h : t.Sound) {path : String} {entries : List (FileName × Node)}
    (hlist : t.list path = .ok entries) :
    (entries.map Prod.fst).Nodup ∧ ∀ e ∈ entries, slash ∉ e.1 := by
  obtain ⟨place, rfl⟩ := exists_place_of_list hlist
  constructor
  · have hnames : (t.entries.filterMap fun e => (nameIn? place e.1).map fun name => (name, e.2)).map
        Prod.fst = (t.entries.map Prod.fst).filterMap (nameIn? place) := by
      rw [List.map_filterMap, List.filterMap_map]
      refine List.filterMap_congr fun e _ => ?_
      simp [Function.comp_def]
    rw [hnames]
    refine h.single.filterMap fun a b name ha hb => ?_
    rw [nameIn?_eq_some_iff.mp ha, nameIn?_eq_some_iff.mp hb]
  · intro e he
    obtain ⟨e', he', hentry⟩ := List.mem_filterMap.mp he
    obtain ⟨name, hname, rfl⟩ := Option.map_eq_some_iff.mp hentry
    refine h.named e' he' name ?_
    rw [nameIn?_eq_some_iff.mp hname]
    exact List.mem_append_right _ (List.mem_singleton_self name)

/-! ## A root and its entries -/

/-- The tree that has these entries in its root, and nothing else. -/
def ofRoot (entries : List (FileName × Node)) : Tree where
  entries := entries.map fun e => ([e.1], e.2)

theorem put_of_find?_eq_none {place : List FileName} (n : Node) (h : t.find? place = none) :
    t.put place n = { t with entries := t.entries ++ [(place, n)] } := by
  have hplace : place.isEmpty = false := by
    by_contra hempty
    rw [Bool.not_eq_false] at hempty
    rw [find?, if_pos hempty] at h
    cases h
  rw [find?, hplace, if_neg (by decide)] at h
  rw [put, h]
  rfl

theorem makeEntry_of_find?_eq_none {above : List FileName} {name : FileName} {n : Node}
    (hname : IsName name) (hn : n.isMakable) (habove : t.find? above = some .directory)
    (hnone : t.find? (above ++ [name]) = none) :
    t.makeEntry above name n = { t with entries := t.entries ++ [(above ++ [name], n)] } := by
  have hplaced := put_of_find?_eq_none n hnone
  have hfits : (name = aboveName || maxNameLength < name.length) = false := by
    simp [hname.beneath, hname.short]
  unfold makeEntry
  rw [hfits, if_neg (by decide)]
  cases n with
  | directory =>
      rw [putNew, hnone]
      exact hplaced
  | link target =>
      have hleads : (target.isEmpty || !(checkPath target).isOk) = false := by
        simpa [Node.isMakable] using hn
      simp only [hleads, putNew, hnone]
      exact hplaced
  | file content =>
      have hwalk : t.walk true maxLinks above [name] = .ok (above ++ [name]) :=
        walk_missing habove hname hnone
      simp only [hwalk, hnone]
      exact hplaced

/-- A path of one name makes an entry of the working directory. -/
theorem make_of_find?_eq_none {name : FileName} {n : Node} (hname : IsName name)
    (hn : n.isMakable) (hcwd : t.find? t.cwd = some .directory)
    (hnone : t.find? (t.cwd ++ [name]) = none) :
    t.make name n = { t with entries := t.entries ++ [(t.cwd ++ [name], n)] } := by
  have hsplit : (splitPath name).reverse.span isIdle = ([], [name]) := by
    rw [splitPath, List.splitOn_eq_singleton hname.undivided, List.span_eq_takeWhile_dropWhile]
    simp [hname.naming]
  have hstart : t.start name = t.cwd := by
    rw [start, if_neg]
    intro hroot
    exact hname.undivided (List.mem_of_mem_head? (beq_iff_eq.mp hroot))
  rw [make, hsplit]
  simp only [List.reverse_nil, makeDirectories, hstart, hname.isOk_checkPath]
  exact makeEntry_of_find?_eq_none hname hn hcwd hnone

theorem find?_ofRoot {entries : List (FileName × Node)} {name : FileName}
    (h : name ∉ entries.map Prod.fst) : (ofRoot entries).find? [name] = none := by
  refine List.lookup_eq_none_iff.mpr fun e he => ?_
  obtain ⟨e', he', rfl⟩ := List.mem_map.mp he
  have hne : name ≠ e'.1 := fun heq => h (heq ▸ List.mem_map_of_mem he')
  simpa using hne

/-- A root comes about by making its entries one after the other. -/
theorem made_ofRoot {entries : List (FileName × Node)} (hnodup : (entries.map Prod.fst).Nodup)
    (hentries : ∀ e ∈ entries, IsName e.1 ∧ e.2.isMakable) : (ofRoot entries).Made := by
  induction entries using List.reverseRecOn with
  | nil => exact .bare proper_nil
  | append_singleton entries e ih =>
      obtain ⟨name, n⟩ := e
      obtain ⟨hname, hn⟩ := hentries (name, n) List.mem_concat_self
      rw [List.map_append, List.map_singleton] at hnodup
      have hfresh : name ∉ entries.map Prod.fst := fun hmem =>
        List.disjoint_of_nodup_append hnodup hmem (List.mem_singleton_self name)
      have hmade : (ofRoot entries).Made :=
        ih hnodup.of_append_left fun e he => hentries e (List.mem_append_left _ he)
      have hmake : (ofRoot entries).make name n = ofRoot (entries ++ [(name, n)]) := by
        rw [make_of_find?_eq_none hname hn rfl (find?_ofRoot hfresh)]
        simp [ofRoot]
      rw [← hmake]
      exact hmade.make name n

theorem list_ofRoot (entries : List (FileName × Node)) :
    (ofRoot entries).list "." = .ok entries := by
  have hentries : (ofRoot entries).entries.filterMap
      (fun e => (nameIn? [] e.1).map fun name => (name, e.2)) = entries := by
    rw [ofRoot, List.filterMap_map]
    exact List.filterMap_some
  exact (list_self rfl).trans (congrArg Except.ok hentries)

end Tree

end CompletionCheck.Files
