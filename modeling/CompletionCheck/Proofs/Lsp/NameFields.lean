import CompletionCheck.Lsp.NameField
import CompletionCheck.Text.Find

/-!
# What is written for a field

The settings name a field by a text.  Which text is written for which field is said here without
looking at how it is read (`Written`): a plain field by its name in the protocol, a place in `data` by
the keys that lead there, with dots before, between and nowhere else.  Not every list of keys can be
written so.  A key with a dot in it would be read as two, a key without a character would put two dots
next to each other, and no keys at all would leave a dot at the end (`IsPath`).

What is read is exactly what is written (`parse_exact`), so a field has one text and a text one field.
For places in `data` this says that cutting at dots and joining with dots undo each other
(`path?_eq_some_iff`); a key that is called like a plain field is a key like any other.  That the plain
fields are tried first makes no difference, because none of them begins like a place in `data`
(`find?_of_lead`).
-/

namespace CompletionCheck.Lsp

namespace NameField

/-- Keys that can be written one after the other: at least one, each with a character and no dot. -/
structure IsPath (path : List String) : Prop where
  nonempty : path ≠ []
  keys : ∀ key ∈ path, key ≠ "" ∧ '.' ∉ key.toList

/-- A field and what is written for it: the name of one of five members, or keys below `data`.  It
does not look at how a text is read. -/
inductive Written : NameField → String → Prop
  | label : Written .label "label"
  | detail : Written .detail "detail"
  | insertText : Written .insertText "insertText"
  | filterText : Written .filterText "filterText"
  | sortText : Written .sortText "sortText"
  | data {path : List String} (leads : IsPath path) :
      Written (.data path) ("data." ++ ".".intercalate path)

/-! ## Keys -/

theorem isPath_splitOn {cs : List Char} (h : ∀ piece ∈ cs.splitOn '.', piece ≠ []) :
    IsPath ((cs.splitOn '.').map String.ofList) where
  nonempty := by simp
  keys := by
    intro key hkey
    obtain ⟨piece, hpiece, rfl⟩ := List.mem_map.mp hkey
    rw [String.toList_ofList]
    exact ⟨by simpa using h piece hpiece, Text.not_mem_of_mem_splitOn hpiece⟩

theorem IsPath.splitOn_intercalate {path : List String} (h : IsPath path) :
    (['.'].intercalate (path.map String.toList)).splitOn '.' = path.map String.toList := by
  refine List.splitOn_intercalate '.' (fun piece hpiece => ?_) (by simpa using h.nonempty)
  obtain ⟨key, hkey, rfl⟩ := List.mem_map.mp hpiece
  exact (h.keys key hkey).2

theorem path?_eq_some_iff {cs : List Char} {path : List String} :
    path? cs = some path ↔ IsPath path ∧ ['.'].intercalate (path.map String.toList) = cs := by
  unfold path?
  dsimp only
  constructor
  · intro h
    split at h
    · cases h
    · next hempty =>
        cases h
        have hpieces : ((cs.splitOn '.').map String.ofList).map String.toList = cs.splitOn '.' := by
          simp [Function.comp_def]
        refine ⟨isPath_splitOn fun piece hpiece hnil => hempty ?_, ?_⟩
        · exact List.any_eq_true.mpr ⟨piece, hpiece, List.isEmpty_iff.mpr hnil⟩
        · rw [hpieces, List.intercalate_splitOn]
  · rintro ⟨hpath, rfl⟩
    have hsome : (path.map String.toList).any List.isEmpty = false := by
      rw [List.any_eq_false]
      intro piece hpiece
      obtain ⟨key, hkey, rfl⟩ := List.mem_map.mp hpiece
      simpa using (hpath.keys key hkey).1
    rw [hpath.splitOn_intercalate, hsome]
    simp [Function.comp_def]

theorem text_data (path : List String) : (data path).text = "data." ++ ".".intercalate path := by
  apply String.toList_inj.mp
  simp [text, dataLead]

/-! ## Plain fields and places in `data` -/

theorem written_of_plain {f : NameField} (h : f ∈ plain) : Written f f.text := by
  cases f with
  | label => exact .label
  | detail => exact .detail
  | insertText => exact .insertText
  | filterText => exact .filterText
  | sortText => exact .sortText
  | data path => exact absurd h (by simp [plain])

theorem find?_of_lead {s : String} (h : dataLead <+: s.toList) :
    (plain.find? fun f => f.text = s) = none := by
  have hplain : ∀ f ∈ plain, ¬ dataLead <+: f.text.toList := by decide
  rw [List.find?_eq_none]
  intro f hf heq
  rw [← of_decide_eq_true heq] at h
  exact hplain f hf h

theorem parse_of_lead {s : String} {cs : List Char} (h : s.toList = dataLead ++ cs) :
    parse s = (path? cs).elim (.error ⟨s⟩) fun path => .ok (.data path) := by
  have hlead : dataLead <+: s.toList := ⟨cs, h.symm⟩
  rw [parse, find?_of_lead hlead]
  dsimp only
  rw [if_pos (List.isPrefixOf_iff_prefix.mpr hlead), h, List.drop_left]
  cases path? cs <;> rfl

theorem parse_of_other {s : String} (hplain : (plain.find? fun f => f.text = s) = none)
    (hlead : ¬ dataLead <+: s.toList) : parse s = .error ⟨s⟩ := by
  rw [parse, hplain]
  dsimp only
  rw [if_neg (mt List.isPrefixOf_iff_prefix.mp hlead)]

/-! ## Reading and writing -/

theorem Written.text_eq {f : NameField} {s : String} (h : Written f s) : f.text = s := by
  cases h with
  | data leads => exact text_data _
  | _ => rfl

theorem Written.parse_eq {f : NameField} {s : String} (h : Written f s) : parse s = .ok f := by
  cases h with
  | @data path leads =>
      have hlead : ("data." ++ ".".intercalate path).toList
          = dataLead ++ ['.'].intercalate (path.map String.toList) := by
        rw [← text_data, text, String.toList_ofList]
      rw [parse_of_lead hlead, path?_eq_some_iff.mpr ⟨leads, rfl⟩]
      rfl
  | _ => rfl

theorem written_of_path {s : String} {cs : List Char} {path : List String}
    (h : s.toList = dataLead ++ cs) (hpath : path? cs = some path) : Written (.data path) s := by
  obtain ⟨leads, hkeys⟩ := path?_eq_some_iff.mp hpath
  have hs : "data." ++ ".".intercalate path = s := by
    rw [← text_data, text, hkeys, ← h, String.ofList_toList]
  rw [← hs]
  exact .data leads

theorem written_of_parse {f : NameField} {s : String} (h : parse s = .ok f) : Written f s := by
  cases hfind : plain.find? fun f => f.text = s with
  | some g =>
      rw [parse, hfind] at h
      cases h
      have hs : f.text = s := by simpa using List.find?_some hfind
      rw [← hs]
      exact written_of_plain (List.mem_of_find?_eq_some hfind)
  | none =>
      by_cases hlead : dataLead <+: s.toList
      · obtain ⟨cs, hcs⟩ := hlead
        rw [parse_of_lead hcs.symm] at h
        cases hpath : path? cs with
        | none =>
            rw [hpath] at h
            cases h
        | some path =>
            rw [hpath] at h
            cases h
            exact written_of_path hcs.symm hpath
      · rw [parse_of_other hfind hlead] at h
        cases h

theorem parse_eq_ok_iff {s : String} {f : NameField} : parse s = .ok f ↔ Written f s :=
  ⟨written_of_parse, Written.parse_eq⟩

theorem parse_error {s : String} {e : UnknownField} (h : parse s = .error e) : e = ⟨s⟩ := by
  unfold parse at h
  split at h
  · cases h
  · split at h
    · split at h
      · cases h
      · cases h
        rfl
    · cases h
      rfl

theorem exists_parse_data_iff {path : List String} :
    (∃ s, parse s = .ok (.data path)) ↔ IsPath path := by
  constructor
  · rintro ⟨s, h⟩
    cases written_of_parse h with
    | data leads => exact leads
  · exact fun leads => ⟨_, (Written.data leads).parse_eq⟩

/-- A text is read as a field exactly if it is what is written for the field, and is refused as a whole
if it is written for none; the keys that can be read are exactly those that can be written.  So reading
undoes writing and writing undoes reading, and two texts never stand for one field. -/
theorem parse_exact :
    (∀ s f, parse s = .ok f ↔ Written f s) ∧
    (∀ s, (∀ f, ¬ Written f s) → parse s = .error ⟨s⟩) ∧
    (∀ path, (∃ s, parse s = .ok (.data path)) ↔
      path ≠ [] ∧ ∀ key ∈ path, key ≠ "" ∧ '.' ∉ key.toList) ∧
    (∀ f s, Written f s → f.text = s ∧ parse f.text = .ok f) ∧
    (∀ s f, parse s = .ok f → f.text = s) ∧
    ∀ s t f g, parse s = .ok f → parse t = .ok g → s ≠ t → f ≠ g := by
  refine ⟨fun s f => parse_eq_ok_iff, fun s hnone => ?_, fun path => ?_, fun f s h => ?_,
    fun s f h => (written_of_parse h).text_eq, fun s t f g hs ht hne => ?_⟩
  · cases hparse : parse s with
    | ok f => exact absurd (written_of_parse hparse) (hnone f)
    | error e => rw [parse_error hparse]
  · rw [exists_parse_data_iff]
    exact ⟨fun h => ⟨h.nonempty, h.keys⟩, fun h => ⟨h.1, h.2⟩⟩
  · rw [h.text_eq]
    exact ⟨rfl, h.parse_eq⟩
  · rintro rfl
    exact hne ((written_of_parse hs).text_eq.symm.trans (written_of_parse ht).text_eq)

/-- A key may be called like a field, but must not be empty. -/
example : parse "data.data.label" = .ok (.data ["data", "label"]) ∧
    parse "data.x." = .error ⟨"data.x."⟩ :=
  ⟨rfl, rfl⟩

end NameField

end CompletionCheck.Lsp
