import CompletionCheck.Proofs.Fixture.Extraction
import CompletionCheck.Proofs.Fixture.Splitting
import Mathlib.Data.List.Basic

/-!
# Comments mean what their authors write

An author has lines in mind, some of them with wishes: symbols that must be offered and symbols that
must not.  A `Draft` is such a line, and `render` writes it down: the code, the comment marker, and
the wishes with `"; "` between them, the forbidden ones behind a `!`.  Extraction from the written
fixture gives back the drafts with wishes, each as one case (`entries_render`).

What is asked of a draft is what the notation cannot express otherwise.  The marker must not begin
before the end of the code, which also rules out code that would make a marker together with the one
that follows it, such as a code that ends in `/`.  A symbol is not empty, has no blanks around it and
no `;` in it, and a symbol that is expected has no `!` in it, because a `!` anywhere in a token makes
it forbidden; a forbidden one may have further marks.  And nobody can wish for a symbol and against
it.  Symbols may hold blanks, the comment marker, and any other character.

Three conventions of the notation meet here, and none of them needs care from the author.  The
space behind the marker is trimmed off the payload; those behind each `;` are trimmed off the tokens;
and because every token, the first one included, has exactly one space before it, the two amount to
the same (`trimmedTokens_trim`).
-/

namespace CompletionCheck.Fixture

/-! ## Drafts -/

/-- A symbol that the notation can carry. -/
structure IsSymbol (symbol : List Char) : Prop where
  nonempty : symbol ≠ []
  trimmed : Text.trim symbol = symbol
  whole : ';' ∉ symbol
  unbroken : '\n' ∉ symbol

/-- What an author wants to see, or not to see, in a completion list. -/
inductive Wish
  | expect (symbol : List Char)
  | forbid (symbol : List Char)
deriving DecidableEq, Repr

namespace Wish

def text : Wish → List Char
  | expect symbol => symbol
  | forbid symbol => '!' :: symbol

def expected? : Wish → Option String
  | expect symbol => some (String.ofList symbol)
  | forbid _ => none

def forbidden? : Wish → Option String
  | expect _ => none
  | forbid symbol => some (String.ofList symbol)

/-- A wish that the notation can carry. -/
inductive Sound : Wish → Prop
  | expect {symbol : List Char} : IsSymbol symbol → '!' ∉ symbol → Sound (expect symbol)
  | forbid {symbol : List Char} : IsSymbol symbol → Sound (forbid symbol)

end Wish

/-- A line as its author has it in mind. -/
inductive Draft
  | plain (line : List Char)
  | annotated (code : List Char) (wishes : List Wish)
deriving DecidableEq, Repr

/-- The payload that says some wishes. -/
def payloadOf (wishes : List Wish) : List Char :=
  [';', ' '].intercalate (wishes.map Wish.text)

namespace Draft

def render (d : Dialect) : Draft → List Char
  | plain line => line
  | annotated code wishes => code ++ (d.marker.toList ++ ' ' :: payloadOf wishes)

/-- A draft that the notation can carry. -/
inductive Sound (d : Dialect) : Draft → Prop
  | plain {line : List Char} : ¬ d.marker.toList <:+: line → '\n' ∉ line → Sound d (plain line)
  | annotated {code : List Char} {wishes : List Wish} : '\n' ∉ code →
      (∀ x y, x ++ (d.marker.toList ++ y) = code ++ d.marker.toList → y = []) →
      (∀ w ∈ wishes, w.Sound) → (∀ symbol, .expect symbol ∈ wishes → .forbid symbol ∉ wishes) →
      Sound d (annotated code wishes)

end Draft

/-- The fixture in which drafts are written down. -/
def render (d : Dialect) (drafts : List Draft) : String :=
  String.ofList (['\n'].intercalate (drafts.map (Draft.render d)))

/-- What a case tells: its line, its code, and what is asked of the candidates. -/
def TestCase.told (c : TestCase) : Nat × String × Expectations :=
  (c.lineNumber, c.code, ⟨c.expected, c.unwanted⟩)

/-- What wishes ask: the expected symbols in their order and with repetitions, and the set of the
forbidden ones. -/
def Expectations.ofWishes (wishes : List Wish) : Expectations :=
  ⟨wishes.filterMap Wish.expected?, .ofList (wishes.filterMap Wish.forbidden?)⟩

/-- What the cases of drafts have to tell, when the first draft stands in line `number`. -/
def toldFrom (number : Nat) : List Draft → List (Nat × String × Expectations)
  | [] => []
  | .plain _ :: rest => toldFrom (number + 1) rest
  | .annotated code wishes :: rest =>
    (number, String.ofList code, .ofWishes wishes) :: toldFrom (number + 1) rest

/-! ## Blanks around a payload -/

theorem semicolon_not_mem_blank {x : List Char} (h : ∀ c ∈ x, Text.isBlank c) : ';' ∉ x :=
  fun hmem => absurd (h _ hmem) (by decide)

theorem splitOn_append_left {x : List Char} (h : ';' ∉ x) (cs : List Char) :
    ∃ first rest, cs.splitOn ';' = first :: rest ∧ (x ++ cs).splitOn ';' = (x ++ first) :: rest := by
  obtain ⟨first, rest, hsplit⟩ := List.exists_cons_of_ne_nil (List.splitOn_ne_nil ';' cs)
  refine ⟨first, rest, hsplit, ?_⟩
  induction x with
  | nil => exact hsplit
  | cons c x ih =>
      obtain ⟨hc, hx⟩ := not_or.mp (List.mem_cons.not.mp h)
      have hne : (c == ';') = false := by simpa using Ne.symm hc
      rw [List.cons_append, List.splitOn_cons_eq_if_modifyHead, hne, ih hx]
      rfl

theorem splitOn_append_right {y : List Char} (h : ';' ∉ y) (cs : List Char) :
    ∃ others last, cs.splitOn ';' = others ++ [last] ∧
      (cs ++ y).splitOn ';' = others ++ [last ++ y] := by
  induction cs with
  | nil => exact ⟨[], [], rfl, List.splitOn_eq_singleton h⟩
  | cons c cs ih =>
      obtain ⟨others, last, hleft, hright⟩ := ih
      rw [List.cons_append, List.splitOn_cons_eq_if_modifyHead,
        List.splitOn_cons_eq_if_modifyHead, hleft, hright]
      split
      · exact ⟨[] :: others, last, rfl, rfl⟩
      · cases others with
        | nil => exact ⟨[], c :: last, rfl, rfl⟩
        | cons other others => exact ⟨(c :: other) :: others, last, rfl, rfl⟩

/-- Blanks before and behind a payload belong to its first and last token, which are trimmed. -/
theorem trimmedTokens_trim (payload : List Char) :
    trimmedTokens (Text.trim payload) = trimmedTokens payload := by
  obtain ⟨x, y, hx, hy, hpayload⟩ := Text.exists_blank_trim_blank payload
  obtain ⟨others, last, htrim, hlast⟩ :=
    splitOn_append_right (semicolon_not_mem_blank hy) (Text.trim payload)
  obtain ⟨first, rest, hcut, hfirst⟩ :=
    splitOn_append_left (semicolon_not_mem_blank hx) (Text.trim payload ++ y)
  have hwhole : trimmedTokens payload = trimmedTokens (Text.trim payload ++ y) := by
    rw [trimmedTokens, trimmedTokens, hcut, List.map_cons, ← Text.trim_blank_append hx,
      ← List.map_cons, ← hfirst, ← hpayload]
  rw [hwhole, trimmedTokens, trimmedTokens, htrim, hlast, List.map_append, List.map_append]
  simp [Text.trim_append_blank last hy]

/-! ## The payload of wishes -/

/-- With the space behind the marker, every token of a payload has one space before it. -/
theorem cons_space_payloadOf {wishes : List Wish} (h : wishes ≠ []) :
    ' ' :: payloadOf wishes = [';'].intercalate (wishes.map fun w => ' ' :: w.text) := by
  induction wishes with
  | nil => exact absurd rfl h
  | cons w rest ih =>
      cases rest with
      | nil => simp [payloadOf]
      | cons next rest =>
          have hrest := ih (List.cons_ne_nil _ _)
          rw [payloadOf] at hrest ⊢
          simp only [List.map_cons, List.intercalate_cons_cons] at hrest ⊢
          rw [← hrest]
          simp

theorem IsSymbol.trim_space {symbol : List Char} (h : IsSymbol symbol) :
    Text.trim (' ' :: symbol) = symbol := by
  have hspace : ∀ c ∈ [' '], Text.isBlank c := List.forall_mem_singleton.mpr (by decide)
  have htrim := Text.trim_blank_append hspace symbol
  rwa [h.trimmed] at htrim

theorem IsSymbol.named? {symbol : List Char} (h : IsSymbol symbol) :
    named? symbol = some (String.ofList symbol) := by
  rw [Fixture.named?, if_neg (by simpa using h.nonempty)]

theorem Wish.Sound.token {w : Wish} (h : w.Sound) :
    expectedBy? (Text.trim (' ' :: w.text)) = w.expected? ∧
      unwantedBy? (Text.trim (' ' :: w.text)) = w.forbidden? := by
  cases h with
  | @expect symbol hsymbol hmark =>
      rw [Wish.text, hsymbol.trim_space, expectedBy?, unwantedBy?, if_neg hmark, if_neg hmark,
        hsymbol.named?]
      exact ⟨rfl, rfl⟩
  | @forbid symbol hsymbol =>
      have hmem : '!' ∈ ' ' :: '!' :: symbol := by simp
      have hmark := (Text.mem_trim mark_not_blank).mpr hmem
      have herase : (' ' :: '!' :: symbol).erase '!' = ' ' :: symbol := by
        rw [List.erase_cons_tail (by decide), List.erase_cons_head]
      rw [Wish.text, expectedBy?, unwantedBy?, if_pos hmark, if_pos hmark,
        Text.trim_erase_trim mark_not_blank hmem, herase, hsymbol.trim_space, hsymbol.named?]
      exact ⟨rfl, rfl⟩

theorem Wish.Sound.semicolon_not_mem {w : Wish} (h : w.Sound) : ';' ∉ ' ' :: w.text := by
  cases h with
  | expect hsymbol => simp [Wish.text, hsymbol.whole]
  | forbid hsymbol => simp [Wish.text, hsymbol.whole]

/-- The tokens of a payload of wishes are those of the wishes; without wishes there is an empty one,
which asks nothing. -/
theorem filterMap_trimmedTokens {wishes : List Wish} (h : ∀ w ∈ wishes, w.Sound)
    {f : List Char → Option String} (g : Wish → Option String) (hnone : f [] = none)
    (hf : ∀ w, w.Sound → f (Text.trim (' ' :: w.text)) = g w) :
    (trimmedTokens (Text.trim (' ' :: payloadOf wishes))).filterMap f = wishes.filterMap g := by
  rw [trimmedTokens_trim, trimmedTokens]
  by_cases hnil : wishes = []
  · subst hnil
    have htokens : ((' ' :: payloadOf []).splitOn ';').map Text.trim = [[]] := rfl
    rw [htokens, List.filterMap_cons_none hnone]
    rfl
  · have hsplit : (' ' :: payloadOf wishes).splitOn ';' = wishes.map fun w => ' ' :: w.text := by
      rw [cons_space_payloadOf hnil]
      refine List.splitOn_intercalate ';' (fun token htoken => ?_) (by simpa using hnil)
      obtain ⟨w, hw, rfl⟩ := List.mem_map.mp htoken
      exact (h w hw).semicolon_not_mem
    rw [hsplit, List.map_map, List.filterMap_map]
    exact List.filterMap_congr fun w hw => hf w (h w hw)

theorem expectedIn_payloadOf {wishes : List Wish} (h : ∀ w ∈ wishes, w.Sound) :
    expectedIn (Text.trim (' ' :: payloadOf wishes)) = wishes.filterMap Wish.expected? :=
  filterMap_trimmedTokens h Wish.expected? rfl fun _ hw => hw.token.1

theorem unwantedIn_payloadOf {wishes : List Wish} (h : ∀ w ∈ wishes, w.Sound) :
    unwantedIn (Text.trim (' ' :: payloadOf wishes)) = wishes.filterMap Wish.forbidden? :=
  filterMap_trimmedTokens h Wish.forbidden? rfl fun _ hw => hw.token.2

/-- Wishes that do not go against each other are understood. -/
theorem parse_payloadOf {wishes : List Wish} (h : ∀ w ∈ wishes, w.Sound)
    (hagree : ∀ symbol, .expect symbol ∈ wishes → .forbid symbol ∉ wishes) :
    Expectations.parse (Text.trim (' ' :: payloadOf wishes)) = .ok (.ofWishes wishes) := by
  rw [Expectations.ofWishes, ← expectedIn_payloadOf h, ← unwantedIn_payloadOf h]
  refine parse_eq_iff_answers.mpr (.agreed fun s hs hunwanted => ?_)
  rw [expectedIn_payloadOf h] at hs
  rw [unwantedIn_payloadOf h] at hunwanted
  obtain ⟨w, hw, hwith⟩ := List.mem_filterMap.mp hs
  obtain ⟨w', hw', hagainst⟩ := List.mem_filterMap.mp hunwanted
  cases w with
  | forbid => cases hwith
  | expect symbol =>
      cases w' with
      | expect => cases hagainst
      | forbid symbol' =>
          cases hwith
          obtain rfl : symbol' = symbol := String.ofList_injective (Option.some.inj hagainst)
          exact hagree symbol' hw hw'

/-! ## One line -/

section Lines

variable {source text : String} {d : Dialect}

theorem scan_render {code : List Char} {wishes : List Wish}
    (hmarker : ∀ x y, x ++ (d.marker.toList ++ y) = code ++ d.marker.toList → y = []) :
    Line.scan d ((Draft.annotated code wishes).render d)
      = .annotated code (Text.trim (' ' :: payloadOf wishes)) := by
  rw [Line.scan, Draft.render, Text.cutAt?_of_first hmarker]

theorem entryOf?_render {code : List Char} {wishes : List Wish}
    (h : (Draft.annotated code wishes).Sound d) (number start : Nat) :
    ∃ c, entryOf? source text d ⟨number, start, (Draft.annotated code wishes).render d⟩
        = some (.ok c) ∧ c.told = (number, String.ofList code, .ofWishes wishes) := by
  cases h with
  | annotated _ hmarker hwishes hagree =>
      let line : PlacedLine := ⟨number, start, (Draft.annotated code wishes).render d⟩
      refine ⟨caseOf source text d line code (.ofWishes wishes), ?_, rfl⟩
      rw [entryOf?, scan_render hmarker]
      simp only [parse_payloadOf hwishes hagree]
      rfl

theorem newline_not_mem_payloadOf {wishes : List Wish} (h : ∀ w ∈ wishes, w.Sound) :
    '\n' ∉ payloadOf wishes := by
  induction wishes with
  | nil => exact List.not_mem_nil
  | cons w rest ih =>
      obtain ⟨hw, hrest⟩ := List.forall_mem_cons.mp h
      have htext : '\n' ∉ w.text := by
        cases hw with
        | expect hsymbol => exact hsymbol.unbroken
        | forbid hsymbol => simp [Wish.text, hsymbol.unbroken]
      cases rest with
      | nil => simpa [payloadOf] using htext
      | cons next rest =>
          have hpayload : '\n' ∉ [';', ' '].intercalate (next.text :: rest.map Wish.text) :=
            ih hrest
          rw [payloadOf, List.map_cons, List.map_cons, List.intercalate_cons_cons]
          simp [htext, hpayload]

theorem Draft.Sound.newline_not_mem {draft : Draft} (h : draft.Sound d) :
    '\n' ∉ draft.render d := by
  cases h with
  | plain _ hbroken => exact hbroken
  | annotated hcode _ hwishes _ =>
      have hmarker : '\n' ∉ d.marker.toList := by cases d <;> decide
      simp [Draft.render, hcode, hmarker, newline_not_mem_payloadOf hwishes]

/-! ## The fixture -/

theorem entries_placeLines {drafts : List Draft} (h : ∀ draft ∈ drafts, draft.Sound d) :
    ∀ number start : Nat, ∃ cases : List TestCase,
      (placeLines number start (drafts.map (Draft.render d))).filterMap (entryOf? source text d)
        = cases.map .ok ∧ cases.map TestCase.told = toldFrom number drafts := by
  induction drafts with
  | nil => exact fun _ _ => ⟨[], rfl, rfl⟩
  | cons draft drafts ih =>
      intro number start
      obtain ⟨hdraft, hdrafts⟩ := List.forall_mem_cons.mp h
      obtain ⟨later, hentries, htold⟩ := ih hdrafts (number + 1)
        (start + Text.byteLength (draft.render d) + 1)
      rw [List.map_cons, placeLines]
      cases draft with
      | plain line =>
          have hentry : entryOf? source text d ⟨number, start, line⟩ = none := by
            cases hdraft with
            | plain hmarker => rw [entryOf?, scan_eq_plain_iff.mpr hmarker]
          exact ⟨later, (List.filterMap_cons_none hentry).trans hentries, htold⟩
      | annotated code wishes =>
          obtain ⟨c, hentry, hc⟩ := entryOf?_render hdraft number start
          refine ⟨c :: later, ?_, ?_⟩
          · rw [List.filterMap_cons_some hentry, hentries, List.map_cons]
          · rw [List.map_cons, hc, htold, toldFrom]

/-- **What is written into a fixture is extracted from it.**  From the lines of sound drafts, each
draft with wishes gives one case and nothing else gives an entry.  The cases come in the order of the
drafts, and each tells its line, its code, the expected symbols in the order in which they were
written and as often, and the set of the forbidden ones. -/
theorem entries_render {drafts : List Draft} (h : ∀ draft ∈ drafts, draft.Sound d)
    (source : String) :
    ∃ cases : List TestCase, entries source (render d drafts) d = cases.map .ok ∧
      cases.map TestCase.told = toldFrom 1 drafts := by
  by_cases hnil : drafts = []
  · subst hnil
    refine ⟨[], ?_, rfl⟩
    cases d <;> rfl
  · have hlines : (render d drafts).toList.splitOn '\n' = drafts.map (Draft.render d) := by
      rw [render, String.toList_ofList]
      refine List.splitOn_intercalate '\n' (fun line hline => ?_) (by simpa using hnil)
      obtain ⟨draft, hdraft, rfl⟩ := List.mem_map.mp hline
      exact (h draft hdraft).newline_not_mem
    rw [entries, linesOf, hlines]
    exact entries_placeLines h 1 0

/-- A fixture with a plain line, wishes in any order, of which one holds the marker, one is made twice
and one has a mark of its own, and a line without wishes. -/
def sampleDrafts : List Draft :=
  [.plain "x = 1 / 2".toList,
    .annotated "é / x. ".toList
      [.expect "a // b".toList, .forbid "!é ü".toList, .expect "a // b".toList,
        .forbid "é".toList],
    .annotated [] []]

theorem sound_sampleDrafts : ∀ draft ∈ sampleDrafts, draft.Sound .typeScript := by
  have hexpected : IsSymbol "a // b".toList :=
    ⟨by decide +kernel, by decide +kernel, by decide +kernel, by decide +kernel⟩
  have hforbidden : IsSymbol "!é ü".toList ∧ IsSymbol "é".toList :=
    ⟨⟨by decide +kernel, by decide +kernel, by decide +kernel, by decide +kernel⟩,
      ⟨by decide +kernel, by decide +kernel, by decide +kernel, by decide +kernel⟩⟩
  have hcode : Text.cutAt? Dialect.typeScript.marker.toList
      ("é / x. ".toList ++ Dialect.typeScript.marker.toList) = some ("é / x. ".toList, []) := by
    decide +kernel
  have hblank : Text.cutAt? Dialect.typeScript.marker.toList Dialect.typeScript.marker.toList
      = some ([], []) := by decide +kernel
  have hplain : ¬ Dialect.typeScript.marker.toList <:+: "x = 1 / 2".toList := by decide +kernel
  simp only [sampleDrafts, List.forall_mem_cons]
  refine ⟨.plain hplain (by decide +kernel), .annotated (by decide +kernel)
    (fun x y => Text.eq_nil_of_cutAt? hcode) ?_ ?_,
    .annotated (by decide) (fun x y => Text.eq_nil_of_cutAt? hblank) (by simp) (by simp), by simp⟩
  · simp only [List.forall_mem_cons]
    exact ⟨.expect hexpected (by decide +kernel), .forbid hforbidden.1,
      .expect hexpected (by decide +kernel), .forbid hforbidden.2, by simp⟩
  · simp

theorem entries_render_sample :
    (∀ draft ∈ sampleDrafts, draft.Sound .typeScript) ∧
      ∃ cases : List TestCase,
        entries "f.ts" "x = 1 / 2\né / x. // a // b; !!é ü; a // b; !é\n// " .typeScript
          = cases.map .ok ∧
        cases.map TestCase.told = [(2, "é / x. ", ⟨["a // b", "a // b"], .ofList ["!é ü", "é"]⟩),
          (3, "", ⟨[], .empty⟩)] := by
  have hrender : render .typeScript sampleDrafts
      = "x = 1 / 2\né / x. // a // b; !!é ü; a // b; !é\n// " := by decide +kernel
  have htold : toldFrom 1 sampleDrafts = [(2, "é / x. ", ⟨["a // b", "a // b"],
      .ofList ["!é ü", "é"]⟩), (3, "", ⟨[], .empty⟩)] := by decide +kernel
  rw [← hrender, ← htold]
  exact ⟨sound_sampleDrafts, entries_render sound_sampleDrafts "f.ts"⟩

end Lines

end CompletionCheck.Fixture
