import Mathlib.Data.List.Forall2
import CompletionCheck.Proofs.Lsp.SessionSteps

/-!
# From a result to candidates

What a server answers is turned into candidates in three steps: the result is taken for a list of
values, each value is decoded as an item, and each item gives a candidate with one or two names.
Here all three are said of the values as they were sent.  `Listing` is how a result lists values,
`IsItem` when a value can be decoded, and `Known` under which name a value is compared in a dialect.
None of them decodes anything.

A result that is an array may list values in two ways, since a record may be sent as the array of
its members: as the items themselves, or as a flag and the array of the items.  No array of items
begins with a flag, so the two are never mixed up.
-/

namespace CompletionCheck.Lsp

open Json (Shape)

/-! ## Names -/

/-- The value of a member of an item, `null` when it is not there. -/
def itemMember (name : String) (v : Json) : Json := Shape.memberD Item.members name v

/-- `Leads v path w`: from `v` the keys of `path` lead to `w`, one object deeper with each.  Only
objects have keys. -/
inductive Leads : Json → List String → Json → Prop
  | here (v : Json) : Leads v [] v
  | into {members : List (String × Json)} {key : String} {path : List String} {v w : Json} :
      members.lookup key = some v → Leads v path w → Leads (.obj members) (key :: path) w

/-- `Holds v f name`: an item has a name in a field.  A plain field is the member of the same
name. -/
inductive Holds (v : Json) : NameField → String → Prop
  | plain {f : NameField} {name : String} :
      f ∈ NameField.plain → itemMember f.text v = .str name → Holds v f name
  | data {path : List String} {name : String} :
      Leads (itemMember "data" v) path (.str name) → Holds v (.data path) name

/-- An item has no name of its own in the alternate dialect. -/
def Unnamed (f : NameFields) (v : Json) : Prop :=
  ∀ field, f.dialectQualified = some field → ∀ name, ¬ Holds v field name

/-- `Known f v d name`: this is the name by which an item is compared in a dialect. -/
inductive Known (f : NameFields) (v : Json) : Dialect → String → Prop
  /-- In the alternate dialect, its own name goes first. -/
  | own {field : NameField} {name : String} :
      f.dialectQualified = some field → Holds v field name → Known f v .python name
  | qualified {d : Dialect} {name : String} :
      (d = .python → Unnamed f v) → Holds v f.qualified name → Known f v d name
  /-- The label stands in for a missing name. -/
  | label {d : Dialect} {name : String} :
      (d = .python → Unnamed f v) → (∀ other, ¬ Holds v f.qualified other) →
      Holds v .label name → Known f v d name

theorem followKeys_eq_some_iff (path : List String) : ∀ {v w : Json},
    followKeys v path = some w ↔ Leads v path w := by
  induction path with
  | nil =>
      intro v w
      constructor
      · intro h
        cases h
        exact .here v
      · intro h
        cases h
        rfl
  | cons key path ih =>
      intro v w
      constructor
      · intro h
        obtain ⟨inner, hinner, hrest⟩ := Option.bind_eq_some_iff.mp h
        cases v with
        | obj members => exact .into hinner (ih.mp hrest)
        | null | bool | int | float | str | arr => exact absurd hinner (by simp [Json.member?])
      · intro h
        cases h with
        | into hkey hrest => exact Option.bind_eq_some_iff.mpr ⟨_, hkey, ih.mpr hrest⟩

section Item

variable {v : Json} {item : Item} {f : NameFields}

theorem eq_of_ofJson? (h : Item.ofJson? v = some item) :
    (Shape.record Item.members).fits v = true ∧ (itemMember "label" v).text? = some item.label ∧
      item = { label := item.label
               detail := (itemMember "detail" v).text?
               insertText := (itemMember "insertText" v).text?
               filterText := (itemMember "filterText" v).text?
               sortText := (itemMember "sortText" v).text?
               data := itemMember "data" v } := by
  unfold Item.ofJson? at h
  split at h
  · next hfits =>
      obtain ⟨label, hlabel, rfl⟩ := Option.map_eq_some_iff.mp h
      exact ⟨hfits, hlabel, rfl⟩
  · exact absurd h (by simp)

theorem read_of_plain (h : Item.ofJson? v = some item) {field : NameField}
    (hfield : field ∈ NameField.plain) :
    field.read item = (itemMember field.text v).text? := by
  obtain ⟨-, hlabel, hitem⟩ := eq_of_ofJson? h
  cases field with
  | label => exact hlabel.symm
  | detail | insertText | filterText | sortText =>
      rw [hitem]
      rfl
  | data path => exact absurd hfield (by simp [NameField.plain])

/-- What is read from an item is what the value holds. -/
theorem read_eq_some_iff (h : Item.ofJson? v = some item) {field : NameField} {name : String} :
    field.read item = some name ↔ Holds v field name := by
  by_cases hfield : field ∈ NameField.plain
  · rw [read_of_plain h hfield, Json.text?_eq_some_iff]
    constructor
    · exact .plain hfield
    · intro hholds
      cases hholds with
      | plain _ hname => exact hname
      | data => exact absurd hfield (by simp [NameField.plain])
  · cases field with
    | data path =>
        obtain ⟨-, -, hitem⟩ := eq_of_ofJson? h
        have hdata : item.data = itemMember "data" v := by rw [hitem]
        rw [NameField.read, hdata, Option.bind_eq_some_iff]
        constructor
        · rintro ⟨w, hw, hname⟩
          rw [Json.text?_eq_some_iff.mp hname] at hw
          exact .data ((followKeys_eq_some_iff path).mp hw)
        · intro hholds
          cases hholds with
          | plain hplain => exact absurd hplain hfield
          | data hleads => exact ⟨_, (followKeys_eq_some_iff path).mpr hleads, rfl⟩
    | label | detail | insertText | filterText | sortText =>
        exact absurd (by simp [NameField.plain]) hfield

theorem read_eq_none_iff (h : Item.ofJson? v = some item) {field : NameField} :
    field.read item = none ↔ ∀ name, ¬ Holds v field name := by
  rw [Option.eq_none_iff_forall_ne_some]
  constructor
  · intro hnone name hholds
    exact hnone name ((read_eq_some_iff h).mpr hholds)
  · intro hnone name hread
    exact hnone name ((read_eq_some_iff h).mp hread)

theorem known_name (h : Item.ofJson? v = some item) {d : Dialect}
    (hunnamed : d = .python → Unnamed f v) : Known f v d (f.candidate item).name := by
  cases hread : f.qualified.read item with
  | some name =>
      have hname : (f.candidate item).name = name := by
        rw [NameFields.candidate, hread]
        rfl
      rw [hname]
      exact .qualified hunnamed ((read_eq_some_iff h).mp hread)
  | none =>
      have hname : (f.candidate item).name = item.label := by
        rw [NameFields.candidate, hread]
        rfl
      rw [hname]
      exact .label hunnamed ((read_eq_none_iff h).mp hread) ((read_eq_some_iff h).mp rfl)

theorem known_nameIn (h : Item.ofJson? v = some item) (d : Dialect) :
    Known f v d ((f.candidate item).nameIn d) := by
  cases d with
  | typeScript => exact known_name h nofun
  | python =>
      cases hdialect : f.dialectQualified.bind fun field => field.read item with
      | some name =>
          obtain ⟨field, hfield, hread⟩ := Option.bind_eq_some_iff.mp hdialect
          have hname : (f.candidate item).nameIn .python = name := by
            rw [Candidate.nameIn, NameFields.candidate, hdialect]
            rfl
          rw [hname]
          exact .own hfield ((read_eq_some_iff h).mp hread)
      | none =>
          have hname : (f.candidate item).nameIn .python = (f.candidate item).name := by
            rw [Candidate.nameIn, NameFields.candidate, hdialect]
            rfl
          rw [hname]
          refine known_name h ?_
          intro _ field hfield
          rw [hfield] at hdialect
          exact (read_eq_none_iff h).mp hdialect

end Item

theorem Leads.unique {v w w' : Json} {path : List String} (h : Leads v path w)
    (h' : Leads v path w') : w = w' := by
  rw [← followKeys_eq_some_iff] at h h'
  exact Option.some.inj (h.symm.trans h')

theorem Holds.unique {v : Json} {field : NameField} {name other : String}
    (h : Holds v field name) (h' : Holds v field other) : name = other := by
  cases h with
  | plain hfield hname =>
      cases h' with
      | plain _ hother => exact Json.str.inj (hname.symm.trans hother)
      | data => exact absurd hfield (by simp [NameField.plain])
  | data hleads =>
      cases h' with
      | plain hfield => exact absurd hfield (by simp [NameField.plain])
      | data hleads' => exact Json.str.inj (hleads.unique hleads')

theorem Known.unique {f : NameFields} {v : Json} {d : Dialect} {name other : String}
    (h : Known f v d name) (h' : Known f v d other) : name = other := by
  cases h with
  | own hfield hholds =>
      cases h' with
      | own hfield' hholds' =>
          obtain rfl := Option.some.inj (hfield.symm.trans hfield')
          exact hholds.unique hholds'
      | qualified hunnamed | label hunnamed => exact absurd hholds (hunnamed rfl _ hfield _)
  | qualified hunnamed hholds =>
      cases h' with
      | own hfield' hholds' => exact absurd hholds' (hunnamed rfl _ hfield' _)
      | qualified _ hholds' => exact hholds.unique hholds'
      | label _ hnone => exact absurd hholds (hnone _)
  | label hunnamed hnone hlabel =>
      cases h' with
      | own hfield' hholds' => exact absurd hholds' (hunnamed rfl _ hfield' _)
      | qualified _ hholds' => exact absurd hholds' (hnone _)
      | label _ _ hlabel' => exact hlabel.unique hlabel'

/-! ## Items -/

def IsItem (v : Json) : Prop := (Shape.record Item.members).fits v = true

theorem exists_of_fits_text {v : Json} (h : Shape.text.fits v = true) : ∃ s, v = .str s := by
  cases v with
  | str s => exact ⟨s, rfl⟩
  | null | bool | int | float | arr | obj => exact absurd h (by simp [Shape.fits])

theorem exists_label {v : Json} (h : IsItem v) : ∃ label, itemMember "label" v = .str label := by
  cases v with
  | obj values =>
      have hmembers : Shape.fitMembers Item.members values = true := h
      rw [Item.members, Shape.fitMembers, Bool.and_eq_true] at hmembers
      exact exists_of_fits_text hmembers.1
  | arr items =>
      have hitems : Shape.fitItems Item.members items = true := h
      cases items with
      | nil => exact absurd hitems (by simp [Item.members, Shape.fitItems])
      | cons first rest =>
          rw [Item.members, Shape.fitItems, Bool.and_eq_true] at hitems
          exact exists_of_fits_text hitems.1
  | null | bool | int | float | str => exact absurd h (by simp [IsItem, Shape.fits])

theorem isItem_iff {v : Json} : IsItem v ↔ ∃ item, Item.ofJson? v = some item := by
  constructor
  · intro h
    obtain ⟨label, hlabel⟩ := exists_label h
    have htext : (Shape.memberD Item.members "label" v).text? = some label :=
      Json.text?_eq_some_iff.mpr hlabel
    rw [IsItem] at h
    rw [Item.ofJson?, if_pos h]
    simp only [htext, Option.map_some]
    exact ⟨_, rfl⟩
  · rintro ⟨item, hitem⟩
    exact (eq_of_ofJson? hitem).1

/-- Values are decoded one by one, and all of them or none. -/
theorem mapM_ofJson?_eq_some_iff (vs : List Json) : ∀ {items : List Item},
    vs.mapM Item.ofJson? = some items ↔
      List.Forall₂ (fun v item => Item.ofJson? v = some item) vs items := by
  induction vs with
  | nil =>
      intro items
      rw [List.mapM_nil, List.forall₂_nil_left_iff]
      exact ⟨fun h => (Option.some.inj h).symm, fun h => h ▸ rfl⟩
  | cons v vs ih =>
      intro items
      rw [List.mapM_cons, List.forall₂_cons_left_iff, Option.bind_eq_bind,
        Option.bind_eq_some_iff]
      constructor
      · rintro ⟨item, hitem, hrest⟩
        obtain ⟨rest, hvs, heq⟩ := Option.bind_eq_some_iff.mp hrest
        obtain rfl := Option.some.inj heq
        exact ⟨item, rest, hitem, ih.mp hvs, rfl⟩
      · rintro ⟨item, rest, hitem, hvs, rfl⟩
        exact ⟨item, hitem, Option.bind_eq_some_iff.mpr ⟨rest, ih.mpr hvs, rfl⟩⟩

/-! ## Results -/

/-- `Listing result vs`: a result lists these values.  A record may stand as the array of its
members. -/
inductive Listing : Json → List Json → Prop
  | nothing : Listing .null []
  | array (vs : List Json) : Listing (.arr vs) vs
  | record {members : List (String × Json)} {isIncomplete : Bool} {vs : List Json} :
      members.lookup "isIncomplete" = some (.bool isIncomplete) →
      members.lookup "items" = some (.arr vs) → Listing (.obj members) vs
  | pair (isIncomplete : Bool) (vs : List Json) : Listing (.arr [.bool isIncomplete, .arr vs]) vs

theorem lookup_of_memberD {members : List (String × Json)} {key : String} {v : Json}
    (h : Json.memberD key (.obj members) = v) (hv : v ≠ .null) : members.lookup key = some v := by
  rw [Json.memberD, Json.member?_obj] at h
  cases hkey : members.lookup key with
  | none =>
      rw [hkey] at h
      exact absurd h.symm hv
  | some w =>
      rw [hkey] at h
      exact congrArg some h

theorem ofPartialList?_eq_some_iff {isIncomplete v : Json} {items : List Item} :
    Item.ofPartialList? isIncomplete v = some items ↔ ∃ flag vs, isIncomplete = .bool flag ∧
      v = .arr vs ∧ List.Forall₂ (fun v item => Item.ofJson? v = some item) vs items := by
  constructor
  · intro h
    unfold Item.ofPartialList? at h
    split at h
    · next flag vs => exact ⟨flag, vs, rfl, rfl, (mapM_ofJson?_eq_some_iff vs).mp h⟩
    · exact absurd h (by simp)
  · rintro ⟨flag, vs, rfl, rfl, hvs⟩
    exact (mapM_ofJson?_eq_some_iff vs).mpr hvs

theorem listing_of_listOfJson? {result : Json} {items : List Item}
    (h : Item.listOfJson? result = some items) :
    ∃ vs, Listing result vs ∧ List.Forall₂ (fun v item => Item.ofJson? v = some item) vs items := by
  unfold Item.listOfJson? at h
  split at h
  · cases h
    exact ⟨[], .nothing, .nil⟩
  · next vs =>
      rcases Option.or_eq_some_iff.mp h with h | ⟨-, h⟩
      · exact ⟨vs, .array vs, (mapM_ofJson?_eq_some_iff vs).mp h⟩
      · split at h
        · obtain ⟨flag, ws, rfl, rfl, hws⟩ := ofPartialList?_eq_some_iff.mp h
          exact ⟨ws, .pair flag ws, hws⟩
        · exact absurd h (by simp)
  · next members =>
      obtain ⟨flag, vs, hflag, hvs, hitems⟩ := ofPartialList?_eq_some_iff.mp h
      exact ⟨vs, .record (lookup_of_memberD hflag (by simp)) (lookup_of_memberD hvs (by simp)),
        hitems⟩
  · exact absurd h (by simp)

theorem Listing.listOfJson? {result : Json} {vs : List Json} {items : List Item}
    (h : Listing result vs) (hvs : List.Forall₂ (fun v item => Item.ofJson? v = some item) vs items) :
    Item.listOfJson? result = some items := by
  cases h with
  | nothing =>
      cases hvs
      rfl
  | array =>
      unfold Item.listOfJson?
      simp only [(mapM_ofJson?_eq_some_iff vs).mpr hvs]
      rfl
  | @record _ flag _ hflag hitems =>
      refine ofPartialList?_eq_some_iff.mpr ⟨flag, vs, ?_, ?_, hvs⟩
      · rw [Json.memberD, Json.member?_obj, hflag]
        rfl
      · rw [Json.memberD, Json.member?_obj, hitems]
        rfl
  | pair flag =>
      -- a flag is no item, so the array is not taken for an array of items
      have hnone : [.bool flag, .arr vs].mapM Item.ofJson? = none := rfl
      unfold Item.listOfJson?
      simp only [hnone, Option.none_or]
      exact ofPartialList?_eq_some_iff.mpr ⟨flag, vs, rfl, rfl, hvs⟩

/-! ## Candidates -/

/-- A candidate is compared under the names of a value, whatever the dialect. -/
def Offers (f : NameFields) (v : Json) (c : Candidate) : Prop :=
  ∀ d name, c.nameIn d = name ↔ Known f v d name

theorem offers_candidate {f : NameFields} {v : Json} {item : Item}
    (h : Item.ofJson? v = some item) : Offers f v (f.candidate item) := by
  intro d name
  constructor
  · rintro rfl
    exact known_nameIn h d
  · intro hknown
    exact (known_nameIn h d).unique hknown

theorem forall_isItem_iff (vs : List Json) : (∀ v ∈ vs, IsItem v) ↔
    ∃ items, List.Forall₂ (fun v item => Item.ofJson? v = some item) vs items := by
  induction vs with
  | nil => exact iff_of_true (fun _ hv => absurd hv List.not_mem_nil) ⟨[], .nil⟩
  | cons v vs ih =>
      rw [List.forall_mem_cons, ih, isItem_iff]
      constructor
      · rintro ⟨⟨item, hitem⟩, items, hitems⟩
        exact ⟨item :: items, .cons hitem hitems⟩
      · rintro ⟨_, hall⟩
        cases hall with
        | cons hitem hitems => exact ⟨⟨_, hitem⟩, _, hitems⟩

theorem candidates?_of_listing {f : NameFields} {result : Json} {vs : List Json}
    (hlisting : Listing result vs) (hvs : ∀ v ∈ vs, IsItem v) :
    ∃ candidates, f.candidates? result = some candidates ∧
      List.Forall₂ (Offers f) vs candidates := by
  obtain ⟨items, hitems⟩ := (forall_isItem_iff vs).mp hvs
  have hread := hlisting.listOfJson? hitems
  refine ⟨items.map f.candidate, ?_, ?_⟩
  · rw [NameFields.candidates?, hread]
    rfl
  · exact List.forall₂_map_right_iff.mpr (hitems.imp fun _ _ => offers_candidate)

theorem candidates?_of_unlisted {f : NameFields} {result : Json}
    (h : ¬ ∃ vs, Listing result vs ∧ ∀ v ∈ vs, IsItem v) : f.candidates? result = none := by
  cases hread : Item.listOfJson? result with
  | none =>
      rw [NameFields.candidates?, hread]
      rfl
  | some items =>
      obtain ⟨vs, hlisting, hitems⟩ := listing_of_listOfJson? hread
      exact absurd ⟨vs, hlisting, (forall_isItem_iff vs).mpr ⟨items, hitems⟩⟩ h

namespace Session

variable {s : Session} {q : Service.Request} {a : Arrival} {result : Json} {c : Client}

theorem complete_of_request
    (h : s.client.request completionMethod (s.askedParams q) s.options.requestLimit a
      = (.ok (.ok result), c)) :
    s.complete q a = (replyOf s.options.names (.ok result), s.withClient c) := by
  unfold Client.request at h
  rcases hsend : s.client.send completionMethod (s.askedParams q) with ⟨e | id, d⟩
  · rw [hsend] at h
    exact absurd h (by simp)
  · rw [hsend] at h
    have hask : s.ask q = (.ok id, s.withClient d) := by
      rw [askedParams] at hsend
      simp only [ask, hsend]
    have hawait : ((s.withClient d).deliver a).client.awaitResponse completionMethod
        s.options.requestLimit id = (.ok (.ok result), c) := h
    simp only [complete, hask, awaitReply]
    rw [show ((s.withClient d).deliver a).options.requestLimit = s.options.requestLimit from rfl,
      hawait]
    rfl

/-- **A result gives a candidate for each of its items, or it is refused.**  When a question is
answered with a result, then either the result lists values that are all items, and the reply is one
candidate for each of them, in their order, which every dialect compares under the name that the
value is known by; or the result lists no such values, and the reply is an error. -/
theorem completions_all_or_nothing
    (h : s.client.request completionMethod (s.askedParams q) s.options.requestLimit a
      = (.ok (.ok result), c)) :
    (∀ vs, Listing result vs → (∀ v ∈ vs, IsItem v) →
      ∃ candidates, s.complete q a = (.ok (.completions candidates), s.withClient c) ∧
        List.Forall₂ (Offers s.options.names) vs candidates) ∧
    ((¬ ∃ vs, Listing result vs ∧ ∀ v ∈ vs, IsItem v) →
      s.complete q a = (.error (.protocol .badCompletionResult), s.withClient c)) := by
  rw [complete_of_request h]
  refine ⟨?_, ?_⟩
  · intro vs hlisting hitems
    obtain ⟨candidates, hread, hoffers⟩ := candidates?_of_listing hlisting hitems
    exact ⟨candidates, by simp only [replyOf, hread], hoffers⟩
  · intro hnone
    simp only [replyOf, candidates?_of_unlisted hnone]

/-- A response to the first request. -/
def answering (result : Json) : Arrival where
  messages := [.obj [("id", .int 1), ("jsonrpc", .str "2.0"), ("result", result)]]

def unasked : Session where
  client := {}
  rootUri := "file:///w/"
  options := { names := ⟨.data ["q"], some .detail⟩ }

/-- A question about a text of one character. -/
def shortQuestion : Service.Request := ⟨"main.ts", 0, 0, 0, "a"⟩

/-- An item with a name in its data, which says nothing in the alternate dialect. -/
def itemWithData : Json := .obj [("data", .obj [("q", .str "A")]), ("label", .str "a")]

/-- An item with nothing in its data, which has a name in the alternate dialect. -/
def itemWithDetail : Json := .obj [("detail", .str "B"), ("label", .str "b")]

def itemRecord : Json :=
  .obj [("isIncomplete", .bool true), ("items", .arr [itemWithData, itemWithDetail])]

/-- Both items of the record become candidates. -/
theorem completions_all_or_nothing_named : ∃ c candidates,
    unasked.client.request completionMethod (unasked.askedParams shortQuestion) 10000
        (answering itemRecord)
      = (.ok (.ok itemRecord), c) ∧
    unasked.complete shortQuestion (answering itemRecord)
      = (.ok (.completions candidates), unasked.withClient c) ∧
    List.Forall₂ (Offers ⟨.data ["q"], some .detail⟩) [itemWithData, itemWithDetail]
      candidates := by
  obtain ⟨c, hrequest⟩ : ∃ c, unasked.client.request completionMethod
      (unasked.askedParams shortQuestion) 10000 (answering itemRecord)
      = (.ok (.ok itemRecord), c) := ⟨_, rfl⟩
  have hitems : ∀ v ∈ [itemWithData, itemWithDetail], IsItem v :=
    List.forall_mem_cons.mpr ⟨rfl, List.forall_mem_singleton.mpr rfl⟩
  obtain ⟨candidates, hreply, hoffers⟩ :=
    (completions_all_or_nothing hrequest).1 _ (.record rfl rfl) hitems
  exact ⟨c, candidates, hrequest, hreply, hoffers⟩

def flaggedNothing : Json := .arr [.bool false, .arr []]

/-- This is not `null`, no array of items and no object, and yet it is not refused. -/
theorem completions_of_pair :
    flaggedNothing ≠ .null ∧ (¬ ∃ vs, flaggedNothing = .arr vs ∧ ∀ v ∈ vs, IsItem v) ∧
    (¬ ∃ members, flaggedNothing = .obj members) ∧
    ∃ c, unasked.client.request completionMethod (unasked.askedParams shortQuestion) 10000
          (answering flaggedNothing)
        = (.ok (.ok flaggedNothing), c) ∧
      unasked.complete shortQuestion (answering flaggedNothing)
        = (.ok (.completions []), unasked.withClient c) := by
  refine ⟨nofun, ?_, nofun, _, rfl, rfl⟩
  rintro ⟨vs, hvs, hitems⟩
  cases hvs
  exact absurd (hitems _ List.mem_cons_self) (by simp [IsItem, Shape.fits])

end Session

end CompletionCheck.Lsp
