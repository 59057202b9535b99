import CompletionCheck.Json.Basic

/-!
# Reading an object that was put together

Objects are put together member by member and read by key.  What is read under a key is the value
of the last member that was put in with it; this holds for any list of members, sorted or not, so
nothing has to be known about the order in which an object keeps them.
-/

namespace CompletionCheck.Json

theorem lookup_cons_ite {α : Type} (key k : String) (v : α) (rest : List (String × α)) :
    ((k, v) :: rest).lookup key = if key = k then some v else rest.lookup key := by
  rw [List.lookup_cons]
  by_cases h : key = k
  · subst h; simp
  · have : (key == k) = false := by simpa using h
    simp [this, h]

theorem lookup_insertMember (key k : String) (v : Json) (ms : List (String × Json)) :
    (insertMember k v ms).lookup key = if key = k then some v else ms.lookup key := by
  induction ms with
  | nil => rw [insertMember, lookup_cons_ite]
  | cons m rest ih =>
      obtain ⟨j, w⟩ := m
      simp only [insertMember]
      split
      · rw [lookup_cons_ite]
      · split
        · next h =>
            subst h
            rw [lookup_cons_ite, lookup_cons_ite]
            by_cases hk : key = k <;> simp [hk]
        · next h =>
            rw [lookup_cons_ite, lookup_cons_ite, ih]
            by_cases hk : key = j
            · subst hk; simp [Ne.symm h]
            · simp [hk]

/-- Putting members into an object one after the other: the last one put in is read first. -/
theorem lookup_foldl_insertMember (key : String) (ms : List (String × Json)) :
    ∀ start : List (String × Json),
      (ms.foldl (fun sorted m => insertMember m.1 m.2 sorted) start).lookup key
        = (ms.reverse.lookup key).or (start.lookup key) := by
  induction ms with
  | nil => intro start; simp
  | cons m rest ih =>
      intro start
      rw [List.foldl_cons, ih, lookup_insertMember, List.reverse_cons, List.lookup_append,
        lookup_cons_ite]
      by_cases h : key = m.1 <;> cases rest.reverse.lookup key <;> simp [h]

theorem member?_ofMembers (key : String) (ms : List (String × Json)) :
    (ofMembers ms).member? key = ms.reverse.lookup key := by
  rw [ofMembers, member?, lookup_foldl_insertMember]
  simp

@[simp] theorem member?_obj (key : String) (ms : List (String × Json)) :
    (obj ms).member? key = ms.lookup key := rfl

@[simp] theorem text?_str (s : String) : (str s).text? = some s := rfl

@[simp] theorem text?_null : null.text? = none := rfl

theorem text?_eq_some {v : Json} {s : String} (h : v.text? = some s) : v = .str s := by
  cases v <;> simp_all [text?]

theorem text?_eq_some_iff {v : Json} {s : String} : v.text? = some s ↔ v = .str s := by
  constructor
  · exact text?_eq_some
  · rintro rfl
    rfl

end CompletionCheck.Json
