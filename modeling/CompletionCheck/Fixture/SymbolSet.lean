/-!
# Sets of symbols

The symbols that must not appear form a set: writing one twice is the same as writing it once, and
their order in the comment does not matter.  The set is kept as its symbols in increasing order,
which is the order in which they are looked for and listed.  Order is by code points, which is
also the order of the bytes.
-/

namespace CompletionCheck.Fixture

/-- Puts a symbol into its place in an increasing list. -/
def insertSymbol (s : String) : List String → List String
  | [] => [s]
  | t :: rest =>
    if s < t then s :: t :: rest
    else if s = t then t :: rest
    else t :: insertSymbol s rest

theorem mem_insertSymbol {s x : String} {l : List String} :
    x ∈ insertSymbol s l ↔ x = s ∨ x ∈ l := by
  induction l with
  | nil => simp [insertSymbol]
  | cons t rest ih =>
    rw [insertSymbol]
    split
    · simp
    · split
      · rename_i h
        simp [h]
      · simp only [List.mem_cons, ih]
        constructor
        · rintro (h | h | h) <;> simp [h]
        · rintro (h | h | h) <;> simp [h]

theorem pairwise_insertSymbol (s : String) {l : List String} (h : l.Pairwise (· < ·)) :
    (insertSymbol s l).Pairwise (· < ·) := by
  induction l with
  | nil => simp [insertSymbol]
  | cons t rest ih =>
    obtain ⟨below, sorted⟩ := List.pairwise_cons.1 h
    rw [insertSymbol]
    split
    · rename_i lt
      refine List.pairwise_cons.2 ⟨fun x hx => ?_, h⟩
      rcases List.mem_cons.1 hx with rfl | hx
      · exact lt
      · exact String.lt_trans lt (below x hx)
    · split
      · exact h
      · rename_i notLt ne
        refine List.pairwise_cons.2 ⟨fun x hx => ?_, ih sorted⟩
        rcases mem_insertSymbol.1 hx with rfl | hx
        · exact Std.lt_of_le_of_ne (String.not_lt.1 notLt) (Ne.symm ne)
        · exact below x hx

theorem eq_of_increasing {a b : List String} (ha : a.Pairwise (· < ·)) (hb : b.Pairwise (· < ·))
    (h : ∀ s, s ∈ a ↔ s ∈ b) : a = b := by
  have nodup {l : List String} (hl : l.Pairwise (· < ·)) : l.Nodup := by
    refine hl.imp fun {s t} hlt heq => ?_
    subst heq
    exact String.lt_irrefl s hlt
  have hperm : a.Perm b := (List.perm_ext_iff_of_nodup (nodup ha) (nodup hb)).2 h
  exact hperm.eq_of_pairwise
    (fun s t _ _ hs ht => absurd (String.lt_trans hs ht) (String.lt_irrefl s)) ha hb

/-- A set of symbols.  Its members stand in increasing order, so sets with the same members are
equal, and a search from the front finds the least. -/
structure SymbolSet where
  symbols : List String
  increasing : symbols.Pairwise (· < ·)
deriving DecidableEq

namespace SymbolSet

def empty : SymbolSet := ⟨[], .nil⟩

def insert (s : String) (set : SymbolSet) : SymbolSet :=
  ⟨insertSymbol s set.symbols, pairwise_insertSymbol s set.increasing⟩

def ofList (l : List String) : SymbolSet :=
  l.foldl (fun set s => set.insert s) empty

def isEmpty (set : SymbolSet) : Bool :=
  set.symbols.isEmpty

instance : Membership String SymbolSet := ⟨fun set s => s ∈ set.symbols⟩

instance (s : String) (set : SymbolSet) : Decidable (s ∈ set) :=
  inferInstanceAs (Decidable (s ∈ set.symbols))

@[simp] theorem mem_symbols {s : String} {set : SymbolSet} : s ∈ set.symbols ↔ s ∈ set := Iff.rfl

@[simp] theorem mem_insert {s x : String} {set : SymbolSet} : x ∈ set.insert s ↔ x = s ∨ x ∈ set :=
  mem_insertSymbol

theorem mem_foldl_insert {x : String} (l : List String) : ∀ set : SymbolSet,
    x ∈ l.foldl (fun set s => set.insert s) set ↔ x ∈ l ∨ x ∈ set := by
  induction l with
  | nil => simp
  | cons s l ih =>
    intro set
    rw [List.foldl_cons, ih, mem_insert, List.mem_cons]
    exact ⟨by rintro (h | h | h) <;> simp [h], by rintro ((h | h) | h) <;> simp [h]⟩

theorem mem_ofList {x : String} {l : List String} : x ∈ ofList l ↔ x ∈ l := by
  rw [ofList, mem_foldl_insert]
  exact or_iff_left (List.not_mem_nil)

theorem eq_of_mem_iff {a b : SymbolSet} (h : ∀ s, s ∈ a ↔ s ∈ b) : a = b := by
  have hsymbols : a.symbols = b.symbols := eq_of_increasing a.increasing b.increasing h
  cases a
  cases b
  cases hsymbols
  rfl

end SymbolSet

end CompletionCheck.Fixture
