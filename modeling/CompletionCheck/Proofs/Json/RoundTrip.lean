import CompletionCheck.Json.Parser
import CompletionCheck.Json.Printer
import CompletionCheck.Proofs.Json.Numerals

/-!
# A written value is read back

`Plain depth v` collects what a value needs to survive being written and read: its numbers are whole
and fit 64 bits, the members of its objects stand in increasing order of their keys, and arrays
and objects stand inside each other at most `depth` times.  The texts and keys are arbitrary.

Reading recurs on the nesting that is left, so the proof follows `Plain`: the items and members of
a container are read in a loop, one after the other, by a reader that is known to read each of
them.  The loops are dealt with for any such reader (`readItems_writeItems`,
`readMembers_writeMembers`).
-/

namespace CompletionCheck.Json

/-- A value that is written and read back as it is, with arrays and objects inside each other at
most `depth` times. -/
inductive Plain : Nat → Json → Prop
  | null {depth : Nat} : Plain depth .null
  | bool {depth : Nat} (b : Bool) : Plain depth (.bool b)
  | int {depth : Nat} {n : Int} (low : -0x8000000000000000 ≤ n) (high : n < 0x10000000000000000) :
      Plain depth (.int n)
  | str {depth : Nat} (s : String) : Plain depth (.str s)
  | arr {depth : Nat} {items : List Json} (plain : ∀ v ∈ items, Plain depth v) :
      Plain (depth + 1) (.arr items)
  | obj {depth : Nat} {members : List (String × Json)}
      (sorted : members.Pairwise fun m n => m.1 < n.1)
      (plain : ∀ m ∈ members, Plain depth m.2) : Plain (depth + 1) (.obj members)

/-! ## Strings -/

theorem hexDigit?_hexDigit : ∀ n < 16, hexDigit? (hexDigit n) = some n := by
  decide

theorem codeUnit?_control {c : Char} (h : c.toNat < 0x20) :
    codeUnit? '0' '0' (hexDigit (c.toNat / 16)) (hexDigit (c.toNat % 16)) = some c.toNat := by
  have zero : hexDigit? '0' = some 0 := by decide
  rw [codeUnit?, zero, hexDigit?_hexDigit _ (by omega), hexDigit?_hexDigit _ (by omega)]
  simp only [Option.some.injEq]
  omega

theorem readString_quote (acc rest : List Char) :
    readString acc ('"' :: rest) = some (String.ofList acc.reverse, rest) := by
  rw [readString.eq_def]
  exact if_pos rfl

theorem readString_escape (acc rest : List Char) {letter c : Char} (hu : letter ≠ 'u')
    (h : shortEscape? letter = some c) :
    readString acc ('\\' :: letter :: rest) = readString (c :: acc) rest := by
  rw [readString.eq_def]
  simp [hu, h]

theorem readString_control (acc rest : List Char) {c : Char} (h : c.toNat < 0x20) :
    readString acc ('\\' :: 'u' :: '0' :: '0' :: hexDigit (c.toNat / 16)
        :: hexDigit (c.toNat % 16) :: rest)
      = readString (c :: acc) rest := by
  have hlow : ¬ 0xdc00 ≤ c.toNat := by omega
  have hhigh : ¬ 0xd800 ≤ c.toNat := by omega
  rw [readString]
  simp [codeUnit?_control h, hlow, hhigh, Char.ofNat_toNat]

theorem readString_verbatim (acc rest : List Char) {c : Char} (hquote : c ≠ '"')
    (hslash : c ≠ '\\') (h : ¬ c.toNat < 0x20) :
    readString acc (c :: rest) = readString (c :: acc) rest := by
  rw [readString.eq_def]
  dsimp only
  rw [if_neg hquote, if_neg hslash, if_neg h]

/-- Each character takes one turn of the reader, whichever way it is written. -/
theorem readString_writeChar (acc : List Char) (c : Char) (rest : List Char) :
    readString acc (writeChar c ++ rest) = readString (c :: acc) rest := by
  unfold writeChar
  split_ifs with hquote hslash hb hf hn hr ht control
  · subst hquote; exact readString_escape acc rest (by decide) rfl
  · subst hslash; exact readString_escape acc rest (by decide) rfl
  · subst hb; exact readString_escape acc rest (by decide) rfl
  · subst hf; exact readString_escape acc rest (by decide) rfl
  · subst hn; exact readString_escape acc rest (by decide) rfl
  · subst hr; exact readString_escape acc rest (by decide) rfl
  · subst ht; exact readString_escape acc rest (by decide) rfl
  · exact readString_control acc rest control
  · exact readString_verbatim acc rest hquote hslash control

theorem readString_flatMap (cs : List Char) :
    ∀ (acc rest : List Char),
      readString acc (cs.flatMap writeChar ++ '"' :: rest)
        = some (String.ofList (acc.reverse ++ cs), rest) := by
  induction cs with
  | nil =>
      intro acc rest
      simpa using readString_quote acc rest
  | cons c cs ih =>
      intro acc rest
      rw [List.flatMap_cons, List.append_assoc, readString_writeChar, ih]
      simp

theorem readString_writeString (s : String) (rest : List Char) :
    readString [] (s.toList.flatMap writeChar ++ '"' :: rest) = some (s, rest) := by
  rw [readString_flatMap]
  simp

/-! ## The beginning of a value -/

theorem skipSpace_of_not_space {c : Char} {rest : List Char} (h : isSpace c = false) :
    skipSpace (c :: rest) = c :: rest := by
  simp [skipSpace, h]

theorem isSpace_of_number {c : Char} (h : c = '-' ∨ c.isDigit = true) : isSpace c = false := by
  cases hs : isSpace c with
  | false => rfl
  | true =>
      simp only [isSpace, Bool.or_eq_true, decide_eq_true_eq] at hs
      obtain ((rfl | rfl) | rfl) | rfl := hs <;> simp at h

theorem write_opens {depth : Nat} {v : Json} (h : Plain depth v) :
    ∃ c cs, v.write = c :: cs ∧ isSpace c = false ∧ c ≠ ']' := by
  cases h with
  | null => exact ⟨_, _, rfl, by decide, by decide⟩
  | bool b => cases b <;> exact ⟨_, _, rfl, by decide, by decide⟩
  | int low high =>
      obtain ⟨c, cs, hcs, hc⟩ := toString_opens _
      refine ⟨c, cs, hcs, isSpace_of_number hc, ?_⟩
      rintro rfl
      simp at hc
  | str s => exact ⟨_, _, rfl, by decide, by decide⟩
  | arr plain => exact ⟨_, _, rfl, by decide, by decide⟩
  | obj sorted plain => exact ⟨_, _, rfl, by decide, by decide⟩

/-! ## Items and members -/

/-- A reader that reads a written value whatever follows it, as long as the value ends there. -/
def Reads (read : List Char → Option (Json × List Char)) (v : Json) : Prop :=
  ∀ rest, Ends rest → read (v.write ++ rest) = some (v, rest)

theorem ends_comma (rest : List Char) : Ends (',' :: rest) :=
  Ends.cons rest (by decide)

theorem ends_bracket (rest : List Char) : Ends (']' :: rest) :=
  Ends.cons rest (by decide)

theorem ends_brace (rest : List Char) : Ends ('\x7d' :: rest) :=
  Ends.cons rest (by decide)

section Items

variable {item : List Char → Option (Json × List Char)} {v : Json}

theorem readItems_comma (h : Reads item v) (fuel : Nat) (acc : List Json) (rest : List Char) :
    readItems item (fuel + 1) acc (v.write ++ ',' :: rest)
      = readItems item fuel (v :: acc) rest := by
  rw [readItems, h _ (ends_comma rest)]
  rfl

theorem readItems_bracket (h : Reads item v) (fuel : Nat) (acc : List Json) (rest : List Char) :
    readItems item (fuel + 1) acc (v.write ++ ']' :: rest) = some ((v :: acc).reverse, rest) := by
  rw [readItems, h _ (ends_bracket rest)]
  rfl

theorem readItems_writeItems {items : List Json} (hne : items ≠ [])
    (h : ∀ v ∈ items, Reads item v) (rest : List Char) :
    ∀ (fuel : Nat) (acc : List Json), items.length ≤ fuel →
      readItems item fuel acc (writeItems items ++ ']' :: rest)
        = some (acc.reverse ++ items, rest) := by
  induction items with
  | nil => exact absurd rfl hne
  | cons v others ih =>
      intro fuel acc hfuel
      rw [List.length_cons] at hfuel
      obtain ⟨fuel, rfl⟩ : ∃ n, fuel = n + 1 := ⟨fuel - 1, by omega⟩
      have hv := h v List.mem_cons_self
      cases others with
      | nil =>
          rw [writeItems, readItems_bracket hv, List.reverse_cons]
      | cons w others =>
          rw [writeItems, List.append_assoc, List.cons_append, readItems_comma hv,
            ih (List.cons_ne_nil _ _) (fun x hx => h x (List.mem_cons_of_mem _ hx)) fuel (v :: acc)
              (by omega)]
          simp

theorem length_le_writeItems (items : List Json) :
    items.length ≤ (writeItems items).length + 1 := by
  induction items with
  | nil => exact Nat.zero_le _
  | cons v others ih =>
      cases others with
      | nil => simp
      | cons w others =>
          simp only [writeItems, List.length_append, List.length_cons] at ih ⊢
          omega

end Items

theorem insertMember_of_lt {key : String} {members : List (String × Json)}
    (h : ∀ m ∈ members, m.1 < key) (v : Json) :
    insertMember key v members = members ++ [(key, v)] := by
  induction members with
  | nil => rfl
  | cons m others ih =>
      have hm : m.1 < key := h m List.mem_cons_self
      have hne : key ≠ m.1 := by
        intro heq
        rw [heq] at hm
        exact String.lt_irrefl _ hm
      rw [insertMember, if_neg (String.lt_asymm hm), if_neg hne,
        ih fun x hx => h x (List.mem_cons_of_mem _ hx), List.cons_append]

section Members

variable {value : List Char → Option (Json × List Char)} {v : Json}

theorem readMembers_member (h : Reads value v) (fuel : Nat) (acc : List (String × Json))
    (key : String) {c : Char} (rest : List Char) (ends : Ends (c :: rest))
    (hc : isSpace c = false) :
    readMembers value (fuel + 1) acc (writeString key ++ ':' :: v.write ++ c :: rest)
      = if c = ',' then readMembers value fuel (insertMember key v acc) rest
        else if c = '\x7d' then some (insertMember key v acc, rest)
        else none := by
  have text : writeString key ++ ':' :: v.write ++ c :: rest
      = '"' :: (key.toList.flatMap writeChar ++ '"' :: ':' :: (v.write ++ c :: rest)) := by
    simp [writeString]
  rw [text, readMembers, skipSpace_of_not_space (by decide)]
  dsimp only
  rw [if_pos rfl, readString_writeString]
  dsimp only
  rw [skipSpace_of_not_space (by decide)]
  dsimp only
  rw [if_pos rfl, h _ ends]
  dsimp only
  rw [skipSpace_of_not_space hc]

theorem readMembers_comma (h : Reads value v) (fuel : Nat) (acc : List (String × Json))
    (key : String) (rest : List Char) :
    readMembers value (fuel + 1) acc (writeString key ++ ':' :: v.write ++ ',' :: rest)
      = readMembers value fuel (insertMember key v acc) rest := by
  rw [readMembers_member h fuel acc key rest (ends_comma rest) (by decide), if_pos rfl]

theorem readMembers_brace (h : Reads value v) (fuel : Nat) (acc : List (String × Json))
    (key : String) (rest : List Char) :
    readMembers value (fuel + 1) acc (writeString key ++ ':' :: v.write ++ '\x7d' :: rest)
      = some (insertMember key v acc, rest) := by
  rw [readMembers_member h fuel acc key rest (ends_brace rest) (by decide), if_neg (by decide),
    if_pos rfl]

/-- One turn for each member; the keys come in order, so each goes to the end. -/
theorem readMembers_writeMembers {members : List (String × Json)} (hne : members ≠ [])
    (h : ∀ m ∈ members, Reads value m.2) (rest : List Char) :
    ∀ (fuel : Nat) (acc : List (String × Json)), members.length ≤ fuel →
      (acc ++ members).Pairwise (fun m n => m.1 < n.1) →
      readMembers value fuel acc (writeMembers members ++ '\x7d' :: rest)
        = some (acc ++ members, rest) := by
  induction members with
  | nil => exact absurd rfl hne
  | cons m others ih =>
      intro fuel acc hfuel sorted
      rw [List.length_cons] at hfuel
      obtain ⟨fuel, rfl⟩ : ∃ n, fuel = n + 1 := ⟨fuel - 1, by omega⟩
      obtain ⟨key, v⟩ := m
      have hv : Reads value v := h (key, v) List.mem_cons_self
      have before : ∀ m ∈ acc, m.1 < key := by
        intro m hm
        exact (List.pairwise_append.mp sorted).2.2 m hm (key, v) List.mem_cons_self
      cases others with
      | nil => rw [writeMembers, readMembers_brace hv, insertMember_of_lt before]
      | cons w others =>
          rw [List.append_cons] at sorted
          rw [writeMembers, List.append_assoc, List.cons_append, readMembers_comma hv,
            insertMember_of_lt before,
            ih (List.cons_ne_nil _ _) (fun x hx => h x (List.mem_cons_of_mem _ hx)) fuel _
              (by omega) sorted]
          simp

theorem length_le_writeMembers (members : List (String × Json)) :
    members.length ≤ (writeMembers members).length + 1 := by
  induction members with
  | nil => exact Nat.zero_le _
  | cons m others ih =>
      cases others with
      | nil => simp
      | cons w others =>
          simp only [writeMembers, List.length_append, List.length_cons] at ih ⊢
          omega

end Members

/-! ## Values -/

theorem readLiteral_append {word : List Char} {v : Json} (h : (word, v) ∈ literals)
    (rest : List Char) : readLiteral (word ++ rest) = some (v, rest) := by
  simp only [literals, List.mem_cons, Prod.mk.injEq, List.not_mem_nil, or_false] at h
  rcases h with ⟨rfl, rfl⟩ | ⟨rfl, rfl⟩ | ⟨rfl, rfl⟩ <;>
    simp [readLiteral, literals]

theorem readValue_literal {word : List Char} {v : Json} (h : (word, v) ∈ literals)
    (depth : Nat) (rest : List Char) : readValue depth (word ++ rest) = some (v, rest) := by
  have hread := readLiteral_append h rest
  simp only [literals, List.mem_cons, Prod.mk.injEq, List.not_mem_nil, or_false] at h
  rcases h with ⟨rfl, rfl⟩ | ⟨rfl, rfl⟩ | ⟨rfl, rfl⟩ <;>
    (rw [readValue.eq_def]; exact hread)

theorem readValue_string (depth : Nat) (rest : List Char) :
    readValue depth ('"' :: rest) = (readString [] rest).map fun (s, rest) => (.str s, rest) := by
  rw [readValue.eq_def]
  rfl

theorem readValue_number (depth : Nat) {c : Char} (hc : c = '-' ∨ c.isDigit = true)
    (rest : List Char) : readValue depth (c :: rest) = readNumber (c :: rest) := by
  have hquote : c ≠ '"' := by rintro rfl; simp at hc
  have hbracket : c ≠ '[' := by rintro rfl; simp at hc
  have hbrace : c ≠ '\x7b' := by rintro rfl; simp at hc
  rw [readValue.eq_def, skipSpace_of_not_space (isSpace_of_number hc)]
  simp [hquote, hbracket, hbrace, hc]

theorem readValue_items (depth : Nat) {c : Char} (hspace : isSpace c = false) (hc : c ≠ ']')
    (rest : List Char) :
    readValue (depth + 1) ('[' :: c :: rest)
      = (readItems (readValue depth) (c :: rest).length [] (c :: rest)).map
          fun (items, rest) => (.arr items, rest) := by
  rw [readValue, skipSpace_of_not_space (by decide)]
  simp [skipSpace_of_not_space hspace, hc]

theorem readValue_members (depth : Nat) {c : Char} (hspace : isSpace c = false)
    (hc : c ≠ '\x7d') (rest : List Char) :
    readValue (depth + 1) ('\x7b' :: c :: rest)
      = (readMembers (readValue depth) (c :: rest).length [] (c :: rest)).map
          fun (members, rest) => (.obj members, rest) := by
  rw [readValue, skipSpace_of_not_space (by decide)]
  simp [skipSpace_of_not_space hspace, hc]

theorem writeItems_opens {depth : Nat} {v : Json} (h : Plain depth v) (others : List Json) :
    ∃ c cs, writeItems (v :: others) = c :: cs ∧ isSpace c = false ∧ c ≠ ']' := by
  obtain ⟨c, cs, hcs, hc⟩ := write_opens h
  cases others with
  | nil => exact ⟨c, cs, by rw [writeItems, hcs], hc⟩
  | cons w others => exact ⟨c, _, by rw [writeItems, hcs, List.cons_append], hc⟩

theorem writeMembers_opens (m : String × Json) (others : List (String × Json)) :
    ∃ cs, writeMembers (m :: others) = '"' :: cs := by
  cases others with
  | nil => exact ⟨_, by rw [writeMembers, writeString, List.cons_append]; rfl⟩
  | cons w others => exact ⟨_, by rw [writeMembers, writeString, List.cons_append]; rfl⟩

theorem reads_arr {depth : Nat} {items : List Json} (plain : ∀ v ∈ items, Plain depth v)
    (h : ∀ v ∈ items, Reads (readValue depth) v) : Reads (readValue (depth + 1)) (.arr items) := by
  intro rest _
  rw [write, List.append_assoc, List.cons_append]
  cases items with
  | nil => rw [readValue.eq_def]; rfl
  | cons v others =>
      obtain ⟨c, cs, hcs, hspace, hc⟩ := writeItems_opens (plain v List.mem_cons_self) others
      have fuel : (v :: others).length ≤ (writeItems (v :: others) ++ ']' :: rest).length := by
        have := length_le_writeItems (v :: others)
        simp only [List.length_append, List.length_cons] at this ⊢
        omega
      have hread := readItems_writeItems (List.cons_ne_nil v others) h rest _ [] fuel
      show readValue (depth + 1) ('[' :: (writeItems (v :: others) ++ ']' :: rest)) = _
      rw [hcs, List.cons_append] at hread ⊢
      rw [readValue_items depth hspace hc, hread]
      rfl

theorem reads_obj {depth : Nat} {members : List (String × Json)}
    (sorted : members.Pairwise fun m n => m.1 < n.1)
    (h : ∀ m ∈ members, Reads (readValue depth) m.2) :
    Reads (readValue (depth + 1)) (.obj members) := by
  intro rest _
  rw [write, List.append_assoc, List.cons_append]
  cases members with
  | nil => rw [readValue.eq_def]; rfl
  | cons m others =>
      obtain ⟨cs, hcs⟩ := writeMembers_opens m others
      have fuel : (m :: others).length ≤ (writeMembers (m :: others) ++ '\x7d' :: rest).length := by
        have := length_le_writeMembers (m :: others)
        simp only [List.length_append, List.length_cons] at this ⊢
        omega
      have hread := readMembers_writeMembers (List.cons_ne_nil m others) h rest _ [] fuel sorted
      show readValue (depth + 1) ('\x7b' :: (writeMembers (m :: others) ++ '\x7d' :: rest)) = _
      rw [hcs, List.cons_append] at hread ⊢
      rw [readValue_members depth (by decide) (by decide), hread]
      rfl

theorem reads_of_plain {depth : Nat} {v : Json} (h : Plain depth v) :
    Reads (readValue depth) v := by
  -- By induction on how the value is built: the reader takes one off the nesting that is left
  -- where `Plain` does.
  induction h with
  | null =>
      intro rest _
      exact readValue_literal (by simp [literals, write]) _ rest
  | bool b =>
      intro rest _
      cases b with
      | true => exact readValue_literal (by simp [literals, write]) _ rest
      | false => exact readValue_literal (by simp [literals, write]) _ rest
  | @int depth n low high =>
      intro rest ends
      obtain ⟨c, cs, hcs, hc⟩ := toString_opens n
      have hread := readNumber_toString ends low high
      rw [write]
      rw [hcs, List.cons_append] at hread ⊢
      rw [readValue_number depth hc, hread]
  | str s =>
      intro rest _
      rw [write, writeString, List.append_assoc, List.cons_append, readValue_string]
      show (readString [] (s.toList.flatMap writeChar ++ '"' :: rest)).map _ = _
      rw [readString_writeString]
      rfl
  | arr plain ih => exact reads_arr plain ih
  | obj sorted plain ih => exact reads_obj sorted ih

theorem ofChars?_write {depth : Nat} {v : Json} (h : Plain depth v) :
    ofChars? depth v.write = some v := by
  have hread := reads_of_plain h [] Ends.nil
  rw [List.append_nil] at hread
  rw [ofChars?, hread]
  rfl

end CompletionCheck.Json
