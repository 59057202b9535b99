import CompletionCheck.Lsp.Reader
import Mathlib.Data.List.Induction

/-!
# Lines of a header block

What a line says is decided from its bytes alone.  Three kinds of lines are told apart here without
the reader: a blank line is nothing but carriage returns; a header is a text with a colon, which
gives a length when its name is `Content-Length` in any case (`Header`); everything else is at fault,
and the fault has a name (`LineFault`).  A header whose name asks for a length must spell one
(`Spells`).

Every line is of one of these kinds (`line_cases`), and the reader takes it as being of that kind:
`ofBytes_blank`, `ofBytes_header`, `ofBytes_fault`.  So no line is of two kinds.

The carriage returns at the end of a line are cut off before it is looked at, which can be seen in
the text of a fault only: they stand behind the colon, and the value there is trimmed anyway.
-/

namespace CompletionCheck.Lsp

/-- A number of 64 bits in decimal digits. -/
structure SpellsPlain (digits : List Char) (n : Nat) : Prop where
  nonempty : digits ≠ []
  decimal : ∀ c ∈ digits, c.isDigit = true
  value : Nat.ofDigitChars 10 digits 0 = n
  fits : n < 0x10000000000000000

/-- A number of 64 bits in decimal digits, with or without a plus sign before them. -/
def Spells (cs : List Char) (n : Nat) : Prop :=
  SpellsPlain cs n ∨ ∃ digits, cs = '+' :: digits ∧ SpellsPlain digits n

/-- A name that asks for a length. -/
def NamesLength (name : List Char) : Prop :=
  Reader.lowerAscii (Text.trim name) = "content-length".toList

/-- The bytes of a header, and the length that it gives, if it gives one. -/
inductive Header : List UInt8 → Option Nat → Prop
  | length {name value : List Char} {n : Nat} (unmarked : ':' ∉ name) (named : NamesLength name)
      (spelled : Spells (Text.trim value) n) :
      Header (Text.encode (name ++ ':' :: value)) (some n)
  | other {name value : List Char} (unmarked : ':' ∉ name) (named : ¬ NamesLength name) :
      Header (Text.encode (name ++ ':' :: value)) none

/-- The bytes of a line that is neither blank nor a header, and what is said of it. -/
inductive LineFault : List UInt8 → ServiceError → Prop
  | undecodable {line : List UInt8} (h : ∀ text, line ≠ Text.encode text) :
      LineFault line (.io .invalidData)
  | colonless {text : List Char} (k : Nat) (nonempty : text ≠ []) (unmarked : ':' ∉ text)
      (last : ∀ c ∈ text.getLast?, c ≠ '\r' ∧ c ≠ '\n') :
      LineFault (Text.encode (text ++ List.replicate k '\r'))
        (.protocol (.malformedHeader (String.ofList text)))
  | badLength {name value : List Char} (unmarked : ':' ∉ name) (named : NamesLength name)
      (misspelled : ∀ n, ¬ Spells (Text.trim value) n) :
      LineFault (Text.encode (name ++ ':' :: value))
        (.protocol (.badLength (String.ofList (Text.trim value))))

namespace Reader

/-! ## Lengths -/

/-- The number that decimal digits spell, if it fits 64 bits. -/
def plainValue? (digits : List Char) : Option Nat :=
  if digits.isEmpty || !digits.all Char.isDigit then none
  else
    let value := digits.foldl (fun n c => n * 10 + (c.toNat - '0'.toNat)) 0
    if value < 0x10000000000000000 then some value else none

theorem plainValue?_eq_some_iff {digits : List Char} {n : Nat} :
    plainValue? digits = some n ↔ SpellsPlain digits n := by
  have hvalue : digits.foldl (fun n c => n * 10 + (c.toNat - '0'.toNat)) 0
      = Nat.ofDigitChars 10 digits 0 := by
    rw [Nat.ofDigitChars_eq_foldl]
    simp only [Nat.mul_comm]
  unfold plainValue?
  rw [hvalue]
  dsimp only
  constructor
  · intro h
    split at h
    · cases h
    · next hdigits =>
        simp only [Bool.or_eq_true, List.isEmpty_iff, Bool.not_eq_true', not_or,
          Bool.not_eq_false, List.all_eq_true] at hdigits
        split at h
        · next hfits =>
            cases h
            exact ⟨hdigits.1, hdigits.2, rfl, hfits⟩
        · cases h
  · rintro ⟨hsome, hdecimal, rfl, hfits⟩
    rw [if_neg (by simpa [hsome] using hdecimal), if_pos hfits]

/-- A plus sign is no digit, so a text that begins with one spells a number behind it only. -/
theorem spells_plus_iff {rest : List Char} {n : Nat} :
    Spells ('+' :: rest) n ↔ SpellsPlain rest n := by
  have hplus : ¬ SpellsPlain ('+' :: rest) n := fun h =>
    absurd (h.decimal '+' List.mem_cons_self) (by decide)
  simp [Spells, hplus]

theorem lengthValue?_eq_some_iff {cs : List Char} {n : Nat} :
    lengthValue? cs = some n ↔ Spells cs n := by
  cases cs with
  | nil =>
      have hnil : ¬ SpellsPlain [] n := fun h => h.nonempty rfl
      simp [lengthValue?, Spells, hnil]
  | cons c rest =>
      by_cases hplus : c = '+'
      · subst hplus
        exact plainValue?_eq_some_iff.trans spells_plus_iff.symm
      · have hplain : lengthValue? (c :: rest) = plainValue? (c :: rest) := by
          rw [lengthValue?]
          simp only [hplus, if_false]
          rfl
        rw [hplain, plainValue?_eq_some_iff]
        simp [Spells, hplus]

/-! ## The end of a line -/

def stripEnd (text : List Char) : List Char :=
  (text.reverse.dropWhile fun c => c = '\r' || c = '\n').reverse

theorem stripEnd_marked (name value : List Char) :
    stripEnd (name ++ ':' :: value) = name ++ ':' :: stripEnd value := by
  unfold stripEnd
  rw [List.reverse_append, List.reverse_cons, List.append_assoc, List.dropWhile_append]
  split
  · next hreturns =>
      rw [List.isEmpty_iff.mp hreturns]
      simp
  · simp

theorem trim_stripEnd (value : List Char) : Text.trim (stripEnd value) = Text.trim value := by
  have hblank : ∀ c ∈ (value.reverse.takeWhile fun c => c = '\r' || c = '\n').reverse,
      Text.isBlank c := by
    intro c hc
    have hend := List.all_eq_true.mp List.all_takeWhile c (List.mem_reverse.mp hc)
    rcases Bool.or_eq_true_iff.mp hend with hc | hc <;> rw [of_decide_eq_true hc] <;> decide
  unfold stripEnd
  rw [← Text.trim_append_blank _ hblank, ← List.reverse_append, List.takeWhile_append_dropWhile,
    List.reverse_reverse]

theorem stripEnd_append_returns {text : List Char} (k : Nat)
    (last : ∀ c ∈ text.getLast?, c ≠ '\r' ∧ c ≠ '\n') :
    stripEnd (text ++ List.replicate k '\r') = text := by
  have hreturns : ∀ c ∈ List.replicate k '\r', (c = '\r' || c = '\n') = true := by
    intro c hc
    rw [List.eq_of_mem_replicate hc]
    rfl
  unfold stripEnd
  rw [List.reverse_append, List.reverse_replicate, List.dropWhile_append_of_pos hreturns]
  cases hreverse : text.reverse with
  | nil => rw [← List.reverse_reverse text, hreverse]; rfl
  | cons c rest =>
      have hlast : text.getLast? = some c := by
        rw [← List.head?_reverse, hreverse, List.head?_cons]
      have hkept : (c = '\r' || c = '\n') = false := by simpa using last c hlast
      rw [List.dropWhile_cons_of_neg (by simp [hkept]), ← hreverse, List.reverse_reverse]

theorem exists_append_returns {text : List Char} (h : '\n' ∉ text) :
    ∃ front k, text = front ++ List.replicate k '\r' ∧
      ∀ c ∈ front.getLast?, c ≠ '\r' ∧ c ≠ '\n' := by
  induction text using List.reverseRecOn with
  | nil => exact ⟨[], 0, rfl, by simp⟩
  | append_singleton text c ih =>
      rw [List.mem_append, List.mem_singleton, not_or] at h
      by_cases hc : c = '\r'
      · obtain ⟨front, k, rfl, hlast⟩ := ih h.1
        refine ⟨front, k + 1, ?_, hlast⟩
        rw [hc, List.replicate_succ', List.append_assoc]
      · refine ⟨text ++ [c], 0, by simp, fun d hd => ?_⟩
        rw [List.getLast?_concat, Option.mem_some_iff] at hd
        rw [← hd]
        exact ⟨hc, Ne.symm h.2⟩

/-! ## The kinds of lines -/

theorem encode_returns (k : Nat) : Text.encode (List.replicate k '\r') = List.replicate k 13 := by
  induction k with
  | zero => rfl
  | succ k ih =>
      rw [List.replicate_succ, List.replicate_succ, Text.encode_cons, ih]
      rfl

theorem newline_mem_encode {text : List Char} (h : '\n' ∈ text) : 10 ∈ Text.encode text :=
  List.mem_flatMap.mpr ⟨'\n', h, by decide⟩

theorem ofBytes_blank (k : Nat) : HeaderLine.ofBytes (List.replicate k 13) = .blank := by
  have hstrip : stripEnd ([] ++ List.replicate k '\r') = [] := stripEnd_append_returns k (by simp)
  rw [← encode_returns, HeaderLine.ofBytes, Text.decode?_encode]
  dsimp only
  rw [← stripEnd, ← List.nil_append (List.replicate k '\r'), hstrip]
  rfl

theorem ofBytes_marked {name : List Char} (unmarked : ':' ∉ name) (value : List Char) :
    HeaderLine.ofBytes (Text.encode (name ++ ':' :: value))
      = if lowerAscii (Text.trim name) = "content-length".toList then
          (lengthValue? (Text.trim value)).elim (.badLength (Text.trim value)) .length
        else .other := by
  unfold HeaderLine.ofBytes
  rw [Text.decode?_encode]
  dsimp only
  rw [← stripEnd, stripEnd_marked, if_neg (by simp), Text.cutAt?_singleton unmarked]
  dsimp only
  rw [trim_stripEnd]
  cases lengthValue? (Text.trim value) <;> rfl

/-- What the reader takes a header for. -/
def HeaderLine.ofGiven : Option Nat → HeaderLine
  | some n => .length n
  | none => .other

theorem ofBytes_header {line : List UInt8} {given : Option Nat} (h : Header line given) :
    HeaderLine.ofBytes line = .ofGiven given := by
  cases h with
  | length unmarked named spelled =>
      unfold NamesLength at named
      rw [ofBytes_marked unmarked, if_pos named, lengthValue?_eq_some_iff.mpr spelled]
      rfl
  | other unmarked named =>
      unfold NamesLength at named
      rw [ofBytes_marked unmarked, if_neg named]
      rfl

theorem endLine_fault {line : List UInt8} {e : ServiceError} (h : LineFault line e) (seen : Bool)
    (length : Option Nat) : endLine line seen length = (.stopped (.failed e), none) := by
  unfold endLine
  cases h with
  | undecodable h =>
      have hnone : Text.decode? line = none := by
        cases hdecode : Text.decode? line with
        | none => rfl
        | some text => exact absurd (Text.decode?_eq_some_iff.mp hdecode) (h text)
      rw [HeaderLine.ofBytes, hnone]
  | @colonless text k nonempty unmarked last =>
      have hcut : Text.cutAt? [':'] text = none := by
        rw [← Option.not_isSome_iff_eq_none, Text.isSome_cutAt?_iff]
        exact fun hcolon => unmarked (hcolon.subset (List.mem_singleton_self ':'))
      have hofBytes : HeaderLine.ofBytes (Text.encode (text ++ List.replicate k '\r'))
          = .malformed text := by
        rw [HeaderLine.ofBytes, Text.decode?_encode]
        dsimp only
        rw [← stripEnd, stripEnd_append_returns k last, if_neg (by simpa using nonempty), hcut]
      rw [hofBytes]
      rfl
  | badLength unmarked named misspelled =>
      have hnone : lengthValue? (Text.trim _) = none :=
        Option.eq_none_iff_forall_ne_some.mpr fun n hn =>
          misspelled n (lengthValue?_eq_some_iff.mp hn)
      unfold NamesLength at named
      rw [ofBytes_marked unmarked, if_pos named, hnone]
      rfl

/-- Every line is blank, a header or at fault. -/
theorem line_cases {line : List UInt8} (h : 10 ∉ line) :
    (∃ k, line = List.replicate k 13) ∨ (∃ given, Header line given) ∨ ∃ e, LineFault line e := by
  cases hdecode : Text.decode? line with
  | none =>
      refine .inr (.inr ⟨_, .undecodable fun text htext => ?_⟩)
      rw [Text.decode?_eq_some_iff.mpr htext] at hdecode
      cases hdecode
  | some text =>
      obtain rfl := Text.decode?_eq_some_iff.mp hdecode
      by_cases hmark : ':' ∈ text
      · obtain ⟨name, value, rfl, hname⟩ := List.eq_append_cons_of_mem hmark
        by_cases hnamed : NamesLength name
        · by_cases hspelled : ∃ n, Spells (Text.trim value) n
          · obtain ⟨n, hn⟩ := hspelled
            exact .inr (.inl ⟨_, .length hname hnamed hn⟩)
          · exact .inr (.inr ⟨_, .badLength hname hnamed (not_exists.mp hspelled)⟩)
        · exact .inr (.inl ⟨_, .other hname hnamed⟩)
      · obtain ⟨front, k, rfl, hlast⟩ := exists_append_returns (mt newline_mem_encode h)
        cases front with
        | nil => exact .inl ⟨k, by rw [List.nil_append, encode_returns]⟩
        | cons c front =>
            refine .inr (.inr ⟨_, .colonless k (List.cons_ne_nil c front) ?_ hlast⟩)
            exact fun hc => hmark (List.mem_append_left _ hc)

end Reader

end CompletionCheck.Lsp
