import CompletionCheck.Lsp.Frame
import CompletionCheck.Proofs.Json.RoundTrip
import CompletionCheck.Proofs.Lsp.FrameGrammar

/-!
# Frames are read as they were written

A frame says how many bytes its body has, so a reader that stands between two frames takes the
bytes of a frame, gives its message, and stands between two frames again: it has looked at no byte
of what follows (`feed_frame`).  Whatever comes behind the frames is therefore read as if nothing
had been before it, be it further frames, the end of the stream or bytes that are no frame.

That the reader takes the frames which are written for frames is a matter of the grammar
(`framed_frame`).  What has to be shown is that the length is right, a fact about the header line
(`header_lengthLine`): it spells the number of bytes of the body, not of its characters.
-/

namespace CompletionCheck.Lsp

/-- A message that can be put into a frame and taken out of it: a value that JSON carries
unchanged, with a body that an address space can hold.  No sender can have a longer one. -/
structure Sendable (message : Json) : Prop where
  plain : Json.Plain Json.maxNesting message
  held : (body message).length ≤ Reader.maxLength

namespace Reader

/-! ## The header of a frame -/

theorem isDigit_range {c : Char} (h : c.isDigit = true) : 48 ≤ c.toNat ∧ c.toNat ≤ 57 :=
  Char.isDigit_iff_toNat.mp h

theorem isBlank_of_isDigit {c : Char} (h : c.isDigit = true) : Text.isBlank c = false := by
  have := isDigit_range h
  simp only [Text.isBlank, Bool.or_eq_false_iff, Bool.and_eq_false_iff, decide_eq_false_iff_not,
    beq_eq_false_iff_ne]
  omega

theorem newline_not_mem_digit {c : Char} (h : c.isDigit = true) :
    10 ∉ String.utf8EncodeChar c := by
  have range := isDigit_range h
  have size : c.utf8Size = 1 := by
    rw [Char.utf8Size_eq_one_iff, UInt32.le_iff_toNat_le]
    show c.toNat ≤ 127
    omega
  rw [String.utf8EncodeChar_eq_singleton size, List.mem_singleton]
  intro heq
  have bytes : (10 : UInt8).toNat = c.toNat % 256 := congrArg UInt8.toNat heq
  have ten : (10 : UInt8).toNat = 10 := rfl
  omega

theorem dropWhile_of_none {p : Char → Bool} {cs : List Char} (h : ∀ c ∈ cs, p c = false) :
    cs.dropWhile p = cs := by
  cases cs with
  | nil => rfl
  | cons c cs => rw [List.dropWhile_cons_of_neg (by simp [h c List.mem_cons_self])]

theorem trim_of_not_blank {cs : List Char} (h : ∀ c ∈ cs, Text.isBlank c = false) :
    Text.trim cs = cs := by
  have back : cs.reverse.dropWhile Text.isBlank = cs.reverse :=
    dropWhile_of_none fun c hc => h c (List.mem_reverse.mp hc)
  rw [Text.trim, Text.trimEnd, dropWhile_of_none h, back, List.reverse_reverse]

theorem spells_digits {n : Nat} (h : n < 0x10000000000000000) : Spells (Nat.toDigits 10 n) n :=
  .inl ⟨Nat.toDigits_ne_nil, fun _ hc => Json.isDigit_of_mem_digits hc,
    Nat.ofDigitChars_ten_toDigits, h⟩

/-- The header line of a body with this many bytes, without its line feed. -/
def lengthLine (n : Nat) : List Char :=
  "Content-Length: ".toList ++ Nat.toDigits 10 n ++ ['\r']

theorem newline_not_mem_lengthLine (n : Nat) : 10 ∉ Text.encode (lengthLine n) := by
  unfold lengthLine
  simp only [Text.encode_append, List.mem_append, not_or]
  refine ⟨⟨by decide +kernel, ?_⟩, by decide⟩
  intro hmem
  obtain ⟨c, hc, hbyte⟩ := List.mem_flatMap.mp hmem
  exact newline_not_mem_digit (Json.isDigit_of_mem_digits hc) hbyte

theorem header_lengthLine {n : Nat} (h : n < 0x10000000000000000) :
    Header (Text.encode (lengthLine n)) (some n) := by
  have colon : lengthLine n
      = "Content-Length".toList ++ ':' :: ([' '] ++ (Nat.toDigits 10 n ++ ['\r'])) := by
    have marked : "Content-Length: ".toList = "Content-Length".toList ++ [':', ' '] := by
      decide +kernel
    unfold lengthLine
    rw [marked, List.append_assoc, List.append_assoc]
    rfl
  have unmarked : ':' ∉ "Content-Length".toList := by decide +kernel
  have named : NamesLength "Content-Length".toList := by
    unfold NamesLength
    decide +kernel
  have space : ∀ c ∈ [' '], Text.isBlank c := List.forall_mem_singleton.mpr (by decide)
  have returns : ∀ c ∈ ['\r'], Text.isBlank c := List.forall_mem_singleton.mpr (by decide)
  have value : Text.trim ([' '] ++ (Nat.toDigits 10 n ++ ['\r'])) = Nat.toDigits 10 n := by
    rw [Text.trim_blank_append space, Text.trim_append_blank _ returns]
    exact trim_of_not_blank fun c hc => isBlank_of_isDigit (Json.isDigit_of_mem_digits hc)
  rw [colon]
  exact .length unmarked named (value.symm ▸ spells_digits h)

theorem encode_frameHeader (n : Nat) :
    Text.encode (frameHeader n) = (Text.encode (lengthLine n) ++ [10]) ++ blankLine 1 := by
  have newline : Text.encode ['\n'] = [10] := by decide
  have blank : Text.encode ['\r', '\n'] = blankLine 1 := by decide
  have split : frameHeader n = lengthLine n ++ ['\n'] ++ ['\r', '\n'] := by
    unfold frameHeader lengthLine
    simp only [Json.toList_toString_nat, List.append_assoc, List.cons_append, List.nil_append]
  rw [split, Text.encode_append, Text.encode_append, newline, blank]

/-! ## Frames -/

theorem carries_body {message : Json} (h : Json.Plain Json.maxNesting message) :
    Carries (Lsp.body message) message :=
  ⟨message.write, rfl, Json.ofChars?_write h⟩

theorem framed_frame {message : Json} (h : Sendable message) : Framed (frame message) [message] := by
  have fits : (Lsp.body message).length < 0x10000000000000000 := Nat.lt_of_le_of_lt h.held (by decide)
  have headers := Block.header .nil (newline_not_mem_lengthLine _) (header_lengthLine fits)
  have framed := Framed.frame 1 .nil headers h.held (carries_body h.plain)
  rw [frame, encode_frameHeader, List.append_assoc]
  exact framed

/-- A reader between two frames takes a frame, gives its message and is between two frames. -/
theorem feed_frame {message : Json} (h : Sendable message) :
    start.feed (frame message) = (start, [message]) :=
  (framed_frame h).feed

theorem framed_frames {messages : List Json} (h : ∀ m ∈ messages, Sendable m) :
    Framed (frames messages) messages := by
  induction messages with
  | nil => exact .nil
  | cons m messages ih =>
      rw [frames, List.flatMap_cons]
      exact (framed_frame (h m List.mem_cons_self)).append
        (ih fun x hx => h x (List.mem_cons_of_mem _ hx))

theorem feed_frames {messages : List Json} (h : ∀ m ∈ messages, Sendable m) :
    start.feed (frames messages) = (start, messages) :=
  (framed_frames h).feed

theorem frame_append_inj {m n : Json} (hm : Sendable m) (hn : Sendable n) {a b : List UInt8}
    (h : frame m ++ a = frame n ++ b) : m = n ∧ a = b := by
  have given := congrArg (fun bytes => (start.feed bytes).2) h
  simp only [feed_append, feed_frame hm, feed_frame hn, List.singleton_append] at given
  obtain ⟨rfl, -⟩ := List.cons.inj given
  exact ⟨rfl, List.append_cancel_left h⟩

/-- Frames are read as the messages they hold, and what follows them as if it stood alone. -/
theorem readAll_frames {messages : List Json} (h : ∀ m ∈ messages, Sendable m)
    (rest : List UInt8) :
    readAll (frames messages ++ rest) = (messages ++ (readAll rest).1, (readAll rest).2) ∧
      readAll (frames messages) = (messages, .ended) := by
  constructor
  · rw [readAll, readAll, feed_append, feed_frames h]
  · rw [readAll, feed_frames h]
    rfl

/-- A request with keys and texts beyond ASCII and the largest and least numbers. -/
def sampleRequest : Json :=
  .obj [("\n", .arr [.int 18446744073709551615, .int (-9223372036854775808), .obj []]),
    ("é", .str "\"\\\x01😀")]

theorem sendable_sampleRequest : Sendable sampleRequest where
  plain := by
    refine .obj (by decide +kernel) ?_
    simp only [List.mem_cons, List.not_mem_nil, or_false, forall_eq_or_imp, forall_eq]
    refine ⟨.arr ?_, .str _⟩
    simp only [List.mem_cons, List.not_mem_nil, or_false, forall_eq_or_imp, forall_eq]
    exact ⟨.int (by decide) (by decide), .int (by decide) (by decide), .obj .nil (by simp)⟩
  held := by decide +kernel

theorem readAll_frames_before_garbage :
    (∀ m ∈ [sampleRequest, sampleRequest], Sendable m) ∧
      readAll (frames [sampleRequest, sampleRequest] ++ Text.encode ['x', '\n'])
        = ([sampleRequest, sampleRequest], .failed (.protocol (.malformedHeader "x"))) := by
  have sendable : ∀ m ∈ [sampleRequest, sampleRequest], Sendable m := by
    simp [sendable_sampleRequest]
  refine ⟨sendable, (readAll_frames sendable (Text.encode ['x', '\n'])).1.trans ?_⟩
  rfl

end Reader

end CompletionCheck.Lsp
