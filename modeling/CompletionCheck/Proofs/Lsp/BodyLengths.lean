import CompletionCheck.Lsp.Wire
import CompletionCheck.Proofs.Lsp.Framing

/-!
# The lengths that bodies are said to have

A header says how long a body is before any byte of it is seen, and the reader believes it: it makes
room for the whole body and then waits for the bytes.  What can go wrong here is looked at for one
message at a time (`readMessage`), where a reading has an outcome that comes back to the caller
(`Returns`) or none.

A number that is no length of 64 bits is refused as a bad header.  Between these and the lengths that
an address space can hold there is a gap, the numbers from `maxLength + 1` to the largest of 64 bits.
They are read as lengths, there is no room for them, and the reading does not come back.  So it is *not*
true that every reading returns, nor that a body which is longer than what remains of the stream is
always reported as an unexpected end (`overlong_header_stops_reading`).  What is true is that nothing
else than such a length stops a reading: not a header that is repeated, signed or wrapped in blanks,
not a stream that ends where it should not (`readMessage_returns_iff`).

Memory counts as large enough for every body that an address space can hold.
-/

namespace CompletionCheck.Lsp

namespace Reader

/-! ## One message at a time -/

/-- Reads up to the end of a message, and gives the message and the bytes behind it, or why there is
none. -/
def readFrom : Reader → List UInt8 → Except Stop (Json × List UInt8)
  | r, [] => .error r.finish
  | r, b :: bytes =>
    match r.step b with
    | (_, some message) => .ok (message, bytes)
    | (r, none) => readFrom r bytes

def readMessage (bytes : List UInt8) : Except Stop (Json × List UInt8) :=
  start.readFrom bytes

/-- A message puts the reader back to where it was at the beginning. -/
def Resets (outcome : Reader × Option Json) : Prop :=
  outcome.2 = none ∨ outcome.1 = start

theorem resets_endBody (bytes : List UInt8) : Resets (endBody bytes) := by
  unfold endBody
  split
  · exact .inr rfl
  · exact .inl rfl

theorem resets_endHeader (length : Option Nat) : Resets (endHeader length) := by
  match length with
  | none => exact .inl rfl
  | some 0 => exact resets_endBody []
  | some (n + 1) =>
      rw [endHeader]
      split <;> exact .inl rfl

theorem resets_endLine (line : List UInt8) (seen : Bool) (length : Option Nat) :
    Resets (endLine line seen length) := by
  unfold endLine
  cases HeaderLine.ofBytes line with
  | blank =>
      cases seen with
      | true => exact resets_endHeader length
      | false => exact .inl rfl
  | _ => exact .inl rfl

theorem resets_step (r : Reader) (b : UInt8) : Resets (r.step b) := by
  match r with
  | .header line seen length =>
      rw [step]
      split
      · exact resets_endLine _ seen length
      · exact .inl rfl
  | .body 0 collected => exact resets_endBody _
  | .body (left + 1) collected => exact .inl rfl
  | .stopped why => exact .inl rfl

theorem feed_readFrom (bytes : List UInt8) : ∀ r : Reader,
    ((r.feed bytes).2, (r.feed bytes).1.finish) =
      match r.readFrom bytes with
      | .ok (message, rest) => (message :: (readAll rest).1, (readAll rest).2)
      | .error stop => ([], stop) := by
  induction bytes with
  | nil =>
      intro r
      rfl
  | cons b bytes ih =>
      intro r
      rw [feed_cons, readFrom]
      rcases hstep : r.step b with ⟨r', message⟩
      cases message with
      | none => simpa using ih r'
      | some message =>
          have hstart : r' = start := by simpa [Resets, hstep] using resets_step r b
          rw [hstart]
          rfl

/-- Reading a stream is reading its first message and then what stands behind it. -/
theorem readAll_eq_readMessage (bytes : List UInt8) :
    readAll bytes =
      match readMessage bytes with
      | .ok (message, rest) => (message :: (readAll rest).1, (readAll rest).2)
      | .error stop => ([], stop) :=
  feed_readFrom bytes start

theorem readMessage_eq_error_iff {bytes : List UInt8} {stop : Stop} :
    readMessage bytes = .error stop ↔ readAll bytes = ([], stop) := by
  rw [readAll_eq_readMessage]
  rcases readMessage bytes with stop' | ⟨message, rest⟩ <;> simp

/-- An outcome that comes back to the caller: a message, the clean end of the stream or an error. -/
inductive Returns : Except Stop (Json × List UInt8) → Prop
  | message (message : Json) (rest : List UInt8) : Returns (.ok (message, rest))
  | ended : Returns (.error .ended)
  | failed (e : ServiceError) : Returns (.error (.failed e))

theorem returns_iff {outcome : Except Stop (Json × List UInt8)} :
    Returns outcome ↔ outcome ≠ .error .tooLong := by
  constructor
  · rintro (_ | _ | _) <;> simp
  · intro h
    match outcome with
    | .ok (message, rest) => exact .message message rest
    | .error .ended => exact .ended
    | .error (.failed e) => exact .failed e
    | .error .tooLong => exact absurd rfl h

end Reader

open Reader

/-! ## Lengths have 64 bits -/

theorem Spells.fits {cs : List Char} {n : Nat} (h : Spells cs n) : n < 0x10000000000000000 := by
  rcases h with h | ⟨digits, -, h⟩
  · exact h.fits
  · exact h.fits

theorem Block.fits {block : List UInt8} {declared : Option Nat} (h : Block block declared) :
    ∀ n ∈ declared, n < 0x10000000000000000 := by
  induction h with
  | nil => simp
  | header before whole header ih =>
      intro n hn
      cases header with
      | length unmarked named spelled =>
          obtain rfl := Option.mem_some_iff.mp hn
          exact spelled.fits
      | other unmarked named => exact ih n hn

theorem Declares.fits {rest after : List UInt8} {n : Nat} (h : Declares rest n after) :
    n < 0x10000000000000000 := by
  cases h with
  | whole k headers => exact headers.fits n rfl
  | last k headers => exact headers.fits n rfl

/-! ## Bodies that are wanting -/

theorem wanting_tooLong_iff {n left : Nat} : Wanting n left .tooLong ↔ maxLength < n :=
  ⟨fun | .tooLong long => long, .tooLong⟩

theorem wanting_short_iff {n left : Nat} :
    Wanting n left (.failed (.io .unexpectedEof)) ↔ n ≤ maxLength ∧ left < n :=
  ⟨fun | .short held short => ⟨held, short⟩, fun ⟨held, short⟩ => .short held short⟩

/-- Behind blank lines, a stream asks for a body of `n` bytes, and has `after` for it. -/
def AsksFor (bytes : List UInt8) (n : Nat) (after : List UInt8) : Prop :=
  ∃ blanks rest, bytes = blanks ++ rest ∧ Framed blanks [] ∧ Declares rest n after

theorem asksFor_frameHeader {n : Nat} (fits : n < 0x10000000000000000) (after : List UInt8) :
    AsksFor (Text.encode (frameHeader n) ++ after) n after := by
  have headers := Block.header .nil (newline_not_mem_lengthLine n) (header_lengthLine fits)
  refine ⟨[], _, (List.nil_append _).symm, .nil, ?_⟩
  rw [encode_frameHeader, List.append_assoc]
  exact .whole 1 headers

theorem readAll_wanting_iff {bytes : List UInt8} {messages : List Json} {stop : Stop}
    (hstop : stop = .tooLong ∨ stop = .failed (.io .unexpectedEof)) :
    readAll bytes = (messages, stop) ↔
      ∃ front rest n after, bytes = front ++ rest ∧ Framed front messages ∧
        Declares rest n after ∧ Wanting n after.length stop := by
  rw [readAll_eq_iff]
  constructor
  · rintro ⟨front, rest, hbytes, hframed, htail⟩
    obtain ⟨n, after, hdeclares, hwanting⟩ := htail.exists_declared hstop
    exact ⟨front, rest, n, after, hbytes, hframed, hdeclares, hwanting⟩
  · rintro ⟨front, rest, n, after, hbytes, hframed, hdeclares, hwanting⟩
    exact ⟨front, rest, hbytes, hframed, hdeclares.tail hwanting⟩

theorem readMessage_wanting_iff {bytes : List UInt8} {stop : Stop}
    (hstop : stop = .tooLong ∨ stop = .failed (.io .unexpectedEof)) :
    readMessage bytes = .error stop ↔
      ∃ n after, AsksFor bytes n after ∧ Wanting n after.length stop := by
  rw [readMessage_eq_error_iff, readAll_wanting_iff hstop]
  constructor
  · rintro ⟨blanks, rest, n, after, hbytes, hblanks, hdeclares, hwanting⟩
    exact ⟨n, after, ⟨blanks, rest, hbytes, hblanks, hdeclares⟩, hwanting⟩
  · rintro ⟨n, after, ⟨blanks, rest, hbytes, hblanks, hdeclares⟩, hwanting⟩
    exact ⟨blanks, rest, n, after, hbytes, hblanks, hdeclares, hwanting⟩

theorem readMessage_tooLong_iff {bytes : List UInt8} :
    readMessage bytes = .error .tooLong ↔ ∃ n after, AsksFor bytes n after ∧ maxLength < n := by
  simp only [readMessage_wanting_iff (.inl rfl), wanting_tooLong_iff]

theorem readMessage_short_iff {bytes : List UInt8} :
    readMessage bytes = .error (.failed (.io .unexpectedEof)) ↔
      ∃ n after, AsksFor bytes n after ∧ n ≤ maxLength ∧ after.length < n := by
  simp only [readMessage_wanting_iff (.inr rfl), wanting_short_iff]

theorem readAll_tooLong_iff {bytes : List UInt8} :
    (readAll bytes).2 = .tooLong ↔ ∃ front messages rest n after, bytes = front ++ rest ∧
      Framed front messages ∧ Declares rest n after ∧ maxLength < n := by
  constructor
  · intro h
    have hread : readAll bytes = ((readAll bytes).1, .tooLong) := Prod.ext rfl h
    obtain ⟨front, rest, n, after, hbytes, hframed, hdeclares, hwanting⟩ :=
      (readAll_wanting_iff (.inl rfl)).mp hread
    exact ⟨front, _, rest, n, after, hbytes, hframed, hdeclares, wanting_tooLong_iff.mp hwanting⟩
  · rintro ⟨front, messages, rest, n, after, hbytes, hframed, hdeclares, long⟩
    rw [(readAll_wanting_iff (.inl rfl)).mpr
      ⟨front, rest, n, after, hbytes, hframed, hdeclares, .tooLong long⟩]

/-- To a client a length that there is no room for looks like the end of the stream. -/
theorem Wire.release_tooLong {front block : List UInt8} {messages : List Json} {n : Nat} (k : Nat)
    (framed : Framed front messages) (headers : Block block (some n)) (long : maxLength < n)
    (after : List UInt8) :
    (Wire.release { inFlight := front ++ (block ++ blankLine k ++ after) }).1
      = { messages, ended := true } := by
  have hfeed : start.feed (front ++ (block ++ blankLine k ++ after))
      = (stopped .tooLong, messages) := by
    rw [feed_append, framed.feed]
    dsimp only
    rw [feed_append, (Offence.tooLong k headers long).feed]
    dsimp only
    rw [feed_stopped, List.append_nil, List.append_nil]
  rw [Wire.release, hfeed]
  rfl

/-! ## When a reading returns -/

/-- A reading returns exactly if the stream asks for no body that an address space cannot hold.  Every
length that a stream asks for has 64 bits.  One that an address space cannot hold stops the reading,
and any other that is not met is an unexpected end of the stream; such an end has no other cause.
A whole stream stops being read for such a length exactly if it stands directly behind frames, and a
client then gets the messages of these and the end of the stream. -/
theorem Reader.readMessage_returns_iff (bytes : List UInt8) :
    (Returns (readMessage bytes) ↔ ∀ n after, AsksFor bytes n after → n ≤ maxLength) ∧
    (∀ n after, AsksFor bytes n after → n < 0x10000000000000000 ∧
      (maxLength < n → readMessage bytes = .error .tooLong)) ∧
    (readMessage bytes = .error (.failed (.io .unexpectedEof)) ↔
      ∃ n after, AsksFor bytes n after ∧ n ≤ maxLength ∧ after.length < n) ∧
    ((readAll bytes).2 = .tooLong ↔ ∃ front messages rest n after, bytes = front ++ rest ∧
      Framed front messages ∧ Declares rest n after ∧ maxLength < n) ∧
    ∀ front messages block n k after, bytes = front ++ (block ++ blankLine k ++ after) →
      Framed front messages → Block block (some n) → maxLength < n →
      (Wire.release { inFlight := bytes }).1 = { messages, ended := true } := by
  refine ⟨?_, fun n after hasks => ⟨?_, fun long => ?_⟩, readMessage_short_iff,
    readAll_tooLong_iff, ?_⟩
  · rw [returns_iff, ne_eq, readMessage_tooLong_iff]
    simp only [not_exists, not_and, Nat.not_lt]
  · obtain ⟨blanks, rest, -, -, hdeclares⟩ := hasks
    exact hdeclares.fits
  · exact readMessage_tooLong_iff.mpr ⟨n, after, hasks, long⟩
  · rintro front messages block n k after rfl framed headers long
    exact Wire.release_tooLong k framed headers long after

/-- A header with the least length that there is no room for, and nothing behind it. -/
theorem Reader.overlong_header_stops_reading :
    let bytes := Text.encode "Content-Length: 9223372036854775808\r\n\r\n".toList
    AsksFor bytes 9223372036854775808 [] ∧ maxLength < 9223372036854775808 ∧
      ¬ Returns (readMessage bytes) ∧
      readMessage bytes ≠ .error (.failed (.io .unexpectedEof)) := by
  intro bytes
  have hbytes : Text.encode (frameHeader 9223372036854775808) ++ [] = bytes := by decide +kernel
  have hasks : AsksFor bytes 9223372036854775808 [] := by
    rw [← hbytes]
    exact asksFor_frameHeader (by decide) []
  have long : maxLength < 9223372036854775808 := by decide
  have hread : readMessage bytes = .error .tooLong :=
    readMessage_tooLong_iff.mpr ⟨_, _, hasks, long⟩
  refine ⟨hasks, long, fun h => returns_iff.mp h hread, ?_⟩
  rw [hread]
  simp

end CompletionCheck.Lsp
